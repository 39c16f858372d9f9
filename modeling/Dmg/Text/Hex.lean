/-!
Hexadecimal and padded text.  A number is written with uppercase digits in a fixed number of
places, the most significant place first.
-/

namespace Dmg

def hexDigit (digit : Nat) : Char :=
  if digit < 10 then Char.ofNat (48 + digit) else Char.ofNat (55 + digit)

def hexDigits : Nat → Nat → List Char
  | 0, _ => []
  | places + 1, number => hexDigits places (number / 16) ++ [hexDigit (number % 16)]

def hex (places number : Nat) : String :=
  String.ofList (hexDigits places number)

@[simp] theorem length_hexDigits (places number : Nat) :
    (hexDigits places number).length = places := by
  induction places generalizing number with
  | zero => rfl
  | succ places ih => simp [hexDigits, ih]

def hexByte (value : UInt8) : String := hex 2 value.toNat

def hexWord (value : UInt16) : String := hex 4 value.toNat

def paddedDecimal (places number : Nat) : String :=
  String.ofList (List.leftpad places '0' (Nat.toDigits 10 number))

def padRight (width : Nat) (text : String) : String :=
  text ++ String.ofList (List.replicate (width - text.length) ' ')

end Dmg
