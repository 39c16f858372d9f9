/-!
Unsigned numerals in a given radix.  A numeral is at most one plus sign and then at least one
ASCII digit; it is refused when its value does not stay below a bound.
-/

namespace Dmg

/-- The value of an ASCII digit or letter, letters of both cases counting on from ten. -/
def digitValue? (symbol : Char) : Option Nat :=
  if '0' ≤ symbol ∧ symbol ≤ '9' then some (symbol.toNat - 48)
  else if 'a' ≤ symbol ∧ symbol ≤ 'z' then some (symbol.toNat - 87)
  else if 'A' ≤ symbol ∧ symbol ≤ 'Z' then some (symbol.toNat - 55)
  else none

def digit? (radix : Nat) (symbol : Char) : Option Nat :=
  (digitValue? symbol).filter (· < radix)

def digitsFrom? (radix : Nat) : Nat → List Char → Option Nat
  | value, [] => some value
  | value, symbol :: rest =>
      match digit? radix symbol with
      | some digit => digitsFrom? radix (radix * value + digit) rest
      | none => none

def withoutPlus : List Char → List Char
  | '+' :: rest => rest
  | symbols => symbols

def numeral? (radix bound : Nat) (symbols : List Char) : Option Nat :=
  match withoutPlus symbols with
  | [] => none
  | digits => (digitsFrom? radix 0 digits).filter (· < bound)

end Dmg
