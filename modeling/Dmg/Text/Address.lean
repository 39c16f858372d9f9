import Dmg.Text.Numeral

/-!
Addresses as people write them: `0x1234`, `0X1234` and `$1234` are hexadecimal, anything else is
decimal.
-/

namespace Dmg

def addressRadix : List Char → Nat × List Char
  | '0' :: 'x' :: rest => (16, rest)
  | '0' :: 'X' :: rest => (16, rest)
  | '$' :: rest => (16, rest)
  | symbols => (10, symbols)

def parseAddress? (text : String) : Option UInt16 :=
  let (radix, symbols) := addressRadix text.toList
  (numeral? radix 0x10000 symbols).map UInt16.ofNat

end Dmg
