/-!
The two checksums of compressed image files: a cyclic redundancy check of 32 bits and a pair of
sums modulo 65521.
-/

namespace Dmg

/-- The cyclic check's polynomial, its lowest power in the highest bit. -/
def cyclicPolynomial : UInt32 := 0xEDB88320

def cyclicShift (remainder : UInt32) : UInt32 :=
  if remainder &&& 1 = 1 then remainder >>> 1 ^^^ cyclicPolynomial else remainder >>> 1

def cyclicByte (remainder : UInt32) (byte : UInt8) : UInt32 :=
  Nat.repeat cyclicShift 8 (remainder ^^^ byte.toUInt32)

def cyclicCheck (bytes : Array UInt8) : UInt32 :=
  ~~~bytes.foldl cyclicByte 0xFFFFFFFF

def sumPair (bytes : Array UInt8) : UInt32 :=
  let (sum, sums) := bytes.foldl (fun (pair : UInt32 × UInt32) byte =>
    let sum := (pair.1 + byte.toUInt32) % 65521
    (sum, (pair.2 + sum) % 65521)) (1, 0)
  sums <<< 16 ||| sum

end Dmg
