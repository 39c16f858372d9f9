/-!
Sixteen-bit words made of two bytes.  `join` and the two projections are inverse to each other.
-/

namespace Dmg

def join (high low : UInt8) : UInt16 :=
  high.toUInt16 <<< 8 ||| low.toUInt16

def highByte (word : UInt16) : UInt8 := (word >>> 8).toUInt8

def lowByte (word : UInt16) : UInt8 := word.toUInt8

def signExtend (offset : UInt8) : UInt16 :=
  if offset < 0x80 then offset.toUInt16 else 0xFF00 ||| offset.toUInt16

def displace (base : UInt16) (offset : UInt8) : UInt16 :=
  base + signExtend offset

theorem toNat_join (high low : UInt8) : (join high low).toNat = 256 * high.toNat + low.toNat := by
  have highBound := high.toNat_lt
  have lowBound := low.toNat_lt
  simp only [join, UInt16.toNat_or, UInt16.toNat_shiftLeft, UInt8.toNat_toUInt16]
  have shifted : high.toNat <<< (8 % 16) % 2 ^ 16 = 256 * high.toNat := by
    change high.toNat <<< 8 % 65536 = _
    simp only [Nat.shiftLeft_eq]
    omega
  change high.toNat <<< (8 % 16) % 2 ^ 16 ||| low.toNat = _
  rw [shifted, show 256 * high.toNat = 2 ^ 8 * high.toNat by rfl,
    ← Nat.two_pow_add_eq_or_of_lt lowBound]

theorem toNat_highByte (word : UInt16) : (highByte word).toNat = word.toNat / 256 := by
  have bound := word.toNat_lt
  simp only [highByte, UInt16.toNat_toUInt8, UInt16.toNat_shiftRight]
  change word.toNat >>> 8 % 256 = _
  simp only [Nat.shiftRight_eq_div_pow]
  omega

theorem toNat_lowByte (word : UInt16) : (lowByte word).toNat = word.toNat % 256 := by
  simp only [lowByte, UInt16.toNat_toUInt8]

theorem toNat_signExtend (offset : UInt8) :
    (signExtend offset).toNat =
      if offset.toNat < 128 then offset.toNat else 0xFF00 + offset.toNat := by
  have positive : offset < 0x80 ↔ offset.toNat < 128 := UInt8.lt_iff_toNat_lt
  simp only [signExtend, positive]
  split
  · exact UInt8.toNat_toUInt16 offset
  · exact toNat_join 0xFF offset

@[simp] theorem highByte_join (high low : UInt8) : highByte (join high low) = high := by
  have lowBound := low.toNat_lt
  apply UInt8.toNat_inj.mp
  rw [toNat_highByte, toNat_join]
  omega

@[simp] theorem lowByte_join (high low : UInt8) : lowByte (join high low) = low := by
  have lowBound := low.toNat_lt
  apply UInt8.toNat_inj.mp
  rw [toNat_lowByte, toNat_join]
  omega

@[simp] theorem join_highByte_lowByte (word : UInt16) :
    join (highByte word) (lowByte word) = word := by
  apply UInt16.toNat_inj.mp
  rw [toNat_join, toNat_highByte, toNat_lowByte]
  omega

end Dmg
