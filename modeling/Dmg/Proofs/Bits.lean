import Dmg.Cpu.Alu
import Mathlib.Data.Nat.Bitwise

/-!
Single bits of a byte.  A mask of one bit finds that bit, and the processor tests, clears and sets
one bit without regard to the others.
-/

namespace Dmg

theorem toNat_and_mask (byte : UInt8) {place : Nat} (inside : place < 8) :
    (byte &&& UInt8.ofNat (2 ^ place)).toNat = (byte.toNat.testBit place).toNat * 2 ^ place := by
  have mask : 2 ^ place < 2 ^ 8 := Nat.pow_lt_pow_right (by decide) inside
  rw [UInt8.toNat_and, UInt8.toNat_ofNat_of_lt' mask, Nat.and_two_pow]

theorem mask_eq_zero (byte : UInt8) {place : Nat} (inside : place < 8) :
    byte &&& UInt8.ofNat (2 ^ place) = 0 ↔ byte.toNat.testBit place = false := by
  have mask := Nat.two_pow_pos place
  rw [← UInt8.toNat_inj, toNat_and_mask byte inside]
  cases byte.toNat.testBit place <;> simp

theorem mask_bne_zero (byte : UInt8) {place : Nat} (inside : place < 8) :
    (byte &&& UInt8.ofNat (2 ^ place) != 0) = byte.toNat.testBit place := by
  rw [Bool.eq_iff_iff, bne_iff_ne, ne_eq, mask_eq_zero byte inside, Bool.not_eq_false]

theorem mask_congr {left right : UInt8} {place : Nat} (inside : place < 8)
    (same : left.toNat.testBit place = right.toNat.testBit place) :
    left &&& UInt8.ofNat (2 ^ place) = right &&& UInt8.ofNat (2 ^ place) := by
  rw [← UInt8.toNat_inj, toNat_and_mask left inside, toNat_and_mask right inside, same]

theorem eq_of_bits {left right : UInt8}
    (same : ∀ place, left.toNat.testBit place = right.toNat.testBit place) : left = right :=
  UInt8.toNat_inj.mp (Nat.eq_of_testBit_eq same)

theorem testBit_of_le (byte : UInt8) {place : Nat} (outside : 8 ≤ place) :
    byte.toNat.testBit place = false :=
  Nat.testBit_lt_two_pow (byte.toNat_lt.trans_le (Nat.pow_le_pow_right (by decide) outside))

theorem testBit_not (byte : UInt8) (place : Nat) :
    (~~~byte).toNat.testBit place = (decide (place < 8) && !byte.toNat.testBit place) := by
  have size : UInt8.size - 1 - byte.toNat = 2 ^ 8 - (byte.toNat + 1) := by
    simp only [UInt8.size]
    omega
  rw [UInt8.toNat_not, size, Nat.testBit_two_pow_sub_succ byte.toNat_lt]

/-- Under a mask a byte gives way to another. -/
theorem testBit_merge (byte value mask : UInt8) (place : Nat) :
    (byte &&& ~~~mask ||| value &&& mask).toNat.testBit place =
      if mask.toNat.testBit place then value.toNat.testBit place
      else byte.toNat.testBit place := by
  simp only [UInt8.toNat_or, UInt8.toNat_and, Nat.testBit_or, Nat.testBit_and, testBit_not]
  by_cases inside : place < 8
  · cases mask.toNat.testBit place <;> simp [inside]
  · have outside := Nat.le_of_not_lt inside
    simp [testBit_of_le byte outside, testBit_of_le value outside]

theorem or_eq_merge (byte mask : UInt8) : byte ||| mask = byte &&& ~~~mask ||| 0xFF &&& mask := by
  have everything : 0xFF &&& mask = mask := UInt8.neg_one_and
  refine eq_of_bits fun place => ?_
  simp only [everything, UInt8.toNat_or, UInt8.toNat_and, Nat.testBit_or, Nat.testBit_and,
    testBit_not]
  by_cases inside : place < 8
  · cases mask.toNat.testBit place <;> simp [inside]
  · simp [testBit_of_le byte (Nat.le_of_not_lt inside)]

theorem Flags.eq_testBit (flags : Flags) :
    flags.zero = flags.toByte.toNat.testBit 7 ∧ flags.subtract = flags.toByte.toNat.testBit 6 ∧
      flags.halfCarry = flags.toByte.toNat.testBit 5 ∧
      flags.carry = flags.toByte.toNat.testBit 4 := by
  obtain ⟨zero, subtract, halfCarry, carry⟩ := flags
  cases zero <;> cases subtract <;> cases halfCarry <;> cases carry <;> decide

namespace Alu

variable (index : Fin 8) (value : UInt8) (place : Nat)

theorem bitMask_eq : bitMask index = UInt8.ofNat (2 ^ index.val) := by
  revert index
  decide

theorem testBit_bitMask : (bitMask index).toNat.testBit place = decide (index.val = place) := by
  have mask : 2 ^ index.val < 2 ^ 8 := Nat.pow_lt_pow_right (by decide) index.isLt
  rw [bitMask_eq, UInt8.toNat_ofNat_of_lt' mask, Nat.testBit_two_pow]

theorem zero_testBit :
    (testBit index value).zero = true ↔ value.toNat.testBit index = false := by
  rw [testBit, beq_iff_eq, bitMask_eq]
  exact mask_eq_zero value index.isLt

theorem testBit_setBit : (setBit index value).toNat.testBit place =
    (value.toNat.testBit place || decide (index.val = place)) := by
  rw [setBit, UInt8.toNat_or, Nat.testBit_or, testBit_bitMask]

theorem testBit_resetBit : (resetBit index value).toNat.testBit place =
    (value.toNat.testBit place && !decide (index.val = place)) := by
  rw [resetBit, UInt8.toNat_and, Nat.testBit_and, testBit_not, testBit_bitMask]
  by_cases inside : place < 8
  · simp [inside]
  · rw [testBit_of_le value (Nat.le_of_not_lt inside), Bool.false_and, Bool.false_and]

end Alu

end Dmg
