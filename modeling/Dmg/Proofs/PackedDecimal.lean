import Dmg.Proofs.Ripple

/-!
Packed decimals of many bytes.  Each byte is added or subtracted in binary and then adjusted, and
the carry that the adjustment leaves goes on to the next byte.
-/

namespace Dmg

def Packed (byte : UInt8) : Prop := byte.toNat / 16 ≤ 9 ∧ byte.toNat % 16 ≤ 9

instance (byte : UInt8) : Decidable (Packed byte) := inferInstanceAs (Decidable (_ ∧ _))

def twoDigits (byte : UInt8) : Nat := 10 * (byte.toNat / 16) + byte.toNat % 16

def decimal (bytes : List UInt8) : Nat := number 100 twoDigits bytes

theorem twoDigits_lt {byte : UInt8} (packed : Packed byte) : twoDigits byte < 100 := by
  obtain ⟨high, low⟩ := packed
  rw [twoDigits]
  omega

namespace Alu

def addDecimal (left right : UInt8) (carry : Bool) : AluResult :=
  let sum := addCarry left right carry
  decimalAdjust sum.value sum.flags

def subtractDecimal (left right : UInt8) (carry : Bool) : AluResult :=
  let difference := subtractCarry left right carry
  decimalAdjust difference.value difference.flags

theorem toNat_adjustment (low high : Bool) :
    (adjustment low high).toNat = 6 * low.toNat + 0x60 * high.toNat := by
  cases low <;> cases high <;> rfl

/-- Behind a sum each digit is mended if it has carried or is too large. -/
theorem adjust_sum (value : UInt8) {flags : Flags} (added : flags.subtract = false) :
    ∃ low high : Bool,
      (low = true ↔ flags.halfCarry = true ∨ 9 < value.toNat % 16) ∧
      (high = true ↔ flags.carry = true ∨ 0x99 < value.toNat) ∧
      (decimalAdjust value flags).value.toNat =
        (value.toNat + (6 * low.toNat + 0x60 * high.toNat)) % 256 ∧
      (decimalAdjust value flags).flags.carry = high := by
  refine ⟨flags.halfCarry || (!flags.subtract && value.toNat % 16 > 9),
    flags.carry || (!flags.subtract && value > 0x99), ?_, ?_, ?_, rfl⟩
  · simp [added]
  · simp [added, UInt8.lt_iff_toNat_lt]
  · simp only [decimalAdjust, added, Bool.false_eq_true, if_false, UInt8.toNat_add,
      toNat_adjustment]

/-- Behind a difference a digit is mended if it has borrowed, and the borrow stays. -/
theorem adjust_difference (value : UInt8) {flags : Flags} (subtracted : flags.subtract = true) :
    ((decimalAdjust value flags).value.toNat : Int) =
        (value.toNat - (6 * flags.halfCarry.toNat + 0x60 * flags.carry.toNat)) % 256 ∧
      (decimalAdjust value flags).flags.carry = flags.carry := by
  constructor
  · have valueBound := value.toNat_lt
    have amount := toNat_adjustment flags.halfCarry flags.carry
    have amountBound := (adjustment flags.halfCarry flags.carry).toNat_lt
    simp only [decimalAdjust, subtracted, if_true, Bool.not_true, Bool.false_and, Bool.or_false,
      UInt8.toNat_sub]
    omega
  · simp [decimalAdjust, subtracted]

theorem flags_decimalAdjust (value : UInt8) (flags : Flags) :
    let adjusted := decimalAdjust value flags
    adjusted.flags.halfCarry = false ∧ adjusted.flags.subtract = flags.subtract ∧
      (adjusted.flags.zero = true ↔ adjusted.value = 0) :=
  ⟨rfl, rfl, beq_iff_eq⟩

variable {left right : UInt8}

theorem digits_addDecimal (leftPacked : Packed left) (rightPacked : Packed right) (carry : Bool) :
    let result := addDecimal left right carry
    Packed result.value ∧
      twoDigits result.value + 100 * result.flags.carry.toNat =
        twoDigits left + twoDigits right + carry.toNat := by
  intro result
  obtain ⟨leftHigh, leftLow⟩ := leftPacked
  obtain ⟨rightHigh, rightLow⟩ := rightPacked
  have carryBound := Bool.toNat_lt carry
  have added : (addCarry left right carry).flags.subtract = false := rfl
  obtain ⟨low, high, lowMended, highMended, value, out⟩ :=
    adjust_sum (addCarry left right carry).value added
  rw [toNat_addCarry] at lowMended highMended value
  rw [halfCarry_addCarry] at lowMended
  rw [carry_addCarry] at highMended
  change result.value.toNat = _ at value
  change result.flags.carry = high at out
  rw [Packed, twoDigits, twoDigits, twoDigits, out, and_assoc]
  -- by which of the two digits are mended, since the sum is linear once that is known
  cases low <;> cases high <;>
    simp only [Bool.false_eq_true, false_iff, true_iff, Bool.toNat_true, Bool.toNat_false]
      at lowMended highMended value ⊢ <;>
    omega

theorem digits_subtractDecimal (leftPacked : Packed left) (rightPacked : Packed right)
    (carry : Bool) :
    let result := subtractDecimal left right carry
    Packed result.value ∧
      (twoDigits result.value : Int) - 100 * result.flags.carry.toNat =
        twoDigits left - (twoDigits right + carry.toNat) := by
  intro result
  obtain ⟨leftHigh, leftLow⟩ := leftPacked
  obtain ⟨rightHigh, rightLow⟩ := rightPacked
  have carryBound := Bool.toNat_lt carry
  have lowBorrows := halfCarry_subtractCarry left right carry
  have highBorrows := carry_subtractCarry left right carry
  have subtracted : (subtractCarry left right carry).flags.subtract = true := rfl
  obtain ⟨value, out⟩ := adjust_difference (subtractCarry left right carry).value subtracted
  rw [toNat_subtractCarry] at value
  change (result.value.toNat : Int) = _ at value
  change result.flags.carry = _ at out
  rw [Packed, twoDigits, twoDigits, twoDigits, out, and_assoc]
  generalize (subtractCarry left right carry).flags.halfCarry = low at lowBorrows value
  generalize (subtractCarry left right carry).flags.carry = high at highBorrows value
  cases low <;> cases high <;>
    simp only [Bool.false_eq_true, false_iff, true_iff, Bool.toNat_true, Bool.toNat_false]
      at lowBorrows highBorrows value ⊢ <;>
    omega

end Alu

namespace Packed

theorem accounts_addDecimal : Accounts 100 twoDigits Packed 1 Alu.addDecimal := by
  constructor
  case large => decide
  case digit_lt => exact fun byte => twoDigits_lt
  case valid_value =>
    intro left right leftPacked rightPacked carry
    exact (Alu.digits_addDecimal leftPacked rightPacked carry).1
  case account =>
    intro left right leftPacked rightPacked carry
    have law := (Alu.digits_addDecimal leftPacked rightPacked carry).2
    omega

theorem accounts_subtractDecimal : Accounts 100 twoDigits Packed (-1) Alu.subtractDecimal := by
  constructor
  case large => decide
  case digit_lt => exact fun byte => twoDigits_lt
  case valid_value =>
    intro left right leftPacked rightPacked carry
    exact (Alu.digits_subtractDecimal leftPacked rightPacked carry).1
  case account =>
    intro left right leftPacked rightPacked carry
    have law := (Alu.digits_subtractDecimal leftPacked rightPacked carry).2
    omega

end Packed

/-- Sums and differences of packed decimals of any length.  The bytes are packed decimals again and
hold the result as far as it fits, and the last carry tells whether there is more, or less than
nothing. -/
theorem decimal_chains {left right : List UInt8} (same : left.length = right.length)
    (leftPacked : ∀ byte ∈ left, Packed byte) (rightPacked : ∀ byte ∈ right, Packed byte)
    (carry : Bool) :
    let sum := chain Alu.addDecimal left right carry
    let difference := chain Alu.subtractDecimal left right carry
    let whole := 100 ^ left.length
    (sum.1.length = left.length ∧ (∀ byte ∈ sum.1, Packed byte) ∧
      decimal sum.1 = (decimal left + decimal right + carry.toNat) % whole ∧
      (sum.2 = true ↔ whole ≤ decimal left + decimal right + carry.toNat)) ∧
    (difference.1.length = left.length ∧ (∀ byte ∈ difference.1, Packed byte) ∧
      (decimal difference.1 : Int) = (decimal left - decimal right - carry.toNat) % whole ∧
      (difference.2 = true ↔ decimal left < decimal right + carry.toNat)) ∧
    ∀ value flags,
      let adjusted := Alu.decimalAdjust value flags
      adjusted.flags.halfCarry = false ∧ adjusted.flags.subtract = flags.subtract ∧
        (adjusted.flags.zero = true ↔ adjusted.value = 0) := by
  intro sum difference whole
  obtain ⟨sumLength, sumPacked⟩ :=
    Packed.accounts_addDecimal.bytes_chain same leftPacked rightPacked carry
  obtain ⟨total, carried⟩ :=
    Packed.accounts_addDecimal.chain_sum same leftPacked rightPacked carry
  obtain ⟨differenceLength, differencePacked⟩ :=
    Packed.accounts_subtractDecimal.bytes_chain same leftPacked rightPacked carry
  obtain ⟨rest, borrowed⟩ :=
    Packed.accounts_subtractDecimal.chain_difference same leftPacked rightPacked carry
  refine ⟨⟨sumLength, sumPacked, total, carried⟩,
    ⟨differenceLength, differencePacked, ?_, borrowed⟩, Alu.flags_decimalAdjust⟩
  exact_mod_cast rest

/-- 4599 and 5401. -/
theorem decimal_chains_wrap :
    let left : List UInt8 := [0x99, 0x45]
    let right : List UInt8 := [0x01, 0x54]
    decimal (chain Alu.addDecimal left right false).1 = 0 ∧
      (chain Alu.addDecimal left right false).2 = true ∧
      (decimal (chain Alu.subtractDecimal left right false).1 : Int) = 9198 ∧
      (chain Alu.subtractDecimal left right false).2 = true := by
  intro left right
  have leftPacked : ∀ byte ∈ left, Packed byte :=
    List.forall_mem_cons.mpr ⟨by decide, List.forall_mem_singleton.mpr (by decide)⟩
  have rightPacked : ∀ byte ∈ right, Packed byte :=
    List.forall_mem_cons.mpr ⟨by decide, List.forall_mem_singleton.mpr (by decide)⟩
  obtain ⟨⟨_, _, total, carried⟩, ⟨_, _, rest, borrowed⟩, _⟩ :=
    @decimal_chains left right rfl leftPacked rightPacked false
  have ofLeft : decimal left = 4599 := by decide
  have ofRight : decimal right = 5401 := by decide
  have whole : 100 ^ left.length = 10000 := rfl
  rw [ofLeft, ofRight, whole] at total carried rest
  rw [ofLeft, ofRight] at borrowed
  exact ⟨total, carried.mpr (by simp), rest, borrowed.mpr (by simp)⟩

end Dmg
