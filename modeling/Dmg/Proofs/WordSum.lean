import Dmg.Cpu.Execute
import Dmg.Proofs.Ripple

/-!
Sums of words.  A sum of two words is the byte adder's, on the low bytes first and then on the high
ones with the carry between them.  A word and a signed byte are added in the same way, the byte
extended by its sign, but the flags are those of the low bytes.
-/

namespace Dmg

theorem lowByte_signExtend (offset : UInt8) : lowByte (signExtend offset) = offset := by
  have bound := offset.toNat_lt
  rw [← UInt8.toNat_inj, toNat_lowByte, toNat_signExtend]
  split <;> omega

theorem highByte_signExtend (offset : UInt8) :
    highByte (signExtend offset) = if offset < 0x80 then 0x00 else 0xFF := by
  have bound := offset.toNat_lt
  have positive : offset < 0x80 ↔ offset.toNat < 128 := UInt8.lt_iff_toNat_lt
  rw [← UInt8.toNat_inj, toNat_highByte, toNat_signExtend]
  simp only [positive]
  split
  · exact Nat.div_eq_of_lt bound
  · change (0xFF00 + offset.toNat) / 256 = 255
    omega

theorem toNat_displace (base : UInt16) (offset : UInt8) :
    ((displace base offset).toNat : Int) = (base.toNat + offset.toInt8.toInt) % 65536 := by
  have bound := offset.toNat_lt
  have signed : offset.toInt8.toInt = (offset.toNat : Int).bmod (2 ^ 8) :=
    BitVec.toInt_eq_toNat_bmod _
  rw [displace, UInt16.toNat_add, toNat_signExtend, signed, Int.bmod_def]
  split <;> split <;> omega

namespace Alu

theorem sum_eq_join (left right : UInt16) :
    let low := add (lowByte left) (lowByte right)
    let high := addCarry (highByte left) (highByte right) low.flags.carry
    left + right = join high.value low.value := by
  intro low high
  have lower : low.value.toNat + 256 * low.flags.carry.toNat =
      (lowByte left).toNat + (lowByte right).toNat + 0 := account_addCarry _ _ false
  have upper : high.value.toNat + 256 * high.flags.carry.toNat =
      (highByte left).toNat + (highByte right).toNat + low.flags.carry.toNat :=
    account_addCarry _ _ low.flags.carry
  have valueBound := low.value.toNat_lt
  have highBound := high.value.toNat_lt
  rw [toNat_lowByte, toNat_lowByte] at lower
  rw [toNat_highByte, toNat_highByte] at upper
  rw [← UInt16.toNat_inj, UInt16.toNat_add, toNat_join]
  omega

/-- The flags of a sum of words are those of the high bytes' sum. -/
theorem addWord_eq (left right : UInt16) :
    let low := add (lowByte left) (lowByte right)
    let high := addCarry (highByte left) (highByte right) low.flags.carry
    addWord left right =
      { value := join high.value low.value
        flags := { halfCarry := high.flags.halfCarry, carry := high.flags.carry } } := by
  intro low high
  have lower : low.value.toNat + 256 * low.flags.carry.toNat =
      (lowByte left).toNat + (lowByte right).toNat + 0 := account_addCarry _ _ false
  have valueBound := low.value.toNat_lt
  have halfCarried : high.flags.halfCarry = true ↔ _ := halfCarry_addCarry _ _ low.flags.carry
  have carried : high.flags.carry = true ↔ _ := carry_addCarry _ _ low.flags.carry
  rw [toNat_lowByte, toNat_lowByte] at lower
  rw [toNat_highByte, toNat_highByte] at halfCarried carried
  have halfCarry : decide (left.toNat % 4096 + right.toNat % 4096 > 4095) =
      high.flags.halfCarry := by
    rw [Bool.eq_iff_iff, halfCarried, decide_eq_true_iff]
    omega
  have carry : decide (left.toNat + right.toNat > 65535) = high.flags.carry := by
    rw [Bool.eq_iff_iff, carried, decide_eq_true_iff]
    omega
  rw [addWord, sum_eq_join, halfCarry, carry]

/-- A word is displaced by the byte adder, and the flags are those of the low bytes' sum. -/
theorem addOffset_eq (base : UInt16) (offset : UInt8) :
    let low := add (lowByte base) offset
    let extension : UInt8 := if offset < 0x80 then 0x00 else 0xFF
    let high := addCarry (highByte base) extension low.flags.carry
    addOffset base offset =
      { value := join high.value low.value
        flags := { halfCarry := low.flags.halfCarry, carry := low.flags.carry } } := by
  intro low extension high
  have value : displace base offset = join high.value low.value := by
    have joined := sum_eq_join base (signExtend offset)
    simp only [lowByte_signExtend, highByte_signExtend] at joined
    exact joined
  have halfCarry : decide (base.toNat % 16 + offset.toNat % 16 > 15) = low.flags.halfCarry := by
    have nibble : base.toNat % 256 % 16 = base.toNat % 16 := by omega
    rw [Bool.eq_iff_iff, decide_eq_true_iff, ← nibble, ← toNat_lowByte]
    exact (halfCarry_addCarry (lowByte base) offset false).symm
  have carry : decide (base.toNat % 256 + offset.toNat > 255) = low.flags.carry := by
    rw [Bool.eq_iff_iff, decide_eq_true_iff, ← toNat_lowByte]
    exact (carry_addCarry (lowByte base) offset false).symm
  rw [addOffset, value, halfCarry, carry]

end Alu

/-- Sums of words agree with the byte adder in value and flags, those with a signed byte too, and
the two instructions that displace the stack pointer agree with each other: one leaves in SP what
the other leaves in HL, with the same flags. -/
theorem word_sums :
    (∀ left right : UInt16,
      let low := Alu.add (lowByte left) (lowByte right)
      let high := Alu.addCarry (highByte left) (highByte right) low.flags.carry
      Alu.addWord left right =
        { value := join high.value low.value
          flags :=
            { zero := false, subtract := false
              halfCarry := high.flags.halfCarry, carry := high.flags.carry } }) ∧
    (∀ (base : UInt16) (offset : UInt8),
      let low := Alu.add (lowByte base) offset
      let extension : UInt8 := if offset < 0x80 then 0x00 else 0xFF
      let high := Alu.addCarry (highByte base) extension low.flags.carry
      let sum := Alu.addOffset base offset
      sum =
        { value := join high.value low.value
          flags :=
            { zero := false, subtract := false
              halfCarry := low.flags.halfCarry, carry := low.flags.carry } } ∧
      (sum.value.toNat : Int) = (base.toNat + offset.toInt8.toInt) % 65536) ∧
    ∀ {β : Type} [Bus β] (wired : Wired β),
      let sum := Alu.addOffset wired.registers.sp wired.nextByte.1
      let added := wired.execute .addSp
      let loaded := wired.execute .loadHlSp
      added.2.registers.sp = sum.value ∧ loaded.2.registers.hl = sum.value ∧
        added.2.registers.flags = sum.flags ∧ loaded.2.registers.flags = sum.flags ∧
        added.2.registers.pc = loaded.2.registers.pc ∧ added.2.bus = loaded.2.bus ∧
        added.1 = loaded.1 := by
  refine ⟨Alu.addWord_eq, ?_, ?_⟩
  · intro base offset
    exact ⟨Alu.addOffset_eq base offset, toNat_displace base offset⟩
  · intro β _ wired
    have value := Registers.hl_setHl wired.nextByte.2.registers
      (Alu.addOffset wired.registers.sp wired.nextByte.1).value
    exact ⟨rfl, value, rfl, rfl, rfl, rfl, rfl⟩

end Dmg
