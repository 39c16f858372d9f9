import Dmg.Memory.MappedRegister

/-!
The bits of the status register.  Whoever writes to it changes bits of its own and keeps the rest:
a program the selects, the display the mode, and a change of one of the lines their comparison.
-/

namespace Dmg

theorem byte_or_and (left right mask : UInt8) :
    (left ||| right) &&& mask = left &&& mask ||| right &&& mask := by
  apply UInt8.eq_of_toBitVec_eq
  simp only [UInt8.toBitVec_and, UInt8.toBitVec_or, BitVec.and_or_distrib_right]

theorem byte_and_or (byte left right : UInt8) :
    byte &&& (left ||| right) = byte &&& left ||| byte &&& right := by
  rw [UInt8.and_comm, byte_or_and, UInt8.and_comm left, UInt8.and_comm right]

theorem byte_or_and_self (byte mask : UInt8) : (byte ||| mask) &&& mask = mask := by
  apply UInt8.eq_of_toBitVec_eq
  ext place
  simp only [UInt8.toBitVec_or, UInt8.toBitVec_and, BitVec.getElem_or, BitVec.getElem_and]
  cases mask.toBitVec[place] <;> simp

/-- Bytes that agree under a mask agree under every part of it. -/
theorem and_congr_of_part {left right mask part : UInt8} (same : left &&& mask = right &&& mask)
    (within : mask &&& part = part) : left &&& part = right &&& part := by
  rw [← within, ← UInt8.and_assoc, same, UInt8.and_assoc]

namespace Mapped

variable (mapped : Mapped)

theorem status_and (mask : UInt8) :
    mapped.status &&& mask = mapped.statusByte &&& mask ||| StatusBit.unused &&& mask :=
  byte_or_and _ _ _

theorem status_unused : mapped.status &&& 0x80 = 0x80 := byte_or_and_self _ _

theorem status_parts : mapped.status =
    0x80 ||| mapped.status &&& 0x78 ||| mapped.status &&& 0x04 ||| mapped.status &&& 0x03 := by
  have whole : (0x80 ||| 0x78 ||| 0x04 ||| 0x03 : UInt8) = 0xFF := by decide
  have everything : mapped.status &&& 0xFF = mapped.status := UInt8.and_neg_one
  have joined := byte_and_or mapped.status (0x80 ||| 0x78 ||| 0x04) 0x03
  rw [whole, everything, byte_and_or, byte_and_or, status_unused] at joined
  exact joined

theorem coincidence_iff : mapped.coincidence = true ↔ mapped.status &&& 0x04 ≠ 0 := by
  have apart : StatusBit.unused &&& 0x04 = 0 := by decide
  rw [status_and, apart, UInt8.or_zero]
  exact bne_iff_ne

/-! What follows from a change of the lines. -/

theorem status_updateCoincidence : mapped.updateCoincidence.status &&& 0x04 =
    if mapped.line = mapped.lineCompare then 0x04 else 0 := by
  have apart : StatusBit.unused &&& 0x04 = 0 ∧ ~~~StatusBit.coincidence &&& 0x04 = 0 := by decide
  rw [status_and, apart.1, UInt8.or_zero, updateCoincidence]
  split
  · exact byte_or_and_self _ _
  · rw [UInt8.and_assoc, apart.2, UInt8.and_zero]

theorem status_updateCoincidence_rest :
    mapped.updateCoincidence.status &&& 0xFB = mapped.status &&& 0xFB := by
  have apart : StatusBit.coincidence &&& 0xFB = 0 := by decide
  have kept : ~~~StatusBit.coincidence &&& 0xFB = 0xFB := by decide
  rw [status_and, status_and, updateCoincidence]
  split
  · rw [byte_or_and, apart, UInt8.or_zero]
  · rw [UInt8.and_assoc, kept]

theorem status_setLine (line : UInt8) : (mapped.setLine line).status &&& 0x04 =
    if line = mapped.lineCompare then 0x04 else 0 :=
  status_updateCoincidence _

theorem status_setLine_rest (line : UInt8) :
    (mapped.setLine line).status &&& 0xFB = mapped.status &&& 0xFB :=
  status_updateCoincidence_rest _

theorem coincidence_setLine (line : UInt8) :
    (mapped.setLine line).coincidence = decide (line = mapped.lineCompare) := by
  rw [Bool.eq_iff_iff, coincidence_iff, status_setLine, decide_eq_true_iff]
  split <;> simp [*]

/-! What the display sets. -/

theorem status_setMode (code : UInt8) :
    (mapped.setMode code).status &&& 0x03 = code &&& 0x03 := by
  have apart : StatusBit.unused &&& 0x03 = 0 ∧ ~~~StatusBit.mode &&& 0x03 = 0 := by decide
  have own : StatusBit.mode &&& 0x03 = 0x03 := by decide
  simp only [setMode, status_and, byte_or_and, UInt8.and_assoc, apart, own, UInt8.and_zero,
    UInt8.zero_or, UInt8.or_zero]

theorem status_setMode_rest (code : UInt8) :
    (mapped.setMode code).status &&& 0xFC = mapped.status &&& 0xFC := by
  have apart : StatusBit.mode &&& 0xFC = 0 := by decide
  have kept : ~~~StatusBit.mode &&& 0xFC = 0xFC := by decide
  simp only [setMode, status_and, byte_or_and, UInt8.and_assoc, apart, kept, UInt8.and_zero,
    UInt8.or_zero]

/-! What a program writes. -/

theorem status_write_self (value : UInt8) :
    (mapped.write .status value).status &&& 0x78 = value &&& 0x78 := by
  have apart : StatusBit.unused &&& 0x78 = 0 ∧ StatusBit.reported &&& 0x78 = 0 := by decide
  have own : StatusBit.writable &&& 0x78 = 0x78 := by decide
  simp only [write, status_and, byte_or_and, UInt8.and_assoc, apart, own, UInt8.and_zero,
    UInt8.zero_or, UInt8.or_zero]

theorem status_write_rest (value : UInt8) :
    (mapped.write .status value).status &&& 0x07 = mapped.status &&& 0x07 := by
  have apart : StatusBit.unused &&& 0x07 = 0 ∧ StatusBit.writable &&& 0x07 = 0 := by decide
  have kept : StatusBit.reported &&& 0x07 = 0x07 := by decide
  simp only [write, status_and, byte_or_and, UInt8.and_assoc, apart, kept, UInt8.and_zero,
    UInt8.zero_or, UInt8.or_zero]

/-- A program sets the selects through the status register only, and the mode not at all. -/
theorem status_write (register : MappedRegister) (value : UInt8) :
    (mapped.write register value).status &&& 0x78 =
      (if register = .status then value else mapped.status) &&& 0x78 ∧
    (mapped.write register value).status &&& 0x03 = mapped.status &&& 0x03 := by
  cases register with
  | status =>
      exact ⟨mapped.status_write_self value,
        and_congr_of_part (mapped.status_write_rest value) (by decide)⟩
  | line | lineCompare =>
      exact ⟨and_congr_of_part (status_updateCoincidence_rest _) (by decide),
        and_congr_of_part (status_updateCoincidence_rest _) (by decide)⟩
  | _ => exact ⟨rfl, rfl⟩

/-- The comparison bit of the status register is that of the lines as they stand. -/
def Sound (mapped : Mapped) : Prop :=
  mapped.status &&& 0x04 = if mapped.line = mapped.lineCompare then 0x04 else 0

theorem sound_powerOn : powerOn.Sound := status_updateCoincidence _

variable {mapped}

theorem Sound.write (sound : mapped.Sound) (register : MappedRegister) (value : UInt8) :
    (mapped.write register value).Sound := by
  cases register with
  | status =>
      exact (and_congr_of_part (mapped.status_write_rest value) (by decide)).trans sound
  | line | lineCompare => exact status_updateCoincidence _
  | _ => exact sound

theorem Sound.setMode (sound : mapped.Sound) (code : UInt8) : (mapped.setMode code).Sound :=
  (and_congr_of_part (mapped.status_setMode_rest code) (by decide)).trans sound

end Mapped

end Dmg
