import Dmg.Proofs.Encoding
import Dmg.Proofs.InstructionFrame
import Dmg.Proofs.OperandStream
import Dmg.Proofs.Ripple

/-!
Arithmetic on bytes.  The same operand byte gives the same result, whether it lies in a register, in
memory at HL or behind the opcode, and nothing is written to memory.
-/

namespace Dmg

namespace Arithmetic

def on (operation : Arithmetic) : Option Slot → Operation
  | some source => .arithmetic operation source
  | none => .arithmeticByte operation

def usesCarry : Arithmetic → Bool
  | addCarry | subtractCarry => true
  | _ => false

structure Computes (operation : Arithmetic) (left right : UInt8) (carry : Nat) (a : UInt8)
    (flags : Flags) : Prop where
  sum : operation = .add ∨ operation = .addCarry →
    a.toNat = (left.toNat + right.toNat + carry) % 256 ∧
      (flags.zero = true ↔ a = 0) ∧ flags.subtract = false ∧
      (flags.halfCarry = true ↔ 15 < left.toNat % 16 + right.toNat % 16 + carry) ∧
      (flags.carry = true ↔ 255 < left.toNat + right.toNat + carry)
  difference : operation = .subtract ∨ operation = .subtractCarry ∨ operation = .compare →
    let difference : Int := (left.toNat - right.toNat - carry) % 256
    (a.toNat : Int) = (if operation = .compare then (left.toNat : Int) else difference) ∧
      (flags.zero = true ↔ difference = 0) ∧ flags.subtract = true ∧
      (flags.halfCarry = true ↔ left.toNat % 16 < right.toNat % 16 + carry) ∧
      (flags.carry = true ↔ left.toNat < right.toNat + carry)
  and : operation = .and → a = left &&& right ∧ flags = { zero := a == 0, halfCarry := true }
  xor : operation = .xor → a = left ^^^ right ∧ flags = { zero := a == 0 }
  or : operation = .or → a = left ||| right ∧ flags = { zero := a == 0 }

theorem apply_congr {operation : Arithmetic} {left right : UInt8} {carry other : Bool}
    (same : (operation.usesCarry && carry) = (operation.usesCarry && other)) :
    operation.apply left right carry = operation.apply left right other := by
  cases operation with
  | addCarry | subtractCarry =>
      obtain rfl : carry = other := same
      rfl
  | _ => rfl

theorem computes_addCarry (operation : Arithmetic) (sums : operation = .add ∨ operation = .addCarry)
    (left right : UInt8) (carry : Bool) :
    let result := Alu.addCarry left right carry
    operation.Computes left right carry.toNat result.value result.flags := by
  intro result
  constructor
  case sum =>
    intro _
    exact ⟨Alu.toNat_addCarry left right carry, beq_iff_eq, rfl,
      Alu.halfCarry_addCarry left right carry, Alu.carry_addCarry left right carry⟩
  all_goals rcases sums with rfl | rfl <;> simp

theorem computes_subtractCarry (operation : Arithmetic)
    (differs : operation = .subtract ∨ operation = .subtractCarry ∨ operation = .compare)
    (left right : UInt8) (carry : Bool) :
    let result := Alu.subtractCarry left right carry
    operation.Computes left right carry.toNat
      (if operation = .compare then left else result.value) result.flags := by
  intro result
  have value : (result.value.toNat : Int) = (left.toNat - right.toNat - carry.toNat) % 256 :=
    Alu.toNat_subtractCarry left right carry
  have zero : result.flags.zero = true ↔
      ((left.toNat : Int) - right.toNat - carry.toNat) % 256 = 0 := by
    rw [← value, Int.natCast_eq_zero]
    exact beq_iff_eq.trans UInt8.toNat_inj.symm
  constructor
  case difference =>
    intro _
    refine ⟨?_, zero, rfl, Alu.halfCarry_subtractCarry left right carry,
      Alu.carry_subtractCarry left right carry⟩
    split
    · rfl
    · exact value
  all_goals rcases differs with rfl | rfl | rfl <;> simp

theorem computes_apply (operation : Arithmetic) (left right : UInt8) (carry : Bool) :
    let result := operation.apply left right carry
    operation.Computes left right (operation.usesCarry && carry).toNat result.value
      result.flags := by
  cases operation with
  | add => exact computes_addCarry .add (Or.inl rfl) left right false
  | addCarry => exact computes_addCarry .addCarry (Or.inr rfl) left right carry
  | subtract => exact computes_subtractCarry .subtract (Or.inl rfl) left right false
  | subtractCarry => exact computes_subtractCarry .subtractCarry (by simp) left right carry
  | compare => exact computes_subtractCarry .compare (by simp) left right false
  | and | xor | or => constructor <;> first | exact fun _ => ⟨rfl, rfl⟩ | simp

end Arithmetic

namespace Wired

variable {β : Type} [Bus β]

def operandPlace (wired : Wired β) : Option Slot → Option UInt16
  | some (.register _) => none
  | some .atHl => some wired.registers.hl
  | none => some wired.behindOpcode

def operandByte (wired : Wired β) : Option Slot → UInt8
  | some source => (wired.loadSlot source).1
  | none => (Bus.read wired.bus wired.behindOpcode).1

variable [Bus.Still β]

theorem arithmetic?_fetch {wired : Wired β} {operation : Arithmetic} {source : Option Slot}
    (found : wired.instruction? = some (operation.on source).instruction) :
    wired.fetch.2.arithmetic? (operation.on source) =
      some (operation, wired.operandByte source) := by
  have bytes := bytes_fetch found
  have bus : wired.fetch.2.bus = wired.bus := by
    rw [fetch_eq found]
    exact fetchedBus_still wired
  cases source with
  | none =>
      -- No arithmetic is on the extended page, so the fetch has passed the opcode alone.
      have pc : wired.fetch.2.registers.pc = wired.behindOpcode := by
        rw [fetch_eq found]
        exact UInt16.add_zero _
      change some (operation, (Bus.read wired.fetch.2.bus wired.fetch.2.registers.pc).1) = _
      rw [bus, pc]
      rfl
  | some slot =>
      cases slot with
      | register register =>
          change some (operation, wired.fetch.2.registers.get register) = _
          rw [Registers.get_congr bytes]
          rfl
      | atHl =>
          change some (operation, (Bus.read wired.fetch.2.bus wired.fetch.2.registers.hl).1) = _
          rw [bus, Registers.hl_congr bytes]
          rfl

omit [Bus β] [Bus.Still β] in
theorem duration_arithmetic (wired : Wired β) (operation : Arithmetic) (source : Option Slot) :
    wired.duration (operation.on source).instruction.operation =
      (operation.on source).cycles := by
  cases source <;> rfl

theorem step_arithmetic {wired : Wired β} {operation : Arithmetic} {source : Option Slot}
    (begins : wired.Begins (operation.on source)) :
    let result := operation.apply wired.registers.a (wired.operandByte source)
      wired.registers.flags.carry
    wired.step.1 = .ok (operation.on source).cycles ∧ wired.step.2.registers.a = result.value ∧
      wired.step.2.registers.flags = result.flags := by
  obtain ⟨passes, bytes⟩ := bytes_step begins.fetching begins.found
  have fetched := bytes_fetch begins.found
  have effect := bytes_arithmetic wired.fetch.2 (arithmetic?_fetch begins.found)
  have a : wired.fetch.2.registers.a = wired.registers.a := Registers.get_congr fetched .a
  have flags : wired.fetch.2.registers.flags = wired.registers.flags :=
    Registers.flags_congr fetched
  rw [a, flags] at effect
  have after := bytes.trans effect
  have afterA := congrArg Registers.a after
  have afterFlags := congrArg Registers.flags after
  rw [duration_arithmetic] at passes
  exact ⟨passes, afterA, afterFlags⟩

theorem bus_effect_arithmetic (wired : Wired β) (operation : Arithmetic) (source : Option Slot) :
    (wired.effect (operation.on source).instruction).bus = wired.bus := by
  rw [effect, expireDelay_eq]
  cases source with
  | none => rfl
  | some slot =>
      cases slot with
      | register _ => rfl
      | atHl => exact Bus.Still.read_bus _ _

theorem bus_effectWith_arithmetic (wired : Wired β) (operation : Arithmetic) (source : Option Slot)
    (operand behind : UInt16) :
    let instruction := (operation.on source).instruction
    (((wired.release instruction).logging
        (wired.encodingReads instruction.operation.reads)).effectWith instruction.operation operand
        behind).bus =
      { inner := wired.bus
        accesses := (.read wired.registers.pc (Bus.read wired.bus wired.registers.pc).1 ::
          ((wired.operandPlace source).toList.map
            (.read · (wired.operandByte source)))).toArray } := by
  cases source with
  | none => rfl
  | some slot =>
      cases slot with
      | register _ => rfl
      | atHl => exact congrArg (Recorder.mk · true _) (Bus.Still.read_bus wired.bus _)

/-- An arithmetic instruction computes from the accumulator, the operand byte and, if it uses it,
the carry flag, and from nothing else: where the operand byte comes from makes no difference. -/
theorem arithmetic_operand {wired : Wired β} {operation : Arithmetic} {source : Option Slot}
    (begins : wired.Begins (operation.on source)) :
    let before := wired.registers
    let after := wired.step.2.registers
    let value := wired.operandByte source
    let carry := operation.usesCarry && before.flags.carry
    let total := (operation.on source).cycles
    wired.step.1 = .ok total ∧
    operation.Computes before.a value carry.toNat after.a after.flags ∧
    (∀ (other : Wired β) (origin : Option Slot), other.Begins (operation.on origin) →
      other.registers.a = before.a → other.operandByte origin = value →
      (operation.usesCarry && other.registers.flags.carry) = carry →
      other.step.2.registers.a = after.a ∧ other.step.2.registers.flags = after.flags) ∧
    (∃ polled, wired.step = (.ok total, polled.retire.count) ∧
      (wired.after (total - 1)).Retires polled ∧ polled.bus = wired.bus) ∧
    ∃ told : Wired (Recorder β), wired.recorded.step = (.ok total, told.retire.count) ∧
      told.bus.inner = wired.bus ∧
      told.bus.accesses.toList = .read before.pc (Bus.read wired.bus before.pc).1 ::
        (wired.operandPlace source).toList.map (.read · value) := by
  intro before after value carry total
  obtain ⟨passes, a, flags⟩ := step_arithmetic begins
  refine ⟨passes, ?_, ?_, ?_, ?_⟩
  · rw [a, flags]
    exact operation.computes_apply before.a value before.flags.carry
  · intro other origin again sameA sameValue sameCarry
    obtain ⟨_, otherA, otherFlags⟩ := step_arithmetic again
    rw [sameA, sameValue, Arithmetic.apply_congr sameCarry] at otherA otherFlags
    exact ⟨otherA.trans a.symm, otherFlags.trans flags.symm⟩
  · obtain ⟨polled, phase, retires, same, stepped⟩ := step_effect begins.fetching begins.found
    rw [duration_arithmetic] at retires stepped
    refine ⟨polled, stepped, retires, ?_⟩
    rw [same]
    exact bus_effect_arithmetic wired operation source
  · obtain ⟨told, phase, stepped, same⟩ := step_reading begins.fetching begins.found
    rw [duration_arithmetic] at stepped
    refine ⟨told, stepped, ?_⟩
    rw [same, bus_ended, bus_effectWith_arithmetic]
    exact ⟨rfl, rfl⟩

/-- The opcode of a subtraction from zero, which lies at address zero, is subtracted by it. -/
theorem arithmetic_operand_opcode :
    let last := (requested 0x9E 0x00).step.2
    last.registers.a = 0x62 ∧ last.registers.flags.zero = false ∧
      last.registers.flags.halfCarry = true ∧ last.registers.flags.carry = true := by
  intro last
  have opcode : (requested 0x9E 0x00).bus.get 0 = 0x9E := (requested_get 0x9E 0x00).1
  have begins : (requested 0x9E 0x00).Begins (Arithmetic.subtractCarry.on (some .atHl)) :=
    ⟨rfl, nofun, opcode, nofun⟩
  have operand : (requested 0x9E 0x00).operandByte (some .atHl) = 0x9E := opcode
  obtain ⟨_, computes, _⟩ := arithmetic_operand begins
  rw [operand] at computes
  obtain ⟨value, zero, _, halfCarry, carry⟩ := computes.difference (by simp)
  refine ⟨UInt8.toNat_inj.mp (Int.ofNat_inj.mp value), ?_, ?_, ?_⟩
  · exact Bool.eq_false_iff.mpr fun on => absurd (zero.mp on) (by decide)
  · exact halfCarry.mpr (by decide)
  · exact carry.mpr (by decide)

end Wired

end Dmg
