import Dmg.Proofs.Turn

/-!
What every instruction does to the flags: which it leaves, which it clears, sets or complements, and
which it computes.
-/

namespace Dmg

inductive FlagEffect
  | keep | clear | set | flip | compute

namespace FlagEffect

def Allows : FlagEffect → Bool → Bool → Prop
  | keep, before, after => after = before
  | clear, _, after => after = false
  | set, _, after => after = true
  | flip, before, after => after = !before
  | compute, _, _ => True

end FlagEffect

structure FlagEffects where
  zero : FlagEffect := .keep
  subtract : FlagEffect := .keep
  halfCarry : FlagEffect := .keep
  carry : FlagEffect := .keep

namespace FlagEffects

def computed : FlagEffects := ⟨.compute, .compute, .compute, .compute⟩

structure Allow (effects : FlagEffects) (before after : Flags) : Prop where
  zero : effects.zero.Allows before.zero after.zero
  subtract : effects.subtract.Allows before.subtract after.subtract
  halfCarry : effects.halfCarry.Allows before.halfCarry after.halfCarry
  carry : effects.carry.Allows before.carry after.carry

theorem Allow.of_eq {before after : Flags} (same : after = before) :
    ({} : FlagEffects).Allow before after := by
  subst same
  exact ⟨rfl, rfl, rfl, rfl⟩

theorem Allow.computed (before after : Flags) : FlagEffects.computed.Allow before after :=
  ⟨trivial, trivial, trivial, trivial⟩

end FlagEffects

/-- What an operation does to each flag.  Those that are not here leave all four. -/
def Operation.flagEffects : Operation → FlagEffects
  | pop .af | arithmetic _ _ | arithmeticByte _ | shift _ _ => .computed
  | increment _ => { zero := .compute, subtract := .clear, halfCarry := .compute }
  | decrement _ => { zero := .compute, subtract := .set, halfCarry := .compute }
  | addHl _ => { subtract := .clear, halfCarry := .compute, carry := .compute }
  | addSp | loadHlSp =>
      { zero := .clear, subtract := .clear, halfCarry := .compute, carry := .compute }
  | rotateA _ => { zero := .clear, subtract := .clear, halfCarry := .clear, carry := .compute }
  | decimalAdjust => { zero := .compute, halfCarry := .clear, carry := .compute }
  | complement => { subtract := .set, halfCarry := .set }
  | setCarry => { subtract := .clear, halfCarry := .clear, carry := .set }
  | complementCarry => { subtract := .clear, halfCarry := .clear, carry := .flip }
  | testBit _ _ => { zero := .compute, subtract := .clear, halfCarry := .set }
  | _ => {}

/-! The flags of the arithmetic. -/

namespace Arithmetic

/-- The byte that the flags of an operation tell of; a comparison does not store it. -/
def outcome (operation : Arithmetic) (left right : UInt8) (carry : Bool) : UInt8 :=
  match operation with
  | compare => left - right
  | _ => (operation.apply left right carry).value

theorem zero_apply (operation : Arithmetic) (left right : UInt8) (carry : Bool) :
    (operation.apply left right carry).flags.zero = (operation.outcome left right carry == 0) := by
  cases operation with
  | compare => simp [apply, outcome, Alu.compare, Alu.subtract, Alu.subtractCarry, Alu.carryIn]
  | _ => rfl

theorem value_apply (operation : Arithmetic) (left right : UInt8) (carry : Bool) :
    (operation.apply left right carry).value =
      if operation = .compare then left else operation.outcome left right carry := by
  cases operation <;> rfl

end Arithmetic

theorem Rotation.apply_shifted (rotation : Rotation) (value : UInt8) (carry : Bool) :
    ∃ rotated out, rotation.apply value carry = Alu.shifted rotated out := by
  cases rotation
  all_goals exact ⟨_, _, rfl⟩

theorem Shift.apply_shifted (kind : Shift) (value : UInt8) (carry : Bool) :
    ∃ moved out, kind.apply value carry = Alu.shifted moved out := by
  cases kind with
  | rotate rotation => exact rotation.apply_shifted value carry
  | _ => exact ⟨_, _, rfl⟩

theorem Shift.zero_apply (kind : Shift) (value : UInt8) (carry : Bool) :
    (kind.apply value carry).flags.zero = ((kind.apply value carry).value == 0) := by
  obtain ⟨moved, out, same⟩ := kind.apply_shifted value carry
  rw [same]
  rfl

theorem Flags.toByte_ofByte (byte : UInt8) : (ofByte byte).toByte = byte &&& 0xF0 := by
  have everyByte : ∀ bits : BitVec 8, (ofByte ⟨bits⟩).toByte = ⟨bits⟩ &&& 0xF0 := by
    decide +kernel
  exact everyByte byte.toBitVec

def Registers.bytes (registers : Registers) : Registers :=
  { registers with sp := 0, pc := 0, ime := false }

theorem Registers.bytes_exchange (registers : Registers) (sp pc : UInt16) (ime : Bool) :
    ({ registers with sp, pc, ime } : Registers).bytes = registers.bytes := rfl

theorem Registers.flags_congr {left right : Registers} (same : left.bytes = right.bytes) :
    left.flags = right.flags := by
  have flags := congrArg Registers.flags same
  exact flags

theorem Registers.get_congr {left right : Registers} (same : left.bytes = right.bytes)
    (register : Register) : left.get register = right.get register := by
  have kept : ∀ registers : Registers, registers.bytes.get register = registers.get register := by
    intro registers
    cases register <;> rfl
  rw [← kept left, same, kept right]

namespace Wired

variable {β : Type}

/-! The flags of one operation. -/

section Execute

variable [Bus β] (wired : Wired β)

theorem flags_execute (operation : Operation) :
    operation.flagEffects.Allow wired.registers.flags
      (wired.execute operation).2.registers.flags := by
  cases operation with
  | arithmetic _ _ | arithmeticByte _ | shift _ _ => exact .computed _ _
  | increment slot | decrement slot | testBit _ slot => exact ⟨trivial, rfl, by constructor, rfl⟩
  | addHl _ => exact ⟨rfl, rfl, trivial, trivial⟩
  | addSp | loadHlSp => exact ⟨rfl, rfl, trivial, trivial⟩
  | rotateA rotation =>
      obtain ⟨rotated, out, same⟩ :=
        rotation.apply_shifted wired.registers.a wired.registers.flags.carry
      have flags := congrArg AluResult.flags same
      exact ⟨rfl, congrArg Flags.subtract flags, congrArg Flags.halfCarry flags, trivial⟩
  | decimalAdjust => exact ⟨trivial, rfl, rfl, trivial⟩
  | complement => exact ⟨rfl, rfl, rfl, rfl⟩
  | setCarry | complementCarry => exact ⟨rfl, rfl, rfl, rfl⟩
  | pop pair =>
      cases pair with
      | af => exact .computed _ _
      | _ => exact .of_eq rfl
  | halt => exact .of_eq (congrArg Registers.flags (halt_registers wired))
  | stop =>
      apply FlagEffects.Allow.of_eq
      change (Wired.halt _).registers.flags = _
      rw [halt_registers]
      rfl
  | enableInterrupts =>
      apply FlagEffects.Allow.of_eq
      simp only [execute]
      split <;> rfl
  | load target source =>
      apply FlagEffects.Allow.of_eq
      cases source <;> rcases target with ⟨_ | _⟩ | _ <;> rfl
  | loadByte operand | resetBit _ operand | setBit _ operand =>
      apply FlagEffects.Allow.of_eq
      rcases operand with ⟨_ | _⟩ | _ <;> rfl
  | loadPair pair | incrementPair pair | decrementPair pair =>
      apply FlagEffects.Allow.of_eq
      cases pair <;> rfl
  | loadA operand | storeA operand =>
      apply FlagEffects.Allow.of_eq
      cases operand <;> rfl
  | _ => exact .of_eq rfl

def arithmetic? : Operation → Option (Arithmetic × UInt8)
  | .arithmetic operation source => some (operation, (wired.loadSlot source).1)
  | .arithmeticByte operation => some (operation, wired.nextByte.1)
  | _ => none

theorem arithmetic?_register (operation : Arithmetic) (register : Register) :
    wired.arithmetic? (.arithmetic operation (.register register)) =
      some (operation, wired.registers.get register) := rfl

theorem bytes_arithmetic {operation : Operation} {arithmetic : Arithmetic} {value : UInt8}
    (found : wired.arithmetic? operation = some (arithmetic, value)) :
    let result := arithmetic.apply wired.registers.a value wired.registers.flags.carry
    (wired.execute operation).2.registers.bytes =
      { wired.registers.bytes with a := result.value, flags := result.flags } := by
  cases operation with
  | arithmetic _ source =>
      cases found
      cases source <;> rfl
  | arithmeticByte =>
      cases found
      rfl
  | _ => cases found

theorem flags_shift (kind : Shift) (target : Slot) :
    let result := kind.apply (wired.loadSlot target).1 wired.registers.flags.carry
    (wired.execute (.shift kind target)).2.registers.flags = result.flags := rfl

theorem get_shift (kind : Shift) (register : Register) :
    (wired.execute (.shift kind (.register register))).2.registers.get register =
      (kind.apply (wired.registers.get register) wired.registers.flags.carry).value := by
  cases register <;> rfl

theorem bus_shift (kind : Shift) :
    (wired.execute (.shift kind .atHl)).2.bus =
      Bus.write (wired.loadSlot .atHl).2.bus wired.registers.hl
        (kind.apply (wired.loadSlot .atHl).1 wired.registers.flags.carry).value := rfl

theorem flags_pop : (wired.execute (.pop .af)).2.registers.flags =
    .ofByte (Bus.read wired.bus wired.registers.sp).1 := by
  have low : lowByte wired.pop.1 = (Bus.read wired.bus wired.registers.sp).1 := lowByte_join _ _
  rw [← low]
  rfl

end Execute

/-! A whole step, and every tick that does not end an operation. -/

section Step

variable [Bus β]

theorem bytes_push (wired : Wired β) (value : UInt16) :
    (wired.push value).registers.bytes = wired.registers.bytes := by
  have each : ∀ (wired : Wired β) value,
      (wired.pushByte value).registers.bytes = wired.registers.bytes :=
    fun wired _ => wired.registers.bytes_exchange _ _ _
  rw [push, each, each]

theorem bytes_pop (wired : Wired β) : wired.pop.2.registers.bytes = wired.registers.bytes := by
  have each : ∀ wired : Wired β, wired.popByte.2.registers.bytes = wired.registers.bytes :=
    fun wired => wired.registers.bytes_exchange _ _ _
  exact (each wired.popByte.2).trans (each wired)

theorem bytes_land (wired : Wired β) (jump : Jump) :
    (wired.land jump).registers.bytes = wired.registers.bytes := by
  cases jump with
  | goTo target => exact wired.registers.bytes_exchange _ target _
  | call target =>
      exact (Registers.bytes_exchange (wired.push wired.registers.pc).registers _ target _).trans
        (bytes_push wired _)
  | ret =>
      exact (wired.pop.2.registers.bytes_exchange _ wired.pop.1 _).trans (bytes_pop wired)
  | retEnable =>
      exact (wired.pop.2.registers.bytes_exchange _ wired.pop.1 true).trans (bytes_pop wired)

omit [Bus β] in
theorem bytes_expireDelay (wired : Wired β) :
    wired.expireDelay.registers.bytes = wired.registers.bytes := by
  rw [expireDelay_eq]
  exact wired.registers.bytes_exchange _ _ _

theorem bytes_retire (wired : Wired β) : wired.retire.registers.bytes = wired.registers.bytes := by
  rcases retire_cases wired with
    ⟨_, _, interrupt, _, same⟩ | ⟨_, ⟨_, same⟩ | ⟨_, _, same⟩ | ⟨_, _, same⟩⟩
  · have taken := congrArg (·.registers.bytes) (dispatch_cpu wired.pending.2 interrupt)
    rw [same]
    exact taken.trans (wired.registers.bytes_exchange _ _ _)
  all_goals
    rw [same]
    rfl

theorem bytes_fetch {wired : Wired β} {instruction : Instruction}
    (found : wired.instruction? = some instruction) :
    wired.fetch.2.registers.bytes = wired.registers.bytes := by
  rw [fetch_eq found]
  exact wired.registers.bytes_exchange _ _ _

theorem bytes_perform (wired : Wired β) (operation : Operation) :
    (wired.perform operation).registers.bytes =
      (wired.execute operation).2.registers.bytes := by
  cases executed : (wired.execute operation).1 with
  | none => rw [perform_of_straight executed]
  | some jump => rw [perform_of_branch executed, bytes_land]

/-- Neither the late half of a branch nor a dispatch touches what the operation has left. -/
theorem bytes_step {wired : Wired β} {instruction : Instruction}
    (fetching : wired.cpu.phase = .fetching) (found : wired.instruction? = some instruction) :
    wired.step.1 = .ok (wired.duration instruction.operation) ∧
      wired.step.2.registers.bytes =
        (wired.fetch.2.execute instruction.operation).2.registers.bytes := by
  obtain ⟨polled, phase, _, rfl, stepped⟩ := (runs_instruction fetching found).step
  have concluded : (wired.conclude instruction.operation).registers.bytes =
      (wired.fetch.2.execute instruction.operation).2.registers.bytes :=
    (bytes_expireDelay _).trans (bytes_perform _ _)
  rw [stepped]
  exact ⟨rfl, (bytes_retire _).trans concluded⟩

/-- Flags change on the tick that ends the cost of an operation, and on no other. -/
theorem flags_tick {wired : Wired β} (apart : ∀ remaining operation,
      wired.cpu.phase = .executing remaining (.operation operation) → 1 < remaining) :
    wired.tick.2.registers.flags = wired.registers.flags := by
  have turn := turn_tick wired
  generalize wired.tick = result at turn
  cases turn with
  | fault fetching missing => rfl
  | fetch fetching found =>
      have flags := Registers.flags_congr (bytes_fetch found)
      exact flags
  | counting more => rfl
  | branch phase due taken => exact absurd due (Nat.not_le_of_lt (apart _ _ phase))
  | @retires polled retires =>
      have ended := Registers.flags_congr (bytes_retire polled)
      refine ended.trans ?_
      cases retires with
      | operation phase due straight => exact absurd due (Nat.not_le_of_lt (apart _ _ phase))
      | jump =>
          exact Registers.flags_congr ((bytes_expireDelay _).trans (bytes_land wired _))
      | idle | halted => rfl

/-- What a step does to the flags.  The arithmetic and the shifts compute all four from what they
work on, and their zero flag tells whether the result is zero. -/
theorem flag_law {wired : Wired β} {instruction : Instruction}
    (fetching : wired.cpu.phase = .fetching) (found : wired.instruction? = some instruction) :
    let operation := instruction.operation
    let before := wired.registers
    let fetched := wired.fetch.2
    let after := wired.step.2.registers
    wired.step.1 = .ok (wired.duration operation) ∧
    operation.flagEffects.Allow before.flags after.flags ∧ after.f &&& 0x0F = 0 ∧
    (∀ arithmetic value, fetched.arithmetic? operation = some (arithmetic, value) →
      let outcome := arithmetic.outcome before.a value before.flags.carry
      after.flags = (arithmetic.apply before.a value before.flags.carry).flags ∧
      (after.flags.zero = true ↔ outcome = 0) ∧
      after.a = if arithmetic = .compare then before.a else outcome) ∧
    (∀ kind target, operation = .shift kind target →
      let result := kind.apply (fetched.loadSlot target).1 before.flags.carry
      after.flags = result.flags ∧ (after.flags.zero = true ↔ result.value = 0) ∧
      (∀ register, target = .register register → after.get register = result.value) ∧
      (target = .atHl → (fetched.execute operation).2.bus =
        Bus.write (fetched.loadSlot .atHl).2.bus fetched.registers.hl result.value)) ∧
    (operation = .pop .af → after.f = (Bus.read fetched.bus before.sp).1 &&& 0xF0) ∧
    ∀ other : Wired β, (∀ remaining operation,
        other.cpu.phase = .executing remaining (.operation operation) → 1 < remaining) →
      other.tick.2.registers.flags = other.registers.flags := by
  intro operation before fetched after
  obtain ⟨passes, same⟩ := bytes_step fetching found
  have start : fetched.registers.bytes = before.bytes := bytes_fetch found
  have startFlags : fetched.registers.flags = before.flags := Registers.flags_congr start
  have startA : fetched.registers.a = before.a := Registers.get_congr start .a
  have startSp : fetched.registers.sp = before.sp := by
    have fetch := congrArg (·.2.registers.sp) (fetch_eq found)
    exact fetch
  have flags : after.flags = (fetched.execute operation).2.registers.flags :=
    Registers.flags_congr same
  refine ⟨passes, ?_, after.flags.toByte_low, ?_, ?_, ?_, fun other apart => flags_tick apart⟩
  · rw [flags, ← startFlags]
    exact flags_execute fetched operation
  · intro arithmetic value given outcome
    have effect := same.trans (bytes_arithmetic fetched given)
    have afterFlags := congrArg Registers.flags effect
    have afterA := congrArg Registers.a effect
    rw [startA, startFlags] at afterFlags afterA
    have zero : after.flags.zero = (outcome == 0) :=
      (congrArg Flags.zero afterFlags).trans (arithmetic.zero_apply _ _ _)
    refine ⟨afterFlags, ?_, afterA.trans (arithmetic.value_apply _ _ _)⟩
    rw [zero, beq_iff_eq]
  · intro kind target shifts result
    have carry := congrArg Flags.carry startFlags
    have afterFlags : after.flags = result.flags := by
      rw [flags, shifts, flags_shift, carry]
    have zero : after.flags.zero = (result.value == 0) :=
      (congrArg Flags.zero afterFlags).trans (kind.zero_apply _ _)
    refine ⟨afterFlags, by rw [zero, beq_iff_eq], ?_, ?_⟩
    · rintro register rfl
      have kept : after.get register = (fetched.execute operation).2.registers.get register :=
        Registers.get_congr same register
      rw [kept, shifts, get_shift, carry]
      rfl
    · rintro rfl
      rw [shifts, bus_shift, carry]
  · intro pops
    rw [Registers.f, flags, pops, flags_pop, Flags.toByte_ofByte, startSp]

/-- Zero is added to zero. -/
theorem flag_law_add :
    (requested 0x87 0x00).step.2.registers.a = 0 ∧
      (requested 0x87 0x00).step.2.registers.flags = { zero := true } := by
  have found : (requested 0x87 0x00).instruction? =
      some ⟨0x87, false, .arithmetic .add (.register .a)⟩ :=
    instruction?_of_decode (requested_get 0x87 0x00).1 rfl
  have nothing : (requested 0x87 0x00).fetch.2.registers.get .a = 0 :=
    Registers.get_congr (bytes_fetch found) .a
  have operand := arithmetic?_register (requested 0x87 0x00).fetch.2 .add .a
  rw [nothing] at operand
  obtain ⟨_, _, _, sums, _⟩ := flag_law rfl found
  obtain ⟨flags, _, a⟩ := sums .add 0 operand
  exact ⟨a, flags⟩

end Step

end Wired

end Dmg
