import Dmg.Proofs.BusView
import Dmg.Proofs.HeldFetch

/-!
How much of the program an instruction takes up.  It reads the bytes of its encoding in order, one
after the other, and goes on behind them unless it branches.
-/

namespace Dmg

def stream {β : Type} [Bus β] (bus : β) (address : UInt16) : Nat → List Access
  | 0 => []
  | count + 1 => .read address (Bus.read bus address).1 :: stream bus (address + 1) count

namespace Wired

variable {β : Type} [Bus β]

def logging (wired : Wired β) (log : List Access) : Wired (Recorder β) :=
  ⟨wired.cpu, { inner := wired.bus, accesses := log.toArray }⟩

theorem bus_halt_goTo (wired : Wired β) (place : UInt16) :
    (wired.goTo place).halt.bus = wired.halt.bus := by
  simp only [halt]
  change Wired.bus (if wired.registers.ime then _ else if wired.pending.1 = 0 then _ else _) = _
  split
  · rfl
  · split <;> rfl

/-- What an operation accesses once its operand is known does not depend on where the program
counter stands. -/
theorem bus_executeWith_goTo (wired : Wired β) (place operand : UInt16) (operation : Operation) :
    ((wired.goTo place).executeWith operand operation).2.bus =
      (wired.executeWith operand operation).2.bus := by
  cases operation with
  | halt | stop => exact bus_halt_goTo wired place
  | enableInterrupts =>
      change Wired.bus (if wired.registers.ime then _ else _) =
        Wired.bus (if wired.registers.ime then _ else _)
      split <;> rfl
  | load target source => cases source <;> cases target <;> rfl
  | loadByte operand | arithmetic _ operand | increment operand | decrement operand
  | shift _ operand | testBit _ operand | resetBit _ operand | setBit _ operand =>
      cases operand <;> rfl
  | loadA operand | storeA operand => cases operand <;> rfl
  | _ => rfl

theorem instruction?_recorded (wired : Wired β) :
    wired.recorded.instruction? = wired.instruction? := by
  have answer : ∀ (recorder : Recorder β) address,
      (Bus.read recorder address).1 = (Bus.read recorder.inner address).1 :=
    fun recorder address => (congrArg Prod.fst (Recorder.view_inner.read recorder address)).symm
  have inner : (Bus.read wired.recorded.bus wired.registers.pc).2.inner =
      (Bus.read wired.bus wired.registers.pc).2 :=
    (congrArg Prod.snd (Recorder.view_inner.read wired.recorded.bus wired.registers.pc)).symm
  simp only [instruction?]
  change (if (Bus.read wired.recorded.bus wired.registers.pc).1 = extendedOpcode then
    some (Instruction.ofExtended
      (Bus.read (Bus.read wired.recorded.bus wired.registers.pc).2 wired.behindOpcode).1)
    else Instruction.base? (Bus.read wired.recorded.bus wired.registers.pc).1) = _
  rw [answer, answer, inner]
  rfl

theorem wordAt_recorder (recorder : Recorder β) (address : UInt16) :
    wordAt recorder address = wordAt recorder.inner address := by
  have first := Recorder.view_inner.read recorder address
  have second := Recorder.view_inner.read (Bus.read recorder address).2 (address + 1)
  simp only [wordAt, first, second]

variable [Bus.Still β]

theorem readOn_recorder (bus : β) (log : List Access) (address : UInt16) (count : Nat) :
    readOn ({ inner := bus, accesses := log.toArray } : Recorder β) address count =
      { inner := bus, accesses := (log ++ stream bus address count).toArray } := by
  induction count generalizing log address with
  | zero => rw [stream, List.append_nil, readOn]
  | succ count ih =>
      have noted : (Bus.read ({ inner := bus, accesses := log.toArray } : Recorder β) address).2 =
          { inner := bus
            accesses := (log ++ [Access.read address (Bus.read bus address).1]).toArray } := by
        rw [← List.push_toArray]
        exact congrArg (Recorder.mk · true _) (Bus.Still.read_bus bus address)
      rw [readOn, noted, ih, stream, List.append_assoc, List.singleton_append]

/-- The reads of an encoding.  While the program counter is held, the second is made where the first
was. -/
def encodingReads (wired : Wired β) (count : Nat) : List Access :=
  .read wired.registers.pc (Bus.read wired.bus wired.registers.pc).1 ::
    stream wired.bus wired.behindOpcode (count - 1)

omit [Bus.Still β] in
theorem encodingReads_of_advancing {wired : Wired β} (advancing : wired.cpu.haltBug = false)
    {count : Nat} (some : 0 < count) :
    wired.encodingReads count = stream wired.bus wired.registers.pc count := by
  obtain ⟨rest, rfl⟩ := Nat.exists_eq_add_one.mpr some
  rw [encodingReads, behindOpcode_of_advancing advancing]
  rfl

/-- The opcode and its operand are read in order before anything else is accessed. -/
theorem perform_reading {wired : Wired β} {instruction : Instruction}
    (found : wired.instruction? = some instruction) :
    wired.recorded.fetch.2.perform instruction.operation =
      (((wired.release instruction).logging
          (wired.encodingReads instruction.operation.reads)).effectWith instruction.operation
        (wordAt wired.bus wired.behindOpcode)
        (wired.behindOpcode + UInt16.ofNat instruction.operation.length - 1)).retime
        wired.recorded.fetch.2.cpu.phase wired.cpu.clock := by
  let opened := (Bus.read wired.recorded.bus wired.recorded.registers.pc).2
  have first : opened = (wired.logging [.read wired.registers.pc
      (Bus.read wired.bus wired.registers.pc).1]).bus :=
    congrArg (Recorder.mk · true _) (Bus.Still.read_bus wired.bus wired.registers.pc)
  have bus : readOn opened wired.behindOpcode (instruction.operation.reads - 1) =
      ((wired.release instruction).logging
        (wired.encodingReads instruction.operation.reads)).bus := by
    rw [first]
    exact readOn_recorder wired.bus _ _ _
  have word : wordAt opened wired.behindOpcode = wordAt wired.bus wired.behindOpcode := by
    rw [wordAt_recorder, first]
    rfl
  calc wired.recorded.fetch.2.perform instruction.operation
      _ = (((wired.recorded.release instruction).onBus (readOn opened wired.behindOpcode
            (instruction.operation.reads - 1))).effectWith instruction.operation
            (wordAt opened wired.behindOpcode)
            (wired.behindOpcode + UInt16.ofNat instruction.operation.length - 1)).retime
            wired.recorded.fetch.2.cpu.phase wired.cpu.clock :=
        perform_fetch_reading ((instruction?_recorded wired).trans found)
      _ = _ := by
        rw [bus, word]
        rfl

theorem step_reading {wired : Wired β} {instruction : Instruction}
    (fetching : wired.cpu.phase = .fetching) (found : wired.instruction? = some instruction) :
    ∃ told phase, wired.recorded.step =
        (.ok (wired.duration instruction.operation), told.retire.count) ∧
      told = (((wired.release instruction).logging
          (wired.encodingReads instruction.operation.reads)).effectWith instruction.operation
        (wordAt wired.bus wired.behindOpcode)
        (wired.behindOpcode + UInt16.ofNat instruction.operation.length - 1)).expireDelay.retime
        phase (wired.cpu.clock.advanceBy (wired.duration instruction.operation - 1)) := by
  have seen := (instruction?_recorded wired).trans found
  obtain ⟨told, phase, _, same, stepped⟩ :=
    (@runs_instruction _ _ wired.recorded _ fetching seen).step
  refine ⟨told, phase, stepped, ?_⟩
  rw [same, conclude, perform_reading found, expireDelay_retime]
  rfl

theorem perform_recorded {wired : Wired β} {instruction : Instruction}
    (advancing : wired.cpu.haltBug = false) (found : wired.instruction? = some instruction) :
    wired.recorded.fetch.2.perform instruction.operation =
      (((wired.release instruction).logging
          (stream wired.bus wired.registers.pc instruction.operation.reads)).effectWith
        instruction.operation (wordAt wired.bus (wired.registers.pc + 1))
        (wired.registers.pc + UInt16.ofNat instruction.operation.length)).retime
        wired.recorded.fetch.2.cpu.phase wired.cpu.clock := by
  have passed : wired.registers.pc + 1 + UInt16.ofNat instruction.operation.length - 1 =
      wired.registers.pc + UInt16.ofNat instruction.operation.length := by
    grind
  rw [perform_reading found, behindOpcode_of_advancing advancing, passed,
    encodingReads_of_advancing advancing instruction.operation.reads_pos]

/-- An instruction takes up as many bytes of the program as its descriptor says.  It reads them in
order and then works with its operand alone, goes on behind them unless it branches, and pushes the
address behind them if it calls. -/
theorem operand_stream {wired : Wired β} {instruction : Instruction}
    (fetching : wired.cpu.phase = .fetching) (advancing : wired.cpu.haltBug = false)
    (found : wired.instruction? = some instruction) :
    let operation := instruction.operation
    let start := wired.registers.pc
    let behind := start + UInt16.ofNat operation.length
    let total := operation.cycles + operation.penalty wired.registers
    let first := (Bus.read wired.bus (start + 1)).1
    let second := (Bus.read wired.bus (start + 2)).1
    let reading := (wired.release instruction).logging (stream wired.bus start operation.reads)
    (∃ told phase, wired.recorded.step = (.ok total, told.retire.count) ∧
      told = (reading.effectWith operation (join second first) behind).expireDelay.retime phase
        (wired.cpu.clock.advanceBy (total - 1)) ∧
      ∀ place operand, ((reading.goTo place).executeWith operand operation).2.bus =
        (reading.executeWith operand operation).2.bus) ∧
    ∃ polled, wired.step = (.ok total, polled.retire.count) ∧
      (wired.after (total - 1)).Retires polled ∧
      (operation.penalty wired.registers = 0 → operation ≠ .jumpHl →
        polled.registers.pc = behind) ∧
      (∀ condition, operation = .jump condition ∨ operation = .call condition →
        wired.registers.holds condition = true → polled.registers.pc = join second first) ∧
      (∀ condition, operation = .jumpRelative condition →
        wired.registers.holds condition = true →
        polled.registers.pc = start + 2 + signExtend first) ∧
      (∀ condition, operation = .call condition → wired.registers.holds condition = true →
        polled.bus = pushWord wired.bus wired.registers.sp behind) ∧
      (∀ index, operation = .restart index →
        polled.bus = pushWord wired.bus wired.registers.sp behind) ∧
      (polled.registers.ime = false ∨ pendingOn polled.bus = 0 →
        polled.retire.count.registers = polled.registers) := by
  intro operation start behind total first second reading
  have next : wired.behindOpcode = start + 1 := behindOpcode_of_advancing advancing
  have third : start + 1 + 1 = start + 2 := UInt16.add_assoc _ _ _
  have word : wordAt wired.bus (start + 1) = join second first := by
    rw [wordAt_still, third]
  constructor
  · have seen := (instruction?_recorded wired).trans found
    obtain ⟨told, phase, _, same, stepped⟩ :=
      (@runs_instruction _ _ wired.recorded _ fetching seen).step
    refine ⟨told, phase, stepped, ?_, fun place operand => bus_executeWith_goTo _ _ _ _⟩
    rw [same, conclude, perform_recorded advancing found, word, expireDelay_retime]
    rfl
  · obtain ⟨polled, phase, retires, same, stepped⟩ := (runs_instruction fetching found).step
    have pc : polled.registers.pc = wired.continuation operation := by
      rw [same]
      exact pc_conclude advancing found
    have bus : polled.bus = ((wired.release instruction).effectAt operation (start + 1)
        (start + 1 + UInt16.ofNat operation.length - 1)).bus := by
      rw [same, ← next]
      exact bus_conclude found
    have passed : start + 1 + UInt16.ofNat operation.length - 1 = behind := by grind
    refine ⟨polled, stepped, retires, ?_, ?_, ?_, ?_, ?_, ?_⟩
    · intro straight plain
      have concluded := pc_conclude_straight found straight plain
      rw [next, passed] at concluded
      rw [same]
      exact concluded
    · intro condition jumps holds
      rw [pc, continuation, fetchedBus_still, ← word]
      rcases jumps with jumps | jumps <;> simp only [jumps, target, holds, if_true] <;> rfl
    · intro condition relative holds
      rw [pc, continuation, fetchedBus_still, relative]
      simp only [target, holds, if_true]
      rfl
    · intro condition calls holds
      rw [bus, passed, calls]
      exact bus_effectAt_call _ _ holds
    · intro index restarts
      rw [bus, passed, restarts]
      exact bus_effectAt_restart _ _ _ _
    · intro declined
      exact registers_retire_still declined

/-- A load of a byte at the last address has its operand at the first. -/
theorem operand_stream_wraps :
    ∃ (wired : Wired Ram) (told : Wired (Recorder Ram)) (polled : Wired Ram),
      wired.registers.pc = 0xFFFF ∧ wired.recorded.step = (.ok 8, told.retire.count) ∧
      told.bus.accesses = #[.read 0xFFFF 0x3E, .read 0 0x42] ∧
      wired.step = (.ok 8, polled.retire.count) ∧ polled.registers.pc = 1 := by
  let wired : Wired Ram :=
    { cpu := .withRegisters { pc := 0xFFFF }, bus := (Ram.zero.set 0xFFFF 0x3E).set 0 0x42 }
  have opcode : wired.bus.get 0xFFFF = 0x3E :=
    (Ram.get_set_of_ne _ _ (by decide)).trans (Ram.get_set_self _ _ _)
  have operand : wired.bus.get 0 = 0x42 := Ram.get_set_self _ _ _
  have found : wired.instruction? = some ⟨0x3E, false, .loadByte (.register .a)⟩ :=
    instruction?_of_decode opcode rfl
  obtain ⟨⟨told, phase, noted, same, _⟩, polled, stepped, _, passed, _⟩ :=
    operand_stream rfl rfl found
  have around : (0xFFFF : UInt16) + 2 = 1 := by decide
  refine ⟨wired, told, polled, rfl, noted, ?_, stepped, (passed rfl nofun).trans around⟩
  have log : stream wired.bus 0xFFFF 2 = [.read 0xFFFF 0x3E, .read 0 0x42] := by
    change [Access.read 0xFFFF (wired.bus.get 0xFFFF), .read 0 (wired.bus.get 0)] = _
    rw [opcode, operand]
  rw [same, expireDelay_eq]
  exact congrArg List.toArray log

end Wired

end Dmg
