import Dmg.Proofs.EnableDelay

/-!
The address an interrupt returns to.  Behind every instruction it is the one at which execution
would have gone on, with one exception: a halt that found an interrupt pending is returned to, and
so is the second byte of a stop.
-/

namespace Dmg

theorem decode?_length {opcode : UInt8} {operation : Operation}
    (decoded : decode? opcode = some operation) :
    operation.length = 1 + operation.operandLength := by
  have everyByte : ∀ bits : BitVec 8, ∀ operation ∈ decode? ⟨bits⟩,
      operation.length = 1 + operation.operandLength := by
    decide +kernel
  exact everyByte opcode.toBitVec operation decoded

theorem decodeExtended_length (opcode : UInt8) :
    (decodeExtended opcode).length = 2 + (decodeExtended opcode).operandLength := by
  simp only [decodeExtended]
  split
  · rfl
  · split
    · rfl
    · split <;> rfl

namespace Wired

variable {β : Type} [Bus β]

theorem length_of_instruction? {wired : Wired β} {instruction : Instruction}
    (found : wired.instruction? = some instruction) :
    instruction.operation.length =
      1 + (if instruction.extended then 1 else 0) + instruction.operation.operandLength := by
  simp only [instruction?] at found
  split at found
  · cases found
    exact decodeExtended_length _
  · simp only [Instruction.base?, Option.map_eq_some_iff] at found
    obtain ⟨operation, decoded, rfl⟩ := found
    exact decode?_length decoded

theorem pc_fetch {wired : Wired β} {instruction : Instruction}
    (advancing : wired.cpu.haltBug = false) (found : wired.instruction? = some instruction) :
    wired.fetch.2.registers.pc + UInt16.ofNat instruction.operation.operandLength =
      wired.registers.pc + UInt16.ofNat instruction.operation.length := by
  have behind : wired.fetch.2.registers.pc =
      wired.registers.pc + 1 + if instruction.extended then 1 else 0 := by
    rw [fetch_eq found, ← behindOpcode_of_advancing advancing]
    rfl
  rw [behind, length_of_instruction? found]
  cases instruction.extended <;> simp only [UInt16.ofNat_add, UInt16.add_assoc] <;> rfl

def wordAt (bus : β) (address : UInt16) : UInt16 :=
  let (low, bus) := Bus.read bus address
  join (Bus.read bus (address + 1)).1 low

/-- Where an operation leads: to the target of a branch that is taken, and otherwise behind it. -/
def target (bus : β) (registers : Registers) (operand behind : UInt16) : Operation → UInt16
  | .jumpHl => registers.hl
  | .jump condition | .call condition =>
      if registers.holds condition then wordAt bus operand else behind
  | .jumpRelative condition =>
      if registers.holds condition then displace behind (Bus.read bus operand).1 else behind
  | .ret condition => if registers.holds condition then wordAt bus registers.sp else behind
  | .retEnable => wordAt bus registers.sp
  | .restart index => restartVector index
  | _ => behind

def continuation (wired : Wired β) (operation : Operation) : UInt16 :=
  target wired.fetchedBus wired.registers (wired.registers.pc + 1)
    (wired.registers.pc + UInt16.ofNat operation.length) operation

theorem pc_perform (wired : Wired β) (operation : Operation) :
    (wired.perform operation).registers.pc =
      target wired.bus wired.registers wired.registers.pc
        (wired.registers.pc + UInt16.ofNat operation.operandLength) operation := by
  have passed : (wired.execute operation).1 = none → operation ≠ .jumpHl →
      (wired.perform operation).registers.pc =
        wired.registers.pc + UInt16.ofNat operation.operandLength := by
    intro straight plain
    rw [perform_of_straight straight, pc_execute wired plain]
  cases operation with
  | jumpHl | retEnable | restart _ => rfl
  | jump condition | call condition | jumpRelative condition | ret condition =>
      cases holds : wired.registers.holds condition with
      | false =>
          simp only [target, holds, Bool.false_eq_true, if_false]
          apply passed
          · simp only [execute, branch, holds_nextByte, holds_nextWord, holds, Bool.false_eq_true,
              if_false]
          · intro same
            cases same
      | true =>
          simp only [target, perform, execute, branch, holds_nextByte, holds_nextWord, holds,
            if_true]
          rfl
  | _ =>
      apply passed rfl
      intro same
      cases same

theorem target_fetch {wired : Wired β} {instruction : Instruction}
    (advancing : wired.cpu.haltBug = false) (found : wired.instruction? = some instruction) :
    target wired.fetch.2.bus wired.fetch.2.registers wired.fetch.2.registers.pc
        (wired.registers.pc + UInt16.ofNat instruction.operation.length) instruction.operation =
      wired.continuation instruction.operation := by
  have length := length_of_instruction? found
  rw [continuation, fetch_eq found]
  cases extended : instruction.extended with
  | false =>
      have behind := behindOpcode_of_advancing advancing
      simp only [Bool.false_eq_true, if_false, UInt16.add_zero, behind]
      cases instruction.operation <;> rfl
  | true =>
      rw [extended] at length
      cases operation : instruction.operation with
      | jump condition | call condition | jumpRelative condition =>
          rw [operation] at length
          cases length
      | _ => rfl

theorem pc_conclude {wired : Wired β} {instruction : Instruction}
    (advancing : wired.cpu.haltBug = false) (found : wired.instruction? = some instruction) :
    (wired.conclude instruction.operation).registers.pc =
      wired.continuation instruction.operation := by
  have performed := pc_perform wired.fetch.2 instruction.operation
  rw [pc_fetch advancing found, target_fetch advancing found] at performed
  rw [conclude, expireDelay_eq]
  exact performed

/-- The operation would wait for an interrupt, but finds one pending that is not taken. -/
structure Suppressed (wired : Wired β) (operation : Operation) : Prop where
  waits : operation = .halt ∨ operation = .stop
  disabled : wired.registers.ime = false
  pending : wired.pending.1 ≠ 0

theorem haltBug_halt {wired : Wired β} (advancing : wired.cpu.haltBug = false) :
    wired.halt.cpu.haltBug = true ↔ wired.registers.ime = false ∧ wired.pending.1 ≠ 0 := by
  rw [halt_cpu]
  split
  · rename_i suppressed
    exact ⟨fun _ => suppressed, fun _ => rfl⟩
  · rename_i waiting
    exact ⟨fun held => Bool.noConfusion (advancing.symm.trans held),
      fun suppressed => (waiting suppressed).elim⟩

theorem haltBug_running (wired : Wired β) {operation : Operation}
    (running : ¬(operation = .halt ∨ operation = .stop)) :
    (wired.perform operation).cpu.haltBug = wired.cpu.haltBug :=
  (part_perform (fun _ _ => rfl) wired operation).trans (execute_running wired running).2

theorem haltBug_perform {wired : Wired β} (advancing : wired.cpu.haltBug = false)
    (operation : Operation) :
    (wired.perform operation).cpu.haltBug = true ↔ wired.Suppressed operation := by
  by_cases waits : operation = .halt ∨ operation = .stop
  · have performed : (wired.perform operation).cpu.haltBug = wired.halt.cpu.haltBug := by
      rcases waits with rfl | rfl
      · rfl
      · rw [perform_of_straight rfl, execute_stop_cpu]
    rw [performed, haltBug_halt advancing]
    exact ⟨fun suppressed => ⟨waits, suppressed.1, suppressed.2⟩,
      fun suppressed => ⟨suppressed.disabled, suppressed.pending⟩⟩
  · rw [haltBug_running wired waits, advancing]
    exact ⟨nofun, fun suppressed => (waits suppressed.waits).elim⟩

theorem returnAddress_conclude {wired : Wired β} {instruction : Instruction}
    (advancing : wired.cpu.haltBug = false) (found : wired.instruction? = some instruction) :
    (¬wired.fetch.2.Suppressed instruction.operation →
      (wired.conclude instruction.operation).returnAddress =
        wired.continuation instruction.operation) ∧
    (wired.fetch.2.Suppressed instruction.operation →
      (wired.conclude instruction.operation).returnAddress =
        wired.continuation instruction.operation - 1) := by
  have advanced : wired.fetch.2.cpu.haltBug = false := by
    rw [fetch_eq found]
  have held : (wired.conclude instruction.operation).cpu.haltBug = true ↔
      wired.fetch.2.Suppressed instruction.operation := by
    rw [conclude, expireDelay_eq]
    exact haltBug_perform advanced instruction.operation
  rw [returnAddress, pc_conclude advancing found]
  exact ⟨fun running => if_neg fun bug => running (held.mp bug),
    fun suppressed => if_pos (held.mpr suppressed)⟩

theorem retire_dispatched {polled : Wired β}
    (dispatched : polled.retire.cpu.phase = .executing dispatchCycles .idle) :
    ∃ interrupt, Interrupt.first? polled.pending.1 = some interrupt ∧
      polled.retire = polled.pending.2.dispatch interrupt := by
  rcases retire_cases polled with ⟨_, _, taken⟩ | ⟨_, ⟨_, same⟩ | ⟨_, _, same⟩ | ⟨_, _, same⟩⟩
  · exact taken
  all_goals
    rw [same] at dispatched
    cases dispatched

/-! A wait behind an enabling, with an interrupt pending. -/

theorem perform_waiting (wired : Wired Ram) {operation : Operation}
    (waits : operation = .halt ∨ operation = .stop) :
    (wired.perform operation).bus = wired.bus ∧
      (wired.perform operation).registers.sp = wired.registers.sp := by
  have halted : ∀ before : Wired Ram, before.halt.bus = before.bus := by
    intro before
    simp only [halt]
    split
    · rfl
    · split <;> rfl
  rcases waits with rfl | rfl
  · refine ⟨halted wired, ?_⟩
    change wired.halt.registers.sp = _
    rw [halt_registers]
  · refine ⟨halted _, ?_⟩
    change (Wired.halt _).registers.sp = _
    rw [halt_registers]
    rfl

theorem requested_waiting {second : UInt8} {operation : Operation}
    (decoded : decode? second = some operation) (waits : operation = .halt ∨ operation = .stop) :
    ∃ wired last : Wired Ram, wired.cpu.Reachable ∧ wired.Armed ∧ wired.registers.pc = 1 ∧
      wired.instruction? = some ⟨second, false, operation⟩ ∧
      wired.fetch.2.Suppressed operation ∧ wired.step = (.ok (wired.duration operation), last) ∧
      last.cpu.phase = .executing dispatchCycles .idle ∧
      last.bus = acknowledge (pushWord (requested 0xFB second).bus 0xFFFE
        (wired.continuation operation - 1)) .vblank := by
  obtain ⟨wired, stepped, armed, registers, bus⟩ :=
    step_enabling rfl rfl rfl (requested_enabling second) rfl
  have reachable : wired.cpu.Reachable := by
    have reached : (requested 0xFB second).step.2.cpu.Reachable := Cpu.Reachable.step (.start _)
    rwa [stepped] at reached
  have found : wired.instruction? = some ⟨second, false, operation⟩ :=
    requested_following decoded registers bus
  have behind : wired.registers = { (requested 0xFB second).registers with pc := 1 } := by
    rw [registers, fetch_eq (requested_enabling second)]
    rfl
  have fetched : wired.fetch.2.bus = (requested 0xFB second).bus := by
    rw [fetch_eq found, fetchedBus_ram, requested_bus bus]
  have suppressed : wired.fetch.2.Suppressed operation := by
    refine ⟨waits, ?_, ?_⟩
    · rw [fetch_eq found]
      exact armed.ime
    · rw [requested_pending fetched]
      decide
  obtain ⟨polled, phase, _, same, continued⟩ := (runs_instruction armed.fetching found).step
  have others : operation ≠ .disableInterrupts ∧ operation ≠ .enableInterrupts := by
    rcases waits with rfl | rfl <;> exact ⟨nofun, nofun⟩
  have enabled : polled.registers.ime = true := by
    rw [same]
    exact (conclude_armed armed found).mpr others
  obtain ⟨performedBus, performedSp⟩ := perform_waiting wired.fetch.2 waits
  have polledBus : polled.bus = (requested 0xFB second).bus := by
    rw [same, conclude, expireDelay_eq]
    exact performedBus.trans fetched
  have polledSp : polled.registers.sp = 0xFFFE := by
    rw [same, conclude, expireDelay_eq]
    refine performedSp.trans ?_
    rw [fetch_eq found]
    change wired.registers.sp = _
    rw [behind]
    rfl
  have pending : polled.pending.1 = 1 := requested_pending polledBus
  obtain ⟨interrupt, first, taken⟩ := retire_dispatch enabled (by rw [pending]; decide)
  have urgent : interrupt = .vblank := by
    rw [pending] at first
    exact (Option.some.inj first).symm
  have address : polled.returnAddress = wired.continuation operation - 1 := by
    rw [same]
    exact (returnAddress_conclude armed.advancing found).2 suppressed
  refine ⟨wired, _, reachable, armed, by rw [behind], found, suppressed, continued, ?_, ?_⟩
  · rw [taken]
    rfl
  · change polled.retire.bus = _
    rw [taken, dispatch_bus, urgent, ← address, ← polledSp, ← polledBus]
    rfl

/-- The return address of an interrupt taken at the end of an instruction.  It is where execution
would have gone on, unless the instruction is a wait that was suppressed: then a halt is executed
again, and a stop is entered behind its opcode. -/
theorem dispatch_return {wired last : Wired β} {instruction : Instruction} {ticks : Nat}
    (fetching : wired.cpu.phase = .fetching) (advancing : wired.cpu.haltBug = false)
    (found : wired.instruction? = some instruction) (stepped : wired.step = (.ok ticks, last))
    (dispatched : last.cpu.phase = .executing dispatchCycles .idle) :
    ∃ polled interrupt back, (wired.after (ticks - 1)).Retires polled ∧
      Interrupt.first? polled.pending.1 = some interrupt ∧
      last.bus = acknowledge (pushWord polled.pending.2.bus polled.registers.sp back) interrupt ∧
      last.registers.sp = polled.registers.sp - 2 ∧
      (¬wired.fetch.2.Suppressed instruction.operation →
        back = wired.continuation instruction.operation) ∧
      (wired.fetch.2.Suppressed instruction.operation →
        (instruction.operation = .halt → back = wired.registers.pc) ∧
        (instruction.operation = .stop → back = wired.registers.pc + 1)) := by
  obtain ⟨polled, phase, retires, same, ended⟩ := (runs_instruction fetching found).step
  have both := stepped.symm.trans ended
  obtain ⟨rfl, rfl⟩ :
      ticks = wired.duration instruction.operation ∧ last = polled.retire.count := by
    simpa using both
  obtain ⟨interrupt, first, taken⟩ := retire_dispatched dispatched
  have address : polled.returnAddress = (wired.conclude instruction.operation).returnAddress := by
    rw [same]
    rfl
  obtain ⟨passed, resumed⟩ := returnAddress_conclude advancing found
  refine ⟨polled, interrupt, polled.returnAddress, retires, first, ?_, ?_, ?_, ?_⟩
  · change polled.retire.bus = _
    rw [taken, dispatch_bus]
    rfl
  · change polled.retire.cpu.registers.sp = _
    rw [taken, dispatch_cpu]
    rfl
  · intro running
    rw [address, passed running]
  · intro suppressed
    rw [address, resumed suppressed, continuation]
    constructor
    · intro halt
      rw [halt]
      exact UInt16.add_sub_cancel _ _
    · intro stop
      rw [stop]
      change wired.registers.pc + 2 - 1 = wired.registers.pc + 1
      grind

theorem dispatch_return_halt :
    ∃ wired last polled : Wired Ram, ∃ interrupt, wired.registers.pc = 1 ∧
      wired.instruction? = some ⟨0x76, false, .halt⟩ ∧ wired.fetch.2.Suppressed .halt ∧
      wired.step = (.ok 4, last) ∧ (wired.after 3).Retires polled ∧
      last.bus = acknowledge (pushWord polled.pending.2.bus polled.registers.sp 1) interrupt := by
  have decoded : decode? 0x76 = some .halt := rfl
  obtain ⟨wired, last, _, armed, pc, found, suppressed, stepped, dispatched, _⟩ :=
    requested_waiting decoded (Or.inl rfl)
  obtain ⟨polled, interrupt, back, retires, _, bus, _, _, resumed⟩ :=
    dispatch_return armed.fetching armed.advancing found stepped dispatched
  rw [(resumed suppressed).1 rfl, pc] at bus
  exact ⟨wired, last, polled, interrupt, pc, found, suppressed, stepped, retires, bus⟩

/-- A stop of two bytes at address 1, its wait suppressed, is returned to at address 2. -/
theorem stop_return_inside :
    ∃ wired last : Wired Ram, wired.cpu.Reachable ∧ wired.cpu.phase = .fetching ∧
      wired.cpu.haltBug = false ∧ wired.registers.pc = 1 ∧
      wired.instruction? = some ⟨0x10, false, .stop⟩ ∧ wired.continuation .stop = 3 ∧
      wired.fetch.2.Suppressed .stop ∧ wired.step = (.ok 4, last) ∧
      last.cpu.phase = .executing dispatchCycles .idle ∧
      last.bus.get 0xFFFC = 2 ∧ last.bus.get 0xFFFD = 0 := by
  have decoded : decode? 0x10 = some .stop := rfl
  obtain ⟨wired, last, reachable, armed, pc, found, suppressed, stepped, dispatched, bus⟩ :=
    requested_waiting decoded (Or.inr rfl)
  have behind : wired.continuation .stop = 3 := by
    rw [continuation, pc]
    rfl
  have pushed : last.bus =
      acknowledge (pushWord (requested 0xFB 0x10).bus 0xFFFE 2) .vblank := by
    rw [bus, behind]
    rfl
  refine ⟨wired, last, reachable, armed.fetching, armed.advancing, pc, found, behind, suppressed,
    stepped, dispatched, ?_, ?_⟩
  all_goals
    rw [pushed, get_acknowledge_pushWord _ _ _ (by decide) (by decide)]
    rfl

end Wired

end Dmg
