import Dmg.Proofs.Operands
import Dmg.Proofs.Timing
import Dmg.Proofs.Wake

/-!
A fetch with the program counter held.  The opcode byte is read once more as the first byte behind
itself, and in all else the instruction goes as ever.  The hold is over with the fetch, and only a
wait that is cut short, at once or later, begins another.
-/

namespace Dmg

namespace Cpu

/-- Between the fetch of an operation and the next nothing else is executed, and only a wait brings
the processor to halt or holds its program counter. -/
structure Underway (cpu : Cpu) (operation : Operation) : Prop where
  alone : ∀ {remaining other}, cpu.phase = .executing remaining (.operation other) →
    other = operation
  halted : cpu.halted = true → operation = .halt ∨ operation = .stop
  held : cpu.haltBug = true → operation = .halt ∨ operation = .stop

theorem Reachable.during {β : Type} [Bus β] {cpu : Cpu} (reachable : cpu.Reachable)
    (buses : Nat → β) (count : Nat) : (cpu.during buses count).Reachable := by
  induction count with
  | zero => exact reachable
  | succ count ih => exact .tick (buses count) ih

end Cpu

namespace Wired

variable {β : Type}

def release (wired : Wired β) (instruction : Instruction) : Wired β :=
  { wired with
    cpu.haltBug := false
    cpu.fetches := wired.cpu.fetches.map
      (·.push ⟨wired.registers.pc, instruction, wired.registers⟩) }

variable [Bus β]

/-- The next tick ends a wait with interrupts off and one pending: a wait that has only begun, or
one that has lasted. -/
inductive CutsShort (wired : Wired β) : Prop
  | begun {remaining operation} :
      wired.cpu.phase = .executing remaining (.operation operation) → remaining ≤ 1 →
      wired.Suppressed operation → CutsShort wired
  | lasted {remaining} : wired.cpu.phase = .halted remaining → remaining ≤ 1 →
      wired.registers.ime = false → wired.pending.1 ≠ 0 → CutsShort wired

theorem passed_fetch {wired : Wired β} {instruction : Instruction}
    (found : wired.instruction? = some instruction) :
    wired.fetch.2.registers.pc + UInt16.ofNat instruction.operation.operandLength =
      wired.behindOpcode + UInt16.ofNat instruction.operation.length - 1 := by
  rw [length_of_instruction? found, fetch_eq found]
  change wired.behindOpcode + (if instruction.extended then 1 else 0) + _ = _
  cases instruction.extended <;> simp only [UInt16.ofNat_add] <;> grind

theorem fetchedBus_eq {wired : Wired β} {instruction : Instruction}
    (found : wired.instruction? = some instruction) :
    wired.fetchedBus = readOn (Bus.read wired.bus wired.registers.pc).2 wired.behindOpcode
      (if instruction.extended then 1 else 0) := by
  rw [extended_instruction? found, fetchedBus]
  by_cases announced : (Bus.read wired.bus wired.registers.pc).1 = extendedOpcode
  · simp only [announced, if_true, beq_self_eq_true]
    rfl
  · simp only [announced, if_false, beq_eq_false_iff_ne.mpr announced, Bool.false_eq_true]
    rfl

theorem reads_of_instruction? {wired : Wired β} {instruction : Instruction}
    (found : wired.instruction? = some instruction) :
    instruction.operation.reads - 1 =
      (if instruction.extended then 1 else 0) + instruction.operation.operandReads := by
  have length := length_of_instruction? found
  have same := instruction.operation.reads_add_operandLength
  omega

/-- An instruction reads the bytes of its encoding in order, and what else it does is up to its
operand. -/
theorem perform_fetch_reading {wired : Wired β} {instruction : Instruction}
    (found : wired.instruction? = some instruction) :
    let opened := (Bus.read wired.bus wired.registers.pc).2
    wired.fetch.2.perform instruction.operation =
      (((wired.release instruction).onBus
          (readOn opened wired.behindOpcode (instruction.operation.reads - 1))).effectWith
        instruction.operation (wordAt opened wired.behindOpcode)
        (wired.behindOpcode + UInt16.ofNat instruction.operation.length - 1)).retime
        wired.fetch.2.cpu.phase wired.cpu.clock := by
  intro opened
  have fetched : wired.fetch.2 = (((wired.release instruction).onBus wired.fetchedBus).goTo
      wired.fetch.2.registers.pc).retime wired.fetch.2.cpu.phase wired.cpu.clock := by
    rw [fetch_eq found]
    rfl
  have second : wired.fetch.2.registers.pc =
      wired.behindOpcode + UInt16.ofNat (if instruction.extended then 1 else 0) := by
    rw [fetch_eq found]
    cases instruction.extended <;> rfl
  have bus : readOn wired.fetchedBus wired.fetch.2.registers.pc
      instruction.operation.operandReads =
        readOn opened wired.behindOpcode (instruction.operation.reads - 1) := by
    rw [fetchedBus_eq found, second, ← readOn_add, reads_of_instruction? found]
  let reading := (wired.release instruction).onBus
    (readOn opened wired.behindOpcode (instruction.operation.reads - 1))
  have operand : reading.effectWith instruction.operation
      (wordAt wired.fetchedBus wired.fetch.2.registers.pc) =
        reading.effectWith instruction.operation (wordAt opened wired.behindOpcode) := by
    funext behind
    rw [fetchedBus_eq found, second]
    cases extended : instruction.extended with
    | false =>
        change Wired.effectWith _ _ (wordAt opened (wired.behindOpcode + 0)) behind = _
        rw [UInt16.add_zero]
    -- The fetch has passed the second byte as well, but no operation there has an operand.
    | true => exact effectWith_of_none _ _ _ _ (operandLength_of_extended found extended)
  calc wired.fetch.2.perform instruction.operation
      _ = ((((wired.release instruction).onBus wired.fetchedBus).goTo
            wired.fetch.2.registers.pc).perform instruction.operation).retime
            wired.fetch.2.cpu.phase wired.cpu.clock := by
        rw [← perform_retime, ← fetched]
      _ = (reading.effectWith instruction.operation
            (wordAt wired.fetchedBus wired.fetch.2.registers.pc)
            (wired.fetch.2.registers.pc + UInt16.ofNat instruction.operation.operandLength)).retime
            wired.fetch.2.cpu.phase wired.cpu.clock := by
        simp only [reading, ← bus]
        rw [perform_eq_effectWith]
        rfl
      _ = _ := by rw [operand, passed_fetch found]

variable [Bus.Still β]

theorem perform_fetch {wired : Wired β} {instruction : Instruction}
    (found : wired.instruction? = some instruction) :
    wired.fetch.2.perform instruction.operation =
      ((wired.release instruction).effectAt instruction.operation wired.behindOpcode
        (wired.behindOpcode + UInt16.ofNat instruction.operation.length - 1)).retime
        wired.fetch.2.cpu.phase wired.cpu.clock := by
  rw [perform_fetch_reading found, readOn_still, Bus.Still.read_bus]
  rfl

theorem bus_conclude {wired : Wired β} {instruction : Instruction}
    (found : wired.instruction? = some instruction) :
    (wired.conclude instruction.operation).bus =
      ((wired.release instruction).effectAt instruction.operation wired.behindOpcode
        (wired.behindOpcode + UInt16.ofNat instruction.operation.length - 1)).bus := by
  rw [conclude, perform_fetch found, expireDelay_eq]
  rfl

omit [Bus.Still β] in
theorem pc_conclude_straight {wired : Wired β} {instruction : Instruction}
    (found : wired.instruction? = some instruction)
    (straight : instruction.operation.penalty wired.registers = 0)
    (plain : instruction.operation ≠ .jumpHl) :
    (wired.conclude instruction.operation).registers.pc =
      wired.behindOpcode + UInt16.ofNat instruction.operation.length - 1 := by
  rw [penalty_fetch found] at straight
  have passed := pc_perform_straight wired.fetch.2 straight plain
  rw [passed_fetch found] at passed
  rw [conclude, expireDelay_eq]
  exact passed

/-! What a fetch with the program counter held reads and does. -/

theorem instruction?_held {wired : Wired β} {instruction : Instruction}
    (held : wired.cpu.haltBug = true) (found : wired.instruction? = some instruction) :
    let opcode := (Bus.read wired.bus wired.registers.pc).1
    (opcode = extendedOpcode → instruction = .ofExtended opcode) ∧
      (opcode ≠ extendedOpcode → Instruction.base? opcode = some instruction) := by
  simp only [instruction?, behindOpcode, held, if_true, Bus.Still.read_bus] at found
  constructor
  · intro announced
    rw [if_pos announced] at found
    exact (Option.some.inj found).symm
  · intro plain
    rwa [if_neg plain] at found

omit [Bus β] [Bus.Still β] in
theorem pc_ended (wired : Wired β) (phase : Phase) (clock : Clock) :
    (wired.expireDelay.retime phase clock).registers.pc = wired.registers.pc := by
  rw [expireDelay_eq]
  rfl

omit [Bus β] [Bus.Still β] in
theorem bus_ended (wired : Wired β) (phase : Phase) (clock : Clock) :
    (wired.expireDelay.retime phase clock).bus = wired.bus := by
  rw [expireDelay_eq]
  rfl

/-! Where the hold comes from. -/

omit [Bus.Still β] in
theorem held_retire {polled : Wired β} (held : polled.retire.cpu.haltBug = true) :
    polled.cpu.haltBug = true ∨ polled.cpu.halted = true ∧ polled.registers.ime = false ∧
      polled.pending.1 ≠ 0 := by
  rcases retire_cases polled with ⟨_, _, _, _, same⟩ |
    ⟨declined, ⟨_, same⟩ | ⟨_, _, same⟩ | ⟨waiting, pending, _⟩⟩
  · rw [same, dispatch_cpu] at held
    cases held
  · rw [same] at held
    exact Or.inl held
  · rw [same] at held
    exact Or.inl held
  · exact Or.inr ⟨waiting, declined.resolve_right pending, pending⟩

theorem cutsShort_operation {wired : Wired β} {remaining : Nat} {operation : Operation}
    (running : wired.cpu.halted = false) (advancing : wired.cpu.haltBug = false)
    (phase : wired.cpu.phase = .executing remaining (.operation operation)) (due : remaining ≤ 1)
    (straight : (wired.execute operation).1 = none)
    (held : (wired.execute operation).2.expireDelay.retire.cpu.haltBug = true) :
    wired.CutsShort := by
  refine .begun phase due ?_
  rcases held_retire held with already | ⟨waiting, disabled, pending⟩
  · rw [expireDelay_eq, ← perform_of_straight straight] at already
    exact (haltBug_perform advancing operation).mp already
  -- A wait that its own poll ends: the poll sees the bus as the operation saw it.
  · rw [expireDelay_eq] at waiting disabled
    have waits : operation = .halt ∨ operation = .stop := by
      refine Decidable.byContradiction fun others => ?_
      exact Bool.noConfusion (((execute_running wired others).1 ▸ running).symm.trans waiting)
    have kept : operation ≠ .disableInterrupts := by
      rintro rfl
      rcases waits with same | same <;> cases same
    refine ⟨waits, ?_, ?_⟩
    · rw [← ime_execute wired kept]
      exact (Bool.or_eq_false_iff.mp disabled).2
    · rw [pending_still, expireDelay_eq] at pending
      change pendingOn (wired.execute operation).2.bus ≠ 0 at pending
      rw [(execute_waits wired waits).2.1] at pending
      rwa [pending_still]

theorem cutsShort_tick {wired : Wired β} (coherent : wired.cpu.Coherent)
    (advancing : wired.cpu.haltBug = false) (held : wired.tick.2.cpu.haltBug = true) :
    wired.CutsShort := by
  have halted := coherent.halted
  have turn := turn_tick wired
  generalize wired.tick = outcome at turn held
  have contrary : wired.cpu.haltBug ≠ true := by
    rw [advancing]
    exact nofun
  cases turn with
  | fault => exact (contrary held).elim
  | fetch _ found =>
      rw [fetch_eq found] at held
      cases held
  | counting => exact (contrary held).elim
  | branch _ _ taken =>
      change (wired.execute _).2.cpu.haltBug = true at held
      rw [execute_cpu wired (plain_of_branch taken)] at held
      exact (contrary held).elim
  | retires retires =>
      change (Wired.retire _).cpu.haltBug = true at held
      cases retires with
      | operation phase due straight =>
          rw [phase] at halted
          exact cutsShort_operation halted advancing phase due straight held
      | @jump _ jump phase due =>
          rw [phase] at halted
          rcases held_retire held with already | ⟨waiting, _⟩
          · rw [expireDelay_eq, land_cpu] at already
            exact (contrary already).elim
          · rw [expireDelay_eq, land_cpu] at waiting
            exact Bool.noConfusion (halted.symm.trans waiting)
      | idle phase due =>
          rw [phase] at halted
          rcases held_retire held with already | ⟨waiting, _⟩
          · exact (contrary already).elim
          · exact Bool.noConfusion (halted.symm.trans waiting)
      | halted phase due =>
          rcases held_retire held with already | ⟨_, disabled, pending⟩
          · exact (contrary already).elim
          · exact .lasted phase due disabled pending

/-! What comes between an instruction's fetch and the next. -/

omit [Bus.Still β] in
theorem alone_retire (polled : Wired β) (remaining : Nat) (operation : Operation) :
    polled.retire.cpu.phase ≠ .executing remaining (.operation operation) := by
  rcases retire_cases polled with
    ⟨_, _, interrupt, _, same⟩ | ⟨_, ⟨_, same⟩ | ⟨_, _, same⟩ | ⟨_, _, same⟩⟩
  all_goals
    rw [same]
    exact nofun

theorem halted_tick_cases {wired : Wired β} (waiting : wired.tick.2.cpu.halted = true) :
    wired.cpu.halted = true ∨ ∃ remaining operation,
      wired.cpu.phase = .executing remaining (.operation operation) ∧
        (operation = .halt ∨ operation = .stop) := by
  have executed : ∀ {remaining operation},
      wired.cpu.phase = .executing remaining (.operation operation) →
      (wired.execute operation).2.cpu.halted = true → wired.cpu.halted = true ∨
        ∃ remaining operation, wired.cpu.phase = .executing remaining (.operation operation) ∧
          (operation = .halt ∨ operation = .stop) := by
    intro remaining operation phase halted
    by_cases waits : operation = .halt ∨ operation = .stop
    · exact Or.inr ⟨remaining, operation, phase, waits⟩
    · rw [(execute_running wired waits).1] at halted
      exact Or.inl halted
  have turn := turn_tick wired
  generalize wired.tick = outcome at turn waiting
  cases turn with
  | fault => exact Or.inl waiting
  | fetch _ found =>
      rw [fetch_eq found] at waiting
      exact Or.inl waiting
  | counting => exact Or.inl waiting
  | branch phase => exact executed phase waiting
  | retires retires =>
      have still := ((halted_retire _).mp waiting).1
      cases retires with
      | operation phase =>
          rw [expireDelay_eq] at still
          exact executed phase still
      | jump =>
          rw [expireDelay_eq, land_cpu] at still
          exact Or.inl still
      | idle | halted => exact Or.inl still

omit [Bus.Still β] in
theorem tick_alone {wired : Wired β} {operation : Operation} (busy : wired.cpu.phase ≠ .fetching)
    {remaining : Nat}
    (phase : wired.tick.2.cpu.phase = .executing remaining (.operation operation)) :
    ∃ remaining, wired.cpu.phase = .executing remaining (.operation operation) := by
  have turn := turn_tick wired
  generalize wired.tick = outcome at turn phase
  cases turn with
  | fault fetching | fetch fetching => exact (busy fetching).elim
  | counting =>
      change wired.cpu.phase.elapse 1 = _ at phase
      cases before : wired.cpu.phase with
      | executing remaining stage =>
          rw [before] at phase
          cases phase
          exact ⟨remaining, rfl⟩
      | fetching | halted _ =>
          rw [before] at phase
          cases phase
  | branch => cases phase
  | retires retires => exact (alone_retire _ _ _ phase).elim

theorem tick_underway {wired : Wired β} {operation : Operation} (coherent : wired.cpu.Coherent)
    (busy : wired.cpu.phase ≠ .fetching) (underway : wired.cpu.Underway operation) :
    wired.tick.2.cpu.Underway operation := by
  have waits : ∀ {remaining other}, wired.cpu.phase = .executing remaining (.operation other) →
      other = .halt ∨ other = .stop → operation = .halt ∨ operation = .stop := by
    intro remaining other phase waits
    rwa [underway.alone phase] at waits
  refine ⟨?_, ?_, ?_⟩
  · intro remaining other phase
    obtain ⟨_, before⟩ := tick_alone busy phase
    exact underway.alone before
  · intro halted
    rcases halted_tick_cases halted with before | ⟨_, _, phase, begins⟩
    · exact underway.halted before
    · exact waits phase begins
  · intro held
    cases advancing : wired.cpu.haltBug with
    | true => exact underway.held advancing
    | false =>
        cases cutsShort_tick coherent advancing held with
        | begun phase _ suppressed => exact waits phase suppressed.waits
        | lasted phase =>
            refine underway.halted ?_
            rw [coherent.halted, phase]
            rfl

variable {cpu : Cpu} {buses : Nat → β} {count : Nat}

theorem during_underway {operation : Operation} (reachable : cpu.Reachable)
    (underway : cpu.Underway operation)
    (busy : ∀ earlier < count, (cpu.during buses earlier).phase ≠ .fetching) :
    (cpu.during buses count).Underway operation := by
  induction count with
  | zero => exact underway
  | succ count ih =>
      have before := ih fun earlier early => busy earlier (by omega)
      exact tick_underway (reachable.during buses count).coherent (busy count (by omega)) before

theorem during_cutsShort (reachable : cpu.Reachable) (advancing : cpu.haltBug = false)
    (held : (cpu.during buses count).haltBug = true) :
    ∃ earlier < count, (⟨cpu.during buses earlier, buses earlier⟩ : Wired β).CutsShort := by
  induction count with
  | zero => exact Bool.noConfusion (advancing.symm.trans held)
  | succ count ih =>
      cases before : (cpu.during buses count).haltBug with
      | true =>
          obtain ⟨earlier, early, cut⟩ := ih before
          exact ⟨earlier, by omega, cut⟩
      | false =>
          have coherent := (reachable.during buses count).coherent
          exact ⟨count, by omega, cutsShort_tick coherent before held⟩

omit [Bus.Still β] in
theorem underway_fetch {wired : Wired β} {instruction : Instruction}
    (reachable : wired.cpu.Reachable) (fetching : wired.cpu.phase = .fetching)
    (found : wired.instruction? = some instruction) :
    (wired.after 1).cpu.haltBug = false ∧
      (wired.after 1).cpu.Underway instruction.operation := by
  have running : wired.cpu.halted = false := by
    rw [reachable.coherent.halted, fetching]
    rfl
  rw [after_one fetching found, fetch_eq found]
  refine ⟨rfl, ?_, ?_, ?_⟩
  · intro _ _ same
    cases same
    rfl
  · intro waiting
    exact Bool.noConfusion (running.symm.trans waiting)
  · intro held
    cases held

omit [Bus.Still β] in
theorem pc_tick_fetching {wired : Wired β} {instruction : Instruction}
    (fetching : wired.cpu.phase = .fetching) (advancing : wired.cpu.haltBug = false)
    (found : wired.instruction? = some instruction) :
    wired.tick.2.registers.pc =
      wired.registers.pc + 1 + if instruction.extended then 1 else 0 := by
  change (wired.after 1).registers.pc = _
  rw [after_one fetching found, fetch_eq found]
  change wired.behindOpcode + _ = _
  rw [behindOpcode_of_advancing advancing]

omit [Bus.Still β] in
theorem step_same_instruction {left right : Wired β} {instruction : Instruction}
    (leftFetching : left.cpu.phase = .fetching) (rightFetching : right.cpu.phase = .fetching)
    (flags : left.registers.flags = right.registers.flags)
    (leftFound : left.instruction? = some instruction)
    (rightFound : right.instruction? = some instruction) : left.step.1 = right.step.1 := by
  obtain ⟨_, _, _, _, leftStep⟩ := (runs_instruction leftFetching leftFound).step
  obtain ⟨_, _, _, _, rightStep⟩ := (runs_instruction rightFetching rightFound).step
  rw [leftStep, rightStep, duration, duration, Operation.penalty_congr _ flags]

/-- An instruction that is fetched with the program counter held.  Its opcode byte is the first byte
behind itself too, and the program goes on one byte early; its cycles are the usual ones.  The hold
ends with the fetch, so that the next fetch passes its opcode again, unless the instruction is a
wait that was cut short; and nothing else ever begins a hold. -/
theorem held_fetch {wired : Wired β} (reachable : wired.cpu.Reachable) :
    (wired.cpu.phase = .fetching → wired.cpu.haltBug = true →
      let pc := wired.registers.pc
      let opcode := (Bus.read wired.bus pc).1
      opcode = extendedOpcode ∨ (decode? opcode).isSome →
      ∃ instruction polled,
        (opcode = extendedOpcode → instruction = .ofExtended opcode) ∧
        (opcode ≠ extendedOpcode → Instruction.base? opcode = some instruction) ∧
        let operation := instruction.operation
        let behind := pc + UInt16.ofNat operation.length - 1
        let total := operation.cycles + operation.penalty wired.registers
        wired.step = (.ok total, polled.retire.count) ∧
        (wired.after (total - 1)).Retires polled ∧
        (∃ phase, polled =
          ((wired.release instruction).effectAt operation pc behind).expireDelay.retime phase
            (wired.cpu.clock.advanceBy (total - 1))) ∧
        wordAt wired.bus pc = join (Bus.read wired.bus (pc + 1)).1 opcode ∧
        (operation.penalty wired.registers = 0 → operation ≠ .jumpHl →
          polled.registers.pc = behind) ∧
        (∀ condition, operation = .jumpRelative condition →
          wired.registers.holds condition = true →
          polled.registers.pc = displace (pc + 1) opcode) ∧
        (∀ condition, operation = .call condition → wired.registers.holds condition = true →
          polled.bus = pushWord wired.bus wired.registers.sp behind) ∧
        (∀ index, operation = .restart index →
          polled.bus = pushWord wired.bus wired.registers.sp behind) ∧
        (polled.registers.ime = false ∨ pendingOn polled.bus = 0 →
          polled.retire.count.registers = polled.registers) ∧
        (∀ other : Wired β, other.cpu.phase = .fetching →
          other.registers.flags = wired.registers.flags → other.instruction? = some instruction →
          other.step.1 = wired.step.1) ∧
        (wired.after 1).cpu.haltBug = false ∧
        ∀ (buses : Nat → β) (count : Nat),
          let during := (wired.after 1).cpu.during buses
          (∀ earlier < count, (during earlier).phase ≠ .fetching) →
          (during count).phase = .fetching →
          (∀ following, (⟨during count, buses count⟩ : Wired β).instruction? = some following →
            (Wired.tick ⟨during count, buses count⟩).2.registers.pc =
              (during count).registers.pc + 1 + if following.extended then 1 else 0) ∨
          ((operation = .halt ∨ operation = .stop) ∧
            ∃ earlier < count, (⟨during earlier, buses earlier⟩ : Wired β).CutsShort)) ∧
    (wired.cpu.haltBug = false → wired.tick.2.cpu.haltBug = true → wired.CutsShort) := by
  refine ⟨?_, cutsShort_tick reachable.coherent⟩
  intro fetching held pc opcode legal
  obtain ⟨instruction, found⟩ := instruction?_of_legal legal
  obtain ⟨announced, plain⟩ := instruction?_held held found
  obtain ⟨polled, phase, retires, same, stepped⟩ := (runs_instruction fetching found).step
  have here : wired.behindOpcode = pc := by
    rw [behindOpcode, held]
    rfl
  have performed := perform_fetch found
  rw [here] at performed
  have effect : polled = ((wired.release instruction).effectAt instruction.operation pc
      (pc + UInt16.ofNat instruction.operation.length - 1)).expireDelay.retime phase
        (wired.cpu.clock.advanceBy (wired.duration instruction.operation - 1)) := by
    rw [same, conclude, performed, expireDelay_retime]
    rfl
  have polledPc := congrArg (·.registers.pc) effect
  have polledBus := congrArg Wired.bus effect
  rw [bus_ended] at polledBus
  simp only [pc_ended] at polledPc
  obtain ⟨advancing, underway⟩ := underway_fetch reachable fetching found
  refine ⟨instruction, polled, announced, plain, stepped, retires, ⟨phase, effect⟩,
    wordAt_still _ _, ?_, ?_, ?_, ?_, ?_, ?_, advancing, ?_⟩
  · intro straight running
    have passed := pc_conclude_straight found straight running
    rw [here] at passed
    rw [same]
    exact passed
  · intro condition relative holds
    have next : pc + UInt16.ofNat instruction.operation.length - 1 = pc + 1 := by
      rw [relative]
      change pc + 2 - 1 = pc + 1
      grind
    rw [next, relative] at polledPc
    rw [polledPc, @pc_effectAt_jumpRelative β _ (wired.release instruction) condition pc _ holds,
      wordAt_still, lowByte_join]
    rfl
  · intro condition calls holds
    rw [calls] at polledBus
    rw [polledBus, @bus_effectAt_call β _ (wired.release instruction) condition pc _ holds, calls]
    rfl
  · intro index restarts
    rw [restarts] at polledBus
    rw [polledBus, bus_effectAt_restart, restarts]
    rfl
  · intro declined
    exact registers_retire_still declined
  · intro other again flags ofOther
    exact step_same_instruction again fetching flags ofOther found
  · intro buses count during busy again
    have reached : (wired.after 1).cpu.Reachable := .tick wired.bus reachable
    cases bug : (during count).haltBug with
    | false =>
        refine Or.inl ?_
        intro following behind
        exact pc_tick_fetching again bug behind
    | true =>
        refine Or.inr ⟨?_, during_cutsShort reached advancing bug⟩
        exact (during_underway reached underway busy).held bug

/-- The load of a byte at address 1, behind a suppressed halt, loads its own opcode. -/
theorem held_fetch_load :
    ∃ wired last : Wired Ram, wired.cpu.Reachable ∧ wired.cpu.phase = .fetching ∧
      wired.cpu.haltBug = true ∧ wired.registers.pc = 1 ∧ wired.bus.get 1 = 0x3E ∧
      wired.step = (.ok 8, last) ∧ last.registers.pc = 2 ∧ last.registers.a = 0x3E := by
  have reachable : ((requested 0x76 0x3E).after 4).cpu.Reachable :=
    Cpu.Autonomous.reachable (.after (.start _) 4)
  rw [requested_suppressed] at reachable
  have opcode : (requested 0x76 0x3E).bus.get 1 = 0x3E := (requested_get 0x76 0x3E).2.1
  have decoded : Instruction.base? ((requested 0x76 0x3E).bus.get 1) =
      some ⟨0x3E, false, .loadByte (.register .a)⟩ := by
    rw [opcode]
    rfl
  have single : (requested 0x76 0x3E).bus.get 1 ≠ extendedOpcode := by
    rw [opcode]
    decide
  have legal : (decode? ((requested 0x76 0x3E).bus.get 1)).isSome := by
    rw [opcode]
    rfl
  obtain ⟨fetches, _⟩ := held_fetch reachable
  obtain ⟨instruction, polled, _, plain, stepped, _, ⟨phase, effect⟩, operand, passed, _, _, _,
    kept, _⟩ := fetches rfl rfl (Or.inr legal)
  obtain rfl := Option.some.inj (decoded.symm.trans (plain single))
  have disabled : polled.registers.ime = false := by
    rw [effect]
    rfl
  have loaded : polled.registers.a = 0x3E := by
    have low := congrArg lowByte operand
    rw [lowByte_join] at low
    rw [effect]
    exact low.trans opcode
  have registers := kept (Or.inl disabled)
  refine ⟨_, _, reachable, rfl, rfl, rfl, opcode, stepped, ?_, ?_⟩
  · rw [registers, passed rfl nofun]
    rfl
  · rw [registers, loaded]

end Wired

end Dmg
