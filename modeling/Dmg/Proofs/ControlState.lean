import Dmg.Proofs.EnableDelay
import Dmg.Proofs.Turn

/-!
The control state of a processor that is left to itself.  Its flags, the awaited enabling, the phase
and the clock stay in one relation, whatever the bus does, and every boundary is on a machine cycle.
-/

namespace Dmg

def Stage.limit : Stage → Nat
  | .operation _ => 19
  | .jump _ => 12
  | .idle => 20

namespace Cpu

/-- The states of a processor that is switched on with any registers and then ticked on any bus,
whatever else changes the bus meanwhile, and reset at any time.  Nothing but its own ticks changes
its registers. -/
inductive Autonomous : Cpu → Prop
  | start (registers : Registers) : Autonomous (.withRegisters registers)
  | tick {β : Type} [Bus β] {cpu : Cpu} (bus : β) :
      Autonomous cpu → Autonomous (Wired.tick ⟨cpu, bus⟩).2.cpu
  | setTrace {cpu : Cpu} (fetches : Option (Array Fetch)) :
      Autonomous cpu → Autonomous { cpu with fetches }
  | reset {cpu : Cpu} : Autonomous cpu → Autonomous cpu.reset

/-- An enabling is awaited by the next instruction only, with interrupts off and not halted. -/
structure DelayOrdered (cpu : Cpu) : Prop where
  next : cpu.enableDelay ≤ 1
  disabled : cpu.enableDelay = 1 → cpu.registers.ime = false
  running : cpu.enableDelay = 1 → cpu.halted = false

structure Ordered (cpu : Cpu) : Prop where
  coherent : cpu.Coherent
  held : cpu.haltBug = true →
    cpu.phase = .fetching ∨ ∃ remaining, cpu.phase = .executing remaining .idle
  delay : cpu.DelayOrdered
  aligned : 4 ∣ cpu.clock.cycles + cpu.phase.remaining

/-- What the poll at the end of an instruction needs for the order to hold again after it. -/
structure Pollable (cpu : Cpu) : Prop where
  apart : cpu.halted = true → cpu.haltBug = false
  delay : cpu.DelayOrdered
  due : 4 ∣ cpu.clock.cycles + 1

theorem Ordered.running {cpu : Cpu} {remaining : Nat} {stage : Stage} (ordered : cpu.Ordered)
    (phase : cpu.phase = .executing remaining stage) : cpu.halted = false := by
  rw [ordered.coherent.halted, phase]
  rfl

theorem Ordered.advancing {cpu : Cpu} {remaining : Nat} {stage : Stage} (ordered : cpu.Ordered)
    (phase : cpu.phase = .executing remaining stage) (busy : stage ≠ .idle) :
    cpu.haltBug = false := by
  refine Bool.eq_false_iff.mpr fun bug => ?_
  rcases ordered.held bug with fetching | ⟨_, idle⟩
  · rw [phase] at fetching
    cases fetching
  · rw [phase] at idle
    cases idle
    exact busy rfl

theorem Ordered.due {cpu : Cpu} (ordered : cpu.Ordered) (busy : cpu.phase ≠ .fetching)
    (last : cpu.phase.remaining ≤ 1) : 4 ∣ cpu.clock.cycles + 1 := by
  have one : cpu.phase.remaining = 1 := by
    have bounded := ordered.coherent.bounded
    cases phase : cpu.phase with
    | fetching => exact (busy phase).elim
    | executing remaining stage =>
        rw [phase] at bounded last
        cases stage <;> simp only [Phase.Bounded, Phase.remaining] at bounded last ⊢ <;> omega
    | halted remaining =>
        rw [phase] at bounded last
        simp only [Phase.Bounded, Phase.remaining] at bounded last ⊢
        omega
  have aligned := ordered.aligned
  rwa [one] at aligned

end Cpu

theorem Operation.four_dvd_cycles (operation : Operation) : 4 ∣ operation.cycles := by
  have slots : ∀ slot : Slot, 4 ∣ slot.cycles := by
    intro slot
    cases slot <;> simp [Slot.cycles]
  have indirects : ∀ indirect : Indirect, 4 ∣ indirect.cycles := by
    intro indirect
    cases indirect <;> simp [Indirect.cycles]
  cases operation with
  | load target source =>
      have := slots target
      have := slots source
      simp only [cycles]
      omega
  | loadByte operand | arithmetic _ operand | increment operand | decrement operand
  | shift _ operand | testBit _ operand | resetBit _ operand | setBit _ operand =>
      have := slots operand
      simp only [cycles]
      omega
  | loadA operand | storeA operand =>
      have := indirects operand
      simp only [cycles]
      omega
  | ret condition => cases condition <;> simp [cycles]
  | _ => simp [cycles]

namespace Wired

variable {β : Type} [Bus β]

theorem clock_retire (wired : Wired β) : wired.retire.cpu.clock = wired.cpu.clock := by
  rcases retire_cases wired with
    ⟨_, _, interrupt, _, same⟩ | ⟨_, ⟨_, same⟩ | ⟨_, _, same⟩ | ⟨_, _, same⟩⟩
  all_goals
    rw [same]
    rfl

theorem retire_ordered {polled : Wired β} (pollable : polled.cpu.Pollable) :
    polled.retire.count.cpu.Ordered := by
  obtain ⟨apart, ⟨next, disabled, running⟩, due⟩ := pollable
  obtain ⟨bounded, halted⟩ := retire_coherent polled
  rcases retire_cases polled with ⟨_, _, interrupt, _, same⟩ |
    ⟨_, ⟨stopped, same⟩ | ⟨waiting, _, same⟩ | ⟨waiting, _, same⟩⟩
  · rw [same] at bounded halted ⊢
    refine ⟨⟨bounded, halted⟩, fun bug => ?_, ⟨Nat.zero_le 1, fun armed => ?_, fun _ => rfl⟩, ?_⟩
    · exact Bool.noConfusion (show false = true from bug)
    · exact Nat.noConfusion (show 0 = 1 from armed)
    · change 4 ∣ polled.cpu.clock.cycles + 1 + 20
      omega
  · rw [same] at bounded halted ⊢
    exact ⟨⟨bounded, halted⟩, fun _ => Or.inl rfl, ⟨next, disabled, running⟩, due⟩
  · rw [same] at bounded halted ⊢
    refine ⟨⟨bounded, halted⟩, fun bug => ?_, ⟨next, disabled, running⟩, ?_⟩
    · exact Bool.noConfusion ((apart waiting).symm.trans bug)
    · change 4 ∣ polled.cpu.clock.cycles + 1 + 4
      omega
  · rw [same] at bounded halted ⊢
    refine ⟨⟨bounded, halted⟩, fun _ => Or.inr ⟨_, rfl⟩, ⟨next, disabled, fun _ => rfl⟩, ?_⟩
    change 4 ∣ polled.cpu.clock.cycles + 1 + 4
    omega

omit [Bus β] in
theorem expireDelay_pollable {wired : Wired β}
    (apart : wired.cpu.halted = true → wired.cpu.haltBug = false)
    (next : wired.cpu.enableDelay ≤ 2)
    (disabled : wired.cpu.enableDelay = 2 → wired.registers.ime = false)
    (running : wired.cpu.enableDelay = 2 → wired.cpu.halted = false)
    (due : 4 ∣ wired.cpu.clock.cycles + 1) : wired.expireDelay.cpu.Pollable := by
  rw [expireDelay_eq]
  refine ⟨apart, ⟨?_, ?_, ?_⟩, due⟩
  · change wired.cpu.enableDelay - 1 ≤ 1
    omega
  · intro armed
    have two : wired.cpu.enableDelay = 2 := by
      change wired.cpu.enableDelay - 1 = 1 at armed
      omega
    simp [two, disabled two]
  · intro armed
    change wired.cpu.enableDelay - 1 = 1 at armed
    exact running (by omega)

theorem clock_execute (wired : Wired β) (operation : Operation) :
    (wired.execute operation).2.cpu.clock = wired.cpu.clock :=
  congrArg (·.2.cpu.clock) (execute_retime wired operation wired.cpu.phase wired.cpu.clock)

theorem execute_apart {wired : Wired β} (running : wired.cpu.halted = false)
    (advancing : wired.cpu.haltBug = false) (operation : Operation)
    (waiting : (wired.execute operation).2.cpu.halted = true) :
    (wired.execute operation).2.cpu.haltBug = false := by
  cases plain : operation.steers with
  | false =>
      rw [execute_cpu wired plain]
      exact advancing
  | true =>
      cases operation with
      | halt | stop =>
          simp only [execute_halt_cpu, execute_stop_cpu, halt_cpu] at waiting ⊢
          split
          · rename_i suppressed
            rw [if_pos suppressed] at waiting
            exact Bool.noConfusion (running.symm.trans waiting)
          · exact advancing
      | disableInterrupts => exact advancing
      | enableInterrupts =>
          simp only [execute]
          split <;> exact advancing
      | _ => cases plain

theorem execute_delay {wired : Wired β} (next : wired.cpu.enableDelay ≤ 1) (operation : Operation) :
    (wired.execute operation).2.cpu.enableDelay ≤ 1 ∨
      wired.registers.ime = false ∧
        (wired.execute operation).2 = { wired with cpu.enableDelay := 2 } := by
  by_cases off : operation = .disableInterrupts
  · subst off
    exact Or.inl (Nat.zero_le 1)
  · by_cases on : operation = .enableInterrupts
    · subst on
      simp only [execute]
      cases disabled : wired.registers.ime with
      | true => exact Or.inl next
      | false => exact Or.inr ⟨rfl, rfl⟩
    · exact Or.inl (by rwa [enableDelay_execute wired off on])

theorem execute_pollable {wired : Wired β} {remaining : Nat} {operation : Operation}
    (ordered : wired.cpu.Ordered)
    (phase : wired.cpu.phase = .executing remaining (.operation operation)) (due : remaining ≤ 1) :
    (wired.execute operation).2.expireDelay.cpu.Pollable := by
  have running := ordered.running phase
  have advancing := ordered.advancing phase (by rintro ⟨⟩)
  have boundary := ordered.due (by rw [phase]; rintro ⟨⟩) (by rwa [phase])
  rw [← clock_execute wired operation] at boundary
  have apart := execute_apart running advancing operation
  rcases execute_delay ordered.delay.next operation with settled | ⟨disabled, begun⟩
  · exact expireDelay_pollable apart (by omega) (by omega) (by omega) boundary
  · rw [begun] at boundary apart ⊢
    exact expireDelay_pollable apart (Nat.le_refl 2) (fun _ => disabled) (fun _ => running) boundary

theorem land_pollable {wired : Wired β} {remaining : Nat} {jump : Jump}
    (ordered : wired.cpu.Ordered) (phase : wired.cpu.phase = .executing remaining (.jump jump))
    (due : remaining ≤ 1) : (wired.land jump).expireDelay.cpu.Pollable := by
  have advancing := ordered.advancing phase (by rintro ⟨⟩)
  have boundary := ordered.due (by rw [phase]; rintro ⟨⟩) (by rwa [phase])
  have settled := ordered.delay.next
  apply expireDelay_pollable
  all_goals rw [land_cpu]
  · exact fun _ => advancing
  · exact Nat.le_succ_of_le settled
  · intro begun
    change wired.cpu.enableDelay = 2 at begun
    omega
  · intro begun
    change wired.cpu.enableDelay = 2 at begun
    omega
  · exact boundary

theorem retires_pollable {wired polled : Wired β} (ordered : wired.cpu.Ordered)
    (retires : wired.Retires polled) : polled.cpu.Pollable := by
  cases retires with
  | operation phase due => exact execute_pollable ordered phase due
  | jump phase due => exact land_pollable ordered phase due
  | idle phase due =>
      have boundary := ordered.due (by rw [phase]; rintro ⟨⟩) (by rwa [phase])
      refine ⟨fun waiting => ?_, ordered.delay, boundary⟩
      exact Bool.noConfusion ((ordered.running phase).symm.trans waiting)
  | halted phase due =>
      have boundary := ordered.due (by rw [phase]; rintro ⟨⟩) (by rwa [phase])
      refine ⟨fun _ => Bool.eq_false_iff.mpr fun bug => ?_, ordered.delay, boundary⟩
      rcases ordered.held bug with other | ⟨_, other⟩
      all_goals
        rw [phase] at other
        cases other

theorem tick_ordered {wired : Wired β} (ordered : wired.cpu.Ordered) :
    wired.tick.2.cpu.Ordered := by
  have coherent := tick_coherent ordered.coherent
  obtain ⟨next, disabled, running⟩ := ordered.delay
  have aligned := ordered.aligned
  have turn := turn_tick wired
  generalize wired.tick = outcome at turn coherent ⊢
  cases turn with
  | fault => exact ordered
  | @fetch instruction fetching found =>
      have whole := instruction.operation.four_dvd_cycles
      have some := instruction.operation.cycles_ge_four
      rw [fetching] at aligned
      rw [fetch_eq found] at coherent ⊢
      refine ⟨coherent, fun bug => ?_, ⟨next, disabled, running⟩, ?_⟩
      · exact Bool.noConfusion (show false = true from bug)
      · change 4 ∣ wired.cpu.clock.cycles + 0 at aligned
        change 4 ∣ wired.cpu.clock.cycles + 1 + (instruction.operation.cycles - 1)
        omega
  | counting more =>
      refine ⟨coherent, fun bug => ?_, ⟨next, disabled, running⟩, ?_⟩
      · rcases ordered.held bug with fetching | ⟨remaining, idle⟩
        · rw [fetching] at more
          exact (Nat.not_lt_zero 1 more).elim
        · exact Or.inr ⟨remaining - 1, congrArg (·.elapse 1) idle⟩
      · change 4 ∣ wired.cpu.clock.cycles + 1 + (wired.cpu.phase.elapse 1).remaining
        rw [Phase.remaining_elapse]
        omega
  | @branch remaining operation jump phase due taken =>
      have boundary := ordered.due (by rw [phase]; rintro ⟨⟩) (by rwa [phase])
      have kept := execute_cpu wired (plain_of_branch taken)
      have enabled : (wired.execute operation).2.registers.ime = wired.registers.ime :=
        ime_execute wired (by rintro rfl; cases taken)
      have late : 4 ∣ jump.delay := by cases jump <;> simp [Jump.delay]
      refine ⟨coherent, fun bug => ?_, ⟨?_, fun armed => ?_, fun armed => ?_⟩, ?_⟩
      · change (wired.execute operation).2.cpu.haltBug = true at bug
        rw [kept] at bug
        exact Bool.noConfusion ((ordered.advancing phase (by rintro ⟨⟩)).symm.trans bug)
      · change (wired.execute operation).2.cpu.enableDelay ≤ 1
        rwa [kept]
      · change (wired.execute operation).2.cpu.enableDelay = 1 at armed
        rw [kept] at armed
        exact enabled.trans (disabled armed)
      · change (wired.execute operation).2.cpu.halted = false
        rw [kept]
        exact ordered.running phase
      · change 4 ∣ (wired.execute operation).2.cpu.clock.cycles + 1 + jump.delay
        rw [clock_execute]
        omega
  | retires retires => exact retire_ordered (retires_pollable ordered retires)

end Wired

theorem Cpu.Autonomous.ordered {cpu : Cpu} (autonomous : cpu.Autonomous) : cpu.Ordered := by
  induction autonomous with
  | start registers => exact ⟨⟨trivial, rfl⟩, nofun, ⟨Nat.zero_le 1, nofun, nofun⟩, ⟨0, rfl⟩⟩
  | tick bus _ ih => exact Wired.tick_ordered ih
  | setTrace fetches _ ih =>
      obtain ⟨⟨bounded, halted⟩, held, ⟨next, disabled, running⟩, aligned⟩ := ih
      exact ⟨⟨bounded, halted⟩, held, ⟨next, disabled, running⟩, aligned⟩
  | reset _ ih => exact ⟨⟨trivial, rfl⟩, nofun, ⟨Nat.zero_le 1, nofun, nofun⟩, ⟨0, rfl⟩⟩

theorem Cpu.Autonomous.after {β : Type} [Bus β] {wired : Wired β}
    (autonomous : wired.cpu.Autonomous) (count : Nat) : (wired.after count).cpu.Autonomous := by
  induction count with
  | zero => exact autonomous
  | succ count ih => exact .tick _ ih

theorem Cpu.Autonomous.reachable {cpu : Cpu} (autonomous : cpu.Autonomous) : cpu.Reachable := by
  induction autonomous with
  | start registers => exact .start registers
  | tick bus _ ih => exact .tick bus ih
  | setTrace fetches _ ih => exact .setTrace fetches ih
  | reset _ ih => exact .reset ih

/-- The order of the control state.  Halted is a phase of its own, in which the program counter is
never held; it is held before a fetch only; an enabling is awaited with interrupts off; no phase
runs longer than its kind allows; and all of them begin and end on machine cycles. -/
theorem control_state {cpu : Cpu} (autonomous : cpu.Autonomous) :
    (cpu.halted = true ↔ ∃ remaining, cpu.phase = .halted remaining) ∧
    ¬(cpu.halted = true ∧ cpu.haltBug = true) ∧
    (cpu.haltBug = true →
      cpu.phase = .fetching ∨ ∃ remaining, cpu.phase = .executing remaining .idle) ∧
    (cpu.enableDelay = 0 ∨ cpu.enableDelay = 1) ∧
    (cpu.enableDelay = 1 → cpu.registers.ime = false ∧ cpu.halted = false) ∧
    (∀ remaining stage, cpu.phase = .executing remaining stage →
      1 ≤ remaining ∧ remaining ≤ stage.limit) ∧
    (∀ remaining, cpu.phase = .halted remaining → 1 ≤ remaining ∧ remaining ≤ 4) ∧
    (cpu.phase = .fetching → 4 ∣ cpu.clock.cycles) ∧
    (cpu.phase ≠ .fetching → 4 ∣ cpu.clock.cycles + cpu.phase.remaining) ∧
    ∀ {β : Type} [Bus β] (bus : β) (next : Wired β),
      Wired.tick ⟨cpu, bus⟩ = (.ok .boundary, next) → 4 ∣ next.cpu.clock.cycles := by
  obtain ⟨⟨bounded, halted⟩, held, ⟨next, disabled, running⟩, aligned⟩ := autonomous.ordered
  refine ⟨?_, ?_, held, by omega, fun armed => ⟨disabled armed, running armed⟩, ?_, ?_, ?_,
    fun _ => aligned, ?_⟩
  · rw [halted]
    cases cpu.phase <;> simp [Phase.isHalted]
  · rintro ⟨waiting, bug⟩
    rw [halted] at waiting
    rcases held bug with phase | ⟨_, phase⟩
    all_goals
      rw [phase] at waiting
      cases waiting
  · intro remaining stage phase
    rw [phase] at bounded
    cases stage with
    | operation operation =>
        have cost := operation.cycles_le_twenty
        simp only [Phase.Bounded, Stage.limit] at bounded ⊢
        omega
    | jump jump =>
        have late : jump.delay ≤ 12 := by cases jump <;> simp [Jump.delay]
        simp only [Phase.Bounded, Stage.limit] at bounded ⊢
        omega
    | idle => exact bounded
  · intro remaining phase
    rw [phase] at bounded
    exact bounded
  · intro fetching
    rwa [fetching] at aligned
  · intro β _ bus last ticked
    obtain ⟨polled, retires, rfl⟩ := Wired.retires_of_tick ticked
    have due := (Wired.retires_pollable autonomous.ordered retires).due
    change 4 ∣ polled.retire.cpu.clock.cycles + 1
    rwa [Wired.clock_retire]

/-! A halt, with interrupts off and no enabling awaited. -/

namespace Wired

section Halting

variable {β : Type} [Bus β] {wired : Wired β} {instruction : Instruction}

theorem retires_halt (fetching : wired.cpu.phase = .fetching)
    (found : wired.instruction? = some instruction) (waits : instruction.operation = .halt)
    (settled : wired.cpu.enableDelay = 0) :
    ∃ phase, (wired.after 3).Retires
      (wired.fetch.2.halt.retime phase (wired.cpu.clock.advanceBy 3)) := by
  have fetched : wired.fetch.2.cpu.enableDelay = 0 := by rwa [fetch_eq found]
  have kept : wired.fetch.2.halt.cpu.enableDelay = 0 := by
    rw [halt_cpu]
    split <;> exact fetched
  obtain ⟨phase, retires⟩ := (runs_instruction fetching found).retires
  rw [waits, conclude, perform_of_straight rfl] at retires
  change (wired.after 3).Retires (wired.fetch.2.halt.expireDelay.retime phase _) at retires
  rw [expireDelay_idle kept] at retires
  exact ⟨phase, retires⟩

variable [Bus.Still β]

theorem after_suppressed (fetching : wired.cpu.phase = .fetching)
    (found : wired.instruction? = some instruction) (waits : instruction.operation = .halt)
    (settled : wired.cpu.enableDelay = 0) (disabled : wired.registers.ime = false)
    (running : wired.cpu.halted = false) (pending : pendingOn wired.bus ≠ 0) :
    wired.after 4 = { wired.fetch.2 with
      cpu.haltBug := true
      cpu.phase := .fetching
      cpu.clock := wired.cpu.clock.advanceBy 4 } := by
  have suppressed : wired.fetch.2.halt = wired.fetch.2.setHaltBug := by
    rw [halt_still, fetch_eq found, fetchedBus_still]
    exact if_pos ⟨disabled, pending⟩
  obtain ⟨phase, retires⟩ := retires_halt fetching found waits settled
  rw [suppressed] at retires
  rw [after, tick_of_retires retires, retire_fetch, pending_still, ← Clock.advance_advanceBy]
  · rfl
  · rw [fetch_eq found]
    exact Or.inl disabled
  · rw [fetch_eq found]
    exact running

theorem after_waiting (fetching : wired.cpu.phase = .fetching)
    (found : wired.instruction? = some instruction) (waits : instruction.operation = .halt)
    (settled : wired.cpu.enableDelay = 0) (quiet : pendingOn wired.bus = 0) :
    wired.after 4 = { wired.fetch.2 with
      cpu.halted := true
      cpu.phase := .halted haltCycles
      cpu.clock := wired.cpu.clock.advanceBy 4 } := by
  have waiting : wired.fetch.2.halt = wired.fetch.2.setHalted := by
    rw [halt_still, fetch_eq found, fetchedBus_still]
    exact if_neg fun suppressed => suppressed.2 quiet
  obtain ⟨phase, retires⟩ := retires_halt fetching found waits settled
  rw [waiting] at retires
  rw [after, tick_of_retires retires, retire_stay, pending_still, ← Clock.advance_advanceBy]
  · rfl
  · rw [pending_still, fetch_eq found, fetchedBus_still]
    exact quiet
  · rfl

end Halting

theorem requested_halt (second : UInt8) :
    (requested 0x76 second).instruction? = some ⟨0x76, false, .halt⟩ :=
  instruction?_of_decode (requested_get 0x76 second).1 rfl

/-- The state behind a suppressed halt at address 0. -/
theorem requested_suppressed (second : UInt8) :
    (requested 0x76 second).after 4 =
      { cpu := { registers := { sp := 0xFFFE, pc := 1 }, haltBug := true, clock := ⟨4⟩ }
        bus := (requested 0x76 second).bus } := by
  have pending : pendingOn (requested 0x76 second).bus = 1 := requested_pending rfl
  have requests : pendingOn (requested 0x76 second).bus ≠ 0 := by
    rw [pending]
    decide
  rw [after_suppressed rfl (requested_halt second) rfl rfl rfl rfl requests,
    fetch_eq (requested_halt second), fetchedBus_still]
  rfl

end Wired

theorem control_state_suppressed :
    ∃ cpu : Cpu, cpu.Autonomous ∧ cpu.haltBug = true ∧ cpu.clock.cycles = 4 ∧
      ¬(cpu.halted = true ∧ cpu.haltBug = true) ∧ 4 ∣ cpu.clock.cycles := by
  have autonomous : ((Wired.requested 0x76 0x00).after 4).cpu.Autonomous := .after (.start _) 4
  have suppressed := Wired.requested_suppressed 0x00
  rw [suppressed] at autonomous
  obtain ⟨_, apart, _, _, _, _, _, aligned, _⟩ := control_state autonomous
  exact ⟨_, autonomous, rfl, rfl, apart, aligned rfl⟩

end Dmg
