import Dmg.Proofs.Instruction

/-!
The states that a processor can come to, and what holds of the engine in all of them: the halted
flag goes with the halted phase, and no phase counts down from more than its kind allows.
-/

namespace Dmg

def Phase.Bounded : Phase → Prop
  | .fetching => True
  | .executing remaining (.operation operation) =>
      1 ≤ remaining ∧ remaining ≤ operation.cycles - 1
  | .executing remaining (.jump jump) => 1 ≤ remaining ∧ remaining ≤ jump.delay
  | .executing remaining .idle => 1 ≤ remaining ∧ remaining ≤ dispatchCycles
  | .halted remaining => 1 ≤ remaining ∧ remaining ≤ haltCycles

def Phase.isHalted : Phase → Bool
  | .halted _ => true
  | _ => false

namespace Cpu

/-- The states of a processor that is switched on with any registers and then ticked on any bus,
whatever else changes the bus meanwhile, with its registers set, its trace exchanged and the
processor reset from outside at any time. -/
inductive Reachable : Cpu → Prop
  | start (registers : Registers) : Reachable (.withRegisters registers)
  | tick {β : Type} [Bus β] {cpu : Cpu} (bus : β) :
      Reachable cpu → Reachable (Wired.tick ⟨cpu, bus⟩).2.cpu
  | setRegisters {cpu : Cpu} (registers : Registers) :
      Reachable cpu → Reachable { cpu with registers }
  | setTrace {cpu : Cpu} (fetches : Option (Array Fetch)) :
      Reachable cpu → Reachable { cpu with fetches }
  | reset {cpu : Cpu} : Reachable cpu → Reachable cpu.reset

structure Coherent (cpu : Cpu) : Prop where
  bounded : cpu.phase.Bounded
  halted : cpu.halted = cpu.phase.isHalted

end Cpu

namespace Wired

variable {β : Type} [Bus β]

theorem retire_coherent (wired : Wired β) : wired.retire.cpu.Coherent := by
  rcases retire_cases wired with ⟨_, _, interrupt, _, same⟩ |
    ⟨_, ⟨running, same⟩ | ⟨halted, _, same⟩ | ⟨_, _, same⟩⟩
  · rw [same, dispatch_cpu]
    exact ⟨by simp [Phase.Bounded, dispatchCycles], rfl⟩
  · rw [same]
    exact ⟨trivial, running⟩
  · rw [same]
    exact ⟨by simp [enter, Phase.Bounded, haltCycles], halted⟩
  · rw [same]
    exact ⟨by simp [Phase.Bounded, haltCycles, dispatchCycles], rfl⟩

omit [Bus β] in
theorem elapse_coherent {wired : Wired β} (coherent : wired.cpu.Coherent)
    (more : 1 < wired.cpu.phase.remaining) : (wired.elapse 1).cpu.Coherent := by
  obtain ⟨bounded, halted⟩ := coherent
  constructor
  · change (wired.cpu.phase.elapse 1).Bounded
    cases phase : wired.cpu.phase with
    | fetching => trivial
    | executing remaining stage =>
        rw [phase] at bounded more
        cases stage <;> simp only [Phase.elapse, Phase.Bounded, Phase.remaining] at * <;> omega
    | halted remaining =>
        rw [phase] at bounded more
        simp only [Phase.elapse, Phase.Bounded, Phase.remaining] at *
        omega
  · change wired.cpu.halted = (wired.cpu.phase.elapse 1).isHalted
    rw [halted]
    cases wired.cpu.phase <;> rfl

theorem fetch_coherent {wired : Wired β} (coherent : wired.cpu.Coherent)
    (fetching : wired.cpu.phase = .fetching) : wired.tick.2.cpu.Coherent := by
  have running : wired.cpu.halted = false := by
    rw [coherent.halted, fetching]
    rfl
  cases found : wired.instruction? with
  | none =>
      simp only [tick, fetching, fetch_none found]
      exact coherent
  | some instruction =>
      have cost := instruction.operation.cycles_ge_four
      simp only [tick, fetching, fetch_eq found]
      refine ⟨?_, running⟩
      simp only [count, Phase.Bounded]
      omega

theorem tick_retires_coherent {wired polled : Wired β} (retires : wired.Retires polled) :
    wired.tick.2.cpu.Coherent := by
  obtain ⟨bounded, halted⟩ := retire_coherent polled
  rw [tick_of_retires retires]
  exact ⟨bounded, halted⟩

theorem complete_coherent {wired : Wired β} {remaining : Nat} {stage : Stage}
    (coherent : wired.cpu.Coherent) (phase : wired.cpu.phase = .executing remaining stage)
    (due : remaining ≤ 1) : wired.tick.2.cpu.Coherent := by
  cases stage with
  | operation operation =>
      cases executed : (wired.execute operation).1 with
      | none => exact tick_retires_coherent (.operation phase due executed)
      | some jump =>
          have running : wired.cpu.halted = false := by
            rw [coherent.halted, phase]
            rfl
          have kept := execute_cpu wired (plain_of_branch executed)
          rw [tick_of_branch executed phase due]
          constructor
          · cases jump <;> simp [count, enter, Phase.Bounded, Jump.delay]
          · change (wired.execute operation).2.cpu.halted = false
            rw [kept]
            exact running
  | jump jump => exact tick_retires_coherent (.jump phase due)
  | idle => exact tick_retires_coherent (.idle phase due)

theorem tick_coherent {wired : Wired β} (coherent : wired.cpu.Coherent) :
    wired.tick.2.cpu.Coherent := by
  by_cases more : 1 < wired.cpu.phase.remaining
  · rw [tick_counting more]
    exact elapse_coherent coherent more
  · cases phase : wired.cpu.phase with
    | fetching => exact fetch_coherent coherent phase
    | executing remaining stage =>
        rw [phase] at more
        exact complete_coherent coherent phase (Nat.le_of_not_lt more)
    | halted remaining =>
        rw [phase] at more
        exact tick_retires_coherent (.halted phase (Nat.le_of_not_lt more))

end Wired

theorem Cpu.Reachable.step {β : Type} [Bus β] {wired : Wired β} (reachable : wired.cpu.Reachable) :
    wired.step.2.cpu.Reachable := by
  have ticked : ∀ {before after : Wired β} {result}, before.tick = (result, after) →
      before.cpu.Reachable → after.cpu.Reachable := by
    intro before after result same reached
    have once : before.tick.2.cpu.Reachable := .tick before.bus reached
    rwa [same] at once
  fun_induction Wired.step wired with
  | case1 before next same => exact ticked same reachable
  | case2 before next same ticks last stepped ih | case3 before next same fault last stepped ih =>
      have reached := ih (ticked same reachable)
      rwa [stepped] at reached
  | case4 before fault next same => exact ticked same reachable

theorem Cpu.Reachable.coherent {cpu : Cpu} (reachable : cpu.Reachable) : cpu.Coherent := by
  induction reachable with
  | start registers => exact ⟨trivial, rfl⟩
  | tick bus _ ih => exact Wired.tick_coherent ih
  | setRegisters registers _ ih => exact ⟨ih.bounded, ih.halted⟩
  | setTrace fetches _ ih => exact ⟨ih.bounded, ih.halted⟩
  | reset _ ih => exact ⟨trivial, rfl⟩

end Dmg
