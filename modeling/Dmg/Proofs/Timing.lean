import Dmg.Proofs.Reachable

/-!
How long the processor takes.  Every instruction costs its descriptor's cycles and, if it branches,
the branch's, whatever its poll decides, and from anywhere else the next boundary is near.
-/

namespace Dmg

namespace Wired

variable {β : Type} [Bus β]

theorem instruction?_of_legal {wired : Wired β}
    (legal : (Bus.read wired.bus wired.registers.pc).1 = extendedOpcode ∨
      (decode? (Bus.read wired.bus wired.registers.pc).1).isSome) :
    ∃ instruction, wired.instruction? = some instruction := by
  rcases legal with announced | decoded
  · simp only [instruction?, announced, if_true]
    exact ⟨_, rfl⟩
  · obtain ⟨operation, decoded⟩ := Option.isSome_iff_exists.mp decoded
    exact ⟨_, instruction?_of_decode rfl decoded⟩

theorem step_dispatched {polled : Wired β} (enabled : polled.registers.ime = true)
    (pending : polled.pending.1 ≠ 0) :
    polled.retire.count.step.1 = .ok dispatchCycles := by
  obtain ⟨interrupt, _, same⟩ := retire_dispatch enabled pending
  have phase : polled.retire.count.cpu.phase = .executing (19 + 1) .idle := by
    rw [same]
    rfl
  rw [step_of_idle phase, dispatchCycles]

theorem step_halted {polled : Wired β} (halted : polled.cpu.halted = true)
    (declined : polled.registers.ime = false ∨ polled.pending.1 = 0) :
    polled.retire.count.step.1 = .ok haltCycles := by
  by_cases quiet : polled.pending.1 = 0
  · have phase : polled.retire.count.cpu.phase = .halted (3 + 1) := by
      rw [retire_stay quiet halted]
      rfl
    rw [step_of_halted phase, haltCycles]
  · have phase : polled.retire.count.cpu.phase = .executing (3 + 1) .idle := by
      rw [retire_wake (declined.resolve_right quiet) quiet halted]
      rfl
    rw [step_of_idle phase, haltCycles]

theorem step_within_operation {wired : Wired β} {count : Nat} {operation : Operation}
    (phase : wired.cpu.phase = .executing (count + 1) (.operation operation))
    (begun : count + 1 ≤ operation.cycles) :
    ∃ ticks last, wired.step = (.ok ticks, last) ∧ ticks ≤ 24 := by
  have due := phase_elapse_executing phase
  have counting : wired.cpu.phase.remaining = count + 1 := by rw [phase, Phase.remaining]
  cases executed : ((wired.elapse count).execute operation).1 with
  | none =>
      have cost := operation.cycles_le_twenty
      have ended := step_of_retires (.operation due (Nat.le_refl 1) executed)
      exact ⟨_, _, step_of_counting counting ended, by omega⟩
  | some jump =>
      have bound := operation.cycles_add_penalty_le (wired.elapse count).registers
      rw [penalty_of_branch executed] at bound
      have late : jump.delay = jump.delay - 1 + 1 := by cases jump <;> rfl
      have ticked := tick_of_branch executed due (Nat.le_refl 1)
      rw [late] at ticked
      have ended := step_of_within ticked (step_of_jump rfl)
      exact ⟨_, _, step_of_counting counting ended, by omega⟩

theorem step_of_coherent {wired : Wired β} (coherent : wired.cpu.Coherent)
    (busy : wired.cpu.phase ≠ .fetching) :
    ∃ ticks last, wired.step = (.ok ticks, last) ∧ ticks ≤ 24 := by
  have bounded := coherent.bounded
  cases phase : wired.cpu.phase with
  | fetching => exact (busy phase).elim
  | executing remaining stage =>
      rw [phase] at bounded
      cases remaining with
      | zero => cases stage <;> simp [Phase.Bounded] at bounded
      | succ count =>
          cases stage with
          | operation operation =>
              exact step_within_operation phase (by simp only [Phase.Bounded] at bounded; omega)
          | jump jump =>
              refine ⟨_, _, step_of_jump phase, ?_⟩
              have late : jump.delay ≤ 12 := by cases jump <;> simp [Jump.delay]
              simp only [Phase.Bounded] at bounded
              omega
          | idle =>
              refine ⟨_, _, step_of_idle phase, ?_⟩
              simp only [Phase.Bounded, dispatchCycles] at bounded
              omega
  | halted remaining =>
      rw [phase] at bounded
      simp only [Phase.Bounded, haltCycles] at bounded
      obtain ⟨count, rfl⟩ := Nat.exists_eq_add_of_le' bounded.1
      exact ⟨_, _, step_of_halted phase, by omega⟩

/-- The time of every step.  An instruction that is about to be fetched takes the cycles of its
descriptor and the penalty of a branch that the flags take, and touches registers and bus only on
its first tick, on the one on which those cycles are over and on its last.  What the poll on the
last tick decides costs a step of its own, or none.  Any other step ends within 24 ticks. -/
theorem step_timing (wired : Wired β) :
    (wired.cpu.phase = .fetching →
      (Bus.read wired.bus wired.registers.pc).1 = extendedOpcode ∨
        (decode? (Bus.read wired.bus wired.registers.pc).1).isSome →
      ∃ instruction polled, wired.instruction? = some instruction ∧
        let base := instruction.operation.cycles
        let total := base + instruction.operation.penalty wired.registers
        wired.step = (.ok total, polled.retire.count) ∧
          (wired.after (total - 1)).Retires polled ∧
          (wired.after 1).bus = wired.fetchedBus ∧
          ∀ count, count + 1 < total → count ≠ 0 → count + 1 ≠ base →
            wired.after (count + 1) = (wired.after count).elapse 1) ∧
    (∀ polled, wired.Retires polled →
      wired.tick = (.ok .boundary, polled.retire.count) ∧
        (polled.registers.ime = true → polled.pending.1 ≠ 0 →
          polled.retire.count.step.1 = .ok 20) ∧
        (polled.registers.ime = false ∨ polled.pending.1 = 0 →
          (polled.cpu.halted = true → polled.retire.count.step.1 = .ok 4) ∧
          (polled.cpu.halted = false → polled.retire.count.cpu.phase = .fetching))) ∧
    (1 < wired.cpu.phase.remaining → wired.tick = (.ok .within, wired.elapse 1)) ∧
    (wired.cpu.Reachable → wired.cpu.phase ≠ .fetching →
      ∃ ticks last, wired.step = (.ok ticks, last) ∧ ticks ≤ 24) := by
  refine ⟨?_, ?_, tick_counting, fun reachable => step_of_coherent reachable.coherent⟩
  · intro fetching legal
    obtain ⟨instruction, found⟩ := instruction?_of_legal legal
    have runs := runs_instruction fetching found
    obtain ⟨polled, phase, retires, _, stepped⟩ := runs.step
    refine ⟨instruction, polled, found, stepped, retires, ?_, ?_⟩
    · rw [after_one fetching found, fetch_eq found]
      rfl
    · intro count before started apart
      exact runs.counts count started apart before
  · intro polled retires
    refine ⟨tick_of_retires retires, step_dispatched, fun declined => ⟨?_, ?_⟩⟩
    · intro halted
      exact step_halted halted declined
    · intro running
      rw [retire_fetch declined running]
      rfl

end Wired

end Dmg
