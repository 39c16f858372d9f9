import Dmg.Proofs.Poll

/-!
Runs of ticks.  While a phase counts down nothing else happens, so a stretch of ticks is one change
of the phase and the clock, and a step is made of such stretches.
-/

namespace Dmg

theorem Clock.eq_of_cycles {left right : Clock} (same : left.cycles = right.cycles) :
    left = right := by
  cases left
  cases right
  exact congrArg Clock.mk same

theorem Clock.advance_advanceBy (clock : Clock) (count : Nat) :
    (clock.advanceBy count).advance = clock.advanceBy (count + 1) := by
  apply eq_of_cycles
  simp only [cycles_advance, cycles_advanceBy]
  omega

theorem Clock.advanceBy_advanceBy (clock : Clock) (first second : Nat) :
    (clock.advanceBy first).advanceBy second = clock.advanceBy (first + second) := by
  apply eq_of_cycles
  simp only [cycles_advanceBy]
  omega

namespace Phase

def remaining : Phase → Nat
  | .fetching => 0
  | .executing remaining _ => remaining
  | .halted remaining => remaining

def elapse (phase : Phase) (count : Nat) : Phase :=
  match phase with
  | .fetching => .fetching
  | .executing remaining stage => .executing (remaining - count) stage
  | .halted remaining => .halted (remaining - count)

theorem remaining_elapse (phase : Phase) (count : Nat) :
    (phase.elapse count).remaining = phase.remaining - count := by
  cases phase <;> simp [elapse, remaining]

theorem elapse_elapse (phase : Phase) (first second : Nat) :
    (phase.elapse first).elapse second = phase.elapse (first + second) := by
  cases phase <;> simp only [elapse, Nat.sub_sub]

end Phase

namespace Wired

variable {β : Type}

def elapse (wired : Wired β) (count : Nat) : Wired β :=
  wired.retime (wired.cpu.phase.elapse count) (wired.cpu.clock.advanceBy count)

theorem elapse_elapse (wired : Wired β) (first second : Nat) :
    (wired.elapse first).elapse second = wired.elapse (first + second) := by
  simp only [elapse, retime, Phase.elapse_elapse, Clock.advanceBy_advanceBy]

theorem elapse_zero (wired : Wired β) : wired.elapse 0 = wired := by
  obtain ⟨cpu, bus⟩ := wired
  obtain ⟨registers, phase, halted, haltBug, enableDelay, clock, fetches⟩ := cpu
  cases phase <;> rfl

variable [Bus β]

def after (wired : Wired β) : Nat → Wired β
  | 0 => wired
  | count + 1 => (wired.after count).tick.2

theorem after_add (wired : Wired β) (first second : Nat) :
    wired.after (first + second) = (wired.after first).after second := by
  induction second with
  | zero => rfl
  | succ second ih => rw [← Nat.add_assoc, after, after, ih]

theorem tick_counting {wired : Wired β} (more : 1 < wired.cpu.phase.remaining) :
    wired.tick = (.ok .within, wired.elapse 1) := by
  cases phase : wired.cpu.phase with
  | fetching => simp [phase, Phase.remaining] at more
  | executing remaining stage =>
      simp only [phase, Phase.remaining] at more
      simp only [tick, phase, more, if_true, elapse, Phase.elapse]
      rfl
  | halted remaining =>
      simp only [phase, Phase.remaining] at more
      simp only [tick, phase, more, if_true, elapse, Phase.elapse]
      rfl

theorem after_counting {wired : Wired β} {count : Nat}
    (counting : count < wired.cpu.phase.remaining) : wired.after count = wired.elapse count := by
  induction count with
  | zero => exact (elapse_zero wired).symm
  | succ count ih =>
      have before := ih (by omega)
      have more : 1 < (wired.elapse count).cpu.phase.remaining := by
        change 1 < (wired.cpu.phase.elapse count).remaining
        rw [Phase.remaining_elapse]
        omega
      rw [after, before, tick_counting more, elapse_elapse]

theorem within_of_counting {wired : Wired β} {count : Nat}
    (counting : count + 1 < wired.cpu.phase.remaining) :
    (wired.after count).tick = (.ok .within, wired.after (count + 1)) := by
  have more : 1 < (wired.after count).cpu.phase.remaining := by
    rw [after_counting (by omega)]
    change 1 < (wired.cpu.phase.elapse count).remaining
    rw [Phase.remaining_elapse]
    omega
  rw [after, tick_counting more]

theorem step_of_boundary {wired next : Wired β} (ticked : wired.tick = (.ok .boundary, next)) :
    wired.step = (.ok 1, next) := by
  rw [step]
  split <;> simp_all

theorem step_of_within {wired next last : Wired β} {ticks : Nat}
    (ticked : wired.tick = (.ok .within, next)) (stepped : next.step = (.ok ticks, last)) :
    wired.step = (.ok (ticks + 1), last) := by
  rw [step]
  split
  · simp_all
  · rename_i other same
    obtain rfl : next = other := by
      rw [ticked] at same
      exact (Prod.mk.inj same).2
    rw [stepped]
  · simp_all

theorem step_of_after {wired last : Wired β} {count ticks : Nat}
    (within : ∀ earlier < count, (wired.after earlier).tick.1 = .ok .within)
    (stepped : (wired.after count).step = (.ok ticks, last)) :
    wired.step = (.ok (count + ticks), last) := by
  induction count generalizing wired with
  | zero =>
      rw [Nat.zero_add]
      exact stepped
  | succ count ih =>
      have shift : ∀ earlier, (wired.tick.2).after earlier = wired.after (earlier + 1) := by
        intro earlier
        rw [Nat.add_comm, after_add]
        rfl
      have first : wired.tick = (.ok .within, wired.tick.2) :=
        Prod.ext (within 0 (by omega)) rfl
      rw [Nat.add_right_comm]
      refine step_of_within first (ih ?_ ?_)
      · intro earlier bound
        rw [shift]
        exact within (earlier + 1) (by omega)
      · rw [shift]
        exact stepped

theorem step_of_counting {wired last : Wired β} {count ticks : Nat}
    (counting : wired.cpu.phase.remaining = count + 1)
    (stepped : (wired.elapse count).step = (.ok ticks, last)) :
    wired.step = (.ok (count + ticks), last) := by
  apply step_of_after
  · intro earlier bound
    rw [within_of_counting (by omega)]
  · rw [after_counting (by omega)]
    exact stepped

theorem step_of_retires {wired polled : Wired β} (retires : wired.Retires polled) :
    wired.step = (.ok 1, polled.retire.count) :=
  step_of_boundary (tick_of_retires retires)

omit [Bus β] in
theorem phase_elapse_executing {wired : Wired β} {count : Nat} {stage : Stage}
    (phase : wired.cpu.phase = .executing (count + 1) stage) :
    (wired.elapse count).cpu.phase = .executing 1 stage := by
  simp [elapse, retime, phase, Phase.elapse]

theorem step_of_jump {wired : Wired β} {count : Nat} {jump : Jump}
    (phase : wired.cpu.phase = .executing (count + 1) (.jump jump)) :
    wired.step = (.ok (count + 1), ((wired.elapse count).land jump).expireDelay.retire.count) := by
  apply step_of_counting (by rw [phase, Phase.remaining])
  exact step_of_retires (.jump (phase_elapse_executing phase) (Nat.le_refl 1))

theorem step_of_idle {wired : Wired β} {count : Nat}
    (phase : wired.cpu.phase = .executing (count + 1) .idle) :
    wired.step = (.ok (count + 1), (wired.elapse count).retire.count) := by
  apply step_of_counting (by rw [phase, Phase.remaining])
  exact step_of_retires (.idle (phase_elapse_executing phase) (Nat.le_refl 1))

theorem step_of_halted {wired : Wired β} {count : Nat}
    (phase : wired.cpu.phase = .halted (count + 1)) :
    wired.step = (.ok (count + 1), (wired.elapse count).retire.count) := by
  have due : (wired.elapse count).cpu.phase = .halted 1 := by
    simp [elapse, retime, phase, Phase.elapse]
  apply step_of_counting (by rw [phase, Phase.remaining])
  exact step_of_retires (.halted due (Nat.le_refl 1))

end Wired

end Dmg
