import Dmg.Memory.Recorder
import Dmg.Proofs.ControlState

/-!
Waiting for an interrupt.  A halted processor looks at the interrupts every fourth cycle and does
nothing else, and the first look that finds one ends the wait, whatever the outside does to the bus
in between.
-/

namespace Dmg

def lookAt {β : Type} [Bus β] (bus : β) : Array Access :=
  #[.read Interrupt.enableAddress (Bus.read bus Interrupt.enableAddress).1,
    .read Interrupt.requestAddress (Bus.read bus Interrupt.requestAddress).1]

namespace Cpu

/-- A tick brings the processor to the next state, makes these accesses to the bus, and leaves the
bus as it is. -/
structure Watches {β : Type} [Bus β] (cpu : Cpu) (bus : β) (next : Cpu) (accesses : Array Access) :
    Prop where
  next : (Wired.tick ⟨cpu, bus⟩).2 = ⟨next, bus⟩
  accesses : (Wired.tick ⟨cpu, ({ inner := bus } : Recorder β)⟩).2.bus.accesses = accesses

/-- Halted still after some cycles, the last of each four being `first` modulo four. -/
def asleep (cpu : Cpu) (first count : Nat) : Cpu :=
  { cpu with
    phase := .halted (4 - (count + 3 - first) % 4)
    clock := cpu.clock.advanceBy count }

def awake (cpu : Cpu) (phase : Phase) (count : Nat) : Cpu :=
  { cpu with phase, halted := false, haltBug := true, clock := cpu.clock.advanceBy count }

end Cpu

namespace Wired

variable {β : Type} [Bus β]

theorem watches_counting {cpu : Cpu} (more : 1 < cpu.phase.remaining) (bus : β) :
    cpu.Watches bus ((⟨cpu, bus⟩ : Wired β).elapse 1).cpu #[] := by
  constructor
  · rw [tick_counting more]
    rfl
  · rw [tick_counting more]
    rfl

variable [Bus.Still β]

theorem read_recorded (bus : β) (accesses : Array Access) (address : UInt16) :
    Bus.read ({ inner := bus, accesses } : Recorder β) address =
      ((Bus.read bus address).1,
        { inner := bus, accesses := accesses.push (.read address (Bus.read bus address).1) }) := by
  change ((Bus.read bus address).1, (⟨(Bus.read bus address).2, true, _⟩ : Recorder β)) = _
  rw [Bus.Still.read_bus]
  rfl

theorem pending_recorded (cpu : Cpu) (bus : β) :
    (⟨cpu, ({ inner := bus } : Recorder β)⟩ : Wired (Recorder β)).pending =
      (pendingOn bus, ⟨cpu, { inner := bus, accesses := lookAt bus }⟩) := by
  simp only [pending, read, read_recorded]
  rfl

/-- A look at the interrupts that takes none reads the two registers and does no more. -/
theorem watches_look {cpu next : Cpu} {bus : β}
    (polls : ∀ {γ : Type} [Bus γ] (bus : γ), (⟨cpu, bus⟩ : Wired γ).Retires ⟨cpu, bus⟩)
    (declines : ∀ {γ : Type} [Bus γ] (wired : Wired γ), wired.cpu = cpu →
      wired.pending.1 = pendingOn bus → wired.retire.count = ⟨next, wired.pending.2.bus⟩) :
    cpu.Watches bus next (lookAt bus) := by
  constructor
  · rw [tick_of_retires (polls bus), declines _ rfl (by rw [pending_still]), pending_still]
  · rw [tick_of_retires (polls _), declines _ rfl (by rw [pending_recorded]), pending_recorded]

theorem watches_stay {cpu : Cpu} {bus : β} (phase : cpu.phase = .halted 1)
    (halted : cpu.halted = true) (quiet : pendingOn bus = 0) :
    cpu.Watches bus { cpu with phase := .halted 4, clock := cpu.clock.advance } (lookAt bus) := by
  refine watches_look (fun _ => .halted phase (Nat.le_refl 1)) fun wired same pending => ?_
  subst same
  rw [retire_stay (pending.trans quiet) halted]
  rfl

theorem watches_wake {cpu : Cpu} {bus : β} (phase : cpu.phase = .halted 1)
    (halted : cpu.halted = true) (disabled : cpu.registers.ime = false)
    (requested : pendingOn bus ≠ 0) :
    cpu.Watches bus
      { cpu with
        phase := .executing 4 .idle
        halted := false
        haltBug := true
        clock := cpu.clock.advance } (lookAt bus) := by
  refine watches_look (fun _ => .halted phase (Nat.le_refl 1)) fun wired same pending => ?_
  subst same
  rw [← pending] at requested
  rw [retire_wake disabled requested halted]
  rfl

theorem watches_idle {cpu : Cpu} {bus : β} (phase : cpu.phase = .executing 1 .idle)
    (running : cpu.halted = false) (disabled : cpu.registers.ime = false) :
    cpu.Watches bus { cpu with phase := .fetching, clock := cpu.clock.advance } (lookAt bus) := by
  refine watches_look (fun _ => .idle phase (Nat.le_refl 1)) fun wired same _ => ?_
  subst same
  rw [retire_fetch (Or.inl disabled) running]
  rfl

theorem halted_retire (polled : Wired β) :
    polled.retire.cpu.halted = true ↔ polled.cpu.halted = true ∧ pendingOn polled.bus = 0 := by
  have seen : polled.pending.1 = pendingOn polled.bus := by rw [pending_still]
  rw [← seen]
  rcases retire_cases polled with ⟨_, pending, _, _, same⟩ |
    ⟨_, ⟨running, same⟩ | ⟨waiting, quiet, same⟩ | ⟨_, pending, same⟩⟩
  · rw [same, dispatch_cpu]
    exact ⟨nofun, fun still => (pending still.2).elim⟩
  · rw [same]
    exact ⟨fun waiting => Bool.noConfusion (running.symm.trans waiting),
      fun still => Bool.noConfusion (running.symm.trans still.1)⟩
  · rw [same]
    exact ⟨fun _ => ⟨waiting, quiet⟩, fun _ => waiting⟩
  · rw [same]
    exact ⟨nofun, fun still => (pending still.2).elim⟩

theorem halt_waits (wired : Wired β) : wired.halt.bus = wired.bus ∧
    (pendingOn wired.bus = 0 → wired.halt.cpu.halted = true) := by
  rw [halt_still]
  split
  · rename_i suppressed
    exact ⟨rfl, fun quiet => (suppressed.2 quiet).elim⟩
  · exact ⟨rfl, fun _ => rfl⟩

theorem execute_waits {operation : Operation} (wired : Wired β)
    (waits : operation = .halt ∨ operation = .stop) :
    (wired.execute operation).1 = none ∧ (wired.execute operation).2.bus = wired.bus ∧
      (pendingOn wired.bus = 0 → (wired.execute operation).2.cpu.halted = true) := by
  rcases waits with rfl | rfl
  · exact ⟨rfl, halt_waits wired⟩
  · exact ⟨rfl, halt_waits { wired with cpu.registers.pc := wired.registers.pc + 1 }⟩

theorem halted_tick {wired : Wired β} {remaining : Nat} {operation : Operation}
    (waits : operation = .halt ∨ operation = .stop)
    (phase : wired.cpu.phase = .executing remaining (.operation operation)) (due : remaining ≤ 1) :
    wired.tick.2.cpu.halted = true ↔ pendingOn wired.bus = 0 := by
  obtain ⟨straight, bus, waiting⟩ := execute_waits wired waits
  rw [tick_of_retires (.operation phase due straight)]
  change (Wired.retire _).cpu.halted = true ↔ _
  rw [halted_retire, expireDelay_eq]
  change (wired.execute operation).2.cpu.halted = true ∧
    pendingOn (wired.execute operation).2.bus = 0 ↔ _
  rw [bus]
  exact ⟨fun still => still.2, fun quiet => ⟨waiting quiet, quiet⟩⟩

/-! A wait from any of its cycles on, the next look being `first` cycles away. -/

variable {cpu : Cpu} {first count : Nat} {buses : Nat → β}

omit [Bus.Still β] in
theorem watches_between (bound : first < 4) (between : count % 4 ≠ first) (bus : β) :
    (cpu.asleep first count).Watches bus (cpu.asleep first (count + 1)) #[] := by
  have more : 1 < (cpu.asleep first count).phase.remaining := by
    change 1 < 4 - (count + 3 - first) % 4
    omega
  have next : ((⟨cpu.asleep first count, bus⟩ : Wired β).elapse 1).cpu =
      cpu.asleep first (count + 1) := by
    have left : 4 - (count + 3 - first) % 4 - 1 = 4 - (count + 1 + 3 - first) % 4 := by omega
    simp only [elapse, retime, Phase.elapse, Cpu.asleep, Clock.advanceBy_advanceBy, left]
  rw [← next]
  exact watches_counting more bus

omit [Bus β] [Bus.Still β] in
theorem asleep_due (bound : first < 4) (due : count % 4 = first) :
    (cpu.asleep first count).phase = .halted 1 := by
  have last : 4 - (count + 3 - first) % 4 = 1 := by omega
  rw [Cpu.asleep, last]

theorem watches_quiet (bound : first < 4) (halted : cpu.halted = true) (due : count % 4 = first)
    {bus : β} (quiet : pendingOn bus = 0) :
    (cpu.asleep first count).Watches bus (cpu.asleep first (count + 1)) (lookAt bus) := by
  have again : 4 = 4 - (count + 1 + 3 - first) % 4 := by omega
  have stays := watches_stay (asleep_due bound due) halted quiet
  rw [again] at stays
  simp only [Cpu.asleep, Clock.advance_advanceBy] at stays
  exact stays

theorem tick_asleep (bound : first < 4) (due : count % 4 = first)
    (enabled : cpu.registers.ime = true) {bus : β} (requested : pendingOn bus ≠ 0) :
    ∃ interrupt, Interrupt.first? (pendingOn bus) = some interrupt ∧
      Wired.tick ⟨cpu.asleep first count, bus⟩ =
        (.ok .boundary, (Wired.dispatch ⟨cpu.asleep first count, bus⟩ interrupt).count) := by
  have last : (cpu.asleep first count).phase = .halted 1 := asleep_due bound due
  have polls : (⟨cpu.asleep first count, bus⟩ : Wired β).Retires _ := .halted last (Nat.le_refl 1)
  have seen : (⟨cpu.asleep first count, bus⟩ : Wired β).pending = _ := pending_still _
  have pending : (⟨cpu.asleep first count, bus⟩ : Wired β).pending.1 ≠ 0 := by rwa [seen]
  have stillEnabled : (⟨cpu.asleep first count, bus⟩ : Wired β).registers.ime = true := enabled
  obtain ⟨interrupt, found, taken⟩ := retire_dispatch stillEnabled pending
  rw [seen] at found taken
  rw [tick_of_retires polls, taken]
  exact ⟨interrupt, found, rfl⟩

theorem watches_woken (bound : first < 4) (halted : cpu.halted = true) (due : count % 4 = first)
    (disabled : cpu.registers.ime = false) {bus : β} (requested : pendingOn bus ≠ 0) :
    (cpu.asleep first count).Watches bus (cpu.awake (.executing 4 .idle) (count + 1))
      (lookAt bus) := by
  have woken := watches_wake (asleep_due bound due) halted disabled requested
  simp only [Cpu.asleep, Clock.advance_advanceBy] at woken
  exact woken

omit [Bus.Still β] in
theorem watches_awake {left : Nat} (more : 1 < left) (bus : β) :
    (cpu.awake (.executing left .idle) count).Watches bus
      (cpu.awake (.executing (left - 1) .idle) (count + 1)) #[] := by
  have counting : 1 < (cpu.awake (.executing left .idle) count).phase.remaining := more
  have idling := watches_counting counting bus
  simp only [elapse, retime, Phase.elapse, Cpu.awake, Clock.advanceBy_advanceBy] at idling
  exact idling

theorem watches_resume (disabled : cpu.registers.ime = false) (bus : β) :
    (cpu.awake (.executing 1 .idle) count).Watches bus (cpu.awake .fetching (count + 1))
      (lookAt bus) := by
  have resumed : (cpu.awake (.executing 1 .idle) count).Watches bus _ (lookAt bus) :=
    watches_idle rfl rfl disabled
  simp only [Cpu.awake, Clock.advance_advanceBy] at resumed
  exact resumed

omit [Bus.Still β] in
theorem during_watches {next : Cpu} {accesses : Array Access}
    (watches : (cpu.during buses count).Watches (buses count) next accesses) :
    cpu.during buses (count + 1) = next :=
  congrArg Wired.cpu watches.next

theorem during_asleep (phase : cpu.phase = .halted (first + 1)) (bound : first < 4)
    (halted : cpu.halted = true)
    (quiet : ∀ earlier < count, earlier % 4 = first → pendingOn (buses earlier) = 0) :
    cpu.during buses count = cpu.asleep first count := by
  induction count with
  | zero =>
      have left : first + 1 = 4 - (0 + 3 - first) % 4 := by omega
      rw [Cpu.asleep, ← left, ← phase]
      rfl
  | succ count ih =>
      have before := ih fun earlier early => quiet earlier (by omega)
      rw [Cpu.during, before]
      by_cases due : count % 4 = first
      · rw [(watches_quiet bound halted due (quiet count (by omega) due)).next]
      · rw [(watches_between bound due (buses count)).next]

theorem during_awake (woken : cpu.during buses count = cpu.asleep first count)
    (bound : first < 4) (halted : cpu.halted = true) (due : count % 4 = first)
    (disabled : cpu.registers.ime = false) (requested : pendingOn (buses count) ≠ 0) (idle : Nat)
    (early : idle < 4) : cpu.during buses (count + 1 + idle) =
      cpu.awake (.executing (4 - idle) .idle) (count + 1 + idle) := by
  induction idle with
  | zero =>
      change (Wired.tick ⟨cpu.during buses count, buses count⟩).2.cpu = _
      rw [woken, (watches_woken bound halted due disabled requested).next]
  | succ idle ih =>
      have left : 4 - idle - 1 = 4 - (idle + 1) := by omega
      change (Wired.tick ⟨cpu.during buses (count + 1 + idle), buses (count + 1 + idle)⟩).2.cpu = _
      rw [ih (by omega), (watches_awake (by omega) _).next, left]
      rfl

omit [Bus β] [Bus.Still β] in
theorem halted_phase (coherent : cpu.Coherent) (halted : cpu.halted = true) :
    ∃ first < 4, cpu.phase = .halted (first + 1) := by
  have bounded := coherent.bounded
  rw [coherent.halted] at halted
  cases phase : cpu.phase with
  | halted remaining =>
      rw [phase] at bounded
      simp only [Phase.Bounded, haltCycles] at bounded
      obtain ⟨first, rfl⟩ := Nat.exists_eq_add_of_le' bounded.1
      exact ⟨first, by omega, rfl⟩
  | fetching | executing remaining stage =>
      rw [phase] at halted
      cases halted

theorem halted_stays {bus : β} (phase : cpu.phase = .halted (first + 1)) (bound : first < 4)
    (halted : cpu.halted = true) (still : (Wired.tick ⟨cpu, bus⟩).2.cpu.halted = true) :
    ∃ next accesses, cpu.Watches bus next accesses ∧ next.registers = cpu.registers ∧
      (accesses = #[] ∨ accesses = lookAt bus) := by
  have asleep : cpu = cpu.asleep first 0 := by
    have start : cpu.during (fun _ => bus) 0 = cpu.asleep first 0 :=
      during_asleep phase bound halted nofun
    exact start
  by_cases due : 0 % 4 = first
  · have last : (⟨cpu, bus⟩ : Wired β).Retires ⟨cpu, bus⟩ := .halted phase (by omega)
    rw [tick_of_retires last] at still
    change (Wired.retire ⟨cpu, bus⟩).cpu.halted = true at still
    rw [halted_retire] at still
    have quiet : pendingOn bus = 0 := still.2
    have watches : (cpu.asleep first 0).Watches bus _ (lookAt bus) :=
      watches_quiet bound halted due quiet
    rw [← asleep] at watches
    exact ⟨_, _, watches, rfl, Or.inr rfl⟩
  · have watches : (cpu.asleep first 0).Watches bus _ #[] := watches_between bound due bus
    rw [← asleep] at watches
    exact ⟨_, _, watches, rfl, Or.inl rfl⟩

/-- The wait for an interrupt.  It begins exactly if none is pending when the operation ends; while
it lasts the processor only looks at the interrupts, every fourth cycle; and it ends with the first
look that finds one, which is taken if interrupts are on.  Otherwise the processor goes on after
four idle cycles, with the program counter held and the request as it was. -/
theorem halt_wakes (reachable : cpu.Reachable) :
    (∀ (bus : β) {remaining : Nat} {operation : Operation},
      operation = .halt ∨ operation = .stop →
      cpu.phase = .executing remaining (.operation operation) → remaining ≤ 1 →
      ((Wired.tick ⟨cpu, bus⟩).2.cpu.halted = true ↔ pendingOn bus = 0)) ∧
    (∀ bus : β, cpu.halted = true → (Wired.tick ⟨cpu, bus⟩).2.cpu.halted = true →
      ∃ next accesses, cpu.Watches bus next accesses ∧ next.registers = cpu.registers ∧
        (accesses = #[] ∨ accesses = lookAt bus)) ∧
    (cpu.halted = true → ∃ first < 4, cpu.phase = .halted (first + 1) ∧
      ∀ (buses : Nat → β) (count : Nat),
        (∀ earlier < count, earlier % 4 = first → pendingOn (buses earlier) = 0) →
        let now := cpu.during buses count
        let bus := buses count
        now = cpu.asleep first count ∧
        (count % 4 ≠ first → now.Watches bus (cpu.asleep first (count + 1)) #[]) ∧
        (count % 4 = first → pendingOn bus = 0 →
          now.Watches bus (cpu.asleep first (count + 1)) (lookAt bus)) ∧
        (count % 4 = first → pendingOn bus ≠ 0 → cpu.registers.ime = true →
          ∃ interrupt, Interrupt.first? (pendingOn bus) = some interrupt ∧
            Wired.tick ⟨now, bus⟩ =
              (.ok .boundary, (Wired.dispatch ⟨now, bus⟩ interrupt).count) ∧
            (cpu.during buses (count + 1)).halted = false) ∧
        (count % 4 = first → pendingOn bus ≠ 0 → cpu.registers.ime = false →
          now.Watches bus (cpu.awake (.executing 4 .idle) (count + 1)) (lookAt bus) ∧
          (∀ idle < 3, (cpu.during buses (count + 1 + idle)).Watches (buses (count + 1 + idle))
            (cpu.awake (.executing (3 - idle) .idle) (count + 2 + idle)) #[]) ∧
          (cpu.during buses (count + 4)).Watches (buses (count + 4))
            (cpu.awake .fetching (count + 5)) (lookAt (buses (count + 4))))) := by
  refine ⟨fun bus _ _ waits phase due => halted_tick waits phase due, ?_, ?_⟩
  · intro bus halted still
    obtain ⟨first, bound, phase⟩ := halted_phase reachable.coherent halted
    exact halted_stays phase bound halted still
  · intro halted
    obtain ⟨first, bound, phase⟩ := halted_phase reachable.coherent halted
    refine ⟨first, bound, phase, fun buses count quiet => ?_⟩
    have asleep := during_asleep phase bound halted quiet
    refine ⟨asleep, ?_, ?_, ?_, ?_⟩
    · intro between
      rw [asleep]
      exact watches_between bound between _
    · intro due quietNow
      rw [asleep]
      exact watches_quiet bound halted due quietNow
    · intro due requested enabled
      obtain ⟨interrupt, found, taken⟩ := tick_asleep bound due enabled requested
      rw [Cpu.during, asleep, taken]
      exact ⟨interrupt, found, rfl, rfl⟩
    · intro due requested disabled
      have woken := during_awake asleep bound halted due disabled requested
      refine ⟨?_, fun idle early => ?_, ?_⟩
      · rw [asleep]
        exact watches_woken bound halted due disabled requested
      · have left : 4 - idle - 1 = 3 - idle := by omega
        have counting : 1 < 4 - idle := by omega
        have next : count + 2 + idle = count + 1 + idle + 1 := by omega
        rw [woken idle (by omega), ← left, next]
        exact watches_awake counting _
      · have last : count + 4 = count + 1 + 3 := rfl
        rw [last, woken 3 (by omega)]
        exact watches_resume disabled _

/-- A processor that the halt at address 0 has stopped. -/
theorem stopped_halt :
    (⟨{}, Ram.zero.set 0 0x76⟩ : Wired Ram).after 4 =
      { cpu := { registers := { pc := 1 }, phase := .halted 4, halted := true, clock := ⟨4⟩ }
        bus := Ram.zero.set 0 0x76 } := by
  have found : (⟨{}, Ram.zero.set 0 0x76⟩ : Wired Ram).instruction? = some ⟨0x76, false, .halt⟩ :=
    instruction?_of_decode (Ram.get_set_self _ _ _) rfl
  have quiet : pendingOn (Ram.zero.set 0 0x76) = 0 := by
    simp [pendingOn, Ram.get_set, Interrupt.enableAddress, Interrupt.requestAddress]
  rw [after_waiting rfl found rfl rfl quiet, fetch_eq found, fetchedBus_still]
  rfl

theorem halt_wakes_later :
    ∃ (cpu : Cpu) (buses : Nat → Ram), cpu.Reachable ∧ cpu.halted = true ∧
      (∀ count < 5, pendingOn (buses count) = 0) ∧ (∀ count ≥ 5, pendingOn (buses count) = 1) ∧
      cpu.during buses 7 = cpu.asleep 3 7 ∧ cpu.during buses 12 = cpu.awake .fetching 12 := by
  let buses : Nat → Ram := fun count => if count < 5 then Ram.zero else (requested 0x76 0x00).bus
  have reachable : ((⟨{}, Ram.zero.set 0 0x76⟩ : Wired Ram).after 4).cpu.Reachable :=
    Cpu.Autonomous.reachable (.after (.start _) 4)
  rw [stopped_halt] at reachable
  have before : ∀ count < 5, pendingOn (buses count) = 0 := by
    intro count early
    simp [buses, early, pendingOn]
  have behind : ∀ count ≥ 5, pendingOn (buses count) = 1 := by
    intro count late
    have pending : pendingOn (requested 0x76 0x00).bus = 1 := requested_pending rfl
    simp [buses, Nat.not_lt.mpr late, pending]
  obtain ⟨_, _, waits⟩ := @halt_wakes Ram _ _ _ reachable
  obtain ⟨first, _, phase, later⟩ := waits rfl
  obtain rfl : first = 3 := by
    injection phase with remaining
    omega
  have quiet : ∀ earlier < 7, earlier % 4 = 3 → pendingOn (buses earlier) = 0 :=
    fun earlier early due => before earlier (by omega)
  obtain ⟨asleep, _, _, _, woken⟩ := later buses 7 quiet
  have requested : pendingOn (buses 7) ≠ 0 := by
    rw [behind 7 (by omega)]
    decide
  obtain ⟨_, _, resumed⟩ := woken rfl requested rfl
  exact ⟨_, buses, reachable, rfl, before, behind, asleep, during_watches resumed⟩

end Wired

end Dmg
