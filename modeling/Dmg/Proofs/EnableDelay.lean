import Dmg.Proofs.Reachable

/-!
When interrupts become enabled.  The instruction behind an enabling is the last one that runs with
interrupts off: its own poll already finds them on, unless it turns them off or begins the wait
again.
-/

namespace Dmg

def Phase.enables : Phase → Bool
  | .executing _ (.operation .enableInterrupts) => true
  | .executing _ (.operation .retEnable) => true
  | .executing _ (.jump .retEnable) => true
  | _ => false

/-- The states to which ticks lead, on any bus and whatever else changes the bus meanwhile, while
nothing is under way that turns interrupts on. -/
inductive Cpu.LeadsTo (start : Cpu) : Cpu → Prop
  | refl : LeadsTo start start
  | tick {β : Type} [Bus β] {cpu : Cpu} (bus : β) : LeadsTo start cpu →
      cpu.phase.enables = false → LeadsTo start (Wired.tick ⟨cpu, bus⟩).2.cpu

namespace Wired

variable {β : Type}

theorem expireDelay_idle {wired : Wired β} (idle : wired.cpu.enableDelay = 0) :
    wired.expireDelay = wired := by
  simp only [expireDelay, idle]

theorem ime_expireDelay {wired : Wired β} (armed : wired.cpu.enableDelay = 1) :
    wired.expireDelay.registers.ime = true := by
  simp only [expireDelay, armed]
  rfl

variable [Bus β]

theorem enableDelay_execute (wired : Wired β) {operation : Operation}
    (off : operation ≠ .disableInterrupts) (on : operation ≠ .enableInterrupts) :
    (wired.execute operation).2.cpu.enableDelay = wired.cpu.enableDelay := by
  cases plain : operation.steers with
  | false => rw [execute_cpu wired plain]
  | true =>
      cases operation with
      | halt =>
          rw [execute_halt_cpu, halt_cpu]
          split <;> rfl
      | stop =>
          rw [execute_stop_cpu, halt_cpu]
          split <;> rfl
      | disableInterrupts => exact (off rfl).elim
      | enableInterrupts => exact (on rfl).elim
      | _ => cases plain

theorem enableDelay_perform (wired : Wired β) {operation : Operation}
    (off : operation ≠ .disableInterrupts) (on : operation ≠ .enableInterrupts) :
    (wired.perform operation).cpu.enableDelay = wired.cpu.enableDelay :=
  (part_perform (fun _ _ => rfl) wired operation).trans (enableDelay_execute wired off on)

/-! Interrupts stay off while nothing is under way that turns them on. -/

structure Disabled (wired : Wired β) : Prop where
  ime : wired.registers.ime = false
  idle : wired.cpu.enableDelay = 0

theorem retire_disabled {wired : Wired β} (disabled : wired.Disabled) :
    wired.retire.Disabled := by
  rcases retire_cases wired with ⟨enabled, _⟩ | ⟨_, ⟨_, same⟩ | ⟨_, _, same⟩ | ⟨_, _, same⟩⟩
  · rw [disabled.ime] at enabled
    cases enabled
  all_goals
    rw [same]
    exact ⟨disabled.ime, disabled.idle⟩

theorem execute_disabled {wired : Wired β} {operation : Operation} (disabled : wired.Disabled)
    (quiet : operation ≠ .enableInterrupts) : (wired.execute operation).2.Disabled := by
  by_cases off : operation = .disableInterrupts
  · subst off
    exact ⟨rfl, rfl⟩
  · exact ⟨(ime_execute wired off).trans disabled.ime,
      (enableDelay_execute wired off quiet).trans disabled.idle⟩

theorem land_disabled {wired : Wired β} {jump : Jump} (disabled : wired.Disabled)
    (quiet : jump ≠ .retEnable) : (wired.land jump).Disabled := by
  cases jump with
  | retEnable => exact (quiet rfl).elim
  | _ => exact ⟨disabled.ime, disabled.idle⟩

theorem tick_disabled {wired : Wired β} (disabled : wired.Disabled)
    (quiet : wired.cpu.phase.enables = false) : wired.tick.2.Disabled := by
  have polls : ∀ {polled : Wired β}, wired.Retires polled → polled.Disabled →
      wired.tick.2.Disabled := by
    intro polled retires still
    have ended := retire_disabled still
    rw [tick_of_retires retires]
    exact ⟨ended.ime, ended.idle⟩
  have kept : ∀ {next : Wired β}, next.Disabled → next.expireDelay.Disabled := by
    intro next still
    rwa [expireDelay_idle still.idle]
  by_cases more : 1 < wired.cpu.phase.remaining
  · rw [tick_counting more]
    exact ⟨disabled.ime, disabled.idle⟩
  · cases phase : wired.cpu.phase with
    | fetching =>
        cases found : wired.instruction? with
        | none =>
            simp only [tick, phase, fetch_none found]
            exact ⟨disabled.ime, disabled.idle⟩
        | some instruction =>
            simp only [tick, phase, fetch_eq found]
            exact ⟨disabled.ime, disabled.idle⟩
    | executing remaining stage =>
        rw [phase] at more quiet
        have due : remaining ≤ 1 := Nat.le_of_not_lt more
        cases stage with
        | operation operation =>
            have other : operation ≠ .enableInterrupts := by
              rintro rfl
              cases quiet
            have still := execute_disabled disabled other
            cases executed : (wired.execute operation).1 with
            | none => exact polls (.operation phase due executed) (kept still)
            | some jump =>
                rw [tick_of_branch executed phase due]
                exact ⟨still.ime, still.idle⟩
        | jump jump =>
            have other : jump ≠ .retEnable := by
              rintro rfl
              cases quiet
            have still := land_disabled disabled other
            exact polls (.jump phase due) (kept still)
        | idle => exact polls (.idle phase due) disabled
    | halted remaining =>
        rw [phase] at more
        exact polls (.halted phase (Nat.le_of_not_lt more)) disabled

omit [Bus β] in
theorem leadsTo_disabled {wired : Wired β} (disabled : wired.Disabled) {later : Cpu}
    (leads : wired.cpu.LeadsTo later) :
    later.registers.ime = false ∧ later.enableDelay = 0 := by
  induction leads with
  | refl => exact ⟨disabled.ime, disabled.idle⟩
  | @tick γ _ cpu bus _ quiet ih =>
      have before : (⟨cpu, bus⟩ : Wired γ).Disabled := ⟨ih.1, ih.2⟩
      obtain ⟨ime, idle⟩ := tick_disabled before quiet
      exact ⟨ime, idle⟩

/-! An enabling, and the instruction behind it. -/

structure Armed (wired : Wired β) : Prop where
  fetching : wired.cpu.phase = .fetching
  running : wired.cpu.halted = false
  advancing : wired.cpu.haltBug = false
  ime : wired.registers.ime = false
  awaited : wired.cpu.enableDelay = 1

theorem conclude_enabling {wired : Wired β} (disabled : wired.fetch.2.registers.ime = false) :
    wired.conclude .enableInterrupts = { wired.fetch.2 with cpu.enableDelay := 1 } := by
  have performed : wired.fetch.2.perform .enableInterrupts =
      { wired.fetch.2 with cpu.enableDelay := 2 } := by
    rw [perform_of_straight rfl]
    simp only [execute, disabled, Bool.false_eq_true, if_false]
  rw [conclude, performed]
  rfl

/-- The poll that ends an enabling still finds interrupts off, also if an earlier enabling is
awaited: the wait begins again. -/
theorem step_enabling {wired : Wired β} {instruction : Instruction}
    (fetching : wired.cpu.phase = .fetching) (running : wired.cpu.halted = false)
    (disabled : wired.registers.ime = false) (found : wired.instruction? = some instruction)
    (enabling : instruction.operation = .enableInterrupts) :
    ∃ next, wired.step = (.ok 4, next) ∧ next.Armed ∧
      next.registers = wired.fetch.2.registers ∧ next.bus = wired.fetch.2.pending.2.bus := by
  obtain ⟨polled, phase, _, same, stepped⟩ := (runs_instruction fetching found).step
  have stillDisabled : wired.fetch.2.registers.ime = false := by
    rw [fetch_eq found]
    exact disabled
  have stillRunning : wired.fetch.2.cpu.halted = false := by
    rw [fetch_eq found]
    exact running
  have advancing : wired.fetch.2.cpu.haltBug = false := by
    rw [fetch_eq found]
  rw [enabling, conclude_enabling stillDisabled] at same
  have disabledAtPoll : polled.registers.ime = false := by
    rw [same]
    exact stillDisabled
  have runningAtPoll : polled.cpu.halted = false := by
    rw [same]
    exact stillRunning
  rw [enabling, retire_fetch (Or.inl disabledAtPoll) runningAtPoll] at stepped
  subst same
  exact ⟨_, stepped, ⟨rfl, stillRunning, advancing, stillDisabled, rfl⟩, rfl, rfl⟩

theorem conclude_armed {wired : Wired β} {instruction : Instruction} (armed : wired.Armed)
    (found : wired.instruction? = some instruction) :
    (wired.conclude instruction.operation).registers.ime = true ↔
      instruction.operation ≠ .disableInterrupts ∧ instruction.operation ≠ .enableInterrupts := by
  have awaited : wired.fetch.2.cpu.enableDelay = 1 := by
    rw [fetch_eq found]
    exact armed.awaited
  have disabled : wired.fetch.2.registers.ime = false := by
    rw [fetch_eq found]
    exact armed.ime
  by_cases off : instruction.operation = .disableInterrupts
  · rw [off]
    exact ⟨nofun, fun apart => (apart.1 rfl).elim⟩
  · by_cases on : instruction.operation = .enableInterrupts
    · rw [on, conclude_enabling disabled]
      refine ⟨fun enabled => ?_, fun apart => (apart.2 rfl).elim⟩
      exact Bool.noConfusion (disabled.symm.trans enabled)
    · have performed := (enableDelay_perform wired.fetch.2 off on).trans awaited
      rw [conclude]
      exact ⟨fun _ => ⟨off, on⟩, fun _ => ime_expireDelay performed⟩

theorem conclude_disabling (wired : Wired β) : (wired.conclude .disableInterrupts).Disabled := by
  have performed : (wired.fetch.2.perform .disableInterrupts).Disabled := ⟨rfl, rfl⟩
  rw [conclude, expireDelay_idle performed.idle]
  exact performed

/-- Interrupts come on with the instruction behind an enabling, whatever it is and whether or not
it branches, in time for its own poll.  Only the two instructions about interrupts themselves are
different: a disabling leaves them off until the next that turns them on, and another enabling
begins the wait again. -/
theorem enabling_delay {wired : Wired β} {instruction : Instruction}
    (reachable : wired.cpu.Reachable) (fetching : wired.cpu.phase = .fetching)
    (disabled : wired.registers.ime = false) (found : wired.instruction? = some instruction)
    (enabling : instruction.operation = .enableInterrupts) :
    ∃ next, wired.step = (.ok 4, next) ∧ next.cpu.phase = .fetching ∧
      next.registers.ime = false ∧ next.registers = wired.fetch.2.registers ∧
      next.bus = wired.fetch.2.pending.2.bus ∧
      ∀ following, next.instruction? = some following →
        ∃ polled last, next.step = (.ok (next.duration following.operation), last) ∧
          (next.after (next.duration following.operation - 1)).Retires polled ∧
          last = polled.retire.count ∧
          (polled.registers.ime = true ↔ following.operation ≠ .disableInterrupts ∧
            following.operation ≠ .enableInterrupts) ∧
          (polled.registers.ime = true →
            (polled.pending.1 = 0 → last.registers.ime = true) ∧
            (polled.pending.1 ≠ 0 →
              ∃ interrupt, Interrupt.first? polled.pending.1 = some interrupt ∧
                last = (polled.pending.2.dispatch interrupt).count)) ∧
          (following.operation = .disableInterrupts →
            ∀ later, last.cpu.LeadsTo later → later.registers.ime = false) ∧
          (following.operation = .enableInterrupts → last.Armed) := by
  have running : wired.cpu.halted = false := by
    rw [reachable.coherent.halted, fetching]
    rfl
  obtain ⟨next, stepped, armed, registers, bus⟩ :=
    step_enabling fetching running disabled found enabling
  refine ⟨next, stepped, armed.fetching, armed.ime, registers, bus, ?_⟩
  intro following behind
  obtain ⟨polled, phase, retires, same, continued⟩ := (runs_instruction armed.fetching behind).step
  refine ⟨polled, _, continued, retires, rfl, ?_, ?_, ?_, ?_⟩
  · rw [same]
    exact conclude_armed armed behind
  · intro enabled
    refine ⟨fun quiet => ?_, fun pending => ?_⟩
    · rcases retire_cases polled with ⟨_, pending, _⟩ | ⟨_, ⟨_, kept⟩ | ⟨_, _, kept⟩ | ⟨_, _, kept⟩⟩
      · exact (pending quiet).elim
      all_goals
        rw [kept]
        exact enabled
    · obtain ⟨interrupt, first, taken⟩ := retire_dispatch enabled pending
      exact ⟨interrupt, first, by rw [taken]⟩
  · intro off later leads
    have ended : polled.Disabled := by
      obtain ⟨ime, idle⟩ := conclude_disabling next
      rw [same, off]
      exact ⟨ime, idle⟩
    have retired : polled.retire.count.Disabled := by
      obtain ⟨ime, idle⟩ := retire_disabled ended
      exact ⟨ime, idle⟩
    exact (leadsTo_disabled retired leads).1
  · intro on
    obtain ⟨other, again, rearmed, _⟩ :=
      step_enabling armed.fetching armed.running armed.ime behind on
    have same : (Except.ok _, polled.retire.count) = (_, other) := continued.symm.trans again
    rw [(Prod.mk.inj same).2]
    exact rearmed

/-! A program of two bytes, the first an enabling. -/

theorem requested_enabling (second : UInt8) :
    (requested 0xFB second).instruction? = some ⟨0xFB, false, .enableInterrupts⟩ :=
  instruction?_of_decode (requested_get 0xFB second).1 rfl

theorem requested_bus {second : UInt8} {next : Wired Ram}
    (bus : next.bus = (requested 0xFB second).fetch.2.pending.2.bus) :
    next.bus = (requested 0xFB second).bus := by
  rw [bus, fetch_eq (requested_enabling second)]
  exact fetchedBus_ram (requested 0xFB second)

theorem requested_following {second : UInt8} {operation : Operation} {next : Wired Ram}
    (decoded : decode? second = some operation)
    (registers : next.registers = (requested 0xFB second).fetch.2.registers)
    (bus : next.bus = (requested 0xFB second).fetch.2.pending.2.bus) :
    next.instruction? = some ⟨second, false, operation⟩ := by
  have behind : next.registers.pc = 1 := by
    rw [registers, fetch_eq (requested_enabling second)]
    rfl
  apply instruction?_of_decode _ decoded
  rw [requested_bus bus, behind]
  exact (requested_get 0xFB second).2.1

theorem enabling_delay_nop :
    ∃ next polled last : Wired Ram, (requested 0xFB 0x00).step = (.ok 4, next) ∧
      next.registers.ime = false ∧ next.step = (.ok 4, last) ∧
      polled.registers.ime = true ∧ last = polled.retire.count ∧
      (polled.pending.1 ≠ 0 → ∃ interrupt, Interrupt.first? polled.pending.1 = some interrupt ∧
        last = (polled.pending.2.dispatch interrupt).count) := by
  obtain ⟨next, stepped, _, disabled, registers, bus, later⟩ :=
    enabling_delay (.start _) rfl rfl (requested_enabling 0x00) rfl
  have found : next.instruction? = some ⟨0x00, false, .nop⟩ :=
    requested_following rfl registers bus
  obtain ⟨polled, last, continued, _, ended, comesOn, dispatched, _⟩ := later _ found
  have enabled : polled.registers.ime = true := comesOn.mpr ⟨nofun, nofun⟩
  exact ⟨next, polled, last, stepped, disabled, continued, enabled, ended,
    (dispatched enabled).2⟩

/-- Of two enablings in a row, the second has run and a request is pending, and interrupts are
still off. -/
theorem enabling_twice :
    ∃ next last : Wired Ram, (requested 0xFB 0xFB).cpu.Reachable ∧
      (requested 0xFB 0xFB).step = (.ok 4, next) ∧
      next.instruction? = some ⟨0xFB, false, .enableInterrupts⟩ ∧ next.step = (.ok 4, last) ∧
      last.pending.1 ≠ 0 ∧ last.registers.ime = false ∧ last.cpu.phase = .fetching := by
  obtain ⟨next, stepped, armed, registers, bus⟩ :=
    step_enabling rfl rfl rfl (requested_enabling 0xFB) rfl
  have found : next.instruction? = some ⟨0xFB, false, .enableInterrupts⟩ :=
    requested_following rfl registers bus
  obtain ⟨last, continued, rearmed, _, lastBus⟩ :=
    step_enabling armed.fetching armed.running armed.ime found rfl
  refine ⟨next, last, .start _, stepped, found, continued, ?_, rearmed.ime, rearmed.fetching⟩
  have same : last.bus = (requested 0xFB 0xFB).bus := by
    rw [lastBus, fetch_eq found]
    exact (fetchedBus_ram next).trans (requested_bus bus)
  rw [requested_pending same]
  decide

end Wired

end Dmg
