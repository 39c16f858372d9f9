import Dmg.Proofs.Effect

/-!
The look at the interrupts that ends an instruction, or a period in which the processor idles or is
halted: which ticks make it, in what state, and what comes of it.
-/

namespace Dmg

namespace Interrupt

theorem first?_eq_none_iff (requests : UInt8) :
    first? (requests &&& allMask) = none ↔ requests &&& allMask = 0 := by
  have everyByte : ∀ bits : BitVec 8,
      first? (⟨bits⟩ &&& allMask) = none ↔ (⟨bits⟩ : UInt8) &&& allMask = 0 := by
    decide +kernel
  exact everyByte requests.toBitVec

theorem first?_eq_some_iff (requests : UInt8) (interrupt : Interrupt) :
    first? requests = some interrupt ↔ requests &&& interrupt.mask ≠ 0 ∧
      ∀ other : Interrupt, other.index < interrupt.index → requests &&& other.mask = 0 := by
  have everyByte : ∀ bits : BitVec 8, ∀ place : Fin 5,
      first? ⟨bits⟩ = some (all[place]) ↔ ⟨bits⟩ &&& (all[place]).mask ≠ 0 ∧
        ∀ lower : Fin 5, lower < place → ⟨bits⟩ &&& (all[lower]).mask = 0 := by
    decide +kernel
  have listed : ∀ source : Interrupt, all[source.index] = source := by
    intro source
    cases source <;> rfl
  have placed : ∀ place : Fin 5, (all[place]).index = place := by decide
  have found := everyByte requests.toBitVec interrupt.index
  rw [listed] at found
  rw [found]
  refine and_congr_right fun _ => ⟨fun quiet other earlier => ?_, fun quiet lower earlier => ?_⟩
  · have clear := quiet other.index earlier
    rwa [listed] at clear
  · exact quiet (all[lower]) (by rwa [placed])

end Interrupt

namespace Wired

variable {β : Type}

def returnAddress (wired : Wired β) : UInt16 :=
  if wired.cpu.haltBug then wired.registers.pc - 1 else wired.registers.pc

variable [Bus β]

def pushWord (bus : β) (sp value : UInt16) : β :=
  Bus.write (Bus.write bus (sp - 1) (highByte value)) (sp - 2) (lowByte value)

def acknowledge (bus : β) (interrupt : Interrupt) : β :=
  let (requested, bus) := Bus.read bus Interrupt.requestAddress
  Bus.write bus Interrupt.requestAddress (requested &&& ~~~interrupt.mask)

/-- The next tick ends an instruction or an idle or halted period, and looks at the interrupts in
the second state: the effect is made, and an awaited enabling has come nearer. -/
inductive Retires (wired : Wired β) : Wired β → Prop
  | operation {remaining operation} :
      wired.cpu.phase = .executing remaining (.operation operation) → remaining ≤ 1 →
      (wired.execute operation).1 = none → Retires wired (wired.execute operation).2.expireDelay
  | jump {remaining jump} : wired.cpu.phase = .executing remaining (.jump jump) → remaining ≤ 1 →
      Retires wired (wired.land jump).expireDelay
  | idle {remaining} : wired.cpu.phase = .executing remaining .idle → remaining ≤ 1 →
      Retires wired wired
  | halted {remaining} : wired.cpu.phase = .halted remaining → remaining ≤ 1 → Retires wired wired

theorem complete_straight {wired : Wired β} {operation : Operation}
    (straight : (wired.execute operation).1 = none) :
    wired.complete (.operation operation) =
      (.boundary, (wired.execute operation).2.expireDelay.retire) := by
  simp only [complete]
  split
  · rename_i executed
    simp [executed] at straight
  · rename_i executed
    rw [executed]

theorem complete_branch {wired : Wired β} {operation : Operation} {jump : Jump}
    (taken : (wired.execute operation).1 = some jump) :
    wired.complete (.operation operation) =
      (.within, (wired.execute operation).2.enter (.executing jump.delay (.jump jump))) := by
  simp only [complete]
  split
  · rename_i executed
    simp only [executed, Option.some.injEq] at taken
    rw [executed, taken]
  · rename_i executed
    simp [executed] at taken

theorem tick_of_retires {wired polled : Wired β} (retires : wired.Retires polled) :
    wired.tick = (.ok .boundary, polled.retire.count) := by
  cases retires with
  | operation phase due straight =>
      simp only [tick, phase, Nat.not_lt.mpr due, if_false, complete_straight straight]
  | jump phase due => simp only [tick, phase, Nat.not_lt.mpr due, if_false, complete]
  | idle phase due => simp only [tick, phase, Nat.not_lt.mpr due, if_false, complete]
  | halted phase due => simp only [tick, phase, Nat.not_lt.mpr due, if_false]

theorem tick_of_branch {wired : Wired β} {remaining : Nat} {operation : Operation} {jump : Jump}
    (taken : (wired.execute operation).1 = some jump)
    (phase : wired.cpu.phase = .executing remaining (.operation operation)) (due : remaining ≤ 1) :
    wired.tick = (.ok .within,
      ((wired.execute operation).2.enter (.executing jump.delay (.jump jump))).count) := by
  simp only [tick, phase, Nat.not_lt.mpr due, if_false, complete_branch taken]

theorem retires_operation {wired : Wired β} {operation : Operation}
    (straight : (wired.execute operation).1 = none) (clock : Clock) :
    (wired.retime (.executing 1 (.operation operation)) clock).Retires
      ((wired.perform operation).expireDelay.retime (.executing 1 (.operation operation))
        clock) := by
  have later := execute_retime wired operation (.executing 1 (.operation operation)) clock
  have ended : (wired.retime (.executing 1 (.operation operation)) clock).Retires
      ((wired.retime (.executing 1 (.operation operation)) clock).execute
        operation).2.expireDelay :=
    .operation rfl (Nat.le_refl 1) ((congrArg Prod.fst later).trans straight)
  rwa [later, expireDelay_retime, ← perform_of_straight straight] at ended

theorem retires_jump (wired : Wired β) (jump : Jump) (clock : Clock) :
    (wired.retime (.executing 1 (.jump jump)) clock).Retires
      ((wired.land jump).expireDelay.retime (.executing 1 (.jump jump)) clock) := by
  rw [← expireDelay_retime, ← land_retime]
  exact .jump rfl (Nat.le_refl 1)

theorem retires_of_tick {wired next : Wired β} (ticked : wired.tick = (.ok .boundary, next)) :
    ∃ polled, wired.Retires polled ∧ next = polled.retire.count := by
  have retired : ∀ {polled : Wired β}, wired.Retires polled →
      ∃ polled, wired.Retires polled ∧ next = polled.retire.count := by
    intro polled retires
    have same := (tick_of_retires retires).symm.trans ticked
    exact ⟨polled, retires, (Prod.mk.inj same).2.symm⟩
  cases phase : wired.cpu.phase with
  | fetching =>
      simp only [tick, phase] at ticked
      split at ticked <;> simp at ticked
  | executing remaining stage =>
      by_cases due : remaining ≤ 1
      · cases stage with
        | operation operation =>
            cases executed : (wired.execute operation).1 with
            | none => exact retired (.operation phase due executed)
            | some jump =>
                rw [tick_of_branch executed phase due] at ticked
                simp at ticked
        | jump jump => exact retired (.jump phase due)
        | idle => exact retired (.idle phase due)
      · simp [tick, phase, Nat.lt_of_not_le due] at ticked
  | halted remaining =>
      by_cases due : remaining ≤ 1
      · exact retired (.halted phase due)
      · simp [tick, phase, Nat.lt_of_not_le due] at ticked

/-! The four outcomes of the look: an interrupt is taken, the processor wakes up, it stays halted,
or it goes on to the next fetch. -/

theorem first?_pending_eq_none_iff (wired : Wired β) :
    Interrupt.first? wired.pending.1 = none ↔ wired.pending.1 = 0 :=
  Interrupt.first?_eq_none_iff _

theorem retire_dispatch {wired : Wired β} (enabled : wired.registers.ime = true)
    (pending : wired.pending.1 ≠ 0) :
    ∃ interrupt, Interrupt.first? wired.pending.1 = some interrupt ∧
      wired.retire = wired.pending.2.dispatch interrupt := by
  cases found : Interrupt.first? wired.pending.1 with
  | none => exact (pending ((first?_pending_eq_none_iff wired).mp found)).elim
  | some interrupt =>
      refine ⟨interrupt, rfl, ?_⟩
      have stillEnabled : wired.pending.2.registers.ime = true := enabled
      simp only [retire, found, stillEnabled, if_true]

theorem retire_wake {wired : Wired β} (disabled : wired.registers.ime = false)
    (pending : wired.pending.1 ≠ 0) (halted : wired.cpu.halted = true) :
    wired.retire = { wired.pending.2 with
      cpu.halted := false, cpu.haltBug := true, cpu.phase := .executing haltCycles .idle } := by
  cases found : Interrupt.first? wired.pending.1 with
  | none => exact (pending ((first?_pending_eq_none_iff wired).mp found)).elim
  | some interrupt =>
      have stillDisabled : wired.pending.2.registers.ime = false := disabled
      have stillHalted : wired.pending.2.cpu.halted = true := halted
      simp only [retire, found, stillDisabled, stillHalted, Bool.false_eq_true, if_false, if_true]

theorem retire_stay {wired : Wired β} (quiet : wired.pending.1 = 0)
    (halted : wired.cpu.halted = true) :
    wired.retire = wired.pending.2.enter (.halted haltCycles) := by
  have stillHalted : wired.pending.2.cpu.halted = true := halted
  simp only [retire, (first?_pending_eq_none_iff wired).mpr quiet, stillHalted, if_true]

theorem retire_fetch {wired : Wired β}
    (declined : wired.registers.ime = false ∨ wired.pending.1 = 0)
    (running : wired.cpu.halted = false) :
    wired.retire = wired.pending.2.enter .fetching := by
  have stillRunning : wired.pending.2.cpu.halted = false := running
  cases found : Interrupt.first? wired.pending.1 with
  | none => simp only [retire, found, stillRunning, Bool.false_eq_true, if_false]
  | some interrupt =>
      have pending : wired.pending.1 ≠ 0 := by
        rw [ne_eq, ← first?_pending_eq_none_iff, found]
        exact nofun
      have stillDisabled : wired.pending.2.registers.ime = false :=
        declined.resolve_right pending
      simp only [retire, found, stillDisabled, stillRunning, Bool.false_eq_true, if_false]

theorem retire_cases (wired : Wired β) :
    (wired.registers.ime = true ∧ wired.pending.1 ≠ 0 ∧
      ∃ interrupt, Interrupt.first? wired.pending.1 = some interrupt ∧
        wired.retire = wired.pending.2.dispatch interrupt) ∨
    ((wired.registers.ime = false ∨ wired.pending.1 = 0) ∧
      ((wired.cpu.halted = false ∧ wired.retire = wired.pending.2.enter .fetching) ∨
      (wired.cpu.halted = true ∧ wired.pending.1 = 0 ∧
        wired.retire = wired.pending.2.enter (.halted haltCycles)) ∨
      (wired.cpu.halted = true ∧ wired.pending.1 ≠ 0 ∧
        wired.retire = { wired.pending.2 with
          cpu.halted := false, cpu.haltBug := true,
          cpu.phase := .executing haltCycles .idle }))) := by
  by_cases taken : wired.registers.ime = true ∧ wired.pending.1 ≠ 0
  · exact Or.inl ⟨taken.1, taken.2, retire_dispatch taken.1 taken.2⟩
  · have declined : wired.registers.ime = false ∨ wired.pending.1 = 0 := by
      by_cases quiet : wired.pending.1 = 0
      · exact Or.inr quiet
      · exact Or.inl (Bool.eq_false_iff.mpr fun enabled => taken ⟨enabled, quiet⟩)
    refine Or.inr ⟨declined, ?_⟩
    cases halted : wired.cpu.halted with
    | false => exact Or.inl ⟨rfl, retire_fetch declined halted⟩
    | true =>
        by_cases quiet : wired.pending.1 = 0
        · exact Or.inr (Or.inl ⟨rfl, quiet, retire_stay quiet halted⟩)
        · exact Or.inr (Or.inr
            ⟨rfl, quiet, retire_wake (declined.resolve_right quiet) quiet halted⟩)

theorem registers_retire {wired : Wired β}
    (declined : wired.registers.ime = false ∨ wired.pending.1 = 0) :
    wired.retire.registers = wired.registers := by
  rcases retire_cases wired with
    ⟨enabled, pending, _⟩ | ⟨_, ⟨_, same⟩ | ⟨_, _, same⟩ | ⟨_, _, same⟩⟩
  · rcases declined with disabled | quiet
    · exact Bool.noConfusion (disabled.symm.trans enabled)
    · exact (pending quiet).elim
  all_goals
    rw [same]
    rfl

theorem dispatch_bus (wired : Wired β) (interrupt : Interrupt) :
    (wired.dispatch interrupt).bus =
      acknowledge (pushWord wired.bus wired.registers.sp wired.returnAddress) interrupt := by
  have twice : wired.registers.sp - 1 - 1 = wired.registers.sp - 2 := by grind
  simp only [pushWord, ← twice]
  rfl

theorem dispatch_cpu (wired : Wired β) (interrupt : Interrupt) :
    (wired.dispatch interrupt).cpu =
      { wired.cpu with
        registers := { wired.registers with
          sp := wired.registers.sp - 2, pc := interrupt.vector, ime := false }
        phase := .executing dispatchCycles .idle
        halted := false
        haltBug := false
        enableDelay := 0 } := by
  have twice : wired.registers.sp - 1 - 1 = wired.registers.sp - 2 := by grind
  rw [← twice]
  rfl

end Wired

end Dmg
