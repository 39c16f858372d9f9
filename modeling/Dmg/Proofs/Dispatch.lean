import Dmg.Proofs.Reachable

/-!
Interrupts on flat memory.  The poll that ends an instruction or a halted period takes the most
urgent enabled request and leaves everything else as it is, or takes none and leaves everything.
-/

namespace Dmg

namespace Wired

/-- A state as the taking of an interrupt leaves it, beside the one in which it was polled. -/
structure Takes (polled last : Wired Ram) (interrupt : Interrupt) : Prop where
  registers : last.registers = { polled.registers with
    pc := 0x40 + 8 * UInt16.ofNat interrupt.index.val
    sp := polled.registers.sp - 2
    ime := false }
  high : last.bus.get (polled.registers.sp - 1) = highByte polled.returnAddress
  low : last.bus.get (polled.registers.sp - 2) = lowByte polled.returnAddress
  request : last.bus.get Interrupt.requestAddress =
    polled.bus.get Interrupt.requestAddress &&& ~~~(1 <<< UInt8.ofNat interrupt.index.val)
  others : ∀ address, address ≠ polled.registers.sp - 1 → address ≠ polled.registers.sp - 2 →
    address ≠ Interrupt.requestAddress → last.bus.get address = polled.bus.get address
  running : last.cpu.halted = false
  phase : last.cpu.phase = .executing dispatchCycles .idle

theorem dispatch_takes (polled : Wired Ram) (interrupt : Interrupt)
    (highApart : polled.registers.sp - 1 ≠ Interrupt.requestAddress)
    (lowApart : polled.registers.sp - 2 ≠ Interrupt.requestAddress) :
    polled.Takes (polled.dispatch interrupt).count interrupt := by
  have memory : (polled.dispatch interrupt).count.bus =
      acknowledge (pushWord polled.bus polled.registers.sp polled.returnAddress) interrupt :=
    dispatch_bus polled interrupt
  have written := get_acknowledge_pushWord polled.bus polled.returnAddress interrupt highApart
    lowApart
  have apart : polled.registers.sp - 1 ≠ polled.registers.sp - 2 := by grind
  constructor
  case registers =>
    change (polled.dispatch interrupt).cpu.registers = _
    rw [dispatch_cpu]
    rfl
  case high => rw [memory, written, if_neg highApart, if_neg apart, if_pos rfl]
  case low => rw [memory, written, if_neg lowApart, if_pos rfl]
  case request =>
    rw [memory, written, if_pos rfl]
    rfl
  case others =>
    intro address fromHigh fromLow fromRequest
    rw [memory, written, if_neg fromRequest, if_neg fromLow, if_neg fromHigh]
  case running => rfl
  case phase => rfl

theorem idle_countdown {β : Type} [Bus β] {wired : Wired β}
    (phase : wired.cpu.phase = .executing dispatchCycles .idle)
    (disabled : wired.registers.ime = false) (running : wired.cpu.halted = false) :
    (∀ count < 20, wired.after count = wired.elapse count) ∧
      wired.step = (.ok 20, wired.after 20) ∧
      wired.after 20 = wired.pending.2.retime .fetching (wired.cpu.clock.advanceBy 20) := by
  have counting : wired.cpu.phase.remaining = 20 := by
    rw [phase]
    rfl
  have polls : (wired.elapse 19).retire.count =
      wired.pending.2.retime .fetching (wired.cpu.clock.advanceBy 20) := by
    have stillDisabled : (wired.elapse 19).registers.ime = false := disabled
    rw [retire_fetch (Or.inl stillDisabled) running, ← Clock.advance_advanceBy]
    rfl
  have ended : wired.after 20 = (wired.elapse 19).retire.count := by
    have due : (wired.elapse 19).cpu.phase = .executing 1 .idle := phase_elapse_executing phase
    rw [after, after_counting (by omega), tick_of_retires (.idle due (Nat.le_refl 1))]
  refine ⟨fun count early => after_counting (by omega), ?_, ended.trans polls⟩
  rw [ended]
  exact step_of_idle phase

theorem retire_declined {polled : Wired Ram}
    (declined : polled.registers.ime = false ∨ polled.pending.1 = 0) :
    polled.retire.registers = polled.registers ∧ polled.retire.bus = polled.bus := by
  rcases retire_cases polled with
    ⟨enabled, pending, _⟩ | ⟨_, ⟨_, same⟩ | ⟨_, _, same⟩ | ⟨_, _, same⟩⟩
  · rcases declined with disabled | quiet
    · exact Bool.noConfusion (disabled.symm.trans enabled)
    · exact (pending quiet).elim
  all_goals
    rw [same]
    exact ⟨rfl, rfl⟩

/-- What becomes of the interrupts at every boundary.  An enabled request is taken, the one of the
lowest bit first, and the vector is reached after twenty ticks that leave any bus alone up to the
poll on the last.  Without one, or while interrupts are off, registers and memory stay. -/
theorem boundary_dispatch {wired last : Wired Ram} (ticked : wired.tick = (.ok .boundary, last)) :
    ∃ polled, wired.Retires polled ∧
      let pending := polled.bus.get Interrupt.enableAddress &&&
        polled.bus.get Interrupt.requestAddress &&& 0x1F
      (polled.registers.ime = true → pending ≠ 0 →
        polled.registers.sp - 1 ≠ Interrupt.requestAddress →
        polled.registers.sp - 2 ≠ Interrupt.requestAddress →
        ∃ interrupt : Interrupt, pending &&& interrupt.mask ≠ 0 ∧
          (∀ other : Interrupt, other.index < interrupt.index → pending &&& other.mask = 0) ∧
          polled.Takes last interrupt ∧
          ∀ {β : Type} [Bus β] (bus : β),
            let dispatched : Wired β := ⟨last.cpu, bus⟩
            (∀ count < 20, dispatched.after count = dispatched.elapse count) ∧
              dispatched.step = (.ok 20, dispatched.after 20) ∧
              (dispatched.after 20).bus = dispatched.pending.2.bus ∧
              (dispatched.after 20).registers = last.registers ∧
              (dispatched.after 20).cpu.phase = .fetching) ∧
      (polled.registers.ime = false ∨ pending = 0 →
        last.registers = polled.registers ∧ last.bus = polled.bus) := by
  obtain ⟨polled, retires, rfl⟩ := retires_of_tick ticked
  refine ⟨polled, retires, ?_, fun declined => retire_declined declined⟩
  intro enabled pending highApart lowApart
  obtain ⟨interrupt, first, taken⟩ := retire_dispatch enabled pending
  obtain ⟨requested, urgent⟩ := (Interrupt.first?_eq_some_iff _ _).mp first
  have takes : polled.Takes polled.retire.count interrupt := by
    rw [taken]
    exact dispatch_takes polled interrupt highApart lowApart
  refine ⟨interrupt, requested, urgent, takes, ?_⟩
  intro β _ bus
  have phase : (⟨polled.retire.count.cpu, bus⟩ : Wired β).cpu.phase =
      .executing dispatchCycles .idle := takes.phase
  have disabled : polled.retire.count.registers.ime = false := by
    rw [takes.registers]
  obtain ⟨counts, stepped, ended⟩ := idle_countdown phase disabled takes.running
  refine ⟨counts, stepped, ?_, ?_, ?_⟩
  all_goals
    rw [ended]
    rfl

theorem boundary_dispatch_nop :
    ∃ wired last polled : Wired Ram, wired.tick = (.ok .boundary, last) ∧ wired.Retires polled ∧
      polled.registers.ime = true ∧ polled.pending.1 = 1 ∧
      ∃ interrupt, polled.Takes last interrupt := by
  let wired : Wired Ram :=
    { cpu := { registers := { sp := 0xFFFE, ime := true }, phase := .executing 1 (.operation .nop) }
      bus := (requested 0x00 0x00).bus }
  have ended : wired.Retires (wired.execute .nop).2.expireDelay :=
    .operation rfl (Nat.le_refl 1) rfl
  obtain ⟨polled, retires, taken, _⟩ := boundary_dispatch (tick_of_retires ended)
  have same : polled = wired := by
    cases retires with
    | operation phase due straight =>
        cases phase
        rfl
    | jump phase due | idle phase due | halted phase due => cases phase
  have enabled : polled.registers.ime = true := by
    rw [same]
    rfl
  have pending : polled.pending.1 = 1 := by
    rw [same]
    exact requested_pending rfl
  have requested : polled.pending.1 ≠ 0 := by
    rw [pending]
    decide
  have stack : polled.registers.sp = 0xFFFE := by
    rw [same]
    rfl
  obtain ⟨interrupt, _, _, takes, _⟩ := taken enabled requested
    (by rw [stack]; decide) (by rw [stack]; decide)
  exact ⟨wired, _, polled, tick_of_retires ended, retires, enabled, pending, interrupt, takes⟩

end Wired

end Dmg
