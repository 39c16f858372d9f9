import Dmg.Proofs.Dispatch

/-!
Interrupts whose handlers return at once.  They are taken one after another, the most urgent first,
and the program that they interrupted finds its registers as they were.
-/

namespace Dmg

namespace Interrupt

def among (requests : UInt8) : List Interrupt :=
  all.filter fun interrupt => requests &&& interrupt.mask != 0

theorem mem_all (interrupt : Interrupt) : interrupt ∈ all := by
  cases interrupt <;> simp [all]

theorem mem_among (requests : UInt8) (interrupt : Interrupt) :
    interrupt ∈ among requests ↔ requests &&& interrupt.mask ≠ 0 := by
  simp [among, mem_all]

theorem among_ascending (requests : UInt8) :
    (among requests).Pairwise fun earlier later => earlier.index < later.index := by
  apply List.Pairwise.filter
  simp [all, index]

theorem first?_eq_head? (requests : UInt8) : first? requests = (among requests).head? :=
  List.head?_filter.symm

theorem first?_of_among {requests : UInt8} {interrupt : Interrupt} {rest : List Interrupt}
    (listed : among requests = interrupt :: rest) : first? requests = some interrupt := by
  rw [first?_eq_head?, listed, List.head?_cons]

theorem among_eq_nil_iff (requests : UInt8) :
    among (requests &&& allMask) = [] ↔ requests &&& allMask = 0 := by
  rw [← first?_eq_none_iff, first?_eq_head?, List.head?_eq_none_iff]

/-- A source that is taken leaves the others, in their order. -/
theorem among_acknowledged {requests : UInt8} {interrupt : Interrupt} {rest : List Interrupt}
    (listed : among requests = interrupt :: rest) :
    among (requests &&& ~~~interrupt.mask) = rest ∧ requests ||| interrupt.mask = requests := by
  have everyByte : ∀ bits : BitVec 8, ∀ place : Fin 5,
      (among ⟨bits⟩).head? = some (all[place]) →
        among (⟨bits⟩ &&& ~~~(all[place]).mask) = (among ⟨bits⟩).tail ∧
          (⟨bits⟩ : UInt8) ||| (all[place]).mask = ⟨bits⟩ := by
    decide +kernel
  have placed : all[interrupt.index] = interrupt := by cases interrupt <;> rfl
  have found := everyByte requests.toBitVec interrupt.index
  rw [placed] at found
  have split := found (by rw [listed]; rfl)
  rwa [listed] at split

theorem clear_twice (flags : UInt8) {requests mask : UInt8}
    (inside : requests ||| mask = requests) :
    flags &&& ~~~mask &&& ~~~(requests &&& ~~~mask) = flags &&& ~~~requests := by
  rw [← inside]
  apply UInt8.eq_of_toBitVec_eq
  ext place bound
  simp only [UInt8.toBitVec_and, UInt8.toBitVec_or, UInt8.toBitVec_not, BitVec.getElem_and,
    BitVec.getElem_or, BitVec.getElem_not]
  cases flags.toBitVec[place] <;> cases requests.toBitVec[place] <;>
    cases mask.toBitVec[place] <;> rfl

end Interrupt

namespace Wired

variable {β : Type} [Bus β]

def Dispatches (wired : Wired β) (interrupt : Interrupt) : Prop :=
  ∃ polled, wired.Retires polled ∧ polled.registers.ime = true ∧
    Interrupt.first? polled.pending.1 = some interrupt

theorem Retires.unique {wired first second : Wired β} (one : wired.Retires first)
    (other : wired.Retires second) : first = second := by
  cases one <;> cases other <;> simp_all

theorem Retires.dispatches_iff {wired polled : Wired β} (retires : wired.Retires polled)
    (interrupt : Interrupt) : wired.Dispatches interrupt ↔
      polled.registers.ime = true ∧ Interrupt.first? polled.pending.1 = some interrupt := by
  constructor
  · rintro ⟨other, also, enabled, first⟩
    rw [retires.unique also]
    exact ⟨enabled, first⟩
  · exact fun ⟨enabled, first⟩ => ⟨polled, retires, enabled, first⟩

theorem not_dispatches_of_within {wired : Wired β} (within : wired.tick.1 = .ok .within)
    (interrupt : Interrupt) : ¬ wired.Dispatches interrupt := by
  rintro ⟨polled, retires, _⟩
  simp [tick_of_retires retires] at within

/-! One handler: twenty idle cycles, then a return of sixteen. -/

theorem perform_return (wired : Wired Ram) :
    wired.perform .retEnable = { wired with
      cpu.registers := { wired.registers with
        pc := join (wired.bus.get (wired.registers.sp + 1)) (wired.bus.get wired.registers.sp)
        sp := wired.registers.sp + 1 + 1
        ime := true } } := rfl

theorem conclude_return {wired : Wired Ram}
    (found : wired.instruction? = some ⟨0xD9, false, .retEnable⟩) :
    (wired.conclude .retEnable).registers = { wired.registers with
        pc := join (wired.bus.get (wired.registers.sp + 1)) (wired.bus.get wired.registers.sp)
        sp := wired.registers.sp + 1 + 1
        ime := true } ∧
      (wired.conclude .retEnable).bus = wired.bus ∧
      (wired.conclude .retEnable).cpu.halted = wired.cpu.halted ∧
      (wired.conclude .retEnable).cpu.haltBug = false := by
  rw [conclude, expireDelay_eq, perform_return, fetch_eq found, fetchedBus_ram]
  refine ⟨?_, rfl, rfl, rfl⟩
  change Registers.mk _ _ _ _ _ _ _ _ _ _ (_ || true) = _
  rw [Bool.or_true]
  rfl

structure StackApart (sp : UInt16) (interrupt : Interrupt) : Prop where
  enabled : sp - 1 ≠ Interrupt.enableAddress ∧ sp - 2 ≠ Interrupt.enableAddress
  requested : sp - 1 ≠ Interrupt.requestAddress ∧ sp - 2 ≠ Interrupt.requestAddress
  handler : sp - 1 ≠ interrupt.vector ∧ sp - 2 ≠ interrupt.vector

/-- What the poll behind a handler finds, beside the poll at which the interrupt was taken. -/
structure Resumes (polled back : Wired Ram) (interrupt : Interrupt) : Prop where
  registers : back.registers = polled.registers
  running : back.cpu.halted = false
  advancing : back.cpu.haltBug = false
  request : back.bus.get Interrupt.requestAddress =
    polled.bus.get Interrupt.requestAddress &&& ~~~interrupt.mask
  others : ∀ address, address ≠ polled.registers.sp - 1 → address ≠ polled.registers.sp - 2 →
    address ≠ Interrupt.requestAddress → back.bus.get address = polled.bus.get address

theorem tick_dispatch {wired polled : Wired β} {interrupt : Interrupt}
    (retires : wired.Retires polled) (enabled : polled.registers.ime = true)
    (first : Interrupt.first? polled.pending.1 = some interrupt) :
    wired.after 1 = (polled.pending.2.dispatch interrupt).count := by
  have pending : polled.pending.1 ≠ 0 := by
    rw [ne_eq, ← first?_pending_eq_none_iff, first]
    exact nofun
  obtain ⟨other, also, taken⟩ := retire_dispatch enabled pending
  rw [first, Option.some.injEq] at also
  subst also
  rw [after, after, tick_of_retires retires, taken]

theorem vector_fetch {polled handled : Wired Ram} {interrupt : Interrupt}
    (takes : polled.Takes handled interrupt) (handler : polled.bus.get interrupt.vector = 0xD9)
    (apart : StackApart polled.registers.sp interrupt) (clock : Clock) :
    (handled.retime .fetching clock).instruction? = some ⟨0xD9, false, .retEnable⟩ := by
  have elsewhere : interrupt.vector ≠ Interrupt.requestAddress := by cases interrupt <;> decide
  have kept := takes.others interrupt.vector apart.handler.1.symm apart.handler.2.symm elsewhere
  apply instruction?_of_decode _ rfl
  change handled.bus.get handled.registers.pc = 0xD9
  rw [takes.registers]
  exact kept.trans handler

theorem return_resumes {polled handled : Wired Ram} {interrupt : Interrupt}
    (takes : polled.Takes handled interrupt) (enabled : polled.registers.ime = true)
    (advancing : polled.cpu.haltBug = false) (clock : Clock)
    (found : (handled.retime .fetching clock).instruction? = some ⟨0xD9, false, .retEnable⟩) :
    polled.Resumes ((handled.retime .fetching clock).conclude .retEnable) interrupt := by
  obtain ⟨registers, bus, running, cleared⟩ := conclude_return found
  replace bus : ((handled.retime .fetching clock).conclude .retEnable).bus = handled.bus := bus
  have stack : handled.registers.sp = polled.registers.sp - 2 := by rw [takes.registers]
  have upper : handled.registers.sp + 1 = polled.registers.sp - 1 := by rw [stack]; grind
  have restored : handled.registers.sp + 1 + 1 = polled.registers.sp := by rw [stack]; grind
  have target : polled.returnAddress = polled.registers.pc := by simp [returnAddress, advancing]
  constructor
  case registers =>
    rw [registers]
    change { handled.registers with
      pc := join (handled.bus.get (handled.registers.sp + 1)) (handled.bus.get handled.registers.sp)
      sp := handled.registers.sp + 1 + 1
      ime := true } = _
    rw [restored, upper, stack, takes.high, takes.low, join_highByte_lowByte, target, ← enabled,
      takes.registers]
  case running => exact running.trans takes.running
  case advancing => exact cleared
  case request => rw [bus, takes.request]; rfl
  case others => rw [bus]; exact takes.others

theorem Resumes.retime {polled back : Wired Ram} {interrupt : Interrupt}
    (resumes : polled.Resumes back interrupt) (phase : Phase) (clock : Clock) :
    polled.Resumes (back.retime phase clock) interrupt :=
  ⟨resumes.registers, resumes.running, resumes.advancing, resumes.request, resumes.others⟩

theorem idle_quiet {wired : Wired β} (phase : wired.cpu.phase = .executing dispatchCycles .idle)
    (disabled : wired.registers.ime = false) {count : Nat} (early : count < 20)
    (interrupt : Interrupt) : ¬ (wired.after count).Dispatches interrupt := by
  have counting : wired.cpu.phase.remaining = 20 := by rw [phase]; rfl
  by_cases last : count = 19
  · have due : (wired.elapse 19).cpu.phase = .executing 1 .idle := phase_elapse_executing phase
    rw [last, after_counting (by omega), (Retires.idle due (Nat.le_refl 1)).dispatches_iff]
    intro taken
    exact Bool.noConfusion (disabled.symm.trans taken.1)
  · apply not_dispatches_of_within
    rw [within_of_counting (by omega)]

/-- A handler that returns at once takes thirty-six ticks from poll to poll, and the poll in between
takes nothing. -/
theorem handler_round {wired polled : Wired Ram} {interrupt : Interrupt}
    (retires : wired.Retires polled) (enabled : polled.registers.ime = true)
    (advancing : polled.cpu.haltBug = false)
    (first : Interrupt.first? polled.pending.1 = some interrupt)
    (handler : polled.bus.get interrupt.vector = 0xD9)
    (apart : StackApart polled.registers.sp interrupt) :
    ∃ back, (wired.after 36).Retires back ∧ polled.Resumes back interrupt ∧
      ∀ count, count ≠ 0 → count < 36 → ∀ other, ¬ (wired.after count).Dispatches other := by
  have takes := dispatch_takes polled interrupt apart.requested.1 apart.requested.2
  have started : wired.after 1 = (polled.dispatch interrupt).count :=
    tick_dispatch retires enabled first
  generalize (polled.dispatch interrupt).count = handled at takes started
  have disabled : handled.registers.ime = false := by rw [takes.registers]
  have arrived : handled.after 20 = handled.retime .fetching (handled.cpu.clock.advanceBy 20) :=
    (idle_countdown takes.phase disabled takes.running).2.2
  have found := vector_fetch takes handler apart (handled.cpu.clock.advanceBy 20)
  have later : ∀ count, wired.after (1 + (20 + count)) =
      (handled.retime .fetching (handled.cpu.clock.advanceBy 20)).after count := by
    intro count
    rw [after_add, started, after_add, arrived]
  have runs := runs_instruction rfl found
  obtain ⟨phase, returned⟩ := runs.retires
  have ended : (wired.after 36).Retires _ := (later 15).symm ▸ returned
  refine ⟨_, ended, (return_resumes takes enabled advancing _ found).retime phase _, ?_⟩
  intro count positive early other
  obtain ⟨count, rfl⟩ := Nat.exists_eq_add_of_le (Nat.one_le_iff_ne_zero.mpr positive)
  by_cases idling : count < 20
  · rw [after_add, started]
    exact idle_quiet takes.phase disabled idling other
  · obtain ⟨count, rfl⟩ := Nat.exists_eq_add_of_le (Nat.le_of_not_lt idling)
    rw [later count]
    apply not_dispatches_of_within
    apply runs.within
    change count + 1 < 16
    omega

/-- The handlers of the pending interrupts return at once, and the stack keeps clear of them. -/
def HandlersReturn (polled : Wired Ram) : Prop :=
  ∀ interrupt ∈ Interrupt.among polled.pending.1,
    polled.bus.get interrupt.vector = 0xD9 ∧ StackApart polled.registers.sp interrupt

/-- How such handlers follow one another: the ticks that take an interrupt, and what the poll
behind the last handler finds. -/
structure Serves (wired polled last : Wired Ram) (served : List Interrupt) : Prop where
  ended : (wired.after (36 * served.length)).Retires last
  dispatches : ∀ count ≤ 36 * served.length, ∀ interrupt,
    (wired.after count).Dispatches interrupt ↔
      ∃ round, count = 36 * round ∧ served[round]? = some interrupt
  registers : last.registers = polled.registers
  quiet : last.pending.1 = 0
  running : last.cpu.halted = false
  advancing : last.cpu.haltBug = false
  request : last.bus.get Interrupt.requestAddress =
    polled.bus.get Interrupt.requestAddress &&& ~~~polled.pending.1
  others : ∀ address, address ≠ polled.registers.sp - 1 → address ≠ polled.registers.sp - 2 →
    address ≠ Interrupt.requestAddress → last.bus.get address = polled.bus.get address

theorem Resumes.pending {polled back : Wired Ram} {interrupt : Interrupt}
    (resumes : polled.Resumes back interrupt) (apart : StackApart polled.registers.sp interrupt) :
    back.pending.1 = polled.pending.1 &&& ~~~interrupt.mask := by
  have enabled := resumes.others Interrupt.enableAddress apart.enabled.1.symm apart.enabled.2.symm
    (by decide)
  simp only [pending_ram, enabled, resumes.request]
  grind

theorem Resumes.handlersReturn {polled back : Wired Ram} {interrupt : Interrupt}
    {rest : List Interrupt} (resumes : polled.Resumes back interrupt)
    (listed : Interrupt.among polled.pending.1 = interrupt :: rest)
    (remaining : Interrupt.among back.pending.1 = rest) (handlers : polled.HandlersReturn) :
    back.HandlersReturn := by
  intro other member
  rw [remaining] at member
  obtain ⟨handler, apart⟩ := handlers other (by rw [listed]; exact List.mem_cons_of_mem _ member)
  have elsewhere : other.vector ≠ Interrupt.requestAddress := by cases other <;> decide
  have kept := resumes.others _ apart.handler.1.symm apart.handler.2.symm elsewhere
  rw [resumes.registers]
  exact ⟨kept.trans handler, apart⟩

theorem serves_none {wired polled : Wired Ram} (retires : wired.Retires polled)
    (quiet : polled.pending.1 = 0) (running : polled.cpu.halted = false)
    (advancing : polled.cpu.haltBug = false) : wired.Serves polled polled [] := by
  refine ⟨retires, ?_, rfl, quiet, running, advancing, by simp [quiet], fun _ _ _ _ => rfl⟩
  intro count early interrupt
  obtain rfl : count = 0 := by simpa using early
  have nothing := (first?_pending_eq_none_iff polled).mpr quiet
  simp [after, retires.dispatches_iff, nothing]

theorem Serves.cons {wired polled back last : Wired Ram} {interrupt : Interrupt}
    {rest : List Interrupt} (retires : wired.Retires polled)
    (enabled : polled.registers.ime = true)
    (listed : Interrupt.among polled.pending.1 = interrupt :: rest)
    (apart : StackApart polled.registers.sp interrupt) (resumes : polled.Resumes back interrupt)
    (between : ∀ count, count ≠ 0 → count < 36 → ∀ other, ¬ (wired.after count).Dispatches other)
    (serves : (wired.after 36).Serves back last rest) :
    wired.Serves polled last (interrupt :: rest) := by
  have total : 36 * (interrupt :: rest).length = 36 + 36 * rest.length := by
    simp only [List.length_cons]
    omega
  have first := Interrupt.first?_of_among listed
  obtain ⟨_, inside⟩ := Interrupt.among_acknowledged listed
  constructor
  case ended =>
    rw [total, after_add]
    exact serves.ended
  case dispatches =>
    intro count early other
    by_cases begun : count = 0
    · subst begun
      rw [after, retires.dispatches_iff, first]
      constructor
      · exact fun taken => ⟨0, rfl, taken.2⟩
      · rintro ⟨round, now, same⟩
        obtain rfl : round = 0 := by omega
        exact ⟨enabled, same⟩
    · by_cases short : count < 36
      · refine iff_of_false (between count begun short other) ?_
        rintro ⟨round, now, _⟩
        omega
      · obtain ⟨count, rfl⟩ := Nat.exists_eq_add_of_le (Nat.le_of_not_lt short)
        rw [after_add, serves.dispatches count (by omega)]
        constructor
        · rintro ⟨round, rfl, same⟩
          exact ⟨round + 1, by omega, same⟩
        · rintro ⟨round, now, same⟩
          obtain ⟨round, rfl⟩ := Nat.exists_eq_succ_of_ne_zero (show round ≠ 0 by omega)
          exact ⟨round, by omega, same⟩
  case registers => exact serves.registers.trans resumes.registers
  case quiet => exact serves.quiet
  case running => exact serves.running
  case advancing => exact serves.advancing
  case request =>
    rw [serves.request, resumes.request, resumes.pending apart]
    exact Interrupt.clear_twice _ inside
  case others =>
    intro address fromHigh fromLow fromRequest
    have kept := serves.others address
    rw [resumes.registers] at kept
    exact (kept fromHigh fromLow fromRequest).trans
      (resumes.others address fromHigh fromLow fromRequest)

theorem serves_among {served : List Interrupt} {wired polled : Wired Ram}
    (retires : wired.Retires polled) (listed : Interrupt.among polled.pending.1 = served)
    (enabled : polled.registers.ime = true) (advancing : polled.cpu.haltBug = false)
    (awake : served = [] → polled.cpu.halted = false) (handlers : polled.HandlersReturn) :
    ∃ last, wired.Serves polled last served := by
  induction served generalizing wired polled with
  | nil =>
      have quiet := (Interrupt.among_eq_nil_iff _).mp listed
      exact ⟨polled, serves_none retires quiet (awake rfl) advancing⟩
  | cons interrupt rest ih =>
      have first := Interrupt.first?_of_among listed
      obtain ⟨handler, apart⟩ := handlers interrupt (by rw [listed]; exact List.mem_cons_self)
      obtain ⟨back, returned, resumes, between⟩ :=
        handler_round retires enabled advancing first handler apart
      have remaining : Interrupt.among back.pending.1 = rest := by
        rw [resumes.pending apart]
        exact (Interrupt.among_acknowledged listed).1
      obtain ⟨last, serves⟩ := ih returned remaining (by rw [resumes.registers, enabled])
        resumes.advancing (fun _ => resumes.running)
        (resumes.handlersReturn listed remaining handlers)
      exact ⟨last, serves.cons retires enabled listed apart resumes between⟩

/-- Interrupts do not show in the interrupted program.  If the handlers of all pending interrupts
return at once, each is served once, the most urgent first, one every thirty-six ticks, and behind
the last the program goes on where it was, with its registers as they were.  Memory has changed in
the two bytes below the stack and in the requests that were served. -/
theorem interrupts_transparent {wired polled : Wired Ram} (retires : wired.Retires polled)
    (enabled : polled.registers.ime = true) (advancing : polled.cpu.haltBug = false)
    (pending : polled.pending.1 ≠ 0) (handlers : polled.HandlersReturn) :
    let requests := polled.bus.get Interrupt.enableAddress &&&
      polled.bus.get Interrupt.requestAddress &&& 0x1F
    let served := Interrupt.among requests
    let resumed := wired.after (1 + 36 * served.length)
    (∀ interrupt, interrupt ∈ served ↔ requests &&& interrupt.mask ≠ 0) ∧
      (served.Pairwise fun earlier later => earlier.index < later.index) ∧
      (∀ count ≤ 36 * served.length, ∀ interrupt, (wired.after count).Dispatches interrupt ↔
        ∃ round, count = 36 * round ∧ served[round]? = some interrupt) ∧
      resumed.cpu.phase = .fetching ∧ resumed.cpu.haltBug = false ∧
      resumed.registers = polled.registers ∧
      resumed.bus.get Interrupt.requestAddress =
        polled.bus.get Interrupt.requestAddress &&& ~~~requests ∧
      ∀ address, address ≠ polled.registers.sp - 1 → address ≠ polled.registers.sp - 2 →
        address ≠ Interrupt.requestAddress → resumed.bus.get address = polled.bus.get address := by
  intro requests served resumed
  have awake : served = [] → polled.cpu.halted = false := by
    intro nothing
    exact (pending ((Interrupt.among_eq_nil_iff _).mp nothing)).elim
  obtain ⟨last, serves⟩ := serves_among retires rfl enabled advancing awake handlers
  have ended : resumed = (last.enter .fetching).count := by
    have ticked : (wired.after (36 * served.length)).tick = (.ok .boundary, last.retire.count) :=
      tick_of_retires serves.ended
    change wired.after (1 + _) = _
    rw [Nat.add_comm, after, ticked, retire_fetch (Or.inr serves.quiet) serves.running, pending_ram]
  rw [ended]
  exact ⟨Interrupt.mem_among requests, Interrupt.among_ascending requests, serves.dispatches, rfl,
    serves.advancing, serves.registers, serves.request, serves.others⟩

/-- Two of three requests are enabled; both are served, and the third stays. -/
theorem interrupts_transparent_two :
    ∃ wired polled : Wired Ram, wired.Retires polled ∧ polled.registers.ime = true ∧
      polled.cpu.haltBug = false ∧ polled.pending.1 = 0x05 ∧ polled.HandlersReturn ∧
      (wired.after 73).cpu.phase = .fetching ∧ (wired.after 73).registers = polled.registers ∧
      (wired.after 73).bus.get Interrupt.requestAddress = 0x02 ∧
      (wired.after 36).Dispatches .timer := by
  let ram := (((Ram.zero.set 0x40 0xD9).set 0x50 0xD9).set Interrupt.enableAddress 0x05).set
    Interrupt.requestAddress 0x07
  let polled : Wired Ram :=
    { cpu := { registers := { sp := 0xFFFE, pc := 0x150, ime := true }
               phase := .executing 1 (.operation .nop) }
      bus := ram }
  have enabled : ram.get Interrupt.enableAddress = 0x05 := by
    simp [ram, Ram.get_set, Interrupt.enableAddress, Interrupt.requestAddress]
  have requested : ram.get Interrupt.requestAddress = 0x07 := by simp [ram]
  have pending : polled.bus.get Interrupt.enableAddress &&&
      polled.bus.get Interrupt.requestAddress &&& 0x1F = 0x05 := by
    change ram.get _ &&& ram.get _ &&& _ = _
    rw [enabled, requested]
    rfl
  have listed : Interrupt.among polled.pending.1 = [.vblank, .timer] := congrArg _ pending
  have handlers : polled.HandlersReturn := by
    intro interrupt member
    have either : interrupt = .vblank ∨ interrupt = .timer := by simpa [listed] using member
    rcases either with rfl | rfl
    all_goals
      refine ⟨?_, by decide, by decide, by decide⟩
      simp [polled, ram, Ram.get_set, Interrupt.vector, Interrupt.index, Interrupt.enableAddress,
        Interrupt.requestAddress]
  have ended : polled.Retires (polled.execute .nop).2.expireDelay :=
    .operation rfl (Nat.le_refl 1) rfl
  have retires : polled.Retires polled := ended
  have someRequest : polled.pending.1 ≠ 0 := by
    change polled.bus.get _ &&& polled.bus.get _ &&& 0x1F ≠ 0
    rw [pending]
    decide
  have both : Interrupt.among 0x05 = [.vblank, .timer] := rfl
  have whole := interrupts_transparent retires rfl rfl someRequest handlers
  simp only [pending, both, List.length_cons, List.length_nil, Nat.reduceAdd, Nat.reduceMul]
    at whole
  obtain ⟨_, _, dispatches, phase, _, registers, request, _⟩ := whole
  refine ⟨polled, polled, retires, rfl, rfl, pending, handlers, phase, registers, ?_, ?_⟩
  · exact request.trans (by rw [show polled.bus.get _ = _ from requested]; rfl)
  · exact (dispatches 36 (by decide) .timer).mpr ⟨1, rfl, rfl⟩

end Wired

end Dmg
