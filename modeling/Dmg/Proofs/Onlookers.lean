import Dmg.Proofs.Lockstep

/-!
The trace of the instructions and the bytes that have been sent stand beside the machine.  Nothing
that the machine does depends on them.  The trace has an entry for every instruction that is begun
while it is on, and no other.
-/

namespace Dmg

namespace Wired

variable {β : Type}

def traced (wired : Wired β) (fetches : Option (Array Fetch)) : Wired β :=
  { wired with cpu.fetches := fetches }

variable [Bus β]

def starts? (wired : Wired β) : Option Fetch :=
  match wired.cpu.phase with
  | .fetching => wired.instruction?.map fun instruction =>
      { address := wired.registers.pc, instruction, registers := wired.registers }
  | _ => none

theorem starts?_of_busy {wired : Wired β} (busy : wired.cpu.phase ≠ .fetching) :
    wired.starts? = none := by
  rw [starts?]
  split
  · rename_i fetching
    exact (busy fetching).elim
  · rfl

theorem starts?_of_missing {wired : Wired β} (missing : wired.instruction? = none) :
    wired.starts? = none := by
  rw [starts?, missing]
  split <;> rfl

theorem starts?_of_found {wired : Wired β} {instruction : Instruction}
    (fetching : wired.cpu.phase = .fetching) (found : wired.instruction? = some instruction) :
    wired.starts? = some ⟨wired.registers.pc, instruction, wired.registers⟩ := by
  simp only [starts?, fetching, found, Option.map_some]

def noting (fetches : Option (Array Fetch)) (starts : List Fetch) : Option (Array Fetch) :=
  fetches.map (· ++ starts.toArray)

theorem noting_nil (fetches : Option (Array Fetch)) : noting fetches [] = fetches := by
  simp [noting]

theorem noting_append (fetches : Option (Array Fetch)) (earlier later : List Fetch) :
    noting fetches (earlier ++ later) = noting (noting fetches earlier) later := by
  cases fetches <;> simp [noting]

theorem noting_singleton (fetches : Option (Array Fetch)) (fetch : Fetch) :
    noting fetches [fetch] = fetches.map (·.push fetch) := by
  simp [noting]

theorem Retires.busy {wired polled : Wired β} (retires : wired.Retires polled) :
    wired.cpu.phase ≠ .fetching := by
  cases retires with
  | operation phase | jump phase | idle phase | halted phase =>
      rw [phase]
      nofun

section Traced

variable (wired : Wired β) (fetches : Option (Array Fetch))

theorem execute_traced (operation : Operation) :
    (wired.traced fetches).execute operation =
      ((wired.execute operation).1, (wired.execute operation).2.traced fetches) := by
  have kept := congrArg (·.traced fetches) (execute_aside wired operation)
  exact (execute_beside wired wired.cpu.phase wired.cpu.clock fetches operation).trans
    (congrArg (Prod.mk _) kept)

theorem land_traced (jump : Jump) :
    (wired.traced fetches).land jump = (wired.land jump).traced fetches := by
  cases jump <;> rfl

omit [Bus β] in
theorem expireDelay_traced :
    (wired.traced fetches).expireDelay = wired.expireDelay.traced fetches := by
  rw [expireDelay_eq, expireDelay_eq]
  rfl

theorem retire_traced : (wired.traced fetches).retire = wired.retire.traced fetches := by
  have told : ∀ {after : Wired β}, wired.retire = after →
      (wired.traced fetches).retire = after.traced fetches →
      (wired.traced fetches).retire = wired.retire.traced fetches :=
    fun same other => other.trans (congrArg (·.traced fetches) same).symm
  rcases retire_cases wired with
    ⟨enabled, requested, interrupt, first, same⟩ |
      ⟨declined, ⟨running, same⟩ | ⟨halted, quiet, same⟩ | ⟨halted, requested, same⟩⟩
  · have enabled' : (wired.traced fetches).registers.ime = true := enabled
    obtain ⟨other, found, taken⟩ := retire_dispatch enabled' requested
    cases found.symm.trans first
    exact told same taken
  · have declined' : (wired.traced fetches).registers.ime = false ∨ _ := declined
    exact told same (retire_fetch declined' running)
  · have quiet' : (wired.traced fetches).pending.1 = 0 := quiet
    exact told same (retire_stay quiet' halted)
  · have disabled : (wired.traced fetches).registers.ime = false :=
      declined.resolve_right requested
    exact told same (retire_wake disabled requested halted)

theorem Retires.traced {wired polled : Wired β} (retires : wired.Retires polled)
    (fetches : Option (Array Fetch)) :
    (wired.traced fetches).Retires (polled.traced fetches) := by
  cases retires with
  | @operation remaining operation phase due straight =>
      have effect := execute_traced wired fetches operation
      have ended : (wired.traced fetches).Retires
          ((wired.traced fetches).execute operation).2.expireDelay :=
        .operation phase due ((congrArg Prod.fst effect).trans straight)
      rwa [effect, expireDelay_traced] at ended
  | jump phase due =>
      rw [← expireDelay_traced, ← land_traced]
      exact .jump phase due
  | idle phase due => exact .idle phase due
  | halted phase due => exact .halted phase due

/-- A tick is the same with another trace, to which it adds the instruction that it begins. -/
theorem tick_traced :
    (wired.traced fetches).tick =
      (wired.tick.1, wired.tick.2.traced (noting fetches wired.starts?.toList)) := by
  have turn := turn_tick wired
  generalize outcome : wired.tick = result at turn
  cases turn with
  | fault fetching missing =>
      have fetching' : (wired.traced fetches).cpu.phase = .fetching := fetching
      have missing' : (wired.traced fetches).instruction? = none := missing
      simp only [tick, fetching, fetch_none missing, Prod.mk.injEq, and_true] at outcome
      rw [starts?_of_missing missing, Option.toList_none, noting_nil, ← outcome]
      simp only [tick, fetching', fetch_none missing']
      rfl
  | fetch fetching found =>
      have fetching' : (wired.traced fetches).cpu.phase = .fetching := fetching
      have found' : (wired.traced fetches).instruction? = some _ := found
      rw [starts?_of_found fetching found, Option.toList_some, noting_singleton]
      simp only [tick, fetching', fetch_eq found, fetch_eq found']
      rfl
  | counting more =>
      have busy : wired.cpu.phase ≠ .fetching := by
        intro fetching
        rw [fetching] at more
        cases more
      have more' : 1 < (wired.traced fetches).cpu.phase.remaining := more
      rw [tick_counting more', starts?_of_busy busy, Option.toList_none, noting_nil]
      rfl
  | @branch remaining operation jump phase due taken =>
      have busy : wired.cpu.phase ≠ .fetching := by simp [phase]
      have effect := execute_traced wired fetches operation
      have phase' : (wired.traced fetches).cpu.phase = _ := phase
      rw [tick_of_branch ((congrArg Prod.fst effect).trans taken) phase' due,
        starts?_of_busy busy, Option.toList_none, noting_nil, effect]
      rfl
  | retires retires =>
      rw [tick_of_retires (retires.traced fetches), retire_traced, starts?_of_busy retires.busy,
        Option.toList_none, noting_nil]
      rfl

theorem fetches_tick :
    wired.tick.2.cpu.fetches = noting wired.cpu.fetches wired.starts?.toList :=
  congrArg (·.2.cpu.fetches) (tick_traced wired wired.cpu.fetches)

end Traced

end Wired

/-! The bytes that have been sent can be left out of what the machine sees. -/

def AddressSpace.hushed (space : AddressSpace) : AddressSpace := { space with serial := none }

theorem AddressSpace.view_hushed : Bus.View AddressSpace.hushed := by
  constructor
  · intro space address
    rfl
  · intro space address value
    change space.hushed.write address value = (space.write address value).hushed
    simp only [write]
    split
    · rfl
    · split <;> rfl

theorem Ppu.tick_hushed (ppu : Ppu) (space : AddressSpace) :
    ppu.tick space.hushed = ((ppu.tick space).1, (ppu.tick space).2.hushed) := by
  have same : space.hushed.lcdEnabled = space.lcdEnabled := rfl
  have alike : space.hushed.LooksLike space := ⟨rfl, rfl, rfl⟩
  have own := fst_tick_congr alike ppu
  refine Prod.ext own ?_
  cases lit : space.lcdEnabled with
  | false => rw [tick_dark ppu lit, tick_dark ppu (same.trans lit)]
  | true =>
      rw [space_tick ppu lit, space_tick ppu (same.trans lit), own]
      rfl

namespace Machine

/-- The machine without its trace and without what it has sent. -/
def bare (machine : Machine) : Machine :=
  { machine with cpu.fetches := none, space.serial := none }

def Event.observes : Event → Bool
  | .setTrace _ | .operate .listen => true
  | _ => false

section Bare

variable (machine : Machine)

theorem wired_bare : machine.bare.wired.tick = (machine.wired.tick.1,
    (machine.wired.tick.2.traced none).through AddressSpace.hushed) := by
  have start : machine.bare.wired = (machine.wired.traced none).through AddressSpace.hushed := rfl
  rw [start, (Wired.tick_through AddressSpace.view_hushed.always _ trivial).2, Wired.tick_traced]
  rfl

theorem tick_bare : machine.bare.tick = (machine.tick.1, machine.tick.2.bare) := by
  have wired := machine.wired_bare
  have outcome := congrArg Prod.fst wired
  cases ticked : machine.wired.tick.1 with
  | error fault => rw [tick_of_error ticked, tick_of_error (outcome.trans ticked)]
  | ok progress =>
      have handed : machine.bare.handed = ⟨machine.ppu, machine.handed.space.hushed⟩ :=
        congrArg (fun result : _ × Wired AddressSpace => Display.mk machine.ppu result.2.bus) wired
      have display := machine.ppu.tick_hushed machine.handed.space
      rw [tick_of_ok ticked, tick_of_ok (outcome.trans ticked), handed, wired]
      simp only [Display.tick, display]
      rfl

theorem after_bare (count : Nat) : machine.bare.after count = (machine.after count).bare := by
  induction count with
  | zero => rfl
  | succ count ih => rw [after, after, ih, tick_bare]

theorem runUntil_bare (target : Nat) : machine.bare.runUntil target =
    ((machine.runUntil target).1, (machine.runUntil target).2.bare) := by
  fun_induction runUntil target machine with
  | case1 machine early result next ticked ih =>
      have before : machine.bare.clock.cycles < target := early
      have passed : machine.bare.tick = (.ok (), next.bare) := by rw [tick_bare, ticked]
      rw [runUntil_of_ok before passed, ih]
  | case2 machine early error next failed =>
      have before : machine.bare.clock.cycles < target := early
      have stopped : machine.bare.tick = (.error error, next.bare) := by rw [tick_bare, failed]
      exact runUntil_of_error before stopped
  | case3 machine reached => exact runUntil_of_reached (Nat.le_of_not_lt reached)

theorem runFrame_bare : machine.bare.runFrame.1 = machine.runFrame.1 ∧
    machine.bare.runFrame.2 = machine.runFrame.2.bare := by
  have ran := machine.runUntil_bare (machine.clock.cycles + Ppu.cyclesPerFrame)
  cases result : machine.runUntil (machine.clock.cycles + Ppu.cyclesPerFrame) with
  | mk outcome next =>
      rw [result] at ran
      cases outcome with
      | ok =>
          rw [runFrame_of_ok ran, runFrame_of_ok result]
          exact ⟨rfl, rfl⟩
      | error error =>
          rw [runFrame_of_error ran, runFrame_of_error result]
          exact ⟨rfl, rfl⟩

theorem bare_of_observes {event : Event} (observes : event.observes = true) :
    (machine.apply event).bare = machine.bare := by
  cases event with
  | setTrace fetches => rfl
  | operate operation =>
      cases operation with
      | listen => rfl
      | _ => cases observes
  | _ => cases observes

theorem apply_bare {event : Event} (acts : event.observes = false) :
    machine.bare.apply event = (machine.apply event).bare := by
  cases event with
  | tick => exact congrArg Prod.snd machine.tick_bare
  | runFrame =>
      rw [apply_runFrame, apply_runFrame]
      exact machine.runFrame_bare.2
  | setRegisters registers => rfl
  | setTrace fetches => cases acts
  | operate operation =>
      cases operation with
      | listen => cases acts
      | write address value =>
          have written := AddressSpace.view_hushed.write machine.space address value
          exact congrArg (Machine.mk _ machine.ppu · machine.clock) written
      | _ => rfl

/-- What is left of a run without the observers is a run without them. -/
theorem run_bare (events : List Event) :
    (machine.run events).bare = machine.bare.run (events.filter fun event => !event.observes) := by
  induction events generalizing machine with
  | nil => rfl
  | cons event rest ih =>
      have later := ih (machine.apply event)
      cases observes : event.observes with
      | true =>
          rw [machine.bare_of_observes observes] at later
          rw [List.filter_cons_of_neg (by simp [observes])]
          exact later
      | false =>
          rw [← machine.apply_bare observes] at later
          rw [List.filter_cons_of_pos (by simp [observes])]
          exact later

end Bare

/-! Machines that differ in what has been noted only. -/

theorem tick_of_bare {here there : Machine} (alike : here.bare = there.bare) :
    here.tick.1 = there.tick.1 := by
  have ticked := congrArg (·.tick.1) alike
  simp only [tick_bare] at ticked
  exact ticked

theorem runFrame_of_bare {here there : Machine} (alike : here.bare = there.bare) :
    here.runFrame.1 = there.runFrame.1 := by
  rw [← here.runFrame_bare.1, alike, there.runFrame_bare.1]

/-! What the trace is given. -/

def startsIn (machine : Machine) : Event → List Fetch
  | .tick => machine.wired.starts?.toList
  | .runFrame => (List.range (machine.ticksIn .runFrame)).flatMap fun count =>
      (machine.after count).wired.starts?.toList
  | _ => []

def starts (machine : Machine) : List Event → List Fetch
  | [] => []
  | event :: rest => machine.startsIn event ++ (machine.apply event).starts rest

def Event.Retraces : Event → Prop
  | .setTrace _ => True
  | _ => False

theorem fetches_tick (machine : Machine) : machine.tick.2.cpu.fetches =
    Wired.noting machine.cpu.fetches machine.wired.starts?.toList := by
  cases ticked : machine.wired.tick.1 with
  | ok progress =>
      rw [tick_of_ok ticked]
      exact machine.wired.fetches_tick
  | error fault =>
      have missing := (Wired.missing_of_error ticked).2
      rw [tick_of_error ticked, Wired.starts?_of_missing missing, Option.toList_none,
        Wired.noting_nil]

theorem fetches_after (machine : Machine) (count : Nat) : (machine.after count).cpu.fetches =
    Wired.noting machine.cpu.fetches ((List.range count).flatMap fun earlier =>
      (machine.after earlier).wired.starts?.toList) := by
  refine noted_after (fun later noted => later.cpu.fetches = Wired.noting machine.cpu.fetches noted)
    (fun later => later.wired.starts?.toList) ?_ (Wired.noting_nil _).symm count
  intro later noted before
  rw [fetches_tick, before, Wired.noting_append]

theorem fetches_apply (machine : Machine) {event : Event} (keeps : ¬ event.Retraces) :
    (machine.apply event).cpu.fetches =
      Wired.noting machine.cpu.fetches (machine.startsIn event) := by
  cases event with
  | tick => exact machine.fetches_tick
  | runFrame =>
      rw [apply_runFrame, machine.runFrame_after.2.2]
      exact machine.fetches_after _
  | setTrace => exact (keeps trivial).elim
  | operate | setRegisters => exact (Wired.noting_nil _).symm

theorem fetches_run (machine : Machine) {events : List Event}
    (keeps : ∀ event ∈ events, ¬ event.Retraces) :
    (machine.run events).cpu.fetches =
      Wired.noting machine.cpu.fetches (machine.starts events) := by
  induction events generalizing machine with
  | nil => exact (Wired.noting_nil _).symm
  | cons event rest ih =>
      have first := machine.fetches_apply (keeps event List.mem_cons_self)
      have later := ih (machine.apply event) fun other among =>
        keeps other (List.mem_cons_of_mem _ among)
      rw [first, ← Wired.noting_append] at later
      exact later

theorem starts_iff (machine : Machine) : machine.wired.starts?.isSome = true ↔
    machine.cpu.phase = .fetching ∧ machine.tick.1 = .ok () := by
  constructor
  · intro starts
    have fetching : machine.wired.cpu.phase = .fetching := by
      by_contra busy
      rw [Wired.starts?_of_busy busy] at starts
      cases starts
    cases found : machine.wired.instruction? with
    | none =>
        rw [Wired.starts?_of_missing found] at starts
        cases starts
    | some instruction =>
        rw [tick_of_ok (Wired.tick_fetching fetching found)]
        exact ⟨fetching, rfl⟩
  · rintro ⟨fetching, passes⟩
    obtain ⟨progress, ticked⟩ := ok_of_tick passes
    have fetching' : machine.wired.cpu.phase = .fetching := fetching
    cases found : machine.wired.instruction? with
    | none =>
        rw [Wired.tick_of_missing fetching' found] at ticked
        cases ticked
    | some instruction => rw [Wired.starts?_of_found fetching' found, Option.isSome_some]

theorem of_starts {machine : Machine} {fetch : Fetch}
    (starts : machine.wired.starts? = some fetch) :
    fetch.address = machine.cpu.registers.pc ∧ fetch.registers = machine.cpu.registers ∧
      machine.tick.2.cpu.phase = .executing (fetch.instruction.operation.cycles - 1)
        (.operation fetch.instruction.operation) := by
  obtain ⟨fetching, _⟩ := machine.starts_iff.mp (by rw [starts, Option.isSome_some])
  have fetching' : machine.wired.cpu.phase = .fetching := fetching
  cases found : machine.wired.instruction? with
  | none =>
      rw [Wired.starts?_of_missing found] at starts
      cases starts
  | some instruction =>
      rw [Wired.starts?_of_found fetching' found] at starts
      cases starts
      have begun := congrArg (·.cpu.phase) (Wired.after_one fetching' found)
      rw [tick_of_ok (Wired.tick_fetching fetching' found)]
      exact ⟨rfl, rfl, begun⟩

/-- Two runs that differ in nothing but when the trace is exchanged and listening begins.  They come
to the same in all but what has been noted, and so does whatever follows.  A trace that stays on
gets one entry for every instruction that is begun, and a tick begins one if it is a fetch that does
not fault. -/
theorem onlookers_transparent {left right : Machine} (alike : left.bare = right.bare)
    {first second : List Event}
    (same : first.filter (fun event => !event.observes) =
      second.filter fun event => !event.observes) :
    let one := left.run first
    let other := right.run second
    one.bare = other.bare ∧ one.runFrame.1 = other.runFrame.1 ∧
    (∀ count, (one.after count).bare = (other.after count).bare ∧
      (one.after count).tick.1 = (other.after count).tick.1) ∧
    (∀ events, (∀ event ∈ events, ¬ event.Retraces) → (one.run events).cpu.fetches =
      one.cpu.fetches.map (· ++ (one.starts events).toArray)) ∧
    (one.wired.starts?.isSome = true ↔ one.cpu.phase = .fetching ∧ one.tick.1 = .ok ()) ∧
    ∀ fetch, one.wired.starts? = some fetch →
      fetch.address = one.cpu.registers.pc ∧ fetch.registers = one.cpu.registers ∧
      one.tick.2.cpu.phase = .executing (fetch.instruction.operation.cycles - 1)
        (.operation fetch.instruction.operation) := by
  intro one other
  have met : one.bare = other.bare := by rw [run_bare, run_bare, alike, same]
  refine ⟨met, runFrame_of_bare met, fun count => ?_, fun events keeps => one.fetches_run keeps,
    one.starts_iff, fun fetch starts => of_starts starts⟩
  have further : (one.after count).bare = (other.after count).bare := by
    rw [← after_bare, ← after_bare, met]
  exact ⟨further, tick_of_bare further⟩

theorem onlookers_transparent_nop :
    ∃ machine, boot [0x00] .reset = .ok machine ∧
      (machine.run [.setTrace (some #[])]).bare = (machine.run [.operate .listen]).bare ∧
      (machine.run [.setTrace (some #[]), .tick]).cpu.fetches =
        some #[⟨0x0000, ⟨0x00, false, .nop⟩, {}⟩] := by
  let machine : Machine :=
    { cpu := .withRegisters {}, ppu := {}, space := .loadImage {} [0x00], clock := .zero }
  have booted : boot [0x00] .reset = .ok machine := rfl
  let one := machine.run [.setTrace (some #[])]
  have opcode : one.space.peek 0 = 0x00 := AddressSpace.get_loadImage {} [0x00] 0
  have found : one.wired.instruction? = some ⟨0x00, false, .nop⟩ :=
    Wired.instruction?_of_decode opcode rfl
  have begun : one.starts [.tick] = [⟨0x0000, ⟨0x00, false, .nop⟩, {}⟩] := by
    rw [starts, starts, startsIn, Wired.starts?_of_found rfl found]
    rfl
  have keeps : ∀ event ∈ [Event.tick], ¬ event.Retraces := by simp [Event.Retraces]
  have same : [Event.setTrace (some #[])].filter (fun event => !event.observes) =
      [Event.operate .listen].filter fun event => !event.observes := rfl
  obtain ⟨met, _, _, traced, _⟩ := @onlookers_transparent machine machine rfl _ _ same
  have noted := traced [.tick] keeps
  rw [begun] at noted
  exact ⟨machine, booted, met, noted⟩

end Machine

end Dmg
