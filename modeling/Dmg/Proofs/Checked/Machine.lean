import Dmg.Proofs.Checked.Display
import Dmg.Proofs.Checked.Processor
import Dmg.Proofs.Lockstep

/-!
The whole machine with its checks.  As long as its clock fits its sixty-four bits, a run from the
start of an image never leaves a range, and comes to the same as the run without checks.
-/

namespace Dmg

open Checked

namespace Machine

def buffers (machine : Machine) : Buffers := machine.ppu.buffers

def withBuffers {α : Type} (outcome : α × Machine) : α × Machine × Buffers :=
  (outcome.1, outcome.2, outcome.2.buffers)

def tick? (machine : Machine) (buffers : Buffers) :
    Option (Except MachineError Unit × Machine × Buffers) := do
  match ← machine.wired.tick? with
  | (.ok _, ⟨cpu, space⟩) =>
      let (ppu, space, buffers) ← machine.ppu.tick? space buffers
      let cycles ← sum 64 machine.clock.cycles 1
      some (.ok (), ⟨cpu, ppu, space, ⟨cycles⟩⟩, buffers)
  | (.error fault, ⟨cpu, space⟩) =>
      some (.error (.cpu fault), ⟨cpu, machine.ppu, space, machine.clock⟩, buffers)

theorem clock_tick? {machine next : Machine} {buffers left : Buffers}
    (ticked : machine.tick? buffers = some (.ok (), next, left)) :
    next.clock.cycles = machine.clock.cycles + 1 := by
  simp only [tick?, Option.bind_eq_bind, Option.bind_eq_some_iff] at ticked
  obtain ⟨⟨result, wired⟩, _, ticked⟩ := ticked
  cases result with
  | error fault => cases ticked
  | ok progress =>
      simp only [Option.bind_eq_some_iff] at ticked
      obtain ⟨displayed, _, cycles, summed, ended⟩ := ticked
      cases ended
      exact eq_of_sum summed

def runUntil? (target : Nat) (machine : Machine) (buffers : Buffers) :
    Option (Except MachineError Unit × Machine × Buffers) :=
  if machine.clock.cycles < target then
    match _ : machine.tick? buffers with
    | some (.ok _, next, buffers) => runUntil? target next buffers
    | some (.error error, next, buffers) => some (.error error, next, buffers)
    | none => none
  else some (.ok (), machine, buffers)
termination_by target - machine.clock.cycles
decreasing_by
  rename_i ticked
  rw [clock_tick? ticked]
  omega

def runFrame? (machine : Machine) (buffers : Buffers) :
    Option (Except MachineError Nat × Machine × Buffers) := do
  let start := machine.clock.cycles
  let target ← sum 64 start Ppu.cyclesPerFrame
  match ← machine.runUntil? target buffers with
  | (.ok _, machine, buffers) =>
      let cycles ← difference machine.clock.cycles start
      some (.ok cycles, machine, buffers)
  | (.error error, machine, buffers) => some (.error error, machine, buffers)

def follow? (machine : Machine) (buffers : Buffers) : Event → Option (Machine × Buffers)
  | .tick => do
      let (_, machine, buffers) ← machine.tick? buffers
      some (machine, buffers)
  | .runFrame => do
      let (_, machine, buffers) ← machine.runFrame? buffers
      some (machine, buffers)
  | event => some (machine.apply event, buffers)

def run? (machine : Machine) (buffers : Buffers) : List Event → Option (Machine × Buffers)
  | [] => some (machine, buffers)
  | event :: rest => do
      let (machine, buffers) ← machine.follow? buffers event
      machine.run? buffers rest

def Room (machine : Machine) : Event → Prop
  | .tick => machine.tick.2.clock.cycles < 2 ^ 64
  | .runFrame => machine.clock.cycles + Ppu.cyclesPerFrame < 2 ^ 64
  | _ => True

def Fits (machine : Machine) : List Event → Prop
  | [] => True
  | event :: rest => machine.Room event ∧ (machine.apply event).Fits rest

theorem cpu_tick (machine : Machine) : machine.tick.2.cpu = machine.wired.tick.2.cpu := by
  cases ticked : machine.wired.tick.1 with
  | ok progress => rw [tick_of_ok ticked]
  | error fault =>
      obtain ⟨fetching, missing⟩ := Wired.missing_of_error ticked
      rw [tick_of_error ticked, Wired.tick_of_missing fetching missing]
      rfl

theorem tick?_eq {machine : Machine} (inStep : machine.InStep)
    (fits : machine.tick.2.clock.cycles < 2 ^ 64) :
    machine.tick? machine.buffers = some (withBuffers machine.tick) := by
  obtain ⟨clocks, later, few, standsLater⟩ := inStep.tick
  obtain ⟨count, _, stands⟩ := inStep.display
  have processor : machine.wired.tick? = some machine.wired.tick := by
    refine Wired.tick?_eq ?_
    rw [← cpu_tick, ← clocks]
    exact fits
  -- The frames need no room of their own, being fewer than the cycles.
  have frames : machine.tick.2.ppu.frames < 2 ^ 64 := by
    rw [standsLater.frames]
    omega
  rw [tick?, processor, Option.bind_eq_bind, Option.bind_some]
  cases ticked : machine.wired.tick.1 with
  | error fault =>
      obtain ⟨fetching, missing⟩ := Wired.missing_of_error ticked
      have same := Wired.tick_of_missing fetching missing
      have failed := tick_of_error ticked
      rw [same] at ticked
      cases ticked
      rw [failed, same]
      rfl
  | ok progress =>
      have split : machine.wired.tick = (.ok progress, machine.wired.tick.2) := Prod.ext ticked rfl
      have passed := tick_of_ok ticked
      rw [passed] at fits frames
      have display : machine.ppu.tick? machine.wired.tick.2.bus machine.buffers = _ :=
        Ppu.tick?_eq stands machine.handed.space frames
      have counted : sum 64 machine.clock.cycles 1 = some _ := sum_eq fits
      rw [passed, split]
      simp only [display, counted]
      rfl

section Loop

variable {machine next : Machine} {buffers left : Buffers} {target : Nat}

theorem runUntil?_of_ok (early : machine.clock.cycles < target)
    (ticked : machine.tick? buffers = some (.ok (), next, left)) :
    machine.runUntil? target buffers = next.runUntil? target left := by
  rw [runUntil?, if_pos early]
  split <;> rename_i same <;> cases ticked.symm.trans same
  rfl

theorem runUntil?_of_error {error : MachineError} (early : machine.clock.cycles < target)
    (failed : machine.tick? buffers = some (.error error, next, left)) :
    machine.runUntil? target buffers = some (.error error, next, left) := by
  rw [runUntil?, if_pos early]
  split <;> rename_i same <;> cases failed.symm.trans same
  rfl

theorem runFrame?_of_ok (counted : sum 64 machine.clock.cycles Ppu.cyclesPerFrame = some target)
    (ran : machine.runUntil? target buffers = some (.ok (), next, left))
    (onward : machine.clock.cycles ≤ next.clock.cycles) :
    machine.runFrame? buffers =
      some (.ok (next.clock.cycles - machine.clock.cycles), next, left) := by
  simp only [runFrame?, counted, ran, difference_eq onward, Option.bind_eq_bind, Option.bind_some]

theorem runFrame?_of_error {error : MachineError}
    (counted : sum 64 machine.clock.cycles Ppu.cyclesPerFrame = some target)
    (ran : machine.runUntil? target buffers = some (.error error, next, left)) :
    machine.runFrame? buffers = some (.error error, next, left) := by
  simp only [runFrame?, counted, ran, Option.bind_eq_bind, Option.bind_some]

end Loop

theorem runUntil?_eq {target : Nat} (fits : target < 2 ^ 64) {machine : Machine}
    (inStep : machine.InStep) :
    machine.runUntil? target machine.buffers = some (withBuffers (machine.runUntil target)) := by
  -- Up to the target every tick has room on the clock.
  have room : ∀ {machine : Machine}, machine.clock.cycles < target →
      machine.tick.2.clock.cycles < 2 ^ 64 := by
    intro machine early
    cases ticked : machine.tick.1 with
    | ok result =>
        rw [cycles_tick ticked]
        omega
    | error error =>
        rw [(tick_of_failed ticked).1]
        exact Nat.lt_trans early fits
  fun_induction ticksUntil target machine with
  | case1 machine early result next ticked ih =>
      have checked := tick?_eq inStep (room early)
      have later := inStep.tick
      rw [ticked] at checked later
      rw [runUntil?_of_ok early checked, runUntil_of_ok early ticked]
      exact ih later
  | case2 machine early error next failed =>
      have checked := tick?_eq inStep (room early)
      rw [failed] at checked
      rw [runUntil?_of_error early checked, runUntil_of_error early failed]
      rfl
  | case3 machine reached =>
      rw [runUntil?, if_neg reached, runUntil_of_reached (Nat.le_of_not_lt reached)]
      rfl

theorem runUntil_onward {machine next : Machine} {target : Nat} {result : Except MachineError Unit}
    (ran : machine.runUntil target = (result, next)) :
    machine.clock.cycles ≤ next.clock.cycles := by
  obtain ⟨count, _, passes, ended⟩ := runUntil_ends target machine
  have reached : next = machine.after count := by
    rcases ended with ⟨ended, _⟩ | ⟨fault, _, ended, _⟩ <;>
      exact congrArg Prod.snd (ran.symm.trans ended)
  rw [reached, cycles_after passes]
  exact Nat.le_add_right _ _

theorem runFrame?_eq {machine : Machine} (inStep : machine.InStep)
    (fits : machine.clock.cycles + Ppu.cyclesPerFrame < 2 ^ 64) :
    machine.runFrame? machine.buffers = some (withBuffers machine.runFrame) := by
  have ran := runUntil?_eq fits inStep
  rcases ended : machine.runUntil (machine.clock.cycles + Ppu.cyclesPerFrame)
    with ⟨error | result, next⟩ <;> rw [ended] at ran
  · rw [runFrame_of_error ended]
    exact runFrame?_of_error (sum_eq fits) ran
  · rw [runFrame_of_ok ended]
    exact runFrame?_of_ok (sum_eq fits) ran (runUntil_onward ended)

theorem follow?_eq {machine : Machine} (inStep : machine.InStep) {event : Event}
    (room : machine.Room event) :
    machine.follow? machine.buffers event =
      some (machine.apply event, (machine.apply event).buffers) := by
  cases event with
  | tick =>
      rw [follow?, tick?_eq inStep room]
      rfl
  | runFrame =>
      have framed := runFrame?_eq inStep room
      rw [apply_runFrame, follow?]
      generalize machine.runFrame = outcome at framed
      rw [framed]
      rfl
  | operate | setRegisters | setTrace => rfl

theorem run?_eq {machine : Machine} (inStep : machine.InStep) {events : List Event}
    (fits : machine.Fits events) :
    machine.run? machine.buffers events =
      some (machine.run events, (machine.run events).buffers) := by
  induction events generalizing machine with
  | nil => rfl
  | cons event rest ih =>
      obtain ⟨room, later⟩ := fits
      rw [run?, follow?_eq inStep room, Option.bind_eq_bind, Option.bind_some]
      exact ih (inStep.apply event).1 later

theorem ticksIn_le (machine : Machine) (event : Event) : machine.ticksIn event ≤ 70224 := by
  cases event with
  | tick =>
      change (if machine.tick.1 = .ok () then 1 else 0) ≤ 70224
      split <;> omega
  | runFrame => exact machine.runFrame_after.2.1
  | operate | setRegisters | setTrace => exact Nat.zero_le _

theorem fits_of_few {machine : Machine} (inStep : machine.InStep) {events : List Event}
    (few : machine.clock.cycles + 70224 * events.length < 2 ^ 64) : machine.Fits events := by
  induction events generalizing machine with
  | nil => trivial
  | cons event rest ih =>
      rw [List.length_cons, Nat.mul_succ] at few
      have most := machine.ticksIn_le event
      obtain ⟨next, passed⟩ := inStep.apply event
      have early : machine.clock.cycles + 70224 < 2 ^ 64 :=
        Nat.lt_of_le_of_lt (Nat.add_le_add_left (Nat.le_add_left ..) _) few
      have later : (machine.apply event).clock.cycles + 70224 * rest.length < 2 ^ 64 := by
        generalize 70224 * rest.length = others at few ⊢
        omega
      refine ⟨?_, ih next later⟩
      cases event with
      | tick => exact Nat.lt_of_le_of_lt (Nat.le_add_right _ _) later
      | runFrame =>
          have frame : Ppu.cyclesPerFrame = 70224 := rfl
          rw [Room, frame]
          exact early
      | operate | setRegisters | setTrace => trivial

/-- In every run from the start of an image, as long as the clock fits its sixty-four bits, all
checks pass: none of the processor's arithmetic, tables and shifts, none of the addresses that the
painter forms and none of the places in the two buffers leaves its range.  The picture processor
always has a cycle to count down from and stands on a line of its frame, and every operation takes
a cycle more than the one of its fetch. -/
theorem stays_in_range {image : List UInt8} {start : StartState} {machine : Machine}
    (booted : boot image start = .ok machine) (events : List Event) :
    (machine.Fits events → machine.run? machine.buffers events =
      some (machine.run events, (machine.run events).buffers)) ∧
    1 ≤ (machine.run events).ppu.remaining ∧
    (machine.run events).ppu.line ≤ 153 ∧
    ((machine.run events).ppu.mode ≠ .vblank → (machine.run events).ppu.line ≤ 143) ∧
    ∀ operation : Operation, 2 ≤ operation.cycles := by
  have begun := (inStep_boot booted).1
  obtain ⟨count, _, stands⟩ := (begun.run events).1.display
  have line := stands.line_eq
  refine ⟨run?_eq begun, stands.due, by omega, fun drawn => ?_, fun operation => ?_⟩
  · have visible := mt stands.visible.mpr drawn
    omega
  · have four := operation.cycles_ge_four
    omega

/-- An image of one halt, run for a tick, a frame and a tick while a program turns the display off
and on. -/
theorem stays_in_range_halt :
    ∃ machine, boot [0x76] .reset = .ok machine ∧
      let events := [.tick, .operate (.write 0xFF40 0), .runFrame, .operate (.write 0xFF40 0x91),
        .tick]
      machine.Fits events ∧
      machine.run? machine.buffers events =
        some (machine.run events, (machine.run events).buffers) ∧
      (machine.run events).ppu.line ≤ 153 := by
  let machine : Machine :=
    { cpu := .withRegisters {}, ppu := {}, space := .loadImage {} [0x76], clock := .zero }
  have booted : boot [0x76] .reset = .ok machine := rfl
  obtain ⟨begun, zero⟩ := inStep_boot booted
  refine ⟨machine, booted, ?_⟩
  intro events
  have few : machine.clock.cycles + 70224 * events.length < 2 ^ 64 := by
    rw [zero]
    decide +kernel
  have fits := fits_of_few begun few
  obtain ⟨ran, _, line, _⟩ := stays_in_range booted events
  exact ⟨fits, ran fits, line⟩

end Machine

end Dmg
