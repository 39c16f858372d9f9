import Dmg.Machine.Basic
import Dmg.Proofs.BusView
import Dmg.Proofs.ControlState
import Dmg.Proofs.FrameTiming

/-!
A tick of the console is a tick of the processor and then one of the picture processor on the
address space that the first leaves.  If the processor faults, it is nothing at all.
-/

namespace Dmg

namespace Wired

variable {β : Type} [Bus β]

omit [Bus β] in
theorem clock_expireDelay (wired : Wired β) : wired.expireDelay.cpu.clock = wired.cpu.clock := by
  rw [expireDelay_eq]

theorem clock_of_retires {wired polled : Wired β} (retires : wired.Retires polled) :
    polled.cpu.clock = wired.cpu.clock := by
  cases retires with
  | operation => exact (clock_expireDelay _).trans (clock_execute wired _)
  | jump => rw [clock_expireDelay, land_cpu]
  | idle | halted => rfl

theorem clock_tick {wired next : Wired β} {progress : Progress}
    (ticked : wired.tick = (.ok progress, next)) :
    next.cpu.clock = wired.cpu.clock.advance := by
  have turn := turn_tick wired
  rw [ticked] at turn
  cases turn with
  | fetch fetching found => rw [fetch_eq found]; rfl
  | counting more => rfl
  | branch => exact congrArg Clock.advance (clock_execute wired _)
  | retires retires =>
      exact congrArg Clock.advance ((clock_retire _).trans (clock_of_retires retires))

theorem tick_of_missing [Bus.Still β] {wired : Wired β} (fetching : wired.cpu.phase = .fetching)
    (missing : wired.instruction? = none) :
    wired.tick = (.error (.illegalOpcode (Bus.read wired.bus wired.registers.pc).1
      wired.registers.pc), wired) := by
  simp only [tick, fetching, fetch_none missing, read, Bus.Still.read_bus]

theorem missing_of_error {wired : Wired β} {fault : Fault} (failed : wired.tick.1 = .error fault) :
    wired.cpu.phase = .fetching ∧ wired.instruction? = none := by
  have turn := turn_tick wired
  generalize wired.tick = outcome at turn failed
  cases turn with
  | fault fetching missing => exact ⟨fetching, missing⟩
  | _ => cases failed

end Wired

namespace Machine

theorem eq_of_boot {image : List UInt8} {start : StartState} {machine : Machine}
    (booted : boot image start = .ok machine) :
    machine =
      { cpu := .withRegisters start.registers, ppu := {}, space := .loadImage {} image,
        clock := .zero } := by
  simp only [boot] at booted
  split at booted
  · cases booted
  · split at booted
    · cases booted
    · exact (Except.ok.inj booted).symm

def wired (machine : Machine) : Wired AddressSpace := ⟨machine.cpu, machine.space⟩

/-- The picture processor with the address space as the processor leaves it in the next tick. -/
def handed (machine : Machine) : Display := ⟨machine.ppu, machine.wired.tick.2.bus⟩

theorem tick_of_ok {machine : Machine} {progress : Progress}
    (ticked : machine.wired.tick.1 = .ok progress) :
    machine.tick = (.ok (),
      { cpu := machine.wired.tick.2.cpu
        ppu := machine.handed.tick.ppu
        space := machine.handed.tick.space
        clock := machine.clock.advance }) := by
  obtain ⟨cpu, ppu, space, clock⟩ := machine
  have split : Wired.tick ⟨cpu, space⟩ = (.ok progress, (Wired.tick ⟨cpu, space⟩).2) :=
    Prod.ext ticked rfl
  simp only [tick]
  rw [split]
  rfl

theorem tick_of_still {machine : Machine} {progress : Progress} {cpu : Cpu}
    (ticked : machine.wired.tick = (.ok progress, ⟨cpu, machine.space⟩)) :
    machine.tick = (.ok (),
      { cpu
        ppu := (machine.ppu.tick machine.space).1
        space := (machine.ppu.tick machine.space).2
        clock := machine.clock.advance }) := by
  have handed : machine.handed = ⟨machine.ppu, machine.space⟩ := by rw [handed, ticked]
  rw [tick_of_ok (congrArg Prod.fst ticked), handed, ticked]
  rfl

theorem tick_of_error {machine : Machine} {fault : Fault}
    (failed : machine.wired.tick.1 = .error fault) :
    machine.tick = (.error (.cpu fault), machine) := by
  obtain ⟨cpu, ppu, space, clock⟩ := machine
  obtain ⟨fetching, missing⟩ := Wired.missing_of_error failed
  have split := Wired.tick_of_missing fetching missing
  rw [split] at failed
  cases failed
  have split : Wired.tick ⟨cpu, space⟩ = _ := split
  simp only [tick]
  rw [split]
  rfl

theorem tick_of_failed {machine : Machine} {error : MachineError}
    (failed : machine.tick.1 = .error error) :
    machine.tick = (.error error, machine) ∧ ∃ fault, error = .cpu fault := by
  cases ticked : machine.wired.tick.1 with
  | ok progress =>
      rw [tick_of_ok ticked] at failed
      cases failed
  | error fault =>
      have same := tick_of_error ticked
      rw [same] at failed ⊢
      cases failed
      exact ⟨rfl, fault, rfl⟩

theorem ok_of_tick {machine : Machine} (passes : machine.tick.1 = .ok ()) :
    ∃ progress, machine.wired.tick.1 = .ok progress := by
  cases ticked : machine.wired.tick.1 with
  | ok progress => exact ⟨progress, rfl⟩
  | error fault =>
      rw [tick_of_error ticked] at passes
      cases passes

theorem runUntil_of_ok {machine next : Machine} {target : Nat}
    (early : machine.clock.cycles < target) (ticked : machine.tick = (.ok (), next)) :
    machine.runUntil target = next.runUntil target := by
  rw [runUntil, if_pos early]
  split
  · rename_i same
    cases ticked.symm.trans same
    rfl
  · rename_i same
    cases ticked.symm.trans same

theorem runUntil_of_error {machine next : Machine} {target : Nat} {error : MachineError}
    (early : machine.clock.cycles < target) (failed : machine.tick = (.error error, next)) :
    machine.runUntil target = (.error error, next) := by
  rw [runUntil, if_pos early]
  split
  · rename_i same
    cases failed.symm.trans same
  · rename_i same
    cases failed.symm.trans same
    rfl

theorem runUntil_of_reached {machine : Machine} {target : Nat}
    (reached : target ≤ machine.clock.cycles) : machine.runUntil target = (.ok (), machine) := by
  rw [runUntil, if_neg (Nat.not_lt.mpr reached)]

theorem runFrame_of_ok {machine next : Machine}
    (ran : machine.runUntil (machine.clock.cycles + Ppu.cyclesPerFrame) = (.ok (), next)) :
    machine.runFrame = (.ok (next.clock.cycles - machine.clock.cycles), next) := by
  rw [runFrame, ran]

theorem runFrame_of_error {machine next : Machine} {error : MachineError}
    (ran : machine.runUntil (machine.clock.cycles + Ppu.cyclesPerFrame) = (.error error, next)) :
    machine.runFrame = (.error error, next) := by
  rw [runFrame, ran]

theorem runFrame_of_tick {machine next : Machine} {error : MachineError}
    (failed : machine.tick = (.error error, next)) : machine.runFrame = (.error error, next) := by
  have frame : 0 < Ppu.cyclesPerFrame := by decide
  exact runFrame_of_error (runUntil_of_error (Nat.lt_add_of_pos_right frame) failed)

/-- The machine after some ticks, those that fault included. -/
def after (machine : Machine) : Nat → Machine
  | 0 => machine
  | count + 1 => (machine.after count).tick.2

theorem after_succ (machine : Machine) (count : Nat) :
    machine.after (count + 1) = machine.tick.2.after count := by
  induction count with
  | zero => rfl
  | succ count ih => rw [after, ih, after]

theorem after_add (machine : Machine) (first second : Nat) :
    machine.after (first + second) = (machine.after first).after second := by
  induction second with
  | zero => rfl
  | succ second ih => rw [← Nat.add_assoc, after, after, ih]

/-- An invariant of the machine and of a log, to which each tick adds what it finds. -/
theorem noted_after {α : Type} (holds : Machine → List α → Prop) (note : Machine → List α)
    (tick : ∀ {machine noted}, holds machine noted →
      holds machine.tick.2 (noted ++ note machine))
    {machine : Machine} {noted : List α} (start : holds machine noted) (count : Nat) :
    holds (machine.after count)
      (noted ++ (List.range count).flatMap fun earlier => note (machine.after earlier)) := by
  induction count with
  | zero =>
      rw [List.range_zero, List.flatMap_nil, List.append_nil]
      exact start
  | succ count ih =>
      rw [List.range_succ, List.flatMap_append, ← List.append_assoc, List.flatMap_singleton]
      exact tick ih

def Succeeds (machine : Machine) (count : Nat) : Prop :=
  ∀ earlier < count, (machine.after earlier).tick.1 = .ok ()

theorem Succeeds.drop {machine : Machine} {first second : Nat}
    (passes : machine.Succeeds (first + second)) : (machine.after first).Succeeds second := by
  intro earlier early
  rw [← after_add]
  exact passes (first + earlier) (Nat.add_lt_add_left early first)

/-- What happens to a running machine: its ticks and frames, and what its host changes between them
in the address space, in the registers and in the trace. -/
inductive Event
  | tick
  | runFrame
  | operate (operation : SpaceOperation)
  | setRegisters (registers : Registers)
  | setTrace (fetches : Option (Array Fetch))

def apply (machine : Machine) : Event → Machine
  | .tick => machine.tick.2
  | .runFrame => machine.runFrame.2
  | .operate operation => machine.mapSpace (·.apply operation)
  | .setRegisters registers => machine.mapCpu ({ · with registers })
  | .setTrace fetches => machine.mapCpu ({ · with fetches })

theorem apply_runFrame (machine : Machine) : machine.apply .runFrame = machine.runFrame.2 := by
  rw [apply]

def run (machine : Machine) (events : List Event) : Machine := events.foldl apply machine

end Machine

end Dmg
