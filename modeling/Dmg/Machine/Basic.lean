import Dmg.Cpu.Tick
import Dmg.Video.Ppu

/-!
The whole console.  Processor and picture processor share one clock: a tick advances the first by a
cycle and then the second by the same cycle, and they meet only in the address space.
-/

namespace Dmg

inductive MachineError
  | cpu (fault : Fault)
  | imageTooLarge (size : Nat)
  | emptyImage
deriving DecidableEq

def maxImageSize : Nat := 0x8000

def MachineError.message : MachineError → String
  | .cpu fault => "CPU fault: " ++ fault.message
  | .imageTooLarge size =>
      "ROM too large: " ++ Nat.repr size ++ " bytes (at most " ++ Nat.repr maxImageSize ++
        " without bank switching)"
  | .emptyImage => "ROM is empty"

def MachineError.fault? : MachineError → Option Fault
  | .cpu fault => some fault
  | _ => none

inductive StartState
  | reset
  | postBoot
deriving DecidableEq, Inhabited

def StartState.registers : StartState → Registers
  | .reset => {}
  | .postBoot => .postBoot

structure Machine where
  cpu : Cpu
  ppu : Ppu
  space : AddressSpace
  clock : Clock
deriving Inhabited

namespace Machine

def boot (image : List UInt8) (start : StartState) : Except MachineError Machine :=
  if image.isEmpty then .error .emptyImage
  else if image.length > maxImageSize then .error (.imageTooLarge image.length)
  else
    .ok
      { cpu := .withRegisters start.registers
        ppu := {}
        space := AddressSpace.loadImage {} image
        clock := .zero }

/-- Advances the machine by one cycle.  If the processor faults, nothing else advances. -/
def tick (machine : Machine) : Except MachineError Unit × Machine :=
  match machine with
  | ⟨cpu, ppu, space, clock⟩ =>
      match Wired.tick ⟨cpu, space⟩ with
      | (.error fault, ⟨cpu, space⟩) => (.error (.cpu fault), ⟨cpu, ppu, space, clock⟩)
      | (.ok _, ⟨cpu, space⟩) =>
          let (ppu, space) := ppu.tick space
          (.ok (), ⟨cpu, ppu, space, clock.advance⟩)

theorem clock_tick (machine next : Machine) (ticked : machine.tick = (.ok (), next)) :
    next.clock = machine.clock.advance := by
  simp only [tick] at ticked
  split at ticked
  · cases ticked
  · cases ticked
    rfl

def runUntil (target : Nat) (machine : Machine) : Except MachineError Unit × Machine :=
  if machine.clock.cycles < target then
    match _ : machine.tick with
    | (.ok _, next) => runUntil target next
    | (.error error, next) => (.error error, next)
  else (.ok (), machine)
termination_by target - machine.clock.cycles
decreasing_by
  rename_i ticked
  rw [clock_tick machine next ticked, Clock.cycles_advance]
  omega

/-- Runs for the cycles of one frame, or up to the first fault; the value is the number of cycles
that passed. -/
def runFrame (machine : Machine) : Except MachineError Nat × Machine :=
  let start := machine.clock.cycles
  match machine.runUntil (start + Ppu.cyclesPerFrame) with
  | (.ok _, machine) => (.ok (machine.clock.cycles - start), machine)
  | (.error error, machine) => (.error error, machine)

def picture (machine : Machine) : Picture := machine.ppu.frame.picture

@[inline] def mapCpu (machine : Machine) (change : Cpu → Cpu) : Machine :=
  match machine with
  | ⟨cpu, ppu, space, clock⟩ => ⟨change cpu, ppu, space, clock⟩

@[inline] def mapSpace (machine : Machine) (change : AddressSpace → AddressSpace) : Machine :=
  match machine with
  | ⟨cpu, ppu, space, clock⟩ => ⟨cpu, ppu, change space, clock⟩

end Machine

end Dmg
