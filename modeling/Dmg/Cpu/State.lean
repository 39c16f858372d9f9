import Dmg.Clock
import Dmg.Cpu.Operation
import Dmg.Cpu.Registers
import Dmg.Memory.Bus

/-!
The processor between two ticks, on its own and wired to a bus.
-/

namespace Dmg

/-- The late half of a taken branch, which happens when the branch's extra cycles are over. -/
inductive Jump
  | goTo (target : UInt16)
  | call (target : UInt16)
  | ret
  | retEnable
deriving DecidableEq

def Jump.delay : Jump → Nat
  | .goTo _ => 4
  | _ => 12

inductive Stage
  | operation (operation : Operation)
  | jump (jump : Jump)
  /-- Nothing: the cycles of an interrupt dispatch or of a wake-up. -/
  | idle
deriving DecidableEq

inductive Phase
  | fetching
  | executing (remaining : Nat) (stage : Stage)
  | halted (remaining : Nat)
deriving DecidableEq

def Phase.bound : Phase → Nat
  | .fetching => 40
  | .executing remaining (.operation _) => remaining + 20
  | .executing remaining _ => remaining
  | .halted remaining => remaining

structure Fetch where
  address : UInt16
  instruction : Instruction
  registers : Registers
deriving DecidableEq

inductive Fault
  /-- The byte fetched from the address has no operation. -/
  | illegalOpcode (opcode : UInt8) (address : UInt16)
deriving DecidableEq

def Fault.message : Fault → String
  | .illegalOpcode opcode address =>
      "illegal opcode $" ++ hexByte opcode ++ " at $" ++ hexWord address

structure Cpu where
  registers : Registers := {}
  phase : Phase := .fetching
  halted : Bool := false
  /-- The next fetch leaves the program counter where it is. -/
  haltBug : Bool := false
  /-- The instructions to finish until interrupts are enabled; zero if that is not awaited. -/
  enableDelay : Nat := 0
  clock : Clock := {}
  /-- Every fetch since tracing began, if it is on. -/
  fetches : Option (Array Fetch) := none
deriving DecidableEq, Inhabited

namespace Cpu

def withRegisters (registers : Registers) : Cpu := { registers }

def reset (cpu : Cpu) : Cpu := { fetches := cpu.fetches }

def startTrace (cpu : Cpu) : Cpu := { cpu with fetches := some #[] }

def stopTrace (cpu : Cpu) : Cpu := { cpu with fetches := none }

def takeTrace (cpu : Cpu) : Array Fetch × Cpu :=
  (cpu.fetches.getD #[], { cpu with fetches := cpu.fetches.map fun _ => #[] })

def mapRegisters (cpu : Cpu) (change : Registers → Registers) : Cpu :=
  { cpu with registers := change cpu.registers }

end Cpu

structure Wired (β : Type) where
  cpu : Cpu
  bus : β

/-- How far a tick came: an instruction boundary, or a point before the next one. -/
inductive Progress
  | within
  | boundary
deriving DecidableEq

end Dmg
