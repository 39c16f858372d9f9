import Dmg.Proofs.BusView
import Dmg.Proofs.Encoding
import Dmg.Proofs.InstructionFrame

/-!
Branches with a condition and without.  A branch that is taken does what it does without its
condition, and one that is not taken is passed.
-/

namespace Dmg

def Condition.complement : Condition → Condition
  | notZero => zero
  | zero => notZero
  | notCarry => carry
  | carry => notCarry

inductive Branch
  | jump | jumpRelative | call | ret
deriving DecidableEq

namespace Branch

def extra : Branch → Nat
  | jump | jumpRelative => 4
  | call | ret => 12

/-- What a branch that is taken does to the registers, with its operand and the word on top of the
stack given. -/
def land (branch : Branch) (registers : Registers) (operand top behind : UInt16) : Registers :=
  match branch with
  | jump => { registers with pc := operand }
  | jumpRelative => { registers with pc := displace behind (lowByte operand) }
  | call => { registers with pc := operand, sp := registers.sp - 2 }
  | ret => { registers with pc := top, sp := registers.sp + 2 }

def writes (branch : Branch) (sp behind : UInt16) : List Access :=
  match branch with
  | call => [.write (sp - 1) (highByte behind), .write (sp - 2) (lowByte behind)]
  | _ => []

def jumps (branch : Branch) (operand behind : UInt16) : Jump :=
  match branch with
  | jump => .goTo operand
  | jumpRelative => .goTo (displace behind (lowByte operand))
  | call => .call operand
  | ret => .ret

end Branch

namespace Wired

section Step

variable {wired : Wired Ram} {branch : Branch} {condition : Option Condition}

/-- The other processor is in the same state, and its memory differs in nothing but the opcode that
comes next. -/
structure Resembles (wired other : Wired Ram) : Prop where
  cpu : other.cpu = wired.cpu
  memory : ∀ place, place ≠ wired.registers.pc → other.bus.get place = wired.bus.get place

theorem Resembles.word {other : Wired Ram} (resembles : wired.Resembles other) {place : UInt16}
    (low : place ≠ wired.registers.pc) (high : place + 1 ≠ wired.registers.pc) :
    wordAt other.bus place = wordAt wired.bus place := by
  rw [wordAt_still, wordAt_still, Ram.read_eq, Ram.read_eq, Ram.read_eq, Ram.read_eq,
    resembles.memory _ low, resembles.memory _ high]

theorem Resembles.operand {other : Wired Ram} (resembles : wired.Resembles other) :
    wordAt other.bus (wired.registers.pc + 1) = wordAt wired.bus (wired.registers.pc + 1) := by
  -- Even where the addresses wrap around, two bytes behind the opcode do not come back to it.
  refine resembles.word ?_ ?_ <;> grind

/-- A taken branch finds in a memory that differs in the opcode what it finds in its own. -/
theorem Resembles.land {other : Wired Ram} (resembles : wired.Resembles other)
    (apart : branch = .ret → wired.registers.sp ≠ wired.registers.pc ∧
      wired.registers.sp + 1 ≠ wired.registers.pc) (behind : UInt16) :
    branch.land wired.registers (wordAt other.bus (wired.registers.pc + 1))
        (wordAt other.bus wired.registers.sp) behind =
      branch.land wired.registers (wordAt wired.bus (wired.registers.pc + 1))
        (wordAt wired.bus wired.registers.sp) behind := by
  rw [resembles.operand]
  cases branch with
  | ret =>
      obtain ⟨low, high⟩ := apart rfl
      rw [resembles.word low high]
  | _ => rfl

end Step

end Wired

end Dmg
