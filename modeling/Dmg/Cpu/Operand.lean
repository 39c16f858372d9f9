/-!
What the bit fields of an opcode select: registers and pairs, branch conditions, and the arithmetic
and shift operations.  Each kind lists its members in the order of the field's values.
-/

namespace Dmg

inductive Register
  | a | b | c | d | e | h | l
deriving DecidableEq

inductive Slot
  | register (register : Register)
  | atHl
deriving DecidableEq

inductive Pair
  | bc | de | hl | sp
deriving DecidableEq

inductive StackPair
  | bc | de | hl | af
deriving DecidableEq

inductive Pointer
  | pc | sp | hl
deriving DecidableEq

inductive Condition
  | notZero | zero | notCarry | carry
deriving DecidableEq

inductive Arithmetic
  | add | addCarry | subtract | subtractCarry | and | xor | or | compare
deriving DecidableEq

inductive Rotation
  | leftCircular | rightCircular | left | right
deriving DecidableEq

inductive Shift
  | rotate (rotation : Rotation)
  | leftArithmetic | rightArithmetic | swap | rightLogical
deriving DecidableEq

inductive Indirect
  | bc | de | hlIncrement | hlDecrement
  | word
  | highByte
  | highC
deriving DecidableEq

namespace Register

def text : Register → String
  | a => "A" | b => "B" | c => "C" | d => "D" | e => "E" | h => "H" | l => "L"

end Register

namespace Slot

def all : Vector Slot 8 :=
  #v[register .b, register .c, register .d, register .e, register .h, register .l, atHl,
    register .a]

def ofField (field : Fin 8) : Slot := all[field]

def isMemory : Slot → Bool
  | .register _ => false
  | .atHl => true

def text : Slot → String
  | .register name => name.text
  | .atHl => "(HL)"

end Slot

namespace Pair

def all : Vector Pair 4 := #v[bc, de, hl, sp]

def ofField (field : Fin 4) : Pair := all[field]

def text : Pair → String
  | bc => "BC" | de => "DE" | hl => "HL" | sp => "SP"

end Pair

namespace StackPair

def all : Vector StackPair 4 := #v[bc, de, hl, af]

def ofField (field : Fin 4) : StackPair := all[field]

def text : StackPair → String
  | bc => "BC" | de => "DE" | hl => "HL" | af => "AF"

end StackPair

namespace Condition

def all : Vector Condition 4 := #v[notZero, zero, notCarry, carry]

def ofField (field : Fin 4) : Condition := all[field]

def text : Condition → String
  | notZero => "NZ" | zero => "Z" | notCarry => "NC" | carry => "C"

end Condition

namespace Arithmetic

def all : Vector Arithmetic 8 :=
  #v[add, addCarry, subtract, subtractCarry, and, xor, or, compare]

def ofField (field : Fin 8) : Arithmetic := all[field]

def text : Arithmetic → String
  | add => "ADD A," | addCarry => "ADC A," | subtract => "SUB " | subtractCarry => "SBC A,"
  | and => "AND " | xor => "XOR " | or => "OR " | compare => "CP "

end Arithmetic

namespace Rotation

def text : Rotation → String
  | leftCircular => "RLC" | rightCircular => "RRC" | left => "RL" | right => "RR"

end Rotation

namespace Shift

def all : Vector Shift 8 :=
  #v[rotate .leftCircular, rotate .rightCircular, rotate .left, rotate .right, leftArithmetic,
    rightArithmetic, swap, rightLogical]

def ofField (field : Fin 8) : Shift := all[field]

def text : Shift → String
  | rotate rotation => rotation.text
  | leftArithmetic => "SLA" | rightArithmetic => "SRA" | swap => "SWAP" | rightLogical => "SRL"

end Shift

def octalField (byte : UInt8) (place : Nat) : Fin 8 :=
  ⟨(byte.toNat >>> place) % 8, Nat.mod_lt _ (by decide)⟩

end Dmg
