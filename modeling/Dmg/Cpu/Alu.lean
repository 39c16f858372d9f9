import Dmg.Cpu.Flags
import Dmg.Cpu.Operand
import Dmg.Word

/-!
Arithmetic and logic on bytes and words, with the flags each operation produces.  Sums and
differences decide their carries on natural numbers.  An operation that leaves a flag alone reports
it as clear, and the processor puts the kept flag back.
-/

namespace Dmg

structure AluResult where
  value : UInt8
  flags : Flags
deriving DecidableEq

structure WideResult where
  value : UInt16
  flags : Flags
deriving DecidableEq

namespace Alu

def carryIn (carry : Bool) : UInt8 := if carry then 1 else 0

theorem toNat_carryIn (carry : Bool) : (carryIn carry).toNat = carry.toNat := by
  cases carry <;> rfl

def addCarry (left right : UInt8) (carry : Bool) : AluResult :=
  let value := left + right + carryIn carry
  { value
    flags :=
      { zero := value == 0
        halfCarry := left.toNat % 16 + right.toNat % 16 + carry.toNat > 15
        carry := left.toNat + right.toNat + carry.toNat > 255 } }

def add (left right : UInt8) : AluResult := addCarry left right false

def subtractCarry (left right : UInt8) (carry : Bool) : AluResult :=
  let value := left - right - carryIn carry
  { value
    flags :=
      { zero := value == 0
        subtract := true
        halfCarry := left.toNat % 16 < right.toNat % 16 + carry.toNat
        carry := left.toNat < right.toNat + carry.toNat } }

def subtract (left right : UInt8) : AluResult := subtractCarry left right false

def compare (left right : UInt8) : AluResult :=
  { value := left, flags := (subtract left right).flags }

def and (left right : UInt8) : AluResult :=
  { value := left &&& right, flags := { zero := left &&& right == 0, halfCarry := true } }

def xor (left right : UInt8) : AluResult :=
  { value := left ^^^ right, flags := { zero := left ^^^ right == 0 } }

def or (left right : UInt8) : AluResult :=
  { value := left ||| right, flags := { zero := left ||| right == 0 } }

def increment (value : UInt8) : AluResult :=
  { value := value + 1
    flags := { zero := value + 1 == 0, halfCarry := value.toNat % 16 == 15 } }

def decrement (value : UInt8) : AluResult :=
  { value := value - 1
    flags := { zero := value - 1 == 0, subtract := true, halfCarry := value.toNat % 16 == 0 } }

/-- Adds words, carrying out of bits 11 and 15; the zero flag is not this operation's. -/
def addWord (left right : UInt16) : WideResult :=
  { value := left + right
    flags :=
      { halfCarry := left.toNat % 4096 + right.toNat % 4096 > 4095
        carry := left.toNat + right.toNat > 65535 } }

/-- Adds a signed byte to a word; the carries are those of the unsigned sum of the low bytes. -/
def addOffset (base : UInt16) (offset : UInt8) : WideResult :=
  { value := displace base offset
    flags :=
      { halfCarry := base.toNat % 16 + offset.toNat % 16 > 15
        carry := base.toNat % 256 + offset.toNat > 255 } }

/-- What a decimal adjustment adds or takes away: six for the low digit, sixty for the high. -/
def adjustment (low high : Bool) : UInt8 :=
  (if low then 0x06 else 0) + (if high then 0x60 else 0)

def decimalAdjust (value : UInt8) (flags : Flags) : AluResult :=
  let low := flags.halfCarry || (!flags.subtract && value.toNat % 16 > 9)
  let high := flags.carry || (!flags.subtract && value > 0x99)
  let amount := adjustment low high
  let adjusted := if flags.subtract then value - amount else value + amount
  { value := adjusted
    flags := { zero := adjusted == 0, subtract := flags.subtract, carry := high } }

def shifted (value : UInt8) (out : Bool) : AluResult :=
  { value, flags := { zero := value == 0, carry := out } }

def topBit (value : UInt8) : Bool := value &&& 0x80 != 0

def bottomBit (value : UInt8) : Bool := value &&& 0x01 != 0

def rotateLeftCircular (value : UInt8) : AluResult :=
  shifted (value <<< 1 ||| value >>> 7) (topBit value)

def rotateRightCircular (value : UInt8) : AluResult :=
  shifted (value >>> 1 ||| value <<< 7) (bottomBit value)

def rotateLeft (value : UInt8) (carry : Bool) : AluResult :=
  shifted (value <<< 1 ||| carryIn carry) (topBit value)

def rotateRight (value : UInt8) (carry : Bool) : AluResult :=
  shifted (value >>> 1 ||| carryIn carry <<< 7) (bottomBit value)

def shiftLeftArithmetic (value : UInt8) : AluResult :=
  shifted (value <<< 1) (topBit value)

def shiftRightArithmetic (value : UInt8) : AluResult :=
  shifted (value >>> 1 ||| value &&& 0x80) (bottomBit value)

def swap (value : UInt8) : AluResult :=
  shifted (value <<< 4 ||| value >>> 4) false

def shiftRightLogical (value : UInt8) : AluResult :=
  shifted (value >>> 1) (bottomBit value)

def bitMask (index : Fin 8) : UInt8 := 1 <<< UInt8.ofNat index.val

def testBit (index : Fin 8) (value : UInt8) : Flags :=
  { zero := value &&& bitMask index == 0, halfCarry := true }

def resetBit (index : Fin 8) (value : UInt8) : UInt8 := value &&& ~~~bitMask index

def setBit (index : Fin 8) (value : UInt8) : UInt8 := value ||| bitMask index

end Alu

def Arithmetic.apply (operation : Arithmetic) (left right : UInt8) (carry : Bool) : AluResult :=
  match operation with
  | .add => Alu.add left right
  | .addCarry => Alu.addCarry left right carry
  | .subtract => Alu.subtract left right
  | .subtractCarry => Alu.subtractCarry left right carry
  | .and => Alu.and left right
  | .xor => Alu.xor left right
  | .or => Alu.or left right
  | .compare => Alu.compare left right

def Rotation.apply (rotation : Rotation) (value : UInt8) (carry : Bool) : AluResult :=
  match rotation with
  | .leftCircular => Alu.rotateLeftCircular value
  | .rightCircular => Alu.rotateRightCircular value
  | .left => Alu.rotateLeft value carry
  | .right => Alu.rotateRight value carry

def Shift.apply (shift : Shift) (value : UInt8) (carry : Bool) : AluResult :=
  match shift with
  | .rotate rotation => rotation.apply value carry
  | .leftArithmetic => Alu.shiftLeftArithmetic value
  | .rightArithmetic => Alu.shiftRightArithmetic value
  | .swap => Alu.swap value
  | .rightLogical => Alu.shiftRightLogical value

end Dmg
