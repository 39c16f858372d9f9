import Dmg.Cpu.Flags
import Dmg.Cpu.Operand
import Dmg.Word

/-!
The register file.  The pairs AF, BC, DE and HL are views of the byte registers and have no storage
of their own, so a write through one view is seen through every other.
-/

namespace Dmg

structure Registers where
  a : UInt8 := 0
  flags : Flags := {}
  b : UInt8 := 0
  c : UInt8 := 0
  d : UInt8 := 0
  e : UInt8 := 0
  h : UInt8 := 0
  l : UInt8 := 0
  sp : UInt16 := 0
  pc : UInt16 := 0
  ime : Bool := false
deriving DecidableEq, Inhabited

namespace Registers

/-- The values that the console's own start program leaves behind. -/
def postBoot : Registers where
  a := 0x01
  flags := { zero := true, halfCarry := true, carry := true }
  b := 0x00
  c := 0x13
  d := 0x00
  e := 0xD8
  h := 0x01
  l := 0x4D
  sp := 0xFFFE
  pc := 0x0100

def f (registers : Registers) : UInt8 := registers.flags.toByte

def af (registers : Registers) : UInt16 := join registers.a registers.f

def bc (registers : Registers) : UInt16 := join registers.b registers.c

def de (registers : Registers) : UInt16 := join registers.d registers.e

def hl (registers : Registers) : UInt16 := join registers.h registers.l

def setF (registers : Registers) (value : UInt8) : Registers :=
  { registers with flags := Flags.ofByte value }

def setAf (registers : Registers) (value : UInt16) : Registers :=
  { registers with a := highByte value, flags := Flags.ofByte (lowByte value) }

def setBc (registers : Registers) (value : UInt16) : Registers :=
  { registers with b := highByte value, c := lowByte value }

def setDe (registers : Registers) (value : UInt16) : Registers :=
  { registers with d := highByte value, e := lowByte value }

def setHl (registers : Registers) (value : UInt16) : Registers :=
  { registers with h := highByte value, l := lowByte value }

def get (registers : Registers) : Register → UInt8
  | .a => registers.a
  | .b => registers.b
  | .c => registers.c
  | .d => registers.d
  | .e => registers.e
  | .h => registers.h
  | .l => registers.l

def set (registers : Registers) (register : Register) (value : UInt8) : Registers :=
  match register with
  | .a => { registers with a := value }
  | .b => { registers with b := value }
  | .c => { registers with c := value }
  | .d => { registers with d := value }
  | .e => { registers with e := value }
  | .h => { registers with h := value }
  | .l => { registers with l := value }

def getSlot? (registers : Registers) : Slot → Option UInt8
  | .register register => some (registers.get register)
  | .atHl => none

def setSlot? (registers : Registers) (slot : Slot) (value : UInt8) : Option Registers :=
  match slot with
  | .register register => some (registers.set register value)
  | .atHl => none

def getPair (registers : Registers) : Pair → UInt16
  | .bc => registers.bc
  | .de => registers.de
  | .hl => registers.hl
  | .sp => registers.sp

def setPair (registers : Registers) (pair : Pair) (value : UInt16) : Registers :=
  match pair with
  | .bc => registers.setBc value
  | .de => registers.setDe value
  | .hl => registers.setHl value
  | .sp => { registers with sp := value }

def getStackPair (registers : Registers) : StackPair → UInt16
  | .bc => registers.bc
  | .de => registers.de
  | .hl => registers.hl
  | .af => registers.af

def setStackPair (registers : Registers) (pair : StackPair) (value : UInt16) : Registers :=
  match pair with
  | .bc => registers.setBc value
  | .de => registers.setDe value
  | .hl => registers.setHl value
  | .af => registers.setAf value

def pointer (registers : Registers) : Pointer → UInt16
  | .pc => registers.pc
  | .sp => registers.sp
  | .hl => registers.hl

def setPointer (registers : Registers) (pointer : Pointer) (value : UInt16) : Registers :=
  match pointer with
  | .pc => { registers with pc := value }
  | .sp => { registers with sp := value }
  | .hl => registers.setHl value

/-- Moves a pointer up by one; the value is the one before. -/
def advance (registers : Registers) (pointer : Pointer) : UInt16 × Registers :=
  let old := registers.pointer pointer
  (old, registers.setPointer pointer (old + 1))

def retreat (registers : Registers) (pointer : Pointer) : UInt16 × Registers :=
  let old := registers.pointer pointer
  (old, registers.setPointer pointer (old - 1))

def holds (registers : Registers) : Option Condition → Bool
  | none => true
  | some .notZero => !registers.flags.zero
  | some .zero => registers.flags.zero
  | some .notCarry => !registers.flags.carry
  | some .carry => registers.flags.carry

@[simp] theorem bc_setBc (registers : Registers) (value : UInt16) :
    (registers.setBc value).bc = value := join_highByte_lowByte value

@[simp] theorem de_setDe (registers : Registers) (value : UInt16) :
    (registers.setDe value).de = value := join_highByte_lowByte value

@[simp] theorem hl_setHl (registers : Registers) (value : UInt16) :
    (registers.setHl value).hl = value := join_highByte_lowByte value

@[simp] theorem get_set_self (registers : Registers) (register : Register) (value : UInt8) :
    (registers.set register value).get register = value := by
  cases register <;> rfl

theorem get_set_of_ne (registers : Registers) {written register : Register} (value : UInt8)
    (apart : written ≠ register) :
    (registers.set written value).get register = registers.get register := by
  cases written <;> cases register <;> simp_all [get, set]

end Registers

end Dmg
