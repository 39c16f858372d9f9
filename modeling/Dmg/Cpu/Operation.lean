import Dmg.Cpu.Operand
import Dmg.Text.Hex

/-!
The operations of the processor.  Cost, encoded length and mnemonic are functions of the operation,
so one operation has them the same wherever it is encoded.
-/

namespace Dmg

inductive Operation
  | nop
  | halt
  | stop
  | disableInterrupts
  | enableInterrupts
  | load (target source : Slot)
  | loadByte (target : Slot)
  | loadA (source : Indirect)
  | storeA (target : Indirect)
  | loadPair (target : Pair)
  | storeSp
  | loadSpHl
  | loadHlSp
  | push (source : StackPair)
  | pop (target : StackPair)
  | arithmetic (operation : Arithmetic) (source : Slot)
  | arithmeticByte (operation : Arithmetic)
  | increment (target : Slot)
  | decrement (target : Slot)
  | incrementPair (target : Pair)
  | decrementPair (target : Pair)
  | addHl (source : Pair)
  | addSp
  | rotateA (rotation : Rotation)
  | decimalAdjust
  | complement
  | setCarry
  | complementCarry
  | jump (condition : Option Condition)
  | jumpHl
  | jumpRelative (condition : Option Condition)
  | call (condition : Option Condition)
  | ret (condition : Option Condition)
  | retEnable
  | restart (index : Fin 8)
  | shift (kind : Shift) (target : Slot)
  | testBit (index : Fin 8) (source : Slot)
  | resetBit (index : Fin 8) (target : Slot)
  | setBit (index : Fin 8) (target : Slot)
deriving DecidableEq

def Slot.cycles : Slot → Nat
  | .register _ => 0
  | .atHl => 4

def Indirect.cycles : Indirect → Nat
  | .word => 12
  | .highByte => 8
  | _ => 4

def Indirect.length : Indirect → Nat
  | .word => 2
  | .highByte => 1
  | _ => 0

def Indirect.text : Indirect → String
  | .bc => "(BC)"
  | .de => "(DE)"
  | .hlIncrement => "(HL+)"
  | .hlDecrement => "(HL-)"
  | .word => "(nn)"
  | .highByte => "(n)"
  | .highC => "(C)"

def restartVector (index : Fin 8) : UInt16 := 8 * UInt16.ofNat index.val

namespace Operation

/-- The cycles from the fetch on, without those that a taken branch adds. -/
def cycles : Operation → Nat
  | nop | halt | stop | disableInterrupts | enableInterrupts => 4
  | load target source => 4 + max target.cycles source.cycles
  | loadByte target => 8 + target.cycles
  | loadA source => 4 + source.cycles
  | storeA target => 4 + target.cycles
  | loadPair _ => 12
  | storeSp => 20
  | loadSpHl => 8
  | loadHlSp => 12
  | push _ => 16
  | pop _ => 12
  | arithmetic _ source => 4 + source.cycles
  | arithmeticByte _ => 8
  | increment target | decrement target => 4 + 2 * target.cycles
  | incrementPair _ | decrementPair _ | addHl _ => 8
  | addSp => 16
  | rotateA _ | decimalAdjust | complement | setCarry | complementCarry => 4
  | jump _ => 12
  | jumpHl => 4
  | jumpRelative _ => 8
  | call _ => 12
  | ret none | retEnable | restart _ => 4
  | ret (some _) => 8
  | shift _ target | resetBit _ target | setBit _ target => 8 + 2 * target.cycles
  | testBit _ source => 8 + source.cycles

/-- The bytes of the encoding, with the byte that selects the extended page. -/
def length : Operation → Nat
  | stop | loadByte _ | loadHlSp | arithmeticByte _ | addSp | jumpRelative _ => 2
  | loadA source => 1 + source.length
  | storeA target => 1 + target.length
  | loadPair _ | storeSp | jump _ | call _ => 3
  | shift _ _ | testBit _ _ | resetBit _ _ | setBit _ _ => 2
  | _ => 1

def branchText (name : String) (condition : Option Condition) (target : String) : String :=
  match condition, target with
  | none, "" => name
  | none, target => name ++ " " ++ target
  | some condition, "" => name ++ " " ++ condition.text
  | some condition, target => name ++ " " ++ condition.text ++ "," ++ target

/-- Loads through an address in the top page are written with their own mnemonic when the address
is an operand byte. -/
def indirectName : Indirect → String
  | .highByte => "LDH"
  | _ => "LD"

def bitText (name : String) (index : Fin 8) (operand : Slot) : String :=
  name ++ " " ++ Nat.repr index.val ++ "," ++ operand.text

def mnemonic : Operation → String
  | nop => "NOP"
  | halt => "HALT"
  | stop => "STOP"
  | disableInterrupts => "DI"
  | enableInterrupts => "EI"
  | load target source => "LD " ++ target.text ++ "," ++ source.text
  | loadByte target => "LD " ++ target.text ++ ",n"
  | loadA source => indirectName source ++ " A," ++ source.text
  | storeA target => indirectName target ++ " " ++ target.text ++ ",A"
  | loadPair target => "LD " ++ target.text ++ ",nn"
  | storeSp => "LD (nn),SP"
  | loadSpHl => "LD SP,HL"
  | loadHlSp => "LD HL,SP+e"
  | push source => "PUSH " ++ source.text
  | pop target => "POP " ++ target.text
  | arithmetic operation source => operation.text ++ source.text
  | arithmeticByte operation => operation.text ++ "n"
  | increment target => "INC " ++ target.text
  | decrement target => "DEC " ++ target.text
  | incrementPair target => "INC " ++ target.text
  | decrementPair target => "DEC " ++ target.text
  | addHl source => "ADD HL," ++ source.text
  | addSp => "ADD SP,e"
  | rotateA rotation => rotation.text ++ "A"
  | decimalAdjust => "DAA"
  | complement => "CPL"
  | setCarry => "SCF"
  | complementCarry => "CCF"
  | jump condition => branchText "JP" condition "nn"
  | jumpHl => "JP HL"
  | jumpRelative condition => branchText "JR" condition "e"
  | call condition => branchText "CALL" condition "nn"
  | ret condition => branchText "RET" condition ""
  | retEnable => "RETI"
  | restart index => "RST " ++ hex 2 (restartVector index).toNat ++ "h"
  | shift kind target => kind.text ++ " " ++ target.text
  | testBit index source => bitText "BIT" index source
  | resetBit index target => bitText "RES" index target
  | setBit index target => bitText "SET" index target

theorem cycles_ge_four (operation : Operation) : 4 ≤ operation.cycles := by
  cases operation with
  | ret condition => cases condition <;> simp [cycles]
  | loadByte operand | shift _ operand | testBit _ operand | resetBit _ operand
  | setBit _ operand =>
      simp only [cycles]
      omega
  | _ => simp [cycles]

theorem cycles_le_twenty (operation : Operation) : operation.cycles ≤ 20 := by
  have slotBound : ∀ slot : Slot, slot.cycles ≤ 4 := by
    intro slot
    cases slot <;> simp [Slot.cycles]
  have indirectBound : ∀ indirect : Indirect, indirect.cycles ≤ 12 := by
    intro indirect
    cases indirect <;> simp [Indirect.cycles]
  cases operation with
  | load target source =>
      have := slotBound target
      have := slotBound source
      simp only [cycles]
      omega
  | loadByte operand | arithmetic _ operand | increment operand | decrement operand
  | shift _ operand | testBit _ operand | resetBit _ operand | setBit _ operand =>
      have := slotBound operand
      simp only [cycles]
      omega
  | loadA operand | storeA operand =>
      have := indirectBound operand
      simp only [cycles]
      omega
  | ret condition => cases condition <;> simp [cycles]
  | _ => simp [cycles]

end Operation

/-- An operation with the byte that encodes it; on the extended page it is the second byte. -/
structure Instruction where
  opcode : UInt8
  extended : Bool
  operation : Operation
deriving DecidableEq

end Dmg
