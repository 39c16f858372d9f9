import Dmg.Cpu.Operation

/-!
Decoding of opcode bytes.  A byte is cut into a quadrant of two bits, a middle field of three and a
low field of three; in some groups the middle field is itself a pair selector and one more bit.
-/

namespace Dmg

def extendedOpcode : UInt8 := 0xCB

def pairField (middle : Fin 8) : Fin 4 :=
  ⟨middle.val / 2, by omega⟩

def conditionField (middle : Fin 8) : Fin 4 :=
  ⟨middle.val % 4, by omega⟩

def upperGroup (middle : Fin 8) : Bool := middle.val % 2 == 1

def Indirect.ofField (field : Fin 4) : Indirect :=
  match field with
  | 0 => .bc
  | 1 => .de
  | 2 => .hlIncrement
  | 3 => .hlDecrement

def accumulatorOperation (middle : Fin 8) : Operation :=
  match middle with
  | 0 => .rotateA .leftCircular
  | 1 => .rotateA .rightCircular
  | 2 => .rotateA .left
  | 3 => .rotateA .right
  | 4 => .decimalAdjust
  | 5 => .complement
  | 6 => .setCarry
  | 7 => .complementCarry

def decodeFirst (middle low : Fin 8) : Operation :=
  match low with
  | 0 =>
      match middle with
      | 0 => .nop
      | 1 => .storeSp
      | 2 => .stop
      | 3 => .jumpRelative none
      | _ => .jumpRelative (some (.ofField (conditionField middle)))
  | 1 =>
      if upperGroup middle then .addHl (.ofField (pairField middle))
      else .loadPair (.ofField (pairField middle))
  | 2 =>
      if upperGroup middle then .loadA (.ofField (pairField middle))
      else .storeA (.ofField (pairField middle))
  | 3 =>
      if upperGroup middle then .decrementPair (.ofField (pairField middle))
      else .incrementPair (.ofField (pairField middle))
  | 4 => .increment (.ofField middle)
  | 5 => .decrement (.ofField middle)
  | 6 => .loadByte (.ofField middle)
  | 7 => accumulatorOperation middle

def decodeLoad (middle low : Fin 8) : Operation :=
  if middle = 6 ∧ low = 6 then .halt else .load (.ofField middle) (.ofField low)

def decodeLast (middle low : Fin 8) : Option Operation :=
  match low with
  | 0 =>
      match middle with
      | 4 => some (.storeA .highByte)
      | 5 => some .addSp
      | 6 => some (.loadA .highByte)
      | 7 => some .loadHlSp
      | _ => some (.ret (some (.ofField (conditionField middle))))
  | 1 =>
      match middle with
      | 1 => some (.ret none)
      | 3 => some .retEnable
      | 5 => some .jumpHl
      | 7 => some .loadSpHl
      | _ => some (.pop (.ofField (pairField middle)))
  | 2 =>
      match middle with
      | 4 => some (.storeA .highC)
      | 5 => some (.storeA .word)
      | 6 => some (.loadA .highC)
      | 7 => some (.loadA .word)
      | _ => some (.jump (some (.ofField (conditionField middle))))
  | 3 =>
      match middle with
      | 0 => some (.jump none)
      | 6 => some .disableInterrupts
      | 7 => some .enableInterrupts
      | _ => none
  | 4 =>
      if middle < 4 then some (.call (some (.ofField (conditionField middle)))) else none
  | 5 =>
      match middle with
      | 1 => some (.call none)
      | 3 | 5 | 7 => none
      | _ => some (.push (.ofField (pairField middle)))
  | 6 => some (.arithmeticByte (.ofField middle))
  | 7 => some (.restart middle)

/-- The operation of a single opcode byte.  Eleven bytes have none, and neither has the byte that
announces the extended page. -/
def decode? (opcode : UInt8) : Option Operation :=
  let middle := octalField opcode 3
  let low := octalField opcode 0
  if opcode < 0x40 then some (decodeFirst middle low)
  else if opcode < 0x80 then some (decodeLoad middle low)
  else if opcode < 0xC0 then some (.arithmetic (.ofField middle) (.ofField low))
  else decodeLast middle low

def decodeExtended (opcode : UInt8) : Operation :=
  let middle := octalField opcode 3
  let operand := Slot.ofField (octalField opcode 0)
  if opcode < 0x40 then .shift (.ofField middle) operand
  else if opcode < 0x80 then .testBit middle operand
  else if opcode < 0xC0 then .resetBit middle operand
  else .setBit middle operand

def Instruction.base? (opcode : UInt8) : Option Instruction :=
  (decode? opcode).map fun operation => { opcode, extended := false, operation }

def Instruction.ofExtended (opcode : UInt8) : Instruction :=
  { opcode, extended := true, operation := decodeExtended opcode }

theorem decode?_extendedOpcode : decode? extendedOpcode = none := rfl

end Dmg
