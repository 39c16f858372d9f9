import Dmg.Cpu.Alu
import Dmg.Cpu.State
import Dmg.Interrupt

/-!
The effects of operations and of taken branches on registers and memory.  Operand bytes are read
through the program counter in order; every access to the bus is made in the order in which the
processor makes it.
-/

namespace Dmg

namespace Wired

variable {β : Type}

@[inline] def registers (wired : Wired β) : Registers := wired.cpu.registers

@[inline] def mapRegisters (wired : Wired β) (change : Registers → Registers) : Wired β :=
  match wired with
  | ⟨cpu, bus⟩ => ⟨cpu.mapRegisters change, bus⟩

@[inline] def setRegisters (wired : Wired β) (registers : Registers) : Wired β :=
  wired.mapRegisters fun _ => registers

@[inline] def setFlags (wired : Wired β) (flags : Flags) : Wired β :=
  wired.mapRegisters fun registers => { registers with flags }

variable [Bus β]

@[inline] def read (wired : Wired β) (address : UInt16) : UInt8 × Wired β :=
  match wired with
  | ⟨cpu, bus⟩ =>
      let (value, bus) := Bus.read bus address
      (value, ⟨cpu, bus⟩)

@[inline] def write (wired : Wired β) (address : UInt16) (value : UInt8) : Wired β :=
  match wired with
  | ⟨cpu, bus⟩ => ⟨cpu, Bus.write bus address value⟩

def nextByte (wired : Wired β) : UInt8 × Wired β :=
  let (address, registers) := wired.registers.advance .pc
  (wired.setRegisters registers).read address

def nextWord (wired : Wired β) : UInt16 × Wired β :=
  let (low, wired) := wired.nextByte
  let (high, wired) := wired.nextByte
  (join high low, wired)

def pushByte (wired : Wired β) (value : UInt8) : Wired β :=
  let (_, registers) := wired.registers.retreat .sp
  (wired.setRegisters registers).write registers.sp value

def popByte (wired : Wired β) : UInt8 × Wired β :=
  let (address, registers) := wired.registers.advance .sp
  (wired.setRegisters registers).read address

def push (wired : Wired β) (value : UInt16) : Wired β :=
  (wired.pushByte (highByte value)).pushByte (lowByte value)

def pop (wired : Wired β) : UInt16 × Wired β :=
  let (low, wired) := wired.popByte
  let (high, wired) := wired.popByte
  (join high low, wired)

def loadSlot (wired : Wired β) : Slot → UInt8 × Wired β
  | .register register => (wired.registers.get register, wired)
  | .atHl => wired.read wired.registers.hl

def storeSlot (wired : Wired β) (slot : Slot) (value : UInt8) : Wired β :=
  match slot with
  | .register register => wired.mapRegisters (·.set register value)
  | .atHl => wired.write wired.registers.hl value

/-- Finds an indirect address.  Stepping HL happens here, after its old value is taken. -/
def address (wired : Wired β) : Indirect → UInt16 × Wired β
  | .bc => (wired.registers.bc, wired)
  | .de => (wired.registers.de, wired)
  | .hlIncrement =>
      let (address, registers) := wired.registers.advance .hl
      (address, wired.setRegisters registers)
  | .hlDecrement =>
      let (address, registers) := wired.registers.retreat .hl
      (address, wired.setRegisters registers)
  | .word => wired.nextWord
  | .highByte =>
      let (low, wired) := wired.nextByte
      (join 0xFF low, wired)
  | .highC => (join 0xFF wired.registers.c, wired)

def pending (wired : Wired β) : UInt8 × Wired β :=
  let (enabled, wired) := wired.read Interrupt.enableAddress
  let (requested, wired) := wired.read Interrupt.requestAddress
  (enabled &&& requested &&& Interrupt.allMask, wired)

def setHalted (wired : Wired β) : Wired β :=
  { wired with cpu.halted := true }

def setHaltBug (wired : Wired β) : Wired β :=
  { wired with cpu.haltBug := true }

/-- Waits for an interrupt.  If one is pending already and interrupts are off, the processor goes
on instead, and its next fetch does not advance. -/
def halt (wired : Wired β) : Wired β :=
  if wired.registers.ime then wired.setHalted
  else
    let (pending, wired) := wired.pending
    if pending = 0 then wired.setHalted else wired.setHaltBug

def setResult (wired : Wired β) (result : AluResult) : Wired β :=
  wired.mapRegisters fun registers => { registers with a := result.value, flags := result.flags }

def applyArithmetic (wired : Wired β) (operation : Arithmetic) (value : UInt8) : Wired β :=
  let registers := wired.registers
  wired.setResult (operation.apply registers.a value registers.flags.carry)

def modifySlot (wired : Wired β) (slot : Slot) (change : UInt8 → AluResult)
    (merge : Flags → Flags → Flags) : Wired β :=
  let flags := wired.registers.flags
  let (value, wired) := wired.loadSlot slot
  let result := change value
  (wired.storeSlot slot result.value).setFlags (merge flags result.flags)

def keepCarry (old new : Flags) : Flags := { new with carry := old.carry }

def keepZero (old new : Flags) : Flags := { new with zero := old.zero }

def branch (wired : Wired β) (condition : Option Condition) (jump : Jump) :
    Option Jump × Wired β :=
  (if wired.registers.holds condition then some jump else none, wired)

/-- The effect of an operation, and the late half of the branch if it takes one. -/
def execute (wired : Wired β) : Operation → Option Jump × Wired β
  | .nop => (none, wired)
  | .halt => (none, wired.halt)
  | .stop =>
      let (_, registers) := wired.registers.advance .pc
      (none, (wired.setRegisters registers).halt)
  | .disableInterrupts =>
      (none, { wired with cpu.registers.ime := false, cpu.enableDelay := 0 })
  | .enableInterrupts =>
      (none, if wired.registers.ime then wired else { wired with cpu.enableDelay := 2 })
  | .load target source =>
      let (value, wired) := wired.loadSlot source
      (none, wired.storeSlot target value)
  | .loadByte target =>
      let (value, wired) := wired.nextByte
      (none, wired.storeSlot target value)
  | .loadA source =>
      let (address, wired) := wired.address source
      let (value, wired) := wired.read address
      (none, wired.mapRegisters (·.set .a value))
  | .storeA target =>
      let value := wired.registers.a
      let (address, wired) := wired.address target
      (none, wired.write address value)
  | .loadPair target =>
      let (value, wired) := wired.nextWord
      (none, wired.mapRegisters (·.setPair target value))
  | .storeSp =>
      let (address, wired) := wired.nextWord
      let sp := wired.registers.sp
      (none, (wired.write address (lowByte sp)).write (address + 1) (highByte sp))
  | .loadSpHl =>
      (none, wired.mapRegisters fun registers => registers.setPair .sp registers.hl)
  | .loadHlSp =>
      let (offset, wired) := wired.nextByte
      let result := Alu.addOffset wired.registers.sp offset
      (none, (wired.mapRegisters (·.setPair .hl result.value)).setFlags result.flags)
  | .push source => (none, wired.push (wired.registers.getStackPair source))
  | .pop target =>
      let (value, wired) := wired.pop
      (none, wired.mapRegisters (·.setStackPair target value))
  | .arithmetic operation source =>
      let (value, wired) := wired.loadSlot source
      (none, wired.applyArithmetic operation value)
  | .arithmeticByte operation =>
      let (value, wired) := wired.nextByte
      (none, wired.applyArithmetic operation value)
  | .increment target => (none, wired.modifySlot target Alu.increment keepCarry)
  | .decrement target => (none, wired.modifySlot target Alu.decrement keepCarry)
  | .incrementPair target =>
      (none, wired.mapRegisters fun registers =>
        registers.setPair target (registers.getPair target + 1))
  | .decrementPair target =>
      (none, wired.mapRegisters fun registers =>
        registers.setPair target (registers.getPair target - 1))
  | .addHl source =>
      let registers := wired.registers
      let result := Alu.addWord registers.hl (registers.getPair source)
      (none, (wired.mapRegisters (·.setPair .hl result.value)).setFlags
        (keepZero registers.flags result.flags))
  | .addSp =>
      let (offset, wired) := wired.nextByte
      let result := Alu.addOffset wired.registers.sp offset
      (none, (wired.mapRegisters (·.setPair .sp result.value)).setFlags result.flags)
  | .rotateA rotation =>
      let registers := wired.registers
      let result := rotation.apply registers.a registers.flags.carry
      (none, wired.setResult { result with flags.zero := false })
  | .decimalAdjust =>
      (none, wired.setResult (Alu.decimalAdjust wired.registers.a wired.registers.flags))
  | .complement =>
      (none, wired.mapRegisters fun registers =>
        { registers with a := ~~~registers.a, flags.subtract := true, flags.halfCarry := true })
  | .setCarry =>
      (none, wired.setFlags { zero := wired.registers.flags.zero, carry := true })
  | .complementCarry =>
      let flags := wired.registers.flags
      (none, wired.setFlags { zero := flags.zero, carry := !flags.carry })
  | .jump condition =>
      let (target, wired) := wired.nextWord
      wired.branch condition (.goTo target)
  | .jumpHl => (none, wired.mapRegisters fun registers => { registers with pc := registers.hl })
  | .jumpRelative condition =>
      let (offset, wired) := wired.nextByte
      wired.branch condition (.goTo (displace wired.registers.pc offset))
  | .call condition =>
      let (target, wired) := wired.nextWord
      wired.branch condition (.call target)
  | .ret condition => wired.branch condition .ret
  | .retEnable => (some .retEnable, wired)
  | .restart index => (some (.call (restartVector index)), wired)
  | .shift kind target =>
      let carry := wired.registers.flags.carry
      (none, wired.modifySlot target (kind.apply · carry) fun _ new => new)
  | .testBit index source =>
      let flags := wired.registers.flags
      let (value, wired) := wired.loadSlot source
      (none, wired.setFlags (keepCarry flags (Alu.testBit index value)))
  | .resetBit index target =>
      let (value, wired) := wired.loadSlot target
      (none, wired.storeSlot target (Alu.resetBit index value))
  | .setBit index target =>
      let (value, wired) := wired.loadSlot target
      (none, wired.storeSlot target (Alu.setBit index value))

def land (wired : Wired β) : Jump → Wired β
  | .goTo target => { wired with cpu.registers.pc := target }
  | .call target =>
      let wired := wired.push wired.registers.pc
      { wired with cpu.registers.pc := target }
  | .ret =>
      let (target, wired) := wired.pop
      { wired with cpu.registers.pc := target }
  | .retEnable =>
      let (target, wired) := wired.pop
      { wired with cpu.registers.pc := target, cpu.registers.ime := true }

end Wired

end Dmg
