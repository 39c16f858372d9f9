/-!
The five interrupt sources.  Each has a bit in the request and enable registers and a vector that
the processor jumps to; a source of a lower bit goes before one of a higher bit.
-/

namespace Dmg

inductive Interrupt
  | vblank | lcdStat | timer | serial | joypad
deriving DecidableEq

namespace Interrupt

def enableAddress : UInt16 := 0xFFFF

def requestAddress : UInt16 := 0xFF0F

/-- All sources, the most urgent first. -/
def all : List Interrupt := [vblank, lcdStat, timer, serial, joypad]

def index : Interrupt → Fin 5
  | vblank => 0
  | lcdStat => 1
  | timer => 2
  | serial => 3
  | joypad => 4

def mask (interrupt : Interrupt) : UInt8 := 1 <<< UInt8.ofNat interrupt.index.val

def vector (interrupt : Interrupt) : UInt16 := 0x40 + 8 * UInt16.ofNat interrupt.index.val

def allMask : UInt8 := 0x1F

def first? (requests : UInt8) : Option Interrupt :=
  all.find? fun interrupt => requests &&& interrupt.mask != 0

end Interrupt

end Dmg
