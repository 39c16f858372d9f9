import Dmg.Interrupt

/-!
The display and interrupt registers that lie over memory, each at an address of its own, and what a
read or write of one does.  The status register is one byte that different hands write to: a program
has the selects, the display has the mode, and the comparison of the two line registers is brought
up to date whenever one of those changes.
-/

namespace Dmg

inductive MappedRegister
  | control | status | scrollY | scrollX | line | lineCompare
  | palette | objectPalette0 | objectPalette1 | windowY | windowX
  | requested | enabled
deriving DecidableEq

namespace MappedRegister

def address : MappedRegister → UInt16
  | control => 0xFF40
  | status => 0xFF41
  | scrollY => 0xFF42
  | scrollX => 0xFF43
  | line => 0xFF44
  | lineCompare => 0xFF45
  | palette => 0xFF47
  | objectPalette0 => 0xFF48
  | objectPalette1 => 0xFF49
  | windowY => 0xFF4A
  | windowX => 0xFF4B
  | requested => Interrupt.requestAddress
  | enabled => Interrupt.enableAddress

def ofAddress? (address : UInt16) : Option MappedRegister :=
  match address with
  | 0xFF0F => some requested
  | 0xFF40 => some control
  | 0xFF41 => some status
  | 0xFF42 => some scrollY
  | 0xFF43 => some scrollX
  | 0xFF44 => some line
  | 0xFF45 => some lineCompare
  | 0xFF47 => some palette
  | 0xFF48 => some objectPalette0
  | 0xFF49 => some objectPalette1
  | 0xFF4A => some windowY
  | 0xFF4B => some windowX
  | 0xFFFF => some enabled
  | _ => none

theorem ofAddress?_eq_some_iff (place : UInt16) (register : MappedRegister) :
    ofAddress? place = some register ↔ register.address = place := by
  constructor
  · intro found
    simp only [ofAddress?] at found
    split at found <;> cases found <;> rfl
  · intro same
    subst same
    cases register <;> rfl

end MappedRegister

-- The bits of the control register.
namespace ControlBit

def enable : UInt8 := 0x80

def tileData : UInt8 := 0x10

def tileMap : UInt8 := 0x08

def background : UInt8 := 0x01

end ControlBit

-- The bits of the status register.
namespace StatusBit

def lineSelect : UInt8 := 0x40

def oamSelect : UInt8 := 0x20

def vblankSelect : UInt8 := 0x10

def hblankSelect : UInt8 := 0x08

def coincidence : UInt8 := 0x04

def mode : UInt8 := 0x03

/-- The bits that a program sets: which events of the display request an interrupt. -/
def writable : UInt8 := 0x78

/-- The bits that a program cannot set: how the display stands. -/
def reported : UInt8 := 0x07

/-- The bit that has no meaning and reads as one. -/
def unused : UInt8 := 0x80

end StatusBit

structure Mapped where
  control : UInt8
  /-- The status register as it is kept.  It is read with the unused bit set, whatever is here. -/
  statusByte : UInt8
  scrollY : UInt8
  scrollX : UInt8
  line : UInt8
  lineCompare : UInt8
  palette : UInt8
  objectPalette0 : UInt8
  objectPalette1 : UInt8
  windowY : UInt8
  windowX : UInt8
  requested : UInt8
  enabled : UInt8
deriving DecidableEq

namespace Mapped

def coincidence (mapped : Mapped) : Bool := mapped.statusByte &&& StatusBit.coincidence != 0

def status (mapped : Mapped) : UInt8 := mapped.statusByte ||| StatusBit.unused

def updateCoincidence (mapped : Mapped) : Mapped :=
  { mapped with
    statusByte :=
      if mapped.line = mapped.lineCompare then mapped.statusByte ||| StatusBit.coincidence
      else mapped.statusByte &&& ~~~StatusBit.coincidence }

def powerOn : Mapped :=
  updateCoincidence {
    control := 0x91
    statusByte := StatusBit.unused ||| 0x02
    scrollY := 0
    scrollX := 0
    line := 0
    lineCompare := 0
    palette := 0xFC
    objectPalette0 := 0
    objectPalette1 := 0
    windowY := 0
    windowX := 0
    requested := 0
    enabled := 0 }

instance : Inhabited Mapped := ⟨powerOn⟩

def read (mapped : Mapped) : MappedRegister → UInt8
  | .control => mapped.control
  | .status => mapped.status
  | .scrollY => mapped.scrollY
  | .scrollX => mapped.scrollX
  | .line => mapped.line
  | .lineCompare => mapped.lineCompare
  | .palette => mapped.palette
  | .objectPalette0 => mapped.objectPalette0
  | .objectPalette1 => mapped.objectPalette1
  | .windowY => mapped.windowY
  | .windowX => mapped.windowX
  | .requested => mapped.requested
  | .enabled => mapped.enabled

def setLine (mapped : Mapped) (line : UInt8) : Mapped :=
  { mapped with line }.updateCoincidence

def setMode (mapped : Mapped) (code : UInt8) : Mapped :=
  { mapped with
    statusByte := mapped.statusByte &&& ~~~StatusBit.mode ||| code &&& StatusBit.mode }

def write (mapped : Mapped) (register : MappedRegister) (value : UInt8) : Mapped :=
  match register with
  | .control => { mapped with control := value }
  | .status =>
      { mapped with
        statusByte := StatusBit.unused ||| mapped.statusByte &&& StatusBit.reported |||
          value &&& StatusBit.writable }
  | .scrollY => { mapped with scrollY := value }
  | .scrollX => { mapped with scrollX := value }
  | .line => mapped.setLine value
  | .lineCompare => { mapped with lineCompare := value }.updateCoincidence
  | .palette => { mapped with palette := value }
  | .objectPalette0 => { mapped with objectPalette0 := value }
  | .objectPalette1 => { mapped with objectPalette1 := value }
  | .windowY => { mapped with windowY := value }
  | .windowX => { mapped with windowX := value }
  | .requested => { mapped with requested := value }
  | .enabled => { mapped with enabled := value }

def request (mapped : Mapped) (interrupt : Interrupt) : Mapped :=
  { mapped with requested := mapped.requested ||| interrupt.mask }

end Mapped

end Dmg
