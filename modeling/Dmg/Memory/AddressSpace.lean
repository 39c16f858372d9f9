import Dmg.Memory.MappedRegister
import Dmg.Memory.Ram

/-!
The console's address space: flat memory with the mapped registers laid over it.  The memory under
a mapped register is never touched.  There are no banks: the cartridge image lies in memory from
address zero on, and a program can write over it.
-/

namespace Dmg

structure AddressSpace where
  ram : Ram := .zero
  mapped : Mapped := .powerOn
  /-- Every byte sent over the serial line since listening began, if it is on. -/
  serial : Option (Array UInt8) := none
deriving DecidableEq, Inhabited

namespace AddressSpace

/-- Bytes written here go out over the serial line and are not stored. -/
def serialAddress : UInt16 := 0xFF01

def peek (space : AddressSpace) (address : UInt16) : UInt8 :=
  match MappedRegister.ofAddress? address with
  | some register => space.mapped.read register
  | none => space.ram.get address

def send (space : AddressSpace) (value : UInt8) : AddressSpace :=
  match space with
  | ⟨ram, mapped, serial⟩ => ⟨ram, mapped, serial.map (·.push value)⟩

@[inline] def mapMapped (space : AddressSpace) (change : Mapped → Mapped) : AddressSpace :=
  match space with
  | ⟨ram, mapped, serial⟩ => ⟨ram, change mapped, serial⟩

@[inline] def mapRam (space : AddressSpace) (change : Ram → Ram) : AddressSpace :=
  match space with
  | ⟨ram, mapped, serial⟩ => ⟨change ram, mapped, serial⟩

def write (space : AddressSpace) (address : UInt16) (value : UInt8) : AddressSpace :=
  if address = serialAddress then space.send value
  else
    match MappedRegister.ofAddress? address with
    | some register => space.mapMapped (·.write register value)
    | none => space.mapRam (·.set address value)

instance : Bus AddressSpace where
  read space address := (space.peek address, space)
  write := write

@[simp] theorem read_eq (space : AddressSpace) (address : UInt16) :
    Bus.read space address = (space.peek address, space) := rfl

@[simp] theorem write_eq (space : AddressSpace) (address : UInt16) (value : UInt8) :
    Bus.write space address value = space.write address value := rfl

def writeAll (space : AddressSpace) (address : UInt16) : List UInt8 → AddressSpace
  | [] => space
  | byte :: rest => (space.write address byte).writeAll (address + 1) rest

/-- Copies an image into memory from address zero on, up to the end of memory.  Mapped registers
keep their contents. -/
def loadImage (space : AddressSpace) (image : List UInt8) : AddressSpace :=
  space.mapRam (·.load 0 (image.take 0x10000))

def dump (space : AddressSpace) (address : UInt16) : Nat → List UInt8
  | 0 => []
  | count + 1 => space.peek address :: space.dump (address + 1) count

def listen (space : AddressSpace) : AddressSpace := { space with serial := some #[] }

def takeSerial (space : AddressSpace) : Array UInt8 × AddressSpace :=
  (space.serial.getD #[], { space with serial := space.serial.map fun _ => #[] })

def lcdEnabled (space : AddressSpace) : Bool :=
  space.mapped.control &&& ControlBit.enable != 0

def setLine (space : AddressSpace) (line : UInt8) : AddressSpace :=
  space.mapMapped (·.setLine line)

def setMode (space : AddressSpace) (code : UInt8) : AddressSpace :=
  space.mapMapped (·.setMode code)

def request (space : AddressSpace) (interrupt : Interrupt) : AddressSpace :=
  space.mapMapped (·.request interrupt)

end AddressSpace

end Dmg
