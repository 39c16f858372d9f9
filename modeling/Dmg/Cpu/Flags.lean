/-!
The processor's four flags and their place in the flag byte.  The low four bits of that byte have
no storage: they read as zero and are dropped when the byte is written.
-/

namespace Dmg

structure Flags where
  zero : Bool := false
  subtract : Bool := false
  halfCarry : Bool := false
  carry : Bool := false
deriving DecidableEq, Inhabited

namespace Flags

def zeroMask : UInt8 := 0x80

def subtractMask : UInt8 := 0x40

def halfCarryMask : UInt8 := 0x20

def carryMask : UInt8 := 0x10

def toByte (flags : Flags) : UInt8 :=
  (if flags.zero then zeroMask else 0) ||| (if flags.subtract then subtractMask else 0) |||
    (if flags.halfCarry then halfCarryMask else 0) ||| (if flags.carry then carryMask else 0)

def ofByte (byte : UInt8) : Flags where
  zero := byte &&& zeroMask != 0
  subtract := byte &&& subtractMask != 0
  halfCarry := byte &&& halfCarryMask != 0
  carry := byte &&& carryMask != 0

def test (flags : Flags) (mask : UInt8) : Bool :=
  flags.toByte &&& mask != 0

def assign (flags : Flags) (mask : UInt8) (on : Bool) : Flags :=
  if on then ofByte (flags.toByte ||| mask) else ofByte (flags.toByte &&& ~~~mask)

@[simp] theorem ofByte_toByte (flags : Flags) : ofByte flags.toByte = flags := by
  obtain ⟨zero, subtract, halfCarry, carry⟩ := flags
  cases zero <;> cases subtract <;> cases halfCarry <;> cases carry <;> decide

theorem toByte_low (flags : Flags) : flags.toByte &&& 0x0F = 0 := by
  obtain ⟨zero, subtract, halfCarry, carry⟩ := flags
  cases zero <;> cases subtract <;> cases halfCarry <;> cases carry <;> decide

end Flags

end Dmg
