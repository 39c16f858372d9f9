import Dmg.Cpu.State
import Dmg.Value

/-!
The parts of the processor's state that can be asked for by name.
-/

namespace Dmg

namespace Cpu

def readings : Readings Cpu :=
  [ ("a", fun cpu => .byte cpu.registers.a),
    ("f", fun cpu => .byte cpu.registers.f),
    ("b", fun cpu => .byte cpu.registers.b),
    ("c", fun cpu => .byte cpu.registers.c),
    ("d", fun cpu => .byte cpu.registers.d),
    ("e", fun cpu => .byte cpu.registers.e),
    ("h", fun cpu => .byte cpu.registers.h),
    ("l", fun cpu => .byte cpu.registers.l),
    ("af", fun cpu => .word cpu.registers.af),
    ("bc", fun cpu => .word cpu.registers.bc),
    ("de", fun cpu => .word cpu.registers.de),
    ("hl", fun cpu => .word cpu.registers.hl),
    ("sp", fun cpu => .word cpu.registers.sp),
    ("pc", fun cpu => .word cpu.registers.pc),
    ("flags.z", fun cpu => .flag cpu.registers.flags.zero),
    ("flags.n", fun cpu => .flag cpu.registers.flags.subtract),
    ("flags.h", fun cpu => .flag cpu.registers.flags.halfCarry),
    ("flags.c", fun cpu => .flag cpu.registers.flags.carry),
    ("ime", fun cpu => .flag cpu.registers.ime),
    ("halted", fun cpu => .flag cpu.halted),
    ("ticks", fun cpu => .count cpu.clock.cycles) ]

def paths : List String :=
  [ "a", "f", "b", "c", "d", "e", "h", "l",
    "af", "bc", "de", "hl", "sp", "pc",
    "flags.z", "flags.n", "flags.h", "flags.c",
    "ime", "halted", "ticks" ]

def query? (cpu : Cpu) (path : String) : Option Value := readings.query? cpu path

theorem paths_readings : readings.paths = paths := rfl

theorem query?_isSome_iff (cpu : Cpu) (path : String) :
    (cpu.query? path).isSome ↔ path ∈ paths := by
  rw [← paths_readings]
  exact readings.query?_isSome_iff cpu path

end Cpu

end Dmg
