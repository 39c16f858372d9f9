import Dmg.Cpu.Query
import Dmg.Machine.Basic
import Dmg.Text.Address

/-!
The parts of the machine's state that can be asked for by name.  A path begins with the component
it belongs to; a path of the processor is also understood without that.
-/

namespace Dmg

/-- The rest of a path that lies below a component, such as `pc` of `cpu.pc`. -/
def below? (component path : String) : Option String :=
  (component.toList.isPrefixOf? path.toList).map String.ofList

namespace Machine

def displayReadings : Readings Machine :=
  [ ("mode", fun machine => .name machine.ppu.mode.name),
    ("ly", fun machine => .byte machine.space.mapped.line),
    ("stat", fun machine => .byte machine.space.mapped.status),
    ("lcdc", fun machine => .byte machine.space.mapped.control) ]

def clockReadings : Readings Machine :=
  [ ("master_clock", fun machine => .count machine.clock.cycles),
    ("frame_count", fun machine => .count machine.ppu.frames) ]

def query? (machine : Machine) (path : String) : Option Value :=
  match below? "cpu." path with
  | some rest => machine.cpu.query? rest
  | none =>
      match below? "ppu." path with
      | some rest => displayReadings.query? machine rest
      | none =>
          match below? "memory." path with
          | some rest => (parseAddress? rest).map fun address => .byte (machine.space.peek address)
          | none => (clockReadings.query? machine path).or (machine.cpu.query? path)

def paths : List String :=
  ["cpu.<sm83_paths>"] ++ displayReadings.paths.map ("ppu." ++ ·) ++ ["memory.<address>"] ++
    clockReadings.paths

end Machine

end Dmg
