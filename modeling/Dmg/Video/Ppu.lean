import Dmg.Video.Background

/-!
The picture processor, cycle by cycle.  A frame is 154 lines of 456 cycles; each of the first 144
goes through three modes, and the rest are the vertical blank.  The processor keeps its own line
number and only publishes it, so what a program writes to the line register does not disturb it.
-/

namespace Dmg

inductive Mode
  | hblank | vblank | oamScan | drawing
deriving DecidableEq, Inhabited

namespace Mode

def all : List Mode := [hblank, vblank, oamScan, drawing]

def cycles : Mode → Nat
  | oamScan => 80
  | drawing => 172
  | hblank => 204
  | vblank => 456

def code : Mode → UInt8
  | hblank => 0
  | vblank => 1
  | oamScan => 2
  | drawing => 3

def name : Mode → String
  | hblank => "hblank"
  | vblank => "vblank"
  | oamScan => "oam_scan"
  | drawing => "drawing"

end Mode

structure Ppu where
  mode : Mode := .oamScan
  /-- The cycles left in the mode or, in the vertical blank, in the line. -/
  remaining : Nat := 80
  line : Nat := 0
  /-- The frames finished so far. -/
  frames : Nat := 0
  /-- The background as of the last line drawn. -/
  background : Background := .blank
  frame : Frame := .blank

namespace Ppu

def cyclesPerLine : Nat := 456

def linesPerFrame : Nat := 154

def visibleLines : Nat := 144

def cyclesPerFrame : Nat := cyclesPerLine * linesPerFrame

instance : Inhabited Ppu := ⟨{}⟩

def selected (space : AddressSpace) (bit : UInt8) : Bool :=
  space.mapped.status &&& bit != 0

def requestIf (space : AddressSpace) (condition : Bool) (interrupt : Interrupt) : AddressSpace :=
  if condition then space.request interrupt else space

/-- The requests that entering a mode makes.  The vertical blank always has its own, and the status
register can add the display's. -/
def announce (space : AddressSpace) : Mode → AddressSpace
  | .hblank => requestIf space (selected space StatusBit.hblankSelect) .lcdStat
  | .vblank =>
      let space := space.request .vblank
      requestIf space (selected space StatusBit.vblankSelect) .lcdStat
  | .oamScan => requestIf space (selected space StatusBit.oamSelect) .lcdStat
  | .drawing => space

def enter (ppu : Ppu) (mode : Mode) (space : AddressSpace) : Ppu × AddressSpace :=
  ({ ppu with mode, remaining := mode.cycles }, announce (space.setMode mode.code) mode)

def setLine (ppu : Ppu) (line : Nat) (space : AddressSpace) : Ppu × AddressSpace :=
  let space := space.setLine (UInt8.ofNat line)
  let matched := space.mapped.coincidence && selected space StatusBit.lineSelect
  ({ ppu with line }, requestIf space matched .lcdStat)

def draw (ppu : Ppu) (space : AddressSpace) : Ppu :=
  match ppu with
  | ⟨mode, remaining, line, frames, _, frame⟩ =>
      let background := Background.ofSpace space
      let y := UInt8.ofNat line + space.mapped.scrollY
      ⟨mode, remaining, line, frames, background,
        frame.setRow line (background.viewportRow space.mapped.scrollX y)⟩

def next (ppu : Ppu) (space : AddressSpace) : Ppu × AddressSpace :=
  match ppu.mode with
  | .oamScan =>
      let (ppu, space) := ppu.enter .drawing space
      (ppu.draw space, space)
  | .drawing =>
      let finished := if ppu.line + 1 = visibleLines then 1 else 0
      { ppu with frames := ppu.frames + finished }.enter .hblank space
  | .hblank =>
      let (ppu, space) := ppu.setLine (ppu.line + 1) space
      ppu.enter (if ppu.line = visibleLines then .vblank else .oamScan) space
  | .vblank =>
      if ppu.line + 1 = linesPerFrame then
        let (ppu, space) := ppu.setLine 0 space
        ppu.enter .oamScan space
      else { ppu with remaining := cyclesPerLine }.setLine (ppu.line + 1) space

/-- Advances by one cycle.  Nothing happens while the display is off. -/
def tick (ppu : Ppu) (space : AddressSpace) : Ppu × AddressSpace :=
  if space.lcdEnabled then
    if 1 < ppu.remaining then ({ ppu with remaining := ppu.remaining - 1 }, space)
    else ppu.next space
  else (ppu, space)

end Ppu

end Dmg
