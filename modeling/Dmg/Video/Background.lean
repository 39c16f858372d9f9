import Dmg.Memory.AddressSpace
import Dmg.Video.Shade
import Dmg.Word

/-!
The background layer: 256 by 256 pixels made of tiles of 8 by 8.  `shade` says what each pixel is;
`renderInto` paints all of them into a buffer tile by tile.
-/

namespace Dmg

/-- All that the background depends on, taken at one moment. -/
structure Background where
  memory : Ram
  control : UInt8
  palette : UInt8
deriving DecidableEq

namespace Background

def side : Nat := 256

def blank : Background := ⟨.zero, 0, 0⟩

def ofSpace (space : AddressSpace) : Background :=
  ⟨space.ram, space.mapped.control, space.mapped.palette⟩

def enabled (background : Background) : Bool :=
  background.control &&& ControlBit.background != 0

def mapBase (background : Background) : UInt16 :=
  if background.control &&& ControlBit.tileMap = 0 then 0x9800 else 0x9C00

/-- Where the sixteen bytes of a tile begin.  Tile numbers count either from the start of video
memory or, as signed bytes, from the end of its first two thirds. -/
def tileAddress (background : Background) (index : UInt8) : UInt16 :=
  if background.control &&& ControlBit.tileData = 0 then 0x9000 + 16 * signExtend index
  else 0x8000 + 16 * index.toUInt16

def mapAddress (background : Background) (column row : UInt8) : UInt16 :=
  background.mapBase + 32 * row.toUInt16 + column.toUInt16

/-- The colour number of a pixel in a tile row, from the row's two bytes.  The leftmost pixel is in
the highest bit. -/
def colour (low high : UInt8) (column : Nat) : Fin 4 :=
  let bit := 7 - column
  ⟨2 * (high.toNat.testBit bit).toNat + (low.toNat.testBit bit).toNat, by
    have highBit := Bool.toNat_lt (high.toNat.testBit bit)
    have lowBit := Bool.toNat_lt (low.toNat.testBit bit)
    omega⟩

def colourShade (background : Background) (colour : Fin 4) : Shade :=
  .ofField ⟨(background.palette.toNat >>> (2 * colour.val)) % 4, Nat.mod_lt _ (by decide)⟩

def shade (background : Background) (x y : UInt8) : Shade :=
  if background.enabled then
    let index := background.memory.get (background.mapAddress (x / 8) (y / 8))
    let row := background.tileAddress index + 2 * (y % 8).toUInt16
    let low := background.memory.get row
    let high := background.memory.get (row + 1)
    background.colourShade (colour low high (x % 8).toNat)
  else .white

def paintPixel (buffer : Array UInt8) (x y : Nat) (shade : Shade) : Array UInt8 :=
  let offset := 4 * (side * y + x)
  (((buffer.setIfInBounds offset shade.level).setIfInBounds (offset + 1) shade.level).setIfInBounds
    (offset + 2) shade.level).setIfInBounds (offset + 3) fullOpacity

def paintTileRow (background : Background) (buffer : Array UInt8) (tile : UInt16)
    (column row line : Nat) : Array UInt8 :=
  let low := background.memory.get (tile + 2 * UInt16.ofNat line)
  let high := background.memory.get (tile + 2 * UInt16.ofNat line + 1)
  Nat.fold 8 (fun dot _ buffer =>
    paintPixel buffer (8 * column + dot) (8 * row + line)
      (background.colourShade (colour low high dot))) buffer

def paintTile (background : Background) (buffer : Array UInt8) (column row : Nat) : Array UInt8 :=
  let index := background.memory.get
    (background.mapAddress (UInt8.ofNat column) (UInt8.ofNat row))
  let tile := background.tileAddress index
  Nat.fold 8 (fun line _ buffer => background.paintTileRow buffer tile column row line) buffer

/-- Paints the background into a buffer.  A background that is switched off whitens the buffer to
its end; otherwise only the bytes of its pixels are written. -/
def renderInto (background : Background) (buffer : Array UInt8) : Array UInt8 :=
  if background.enabled then
    Nat.fold 32 (fun row _ buffer =>
      Nat.fold 32 (fun column _ buffer => background.paintTile buffer column row) buffer) buffer
  else buffer.map fun _ => 0xFF

def picture (background : Background) : Picture where
  width := side
  height := side
  bytes := background.renderInto (Array.replicate (4 * side * side) 0)

def viewportRow (background : Background) (scrollX y : UInt8) : Vector Shade 160 :=
  Vector.ofFn fun x => background.shade (UInt8.ofNat x.val + scrollX) y

end Background

end Dmg
