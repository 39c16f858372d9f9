/-!
The four shades of the display, and pictures made of them as rows of red, green, blue and opacity
bytes.
-/

namespace Dmg

inductive Shade
  | white | light | dark | black
deriving DecidableEq, Inhabited

namespace Shade

def ofField (field : Fin 4) : Shade :=
  match field with
  | 0 => white
  | 1 => light
  | 2 => dark
  | 3 => black

def level : Shade → UInt8
  | white => 255
  | light => 170
  | dark => 85
  | black => 0

end Shade

/-- A picture of opaque grey pixels, four bytes each, row after row. -/
structure Picture where
  width : Nat
  height : Nat
  bytes : Array UInt8
deriving DecidableEq

def fullOpacity : UInt8 := 0xFF

structure Frame where
  rows : Vector (Vector Shade 160) 144
deriving DecidableEq

namespace Frame

def width : Nat := 160

def height : Nat := 144

def blank : Frame := ⟨Vector.replicate 144 (Vector.replicate 160 .white)⟩

instance : Inhabited Frame := ⟨blank⟩

def setRow (frame : Frame) (row : Nat) (pixels : Vector Shade 160) : Frame :=
  match frame with
  | ⟨rows⟩ => ⟨rows.setIfInBounds row pixels⟩

def pushPixel (bytes : Array UInt8) (shade : Shade) : Array UInt8 :=
  (((bytes.push shade.level).push shade.level).push shade.level).push fullOpacity

def picture (frame : Frame) : Picture where
  width := width
  height := height
  bytes := frame.rows.foldl (fun bytes row => row.foldl pushPixel bytes)
    (Array.mkEmpty (4 * width * height))

end Frame

end Dmg
