import Dmg.Video.Background

/-!
What the painter leaves in a buffer.  After it every pixel has the bytes of its shade, whatever the
buffer held before, and nothing else is written.  A shade is read from video memory and two
registers only.
-/

namespace Dmg

def Shade.bytes (shade : Shade) : List UInt8 :=
  [shade.level, shade.level, shade.level, fullOpacity]

namespace Picture

def pixel (picture : Picture) (x y : Nat) : List UInt8 :=
  (picture.bytes.toList.drop (4 * (picture.width * y + x))).take 4

theorem getElem?_pixel {picture : Picture} {x y byte : Nat} (inside : byte < 4) :
    (picture.pixel x y)[byte]? = picture.bytes[4 * (picture.width * y + x) + byte]? := by
  rw [pixel, List.getElem?_take, if_pos inside, List.getElem?_drop, Array.getElem?_toList]

theorem pixel_eq {picture : Picture} {x y : Nat} {shade : Shade}
    (each : ∀ byte, byte < 4 →
      picture.bytes[4 * (picture.width * y + x) + byte]? = shade.bytes[byte]?) :
    picture.pixel x y = shade.bytes := by
  apply List.ext_getElem?
  intro byte
  by_cases inside : byte < 4
  · rw [getElem?_pixel inside, each byte inside]
  · have outside : shade.bytes[byte]? = none := List.getElem?_eq_none (Nat.le_of_not_lt inside)
    rw [pixel, List.getElem?_take, if_neg inside, outside]

end Picture

namespace Background

variable {background : Background}

/-- Exactly the pixels of a region are painted.  They are numbered row after row. -/
structure Painted (background : Background) (region : Nat → Prop) (before after : Array UInt8) :
    Prop where
  size : after.size = before.size
  inside : ∀ index, index < before.size → region (index / 4) → after[index]? =
    (background.shade (UInt8.ofNat (index / 4)) (UInt8.ofNat (index / 4 / 256))).bytes[index % 4]?
  outside : ∀ index, ¬ region (index / 4) → after[index]? = before[index]?

theorem Painted.congr {region other : Nat → Prop} {before after : Array UInt8}
    (painted : background.Painted region before after)
    (same : ∀ pixel, region pixel ↔ other pixel) :
    background.Painted other before after := by
  have equal : region = other := funext fun pixel => propext (same pixel)
  exact equal ▸ painted

theorem painted_fold {region : Nat → Nat → Prop} {step : Nat → Array UInt8 → Array UInt8}
    {count : Nat} (each : ∀ index, index < count → ∀ buffer,
      background.Painted (region index) buffer (step index buffer)) (buffer : Array UInt8) :
    background.Painted (fun pixel => ∃ index, index < count ∧ region index pixel) buffer
      (Nat.fold count (fun index _ buffer => step index buffer) buffer) := by
  induction count with
  | zero => exact ⟨rfl, fun _ _ ⟨_, bound, _⟩ => absurd bound (Nat.not_lt_zero _), fun _ _ => rfl⟩
  | succ count ih =>
      have first := ih fun index bound => each index (Nat.lt_succ_of_lt bound)
      have last := each count (Nat.lt_succ_self count)
        (Nat.fold count (fun index _ buffer => step index buffer) buffer)
      rw [Nat.fold_succ]
      constructor
      case size => exact last.size.trans first.size
      case inside =>
        intro place bound ⟨index, before, here⟩
        -- Where the last step paints too, it paints the same.
        by_cases latest : region count (place / 4)
        · exact last.inside place (first.size ▸ bound) latest
        · rw [last.outside place latest]
          have earlier : index ≠ count := fun same => latest (same ▸ here)
          exact first.inside place bound ⟨index, by omega, here⟩
      case outside =>
        intro place never
        rw [last.outside place fun here => never ⟨count, Nat.lt_succ_self count, here⟩]
        exact first.outside place fun ⟨index, bound, here⟩ =>
          never ⟨index, Nat.lt_succ_of_lt bound, here⟩

theorem ofNat_pixel (x y : Nat) : UInt8.ofNat (256 * y + x) = UInt8.ofNat x := by
  apply UInt8.toNat_inj.mp
  simp only [UInt8.toNat_ofNat']
  omega

theorem painted_pixel {x y : Nat} {shade : Shade} (narrow : x < 256)
    (own : background.shade (UInt8.ofNat x) (UInt8.ofNat y) = shade) (buffer : Array UInt8) :
    background.Painted (· = 256 * y + x) buffer (paintPixel buffer x y shade) := by
  constructor
  case size => simp only [paintPixel, Array.size_setIfInBounds]
  case inside =>
    intro index bound here
    have row : (256 * y + x) / 256 = y := by omega
    rw [here, ofNat_pixel, row, own]
    have place : index = 4 * (side * y + x) + index % 4 := by
      simp only [side]
      omega
    have four : index % 4 = 0 ∨ index % 4 = 1 ∨ index % 4 = 2 ∨ index % 4 = 3 := by omega
    rw [place] at bound
    generalize index % 4 = byte at place four bound
    rw [place]
    rcases four with rfl | rfl | rfl | rfl <;>
      simp [paintPixel, Shade.bytes, Array.getElem?_setIfInBounds, bound]
    exact bound
  case outside =>
    intro index elsewhere
    have apart : ∀ byte, byte < 4 → 4 * (side * y + x) + byte ≠ index := by
      simp only [side]
      omega
    simp only [paintPixel]
    rw [Array.getElem?_setIfInBounds_ne (apart 3 (by decide)),
      Array.getElem?_setIfInBounds_ne (apart 2 (by decide)),
      Array.getElem?_setIfInBounds_ne (apart 1 (by decide))]
    exact Array.getElem?_setIfInBounds_ne (apart 0 (by decide))

theorem shade_tile (on : background.enabled = true) {column row line dot : Nat}
    (columnBound : column < 32) (rowBound : row < 32) (lineBound : line < 8) (dotBound : dot < 8) :
    let tile := background.tileAddress (background.memory.get
      (background.mapAddress (UInt8.ofNat column) (UInt8.ofNat row)))
    background.shade (UInt8.ofNat (8 * column + dot)) (UInt8.ofNat (8 * row + line)) =
      background.colourShade (colour (background.memory.get (tile + 2 * UInt16.ofNat line))
        (background.memory.get (tile + 2 * UInt16.ofNat line + 1)) dot) := by
  intro tile
  have eighth : ∀ {cell part : Nat}, cell < 32 → part < 8 →
      UInt8.ofNat (8 * cell + part) / 8 = UInt8.ofNat cell ∧
        (UInt8.ofNat (8 * cell + part) % 8).toNat = part := by
    intro cell part cellBound partBound
    rw [← UInt8.toNat_inj, UInt8.toNat_div, UInt8.toNat_mod]
    simp only [UInt8.toNat_ofNat']
    change (8 * cell + part) % 256 / 8 = cell % 256 ∧ (8 * cell + part) % 256 % 8 = part
    omega
  obtain ⟨ofColumn, ofDot⟩ := eighth columnBound dotBound
  obtain ⟨ofRow, ofLine⟩ := eighth rowBound lineBound
  have word : (UInt8.ofNat (8 * row + line) % 8).toUInt16 = UInt16.ofNat line := by
    rw [← UInt16.toNat_inj, UInt8.toNat_toUInt16, ofLine, UInt16.toNat_ofNat']
    omega
  simp only [shade, on, if_true, ofColumn, ofRow, ofDot, word]
  rfl

theorem painted_tileRow (on : background.enabled = true) {column row line : Nat}
    (columnBound : column < 32) (rowBound : row < 32) (lineBound : line < 8)
    (buffer : Array UInt8) :
    background.Painted (fun pixel => pixel / 256 = 8 * row + line ∧ pixel % 256 / 8 = column) buffer
      (background.paintTileRow buffer (background.tileAddress (background.memory.get
        (background.mapAddress (UInt8.ofNat column) (UInt8.ofNat row)))) column row line) := by
  apply Painted.congr (painted_fold (fun dot dotBound buffer => painted_pixel (by omega)
    (shade_tile on columnBound rowBound lineBound dotBound) buffer) buffer)
  intro pixel
  constructor
  · rintro ⟨dot, dotBound, here⟩
    omega
  · intro here
    exact ⟨pixel % 8, by omega, by omega⟩

theorem painted_tile (on : background.enabled = true) {column row : Nat}
    (columnBound : column < 32) (rowBound : row < 32) (buffer : Array UInt8) :
    background.Painted (fun pixel => pixel / 2048 = row ∧ pixel % 256 / 8 = column) buffer
      (background.paintTile buffer column row) := by
  apply Painted.congr (painted_fold (fun line lineBound buffer =>
    painted_tileRow on columnBound rowBound lineBound buffer) buffer)
  intro pixel
  constructor
  · rintro ⟨line, lineBound, here⟩
    omega
  · intro here
    exact ⟨pixel / 256 % 8, by omega, by omega⟩

theorem painted_renderInto (on : background.enabled = true) (buffer : Array UInt8) :
    background.Painted (· < 65536) buffer (background.renderInto buffer) := by
  rw [renderInto, if_pos on]
  apply Painted.congr (painted_fold (fun row rowBound buffer => painted_fold
    (fun column columnBound buffer => painted_tile on columnBound rowBound buffer) buffer) buffer)
  intro pixel
  constructor
  · rintro ⟨row, rowBound, column, columnBound, here⟩
    omega
  · intro inside
    exact ⟨pixel / 2048, by omega, pixel % 256 / 8, by omega, rfl, rfl⟩

theorem shade_off (off : background.enabled = false) (x y : UInt8) :
    background.shade x y = .white := by
  simp only [shade, off, Bool.false_eq_true, if_false]

theorem getElem?_renderInto {buffer : Array UInt8} (room : 262144 ≤ buffer.size) {x y byte : Nat}
    (xBound : x < 256) (yBound : y < 256) (byteBound : byte < 4) :
    (background.renderInto buffer)[4 * (256 * y + x) + byte]? =
      (background.shade (UInt8.ofNat x) (UInt8.ofNat y)).bytes[byte]? := by
  cases on : background.enabled with
  | true =>
      have whole := (painted_renderInto on buffer).inside (4 * (256 * y + x) + byte) (by omega)
        (by omega)
      have pixel : (4 * (256 * y + x) + byte) / 4 = 256 * y + x := by omega
      have row : (256 * y + x) / 256 = y := by omega
      have own : (4 * (256 * y + x) + byte) % 4 = byte := by omega
      rwa [pixel, row, own, ofNat_pixel] at whole
  | false =>
      have inside : 4 * (256 * y + x) + byte < buffer.size := by omega
      rw [shade_off on, renderInto, if_neg (by simp [on]), Array.getElem?_map,
        Array.getElem?_eq_getElem inside]
      have four : byte = 0 ∨ byte = 1 ∨ byte = 2 ∨ byte = 3 := by omega
      rcases four with rfl | rfl | rfl | rfl <;> rfl

theorem size_renderInto (background : Background) (buffer : Array UInt8) :
    (background.renderInto buffer).size = buffer.size := by
  cases on : background.enabled with
  | true => exact (painted_renderInto on buffer).size
  | false => rw [renderInto, if_neg (by simp [on]), Array.size_map]

theorem getElem?_renderInto_of_lt {buffer : Array UInt8} (room : 262144 ≤ buffer.size)
    {index : Nat} (inside : index < 262144) :
    (background.renderInto buffer)[index]? =
      (background.shade (UInt8.ofNat (index / 4 % 256))
        (UInt8.ofNat (index / 1024))).bytes[index % 4]? := by
  have x : index / 4 % 256 < 256 := Nat.mod_lt _ (by decide)
  have y : index / 1024 < 256 := by omega
  have place : 4 * (256 * (index / 1024) + index / 4 % 256) + index % 4 = index := by omega
  have byte : (background.renderInto buffer)[_]? = _ :=
    getElem?_renderInto room x y (Nat.mod_lt index (by decide : 0 < 4))
  rwa [place] at byte

theorem pixel_picture {x y : Nat} (xBound : x < 256) (yBound : y < 256) :
    background.picture.pixel x y =
      (background.shade (UInt8.ofNat x) (UInt8.ofNat y)).bytes :=
  Picture.pixel_eq fun byte byteBound =>
    getElem?_renderInto (by simp [side]) xBound yBound byteBound

/-! What a shade is read from. -/

def InVideoMemory (address : UInt16) : Prop := 0x8000 ≤ address.toNat ∧ address.toNat < 0xA000

theorem toNat_mapBase (background : Background) : background.mapBase.toNat =
    if background.control &&& ControlBit.tileMap = 0 then 0x9800 else 0x9C00 := by
  rw [mapBase]
  split <;> rfl

theorem toNat_mapAddress (background : Background) {column row : UInt8}
    (columnBound : column.toNat < 32) (rowBound : row.toNat < 32) :
    (background.mapAddress column row).toNat =
      background.mapBase.toNat + 32 * row.toNat + column.toNat := by
  have base := background.toNat_mapBase
  have scale : (32 : UInt16).toNat = 32 := rfl
  simp only [mapAddress, UInt16.toNat_add, UInt16.toNat_mul, UInt8.toNat_toUInt16, scale]
  split at base <;> omega

theorem mapAddress_inVideoMemory (background : Background) (x y : UInt8) :
    InVideoMemory (background.mapAddress (x / 8) (y / 8)) := by
  have xBound := x.toNat_lt
  have yBound := y.toNat_lt
  have column : (x / 8).toNat = x.toNat / 8 := UInt8.toNat_div x 8
  have row : (y / 8).toNat = y.toNat / 8 := UInt8.toNat_div y 8
  have base := background.toNat_mapBase
  rw [InVideoMemory, toNat_mapAddress background (by omega) (by omega), column, row]
  split at base <;> omega

def signed (byte : UInt8) : Int := if byte.toNat < 128 then byte.toNat else byte.toNat - 256

theorem toNat_tileAddress (background : Background) (index : UInt8) :
    (background.tileAddress index).toNat =
      if background.control &&& ControlBit.tileData = 0 then
        ((0x9000 + signed index * 16) % 0x10000).toNat
      else 0x8000 + index.toNat * 16 := by
  have indexBound := index.toNat_lt
  have extended := toNat_signExtend index
  rw [tileAddress, signed]
  split
  · rw [UInt16.toNat_add, UInt16.toNat_mul, extended]
    change (0x9000 + 16 * _ % 65536) % 65536 = _
    split <;> omega
  · rw [UInt16.toNat_add, UInt16.toNat_mul, UInt8.toNat_toUInt16]
    change (0x8000 + 16 * _ % 65536) % 65536 = _
    omega

theorem tileAddress_bounds (background : Background) (index : UInt8) :
    0x8000 ≤ (background.tileAddress index).toNat ∧
      (background.tileAddress index).toNat ≤ 0x97F0 := by
  have indexBound := index.toNat_lt
  have address := background.toNat_tileAddress index
  rw [signed] at address
  split at address
  · split at address <;> omega
  · omega

theorem toNat_tileRow (background : Background) (index y : UInt8) :
    let row := background.tileAddress index + 2 * (y % 8).toUInt16
    row.toNat = (background.tileAddress index).toNat + 2 * (y.toNat % 8) ∧
      (row + 1).toNat = row.toNat + 1 := by
  have bounds := background.tileAddress_bounds index
  have line : (y % 8).toUInt16.toNat = y.toNat % 8 := UInt8.toNat_mod y 8
  have two : (2 : UInt16).toNat = 2 := rfl
  have one : (1 : UInt16).toNat = 1 := rfl
  simp only [UInt16.toNat_add, UInt16.toNat_mul, line, two, one]
  omega

theorem tileRow_inVideoMemory (background : Background) (index y : UInt8) :
    InVideoMemory (background.tileAddress index + 2 * (y % 8).toUInt16) ∧
      InVideoMemory (background.tileAddress index + 2 * (y % 8).toUInt16 + 1) := by
  have bounds := background.tileAddress_bounds index
  obtain ⟨low, high⟩ := background.toNat_tileRow index y
  rw [InVideoMemory, InVideoMemory, high, low]
  omega

theorem shade_congr {left right : Background}
    (memory : ∀ address, InVideoMemory address → left.memory.get address = right.memory.get address)
    (background : left.control &&& ControlBit.background = right.control &&& ControlBit.background)
    (tileMap : left.control &&& ControlBit.tileMap = right.control &&& ControlBit.tileMap)
    (tileData : left.control &&& ControlBit.tileData = right.control &&& ControlBit.tileData)
    (palette : left.palette = right.palette) (x y : UInt8) : left.shade x y = right.shade x y := by
  have enabled : left.enabled = right.enabled := by rw [Background.enabled, background]; rfl
  have place : left.mapAddress = right.mapAddress := by
    funext column row
    simp only [mapAddress, mapBase, tileMap]
  have tile : left.tileAddress = right.tileAddress := by
    funext index
    simp only [tileAddress, tileData]
  have tint : left.colourShade = right.colourShade := by
    funext colour
    simp only [colourShade, palette]
  have index := memory _ (right.mapAddress_inVideoMemory x y)
  have row := right.tileRow_inVideoMemory (right.memory.get (right.mapAddress (x / 8) (y / 8))) y
  simp only [shade, enabled, place, tile, tint, index, memory _ row.1, memory _ row.2]

end Background

end Dmg
