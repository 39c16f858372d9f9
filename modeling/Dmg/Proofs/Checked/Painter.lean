import Dmg.Proofs.Checked.Arithmetic
import Dmg.Proofs.FrameHistory

/-!
The painting of the background and the copying of a line of it, with every number checked: sums,
products and shifts, the addresses in video memory and the places in the two buffers.  All checks
pass, whatever the memory and the registers hold.
-/

namespace Dmg

open Checked

namespace Checked

def fitSigned (bits : Nat) (value : Int) : Option Int :=
  if -2 ^ (bits - 1) ≤ value ∧ value < 2 ^ (bits - 1) then some value else none

def each {α : Type} (step : Nat → α → Option α) (start : α) : Nat → Option α
  | 0 => some start
  | count + 1 => (each step start count).bind (step count)

/-- Steps that pass their checks, as long as each leaves what the next relies on. -/
theorem each_eq {α : Type} (keeps : α → Prop) {step? : Nat → α → Option α} {step : Nat → α → α}
    {count : Nat} (passes : ∀ index < count, ∀ value, keeps value →
      step? index value = some (step index value) ∧ keeps (step index value))
    {start : α} (kept : keeps start) :
    each step? start count = some (Nat.fold count (fun index _ value => step index value) start) ∧
      keeps (Nat.fold count (fun index _ value => step index value) start) := by
  induction count with
  | zero => exact ⟨rfl, kept⟩
  | succ count ih =>
      obtain ⟨before, still⟩ := ih fun index early => passes index (Nat.lt_succ_of_lt early)
      rw [Nat.fold_succ, each, before, Option.bind_some]
      exact passes count (Nat.lt_succ_self count) _ still

def offset? (width x y : Nat) : Option Nat := do
  let row ← product 64 y width
  let pixel ← sum 64 row x
  product 64 pixel 4

def write? (buffer : Array UInt8) (offset : Nat) (red green blue opacity : UInt8) :
    Option (Array UInt8) :=
  if offset + 4 ≤ buffer.size then
    some ((((buffer.setIfInBounds offset red).setIfInBounds (offset + 1) green).setIfInBounds
      (offset + 2) blue).setIfInBounds (offset + 3) opacity)
  else none

theorem offset?_eq {width x y : Nat} (fits : 4 * (width * y + x) < 2 ^ 64) :
    offset? width x y = some (4 * (width * y + x)) := by
  have swapped : y * width = width * y := Nat.mul_comm y width
  have row : y * width < 2 ^ 64 := by omega
  have pixel : y * width + x < 2 ^ 64 := by omega
  have whole : (y * width + x) * 4 < 2 ^ 64 := by omega
  simp only [offset?, product_eq row, sum_eq pixel, product_eq whole, Option.bind_eq_bind,
    Option.bind_some]
  rw [swapped, Nat.mul_comm]

end Checked

namespace Background

def video? (place : Nat) : Option UInt16 :=
  if 0x8000 ≤ place ∧ place < 0xA000 then some (UInt16.ofNat place) else none

def mapAddress? (background : Background) (column row : Nat) : Option UInt16 := do
  let line ← product 16 row 32
  let start ← sum 16 background.mapBase.toNat line
  let place ← sum 16 start column
  video? place

def tileAddress? (background : Background) (index : UInt8) : Option UInt16 :=
  if background.control &&& ControlBit.tileData = 0 then do
    let offset ← fitSigned 16 (signed index * 16)
    video? ((0x9000 + offset) % 0x10000).toNat
  else do
    let offset ← product 16 index.toNat 16
    let place ← sum 16 0x8000 offset
    video? place

def rowBytes? (background : Background) (tile : UInt16) (line : Nat) :
    Option (UInt8 × UInt8) := do
  let offset ← product 16 line 2
  let low ← sum 16 tile.toNat offset
  let high ← sum 16 low 1
  let lowAddress ← video? low
  let highAddress ← video? high
  some (background.memory.get lowAddress, background.memory.get highAddress)

def shades : List Shade := [.white, .light, .dark, .black]

def dotShade? (background : Background) (low high : UInt8) (dot : Nat) : Option Shade := do
  let bit ← difference 7 dot
  let upper ← shiftRight high bit
  let lower ← shiftRight low bit
  let top ← shiftLeft (upper &&& 1) 1
  let place ← product 8 (top ||| lower &&& 1).toNat 2
  let field ← shiftRight background.palette place
  shades[(field &&& 3).toNat]?

def paintPixel? (buffer : Array UInt8) (x y : Nat) (shade : Shade) : Option (Array UInt8) := do
  let offset ← offset? side x y
  write? buffer offset shade.level shade.level shade.level fullOpacity

def paintTileRow? (background : Background) (buffer : Array UInt8) (tile : UInt16)
    (column row line : Nat) : Option (Array UInt8) := do
  let (low, high) ← background.rowBytes? tile line
  let top ← product 16 row 8
  let y ← sum 16 top line
  each (fun dot buffer => do
    let shade ← background.dotShade? low high dot
    let left ← product 16 column 8
    let x ← sum 16 left dot
    paintPixel? buffer x y shade) buffer 8

def paintTile? (background : Background) (buffer : Array UInt8) (column row : Nat) :
    Option (Array UInt8) := do
  let address ← background.mapAddress? column row
  let tile ← background.tileAddress? (background.memory.get address)
  each (fun line buffer => background.paintTileRow? buffer tile column row line) buffer 8

def renderInto? (background : Background) (buffer : Array UInt8) : Option (Array UInt8) :=
  if background.enabled then
    each (fun row buffer => each (fun column buffer => background.paintTile? buffer column row)
      buffer 32) buffer 32
  else some (buffer.map fun _ => 0xFF)

/-! The addresses. -/

theorem video?_eq {address : UInt16} {place : Nat} (same : address.toNat = place)
    (inside : 0x8000 ≤ place ∧ place < 0xA000) : video? place = some address := by
  rw [video?, if_pos inside, ← same, UInt16.ofNat_toNat]

theorem mapAddress?_eq (background : Background) {column row : Nat} (columnBound : column < 32)
    (rowBound : row < 32) : background.mapAddress? column row =
      some (background.mapAddress (UInt8.ofNat column) (UInt8.ofNat row)) := by
  have base : 0x9800 ≤ background.mapBase.toNat ∧ background.mapBase.toNat ≤ 0x9C00 := by
    rw [toNat_mapBase]
    split <;> decide
  have small : ∀ {place : Nat}, place < 32 → (UInt8.ofNat place).toNat = place := by
    intro place bound
    rw [UInt8.toNat_ofNat']
    omega
  have address := background.toNat_mapAddress (small columnBound ▸ columnBound)
    (small rowBound ▸ rowBound)
  rw [small columnBound, small rowBound, Nat.mul_comm 32] at address
  simp (disch := omega) only [mapAddress?, product_eq, sum_eq, Option.bind_eq_bind,
    Option.bind_some]
  exact video?_eq address (by omega)

theorem tileAddress?_eq (background : Background) (index : UInt8) :
    background.tileAddress? index = some (background.tileAddress index) := by
  have indexBound := index.toNat_lt
  have address := background.toNat_tileAddress index
  have bounds := background.tileAddress_bounds index
  have scaled : -2 ^ (16 - 1) ≤ signed index * 16 ∧ signed index * 16 < 2 ^ (16 - 1) := by
    rw [signed]
    split <;> omega
  rw [tileAddress?]
  split at address
  · rename_i signedNumbers
    rw [if_pos signedNumbers, fitSigned, if_pos scaled, Option.bind_eq_bind, Option.bind_some]
    exact video?_eq address (by omega)
  · rename_i plainNumbers
    rw [if_neg plainNumbers]
    simp (disch := omega) only [product_eq, sum_eq, Option.bind_eq_bind, Option.bind_some]
    exact video?_eq address (by omega)

theorem rowBytes?_eq (background : Background) {tile : UInt16}
    (bounds : 0x8000 ≤ tile.toNat ∧ tile.toNat ≤ 0x97F0) {line : Nat} (lineBound : line < 8) :
    background.rowBytes? tile line = some (background.memory.get (tile + 2 * UInt16.ofNat line),
      background.memory.get (tile + 2 * UInt16.ofNat line + 1)) := by
  have two : (2 : UInt16).toNat = 2 := rfl
  have one : (1 : UInt16).toNat = 1 := rfl
  have low : (tile + 2 * UInt16.ofNat line).toNat = tile.toNat + line * 2 := by
    simp only [UInt16.toNat_add, UInt16.toNat_mul, UInt16.toNat_ofNat', two]
    omega
  have high : (tile + 2 * UInt16.ofNat line + 1).toNat = tile.toNat + line * 2 + 1 := by
    rw [UInt16.toNat_add, low, one]
    omega
  have lowAddress := video?_eq low (by omega)
  have highAddress := video?_eq high (by omega)
  simp (disch := omega) only [rowBytes?, product_eq, sum_eq, lowAddress, highAddress,
    Option.bind_eq_bind, Option.bind_some]

/-! The dots and the pixels. -/

-- Shifts by a variable amount are out of reach of arithmetic on bytes, so both go by table.

theorem bit_eq (byte : UInt8) {place : Nat} (inside : place < 8) :
    byte >>> UInt8.ofNat place &&& 1 = UInt8.ofNat (byte.toNat.testBit place).toNat := by
  have table : ∀ (index : Fin 256) (place : Fin 8),
      UInt8.ofNat index.val >>> UInt8.ofNat place.val &&& 1 =
        UInt8.ofNat ((UInt8.ofNat index.val).toNat.testBit place.val).toNat := by decide +kernel
  have entry := table ⟨byte.toNat, byte.toNat_lt⟩ ⟨place, inside⟩
  rwa [UInt8.ofNat_toNat] at entry

theorem field_eq (palette : UInt8) (colour : Fin 4) :
    shades[(palette >>> UInt8.ofNat (2 * colour.val) &&& 3).toNat]? =
      some (.ofField ⟨(palette.toNat >>> (2 * colour.val)) % 4, Nat.mod_lt _ (by decide)⟩) := by
  have table : ∀ (index : Fin 256) (colour : Fin 4),
      shades[(UInt8.ofNat index.val >>> UInt8.ofNat (2 * colour.val) &&& 3).toNat]? =
        some (.ofField ⟨((UInt8.ofNat index.val).toNat >>> (2 * colour.val)) % 4,
          Nat.mod_lt _ (by decide)⟩) := by decide +kernel
  have entry := table ⟨palette.toNat, palette.toNat_lt⟩ colour
  rwa [UInt8.ofNat_toNat] at entry

theorem toNat_colour (low high : UInt8) (dot : Nat) :
    (UInt8.ofNat (high.toNat.testBit (7 - dot)).toNat <<< UInt8.ofNat 1 |||
      UInt8.ofNat (low.toNat.testBit (7 - dot)).toNat).toNat = (colour low high dot).val := by
  change _ = 2 * (high.toNat.testBit (7 - dot)).toNat + (low.toNat.testBit (7 - dot)).toNat
  cases high.toNat.testBit (7 - dot) <;> cases low.toNat.testBit (7 - dot) <;> rfl

theorem dotShade?_eq (background : Background) (low high : UInt8) {dot : Nat} (dotBound : dot < 8) :
    background.dotShade? low high dot =
      some (background.colourShade (colour low high dot)) := by
  have place : 7 - dot < 8 := by omega
  have field := field_eq background.palette (colour low high dot)
  have bound := (colour low high dot).isLt
  have twice : (colour low high dot).val * 2 = 2 * (colour low high dot).val := Nat.mul_comm _ _
  rw [dotShade?, difference_eq (Nat.le_of_lt_succ dotBound)]
  simp only [shiftRight_eq _ place, bit_eq _ place, shiftLeft_eq _ (show 1 < 8 by decide),
    toNat_colour, Option.bind_eq_bind, Option.bind_some]
  simp (disch := omega) only [product_eq, shiftRight_eq, twice, Option.bind_some]
  exact field

def Roomy (buffer : Array UInt8) : Prop := 262144 ≤ buffer.size

theorem paintPixel?_eq {buffer : Array UInt8} {x y : Nat} (xBound : x < 256) (yBound : y < 256)
    (room : Roomy buffer) (shade : Shade) :
    paintPixel? buffer x y shade = some (paintPixel buffer x y shade) ∧
      Roomy (paintPixel buffer x y shade) := by
  have place : offset? side x y = some (4 * (side * y + x)) :=
    offset?_eq (by simp only [side]; omega)
  have inside : 4 * (side * y + x) + 4 ≤ buffer.size := by
    simp only [side, Roomy] at room ⊢
    omega
  constructor
  · rw [paintPixel?, place, Option.bind_eq_bind, Option.bind_some, write?, if_pos inside]
    rfl
  · simpa only [Roomy, paintPixel, Array.size_setIfInBounds] using room

theorem paintTileRow?_eq (background : Background) {tile : UInt16}
    (bounds : 0x8000 ≤ tile.toNat ∧ tile.toNat ≤ 0x97F0) {column row line : Nat}
    (columnBound : column < 32) (rowBound : row < 32) (lineBound : line < 8)
    {buffer : Array UInt8} (room : Roomy buffer) :
    background.paintTileRow? buffer tile column row line =
        some (background.paintTileRow buffer tile column row line) ∧
      Roomy (background.paintTileRow buffer tile column row line) := by
  have bytes := background.rowBytes?_eq bounds lineBound
  have top : row * 8 = 8 * row := Nat.mul_comm row 8
  have left : column * 8 = 8 * column := Nat.mul_comm column 8
  simp (disch := omega) only [paintTileRow?, bytes, product_eq, sum_eq, top, left,
    Option.bind_eq_bind, Option.bind_some, paintTileRow]
  refine each_eq Roomy ?_ room
  intro dot dotBound buffer room
  rw [background.dotShade?_eq _ _ dotBound, sum_eq (by omega), Option.bind_some, Option.bind_some]
  exact paintPixel?_eq (by omega) (by omega) room _

theorem paintTile?_eq (background : Background) {column row : Nat} (columnBound : column < 32)
    (rowBound : row < 32) {buffer : Array UInt8} (room : Roomy buffer) :
    background.paintTile? buffer column row = some (background.paintTile buffer column row) ∧
      Roomy (background.paintTile buffer column row) := by
  rw [paintTile?, background.mapAddress?_eq columnBound rowBound]
  simp only [tileAddress?_eq, Option.bind_eq_bind, Option.bind_some]
  exact each_eq Roomy (fun line lineBound _ room =>
    background.paintTileRow?_eq (background.tileAddress_bounds _) columnBound rowBound lineBound
      room) room

/-- Painting passes its checks in every buffer that has room for all pixels. -/
theorem renderInto?_eq (background : Background) {buffer : Array UInt8}
    (room : Roomy buffer) :
    background.renderInto? buffer = some (background.renderInto buffer) := by
  rw [renderInto?, renderInto]
  split
  · exact (each_eq Roomy (fun row rowBound _ room => each_eq Roomy (fun column columnBound _ room =>
      background.paintTile?_eq columnBound rowBound room) room) room).1
  · rfl

end Background

end Dmg
