import Dmg.Proofs.Bits
import Dmg.Proofs.Rendering
import Dmg.Proofs.SpaceHistory

/-!
The pixels of the background told from the bytes that a program can read and the bits of the
display's registers, in plain numbers, without the painter's loops or its arithmetic on words.
-/

namespace Dmg

namespace AddressSpace

def byteAt (space : AddressSpace) (place : Nat) : UInt8 := space.peek (UInt16.ofNat place)

def controlBit (space : AddressSpace) (place : Nat) : Bool :=
  space.mapped.control.toNat.testBit place

def mapPlace (space : AddressSpace) (x y : Nat) : Nat :=
  (if space.controlBit 3 then 0x9C00 else 0x9800) + 32 * (y / 8) + x / 8

def tilePlace (space : AddressSpace) (number : UInt8) : Nat :=
  if space.controlBit 4 then 0x8000 + 16 * number.toNat
  else (0x9000 + 16 * Background.signed number).toNat

def pixelColour (space : AddressSpace) (x y : Nat) : Nat :=
  let row := space.tilePlace (space.byteAt (space.mapPlace x y)) + 2 * (y % 8)
  2 * ((space.byteAt (row + 1)).toNat.testBit (7 - x % 8)).toNat +
    ((space.byteAt row).toNat.testBit (7 - x % 8)).toNat

def paletteEntry (space : AddressSpace) (colour : Nat) : Nat :=
  space.mapped.palette.toNat / 4 ^ colour % 4

def grey : Nat → UInt8
  | 0 => 255
  | 1 => 170
  | 2 => 85
  | _ => 0

def pixelBytes (space : AddressSpace) (x y : Nat) : List UInt8 :=
  if space.controlBit 0 then
    let level := grey (space.paletteEntry (space.pixelColour x y))
    [level, level, level, 0xFF]
  else [0xFF, 0xFF, 0xFF, 0xFF]

end AddressSpace

namespace Background

variable (space : AddressSpace)

theorem enabled_ofSpace : (ofSpace space).enabled = space.controlBit 0 := by
  have mask := mask_eq_zero space.mapped.control (by decide : 0 < 8)
  change space.mapped.control &&& ControlBit.background = 0 ↔ space.controlBit 0 = false at mask
  change (space.mapped.control &&& ControlBit.background != 0) = _
  cases on : space.controlBit 0 with
  | false => rw [mask.mpr on, bne_self_eq_false]
  | true => exact bne_iff_ne.mpr fun off => Bool.noConfusion (on.symm.trans (mask.mp off))

theorem get_ofSpace {address : UInt16} (inside : InVideoMemory address) :
    (ofSpace space).memory.get address = space.byteAt address.toNat := by
  have plain : ∀ register : MappedRegister, register.address ≠ address := by
    rintro register rfl
    revert inside
    cases register <;> exact fun inside => absurd inside.2 (by decide)
  rw [AddressSpace.byteAt, UInt16.ofNat_toNat, AddressSpace.peek_plain space plain]
  rfl

theorem toNat_mapAddress_ofSpace {x y : UInt8} :
    ((ofSpace space).mapAddress (x / 8) (y / 8)).toNat = space.mapPlace x.toNat y.toNat := by
  have xBound := x.toNat_lt
  have yBound := y.toNat_lt
  have column : (x / 8).toNat = x.toNat / 8 := UInt8.toNat_div x 8
  have row : (y / 8).toNat = y.toNat / 8 := UInt8.toNat_div y 8
  have mask := mask_eq_zero space.mapped.control (by decide : 3 < 8)
  change space.mapped.control &&& ControlBit.tileMap = 0 ↔ space.controlBit 3 = false at mask
  rw [toNat_mapAddress _ (by omega) (by omega), toNat_mapBase, column, row, AddressSpace.mapPlace]
  change (if space.mapped.control &&& ControlBit.tileMap = 0 then _ else _) + _ + _ = _
  simp only [mask]
  cases space.controlBit 3 <;> rfl

theorem toNat_tileAddress_ofSpace (number : UInt8) :
    ((ofSpace space).tileAddress number).toNat = space.tilePlace number := by
  have bound := number.toNat_lt
  have mask := mask_eq_zero space.mapped.control (by decide : 4 < 8)
  change space.mapped.control &&& ControlBit.tileData = 0 ↔ space.controlBit 4 = false at mask
  rw [toNat_tileAddress, AddressSpace.tilePlace]
  change (if space.mapped.control &&& ControlBit.tileData = 0 then _ else _) = _
  simp only [mask]
  cases space.controlBit 4 with
  | false =>
      simp only [if_true, Bool.false_eq_true, if_false, signed]
      split <;> omega
  | true =>
      simp only [Bool.true_eq_false, if_false, if_true]
      omega

theorem level_ofField (field : Fin 4) : (Shade.ofField field).level = AddressSpace.grey field := by
  revert field
  decide

theorem level_colourShade (colour : Fin 4) :
    ((ofSpace space).colourShade colour).level =
      AddressSpace.grey (space.paletteEntry colour) := by
  have entry : space.mapped.palette.toNat >>> (2 * colour.val) % 4 = space.paletteEntry colour := by
    rw [AddressSpace.paletteEntry, Nat.shiftRight_eq_div_pow, Nat.pow_mul]
  rw [colourShade, level_ofField]
  exact congrArg AddressSpace.grey entry

theorem get_tileRow_ofSpace (number y : UInt8) :
    let row := (ofSpace space).tileAddress number + 2 * (y % 8).toUInt16
    (ofSpace space).memory.get row =
        space.byteAt (space.tilePlace number + 2 * (y.toNat % 8)) ∧
      (ofSpace space).memory.get (row + 1) =
        space.byteAt (space.tilePlace number + 2 * (y.toNat % 8) + 1) := by
  obtain ⟨low, high⟩ := (ofSpace space).toNat_tileRow number y
  obtain ⟨lowInside, highInside⟩ := (ofSpace space).tileRow_inVideoMemory number y
  rw [toNat_tileAddress_ofSpace] at low
  rw [low] at high
  exact ⟨low ▸ get_ofSpace space lowInside, high ▸ get_ofSpace space highInside⟩

theorem bytes_shade_ofSpace (x y : UInt8) :
    ((ofSpace space).shade x y).bytes = space.pixelBytes x.toNat y.toNat := by
  rw [AddressSpace.pixelBytes, ← enabled_ofSpace]
  cases on : (ofSpace space).enabled with
  | false =>
      rw [shade_off on]
      rfl
  | true =>
      have index := get_ofSpace space ((ofSpace space).mapAddress_inVideoMemory x y)
      rw [toNat_mapAddress_ofSpace] at index
      obtain ⟨low, high⟩ :=
        get_tileRow_ofSpace space (space.byteAt (space.mapPlace x.toNat y.toNat)) y
      have dot : (x % 8).toNat = x.toNat % 8 := UInt8.toNat_mod x 8
      simp only [shade, on, if_true, index, low, high, dot, Shade.bytes, level_colourShade]
      rfl

/-- After painting, every pixel has the bytes that its definition gives, whatever the buffer held
before.  Spaces that agree on video memory, on the three bits of the control register and on the
palette leave the same pixels in their buffers. -/
theorem rendered_pixels {buffer : Array UInt8} (room : 262144 ≤ buffer.size) :
    let after := (ofSpace space).renderInto buffer
    after.size = buffer.size ∧
    (∀ x y, x < 256 → y < 256 →
      (after.toList.drop (4 * (256 * y + x))).take 4 = space.pixelBytes x y) ∧
    ∀ (other : AddressSpace) (own : Array UInt8), 262144 ≤ own.size →
      (∀ address, InVideoMemory address → other.peek address = space.peek address) →
      (∀ place ∈ [0, 3, 4], other.controlBit place = space.controlBit place) →
      other.mapped.palette = space.mapped.palette →
      ((ofSpace other).renderInto own).toList.take 262144 = after.toList.take 262144 := by
  intro after
  refine ⟨size_renderInto _ buffer, ?_, ?_⟩
  · intro x y xBound yBound
    have pixel := @Picture.pixel_eq ⟨side, side, after⟩ x y _ fun byte byteBound =>
      getElem?_renderInto room xBound yBound byteBound
    rwa [bytes_shade_ofSpace, UInt8.toNat_ofNat_of_lt' xBound, UInt8.toNat_ofNat_of_lt' yBound]
      at pixel
  · intro other own ownRoom memory bits palette
    have shades : ∀ x y, (ofSpace other).shade x y = (ofSpace space).shade x y := by
      apply shade_congr
      case memory =>
        intro address inside
        rw [get_ofSpace other inside, get_ofSpace space inside]
        simpa only [AddressSpace.byteAt, UInt16.ofNat_toNat] using memory address inside
      case background => exact mask_congr (by decide) (bits 0 (by decide))
      case tileMap => exact mask_congr (by decide) (bits 3 (by decide))
      case tileData => exact mask_congr (by decide) (bits 4 (by decide))
      case palette => exact palette
    apply List.ext_getElem?
    intro index
    rw [List.getElem?_take, List.getElem?_take, Array.getElem?_toList, Array.getElem?_toList]
    by_cases inside : index < 262144
    · rw [if_pos inside, if_pos inside, getElem?_renderInto_of_lt ownRoom inside,
        getElem?_renderInto_of_lt room inside, shades]
    · rw [if_neg inside, if_neg inside]

/-- A pixel of tile -1 in the second tile map. -/
theorem rendered_pixels_signed :
    let space : AddressSpace := {
      ram := (Ram.zero.set 0x9C21 0xFF).set 0x8FF3 0x40
      mapped := { Mapped.powerOn with control := 0x09, palette := 0x1B } }
    (((ofSpace space).renderInto (Array.replicate 262144 7)).toList.drop (4 * (256 * 9 + 9))).take 4
      = [170, 170, 170, 255] := by
  intro space
  have room : 262144 ≤ (Array.replicate 262144 (7 : UInt8)).size := by simp
  rw [(rendered_pixels space room).2.1 9 9 (by decide) (by decide)]
  have byte : ∀ place, MappedRegister.ofAddress? (UInt16.ofNat place) = none →
      space.byteAt place = if 0x8FF3 = UInt16.ofNat place then 0x40
        else if 0x9C21 = UInt16.ofNat place then 0xFF else 0 := by
    intro place plain
    simp only [AddressSpace.byteAt, AddressSpace.peek, plain, space, Ram.get_set, Ram.get_zero]
  have switched : space.controlBit 0 = true := by decide
  have second : space.controlBit 3 = true := by decide
  have signedTiles : space.controlBit 4 = false := by decide
  have number : space.byteAt 0x9C21 = 0xFF := byte _ rfl
  have low : space.byteAt 0x8FF2 = 0 := byte _ rfl
  have high : space.byteAt 0x8FF3 = 0x40 := byte _ rfl
  have tile : signed 0xFF = -1 := rfl
  simp [AddressSpace.pixelBytes, AddressSpace.pixelColour, AddressSpace.mapPlace,
    AddressSpace.tilePlace, switched, second, signedTiles, number, low, high, tile]
  decide

end Background

end Dmg
