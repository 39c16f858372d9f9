import Dmg.Proofs.Checked.Painter

/-!
The picture processor with every count, number of a line and place in its buffers checked.  Where
its state is one that a run can reach, a tick passes all checks.
-/

namespace Dmg

open Checked

namespace Checked

def read? (buffer : Array UInt8) (offset : Nat) : Option (UInt8 × UInt8 × UInt8 × UInt8) := do
  let red ← buffer[offset]?
  let green ← buffer[offset + 1]?
  let blue ← buffer[offset + 2]?
  let opacity ← buffer[offset + 3]?
  some (red, green, blue, opacity)

end Checked

namespace Frame

def copyPixel? (background frame : Array UInt8) (scrollX : UInt8) (row line x : Nat) :
    Option (Array UInt8) := do
  let column ← sum 64 x scrollX.toNat
  let source ← offset? Background.side (column % Background.side) (row % Background.side)
  let (red, green, blue, opacity) ← read? background source
  let target ← offset? width x line
  write? frame target red green blue opacity

def copyRow? (background frame : Array UInt8) (scrollX scrollY : UInt8) (line : Nat) :
    Option (Array UInt8) :=
  if line < height then do
    let row ← sum 64 line scrollY.toNat
    each (fun x frame => copyPixel? background frame scrollX row line x) frame width
  else some frame

/-! The bytes of a frame. -/

def setPixel (buffer : Array UInt8) (offset : Nat) (shade : Shade) : Array UInt8 :=
  (((buffer.setIfInBounds offset shade.level).setIfInBounds (offset + 1) shade.level).setIfInBounds
    (offset + 2) shade.level).setIfInBounds (offset + 3) fullOpacity

theorem size_setPixel (buffer : Array UInt8) (offset : Nat) (shade : Shade) :
    (setPixel buffer offset shade).size = buffer.size := by
  simp only [setPixel, Array.size_setIfInBounds]

theorem getElem?_setPixel {buffer : Array UInt8} {offset : Nat} (room : offset + 4 ≤ buffer.size)
    (shade : Shade) (index : Nat) :
    (setPixel buffer offset shade)[index]? =
      if offset ≤ index ∧ index < offset + 4 then shade.bytes[index - offset]?
      else buffer[index]? := by
  simp only [setPixel, Array.getElem?_setIfInBounds, Array.size_setIfInBounds]
  by_cases inside : offset ≤ index ∧ index < offset + 4
  · obtain ⟨byte, rfl⟩ := Nat.exists_eq_add_of_le inside.1
    have four : byte = 0 ∨ byte = 1 ∨ byte = 2 ∨ byte = 3 := by omega
    rcases four with rfl | rfl | rfl | rfl <;> simp [Shade.bytes] <;> omega
  · have apart : ∀ byte, byte < 4 → offset + byte ≠ index := by omega
    have first : offset ≠ index := apart 0 (by decide)
    rw [if_neg (apart 3 (by decide)), if_neg (apart 2 (by decide)), if_neg (apart 1 (by decide)),
      if_neg first, if_neg inside]

theorem getElem?_picture (frame : Frame) (x : Fin 160) (y : Fin 144) {byte : Nat}
    (byteBound : byte < 4) :
    frame.picture.bytes[4 * (160 * y.val + x.val) + byte]? = frame.rows[y][x].bytes[byte]? := by
  have pixel := congrArg (·[byte]?) (frame.pixel_picture x y)
  exact (Picture.getElem?_pixel byteBound).symm.trans pixel

theorem getElem?_copied {buffer : Array UInt8} (room : buffer.size = 92160) {line : Nat}
    (visible : line < 144) (row : Nat → Shade) {count : Nat} (few : count ≤ 160) (index : Nat) :
    (Nat.fold count (fun x _ buffer => setPixel buffer (4 * (160 * line + x)) (row x))
        buffer).size = 92160 ∧
      (Nat.fold count (fun x _ buffer => setPixel buffer (4 * (160 * line + x)) (row x))
        buffer)[index]? =
          if 640 * line ≤ index ∧ index < 640 * line + 4 * count then
            (row ((index - 640 * line) / 4)).bytes[index % 4]?
          else buffer[index]? := by
  induction count with
  | zero =>
      refine ⟨room, ?_⟩
      rw [if_neg (by omega)]
      rfl
  | succ count ih =>
      obtain ⟨size, before⟩ := ih (Nat.le_of_succ_le few)
      rw [Nat.fold_succ, size_setPixel, getElem?_setPixel (by omega), before]
      refine ⟨size, ?_⟩
      -- The latest pixel holds the byte, or leaves it as the pixels before it did.
      by_cases latest : 4 * (160 * line + count) ≤ index ∧ index < 4 * (160 * line + count) + 4
      · have x : (index - 640 * line) / 4 = count := by omega
        have byte : index - 4 * (160 * line + count) = index % 4 := by omega
        rw [if_pos latest, if_pos (by omega), x, byte]
      · have same : (640 * line ≤ index ∧ index < 640 * line + 4 * count) ↔
            640 * line ≤ index ∧ index < 640 * line + 4 * (count + 1) := by omega
        simp only [if_neg latest, same]

theorem getElem?_picture_setRow (frame : Frame) {line : Nat} (pixels : Vector Shade 160)
    {index : Nat} (inside : index < 92160) :
    (frame.setRow line pixels).picture.bytes[index]? =
      if line = index / 640 then
        (pixels.get ⟨index % 640 / 4, by omega⟩).bytes[index % 4]?
      else frame.picture.bytes[index]? := by
  let x : Fin 160 := ⟨index % 640 / 4, by omega⟩
  let y : Fin 144 := ⟨index / 640, by omega⟩
  have place : 4 * (160 * y.val + x.val) + index % 4 = index := by
    change 4 * (160 * (index / 640) + index % 640 / 4) + index % 4 = index
    omega
  have byteBound : index % 4 < 4 := Nat.mod_lt _ (by decide)
  have before := frame.getElem?_picture x y byteBound
  have later := (frame.setRow line pixels).getElem?_picture x y byteBound
  rw [place] at before later
  rw [later, before, rows_setRow]
  change _ = if line = y.val then (pixels.get x).bytes[index % 4]? else _
  split <;> rfl

theorem read?_renderInto (background : Background) {buffer : Array UInt8}
    (room : Background.Roomy buffer) {x y : Nat} (xBound : x < 256) (yBound : y < 256) :
    read? (background.renderInto buffer) (4 * (256 * y + x)) =
      let shade := background.shade (UInt8.ofNat x) (UInt8.ofNat y)
      some (shade.level, shade.level, shade.level, fullOpacity) := by
  have byte : ∀ byte < 4, (background.renderInto buffer)[4 * (256 * y + x) + byte]? =
      (background.shade (UInt8.ofNat x) (UInt8.ofNat y)).bytes[byte]? := fun byte byteBound =>
    Background.getElem?_renderInto room xBound yBound byteBound
  have first := byte 0 (by decide)
  rw [Nat.add_zero] at first
  rw [read?, first, byte 1 (by decide), byte 2 (by decide), byte 3 (by decide)]
  rfl

theorem copyPixel?_eq (background : Background) {buffer frame : Array UInt8}
    (room : Background.Roomy buffer) (size : frame.size = 92160) (scrollX scrollY : UInt8)
    {line x : Nat} (visible : line < 144) (xBound : x < 160) :
    copyPixel? (background.renderInto buffer) frame scrollX (line + scrollY.toNat) line x =
      some (setPixel frame (4 * (160 * line + x))
        (background.shade (UInt8.ofNat x + scrollX) (UInt8.ofNat line + scrollY))) := by
  have scrollBound := scrollX.toNat_lt
  have column : (x + scrollX.toNat) % 256 < 256 := Nat.mod_lt _ (by decide)
  have row : (line + scrollY.toNat) % 256 < 256 := Nat.mod_lt _ (by decide)
  have source : offset? Background.side ((x + scrollX.toNat) % Background.side)
      ((line + scrollY.toNat) % Background.side) = some _ :=
    offset?_eq (by simp only [Background.side]; omega)
  have target : offset? width x line = some (4 * (160 * line + x)) :=
    offset?_eq (by simp only [width]; omega)
  have inside : 4 * (160 * line + x) + 4 ≤ frame.size := by omega
  have pixel := read?_renderInto background room column row
  simp only [AddressSpace.ofNat_wrapped] at pixel
  rw [copyPixel?, sum_eq (by omega)]
  simp only [Option.bind_eq_bind, Option.bind_some, source, target]
  exact (congrArg (Option.bind · _) pixel).trans (if_pos inside)

theorem get_viewportRow (background : Background) (scrollX y : UInt8) (x : Fin 160) :
    (background.viewportRow scrollX y).get x =
      background.shade (UInt8.ofNat x.val + scrollX) y :=
  Vector.getElem_ofFn x.isLt

/-- The copy of a row passes its checks, and the frame is then the one with that row of the
viewport. -/
theorem copyRow?_eq (background : Background) {buffer : Array UInt8}
    (room : Background.Roomy buffer) (frame : Frame) (scrollX scrollY : UInt8) (line : Nat) :
    copyRow? (background.renderInto buffer) frame.picture.bytes scrollX scrollY line =
      some (frame.setRow line
        (background.viewportRow scrollX (UInt8.ofNat line + scrollY))).picture.bytes := by
  have scrollBound := scrollY.toNat_lt
  by_cases shown : line < height
  · have visible : line < 144 := shown
    obtain ⟨copied, _⟩ := each_eq (fun frame => frame.size = 92160)
      (fun x xBound frame size =>
        ⟨copyPixel?_eq background room size scrollX scrollY visible xBound,
          (size_setPixel ..).trans size⟩) frame.size_picture
    rw [copyRow?, if_pos shown, sum_eq (by omega), Option.bind_eq_bind, Option.bind_some]
    refine copied.trans (congrArg some (Array.ext_getElem? fun index => ?_))
    obtain ⟨size, byte⟩ := getElem?_copied frame.size_picture visible
      (fun x => background.shade (UInt8.ofNat x + scrollX) (UInt8.ofNat line + scrollY))
      (Nat.le_refl 160) index
    by_cases inside : index < 92160
    · rw [byte, getElem?_picture_setRow _ _ inside]
      have here : (640 * line ≤ index ∧ index < 640 * line + 4 * 160) ↔ line = index / 640 := by
        omega
      simp only [here]
      split
      · have x : (index - 640 * line) / 4 = index % 640 / 4 := by omega
        rw [x, get_viewportRow]
      · rfl
    · rw [Array.getElem?_eq_none (by omega), Array.getElem?_eq_none (by rw [size_picture]; omega)]
  · have hidden : frame.rows.setIfInBounds line
        (background.viewportRow scrollX (UInt8.ofNat line + scrollY)) = frame.rows :=
      Vector.setIfInBounds_eq_of_size_le (Nat.le_of_not_lt shown)
    rw [copyRow?, if_neg shown]
    exact congrArg (fun rows => some (Frame.mk rows).picture.bytes) hidden.symm

end Frame

namespace Background

theorem size_picture (background : Background) : background.picture.bytes.size = 262144 := by
  rw [picture, size_renderInto, Array.size_replicate]
  rfl

theorem renderInto_eq_picture (background : Background) {buffer : Array UInt8}
    (size : buffer.size = 262144) :
    background.renderInto buffer = background.picture.bytes := by
  refine Array.ext_getElem? fun index => ?_
  by_cases inside : index < 262144
  · rw [getElem?_renderInto_of_lt (Nat.le_of_eq size.symm) inside, picture,
      getElem?_renderInto_of_lt (Nat.le_of_eq (by rw [Array.size_replicate]; rfl)) inside]
  · have past : 262144 ≤ index := Nat.le_of_not_lt inside
    rw [Array.getElem?_eq_none (by rw [size_renderInto, size]; exact past),
      Array.getElem?_eq_none (by rw [size_picture]; exact past)]

end Background

structure Buffers where
  background : Array UInt8
  frame : Array UInt8

namespace Ppu

def buffers (ppu : Ppu) : Buffers := ⟨ppu.background.picture.bytes, ppu.frame.picture.bytes⟩

def draw? (ppu : Ppu) (space : AddressSpace) (buffers : Buffers) : Option Buffers := do
  let background ← (Background.ofSpace space).renderInto? buffers.background
  let frame ← Frame.copyRow? background buffers.frame space.mapped.scrollX space.mapped.scrollY
    ppu.line
  some ⟨background, frame⟩

def next? (ppu : Ppu) (space : AddressSpace) (buffers : Buffers) :
    Option (Ppu × AddressSpace × Buffers) :=
  match ppu.mode with
  | .oamScan => do
      let (ppu, space) := ppu.enter .drawing space
      let buffers ← ppu.draw? space buffers
      some (ppu.draw space, space, buffers)
  | .drawing => do
      let frames ← if ppu.line + 1 = visibleLines then sum 64 ppu.frames 1 else some ppu.frames
      let (ppu, space) := { ppu with frames }.enter .hblank space
      some (ppu, space, buffers)
  | .hblank => do
      let line ← sum 8 ppu.line 1
      let (ppu, space) := ppu.setLine line space
      let (ppu, space) := ppu.enter (if ppu.line = visibleLines then .vblank else .oamScan) space
      some (ppu, space, buffers)
  | .vblank => do
      let line ← sum 8 ppu.line 1
      if line = linesPerFrame then
        let (ppu, space) := ppu.setLine 0 space
        let (ppu, space) := ppu.enter .oamScan space
        some (ppu, space, buffers)
      else
        let (ppu, space) := { ppu with remaining := cyclesPerLine }.setLine line space
        some (ppu, space, buffers)

def tick? (ppu : Ppu) (space : AddressSpace) (buffers : Buffers) :
    Option (Ppu × AddressSpace × Buffers) :=
  if space.lcdEnabled then do
    let remaining ← difference ppu.remaining 1
    if 0 < remaining then some ({ ppu with remaining }, space, buffers)
    else ppu.next? space buffers
  else some (ppu, space, buffers)

theorem draw?_eq (ppu : Ppu) (space : AddressSpace) :
    ppu.draw? space ppu.buffers = some (ppu.draw space).buffers := by
  have size := ppu.background.size_picture
  have room : Background.Roomy ppu.background.picture.bytes := Nat.le_of_eq size.symm
  have painted := (Background.ofSpace space).renderInto_eq_picture size
  have copied := Frame.copyRow?_eq (Background.ofSpace space) room ppu.frame space.mapped.scrollX
    space.mapped.scrollY ppu.line
  rw [painted] at copied
  simp only [draw?, buffers, Background.renderInto?_eq _ room, painted, copied, Option.bind_eq_bind,
    Option.bind_some, draw_eq]

theorem next?_eq {ppu : Ppu} {count : Nat} (stands : ppu.Stands count) (space : AddressSpace)
    (fits : (ppu.next space).1.frames < 2 ^ 64) :
    ppu.next? space ppu.buffers =
      some ((ppu.next space).1, (ppu.next space).2, (ppu.next space).1.buffers) := by
  have line := stands.line_eq
  have few : ppu.line + 1 < 2 ^ 8 := by omega
  cases mode : ppu.mode with
  | oamScan =>
      have drawn := (ppu.enter .drawing space).1.draw?_eq (ppu.enter .drawing space).2
      simp only [next?, next, mode, Option.bind_eq_bind]
      exact congrArg (Option.bind · _) drawn
  | drawing =>
      simp only [next, mode, fst_enter] at fits
      simp only [next?, next, mode]
      split at fits
      · rename_i last
        simp only [last, if_true, sum_eq fits, Option.bind_eq_bind, Option.bind_some]
        rfl
      · rename_i early
        simp only [early, if_false, Option.bind_eq_bind, Option.bind_some]
        rfl
  | hblank =>
      simp only [next?, next, mode, sum_eq few, Option.bind_eq_bind, Option.bind_some]
      rfl
  | vblank =>
      simp only [next?, next, mode, sum_eq few, Option.bind_eq_bind, Option.bind_some]
      split <;> rfl

theorem tick?_eq {ppu : Ppu} {count : Nat} (stands : ppu.Stands count) (space : AddressSpace)
    (fits : (ppu.tick space).1.frames < 2 ^ 64) :
    ppu.tick? space ppu.buffers =
      some ((ppu.tick space).1, (ppu.tick space).2, (ppu.tick space).1.buffers) := by
  cases lit : space.lcdEnabled with
  | false =>
      rw [tick_dark ppu lit, tick?, if_neg (by simp [lit])]
  | true =>
      rw [tick?, if_pos lit, difference_eq stands.due, Option.bind_eq_bind, Option.bind_some]
      by_cases more : 1 < ppu.remaining
      · rw [tick_counting lit more, if_pos (Nat.sub_pos_of_lt more)]
        rfl
      · have last : ppu.remaining ≤ 1 := Nat.le_of_not_lt more
        rw [tick_due lit last] at fits ⊢
        rw [if_neg (by omega)]
        exact next?_eq stands space fits

end Ppu

end Dmg
