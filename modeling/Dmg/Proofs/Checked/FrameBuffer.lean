import Dmg.Proofs.Checked.Display

/-!
The frame as bytes that are copied.  A run that paints the background and copies its rows, byte by
byte at checked offsets, leaves in the buffer of the frame what the history of its lines tells.
-/

namespace Dmg

namespace Display

def follow? (display : Display) (buffers : Buffers) : Event → Option (Display × Buffers)
  | .tick => do
      let (ppu, space, buffers) ← display.ppu.tick? display.space buffers
      some (⟨ppu, space⟩, buffers)
  | .operate operation => some (display.after (.operate operation), buffers)

def run? (display : Display) (buffers : Buffers) : List Event → Option (Display × Buffers)
  | [] => some (display, buffers)
  | event :: rest => do
      let (display, buffers) ← display.follow? buffers event
      display.run? buffers rest

variable {display : Display} {count : Nat}

theorem follow?_tick (stands : display.ppu.Stands count) (few : count + 1 < 2 ^ 64) :
    display.follow? display.ppu.buffers .tick = some (display.tick, display.tick.ppu.buffers) := by
  have later := stands.tick display.space
  have lit := Bool.toNat_le display.space.lcdEnabled
  have fits : (display.ppu.tick display.space).1.frames < 2 ^ 64 := by
    rw [later.frames]
    omega
  rw [follow?, Ppu.tick?_eq stands display.space fits]
  rfl

theorem run?_eq (stands : display.ppu.Stands count) {events : List Event}
    (few : count + events.length < 2 ^ 64) :
    display.run? display.ppu.buffers events =
      some (display.run events, (display.run events).ppu.buffers) := by
  induction events generalizing display count with
  | nil => rfl
  | cons event rest ih =>
      rw [List.length_cons] at few
      cases event with
      | operate operation =>
          exact @ih (display.after (.operate operation)) count stands (by omega)
      | tick =>
          have lit := Bool.toNat_le display.space.lcdEnabled
          rw [run?, follow?_tick stands (by omega)]
          exact @ih display.tick _ (stands.tick display.space) (by omega)

/-- Every byte of the frame is the byte of the background that its scrolled place had when its line
was last drawn. -/
theorem copied_history (start : AddressSpace) {events : List Event}
    (few : events.length < 2 ^ 64) (x : Fin 160) (y : Fin 144) {byte : Nat}
    (byteBound : byte < 4) :
    let initial : Display := { space := start }
    ∃ buffers, initial.run? initial.ppu.buffers events = some (initial.run events, buffers) ∧
      buffers.frame[4 * (160 * y.val + x.val) + byte]? = match lastDrawn y initial events with
        | some space => (Background.ofSpace space).picture.bytes[
            4 * (256 * ((y.val + space.mapped.scrollY.toNat) % 256) +
              (x.val + space.mapped.scrollX.toNat) % 256) + byte]?
        | none => some 0xFF := by
  intro initial
  refine ⟨_, run?_eq Ppu.stands_start (by omega), ?_⟩
  have copied := (initial.run events).ppu.frame.getElem?_picture x y byteBound
  rw [rows_run] at copied
  refine copied.trans ?_
  cases lastDrawn y initial events with
  | some space =>
      have pixel := congrArg (·[byte]?) (space.viewportRow_pixel x y)
      exact pixel.trans (Picture.getElem?_pixel byteBound)
  | none =>
      have white : Frame.blank.rows[y][x] = .white := by simp [Frame.blank]
      have bytes : Shade.white.bytes = List.replicate 4 0xFF := rfl
      refine (congrArg (·.bytes[byte]?) white).trans ?_
      rw [bytes, List.getElem?_replicate, if_pos byteBound]

end Display

end Dmg
