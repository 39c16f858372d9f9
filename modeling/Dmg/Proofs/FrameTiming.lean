import Dmg.Video.Ppu

/-!
Where the picture processor stands in its frame.  It depends on nothing but the number of cycles
with the display on since it was switched on, whatever is written to the registers meanwhile.
-/

namespace Dmg

inductive SpaceOperation
  | write (address : UInt16) (value : UInt8)
  | loadImage (image : List UInt8)
  | setLine (line : UInt8)
  | setMode (code : UInt8)
  | request (interrupt : Interrupt)
  | listen

def AddressSpace.apply (space : AddressSpace) : SpaceOperation → AddressSpace
  | .write address value => space.write address value
  | .loadImage image => space.loadImage image
  | .setLine line => space.setLine line
  | .setMode code => space.setMode code
  | .request interrupt => space.request interrupt
  | .listen => space.listen

structure Display where
  ppu : Ppu := {}
  space : AddressSpace := {}

namespace Display

inductive Event
  | tick
  | operate (operation : SpaceOperation)

def tick (display : Display) : Display :=
  let (ppu, space) := display.ppu.tick display.space
  { ppu, space }

def after (display : Display) : Event → Display
  | .tick => display.tick
  | .operate operation => { display with space := display.space.apply operation }

def run (display : Display) (events : List Event) : Display :=
  events.foldl after display

def lit (display : Display) : Bool := display.space.lcdEnabled

def countTicks (condition : Display → Bool) (display : Display) : List Event → Nat
  | [] => 0
  | .tick :: rest => (condition display).toNat + countTicks condition display.tick rest
  | .operate operation :: rest => countTicks condition (display.after (.operate operation)) rest

def litTicks (display : Display) (events : List Event) : Nat := display.countTicks lit events

end Display

namespace Mode

def begins : Mode → Nat
  | oamScan => 0
  | drawing => 80
  | hblank => 252
  | vblank => 0

def ends : Mode → Nat
  | oamScan => 80
  | drawing => 252
  | hblank => 456
  | vblank => 456

def scheduled (line cycle : Nat) : Mode :=
  if 144 ≤ line then vblank
  else if cycle < 80 then oamScan
  else if cycle < 252 then drawing
  else hblank

end Mode

namespace Ppu

/-- Stands where a processor stands after a number of cycles with the display on. -/
structure Stands (ppu : Ppu) (count : Nat) : Prop where
  due : 1 ≤ ppu.remaining
  begun : 456 * ppu.line + ppu.mode.begins ≤ count % 70224
  left : count % 70224 + ppu.remaining = 456 * ppu.line + ppu.mode.ends
  visible : ppu.mode = .vblank ↔ 144 ≤ ppu.line
  frames : ppu.frames = (count + 4764) / 70224

theorem stands_start : ({} : Ppu).Stands 0 :=
  ⟨by decide, by decide, by decide, by decide, by decide⟩

theorem tick_dark (ppu : Ppu) {space : AddressSpace} (dark : space.lcdEnabled = false) :
    ppu.tick space = (ppu, space) := by
  simp only [tick, dark, Bool.false_eq_true, if_false]

theorem tick_counting {ppu : Ppu} {space : AddressSpace} (lit : space.lcdEnabled = true)
    (more : 1 < ppu.remaining) :
    ppu.tick space = ({ ppu with remaining := ppu.remaining - 1 }, space) := by
  simp only [tick, lit, more, if_true]

theorem tick_due {ppu : Ppu} {space : AddressSpace} (lit : space.lcdEnabled = true)
    (last : ppu.remaining ≤ 1) : ppu.tick space = ppu.next space := by
  simp only [tick, lit, Nat.not_lt.mpr last, if_true, if_false]

/-! What becomes of a mode whose cycles are over. -/

@[simp] theorem fst_enter (ppu : Ppu) (mode : Mode) (space : AddressSpace) :
    (ppu.enter mode space).1 = { ppu with mode, remaining := mode.cycles } := rfl

@[simp] theorem fst_setLine (ppu : Ppu) (line : Nat) (space : AddressSpace) :
    (ppu.setLine line space).1 = { ppu with line } := rfl

theorem draw_eq (ppu : Ppu) (space : AddressSpace) :
    ppu.draw space = { ppu with
      background := .ofSpace space
      frame := ppu.frame.setRow ppu.line ((Background.ofSpace space).viewportRow
        space.mapped.scrollX (UInt8.ofNat ppu.line + space.mapped.scrollY)) } := rfl

variable {ppu : Ppu} (space : AddressSpace)

theorem next_oamScan (mode : ppu.mode = .oamScan) :
    ppu.next space =
      ((ppu.enter .drawing space).1.draw (ppu.enter .drawing space).2,
        (ppu.enter .drawing space).2) := by
  simp only [next, mode]

theorem next_drawing (mode : ppu.mode = .drawing) :
    ppu.next space =
      { ppu with frames := ppu.frames + if ppu.line + 1 = 144 then 1 else 0 }.enter .hblank
        space := by
  simp only [next, mode]
  rfl

theorem next_hblank (mode : ppu.mode = .hblank) :
    ppu.next space =
      (ppu.setLine (ppu.line + 1) space).1.enter
        (if ppu.line + 1 = 144 then .vblank else .oamScan)
        (ppu.setLine (ppu.line + 1) space).2 := by
  simp only [next, mode, setLine, visibleLines]

theorem next_vblank_last (mode : ppu.mode = .vblank) (last : ppu.line = 153) :
    ppu.next space = (ppu.setLine 0 space).1.enter .oamScan (ppu.setLine 0 space).2 := by
  simp only [next, mode, last, linesPerFrame, if_true]

theorem next_vblank_line (mode : ppu.mode = .vblank) (more : ppu.line ≠ 153) :
    ppu.next space = { ppu with remaining := 456 }.setLine (ppu.line + 1) space := by
  have apart : ppu.line + 1 ≠ linesPerFrame := by
    simp only [linesPerFrame]
    omega
  simp only [next, mode, apart, if_false, cyclesPerLine]

/-! The closed form, one tick at a time. -/

variable {count : Nat} {space}

theorem Stands.counting (stands : ppu.Stands count) (more : 1 < ppu.remaining) :
    ({ ppu with remaining := ppu.remaining - 1 } : Ppu).Stands (count + 1) := by
  obtain ⟨due, begun, left, visible, frames⟩ := stands
  cases mode : ppu.mode
  all_goals
    simp only [mode, Mode.begins, Mode.ends, reduceCtorEq, false_iff, true_iff]
      at begun left visible
    constructor <;> simp only [Mode.begins, Mode.ends, reduceCtorEq, false_iff, true_iff] <;> omega

theorem Stands.next (stands : ppu.Stands count) (last : ppu.remaining ≤ 1) :
    (ppu.next space).1.Stands (count + 1) := by
  obtain ⟨due, begun, left, visible, frames⟩ := stands
  cases mode : ppu.mode with
  | oamScan =>
      simp only [mode, Mode.begins, Mode.ends, reduceCtorEq, false_iff] at begun left visible
      rw [next_oamScan space mode]
      constructor <;> simp [draw_eq, Mode.cycles, Mode.begins, Mode.ends] <;> omega
  | drawing =>
      simp only [mode, Mode.begins, Mode.ends, reduceCtorEq, false_iff] at begun left visible
      rw [next_drawing space mode]
      by_cases lastVisible : ppu.line + 1 = 144 <;>
        constructor <;> simp [lastVisible, Mode.cycles, Mode.begins, Mode.ends] <;> omega
  | hblank =>
      simp only [mode, Mode.begins, Mode.ends, reduceCtorEq, false_iff] at begun left visible
      rw [next_hblank space mode]
      by_cases lastVisible : ppu.line + 1 = 144 <;>
        constructor <;> simp [lastVisible, Mode.cycles, Mode.begins, Mode.ends] <;> omega
  | vblank =>
      simp only [mode, Mode.begins, Mode.ends, true_iff] at begun left visible
      by_cases lastLine : ppu.line = 153
      · rw [next_vblank_last space mode lastLine]
        constructor <;> simp [Mode.cycles, Mode.begins, Mode.ends] <;> omega
      · rw [next_vblank_line space mode lastLine]
        constructor <;> simp [mode, Mode.begins, Mode.ends] <;> omega

theorem Stands.tick_lit (stands : ppu.Stands count) (lit : space.lcdEnabled = true) :
    (ppu.tick space).1.Stands (count + 1) := by
  by_cases more : 1 < ppu.remaining
  · rw [tick_counting lit more]
    exact stands.counting more
  · rw [tick_due lit (Nat.le_of_not_lt more)]
    exact stands.next (Nat.le_of_not_lt more)

theorem Stands.tick (stands : ppu.Stands count) (space : AddressSpace) :
    (ppu.tick space).1.Stands (count + space.lcdEnabled.toNat) := by
  cases lit : space.lcdEnabled with
  | true => exact stands.tick_lit lit
  | false =>
      rw [tick_dark ppu lit]
      exact stands

theorem Stands.line_eq (stands : ppu.Stands count) : ppu.line = count % 70224 / 456 := by
  obtain ⟨due, begun, left, _, _⟩ := stands
  have ends : ppu.mode.ends ≤ 456 := by cases ppu.mode <;> decide
  omega

theorem Stands.mode_eq (stands : ppu.Stands count) :
    ppu.mode = .scheduled (count % 70224 / 456) (count % 70224 % 456) := by
  have line := stands.line_eq
  obtain ⟨due, begun, left, visible, _⟩ := stands
  cases mode : ppu.mode
  all_goals
    simp only [mode, Mode.begins, Mode.ends, reduceCtorEq, false_iff, true_iff]
      at begun left visible
    simp only [Mode.scheduled]
    grind

theorem Stands.remaining_eq (stands : ppu.Stands count) :
    ppu.remaining =
      (Mode.scheduled (count % 70224 / 456) (count % 70224 % 456)).ends - count % 70224 % 456 := by
  have line := stands.line_eq
  have left := stands.left
  rw [← stands.mode_eq]
  omega

end Ppu

namespace Display

theorem stands_run {display : Display} {count : Nat} (stands : display.ppu.Stands count)
    (events : List Event) :
    (display.run events).ppu.Stands (count + display.litTicks events) := by
  induction events generalizing display count with
  | nil => exact stands
  | cons event rest ih =>
      cases event with
      | tick =>
          have later := @ih display.tick _ (stands.tick display.space)
          rw [Nat.add_assoc] at later
          exact later
      | operate operation => exact @ih (display.after (.operate operation)) _ stands

/-- How often a tick of one place in the frame comes in a run. -/
theorem countTicks_of_period {condition : Display → Bool} {offset : Nat}
    (periodic : ∀ {display : Display} {count : Nat}, display.ppu.Stands count →
      (condition display = true ↔ display.lit = true ∧ 70224 ∣ count + 1 + offset))
    {display : Display} {count : Nat} (stands : display.ppu.Stands count) (events : List Event) :
    display.countTicks condition events + (count + offset) / 70224 =
      (count + display.litTicks events + offset) / 70224 := by
  induction events generalizing display count with
  | nil =>
      simp only [countTicks, litTicks]
      omega
  | cons event rest ih =>
      cases event with
      | operate operation => exact @ih (display.after (.operate operation)) _ stands
      | tick =>
          -- The quotient steps up on exactly the ticks that are counted.
          have here := periodic stands
          have later := @ih display.tick _ (stands.tick display.space)
          simp only [litTicks, countTicks] at later ⊢
          change _ + (count + display.lit.toNat + _) / _ = (count + display.lit.toNat + _ + _) / _
            at later
          cases lit : display.lit <;> cases holds : condition display <;>
            simp only [lit, holds, Bool.toNat_true, Bool.toNat_false, true_iff, reduceCtorEq,
              false_and, true_and, false_iff] at here later ⊢ <;> omega

theorem countTicks_frame {condition : Display → Bool} {offset : Nat}
    (periodic : ∀ {display : Display} {count : Nat}, display.ppu.Stands count →
      (condition display = true ↔ display.lit = true ∧ 70224 ∣ count + 1 + offset))
    {display : Display} {count : Nat} (stands : display.ppu.Stands count) {events : List Event}
    (frame : display.litTicks events = 70224) : display.countTicks condition events = 1 := by
  have whole := countTicks_of_period periodic stands events
  omega

/-- The closed form of the timing.  Line, mode, the cycles left in it and the number of frames
follow from the number of ticks with the display on, in every run. -/
theorem timing_closed_form (start : AddressSpace) (events : List Event) :
    let ppu := (Display.run { space := start } events).ppu
    let count := Display.litTicks { space := start } events
    let line := count % 70224 / 456
    let cycle := count % 70224 % 456
    ppu.line = line ∧ ppu.mode = .scheduled line cycle ∧
      ppu.remaining = (Mode.scheduled line cycle).ends - cycle ∧
      ppu.frames = (count + 4764) / 70224 := by
  intro ppu count line cycle
  have stands : ppu.Stands count := by
    have whole := @stands_run { space := start } 0 Ppu.stands_start events
    rwa [Nat.zero_add] at whole
  exact ⟨stands.line_eq, stands.mode_eq, stands.remaining_eq, stands.frames⟩

end Display

end Dmg
