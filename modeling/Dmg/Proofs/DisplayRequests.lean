import Dmg.Proofs.FrameTiming
import Dmg.Proofs.StatusRegister

/-!
What a tick of the picture processor does to the address space: it publishes line and mode where
they change, and requests the interrupts that go with the change.
-/

namespace Dmg

namespace Mapped

def addRequests (mapped : Mapped) (bits : UInt8) : Mapped :=
  { mapped with requested := mapped.requested ||| bits }

variable (mapped : Mapped) (bits : UInt8)

@[simp] theorem addRequests_zero : mapped.addRequests 0 = mapped := by
  rw [addRequests, UInt8.or_zero]

@[simp] theorem addRequests_addRequests (more : UInt8) :
    (mapped.addRequests bits).addRequests more = mapped.addRequests (bits ||| more) := by
  simp only [addRequests, UInt8.or_assoc]

@[simp] theorem setMode_addRequests (code : UInt8) :
    (mapped.addRequests bits).setMode code = (mapped.setMode code).addRequests bits := rfl

@[simp] theorem status_addRequests : (mapped.addRequests bits).status = mapped.status := rfl

end Mapped

namespace AddressSpace

structure LooksLike (left right : AddressSpace) : Prop where
  background : Background.ofSpace left = .ofSpace right
  scrollX : left.mapped.scrollX = right.mapped.scrollX
  scrollY : left.mapped.scrollY = right.mapped.scrollY

end AddressSpace

namespace Ppu

def lineRequest (status compare : UInt8) (line : Nat) : UInt8 :=
  if UInt8.ofNat line = compare ∧ status &&& StatusBit.lineSelect ≠ 0 then 0x02 else 0

def modeRequest (status : UInt8) : Mode → UInt8
  | .hblank => if status &&& StatusBit.hblankSelect ≠ 0 then 0x02 else 0
  | .vblank => 0x01 ||| if status &&& StatusBit.vblankSelect ≠ 0 then 0x02 else 0
  | .oamScan => if status &&& StatusBit.oamSelect ≠ 0 then 0x02 else 0
  | .drawing => 0

theorem modeRequest_congr {left right : UInt8} (same : left &&& 0x78 = right &&& 0x78)
    (mode : Mode) : modeRequest left mode = modeRequest right mode := by
  have hblank := and_congr_of_part same (by decide : 0x78 &&& StatusBit.hblankSelect = _)
  have vblank := and_congr_of_part same (by decide : 0x78 &&& StatusBit.vblankSelect = _)
  have oamScan := and_congr_of_part same (by decide : 0x78 &&& StatusBit.oamSelect = _)
  cases mode <;> simp only [modeRequest, hblank, vblank, oamScan]

theorem requestIf_eq (space : AddressSpace) (condition : Bool) :
    requestIf space condition .lcdStat =
      space.mapMapped (·.addRequests (if condition then 0x02 else 0)) := by
  cases condition with
  | true => rfl
  | false => simp [requestIf, AddressSpace.mapMapped]

theorem space_setLine (ppu : Ppu) (line : Nat) (space : AddressSpace) :
    (ppu.setLine line space).2 = space.mapMapped fun mapped =>
      (mapped.setLine (UInt8.ofNat line)).addRequests
        (lineRequest mapped.status mapped.lineCompare line) := by
  obtain ⟨ram, mapped, serial⟩ := space
  have select : (mapped.setLine (UInt8.ofNat line)).status &&& StatusBit.lineSelect =
      mapped.status &&& StatusBit.lineSelect :=
    and_congr_of_part (mapped.status_setLine_rest _) (by decide)
  simp only [setLine, requestIf_eq, selected, AddressSpace.setLine, AddressSpace.mapMapped,
    Mapped.coincidence_setLine, select, lineRequest, Bool.and_eq_true, decide_eq_true_iff,
    bne_iff_ne]

theorem space_enter (ppu : Ppu) (mode : Mode) (space : AddressSpace) :
    (ppu.enter mode space).2 = space.mapMapped fun mapped =>
      (mapped.setMode mode.code).addRequests (modeRequest mapped.status mode) := by
  obtain ⟨ram, mapped, serial⟩ := space
  have own : ∀ mapped : Mapped, mapped.request .vblank = mapped.addRequests 0x01 := fun _ => rfl
  have same : (mapped.setMode mode.code).status &&& 0x78 = mapped.status &&& 0x78 :=
    and_congr_of_part (mapped.status_setMode_rest _) (by decide)
  simp only [AddressSpace.mapMapped, ← modeRequest_congr same]
  cases mode <;>
    simp [enter, announce, requestIf_eq, selected, modeRequest, AddressSpace.mapMapped,
      AddressSpace.setMode, AddressSpace.request, own]

def newRequests (ppu next : Ppu) (mapped : Mapped) : UInt8 :=
  (if next.line = ppu.line then 0
    else lineRequest mapped.status mapped.lineCompare next.line) |||
  if next.mode = ppu.mode then 0 else modeRequest mapped.status next.mode

def turned (ppu next : Ppu) (mapped : Mapped) : Mapped :=
  if next.line = ppu.line then mapped else mapped.setLine (UInt8.ofNat next.line)

def shown (ppu next : Ppu) (mapped : Mapped) : Mapped :=
  if next.mode = ppu.mode then turned ppu next mapped
  else (turned ppu next mapped).setMode next.mode.code

/-- A tick publishes line and mode if they change, and adds its requests; it does nothing else to
the address space. -/
theorem space_tick (ppu : Ppu) {space : AddressSpace} (lit : space.lcdEnabled = true) :
    (ppu.tick space).2 = space.mapMapped fun mapped =>
      (shown ppu (ppu.tick space).1 mapped).addRequests
        (newRequests ppu (ppu.tick space).1 mapped) := by
  obtain ⟨ram, mapped, serial⟩ := space
  have select (line : UInt8) (mode : Mode) :
      modeRequest (mapped.setLine line).status mode = modeRequest mapped.status mode :=
    modeRequest_congr (and_congr_of_part (mapped.status_setLine_rest line) (by decide)) mode
  by_cases more : 1 < ppu.remaining
  · simp [tick_counting lit more, shown, turned, newRequests, AddressSpace.mapMapped]
  · rw [tick_due lit (Nat.le_of_not_lt more)]
    cases mode : ppu.mode with
    | oamScan =>
        simp [next_oamScan _ mode, space_enter, draw_eq, shown, turned, newRequests, mode,
          AddressSpace.mapMapped]
    | drawing =>
        simp [next_drawing _ mode, space_enter, shown, turned, newRequests, mode,
          AddressSpace.mapMapped]
    | hblank =>
        by_cases lastVisible : ppu.line + 1 = 144
        · have later : 144 ≠ ppu.line := by omega
          simp [next_hblank _ mode, space_enter, space_setLine, shown, turned, newRequests, mode,
            lastVisible, later, select, AddressSpace.mapMapped]
        · simp [next_hblank _ mode, space_enter, space_setLine, shown, turned, newRequests, mode,
            lastVisible, select, AddressSpace.mapMapped]
    | vblank =>
        by_cases lastLine : ppu.line = 153
        · simp [next_vblank_last _ mode lastLine, space_enter, space_setLine, shown, turned,
            newRequests, mode, lastLine, select, AddressSpace.mapMapped]
        · simp [next_vblank_line _ mode lastLine, space_setLine, shown, turned, newRequests,
            mode, AddressSpace.mapMapped]

/-! What the picture processor itself becomes. -/

theorem draw_congr {left right : AddressSpace} (alike : left.LooksLike right) (ppu : Ppu) :
    ppu.draw left = ppu.draw right := by
  rw [draw_eq, draw_eq, alike.background, alike.scrollX, alike.scrollY]

theorem fst_next_congr {left right : AddressSpace} (alike : left.LooksLike right) (ppu : Ppu) :
    (ppu.next left).1 = (ppu.next right).1 := by
  cases mode : ppu.mode with
  | oamScan =>
      rw [next_oamScan _ mode, next_oamScan _ mode, space_enter, space_enter]
      exact draw_congr ⟨alike.background, alike.scrollX, alike.scrollY⟩ _
  | drawing => rw [next_drawing _ mode, next_drawing _ mode, fst_enter, fst_enter]
  | hblank =>
      rw [next_hblank _ mode, next_hblank _ mode]
      rfl
  | vblank =>
      by_cases last : ppu.line = 153
      · rw [next_vblank_last _ mode last, next_vblank_last _ mode last]
        rfl
      · rw [next_vblank_line _ mode last, next_vblank_line _ mode last]
        rfl

/-- The new picture processor depends on what it sees of the address space, and on no more. -/
theorem fst_tick_congr {left right : AddressSpace} (alike : left.LooksLike right) (ppu : Ppu) :
    (ppu.tick left).1 = (ppu.tick right).1 := by
  have same : left.lcdEnabled = right.lcdEnabled :=
    congrArg (fun view : Background => view.control &&& ControlBit.enable != 0) alike.background
  cases lit : right.lcdEnabled with
  | false => rw [tick_dark ppu lit, tick_dark ppu (same.trans lit)]
  | true =>
      by_cases more : 1 < ppu.remaining
      · rw [tick_counting lit more, tick_counting (same.trans lit) more]
      · have due := Nat.le_of_not_lt more
        rw [tick_due lit due, tick_due (same.trans lit) due, fst_next_congr alike]

/-! When lines begin and modes are entered. -/

def Enters (ppu next : Ppu) (mode : Mode) : Prop := ppu.mode ≠ mode ∧ next.mode = mode

instance (ppu next : Ppu) (mode : Mode) : Decidable (Enters ppu next mode) :=
  inferInstanceAs (Decidable (_ ∧ _))

def LineRequest (ppu next : Ppu) (status compare : UInt8) : Prop :=
  next.line ≠ ppu.line ∧ UInt8.ofNat next.line = compare ∧ status &&& 0x40 ≠ 0

def ModeRequest (ppu next : Ppu) (status : UInt8) : Prop :=
  (Enters ppu next .hblank ∧ status &&& 0x08 ≠ 0) ∨
    (Enters ppu next .vblank ∧ status &&& 0x10 ≠ 0) ∨
    (Enters ppu next .oamScan ∧ status &&& 0x20 ≠ 0)

instance (ppu next : Ppu) (status compare : UInt8) :
    Decidable (LineRequest ppu next status compare) :=
  inferInstanceAs (Decidable (_ ∧ _))

instance (ppu next : Ppu) (status : UInt8) : Decidable (ModeRequest ppu next status) :=
  inferInstanceAs (Decidable (_ ∨ _))

theorem line_next {ppu next : Ppu} {count : Nat} (stands : ppu.Stands count)
    (after : next.Stands (count + 1)) (turned : next.line ≠ ppu.line) :
    next.line = (ppu.line + 1) % 154 := by
  have before := stands.line_eq
  have later := after.line_eq
  omega

theorem enters_vblank_iff {ppu next : Ppu} {count : Nat} (stands : ppu.Stands count)
    (after : next.Stands (count + 1)) :
    Enters ppu next .vblank ↔ next.line = 144 ∧ ppu.line ≠ 144 := by
  have before := stands.line_eq
  have later := after.line_eq
  rw [Enters, ne_eq, stands.visible, after.visible]
  omega

theorem lineRequest_eq (ppu next : Ppu) (status compare : UInt8) :
    (if next.line = ppu.line then 0 else lineRequest status compare next.line) =
      if LineRequest ppu next status compare then 0x02 else 0 := by
  by_cases turned : next.line = ppu.line
  · simp [LineRequest, turned]
  · have asked : LineRequest ppu next status compare ↔
        UInt8.ofNat next.line = compare ∧ status &&& StatusBit.lineSelect ≠ 0 := by
      simp [LineRequest, turned, StatusBit.lineSelect]
    simp only [lineRequest, turned, asked, if_false]

theorem modeRequest_eq (ppu next : Ppu) (status : UInt8) :
    (if next.mode = ppu.mode then 0 else modeRequest status next.mode) =
      (if Enters ppu next .vblank then 0x01 else 0) |||
        if ModeRequest ppu next status then 0x02 else 0 := by
  by_cases changed : next.mode = ppu.mode
  · have nothing : ∀ mode, ¬ Enters ppu next mode := fun mode entered =>
      entered.1 (changed.symm.trans entered.2)
    simp [ModeRequest, changed, nothing]
  · have entered : ∀ mode, Enters ppu next mode ↔ next.mode = mode := fun mode =>
      ⟨And.right, fun same => ⟨fun before => changed (same.trans before.symm), same⟩⟩
    rw [if_neg changed]
    cases mode : next.mode with
    | hblank =>
        have asked : ModeRequest ppu next status ↔ status &&& StatusBit.hblankSelect ≠ 0 := by
          simp [ModeRequest, entered, mode, StatusBit.hblankSelect]
        simp only [modeRequest, entered, mode, asked, reduceCtorEq, if_false, UInt8.zero_or]
    | vblank =>
        have asked : ModeRequest ppu next status ↔ status &&& StatusBit.vblankSelect ≠ 0 := by
          simp [ModeRequest, entered, mode, StatusBit.vblankSelect]
        simp only [modeRequest, entered, mode, asked, if_true]
    | oamScan =>
        have asked : ModeRequest ppu next status ↔ status &&& StatusBit.oamSelect ≠ 0 := by
          simp [ModeRequest, entered, mode, StatusBit.oamSelect]
        simp only [modeRequest, entered, mode, asked, reduceCtorEq, if_false, UInt8.zero_or]
    | drawing => simp [modeRequest, ModeRequest, entered, mode]

theorem newRequests_eq (ppu next : Ppu) (mapped : Mapped) :
    newRequests ppu next mapped = (if Enters ppu next .vblank then 0x01 else 0) |||
      if LineRequest ppu next mapped.status mapped.lineCompare ∨
        ModeRequest ppu next mapped.status then 0x02 else 0 := by
  simp only [newRequests, lineRequest_eq, modeRequest_eq]
  by_cases matched : LineRequest ppu next mapped.status mapped.lineCompare <;>
    by_cases entered : ModeRequest ppu next mapped.status <;>
    by_cases blank : Enters ppu next .vblank <;> simp [matched, entered, blank] <;> rfl

theorem newRequests_vblank (ppu next : Ppu) (mapped : Mapped) :
    newRequests ppu next mapped &&& 0x01 ≠ 0 ↔ Enters ppu next .vblank := by
  rw [newRequests_eq]
  by_cases blank : Enters ppu next .vblank <;>
    by_cases other : LineRequest ppu next mapped.status mapped.lineCompare ∨
      ModeRequest ppu next mapped.status <;> simp [blank, other] <;> decide

/-- What a tick with the display on does, said of the registers as they are read. -/
structure Publishes (ppu next : Ppu) (space after : AddressSpace) : Prop where
  successor : next.line ≠ ppu.line → next.line = (ppu.line + 1) % 154
  line : after.peek 0xFF44 =
    if next.line = ppu.line then space.peek 0xFF44 else UInt8.ofNat next.line
  comparison : after.peek 0xFF41 &&& 0x04 =
    if next.line = ppu.line then space.peek 0xFF41 &&& 0x04
    else if after.peek 0xFF44 = after.peek 0xFF45 then 0x04 else 0
  mode : after.peek 0xFF41 &&& 0x03 =
    if next.mode = ppu.mode then space.peek 0xFF41 &&& 0x03 else next.mode.code
  selects : after.peek 0xFF41 &&& 0xF8 = space.peek 0xFF41 &&& 0xF8
  requests : after.peek 0xFF0F = space.peek 0xFF0F |||
    ((if next.line = 144 ∧ ppu.line ≠ 144 then 0x01 else 0) |||
      if LineRequest ppu next (space.peek 0xFF41) (space.peek 0xFF45) ∨
        ModeRequest ppu next (space.peek 0xFF41) then 0x02 else 0)
  others : ∀ address, address ≠ 0xFF44 → address ≠ 0xFF41 → address ≠ 0xFF0F →
    after.peek address = space.peek address
  hidden : after.ram = space.ram ∧ after.serial = space.serial
  idle : next.line = ppu.line → next.mode = ppu.mode → after = space

/-! The registers that a tick publishes. -/

section Shown

variable (ppu next : Ppu) (mapped : Mapped)

theorem line_shown : (shown ppu next mapped).line =
    if next.line = ppu.line then mapped.line else UInt8.ofNat next.line := by
  simp only [shown, turned]
  split <;> split <;> rfl

theorem read_shown {register : MappedRegister} (kept : register ∉ [.status, .line]) :
    (shown ppu next mapped).read register = mapped.read register := by
  simp only [shown, turned]
  split <;> split <;> cases register <;> first | rfl | simp at kept

theorem status_turned : (turned ppu next mapped).status &&& 0x04 =
    if next.line = ppu.line then mapped.status &&& 0x04
    else if UInt8.ofNat next.line = mapped.lineCompare then 0x04 else 0 := by
  rw [turned]
  split
  · rfl
  · exact mapped.status_setLine _

theorem status_turned_rest :
    (turned ppu next mapped).status &&& 0xFB = mapped.status &&& 0xFB := by
  rw [turned]
  split
  · rfl
  · exact mapped.status_setLine_rest _

theorem status_shown : (shown ppu next mapped).status &&& 0x03 =
    if next.mode = ppu.mode then mapped.status &&& 0x03 else next.mode.code := by
  have own : next.mode.code &&& 0x03 = next.mode.code := by
    cases next.mode <;> rfl
  rw [shown]
  split
  · exact and_congr_of_part (status_turned_rest ppu next mapped) (by decide)
  · exact (Mapped.status_setMode _ _).trans own

theorem status_shown_rest :
    (shown ppu next mapped).status &&& 0xFC = (turned ppu next mapped).status &&& 0xFC := by
  rw [shown]
  split
  · rfl
  · exact Mapped.status_setMode_rest _ _

theorem sound_shown {mapped : Mapped} (sound : mapped.Sound) : (shown ppu next mapped).Sound := by
  have line : (turned ppu next mapped).Sound := by
    rw [turned]
    split
    · exact sound
    · exact sound.write .line _
  rw [shown]
  split
  · exact line
  · exact line.setMode _

theorem read_tick (space : AddressSpace) {register : MappedRegister}
    (kept : register ∉ [.status, .line, .requested]) :
    (ppu.tick space).2.mapped.read register = space.mapped.read register := by
  cases lit : space.lcdEnabled with
  | false => rw [tick_dark ppu lit]
  | true =>
      simp only [List.mem_cons, List.not_mem_nil, or_false, not_or] at kept
      rw [space_tick ppu lit]
      have shows := read_shown ppu (ppu.tick space).1 space.mapped (by simp [kept] : register ∉ _)
      rw [← shows]
      cases register <;> first | rfl | simp at kept

theorem ram_tick (space : AddressSpace) : (ppu.tick space).2.ram = space.ram := by
  cases lit : space.lcdEnabled with
  | false => rw [tick_dark ppu lit]
  | true =>
      rw [space_tick ppu lit]
      rfl

theorem requested_tick {space : AddressSpace} (lit : space.lcdEnabled = true) :
    (ppu.tick space).2.mapped.requested =
      space.mapped.requested ||| newRequests ppu (ppu.tick space).1 space.mapped := by
  have kept : (shown ppu (ppu.tick space).1 space.mapped).requested = space.mapped.requested :=
    read_shown ppu _ space.mapped (by decide : MappedRegister.requested ∉ _)
  rw [space_tick ppu lit]
  exact congrArg (· ||| _) kept

end Shown

theorem tick_sound {ppu : Ppu} {space : AddressSpace} (sound : space.mapped.Sound)
    (lit : space.lcdEnabled = true) : (ppu.tick space).2.mapped.Sound := by
  rw [space_tick ppu lit]
  exact sound_shown _ _ sound

theorem tick_publishes {ppu : Ppu} {count : Nat} (stands : ppu.Stands count)
    {space : AddressSpace} (lit : space.lcdEnabled = true) :
    Publishes ppu (ppu.tick space).1 space (ppu.tick space).2 := by
  have later := stands.tick_lit lit
  have kept (register : MappedRegister) := @ppu.read_tick space register
  have requested := ppu.requested_tick lit
  have effect := space_tick ppu lit
  generalize (ppu.tick space).1 = next at later requested effect ⊢
  generalize (ppu.tick space).2 = after at kept requested effect ⊢
  have compare : after.mapped.lineCompare = space.mapped.lineCompare :=
    kept .lineCompare (by decide)
  have line : after.mapped.line =
      if next.line = ppu.line then space.mapped.line else UInt8.ofNat next.line := by
    rw [effect]
    exact line_shown ppu next space.mapped
  have status : after.mapped.status = (shown ppu next space.mapped).status := by
    rw [effect]
    rfl
  constructor
  case successor => exact line_next stands later
  case line => exact line
  case comparison =>
    change after.mapped.status &&& 0x04 = if _ then space.mapped.status &&& 0x04
      else if after.mapped.line = after.mapped.lineCompare then 0x04 else 0
    rw [status, line, compare,
      and_congr_of_part (status_shown_rest ppu next space.mapped) (by decide), status_turned]
    split <;> rfl
  case mode =>
    change after.mapped.status &&& 0x03 = _
    rw [status]
    exact status_shown ppu next space.mapped
  case selects =>
    change after.mapped.status &&& 0xF8 = space.mapped.status &&& 0xF8
    rw [status, and_congr_of_part (status_shown_rest ppu next space.mapped) (by decide),
      and_congr_of_part (status_turned_rest ppu next space.mapped) (by decide)]
  case requests =>
    have turn := enters_vblank_iff stands later
    change after.mapped.requested = space.mapped.requested ||| (_ |||
      if LineRequest ppu next space.mapped.status space.mapped.lineCompare ∨
        ModeRequest ppu next space.mapped.status then 0x02 else 0)
    simp only [requested, ← turn, ← newRequests_eq]
  case others =>
    intro address notLine notStatus notRequested
    simp only [AddressSpace.peek]
    cases found : MappedRegister.ofAddress? address with
    | none =>
        rw [effect]
        rfl
    | some register =>
        obtain rfl := (MappedRegister.ofAddress?_eq_some_iff _ _).mp found
        refine kept register ?_
        simp only [List.mem_cons, List.not_mem_nil, or_false, not_or]
        exact ⟨fun own => notStatus (own ▸ rfl), fun own => notLine (own ▸ rfl),
          fun own => notRequested (own ▸ rfl)⟩
  case hidden =>
    rw [effect]
    exact ⟨rfl, rfl⟩
  case idle =>
    intro sameLine sameMode
    rw [effect]
    simp [sameLine, sameMode, shown, turned, newRequests, AddressSpace.mapMapped]

end Ppu

namespace Display

/-- The requests of the next tick: those that stand behind it if none stood before. -/
def requests (display : Display) : UInt8 :=
  (display.ppu.tick (display.space.write 0xFF0F 0)).2.peek 0xFF0F

def requestsVblank (display : Display) : Bool := display.requests &&& 0x01 != 0

theorem requestsVblank_iff {display : Display} {count : Nat} (stands : display.ppu.Stands count) :
    display.requestsVblank = true ↔ display.lit = true ∧ 70224 ∣ count + 1 + 4560 := by
  have same : (display.space.write 0xFF0F 0).lcdEnabled = display.lit := rfl
  cases lit : display.lit with
  | false =>
      have nothing : display.requests = 0 := by
        rw [requests, Ppu.tick_dark _ (same.trans lit)]
        rfl
      simp [requestsVblank, nothing]
  | true =>
      have later := stands.tick_lit (same.trans lit)
      have before := stands.line_eq
      have behind := later.line_eq
      have made : display.requests = 0 ||| Ppu.newRequests display.ppu _ _ :=
        display.ppu.requested_tick (same.trans lit)
      rw [requestsVblank, made, UInt8.zero_or, bne_iff_ne, Ppu.newRequests_vblank,
        Ppu.enters_vblank_iff stands later, eq_self, true_and]
      omega

theorem lit_tick (display : Display) : display.tick.lit = display.lit :=
  congrArg (· &&& ControlBit.enable != 0)
    (display.ppu.read_tick display.space (by decide : MappedRegister.control ∉ _))

theorem litTicks_replicate {display : Display} (lit : display.lit = true) (count : Nat) :
    display.litTicks (List.replicate count .tick) = count := by
  induction count generalizing display with
  | zero => rfl
  | succ count ih =>
      have rest := ih (display.lit_tick.trans lit)
      rw [litTicks] at rest ⊢
      rw [List.replicate_succ, countTicks, rest, lit, Bool.toNat_true, Nat.add_comm]

/-- The effects of a tick on the address space, in every state of every run.  With the display off
there are none, and with it on there are those of `Publishes` only.  So the vertical blank is
requested once in every frame's worth of ticks. -/
theorem tick_effects (start : AddressSpace) (events : List Event) :
    let display := Display.run { space := start } events
    (∀ space : AddressSpace, space.lcdEnabled = false →
      display.ppu.tick space = (display.ppu, space)) ∧
    (∀ space : AddressSpace, space.lcdEnabled = true →
      Ppu.Publishes display.ppu (display.ppu.tick space).1 space (display.ppu.tick space).2) ∧
    ∀ window : List Event, display.litTicks window = 70224 →
      display.countTicks requestsVblank window = 1 := by
  intro display
  have stands := @stands_run { space := start } 0 Ppu.stands_start events
  refine ⟨fun space dark => Ppu.tick_dark _ dark, fun space lit => ?_, fun window => ?_⟩
  · exact Ppu.tick_publishes stands lit
  · exact countTicks_frame requestsVblank_iff stands

theorem tick_effects_start :
    (({} : Ppu).tick (.write {} 0xFF40 0x11) = ({}, .write {} 0xFF40 0x11)) ∧
    Ppu.Publishes {} (({} : Ppu).tick {}).1 {} (({} : Ppu).tick {}).2 ∧
    countTicks requestsVblank {} (List.replicate 70224 .tick) = 1 := by
  obtain ⟨dark, published, frame⟩ := tick_effects {} []
  exact ⟨dark (.write {} 0xFF40 0x11) (by decide), published {} (by decide),
    frame _ (litTicks_replicate (by decide) 70224)⟩

end Display

end Dmg
