import Dmg.Proofs.DisplayRequests
import Dmg.Proofs.Rendering

/-!
Where the pixels of a frame come from.  Each row is what the display showed of the background when
the row was last drawn, and every frame's worth of ticks draws every row once.
-/

namespace Dmg

namespace Frame

theorem toList_foldl_pushPixel (row : List Shade) (bytes : Array UInt8) :
    (row.foldl pushPixel bytes).toList = bytes.toList ++ row.flatMap Shade.bytes := by
  induction row generalizing bytes with
  | nil => simp
  | cons shade rest ih =>
      simp only [List.foldl_cons, ih, List.flatMap_cons, pushPixel, Array.toList_push, Shade.bytes,
        List.append_assoc, List.cons_append, List.nil_append]

theorem toList_foldl_rows (rows : List (Vector Shade 160)) (bytes : Array UInt8) :
    (rows.foldl (fun bytes row => row.foldl pushPixel bytes) bytes).toList =
      bytes.toList ++ rows.flatMap fun row => row.toList.flatMap Shade.bytes := by
  induction rows generalizing bytes with
  | nil => simp
  | cons row rest ih =>
      rw [List.foldl_cons, ih, ← Vector.foldl_toList, toList_foldl_pushPixel, List.flatMap_cons,
        List.append_assoc]

theorem drop_flatMap {α β : Type} {expand : α → List β} {width : Nat}
    (each : ∀ entry, (expand entry).length = width) (entries : List α) (index : Nat) :
    (entries.flatMap expand).drop (width * index) = (entries.drop index).flatMap expand := by
  induction index generalizing entries with
  | zero => simp
  | succ index ih =>
      cases entries with
      | nil => simp
      | cons entry rest =>
          rw [List.flatMap_cons, List.drop_succ_cons, ← ih, Nat.mul_succ, Nat.add_comm,
            ← List.drop_drop, ← each entry, List.drop_left]

theorem toList_picture (frame : Frame) : frame.picture.bytes.toList =
    frame.rows.toList.flatMap fun row => row.toList.flatMap Shade.bytes := by
  rw [picture, ← Vector.foldl_toList, toList_foldl_rows]
  rfl

theorem length_flatMap_bytes (row : Vector Shade 160) :
    (row.toList.flatMap Shade.bytes).length = 640 := by
  have dots : ∀ shade : Shade, shade.bytes.length = 4 := fun _ => rfl
  simp only [List.length_flatMap, dots, List.map_const', Vector.length_toList,
    List.sum_replicate_nat]

theorem size_picture (frame : Frame) : frame.picture.bytes.size = 92160 := by
  have lengths : frame.rows.toList.map (fun row => (row.toList.flatMap Shade.bytes).length) =
      List.replicate 144 640 := by
    simp only [length_flatMap_bytes, List.map_const', Vector.length_toList]
  rw [← Array.length_toList, toList_picture, List.length_flatMap, lengths, List.sum_replicate_nat]

theorem pixel_picture (frame : Frame) (x : Fin 160) (y : Fin 144) :
    frame.picture.pixel x y = frame.rows[y][x].bytes := by
  have dots : ∀ shade : Shade, shade.bytes.length = 4 := fun _ => rfl
  have offset : 4 * (frame.picture.width * y + x) = 640 * y + 4 * x := by
    change 4 * (160 * y.val + x.val) = _
    omega
  have rowLength : y.val < frame.rows.toList.length := by simp
  have dotLength : x.val < frame.rows[y.val].toList.length := by simp
  rw [Picture.pixel, toList_picture, offset, ← List.drop_drop, drop_flatMap length_flatMap_bytes,
    List.drop_eq_getElem_cons rowLength, List.flatMap_cons, Vector.getElem_toList,
    List.drop_append_of_le_length (by rw [length_flatMap_bytes]; omega), drop_flatMap dots,
    List.drop_eq_getElem_cons dotLength]
  rfl

end Frame

/-- Writes nothing that the display shows: neither video memory nor the registers of control,
palette and scrolling. -/
def SpaceOperation.Spares : SpaceOperation → Prop
  | .write address _ =>
      ¬ Background.InVideoMemory address ∧ address ∉ [0xFF40, 0xFF42, 0xFF43, 0xFF47]
  | .loadImage image => image.length ≤ 0x8000
  | _ => True

namespace AddressSpace

def viewportPixel (space : AddressSpace) (x y : Nat) : List UInt8 :=
  (Background.ofSpace space).picture.pixel ((x + space.mapped.scrollX.toNat) % 256)
    ((y + space.mapped.scrollY.toNat) % 256)

def viewportRow (space : AddressSpace) (y : Nat) : Vector Shade 160 :=
  (Background.ofSpace space).viewportRow space.mapped.scrollX
    (UInt8.ofNat y + space.mapped.scrollY)

theorem ofNat_wrapped (place : Nat) (scroll : UInt8) :
    UInt8.ofNat ((place + scroll.toNat) % 256) = UInt8.ofNat place + scroll := by
  apply UInt8.toNat_inj.mp
  rw [UInt8.toNat_add, UInt8.toNat_ofNat', UInt8.toNat_ofNat']
  omega

theorem viewportRow_pixel (space : AddressSpace) (x : Fin 160) (y : Nat) :
    (space.viewportRow y)[x].bytes = space.viewportPixel x y := by
  rw [viewportPixel, Background.pixel_picture (Nat.mod_lt _ (by decide)) (Nat.mod_lt _ (by decide)),
    ofNat_wrapped, ofNat_wrapped]
  simp [viewportRow, Background.viewportRow]

structure SameView (space later : AddressSpace) : Prop where
  memory : ∀ address, Background.InVideoMemory address →
    later.ram.get address = space.ram.get address
  control : later.mapped.control = space.mapped.control
  palette : later.mapped.palette = space.mapped.palette
  scrollX : later.mapped.scrollX = space.mapped.scrollX
  scrollY : later.mapped.scrollY = space.mapped.scrollY

theorem SameView.refl (space : AddressSpace) : space.SameView space :=
  ⟨fun _ _ => rfl, rfl, rfl, rfl, rfl⟩

theorem SameView.trans {first second third : AddressSpace} (early : first.SameView second)
    (late : second.SameView third) : first.SameView third where
  memory address inside := (late.memory address inside).trans (early.memory address inside)
  control := late.control.trans early.control
  palette := late.palette.trans early.palette
  scrollX := late.scrollX.trans early.scrollX
  scrollY := late.scrollY.trans early.scrollY

theorem SameView.viewportRow_eq {space later : AddressSpace} (same : space.SameView later)
    (y : Nat) : later.viewportRow y = space.viewportRow y := by
  have bits : ∀ mask : UInt8, later.mapped.control &&& mask = space.mapped.control &&& mask :=
    fun mask => congrArg (· &&& mask) same.control
  have shade := @Background.shade_congr (.ofSpace later) (.ofSpace space) same.memory (bits _)
    (bits _) (bits _) same.palette
  simp only [viewportRow, Background.viewportRow, same.scrollX, same.scrollY, shade]

theorem sameView_apply (space : AddressSpace) {operation : SpaceOperation}
    (spares : operation.Spares) : space.SameView (space.apply operation) := by
  cases operation with
  | write address value =>
      obtain ⟨notVideo, notRegister⟩ := spares
      change space.SameView (space.write address value)
      rw [write]
      split
      · exact ⟨fun _ _ => rfl, rfl, rfl, rfl, rfl⟩
      · split
        · rename_i register found
          have same := (MappedRegister.ofAddress?_eq_some_iff _ _).mp found
          subst same
          cases register
          case control | scrollX | scrollY | palette => simp [MappedRegister.address] at notRegister
          all_goals exact ⟨fun _ _ => rfl, rfl, rfl, rfl, rfl⟩
        · refine ⟨fun place inside => ?_, rfl, rfl, rfl, rfl⟩
          exact Ram.get_set_of_ne _ _ fun same => notVideo (same ▸ inside)
  | loadImage image =>
      refine ⟨fun place inside => Ram.get_load_of_ne fun index bound same => ?_, rfl, rfl, rfl, rfl⟩
      have below : index < 0x8000 :=
        Nat.lt_of_lt_of_le (Nat.lt_of_lt_of_le bound (List.length_take_le' _ _)) spares
      have above := inside.1
      rw [← same, UInt16.zero_add, UInt16.toNat_ofNat'] at above
      omega
  | setLine | setMode | request | listen => exact ⟨fun _ _ => rfl, rfl, rfl, rfl, rfl⟩

end AddressSpace

theorem Frame.rows_setRow (frame : Frame) (row : Nat) (pixels : Vector Shade 160) (y : Fin 144) :
    (frame.setRow row pixels).rows[y] = if row = y then pixels else frame.rows[y] :=
  Vector.getElem_setIfInBounds y.isLt

theorem Ppu.frame_tick (ppu : Ppu) (space : AddressSpace) :
    (ppu.tick space).1.frame = if Enters ppu (ppu.tick space).1 .drawing then
      ppu.frame.setRow ppu.line (space.viewportRow ppu.line) else ppu.frame := by
  cases lit : space.lcdEnabled with
  | false => simp [tick_dark ppu lit, Enters]
  | true =>
      by_cases more : 1 < ppu.remaining
      · simp [tick_counting lit more, Enters]
      · rw [tick_due lit (Nat.le_of_not_lt more)]
        cases mode : ppu.mode with
        | oamScan =>
            rw [next_oamScan space mode, if_pos ⟨by simp [mode], by simp [draw_eq]⟩]
            rfl
        | drawing => simp [next_drawing space mode, Enters, mode]
        | hblank =>
            by_cases lastVisible : ppu.line + 1 = 144 <;>
              simp [next_hblank space mode, Enters, lastVisible]
        | vblank =>
            by_cases lastLine : ppu.line = 153
            · simp [next_vblank_last space mode lastLine, Enters]
            · simp [next_vblank_line space mode lastLine, Enters, mode]

namespace Display

def draws (y : Nat) (display : Display) : Bool :=
  Ppu.Enters display.ppu display.tick.ppu .drawing ∧ display.ppu.line = y

/-- The address space as the latest tick of a run found it that began to draw a line. -/
def lastDrawn (y : Nat) (display : Display) : List Event → Option AddressSpace
  | [] => none
  | .tick :: rest => (lastDrawn y display.tick rest).or
      (if draws y display then some display.space else none)
  | .operate operation :: rest => lastDrawn y (display.after (.operate operation)) rest

theorem rows_tick (display : Display) (y : Fin 144) :
    display.tick.ppu.frame.rows[y] =
      if draws y display then display.space.viewportRow y else display.ppu.frame.rows[y] := by
  have drawn : display.tick.ppu.frame = if Ppu.Enters display.ppu display.tick.ppu .drawing then _
    else _ := display.ppu.frame_tick display.space
  rw [drawn]
  by_cases entered : Ppu.Enters display.ppu display.tick.ppu .drawing
  · rw [if_pos entered, Frame.rows_setRow]
    by_cases here : display.ppu.line = y
    · simp [draws, entered, here]
    · simp [draws, here]
  · rw [if_neg entered]
    simp [draws, entered]

theorem rows_run (display : Display) (events : List Event) (y : Fin 144) :
    (display.run events).ppu.frame.rows[y] =
      ((lastDrawn y display events).map (·.viewportRow y)).getD display.ppu.frame.rows[y] := by
  induction events generalizing display with
  | nil => rfl
  | cons event rest ih =>
      cases event with
      | operate operation => exact ih (display.after (.operate operation))
      | tick =>
          have later := ih display.tick
          rw [rows_tick] at later
          change (display.tick.run rest).ppu.frame.rows[y] = _
          rw [later, lastDrawn]
          cases lastDrawn y display.tick rest with
          | some space => rfl
          | none => by_cases here : draws y display <;> simp [here]

theorem draws_iff {y : Nat} (visible : y < 144) {display : Display} {count : Nat}
    (stands : display.ppu.Stands count) : draws y display = true ↔
      display.lit = true ∧ 70224 ∣ count + 1 + (70144 - 456 * y) := by
  cases lit : display.lit with
  | false =>
      have same : display.tick.ppu = display.ppu := congrArg Prod.fst (Ppu.tick_dark _ lit)
      simp [draws, Ppu.Enters, same]
  | true =>
      have later : display.tick.ppu.Stands (count + 1) := stands.tick_lit lit
      have drawing : ∀ {ppu : Ppu} {count : Nat}, ppu.Stands count → (ppu.mode = .drawing ↔
          count % 70224 / 456 < 144 ∧ 80 ≤ count % 70224 % 456 ∧ count % 70224 % 456 < 252) := by
        intro ppu count stands
        rw [stands.mode_eq, Mode.scheduled]
        grind
      simp only [draws, Ppu.Enters, decide_eq_true_eq, ne_eq, drawing stands, drawing later,
        stands.line_eq, true_and]
      omega

theorem lastDrawn_eq_none_iff {y : Nat} {display : Display} {events : List Event} :
    lastDrawn y display events = none ↔ display.countTicks (draws y) events = 0 := by
  induction events generalizing display with
  | nil => simp [lastDrawn, countTicks]
  | cons event rest ih =>
      cases event with
      | operate operation => exact ih
      | tick =>
          rw [lastDrawn, countTicks, Option.or_eq_none_iff, ih]
          by_cases here : draws y display <;> simp [here]

theorem sameView_tick (display : Display) : display.space.SameView display.tick.space := by
  change display.space.SameView (display.ppu.tick display.space).2
  have kept (register : MappedRegister) := @Ppu.read_tick display.ppu display.space register
  refine ⟨fun address _ => ?_, kept .control (by decide), kept .palette (by decide),
    kept .scrollX (by decide), kept .scrollY (by decide)⟩
  rw [Ppu.ram_tick]

theorem sameView_run {display : Display} {events : List Event}
    (spared : ∀ operation, .operate operation ∈ events → operation.Spares) :
    display.space.SameView (display.run events).space := by
  induction events generalizing display with
  | nil => exact .refl _
  | cons event rest ih =>
      have later := @ih (display.after event) fun operation listed =>
        spared operation (List.mem_cons_of_mem _ listed)
      cases event with
      | tick => exact display.sameView_tick.trans later
      | operate operation =>
          exact (display.space.sameView_apply (spared operation List.mem_cons_self)).trans later

theorem sameView_lastDrawn {y : Nat} {display : Display} {events : List Event}
    (spared : ∀ operation, .operate operation ∈ events → operation.Spares) {space : AddressSpace}
    (drawn : lastDrawn y display events = some space) :
    space.SameView (display.run events).space := by
  induction events generalizing display with
  | nil => exact absurd drawn (by simp [lastDrawn])
  | cons event rest ih =>
      have sparedLater := fun operation listed =>
        spared operation (List.mem_cons_of_mem event listed)
      cases event with
      | operate operation => exact ih sparedLater drawn
      | tick =>
          rw [lastDrawn, Option.or_eq_some_iff] at drawn
          rcases drawn with later | ⟨_, here⟩
          · exact @ih display.tick sparedLater later
          · by_cases draw : draws y display
            · rw [if_pos draw, Option.some.injEq] at here
              exact here ▸ sameView_run spared
            · rw [if_neg draw] at here
              exact absurd here (Option.some_ne_none _).symm

/-- The history of every pixel.  It shows the background as it stood when its line was last drawn,
or white if it never was, and a frame's worth of ticks draws its line once.  If such a window spares
what the display shows, the whole frame is the background as it stands at the end. -/
theorem frame_history (start : AddressSpace) (events : List Event) (x : Fin 160) (y : Fin 144) :
    let initial : Display := { space := start }
    let display := initial.run events
    (display.ppu.frame.picture.pixel x y = match lastDrawn y initial events with
      | some space => space.viewportPixel x y
      | none => [0xFF, 0xFF, 0xFF, 0xFF]) ∧
    ∀ window : List Event, display.litTicks window = 70224 →
      display.countTicks (draws y) window = 1 ∧
      ((∀ operation, .operate operation ∈ window → operation.Spares) →
        (display.run window).ppu.frame.picture.pixel x y =
          (display.run window).space.viewportPixel x y) := by
  intro initial display
  have stands : display.ppu.Stands _ := @stands_run initial 0 Ppu.stands_start events
  refine ⟨?_, fun window frame => ?_⟩
  · rw [Frame.pixel_picture, rows_run]
    cases lastDrawn y initial events with
    | some space => exact space.viewportRow_pixel x y
    | none =>
        have white : Frame.blank.rows[y][x] = .white := by simp [Frame.blank]
        exact congrArg Shade.bytes white
  · have once : display.countTicks (draws y) window = 1 :=
      countTicks_frame (draws_iff y.isLt) stands frame
    refine ⟨once, fun spared => ?_⟩
    cases drawn : lastDrawn y display window with
    | none =>
        have never := lastDrawn_eq_none_iff.mp drawn
        omega
    | some space =>
        have shown := (sameView_lastDrawn spared drawn).viewportRow_eq y
        rw [Frame.pixel_picture, rows_run, drawn, ← AddressSpace.viewportRow_pixel, shown]
        rfl

theorem frame_history_start :
    countTicks (draws 143) {} (List.replicate 70224 .tick) = 1 ∧
      (Display.run {} (List.replicate 70224 .tick)).ppu.frame.picture.pixel 159 143 =
        (Display.run {} (List.replicate 70224 .tick)).space.viewportPixel 159 143 := by
  have spared : ∀ operation, Event.operate operation ∈ List.replicate 70224 Event.tick →
      operation.Spares := fun operation listed => nomatch List.eq_of_mem_replicate listed
  have frame : litTicks {} (List.replicate 70224 .tick) = 70224 :=
    litTicks_replicate (by decide) 70224
  -- The list of ticks is not to be unfolded.
  generalize List.replicate 70224 Event.tick = ticks at spared frame ⊢
  obtain ⟨_, window⟩ := frame_history {} [] 159 143
  obtain ⟨once, shown⟩ := window ticks frame
  exact ⟨once, shown spared⟩

end Display

end Dmg
