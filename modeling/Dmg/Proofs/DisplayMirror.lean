import Dmg.Proofs.Lockstep

/-!
Mode and line are kept twice: in the picture processor, and in the registers where a program reads
them.  The status register always tells the mode and the comparison.  The line register tells the
line unless it has been written to since the line last changed.
-/

namespace Dmg

structure Ppu.Mirrored (ppu : Ppu) (space : AddressSpace) : Prop where
  mode : space.peek 0xFF41 &&& 0x03 = ppu.mode.code
  comparison : space.peek 0xFF41 &&& 0x04 =
    if space.peek 0xFF44 = space.peek 0xFF45 then 0x04 else 0
  unused : space.peek 0xFF41 &&& 0x80 = 0x80

/-- What the line register is given: a written value, or the line that the picture processor has
turned to. -/
inductive LineMoment
  | written (value : UInt8)
  | turned

namespace LineMoment

def ofAccess? : Access → Option LineMoment
  | .write address value => if address = 0xFF44 then some (.written value) else none
  | .read _ _ => none

def shows (line : Nat) : LineMoment → UInt8
  | .written value => value
  | .turned => UInt8.ofNat line

def shown (moments : List LineMoment) (line : Nat) : UInt8 :=
  (moments.getLast?.getD .turned).shows line

theorem shown_concat (moments : List LineMoment) (moment : LineMoment) (line : Nat) :
    shown (moments ++ [moment]) line = moment.shows line := by
  simp only [shown, List.getLast?_concat, Option.getD_some]

end LineMoment

namespace AddressSpace

theorem mode_replay (space : AddressSpace) (accesses : List Access) :
    (replay space accesses).mapped.status &&& 0x03 = space.mapped.status &&& 0x03 :=
  replay_keeps (fun later : AddressSpace =>
      later.mapped.status &&& 0x03 = space.mapped.status &&& 0x03)
    (fun _ same => (status_write _ _ _).2.trans same) rfl

theorem sound_replay {space : AddressSpace} (sound : space.mapped.Sound)
    (accesses : List Access) : (replay space accesses).mapped.Sound :=
  replay_keeps (fun later : AddressSpace => later.mapped.Sound)
    (fun _ earlier => sound_write earlier _ _) sound

open LineMoment

theorem line_replay {space : AddressSpace} {moments : List LineMoment} {line : Nat}
    (shows : space.mapped.line = shown moments line) (accesses : List Access) :
    (replay space accesses).mapped.line =
      shown (moments ++ accesses.filterMap ofAccess?) line := by
  induction accesses generalizing space moments with
  | nil =>
      rw [List.filterMap_nil, List.append_nil]
      exact shows
  | cons access rest ih =>
      cases access with
      | read address value => exact ih shows
      | write address value =>
          have first := @read_write .line nofun space address value
          change (space.write address value).mapped.line = if address = 0xFF44 then value
            else space.mapped.line at first
          by_cases own : address = 0xFF44
          · rw [if_pos own] at first
            have given : ofAccess? (.write address value) = some (.written value) := if_pos own
            rw [List.filterMap_cons_some given, List.append_cons]
            exact ih (first.trans (shown_concat moments (.written value) line).symm)
          · rw [if_neg own] at first
            have nothing : ofAccess? (.write address value) = none := if_neg own
            rw [List.filterMap_cons_none nothing]
            exact ih (first.trans shows)

end AddressSpace

namespace Machine

open LineMoment

def momentsOnTick (machine : Machine) : List LineMoment :=
  machine.wired.accesses.filterMap ofAccess? ++
    if machine.tick.2.ppu.line = machine.ppu.line then [] else [.turned]

def momentsOf (machine : Machine) : Event → List LineMoment
  | .tick => machine.momentsOnTick
  | .runFrame => (List.range (machine.ticksIn .runFrame)).flatMap fun count =>
      (machine.after count).momentsOnTick
  | .operate (.write address value) => (ofAccess? (.write address value)).toList
  | _ => []

def moments (machine : Machine) : List Event → List LineMoment
  | [] => []
  | event :: rest => machine.momentsOf event ++ (machine.apply event).moments rest

/-- The host sets line or mode in the picture processor's place. -/
def Event.Forges : Event → Prop
  | .operate (.setLine _) | .operate (.setMode _) => True
  | _ => False

structure Shows (machine : Machine) (moments : List LineMoment) : Prop where
  sound : machine.space.mapped.Sound
  mode : machine.space.mapped.status &&& 0x03 = machine.ppu.mode.code
  line : machine.space.mapped.line = shown moments machine.ppu.line

variable {machine : Machine} {moments : List LineMoment}

/-- Whatever is written to the address space, the registers tell mode and comparison. -/
theorem Shows.mirrored (shows : machine.Shows moments) (accesses : List Access) :
    machine.ppu.Mirrored (replay machine.space accesses) := by
  exact ⟨(AddressSpace.mode_replay machine.space accesses).trans shows.mode,
    AddressSpace.sound_replay shows.sound accesses, Mapped.status_unused _⟩

theorem shows_boot {image : List UInt8} {start : StartState}
    (booted : boot image start = .ok machine) : machine.Shows [] := by
  rw [eq_of_boot booted]
  have mode : Mapped.powerOn.status &&& 0x03 = Mode.oamScan.code := by decide
  exact ⟨Mapped.sound_powerOn, mode, rfl⟩

theorem Shows.display {ppu : Ppu} {space : AddressSpace} {cpu : Cpu} {clock : Clock}
    (shows : Shows ⟨cpu, ppu, space, clock⟩ moments) (later : Cpu) (time : Clock) :
    Shows ⟨later, (ppu.tick space).1, (ppu.tick space).2, time⟩ (moments ++
      if (ppu.tick space).1.line = ppu.line then [] else [.turned]) := by
  obtain ⟨sound, mode, line⟩ := shows
  cases lit : space.lcdEnabled with
  | false =>
      rw [Ppu.tick_dark ppu lit, if_pos rfl, List.append_nil]
      exact ⟨sound, mode, line⟩
  | true =>
      have reads := Ppu.space_tick ppu lit
      refine ⟨Ppu.tick_sound sound lit, ?_, ?_⟩
      · change (ppu.tick space).2.mapped.status &&& 0x03 = (ppu.tick space).1.mode.code
        rw [reads]
        refine (Ppu.status_shown ppu _ space.mapped).trans ?_
        split
        · rename_i same
          rw [same]
          exact mode
        · rfl
      · change (ppu.tick space).2.mapped.line = shown _ (ppu.tick space).1.line
        rw [reads]
        refine (Ppu.line_shown ppu _ space.mapped).trans ?_
        split
        · rename_i same
          rw [same, List.append_nil]
          exact line
        · exact (shown_concat moments .turned _).symm

theorem Shows.tick (shows : machine.Shows moments) :
    machine.tick.2.Shows (moments ++ machine.momentsOnTick) := by
  have handed : Shows ⟨machine.cpu, machine.ppu, machine.wired.tick.2.bus, machine.clock⟩
      (moments ++ machine.wired.accesses.filterMap ofAccess?) := by
    rw [Wired.bus_tick]
    exact ⟨AddressSpace.sound_replay shows.sound _,
      (AddressSpace.mode_replay _ _).trans shows.mode, AddressSpace.line_replay shows.line _⟩
  rw [momentsOnTick, ← List.append_assoc]
  cases ticked : machine.wired.tick.1 with
  | ok progress =>
      rw [tick_of_ok ticked]
      exact handed.display _ _
  | error fault =>
      obtain ⟨fetching, missing⟩ := Wired.missing_of_error ticked
      rw [Wired.tick_of_missing fetching missing] at handed
      rw [tick_of_error ticked, if_pos rfl, List.append_nil]
      exact handed

theorem Shows.apply (shows : machine.Shows moments) {event : Event} (honest : ¬ event.Forges) :
    (machine.apply event).Shows (moments ++ machine.momentsOf event) := by
  have unchanged : ∀ {next : Machine}, next.space.mapped = machine.space.mapped →
      next.ppu = machine.ppu → next.Shows (moments ++ []) := by
    intro next mapped ppu
    rw [List.append_nil]
    exact ⟨mapped ▸ shows.sound, by rw [mapped, ppu]; exact shows.mode,
      by rw [mapped, ppu]; exact shows.line⟩
  cases event with
  | tick => exact shows.tick
  | runFrame =>
      rw [apply_runFrame, machine.runFrame_after.2.2]
      exact noted_after Shows momentsOnTick Shows.tick shows _
  | setRegisters | setTrace => exact unchanged rfl rfl
  | operate operation =>
      cases operation with
      | write address value =>
          have written := AddressSpace.line_replay shows.line [.write address value]
          have mode := AddressSpace.mode_replay machine.space [.write address value]
          have told : [Access.write address value].filterMap ofAccess? =
              (ofAccess? (.write address value)).toList := by
            cases given : ofAccess? (.write address value) <;> simp [given]
          rw [told] at written
          exact ⟨AddressSpace.sound_write shows.sound address value, mode.trans shows.mode, written⟩
      | request interrupt =>
          change (machine.mapSpace (·.request interrupt)).Shows (moments ++ [])
          rw [List.append_nil]
          exact ⟨shows.sound, shows.mode, shows.line⟩
      | loadImage | listen => exact unchanged rfl rfl
      | setLine | setMode => exact (honest trivial).elim

theorem Shows.run (shows : machine.Shows moments) {events : List Event}
    (honest : ∀ event ∈ events, ¬ event.Forges) :
    (machine.run events).Shows (moments ++ machine.moments events) := by
  induction events generalizing machine moments with
  | nil =>
      rw [Machine.moments, List.append_nil]
      exact shows
  | cons event rest ih =>
      rw [Machine.moments, ← List.append_assoc]
      exact ih (shows.apply (honest event List.mem_cons_self)) fun later among =>
        honest later (List.mem_cons_of_mem _ among)

/-- In every state of every run, whatever is written on top of it, the status register tells mode
and comparison.  The line register tells the line if no write has come since the line last changed,
and what was last written otherwise. -/
theorem display_mirrored {image : List UInt8} {start : StartState}
    (booted : boot image start = .ok machine) {events : List Event}
    (honest : ∀ event ∈ events, ¬ event.Forges) :
    let reached := machine.run events
    (∀ accesses, reached.ppu.Mirrored (replay reached.space accesses)) ∧
    reached.space.peek 0xFF44 = shown (machine.moments events) reached.ppu.line ∧
    reached.ppu.line < 154 := by
  intro reached
  have shows := (shows_boot booted).run honest
  obtain ⟨count, _, stands⟩ := ((inStep_boot booted).1.run events).1.display
  have line := stands.line_eq
  refine ⟨shows.mirrored, shows.line, ?_⟩
  change (machine.run events).ppu.line < 154
  omega

/-- The host writes to the line and to all of the status register. -/
theorem display_mirrored_written :
    ∃ machine : Machine, boot [0x00] .reset = .ok machine ∧
      let reached := machine.run [.operate (.write 0xFF44 0x07), .operate (.write 0xFF41 0xFF)]
      reached.ppu.line = 0 ∧ reached.space.peek 0xFF44 = 0x07 ∧
      reached.space.peek 0xFF41 &&& 0x03 = Mode.oamScan.code := by
  let machine : Machine :=
    { cpu := .withRegisters {}, ppu := {}, space := .loadImage {} [0x00], clock := .zero }
  have booted : boot [0x00] .reset = .ok machine := rfl
  have honest : ∀ event ∈ [Event.operate (.write 0xFF44 0x07), .operate (.write 0xFF41 0xFF)],
      ¬ event.Forges := by
    simp [Event.Forges]
  obtain ⟨mirrored, line, _⟩ := display_mirrored booted honest
  exact ⟨machine, booted, rfl, line, (mirrored []).mode⟩

end Machine

end Dmg
