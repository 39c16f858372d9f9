import Dmg.Proofs.FrameTiming
import Dmg.Proofs.StatusRegister
import Mathlib.Data.List.DropRight

/-!
The address space by its history: every byte that can be read from it is told by the last events
that gave it a value, and the requests and sent bytes by those since.
-/

namespace Dmg

inductive SpaceEvent
  | read (address : UInt16)
  | operate (operation : SpaceOperation)

namespace SpaceEvent

def written (address : UInt16) : SpaceEvent → Option UInt8
  | .operate (.write place value) => if place = address then some value else none
  | _ => none

/-- The byte of an image that belongs to the address; what lies past the last address has none. -/
def loaded (address : UInt16) : SpaceEvent → Option UInt8
  | .operate (.loadImage image) => image[address.toNat]?
  | _ => none

def stored (address : UInt16) (event : SpaceEvent) : Option UInt8 :=
  (event.written address).or (event.loaded address)

def line : SpaceEvent → Option UInt8
  | .operate (.setLine line) => some line
  | event => event.written MappedRegister.line.address

def mode : SpaceEvent → Option UInt8
  | .operate (.setMode code) => some code
  | _ => none

def request : SpaceEvent → UInt8
  | .operate (.request interrupt) => interrupt.mask
  | _ => 0

def listens : SpaceEvent → Option Unit
  | .operate .listen => some ()
  | _ => none

section History

variable {α : Type}

def last? (given : SpaceEvent → Option α) (events : List SpaceEvent) : Option α :=
  (events.filterMap given).getLast?

/-- The events behind the last of those that give something, or all if none does. -/
def since (given : SpaceEvent → Option α) (events : List SpaceEvent) : List SpaceEvent :=
  events.rtakeWhile fun event => (given event).isNone

theorem last?_concat (given : SpaceEvent → Option α) (events : List SpaceEvent)
    (event : SpaceEvent) :
    last? given (events ++ [event]) = (given event).or (last? given events) := by
  simp only [last?, List.filterMap_append]
  cases found : given event <;> simp [found]

theorem last?_map (given : SpaceEvent → Option α) (change : α → α) (events : List SpaceEvent) :
    last? (fun event => (given event).map change) events = (last? given events).map change := by
  rw [last?, last?, ← List.getLast?_map, List.map_filterMap]

theorem since_concat (given : SpaceEvent → Option α) (events : List SpaceEvent)
    (event : SpaceEvent) :
    since given (events ++ [event]) =
      if (given event).isNone then since given events ++ [event] else [] :=
  List.rtakeWhile_concat _ _ _

end History

end SpaceEvent

/-- What a register that keeps all that is written to it holds at first. -/
def MappedRegister.powerOn : MappedRegister → UInt8
  | .control => 0x91
  | .palette => 0xFC
  | _ => 0

theorem MappedRegister.address_inj {left right : MappedRegister} :
    left.address = right.address ↔ left = right := by
  rw [← ofAddress?_eq_some_iff, (ofAddress?_eq_some_iff _ _).mpr rfl, Option.some.injEq, eq_comm]

theorem Mapped.read_write {register : MappedRegister} (whole : register ≠ .status)
    (mapped : Mapped) (other : MappedRegister) (value : UInt8) :
    (mapped.write other value).read register =
      if other = register then value else mapped.read register := by
  cases register with
  | status => exact (whole rfl).elim
  | _ => cases other <;> rfl

namespace AddressSpace

def after (space : AddressSpace) : SpaceEvent → AddressSpace
  | .read address => (Bus.read space address).2
  | .operate operation => space.apply operation

def run (space : AddressSpace) (events : List SpaceEvent) : AddressSpace :=
  events.foldl after space

theorem run_concat (space : AddressSpace) (events : List SpaceEvent) (event : SpaceEvent) :
    space.run (events ++ [event]) = (space.run events).after event := by
  simp only [run, List.foldl_append, List.foldl_cons, List.foldl_nil]

open SpaceEvent

section Reading

variable {α : Type} {reading : AddressSpace → α} {given : SpaceEvent → Option α}

/-- A reading that every event gives anew or adds to is what the last of the first kind gave, with
all added since. -/
theorem reading_run {add : α → SpaceEvent → α}
    (step : ∀ space event,
      reading (after space event) = (given event).getD (add (reading space) event))
    (space : AddressSpace) (events : List SpaceEvent) :
    reading (space.run events) =
      (since given events).foldl add ((last? given events).getD (reading space)) := by
  -- What counts is the end of the history, so events are taken off there.
  induction events using List.reverseRecOn with
  | nil => rfl
  | append_singleton events event ih =>
      rw [run_concat, step, ih, since_concat, last?_concat]
      cases given event with
      | none =>
          simp only [Option.isNone_none, if_true, List.foldl_concat, Option.getD_none,
            Option.none_or]
      | some value => rfl

theorem reading_last
    (step : ∀ space event, reading (after space event) = (given event).getD (reading space))
    (space : AddressSpace) (events : List SpaceEvent) :
    reading (space.run events) = (last? given events).getD (reading space) := by
  have kept := @reading_run α reading given (fun value _ => value) step space events
  rwa [List.foldl_fixed] at kept

end Reading

/-! What one event does to each reading. -/

theorem peek_register (space : AddressSpace) (register : MappedRegister) :
    space.peek register.address = space.mapped.read register := by
  have found : MappedRegister.ofAddress? register.address = some register :=
    (MappedRegister.ofAddress?_eq_some_iff _ _).mpr rfl
  simp only [peek, found]

theorem peek_plain (space : AddressSpace) {address : UInt16}
    (plain : ∀ register : MappedRegister, register.address ≠ address) :
    space.peek address = space.ram.get address := by
  cases found : MappedRegister.ofAddress? address with
  | none => simp only [peek, found]
  | some register =>
      exact (plain register ((MappedRegister.ofAddress?_eq_some_iff _ _).mp found)).elim

theorem serialAddress_plain (register : MappedRegister) : register.address ≠ serialAddress := by
  cases register <;> decide

/-- A write goes to a mapped register, over the serial line, or to memory. -/
theorem write_cases (space : AddressSpace) (place : UInt16) (value : UInt8) :
    (∃ register : MappedRegister, place = register.address ∧
      space.write place value = space.mapMapped (·.write register value)) ∨
    (place = serialAddress ∧ space.write place value = space.send value) ∨
    (place ≠ serialAddress ∧ (∀ register : MappedRegister, register.address ≠ place) ∧
      space.write place value = space.mapRam (·.set place value)) := by
  by_cases sent : place = serialAddress
  · exact Or.inr (Or.inl ⟨sent, if_pos sent⟩)
  · cases found : MappedRegister.ofAddress? place with
    | some register =>
        have own := (MappedRegister.ofAddress?_eq_some_iff _ _).mp found
        exact Or.inl ⟨register, own.symm, by simp only [write, sent, if_false, found]⟩
    | none =>
        refine Or.inr (Or.inr ⟨sent, ?_, by simp only [write, sent, if_false, found]⟩)
        intro register own
        cases found.symm.trans ((MappedRegister.ofAddress?_eq_some_iff _ _).mpr own)

theorem getD_map_and (given : Option UInt8) (initial mask : UInt8) :
    (given.map (· &&& mask)).getD (initial &&& mask) = given.getD initial &&& mask := by
  cases given <;> rfl

theorem read_write {register : MappedRegister} (whole : register ≠ .status) (space : AddressSpace)
    (place : UInt16) (value : UInt8) :
    (space.write place value).mapped.read register =
      if place = register.address then value else space.mapped.read register := by
  rcases write_cases space place value with ⟨other, rfl, same⟩ | ⟨rfl, same⟩ | ⟨_, plain, same⟩
  · simp only [same, MappedRegister.address_inj]
    exact Mapped.read_write whole _ _ _
  · rw [same, if_neg (serialAddress_plain register).symm]
    rfl
  · rw [same, if_neg (plain register).symm]
    rfl

theorem written_getD (address place : UInt16) (value old : UInt8) :
    (written address (.operate (.write place value))).getD old =
      if place = address then value else old := by
  simp only [written]
  split <;> rfl

theorem read_after {register : MappedRegister}
    (stored : register ∉ [.status, .line, .requested]) (space : AddressSpace)
    (event : SpaceEvent) :
    (space.after event).mapped.read register =
      (written register.address event).getD (space.mapped.read register) := by
  simp only [List.mem_cons, List.not_mem_nil, or_false, not_or] at stored
  obtain ⟨status, line, requested⟩ := stored
  cases event with
  | read address => rfl
  | operate operation =>
      cases operation with
      | write place value =>
          rw [written_getD]
          exact read_write status space place value
      | loadImage image | listen => rfl
      | setLine value | setMode code | request interrupt =>
          cases register <;> first | rfl | contradiction

theorem line_after (space : AddressSpace) (event : SpaceEvent) :
    (space.after event).mapped.line = (SpaceEvent.line event).getD space.mapped.line := by
  cases event with
  | read address => rfl
  | operate operation =>
      cases operation with
      | write place value =>
          have given : SpaceEvent.line (.operate (.write place value)) =
              written MappedRegister.line.address (.operate (.write place value)) := rfl
          rw [given, written_getD]
          exact @read_write .line nofun space place value
      | _ => rfl

theorem requested_after (space : AddressSpace) (event : SpaceEvent) :
    (space.after event).mapped.requested =
      (written MappedRegister.requested.address event).getD
        (space.mapped.requested ||| event.request) := by
  cases event with
  | read address => exact (UInt8.or_zero).symm
  | operate operation =>
      cases operation with
      | write place value =>
          have quiet : SpaceEvent.request (.operate (.write place value)) = 0 := rfl
          rw [written_getD, quiet, UInt8.or_zero]
          exact @read_write .requested nofun space place value
      | request interrupt => rfl
      | _ => exact (UInt8.or_zero).symm

theorem status_write (space : AddressSpace) (place : UInt16) (value : UInt8) :
    (space.write place value).mapped.status &&& 0x78 =
      (if place = MappedRegister.status.address then value else space.mapped.status) &&& 0x78 ∧
    (space.write place value).mapped.status &&& 0x03 = space.mapped.status &&& 0x03 := by
  rcases write_cases space place value with ⟨other, rfl, same⟩ | ⟨rfl, same⟩ | ⟨_, plain, same⟩
  · rw [same]
    simp only [MappedRegister.address_inj]
    exact space.mapped.status_write other value
  · rw [same, if_neg (serialAddress_plain .status).symm]
    exact ⟨rfl, rfl⟩
  · rw [same, if_neg (plain .status).symm]
    exact ⟨rfl, rfl⟩

theorem selects_after (space : AddressSpace) (event : SpaceEvent) :
    (space.after event).mapped.status &&& 0x78 =
      ((written MappedRegister.status.address event).map (· &&& 0x78)).getD
        (space.mapped.status &&& 0x78) := by
  rw [getD_map_and]
  cases event with
  | read address => rfl
  | operate operation =>
      cases operation with
      | write place value =>
          rw [written_getD]
          exact (status_write space place value).1
      | setLine line =>
          exact and_congr_of_part (space.mapped.status_setLine_rest line) (by decide)
      | setMode code =>
          exact and_congr_of_part (space.mapped.status_setMode_rest code) (by decide)
      | _ => rfl

theorem mode_after (space : AddressSpace) (event : SpaceEvent) :
    (space.after event).mapped.status &&& 0x03 =
      ((SpaceEvent.mode event).map (· &&& 0x03)).getD (space.mapped.status &&& 0x03) := by
  rw [getD_map_and]
  cases event with
  | read address => rfl
  | operate operation =>
      cases operation with
      | write place value => exact (status_write space place value).2
      | setLine line =>
          exact and_congr_of_part (space.mapped.status_setLine_rest line) (by decide)
      | setMode code => exact space.mapped.status_setMode code
      | _ => rfl

theorem sound_write {space : AddressSpace} (sound : space.mapped.Sound) (place : UInt16)
    (value : UInt8) : (space.write place value).mapped.Sound := by
  rcases write_cases space place value with ⟨other, rfl, same⟩ | ⟨rfl, same⟩ | ⟨_, _, same⟩
  · rw [same]
    exact sound.write other value
  · rw [same]
    exact sound
  · rw [same]
    exact sound

theorem sound_after {space : AddressSpace} (sound : space.mapped.Sound) (event : SpaceEvent) :
    (space.after event).mapped.Sound := by
  cases event with
  | read address => exact sound
  | operate operation =>
      cases operation with
      | write place value => exact sound_write sound place value
      | setLine line => exact sound.write .line line
      | setMode code => exact sound.setMode code
      | _ => exact sound

theorem sound_run {space : AddressSpace} (sound : space.mapped.Sound) (events : List SpaceEvent) :
    (space.run events).mapped.Sound := by
  induction events generalizing space with
  | nil => exact sound
  | cons event rest ih => exact ih (sound_after sound event)

theorem get_loadImage (space : AddressSpace) (image : List UInt8) (address : UInt16) :
    (space.loadImage image).ram.get address =
      image[address.toNat]?.getD (space.ram.get address) := by
  have fits : (image.take 0x10000).length ≤ 0x10000 := List.length_take_le _ _
  have bound := address.toNat_lt
  have place : 0 + UInt16.ofNat address.toNat = address := by
    rw [UInt16.zero_add, UInt16.ofNat_toNat]
  change (space.ram.load 0 (image.take 0x10000)).get address = _
  by_cases inside : address.toNat < image.length
  · have taken : address.toNat < (image.take 0x10000).length := by
      rw [List.length_take]
      omega
    have loaded := Ram.get_load fits space.ram 0 taken
    rw [place, List.getElem_take] at loaded
    rw [loaded, List.getElem?_eq_getElem inside, Option.getD_some]
  · rw [List.getElem?_eq_none (Nat.le_of_not_lt inside), Option.getD_none]
    refine Ram.get_load_of_ne fun index early same => ?_
    have small : index < 0x10000 := Nat.lt_of_lt_of_le early fits
    have reached := congrArg UInt16.toNat same
    rw [UInt16.zero_add, UInt16.toNat_ofNat_of_lt' small] at reached
    rw [List.length_take] at early
    omega

theorem get_after {address : UInt16}
    (plain : ∀ register : MappedRegister, register.address ≠ address)
    (kept : address ≠ serialAddress) (space : AddressSpace) (event : SpaceEvent) :
    (space.after event).ram.get address =
      (stored address event).getD (space.ram.get address) := by
  cases event with
  | read place => rfl
  | operate operation =>
      cases operation with
      | write place value =>
          have given : stored address (.operate (.write place value)) =
              written address (.operate (.write place value)) := Option.or_none
          rw [given, written_getD]
          change (space.write place value).ram.get address = _
          rcases write_cases space place value with
            ⟨other, rfl, same⟩ | ⟨rfl, same⟩ | ⟨_, _, same⟩
          · rw [same, if_neg (plain other)]
            rfl
          · rw [same, if_neg kept.symm]
            rfl
          · rw [same]
            exact Ram.get_set _ _ _ _
      | loadImage image => exact get_loadImage space image address
      | _ => rfl

theorem get_serialAddress_after (space : AddressSpace) (event : SpaceEvent) :
    (space.after event).ram.get serialAddress =
      (loaded serialAddress event).getD (space.ram.get serialAddress) := by
  cases event with
  | read place => rfl
  | operate operation =>
      cases operation with
      | write place value =>
          change (space.write place value).ram.get serialAddress = space.ram.get serialAddress
          rcases write_cases space place value with
            ⟨other, rfl, same⟩ | ⟨rfl, same⟩ | ⟨apart, _, same⟩
          · rw [same]
            rfl
          · rw [same]
            rfl
          · rw [same]
            exact Ram.get_set_of_ne _ _ apart
      | loadImage image => exact get_loadImage space image serialAddress
      | _ => rfl

theorem serial_after (space : AddressSpace) (event : SpaceEvent) :
    (space.after event).serial =
      if (listens event).isSome then some #[]
      else space.serial.map (· ++ (written serialAddress event).toArray) := by
  have silent : space.serial = space.serial.map (· ++ #[]) := by simp
  cases event with
  | read place => exact silent
  | operate operation =>
      cases operation with
      | write place value =>
          change (space.write place value).serial = space.serial.map _
          rcases write_cases space place value with
            ⟨other, rfl, same⟩ | ⟨rfl, same⟩ | ⟨apart, _, same⟩
          · rw [same, written, if_neg (serialAddress_plain other)]
            exact silent
          · rw [same]
            rfl
          · rw [same, written, if_neg apart]
            exact silent
      | listen => rfl
      | _ => exact silent

theorem serial_run (events : List SpaceEvent) :
    (run {} events).serial = (last? listens events).map fun _ =>
      ((since listens events).filterMap (written serialAddress)).toArray := by
  induction events using List.reverseRecOn with
  | nil => rfl
  | append_singleton events event ih =>
      rw [run_concat, serial_after, ih, last?_concat, since_concat]
      cases listens event with
      | some _ => rfl
      | none =>
          cases sent : written serialAddress event <;>
            simp [sent, Function.comp_def]

/-- The selects and the mode are told by the last event of their own, the comparison by the lines
as they are. -/
theorem status_run (events : List SpaceEvent) :
    (run {} events).mapped.status =
      0x80 ||| ((last? (written 0xFF41) events).getD 0 &&& 0x78) |||
        (if (run {} events).mapped.line = (run {} events).mapped.lineCompare then 0x04 else 0) |||
        ((last? SpaceEvent.mode events).getD 2 &&& 0x03) := by
  have selects : (run {} events).mapped.status &&& 0x78 =
      (last? (written 0xFF41) events).getD 0 &&& 0x78 := by
    rw [← getD_map_and, ← last?_map]
    exact @reading_last UInt8 (·.mapped.status &&& 0x78) _ selects_after {} events
  have mode : (run {} events).mapped.status &&& 0x03 =
      (last? SpaceEvent.mode events).getD 2 &&& 0x03 := by
    rw [← getD_map_and, ← last?_map]
    exact @reading_last UInt8 (·.mapped.status &&& 0x03) _ mode_after {} events
  have start : ({} : AddressSpace).mapped.Sound := Mapped.sound_powerOn
  have comparison := sound_run start events
  rw [Mapped.Sound] at comparison
  rw [← selects, ← mode, ← comparison]
  exact Mapped.status_parts _

/-- Everything that can be read from an address space, by what has been done to it since it was new.
A byte of memory is what was last written or loaded there, and under the serial address, which no
write reaches, what was last loaded.  A mapped register is what was last written to it, or its value
at power on, and apart from that the line can be set, interrupts can be requested, and the status
register has its bits from different hands: the selects from what was last written, the mode from
the display, and the comparison from the lines as they are now.  What is sent is what was written to
the serial address since listening began. -/
theorem space_history (events : List SpaceEvent) :
    let space := run {} events
    (∀ address, (∀ register : MappedRegister, register.address ≠ address) →
      address ≠ serialAddress → space.peek address = (last? (stored address) events).getD 0) ∧
    space.peek serialAddress = (last? (loaded serialAddress) events).getD 0 ∧
    (∀ register : MappedRegister, register ∉ [.status, .line, .requested] →
      space.peek register.address =
        (last? (written register.address) events).getD register.powerOn) ∧
    space.peek 0xFF44 = (last? SpaceEvent.line events).getD 0 ∧
    space.peek 0xFF0F = (since (written 0xFF0F) events).foldl
      (fun requested event => requested ||| event.request)
      ((last? (written 0xFF0F) events).getD 0) ∧
    space.peek 0xFF41 = 0x80 ||| ((last? (written 0xFF41) events).getD 0 &&& 0x78) |||
      (if space.peek 0xFF44 = space.peek 0xFF45 then 0x04 else 0) |||
      ((last? SpaceEvent.mode events).getD 2 &&& 0x03) ∧
    (∀ address, Bus.read space address = (space.peek address, space)) ∧
    (∀ value address, (space.write serialAddress value).peek address = space.peek address) ∧
    space.serial = (last? listens events).map fun _ =>
      ((since listens events).filterMap (written serialAddress)).toArray := by
  intro space
  refine ⟨?_, ?_, ?_, ?_, ?_, ?_, fun address => rfl, fun value address => rfl, serial_run events⟩
  · intro address plain kept
    have bytes := @reading_last UInt8 (·.ram.get address) _ (get_after plain kept) {} events
    rw [Ram.get_zero] at bytes
    rw [peek_plain space plain]
    exact bytes
  · have bytes := @reading_last UInt8 (·.ram.get serialAddress) _ get_serialAddress_after {} events
    rw [Ram.get_zero] at bytes
    rw [peek_plain space serialAddress_plain]
    exact bytes
  · intro register stored
    have values := @reading_last UInt8 (·.mapped.read register) _ (read_after stored) {} events
    have initial : ({} : AddressSpace).mapped.read register = register.powerOn := by
      cases register <;> first | rfl | simp at stored
    rw [initial] at values
    rw [peek_register]
    exact values
  · exact @reading_last UInt8 (·.mapped.line) _ line_after {} events
  · exact @reading_run UInt8 (·.mapped.requested) _ _ requested_after {} events
  · exact status_run events

end AddressSpace

end Dmg
