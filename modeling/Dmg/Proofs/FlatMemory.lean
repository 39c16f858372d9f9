import Dmg.Proofs.SpaceHistory
import Dmg.Proofs.Transcript

/-!
The processor on the console's memory and on flat memory.  The two behave alike up to the first
write to a place that does not read back what is written there, or that changes what another place
reads.
-/

namespace Dmg

def Ram.Copies (ram : Ram) (space : AddressSpace) : Prop :=
  ∀ address, space.peek address = ram.get address

def AddressSpace.flatten (space : AddressSpace) : Ram :=
  ⟨Vector.ofFn fun index => space.peek (UInt16.ofNat index.val)⟩

theorem AddressSpace.flatten_copies (space : AddressSpace) : space.flatten.Copies space := by
  intro address
  rw [flatten, Ram.get, Vector.getElem_ofFn, UInt16.ofNat_toNat]

/-- The serial line keeps nothing, the status register takes only some of the bits written to it,
and its comparison changes with either of the other two. -/
def unlikeMemory : List UInt16 := [0xFF01, 0xFF41, 0xFF44, 0xFF45]

def Spares (accesses : List Access) : Prop :=
  ∀ address ∈ unlikeMemory, ∀ value, .write address value ∉ accesses

theorem Spares.of_subset {part accesses : List Access} (spared : Spares accesses)
    (within : part ⊆ accesses) : Spares part :=
  fun address special value among => spared address special value (within among)

/-! A write elsewhere changes what is read at its own address only. -/

theorem Mapped.status_write_plain {mapped : Mapped} {register : MappedRegister}
    (plain : register.address ∉ unlikeMemory) (value : UInt8) :
    (mapped.write register value).status = mapped.status := by
  cases register with
  | status | line | lineCompare => exact (plain (by decide)).elim
  | _ => rfl

namespace AddressSpace

theorem peek_write {place : UInt16} (plain : place ∉ unlikeMemory) (space : AddressSpace)
    (value : UInt8) (address : UInt16) :
    (space.write place value).peek address =
      if place = address then value else space.peek address := by
  rcases write_cases space place value with ⟨other, rfl, same⟩ | ⟨rfl, _⟩ | ⟨_, bare, same⟩
  · by_cases covered : ∃ register : MappedRegister, register.address = address
    · obtain ⟨register, rfl⟩ := covered
      rw [peek_register, peek_register]
      by_cases whole : register = .status
      · subst whole
        have apart : other.address ≠ MappedRegister.status.address := by
          intro same
          rw [same] at plain
          exact plain (by decide)
        rw [same, if_neg apart]
        exact Mapped.status_write_plain plain value
      · exact read_write whole space other.address value
    · have bare : ∀ register : MappedRegister, register.address ≠ address :=
        fun register own => covered ⟨register, own⟩
      rw [peek_plain _ bare, peek_plain _ bare, if_neg (bare other), same]
      rfl
  · exact (plain (by decide)).elim
  · by_cases covered : ∃ register : MappedRegister, register.address = address
    · obtain ⟨register, rfl⟩ := covered
      rw [peek_register, peek_register, if_neg (bare register).symm, same]
      rfl
    · have bare : ∀ register : MappedRegister, register.address ≠ address :=
        fun register own => covered ⟨register, own⟩
      rw [peek_plain _ bare, peek_plain _ bare, same]
      exact Ram.get_set _ _ _ _

end AddressSpace

namespace Ram.Copies

variable {ram : Ram} {space : AddressSpace}

theorem write (copies : ram.Copies space) {place : UInt16} (plain : place ∉ unlikeMemory)
    (value : UInt8) : (ram.set place value).Copies (space.write place value) := by
  intro address
  rw [AddressSpace.peek_write plain, Ram.get_set, copies address]

theorem replay {accesses : List Access} (copies : ram.Copies space) (spared : Spares accesses) :
    (replay ram accesses).Copies (Dmg.replay space accesses) := by
  induction accesses generalizing ram space with
  | nil => exact copies
  | cons access rest ih =>
      have restSpared : Spares rest := spared.of_subset (List.subset_cons_self access rest)
      cases access with
      | read address value => exact ih copies restSpared
      | write address value =>
          have plain : address ∉ unlikeMemory := fun special =>
            spared address special value List.mem_cons_self
          exact ih (copies.write plain value) restSpared

/-- As long as neither writes to a special place, each answers as the other does. -/
theorem echoes {accesses : List Access} (copies : ram.Copies space) (spared : Spares accesses) :
    Transcript.Echoes space ram accesses ∧ Transcript.Echoes ram space accesses := by
  have alike : ∀ earlier, earlier <+: accesses → ∀ address,
      (Dmg.replay space earlier).peek address = (Dmg.replay ram earlier).get address :=
    fun earlier begins => copies.replay (spared.of_subset begins.subset)
  exact ⟨fun earlier begins address => (alike earlier begins address).symm, alike⟩

end Ram.Copies

namespace Wired

structure Alike (console : Wired AddressSpace) (flat : Wired Ram) : Prop where
  cpu : flat.cpu = console.cpu
  memory : flat.bus.Copies console.bus

namespace Alike

variable {console : Wired AddressSpace} {flat : Wired Ram}

theorem same_tick (alike : console.Alike flat)
    (spared : Spares console.accesses ∨ Spares flat.accesses) :
    flat.tick.1 = console.tick.1 ∧ flat.tick.2.cpu = console.tick.2.cpu ∧
      flat.accesses = console.accesses := by
  rcases spared with spared | spared
  · exact tick_of_echoes alike.cpu (alike.memory.echoes spared).1
  · obtain ⟨outcome, cpu, same⟩ := tick_of_echoes alike.cpu.symm (alike.memory.echoes spared).2
    exact ⟨outcome.symm, cpu.symm, same.symm⟩

theorem spares_iff (alike : console.Alike flat) :
    Spares console.accesses ↔ Spares flat.accesses := by
  constructor
  · intro spared
    rw [(alike.same_tick (.inl spared)).2.2]
    exact spared
  · intro spared
    rw [← (alike.same_tick (.inr spared)).2.2]
    exact spared

theorem tick (alike : console.Alike flat) (spared : Spares console.accesses) :
    console.tick.2.Alike flat.tick.2 := by
  obtain ⟨_, cpu, same⟩ := alike.same_tick (.inl spared)
  refine ⟨cpu, ?_⟩
  rw [bus_tick, bus_tick, same]
  exact alike.memory.replay spared

theorem after (alike : console.Alike flat) {count : Nat}
    (spared : ∀ earlier < count, Spares (console.after earlier).accesses) :
    (console.after count).Alike (flat.after count) := by
  induction count with
  | zero => exact alike
  | succ count ih =>
      have before := ih fun earlier early => spared earlier (Nat.lt_succ_of_lt early)
      exact before.tick (spared count (Nat.lt_succ_self count))

theorem spares_before_iff (alike : console.Alike flat) (count : Nat) :
    (∀ earlier < count, Spares (console.after earlier).accesses) ↔
      ∀ earlier < count, Spares (flat.after earlier).accesses := by
  induction count with
  | zero => exact ⟨nofun, nofun⟩
  | succ count ih =>
      rw [Nat.forall_lt_succ_right, Nat.forall_lt_succ_right, ← ih]
      exact and_congr_right fun spared => (alike.after spared).spares_iff

end Alike

/-- Any number of ticks, none of which writes to the places that are not like memory.  It does not
matter on which side those are looked for. -/
theorem flat_simulation (cpu : Cpu) {space : AddressSpace} {ram : Ram}
    (copies : ∀ address, space.peek address = ram.get address) (count : Nat) :
    let console : Wired AddressSpace := ⟨cpu, space⟩
    let flat : Wired Ram := ⟨cpu, ram⟩
    ((∀ earlier < count, Spares (console.after earlier).accesses) ↔
      ∀ earlier < count, Spares (flat.after earlier).accesses) ∧
    ((∀ earlier < count, Spares (console.after earlier).accesses) →
      (∀ reached ≤ count, (flat.after reached).cpu = (console.after reached).cpu ∧
        ∀ address, (console.after reached).bus.peek address =
          (flat.after reached).bus.get address) ∧
      ∀ earlier < count, (flat.after earlier).tick.1 = (console.after earlier).tick.1 ∧
        (flat.after earlier).accesses = (console.after earlier).accesses) := by
  intro console flat
  have alike : console.Alike flat := ⟨rfl, copies⟩
  refine ⟨alike.spares_before_iff count, fun spared => ⟨fun reached within => ?_, ?_⟩⟩
  · obtain ⟨cpu, memory⟩ := alike.after fun earlier early =>
      spared earlier (Nat.lt_of_lt_of_le early within)
    exact ⟨cpu, memory⟩
  · intro earlier early
    have before := alike.after fun first sooner => spared first (Nat.lt_trans sooner early)
    obtain ⟨outcome, _, same⟩ := before.same_tick (.inl (spared earlier early))
    exact ⟨outcome, same⟩

/-- A processor about to push over the request register, with the vertical blank enabled. -/
def pushingRequest : Wired AddressSpace where
  cpu :=
    { registers := { b := 0x01, c := 0x02, sp := 0xFF10, ime := true }
      phase := .executing 1 (.operation (.push .bc)) }
  bus := { mapped := { Mapped.powerOn with enabled := 0x01 } }

theorem accesses_pushingRequest : pushingRequest.accesses =
    [.write 0xFF0F 0x01, .write 0xFF0E 0x02, .read 0xFFFF 0x01, .read 0xFF0F 0x01,
      .write 0xFF0D 0x00, .write 0xFF0C 0x00, .read 0xFF0F 0x01, .write 0xFF0F 0x00] := by
  decide

/-- The push brings about a dispatch, and so it does on flat memory. -/
theorem flat_simulation_push :
    let flat : Wired Ram := ⟨pushingRequest.cpu, pushingRequest.bus.flatten⟩
    (∀ earlier < 1, Spares (flat.after earlier).accesses) ∧
    flat.tick.1 = .ok .boundary ∧ (flat.after 1).cpu.registers.pc = Interrupt.vblank.vector ∧
    (flat.after 1).bus.get 0xFF0F = 0 := by
  have spared : ∀ earlier < 1, Spares (pushingRequest.after earlier).accesses := by
    intro earlier early
    obtain rfl := Nat.lt_one_iff.mp early
    rw [after, accesses_pushingRequest]
    simp [Spares, unlikeMemory]
  have boundary : pushingRequest.tick.1 = .ok .boundary := by decide
  have vector : (pushingRequest.after 1).cpu.registers.pc = Interrupt.vblank.vector := by decide
  have cleared : (pushingRequest.after 1).bus.peek 0xFF0F = 0 := by decide
  obtain ⟨spares, simulation⟩ :=
    flat_simulation pushingRequest.cpu pushingRequest.bus.flatten_copies 1
  obtain ⟨behind, ticks⟩ := simulation spared
  obtain ⟨cpu, memory⟩ := behind 1 (Nat.le_refl 1)
  obtain ⟨outcome, _⟩ := ticks 0 Nat.one_pos
  exact ⟨spares.mp spared, outcome.trans boundary, (congrArg (·.registers.pc) cpu).trans vector,
    (memory 0xFF0F).symm.trans cleared⟩

end Wired

end Dmg
