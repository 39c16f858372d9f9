import Dmg.Proofs.DisplayRequests
import Dmg.Proofs.MachineTick
import Dmg.Proofs.SpaceHistory
import Dmg.Proofs.Transparency

/-!
A request for an interrupt stays until the processor takes that interrupt or writes over the
register.  What the picture processor requests comes after both, so it stays in any case.
-/

namespace Dmg

def AddressSpace.Requests (space : AddressSpace) (place : Fin 8) : Prop :=
  space.peek Interrupt.requestAddress &&& Alu.bitMask place ≠ 0

instance (space : AddressSpace) (place : Fin 8) : Decidable (space.Requests place) :=
  inferInstanceAs (Decidable (_ ≠ _))

namespace AddressSpace

theorem requested_write (space : AddressSpace) (address : UInt16) (value : UInt8) :
    (space.write address value).peek Interrupt.requestAddress =
      if address = Interrupt.requestAddress then value
      else space.peek Interrupt.requestAddress :=
  have whole : MappedRegister.requested ≠ .status := nofun
  read_write whole space address value

theorem requested_replay {space : AddressSpace} {accesses : List Access}
    (spared : ∀ value, Access.write Interrupt.requestAddress value ∉ accesses) :
    (replay space accesses).peek Interrupt.requestAddress =
      space.peek Interrupt.requestAddress := by
  refine replay_keeps (fun later : AddressSpace => later.peek Interrupt.requestAddress =
    space.peek Interrupt.requestAddress) ?_ rfl
  intro earlier address value among same
  have apart : address ≠ Interrupt.requestAddress := by
    rintro rfl
    exact spared value among
  have written := requested_write earlier address value
  rw [if_neg apart] at written
  exact written.trans same

end AddressSpace

namespace Wired

variable {β : Type} [Bus β]

theorem Dispatches.recorded {wired : Wired β} {interrupt : Interrupt}
    (dispatches : wired.Dispatches interrupt) : wired.recorded.Dispatches interrupt := by
  obtain ⟨polled, retires, enabled, first⟩ := dispatches
  obtain ⟨inner, noted, rfl⟩ : ∃ inner, wired.recorded.Retires inner ∧ _ :=
    Retires.of_through Recorder.view_inner retires
  rw [(pending_through Recorder.view_inner.always inner trivial).2] at first
  exact ⟨inner, noted, enabled, first⟩

theorem accesses_acknowledge {bus : β} {recorder : Recorder β} (recounts : recorder.Recounts bus)
    (interrupt : Interrupt) :
    let requested := (Bus.read (replay bus recorder.accesses.toList) Interrupt.requestAddress).1
    (acknowledge recorder interrupt).accesses.toList =
      recorder.accesses.toList ++ [.read Interrupt.requestAddress requested,
        .write Interrupt.requestAddress (requested &&& ~~~interrupt.mask)] := by
  rw [← recounts.inner]
  obtain ⟨inner, active, accesses⟩ := recorder
  obtain rfl : active = true := recounts.active
  change ((accesses.push _).push _).toList = _
  simp only [Array.toList_push, List.append_assoc, List.singleton_append]
  rfl

variable [Bus.Still β]

/-- A dispatch ends by reading the requests and writing them back without its own. -/
theorem accesses_of_dispatches {wired : Wired β} {interrupt : Interrupt}
    (dispatches : wired.Dispatches interrupt) :
    ∃ earlier requested,
      requested = (Bus.read (replay wired.bus earlier) Interrupt.requestAddress).1 ∧
      wired.accesses = earlier ++ [.read Interrupt.requestAddress requested,
        .write Interrupt.requestAddress (requested &&& ~~~interrupt.mask)] := by
  obtain ⟨polled, retires, enabled, first⟩ := dispatches.recorded
  have keeps := Recorder.keeps_recounts wired.bus
  have recounts := holds_retires keeps wired.recounts_recorded retires
  have looked : Recorder.Recounts wired.bus polled.pending.2.bus :=
    keeps.read _ (keeps.read _ recounts)
  have pushed : Recorder.Recounts wired.bus
      (pushWord polled.pending.2.bus polled.registers.sp polled.returnAddress) :=
    keeps.write _ _ (keeps.write _ _ looked)
  have bus : wired.recorded.tick.2.bus = acknowledge _ interrupt :=
    (congrArg Wired.bus (tick_dispatch retires enabled first)).trans
      (dispatch_bus polled.pending.2 interrupt)
  exact ⟨_, _, rfl, (congrArg (·.accesses.toList) bus).trans
    (accesses_acknowledge pushed interrupt)⟩

/-- Writes the request register, other than to acknowledge an interrupt: the last access of a
dispatch does that. -/
def Overwrites (wired : Wired β) : Prop :=
  ∃ value, .write Interrupt.requestAddress value ∈ wired.accesses.dropLast ∨
    ((∀ interrupt, ¬ wired.Dispatches interrupt) ∧
      .write Interrupt.requestAddress value ∈ wired.accesses)

theorem bitMask_apart {place other : Fin 8} (apart : other ≠ place) (byte : UInt8) :
    byte &&& ~~~Alu.bitMask other &&& Alu.bitMask place = byte &&& Alu.bitMask place := by
  have outside : ∀ place other : Fin 8, other ≠ place →
      ~~~Alu.bitMask other &&& Alu.bitMask place = Alu.bitMask place := by decide
  rw [UInt8.and_assoc, outside place other apart]

/-- What becomes of the requests when the processor does not write over them. -/
theorem requested_tick {wired : Wired AddressSpace} (spared : ¬ wired.Overwrites) :
    wired.tick.2.bus.peek Interrupt.requestAddress =
        wired.bus.peek Interrupt.requestAddress ∨
      ∃ interrupt, wired.Dispatches interrupt ∧
        wired.tick.2.bus.peek Interrupt.requestAddress =
          wired.bus.peek Interrupt.requestAddress &&& ~~~interrupt.mask := by
  rw [bus_tick]
  by_cases taken : ∃ interrupt, wired.Dispatches interrupt
  · obtain ⟨interrupt, dispatches⟩ := taken
    obtain ⟨earlier, requested, read, noted⟩ := accesses_of_dispatches dispatches
    have untouched : ∀ value, Access.write Interrupt.requestAddress value ∉ earlier := by
      intro value among
      refine spared ⟨value, .inl ?_⟩
      rw [noted, List.dropLast_append_cons]
      exact List.mem_append_left _ among
    have same : requested = wired.bus.peek Interrupt.requestAddress :=
      read.trans (AddressSpace.requested_replay untouched)
    refine .inr ⟨interrupt, dispatches, ?_⟩
    rw [noted, replay_append, ← same]
    exact (AddressSpace.requested_write _ _ _).trans (if_pos rfl)
  · have none : ∀ interrupt, ¬ wired.Dispatches interrupt := fun interrupt dispatches =>
      taken ⟨interrupt, dispatches⟩
    exact .inl (AddressSpace.requested_replay fun value among => spared ⟨value, .inr ⟨none, among⟩⟩)

end Wired

/-! The picture processor adds its requests to those that the processor leaves. -/

theorem Ppu.fst_tick_write (ppu : Ppu) (space : AddressSpace) (value : UInt8) :
    (ppu.tick (space.write Interrupt.requestAddress value)).1 = (ppu.tick space).1 := by
  have alike : (space.write Interrupt.requestAddress value).LooksLike space := ⟨rfl, rfl, rfl⟩
  exact fst_tick_congr alike ppu

theorem Display.requested_tick (display : Display) :
    display.tick.space.peek Interrupt.requestAddress =
      display.space.peek Interrupt.requestAddress ||| display.requests := by
  obtain ⟨ppu, space⟩ := display
  have same : (space.write Interrupt.requestAddress 0).lcdEnabled = space.lcdEnabled := rfl
  change (ppu.tick space).2.mapped.requested = space.mapped.requested |||
    (ppu.tick (space.write Interrupt.requestAddress 0)).2.mapped.requested
  cases lit : space.lcdEnabled with
  | false =>
      rw [Ppu.tick_dark ppu lit, Ppu.tick_dark ppu (same.trans lit)]
      exact UInt8.or_zero.symm
  | true =>
      have cleared := ppu.requested_tick (same.trans lit)
      rw [Ppu.fst_tick_write] at cleared
      rw [ppu.requested_tick lit, cleared]
      change _ ||| _ = _ ||| (0 ||| _)
      rw [UInt8.zero_or]
      rfl

theorem Display.requests_tick (display : Display) (place : Fin 8) :
    display.tick.space.Requests place ↔
      display.space.Requests place ∨ display.requests &&& Alu.bitMask place ≠ 0 := by
  rw [AddressSpace.Requests, display.requested_tick, byte_or_and, ne_eq, UInt8.or_eq_zero_iff,
    not_and_or]
  rfl

namespace Machine

/-- A tick loses no request but one that the processor takes on it, or that a program or a push
writes over.  Whatever the processor does, the requests of the picture processor on the same tick
stand after it. -/
theorem requests_survive {machine next : Machine} (ticked : machine.tick = (.ok (), next)) :
    (∀ place, machine.space.Requests place → next.space.Requests place ∨
      machine.wired.Overwrites ∨
      ∃ interrupt, machine.wired.Dispatches interrupt ∧ interrupt.index.val = place.val) ∧
    (∀ place, machine.handed.requests &&& Alu.bitMask place ≠ 0 → next.space.Requests place) ∧
    ∀ interrupt, machine.wired.Dispatches interrupt → ∃ earlier requested,
      machine.wired.accesses = earlier ++ [.read Interrupt.requestAddress requested,
        .write Interrupt.requestAddress (requested &&& ~~~interrupt.mask)] := by
  have passes : machine.tick.1 = .ok () := congrArg Prod.fst ticked
  obtain ⟨progress, done⟩ := ok_of_tick passes
  have space : next.space = machine.handed.tick.space :=
    congrArg (·.2.space) (ticked.symm.trans (tick_of_ok done))
  have after : ∀ place, next.space.Requests place ↔
      machine.wired.tick.2.bus.Requests place ∨
        machine.handed.requests &&& Alu.bitMask place ≠ 0 := by
    rw [space]
    exact machine.handed.requests_tick
  refine ⟨fun place requested => ?_, fun place made => (after place).mpr (.inr made), ?_⟩
  · by_cases spared : machine.wired.Overwrites
    · exact .inr (.inl spared)
    · rw [after]
      rcases Wired.requested_tick spared with same | ⟨interrupt, dispatches, cleared⟩
      · refine .inl (.inl ?_)
        rw [AddressSpace.Requests, same]
        exact requested
      · by_cases own : interrupt.index.val = place.val
        · exact .inr (.inr ⟨interrupt, dispatches, own⟩)
        · have apart : interrupt.index.castLE (by decide) ≠ place := fun same =>
            own (congrArg Fin.val same)
          refine .inl (.inl ?_)
          rw [AddressSpace.Requests, cleared]
          exact fun none => requested ((Wired.bitMask_apart apart _).symm.trans none)
  · intro interrupt dispatches
    obtain ⟨earlier, requested, _, noted⟩ := Wired.accesses_of_dispatches dispatches
    exact ⟨earlier, requested, noted⟩

/-- The vertical blank begins, and is requested again, on the tick that takes its interrupt. -/
theorem requests_survive_dispatch :
    ∃ machine next : Machine, machine.tick = (.ok (), next) ∧ machine.space.Requests 0 ∧
      machine.wired.Dispatches .vblank ∧ machine.handed.requestsVblank = true ∧
      next.space.Requests 0 := by
  let machine : Machine :=
    { cpu :=
        { registers := { sp := 0xFFFE, ime := true }, phase := .executing 1 (.operation .nop) }
      ppu := { mode := .hblank, remaining := 1, line := 143 }
      space := { mapped := { Mapped.powerOn with requested := 1, enabled := 1 } }
      clock := .zero }
  have retires : machine.wired.Retires (machine.wired.execute .nop).2.expireDelay :=
    .operation rfl (Nat.le_refl 1) rfl
  have dispatches : machine.wired.Dispatches .vblank := ⟨_, retires, rfl, by decide⟩
  have ticked := tick_of_ok (congrArg Prod.fst (Wired.tick_of_retires retires))
  obtain ⟨_, made, _⟩ := requests_survive ticked
  exact ⟨machine, _, ticked, by decide, dispatches, by decide, made 0 (by decide)⟩

end Machine

end Dmg
