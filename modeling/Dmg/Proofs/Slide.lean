import Dmg.Proofs.Fault
import Dmg.Proofs.Lockstep

/-!
A program that does nothing for a number of instructions and then comes to a byte that is none.
Interrupts may be requested meanwhile, but none is taken, so the machine passes four cycles for
every instruction and faults right behind the last.
-/

namespace Dmg

def slide (length : Nat) : List UInt8 := List.replicate length 0x00 ++ [0xD3]

theorem getElem?_slide {length place : Nat} (inside : place ≤ length) :
    (slide length)[place]? = some (if place < length then 0x00 else 0xD3) := by
  by_cases early : place < length
  · rw [if_pos early, slide, List.getElem?_append_left (by rwa [List.length_replicate]),
      List.getElem?_replicate_of_lt early]
  · obtain rfl : place = length := by omega
    rw [if_neg early, slide, List.getElem?_append_right (Nat.le_of_eq List.length_replicate),
      List.length_replicate, Nat.sub_self]
    rfl

/-- On the slide, with so many cycles left to its end. -/
inductive Cpu.Slides (cpu : Cpu) (length left : Nat) : Prop
  | fetching {place clock} : place ≤ length → left = 4 * (length - place) →
      cpu = { registers := { pc := .ofNat place }, clock } → Slides cpu length left
  | passing {place remaining clock} : place ≤ length →
      left = 4 * (length - place) + remaining + 1 →
      cpu = { registers := { pc := .ofNat place }
              phase := .executing (remaining + 1) (.operation .nop)
              clock } → Slides cpu length left

namespace Wired

variable {clock : Clock} {space : AddressSpace}

theorem tick_nop_fetch {place : Nat} (opcode : space.peek (.ofNat place) = 0x00) :
    tick ⟨{ registers := { pc := .ofNat place }, clock }, space⟩ =
      (.ok .within, ⟨{ registers := { pc := .ofNat (place + 1) }
                       phase := .executing 3 (.operation .nop)
                       clock := clock.advance }, space⟩) := by
  have found : instruction? ⟨{ registers := { pc := .ofNat place }, clock }, space⟩ =
      some ⟨0x00, false, .nop⟩ := instruction?_of_decode opcode rfl
  simp only [tick, fetch_eq found, fetchedBus_still, Bool.false_eq_true, if_false,
    UInt16.add_zero, UInt16.ofNat_add]
  rfl

theorem tick_nop_end {registers : Registers} (disabled : registers.ime = false) :
    tick ⟨{ registers, phase := .executing 1 (.operation .nop), clock }, space⟩ =
      (.ok .boundary, ⟨{ registers, clock := clock.advance }, space⟩) := by
  let ended : Wired AddressSpace :=
    ⟨{ registers, phase := .executing 1 (.operation .nop), clock }, space⟩
  have phase : ended.cpu.phase = .executing 1 (.operation .nop) := rfl
  have retires : ended.Retires ended := .operation phase (Nat.le_refl 1) rfl
  have retired : ended.retire = ended.pending.2.enter .fetching :=
    retire_fetch (.inl disabled) rfl
  rw [tick_of_retires retires, retired, pending_still]
  rfl

end Wired

namespace Machine

structure Slides (machine : Machine) (length left : Nat) : Prop where
  short : length < maxImageSize
  ram : machine.space.ram = (AddressSpace.loadImage {} (slide length)).ram
  cpu : machine.cpu.Slides length left

namespace Slides

variable {machine : Machine} {length left : Nat}

theorem peek {place : Nat} (slides : machine.Slides length left) (inside : place ≤ length) :
    machine.space.peek (.ofNat place) = if place < length then 0x00 else 0xD3 := by
  have low : place < 0x8000 := Nat.lt_of_le_of_lt inside slides.short
  have number : (UInt16.ofNat place).toNat = place :=
    UInt16.toNat_ofNat_of_lt' (Nat.lt_trans low (by decide))
  have plain : ∀ register : MappedRegister, register.address ≠ UInt16.ofNat place := by
    intro register same
    have high : 0x8000 ≤ register.address.toNat := by cases register <;> decide
    rw [same, number] at high
    omega
  rw [AddressSpace.peek_plain _ plain, slides.ram, AddressSpace.get_loadImage, number,
    getElem?_slide inside]
  rfl

theorem passes (slides : machine.Slides length (left + 1)) :
    ∃ progress cpu, machine.wired.tick = (.ok progress, ⟨cpu, machine.space⟩) ∧
      cpu.Slides length left := by
  obtain ⟨cpu, ppu, space, time⟩ := machine
  cases slides.cpu with
  | @fetching place clock inside total same =>
      cases same
      have early : place < length := by omega
      have opcode := (slides.peek inside).trans (if_pos early)
      exact ⟨_, _, Wired.tick_nop_fetch opcode, .passing early (by omega) rfl⟩
  | @passing place remaining clock inside total same =>
      cases same
      cases remaining with
      | zero => exact ⟨_, _, Wired.tick_nop_end rfl, .fetching inside (by omega) rfl⟩
      | succ remaining =>
          have more : 1 < remaining + 2 := by omega
          exact ⟨_, _, Wired.tick_counting more, .passing inside (by omega) rfl⟩

theorem tick (slides : machine.Slides length (left + 1)) :
    machine.tick.1 = .ok () ∧ machine.tick.2.Slides length left := by
  obtain ⟨progress, cpu, ticked, further⟩ := slides.passes
  rw [tick_of_still ticked]
  exact ⟨rfl, slides.short, (machine.ppu.ram_tick machine.space).trans slides.ram, further⟩

theorem after {count : Nat} (slides : machine.Slides length (left + count)) :
    machine.Succeeds count ∧ (machine.after count).Slides length left := by
  induction count generalizing machine with
  | zero => exact ⟨nofun, slides⟩
  | succ count ih =>
      obtain ⟨first, further⟩ := slides.tick
      obtain ⟨rest, last⟩ := ih further
      rw [after_succ]
      exact ⟨succeeds_succ first rest, last⟩

theorem fails (slides : machine.Slides length 0) :
    machine.tick.1 = .error (.cpu (.illegalOpcode 0xD3 (.ofNat length))) := by
  have opcode := (slides.peek (Nat.le_refl length)).trans (if_neg (Nat.lt_irrefl length))
  cases slides.cpu with
  | @fetching place clock inside total same =>
      obtain rfl : place = length := by omega
      have missing : machine.wired.instruction? = none := by
        rw [Wired.instruction?_eq_none_iff]
        change machine.space.peek machine.cpu.registers.pc ∈ _
        rw [same, opcode]
        decide
      rw [tick_eq_error_iff, same, opcode]
      exact ⟨rfl, missing, rfl⟩
  | passing inside total same => omega

end Slides

end Machine

end Dmg
