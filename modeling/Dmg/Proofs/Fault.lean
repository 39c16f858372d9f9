import Dmg.Proofs.MachineTick
import Dmg.Proofs.SpaceHistory

/-!
The processor faults on the fetch of an undefined opcode and on nothing else.  A fault changes
nothing, so it comes again on every later tick until the host changes something.
-/

namespace Dmg

def undefinedOpcodes : List UInt8 :=
  [0xD3, 0xDB, 0xDD, 0xE3, 0xE4, 0xEB, 0xEC, 0xED, 0xF4, 0xFC, 0xFD]

theorem decode?_eq_none_iff (opcode : UInt8) :
    decode? opcode = none ↔ opcode = extendedOpcode ∨ opcode ∈ undefinedOpcodes := by
  have table : ∀ index : Fin 256, (decode? (UInt8.ofNat index.val)).isNone =
      decide (UInt8.ofNat index.val = extendedOpcode ∨
        UInt8.ofNat index.val ∈ undefinedOpcodes) := by decide +kernel
  have entry := table ⟨opcode.toNat, opcode.toNat_lt⟩
  rw [UInt8.ofNat_toNat] at entry
  rw [← Option.isNone_iff_eq_none, entry, decide_eq_true_eq]

namespace Wired

variable {β : Type} [Bus β]

theorem instruction?_eq_none_iff (wired : Wired β) :
    wired.instruction? = none ↔
      (Bus.read wired.bus wired.registers.pc).1 ∈ undefinedOpcodes := by
  have apart : extendedOpcode ∉ undefinedOpcodes := by decide
  simp only [instruction?]
  split
  · rename_i announced
    simp [announced, apart]
  · rename_i plain
    simp [Instruction.base?, decode?_eq_none_iff, plain]

theorem accesses_of_missing {wired : Wired β} (fetching : wired.cpu.phase = .fetching)
    (missing : wired.instruction? = none) :
    wired.accesses =
      [.read wired.registers.pc (Bus.read wired.bus wired.registers.pc).1] := by
  have unknown : wired.recorded.instruction? = none := by
    rw [instruction?_eq_none_iff] at missing ⊢
    exact missing
  have phase : wired.recorded.cpu.phase = .fetching := fetching
  simp only [accesses, tick, phase, fetch_none unknown]
  rfl

end Wired

namespace Machine

theorem tick_eq_error_iff (machine : Machine) (error : MachineError) :
    machine.tick.1 = .error error ↔
      machine.cpu.phase = .fetching ∧ machine.wired.instruction? = none ∧
        error = .cpu (.illegalOpcode (machine.space.peek machine.cpu.registers.pc)
          machine.cpu.registers.pc) := by
  constructor
  · intro failed
    cases ticked : machine.wired.tick.1 with
    | ok progress =>
        rw [tick_of_ok ticked] at failed
        cases failed
    | error fault =>
        obtain ⟨fetching, missing⟩ := Wired.missing_of_error ticked
        rw [tick_of_error ticked] at failed
        rw [Wired.tick_of_missing fetching missing] at ticked
        cases failed
        cases ticked
        exact ⟨fetching, missing, rfl⟩
  · rintro ⟨fetching, missing, rfl⟩
    have ticked := congrArg Prod.fst (Wired.tick_of_missing fetching missing)
    exact congrArg Prod.fst (tick_of_error ticked)

def Event.Unattended : Event → Prop
  | .tick | .runFrame => True
  | _ => False

theorem run_of_failed {machine : Machine} {error : MachineError}
    (failed : machine.tick = (.error error, machine)) {events : List Event}
    (unattended : ∀ event ∈ events, event.Unattended) : machine.run events = machine := by
  induction events with
  | nil => rfl
  | cons event rest ih =>
      have stays : machine.apply event = machine := by
        cases event with
        | tick => exact congrArg Prod.snd failed
        | runFrame => rw [apply_runFrame, runFrame_of_tick failed]
        | _ => exact (unattended _ List.mem_cons_self).elim
      calc machine.run (event :: rest)
        _ = (machine.apply event).run rest := rfl
        _ = machine.run rest := by rw [stays]
        _ = machine := ih fun later among => unattended later (List.mem_cons_of_mem _ among)

/-- A tick fails exactly if it has to fetch an undefined opcode, and says which and where.  Then it
has read that byte and done nothing, and so does every later tick or frame. -/
theorem tick_faults (machine : Machine) :
    let pc := machine.cpu.registers.pc
    let opcode := machine.space.peek pc
    (∀ error, machine.tick.1 = .error error ↔
      machine.cpu.phase = .fetching ∧ opcode ∈ undefinedOpcodes ∧
        error = .cpu (.illegalOpcode opcode pc)) ∧
    (∀ error, machine.tick.1 = .error error →
      machine.tick.2 = machine ∧ machine.wired.accesses = [.read pc opcode] ∧
      ∀ events : List Event, (∀ event ∈ events, event.Unattended) →
        machine.run events = machine ∧
        (machine.run events).tick = (.error error, machine) ∧
        (machine.run events).runFrame = (.error error, machine)) ∧
    (machine.cpu.phase = .fetching → opcode = extendedOpcode →
      machine.tick.1 = .ok () ∧ ∃ operation : Operation,
        operation = decodeExtended (machine.space.peek machine.wired.behindOpcode) ∧
        machine.tick.2.cpu.phase = .executing (operation.cycles - 1) (.operation operation)) := by
  intro pc opcode
  have fails := machine.tick_eq_error_iff
  refine ⟨fun error => ?_, fun error failed => ?_, fun fetching announced => ?_⟩
  · rw [fails, Wired.instruction?_eq_none_iff]
    rfl
  · obtain ⟨fetching, missing, _⟩ := (fails error).mp failed
    have same := (tick_of_failed failed).1
    refine ⟨congrArg Prod.snd same, Wired.accesses_of_missing fetching missing, ?_⟩
    intro events unattended
    rw [run_of_failed same unattended]
    exact ⟨rfl, same, runFrame_of_tick same⟩
  · have found : machine.wired.instruction? =
        some (.ofExtended (machine.space.peek machine.wired.behindOpcode)) := if_pos announced
    rw [tick_of_ok (Wired.tick_fetching fetching found)]
    exact ⟨rfl, _, rfl, congrArg (·.cpu.phase) (Wired.after_one fetching found)⟩

/-- An image of one undefined opcode ends the run where it starts. -/
theorem tick_faults_first :
    ∃ machine, boot [0xD3] .reset = .ok machine ∧
      machine.tick = (.error (.cpu (.illegalOpcode 0xD3 0)), machine) ∧
      (machine.run [.tick, .runFrame]).runFrame =
        (.error (.cpu (.illegalOpcode 0xD3 0)), machine) := by
  let machine : Machine :=
    { cpu := .withRegisters {}, ppu := {}, space := .loadImage {} [0xD3], clock := .zero }
  have opcode : machine.space.peek 0 = 0xD3 := AddressSpace.get_loadImage {} [0xD3] 0
  obtain ⟨fails, stays, _⟩ := tick_faults machine
  have failed : machine.tick.1 = .error (.cpu (.illegalOpcode 0xD3 0)) := by
    refine (fails _).mpr ⟨rfl, ?_, ?_⟩
    · change machine.space.peek 0 ∈ _
      rw [opcode]
      decide
    · change _ = MachineError.cpu (.illegalOpcode (machine.space.peek 0) 0)
      rw [opcode]
  obtain ⟨same, _, later⟩ := stays _ failed
  refine ⟨machine, rfl, (tick_of_failed failed).1, (later [.tick, .runFrame] ?_).2.2⟩
  intro event among
  simp only [List.mem_cons, List.not_mem_nil, or_false] at among
  rcases among with rfl | rfl <;> trivial

end Machine

end Dmg
