import Dmg.Machine.Query
import Dmg.Proofs.Bits
import Mathlib.Data.List.Basic

/-!
Which paths are understood, and by which part of the machine.  The name of a component takes a path
to that component whatever follows, and none of the processor's own paths begins with one.
-/

namespace Dmg

theorem below?_eq_some_iff {component path rest : String} :
    below? component path = some rest ↔ path = component ++ rest := by
  simp only [below?, Option.map_eq_some_iff, List.isPrefixOf?_eq_some_iff_append_eq]
  constructor
  · rintro ⟨symbols, split, rfl⟩
    rw [← String.toList_inj, String.toList_append, String.toList_ofList, split]
  · rintro rfl
    exact ⟨rest.toList, String.toList_append.symm, String.ofList_toList⟩

theorem below?_append (component rest : String) :
    below? component (component ++ rest) = some rest :=
  below?_eq_some_iff.mpr rfl

theorem below?_eq_none_iff {component path : String} :
    below? component path = none ↔ ∀ rest, path ≠ component ++ rest := by
  simp only [Option.eq_none_iff_forall_ne_some, ne_eq, below?_eq_some_iff]

theorem Readings.query?_eq_none {σ : Type} {readings : Readings σ} {state : σ} {path : String}
    (unlisted : path ∉ readings.paths) : readings.query? state path = none := by
  rwa [← query?_isSome_iff readings state, Option.not_isSome_iff_eq_none] at unlisted

namespace Cpu

variable (cpu : Cpu)

def pairPaths : List (String × String × String) :=
  [("af", "a", "f"), ("bc", "b", "c"), ("de", "d", "e"), ("hl", "h", "l")]

def flagPaths : List (String × Nat) :=
  [("flags.z", 7), ("flags.n", 6), ("flags.h", 5), ("flags.c", 4)]

theorem query?_pair : ∀ names ∈ pairPaths, ∃ word high low,
    cpu.query? names.1 = some (.word word) ∧ cpu.query? names.2.1 = some (.byte high) ∧
      cpu.query? names.2.2 = some (.byte low) ∧ word.toNat = 256 * high.toNat + low.toNat := by
  simp only [pairPaths, List.forall_mem_cons]
  refine ⟨?_, ?_, ?_, ?_, fun _ none => (List.not_mem_nil none).elim⟩
  all_goals exact ⟨_, _, _, rfl, rfl, rfl, toNat_join _ _⟩

theorem query?_flag : ∃ byte, cpu.query? "f" = some (.byte byte) ∧
    ∀ entry ∈ flagPaths, cpu.query? entry.1 = some (.flag (byte.toNat.testBit entry.2)) := by
  obtain ⟨zero, subtract, halfCarry, carry⟩ := cpu.registers.flags.eq_testBit
  refine ⟨cpu.registers.f, rfl, ?_⟩
  simp only [flagPaths, List.forall_mem_cons, Registers.f, ← zero, ← subtract, ← halfCarry, ← carry]
  exact ⟨rfl, rfl, rfl, rfl, fun _ none => (List.not_mem_nil none).elim⟩

end Cpu

namespace Machine

def components : List String := ["cpu.", "ppu.", "memory."]

theorem below?_of_cpu_path : ∀ path ∈ Cpu.paths, ∀ component ∈ components,
    below? component path = none := by
  decide +kernel

theorem clockPaths_apart : ∀ path ∈ Cpu.paths, path ∉ clockReadings.paths := by
  decide +kernel

section Routes

variable (machine : Machine)

theorem query?_cpu (rest : String) :
    machine.query? ("cpu." ++ rest) = machine.cpu.query? rest := by
  rw [query?, below?_append]

theorem query?_display (rest : String) :
    machine.query? ("ppu." ++ rest) = displayReadings.query? machine rest := by
  have other : below? "cpu." ("ppu." ++ rest) = none := by
    rw [below?, String.toList_append]
    rfl
  rw [query?, other, below?_append]

theorem query?_memory (rest : String) :
    machine.query? ("memory." ++ rest) =
      (parseAddress? rest).map fun address => .byte (machine.space.peek address) := by
  have others : below? "cpu." ("memory." ++ rest) = none ∧
      below? "ppu." ("memory." ++ rest) = none := by
    rw [below?, below?, String.toList_append]
    exact ⟨rfl, rfl⟩
  rw [query?, others.1, others.2, below?_append]

theorem query?_plain {path : String}
    (plain : ∀ component ∈ components, below? component path = none) :
    machine.query? path = (clockReadings.query? machine path).or (machine.cpu.query? path) := by
  simp only [components, List.forall_mem_cons] at plain
  rw [query?, plain.1, plain.2.1, plain.2.2.1]

theorem query?_cpu_path {path : String} (known : path ∈ Cpu.paths) :
    machine.query? path = machine.cpu.query? path := by
  rw [query?_plain machine (below?_of_cpu_path path known),
    Readings.query?_eq_none (clockPaths_apart path known), Option.none_or]

end Routes

/-- The processor understands the paths it announces, under its own name and without it, since
nothing of the machine takes one of them.  Memory understands addresses and the display four paths.
A path that names no component is the processor's or one of the two counts.  Pairs and flags are
reported as the bytes are. -/
theorem query_routing (machine : Machine) :
    (∀ path, (machine.cpu.query? path).isSome ↔ path ∈ Cpu.paths) ∧
    (∀ path, machine.query? ("cpu." ++ path) = machine.cpu.query? path) ∧
    (∀ path ∈ Cpu.paths, machine.query? path = machine.cpu.query? path) ∧
    (∀ path value, machine.query? ("memory." ++ path) = some value ↔
      ∃ address, parseAddress? path = some address ∧
        value = .byte (machine.space.peek address)) ∧
    (∀ path, (machine.query? ("ppu." ++ path)).isSome ↔ path ∈ ["mode", "ly", "stat", "lcdc"]) ∧
    (∀ path, (∀ component ∈ components, ∀ rest, path ≠ component ++ rest) →
      ((machine.query? path).isSome ↔
        path = "master_clock" ∨ path = "frame_count" ∨ path ∈ Cpu.paths)) ∧
    (∀ names ∈ Cpu.pairPaths, ∃ word high low,
      machine.cpu.query? names.1 = some (.word word) ∧
      machine.cpu.query? names.2.1 = some (.byte high) ∧
      machine.cpu.query? names.2.2 = some (.byte low) ∧
      word.toNat = 256 * high.toNat + low.toNat) ∧
    ∃ byte, machine.cpu.query? "f" = some (.byte byte) ∧
      ∀ entry ∈ Cpu.flagPaths,
        machine.cpu.query? entry.1 = some (.flag (byte.toNat.testBit entry.2)) := by
  refine ⟨machine.cpu.query?_isSome_iff, machine.query?_cpu, fun _ => machine.query?_cpu_path,
    fun path value => ?_, fun path => ?_, fun path plain => ?_, machine.cpu.query?_pair,
    machine.cpu.query?_flag⟩
  · rw [query?_memory, Option.map_eq_some_iff]
    exact exists_congr fun address => and_congr_right fun _ => eq_comm
  · rw [query?_display]
    exact displayReadings.query?_isSome_iff machine path
  · have counts : (clockReadings.query? machine path).isSome ↔
        path ∈ ["master_clock", "frame_count"] := clockReadings.query?_isSome_iff machine path
    have unnamed : ∀ component ∈ components, below? component path = none :=
      fun component among => below?_eq_none_iff.mpr (plain component among)
    rw [query?_plain machine unnamed, Option.isSome_or, Bool.or_eq_true, counts,
      machine.cpu.query?_isSome_iff, List.mem_cons, List.mem_singleton, or_assoc]

/-- On a machine that was just switched on. -/
theorem query_routing_start :
    let machine : Machine :=
      { cpu := .withRegisters .postBoot, ppu := {}, space := {}, clock := .zero }
    "flags.c" ∈ Cpu.paths ∧ machine.query? "flags.c" = some (.flag true) ∧
      (∀ component ∈ components, ∀ rest, "flags.x" ≠ component ++ rest) ∧
      machine.query? "flags.x" = none ∧ machine.query? "memory.$FF40" = some (.byte 0x91) := by
  intro machine
  obtain ⟨-, -, unshadowed, memory, -, plain, -, -⟩ := query_routing machine
  have carry : "flags.c" ∈ Cpu.paths := by decide
  have unnamed : ∀ component ∈ components, ∀ rest, "flags.x" ≠ component ++ rest := by
    simp only [← below?_eq_none_iff]
    decide +kernel
  refine ⟨carry, unshadowed _ carry, unnamed, ?_, ?_⟩
  · have unknown := (plain "flags.x" unnamed).not.mpr (by decide)
    exact Option.not_isSome_iff_eq_none.mp unknown
  · exact (memory "$FF40" _).mpr ⟨0xFF40, by cbv, rfl⟩

end Machine

end Dmg
