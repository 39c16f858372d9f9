import Dmg.Memory.Ram
import Mathlib.Data.List.Induction
import Mathlib.Data.Nat.SuccPred
import Mathlib.Order.SuccPred.Archimedean

/-!
Bytes copied to successive addresses of flat memory, of any number.  Behind the last address the
copy goes on at zero, so that a long one writes over its own beginning; a place keeps the byte that
came to it last.
-/

namespace Dmg

namespace Ram

/-- The positions of those of so many bytes that are copied to a place. -/
def landings (start place : UInt16) (length : Nat) : Set Nat :=
  {index | index < length ∧ (start.toNat + index) % 0x10000 = place.toNat}

variable (ram : Ram) (start place : UInt16) (bytes : List UInt8)

theorem load_append (more : List UInt8) :
    ram.load start (bytes ++ more) =
      (ram.load start bytes).load (UInt16.ofNat (start.toNat + bytes.length)) more := by
  induction bytes generalizing ram start with
  | nil => rw [List.nil_append, List.length_nil, Nat.add_zero, UInt16.ofNat_toNat, load]
  | cons byte rest ih =>
      have moved : UInt16.ofNat ((start + 1).toNat + rest.length) =
          UInt16.ofNat (start.toNat + (byte :: rest).length) := by
        rw [← UInt16.toNat_inj, UInt16.toNat_ofNat', UInt16.toNat_ofNat', List.length_cons,
          UInt16.toNat_add]
        change ((start.toNat + 1) % 2 ^ 16 + rest.length) % 2 ^ 16 = _
        omega
      rw [List.cons_append, load, ih, moved, load]

theorem load_concat (byte : UInt8) :
    ram.load start (bytes ++ [byte]) =
      (ram.load start bytes).set (UInt16.ofNat (start.toNat + bytes.length)) byte := by
  rw [load_append, load, load]

theorem ofNat_eq_iff (address : Nat) :
    UInt16.ofNat address = place ↔ address % 0x10000 = place.toNat := by
  rw [← UInt16.toNat_inj, UInt16.toNat_ofNat']

theorem get_load_of_isGreatest {index : Nat}
    (last : IsGreatest (landings start place bytes.length) index) :
    bytes[index]? = some ((ram.load start bytes).get place) := by
  -- The last byte is written last, so bytes are taken off at the end.
  induction bytes using List.reverseRecOn with
  | nil => exact (Nat.not_lt_zero _ last.1.1).elim
  | append_singleton bytes byte ih =>
      obtain ⟨⟨inside, lands⟩, above⟩ := last
      rw [List.length_append, List.length_singleton] at inside above
      simp only [load_concat, get_set, ofNat_eq_iff]
      by_cases onto : (start.toNat + bytes.length) % 0x10000 = place.toNat
      · have final : index = bytes.length :=
          Nat.le_antisymm (Nat.le_of_lt_succ inside) (above ⟨Nat.lt_succ_self _, onto⟩)
        rw [if_pos onto, final, List.getElem?_concat_length]
      · have earlier : index ≠ bytes.length := by
          rintro rfl
          exact onto lands
        have before : index < bytes.length := by omega
        rw [if_neg onto, List.getElem?_append_left before]
        refine ih ⟨⟨before, lands⟩, fun other landing => above ⟨?_, landing.2⟩⟩
        exact Nat.lt_succ_of_lt landing.1

theorem get_load_of_landings_empty (empty : landings start place bytes.length = ∅) :
    (ram.load start bytes).get place = ram.get place := by
  refine get_load_of_ne fun index inside lands => ?_
  have landing : index ∈ landings start place bytes.length := by
    rw [← UInt16.ofNat_toNat (x := start), ← UInt16.ofNat_add, ofNat_eq_iff] at lands
    exact ⟨inside, lands⟩
  rw [empty] at landing
  exact landing

theorem bddAbove_landings (length : Nat) : BddAbove (landings start place length) :=
  ⟨length, fun _ landing => Nat.le_of_lt landing.1⟩

theorem load_eq_foldl_write :
    ram.load start bytes = bytes.zipIdx.foldl
      (fun ram entry => Bus.write ram (UInt16.ofNat (start.toNat + entry.2)) entry.1) ram := by
  induction bytes using List.reverseRecOn with
  | nil => rfl
  | append_singleton bytes byte ih =>
      rw [load_concat, ih, List.zipIdx_append, List.foldl_append]
      simp only [List.zipIdx_singleton, Nat.zero_add, List.foldl_cons, List.foldl_nil, write_eq]

/-- Copying bytes of any number leaves in each place the last of those that come to it, and what it
held if none does.  It can be cut anywhere and resumed at the address reached, and is the same as
writing byte after byte over the bus. -/
theorem load_last_writer :
    (∀ place,
      (∃ index, IsGreatest (landings start place bytes.length) index ∧
        bytes[index]? = some ((ram.load start bytes).get place)) ∨
      (landings start place bytes.length = ∅ ∧
        (ram.load start bytes).get place = ram.get place)) ∧
    (∀ more, ram.load start (bytes ++ more) =
      (ram.load start bytes).load (UInt16.ofNat (start.toNat + bytes.length)) more) ∧
    ram.load start bytes = bytes.zipIdx.foldl
      (fun ram entry => Bus.write ram (UInt16.ofNat (start.toNat + entry.2)) entry.1) ram := by
  refine ⟨fun place => ?_, load_append ram start bytes, load_eq_foldl_write ram start bytes⟩
  rcases (landings start place bytes.length).eq_empty_or_nonempty with empty | reached
  · exact Or.inr ⟨empty, get_load_of_landings_empty ram start place bytes empty⟩
  · obtain ⟨index, last⟩ := (bddAbove_landings start place _).exists_isGreatest_of_nonempty reached
    exact Or.inl ⟨index, last, get_load_of_isGreatest ram start place bytes last⟩

end Ram

end Dmg
