import Dmg.Text.Hex

/-!
Values that a component reports when asked for a part of its state by name.
-/

namespace Dmg

inductive Value
  | flag (value : Bool)
  | byte (value : UInt8)
  | word (value : UInt16)
  | count (value : Nat)
  | name (value : String)
deriving DecidableEq

/-- Bytes and words are shown in hexadecimal at their full width, counts in decimal. -/
def Value.text : Value → String
  | .flag value => if value then "true" else "false"
  | .byte value => "0x" ++ hexByte value
  | .word value => "0x" ++ hexWord value
  | .count value => Nat.repr value
  | .name value => value

abbrev Readings (σ : Type) := List (String × (σ → Value))

def Readings.paths {σ : Type} (readings : Readings σ) : List String :=
  readings.map Prod.fst

def Readings.query? {σ : Type} (readings : Readings σ) (state : σ) (path : String) :
    Option Value :=
  (readings.lookup path).map (· state)

theorem lookup_isSome_iff {κ α : Type} [BEq κ] [LawfulBEq κ] (entries : List (κ × α)) (key : κ) :
    (entries.lookup key).isSome ↔ key ∈ entries.map Prod.fst := by
  induction entries with
  | nil => simp
  | cons entry rest ih =>
      obtain ⟨name, value⟩ := entry
      by_cases same : key = name
      · subst same
        simp
      · simp [List.lookup_cons, beq_false_of_ne same, ih, same]

theorem Readings.query?_isSome_iff {σ : Type} (readings : Readings σ) (state : σ) (path : String) :
    (readings.query? state path).isSome ↔ path ∈ readings.paths := by
  simp only [Readings.query?, Option.isSome_map, Readings.paths, lookup_isSome_iff]

end Dmg
