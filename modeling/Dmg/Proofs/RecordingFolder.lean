import Dmg.Host.Sandbox
import Dmg.Proofs.FrameHistory
import Dmg.Proofs.FrameNames
import Dmg.Proofs.MachineTick
import Mathlib.Data.Set.Card
import Mathlib.Order.Interval.Finset.Nat

/-!
Where recordings go: a directory of a computer, what the computer has to do for a recording, and
what the directory holds after one.  The computer in memory does all of it.
-/

namespace Dmg

/-- A directory by what it has under each name, and how pictures are kept in its files. -/
structure Folder (φ : Type) where
  path : String
  File : Type
  encode : Picture → File
  decode? : File → Option Picture
  file? : φ → String → Option File
  /-- The directory exists, and nothing but files is in the way of a recording. -/
  Open : φ → Prop

namespace Machine

def afterFrames (machine : Machine) (count : Nat) : Machine :=
  (fun before => before.runFrame.2)^[count] machine

end Machine

namespace Folder

section Accepts

variable {φ : Type} [Host (StateM φ)] (folder : Folder φ)

end Accepts

variable {φ : Type} (folder : Folder φ)

structure Records (machine : Machine) (count : Nat) (before after : φ) : Prop where
  each : ∀ index, 0 < index → index ≤ count →
    ∃ file, folder.file? after (frameName index) = some file ∧
      folder.decode? file = some (machine.afterFrames index).picture
  others : ∀ name, (∀ index, 0 < index → index ≤ count → name ≠ frameName index) →
    folder.file? after name = folder.file? before name

def added (before after : φ) : Set String :=
  {name | folder.file? before name = none ∧ folder.file? after name ≠ none}

variable {folder} {machine : Machine} {count : Nat} {before after : φ}

namespace Records

theorem none : folder.Records machine 0 before before where
  each index positive inside := by omega
  others name _ := rfl

theorem succ (records : folder.Records machine count before after) {next : φ}
    (readable : folder.decode? (folder.encode (machine.afterFrames (count + 1)).picture) =
      some (machine.afterFrames (count + 1)).picture)
    (written : ∀ name, folder.file? next name =
      if name = frameName (count + 1) then
        some (folder.encode (machine.afterFrames (count + 1)).picture)
      else folder.file? after name) : folder.Records machine (count + 1) before next where
  each index positive inside := by
    by_cases last : index = count + 1
    · rw [last, written, if_pos rfl]
      exact ⟨_, rfl, readable⟩
    · rw [written, if_neg (frameName_inj.not.mpr last)]
      exact records.each index positive (by omega)
  others name apart := by
    rw [written, if_neg (apart (count + 1) (by omega) (by omega))]
    exact records.others name fun index positive inside => apart index positive (by omega)

theorem congr (records : folder.Records machine count before after) {earlier later : φ}
    (first : ∀ name, folder.file? before name = folder.file? earlier name)
    (last : ∀ name, folder.file? later name = folder.file? after name) :
    folder.Records machine count earlier later where
  each index positive inside := by
    rw [last]
    exact records.each index positive inside
  others name apart := by rw [last, records.others name apart, first]

end Records

end Folder

/-! The computer in memory. -/

namespace Sandbox

def folder : Folder Sandbox where
  path := "frames"
  File := SandboxFile
  encode := .picture
  decode? := fun
    | .picture content => some content
    | .bytes _ => none
  file? sandbox name := sandbox.files.lookup ["frames", name]
  Open sandbox := sandbox.directories = [[], ["frames"]]

end Sandbox

end Dmg
