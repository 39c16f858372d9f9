import Dmg.Memory.Bus

/-!
A bus that keeps a list of the accesses made through it.  It changes neither what is read nor what
is written, so a processor cannot tell it from the bus inside.
-/

namespace Dmg

inductive Access
  | read (address : UInt16) (value : UInt8)
  | write (address : UInt16) (value : UInt8)
deriving DecidableEq

structure Recorder (β : Type) where
  inner : β
  active : Bool := true
  accesses : Array Access := #[]

namespace Recorder

variable {β : Type}

@[inline] def note (recorder : Recorder β) (access : Access) : Recorder β :=
  match recorder with
  | ⟨inner, active, accesses⟩ =>
      if active then ⟨inner, active, accesses.push access⟩ else ⟨inner, active, accesses⟩

def take (recorder : Recorder β) : Array Access × Recorder β :=
  match recorder with
  | ⟨inner, active, accesses⟩ => (accesses, ⟨inner, active, #[]⟩)

@[inline] def mapInner (recorder : Recorder β) (change : β → β) : Recorder β :=
  match recorder with
  | ⟨inner, active, accesses⟩ => ⟨change inner, active, accesses⟩

instance [Bus β] : Bus (Recorder β) where
  read recorder address :=
    match recorder with
    | ⟨inner, active, accesses⟩ =>
        let (value, inner) := Bus.read inner address
        (value, note ⟨inner, active, accesses⟩ (.read address value))
  write recorder address value :=
    match recorder with
    | ⟨inner, active, accesses⟩ =>
        note ⟨Bus.write inner address value, active, accesses⟩ (.write address value)

end Recorder

end Dmg
