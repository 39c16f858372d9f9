import Dmg.Memory.Bus

/-!
Flat memory of 65536 bytes.  `get_set` is its whole theory: a read sees the last write to its
address, and two memories that agree at every address are equal.
-/

namespace Dmg

structure Ram where
  bytes : Vector UInt8 0x10000
deriving DecidableEq

namespace Ram

def zero : Ram := ⟨Vector.replicate 0x10000 0⟩

instance : Inhabited Ram := ⟨zero⟩

@[inline] def get (ram : Ram) (address : UInt16) : UInt8 :=
  have inside : address.toNat < 0x10000 := address.toNat_lt
  ram.bytes[address.toNat]

@[inline] def set (ram : Ram) (address : UInt16) (value : UInt8) : Ram :=
  match ram with
  | ⟨bytes⟩ => ⟨bytes.set address.toNat value address.toNat_lt⟩

@[simp] theorem get_zero (address : UInt16) : zero.get address = 0 := by
  simp [zero, get]

theorem get_set (ram : Ram) (written address : UInt16) (value : UInt8) :
    (ram.set written value).get address = if written = address then value else ram.get address := by
  simp only [get, set, Vector.getElem_set, UInt16.toNat_inj]

@[simp] theorem get_set_self (ram : Ram) (address : UInt16) (value : UInt8) :
    (ram.set address value).get address = value := by
  simp [get_set]

theorem get_set_of_ne (ram : Ram) {written address : UInt16} (value : UInt8)
    (apart : written ≠ address) : (ram.set written value).get address = ram.get address := by
  simp [get_set, apart]

theorem ext_get {left right : Ram} (agree : ∀ address, left.get address = right.get address) :
    left = right := by
  obtain ⟨leftBytes⟩ := left
  obtain ⟨rightBytes⟩ := right
  congr 1
  apply Vector.ext
  intro index bound
  have same := agree (UInt16.ofNat index)
  have position : (UInt16.ofNat index).toNat = index := UInt16.toNat_ofNat_of_lt' bound
  simpa only [get, position] using same

/-- Copies bytes to successive addresses, going on at zero after the last address. -/
def load (ram : Ram) (address : UInt16) : List UInt8 → Ram
  | [] => ram
  | byte :: rest => (ram.set address byte).load (address + 1) rest

theorem get_load_of_ne {ram : Ram} {start place : UInt16} {bytes : List UInt8}
    (apart : ∀ index, index < bytes.length → start + UInt16.ofNat index ≠ place) :
    (ram.load start bytes).get place = ram.get place := by
  induction bytes generalizing ram start with
  | nil => rfl
  | cons byte rest ih =>
      have first := apart 0 (Nat.succ_pos _)
      rw [load, ih, get_set_of_ne]
      · simpa using first
      · intro index bound
        have next := apart (index + 1) (Nat.succ_lt_succ bound)
        rw [Nat.add_comm, UInt16.ofNat_add, ← UInt16.add_assoc] at next
        exact next

theorem get_load {bytes : List UInt8} (fits : bytes.length ≤ 0x10000) (ram : Ram) (start : UInt16)
    {index : Nat} (inside : index < bytes.length) :
    (ram.load start bytes).get (start + UInt16.ofNat index) = bytes[index] := by
  induction bytes generalizing ram start index with
  | nil => cases inside
  | cons byte rest ih =>
      have restFits : rest.length ≤ 0x10000 := Nat.le_of_succ_le fits
      cases index with
      | zero =>
          rw [load, get_load_of_ne]
          · simp
          · intro later bound same
            have short : later + 1 < 0x10000 := Nat.lt_of_lt_of_le (Nat.succ_lt_succ bound) fits
            have around : UInt16.ofNat (later + 1) = 0 := by
              rw [UInt16.ofNat_add]
              grind
            have place := congrArg UInt16.toNat around
            rw [UInt16.toNat_ofNat_of_lt' short] at place
            cases place
      | succ index =>
          have next := ih restFits (ram.set start byte) (start + 1) (Nat.lt_of_succ_lt_succ inside)
          rw [UInt16.add_assoc, UInt16.add_comm 1] at next
          rw [UInt16.ofNat_add]
          exact next

def dump (ram : Ram) (address : UInt16) : Nat → List UInt8
  | 0 => []
  | count + 1 => ram.get address :: ram.dump (address + 1) count

instance : Bus Ram where
  read ram address := (ram.get address, ram)
  write ram address value := ram.set address value

@[simp] theorem read_eq (ram : Ram) (address : UInt16) :
    Bus.read ram address = (ram.get address, ram) := rfl

@[simp] theorem write_eq (ram : Ram) (address : UInt16) (value : UInt8) :
    Bus.write ram address value = ram.set address value := rfl

end Ram

end Dmg
