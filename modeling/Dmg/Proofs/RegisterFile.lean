import Dmg.Proofs.Bits
import Dmg.Proofs.FlagLaw
import Mathlib.Data.List.Induction

/-!
The register file as twelve bytes of storage.  Every way to write registers is a sequence of stores
to single bytes and every way to read them is made of the bytes, so that what is read through one
view is told by the last stores, through whichever views they came.
-/

namespace Dmg

inductive Cell
  | register (register : Register)
  | flags
  | spHigh | spLow | pcHigh | pcLow
deriving DecidableEq

namespace Cell

def backed : Cell → Nat → Bool
  | flags, place => 4 ≤ place
  | _, _ => true

def kept : Cell → UInt8 → UInt8
  | flags, value => value &&& 0xF0
  | _, value => value

theorem testBit_kept (cell : Cell) (value : UInt8) (place : Nat) :
    (cell.kept value).toNat.testBit place = (value.toNat.testBit place && cell.backed place) := by
  cases cell with
  | flags =>
      have upper : ∀ place : Fin 8, Nat.testBit 0xF0 place = decide (4 ≤ place.val) := by decide
      rw [kept, UInt8.toNat_and, Nat.testBit_and, backed]
      by_cases inside : place < 8
      · exact congrArg _ (upper ⟨place, inside⟩)
      · rw [testBit_of_le value (Nat.le_of_not_lt inside), Bool.false_and, Bool.false_and]
  | _ => exact (Bool.and_true _).symm

end Cell

structure Wide where
  high : Cell
  low : Cell
  apart : high ≠ low := by decide

def Pair.wide : Pair → Wide
  | .bc => { high := .register .b, low := .register .c }
  | .de => { high := .register .d, low := .register .e }
  | .hl => { high := .register .h, low := .register .l }
  | .sp => { high := .spHigh, low := .spLow }

def StackPair.wide : StackPair → Wide
  | .bc => Pair.bc.wide
  | .de => Pair.de.wide
  | .hl => Pair.hl.wide
  | .af => { high := .register .a, low := .flags }

def Pointer.wide : Pointer → Wide
  | .pc => { high := .pcHigh, low := .pcLow }
  | .sp => Pair.sp.wide
  | .hl => Pair.hl.wide

/-- Some bits of a byte are given new values, those under the mask. -/
structure Store where
  cell : Cell
  mask : UInt8
  value : UInt8

namespace Store

def whole (cell : Cell) (value : UInt8) : Store := { cell, mask := 0xFF, value }

def bit? (store : Store) (cell : Cell) (place : Nat) : Option Bool :=
  if store.cell = cell ∧ store.mask.toNat.testBit place then
    some (store.value.toNat.testBit place && cell.backed place)
  else none

/-- What a bit became at the last store that covers it. -/
def lastBit? (stores : List Store) (cell : Cell) (place : Nat) : Option Bool :=
  (stores.filterMap (·.bit? cell place)).getLast?

theorem lastBit?_concat (stores : List Store) (store : Store) (cell : Cell) (place : Nat) :
    lastBit? (stores ++ [store]) cell place =
      (store.bit? cell place).or (lastBit? stores cell place) := by
  simp only [lastBit?, List.filterMap_append]
  cases covered : store.bit? cell place <;> simp [covered]

end Store

def Wide.stores (wide : Wide) (value : UInt16) : List Store :=
  [.whole wide.high (highByte value), .whole wide.low (lowByte value)]

inductive RegisterChange
  | setSlot (slot : Slot) (value : UInt8)
  | setPair (pair : Pair) (value : UInt16)
  | setStackPair (pair : StackPair) (value : UInt16)
  | setF (value : UInt8)
  | setFlag (mask : UInt8) (on : Bool)
  | advance (pointer : Pointer)
  | retreat (pointer : Pointer)

namespace Registers

variable (registers : Registers)

def byte : Cell → UInt8
  | .register register => registers.get register
  | .flags => registers.f
  | .spHigh => highByte registers.sp
  | .spLow => lowByte registers.sp
  | .pcHigh => highByte registers.pc
  | .pcLow => lowByte registers.pc

def setByte (cell : Cell) (value : UInt8) : Registers :=
  match cell with
  | .register register => registers.set register value
  | .flags => registers.setF value
  | .spHigh => { registers with sp := join value (lowByte registers.sp) }
  | .spLow => { registers with sp := join (highByte registers.sp) value }
  | .pcHigh => { registers with pc := join value (lowByte registers.pc) }
  | .pcLow => { registers with pc := join (highByte registers.pc) value }

theorem byte_setByte_self (cell : Cell) (value : UInt8) :
    (registers.setByte cell value).byte cell = cell.kept value := by
  cases cell with
  | register register => exact registers.get_set_self register value
  | flags => exact Flags.toByte_ofByte value
  | spHigh | pcHigh => exact highByte_join _ _
  | spLow | pcLow => exact lowByte_join _ _

theorem byte_setByte_of_ne {cell other : Cell} (value : UInt8) (apart : cell ≠ other) :
    (registers.setByte cell value).byte other = registers.byte other := by
  cases cell with
  | register written =>
      cases other with
      | register read =>
          exact registers.get_set_of_ne value fun same => apart (congrArg Cell.register same)
      | _ => cases written <;> rfl
  | flags =>
      cases other with
      | register read => cases read <;> rfl
      | flags => contradiction
      | _ => rfl
  -- Half of a pointer is written by putting the whole together again.
  | spHigh | pcHigh =>
      cases other with
      | register read => cases read <;> rfl
      | spLow | pcLow => first | rfl | exact lowByte_join _ _
      | _ => first | rfl | contradiction
  | spLow | pcLow =>
      cases other with
      | register read => cases read <;> rfl
      | spHigh | pcHigh => first | rfl | exact highByte_join _ _
      | _ => first | rfl | contradiction

theorem byte_setByte (cell other : Cell) (value : UInt8) :
    (registers.setByte cell value).byte other =
      if cell = other then cell.kept value else registers.byte other := by
  split
  · rename_i same
    subst same
    exact registers.byte_setByte_self cell value
  · rename_i apart
    exact registers.byte_setByte_of_ne value apart

theorem ime_setByte (cell : Cell) (value : UInt8) :
    (registers.setByte cell value).ime = registers.ime := by
  cases cell with
  | register register => cases register <;> rfl
  | _ => rfl

theorem kept_byte (cell : Cell) : cell.kept (registers.byte cell) = registers.byte cell := by
  cases cell with
  | flags =>
      rw [Cell.kept, byte, f, ← Flags.toByte_ofByte, Flags.ofByte_toByte]
  | _ => rfl

theorem eq_of_bytes {left right : Registers} (same : ∀ cell, left.byte cell = right.byte cell)
    (ime : left.ime = right.ime) : left = right := by
  have register (name : Register) : left.get name = right.get name := same (.register name)
  have flags : left.flags = right.flags := by
    rw [← Flags.ofByte_toByte left.flags, ← Flags.ofByte_toByte right.flags]
    exact congrArg Flags.ofByte (same .flags)
  have sp : left.sp = right.sp := by
    rw [← join_highByte_lowByte left.sp, ← join_highByte_lowByte right.sp]
    exact congrArg₂ join (same .spHigh) (same .spLow)
  have pc : left.pc = right.pc := by
    rw [← join_highByte_lowByte left.pc, ← join_highByte_lowByte right.pc]
    exact congrArg₂ join (same .pcHigh) (same .pcLow)
  obtain ⟨a, _, b, c, d, e, h, l, _, _, _⟩ := left
  obtain ⟨_, _, _, _, _, _, _, _, _, _, _⟩ := right
  cases flags
  cases sp
  cases pc
  cases ime
  cases register .a
  cases register .b
  cases register .c
  cases register .d
  cases register .e
  cases register .h
  cases register .l
  rfl

theorem setByte_comm {cell other : Cell} (apart : cell ≠ other) (value another : UInt8) :
    (registers.setByte cell value).setByte other another =
      (registers.setByte other another).setByte cell value := by
  apply eq_of_bytes
  · intro place
    simp only [byte_setByte]
    split
    · rename_i here
      rw [if_neg fun there => apart (there.trans here.symm)]
    · rfl
  · simp only [ime_setByte]

theorem setByte_setByte (cell : Cell) (value another : UInt8) :
    (registers.setByte cell value).setByte cell another = registers.setByte cell another := by
  apply eq_of_bytes
  · intro place
    simp only [byte_setByte]
    split <;> rfl
  · simp only [ime_setByte]

theorem setByte_byte (cell : Cell) : registers.setByte cell (registers.byte cell) = registers := by
  apply eq_of_bytes
  · intro place
    rw [byte_setByte]
    split
    · rename_i same
      rw [registers.kept_byte, same]
    · rfl
  · exact registers.ime_setByte _ _

/-! Registers of two bytes. -/

def word (wide : Wide) : UInt16 := join (registers.byte wide.high) (registers.byte wide.low)

def setWord (wide : Wide) (value : UInt16) : Registers :=
  (registers.setByte wide.high (highByte value)).setByte wide.low (lowByte value)

theorem getPair_eq (pair : Pair) : registers.getPair pair = registers.word pair.wide := by
  cases pair with
  | sp => exact (join_highByte_lowByte registers.sp).symm
  | _ => rfl

theorem getStackPair_eq (pair : StackPair) :
    registers.getStackPair pair = registers.word pair.wide := by
  cases pair <;> rfl

theorem pointer_eq (pointer : Pointer) :
    registers.pointer pointer = registers.word pointer.wide := by
  cases pointer with
  | pc | sp => exact (join_highByte_lowByte _).symm
  | hl => rfl

theorem join_halves (value : UInt16) (low : UInt8) :
    join (highByte (join (highByte value) low)) (lowByte value) = value := by
  rw [highByte_join, join_highByte_lowByte]

theorem setPair_eq (pair : Pair) (value : UInt16) :
    registers.setPair pair value = registers.setWord pair.wide value := by
  cases pair with
  | sp =>
      exact congrArg (fun sp => { registers with sp }) (join_halves value _).symm
  | _ => rfl

theorem setStackPair_eq (pair : StackPair) (value : UInt16) :
    registers.setStackPair pair value = registers.setWord pair.wide value := by
  cases pair <;> rfl

theorem setPointer_eq (pointer : Pointer) (value : UInt16) :
    registers.setPointer pointer value = registers.setWord pointer.wide value := by
  cases pointer with
  | pc =>
      exact congrArg (fun pc => { registers with pc }) (join_halves value _).symm
  | sp => exact registers.setPair_eq .sp value
  | hl => rfl

theorem setWord_setWord (wide : Wide) (value another : UInt16) :
    (registers.setWord wide value).setWord wide another = registers.setWord wide another := by
  rw [setWord, setWord, setByte_comm _ wide.apart.symm, setByte_setByte, setByte_setByte, setWord]

theorem setWord_word (wide : Wide) : registers.setWord wide (registers.word wide) = registers := by
  rw [setWord, word, highByte_join, lowByte_join, setByte_byte, setByte_byte]

theorem pointer_setPointer (pointer : Pointer) (value : UInt16) :
    (registers.setPointer pointer value).pointer pointer = value := by
  cases pointer with
  | hl => exact registers.hl_setHl value
  | _ => rfl

theorem setPointer_setPointer (pointer : Pointer) (value another : UInt16) :
    (registers.setPointer pointer value).setPointer pointer another =
      registers.setPointer pointer another := by
  simp only [setPointer_eq, setWord_setWord]

theorem setPointer_pointer (pointer : Pointer) :
    registers.setPointer pointer (registers.pointer pointer) = registers := by
  rw [setPointer_eq, pointer_eq, setWord_word]

theorem retreat_advance (pointer : Pointer) :
    (registers.advance pointer).2.retreat pointer = (registers.pointer pointer + 1, registers) := by
  simp only [advance, retreat, pointer_setPointer, setPointer_setPointer, UInt16.add_sub_cancel,
    setPointer_pointer]

theorem advance_retreat (pointer : Pointer) :
    (registers.retreat pointer).2.advance pointer = (registers.pointer pointer - 1, registers) := by
  simp only [advance, retreat, pointer_setPointer, setPointer_setPointer, UInt16.sub_add_cancel,
    setPointer_pointer]

/-! Sequences of changes as sequences of stores. -/

def put (store : Store) : Registers :=
  registers.setByte store.cell
    (registers.byte store.cell &&& ~~~store.mask ||| store.value &&& store.mask)

theorem put_whole (cell : Cell) (value : UInt8) :
    registers.put (.whole cell value) = registers.setByte cell value := by
  have nothing : ~~~(0xFF : UInt8) = 0 := by decide
  have everything : value &&& 0xFF = value := UInt8.and_neg_one
  rw [put, Store.whole, nothing, everything, UInt8.and_zero, UInt8.zero_or]

theorem testBit_put (store : Store) (cell : Cell) (place : Nat) :
    ((registers.put store).byte cell).toNat.testBit place =
      (store.bit? cell place).getD ((registers.byte cell).toNat.testBit place) := by
  rw [put, byte_setByte, Store.bit?]
  by_cases here : store.cell = cell
  · have storage := congrArg (·.toNat.testBit place) (registers.kept_byte cell)
    simp only [Cell.testBit_kept] at storage
    subst here
    rw [if_pos rfl, Cell.testBit_kept, testBit_merge]
    cases store.mask.toNat.testBit place with
    | false => simpa using storage
    | true => simp
  · simp [here]

theorem testBit_foldl_put (stores : List Store) (cell : Cell) (place : Nat) :
    ((stores.foldl put registers).byte cell).toNat.testBit place =
      (Store.lastBit? stores cell place).getD ((registers.byte cell).toNat.testBit place) := by
  -- The last store decides, so stores are taken off at the end.
  induction stores using List.reverseRecOn with
  | nil => rfl
  | append_singleton stores store ih =>
      rw [List.foldl_append, List.foldl_cons, List.foldl_nil, testBit_put, ih,
        Store.lastBit?_concat]
      cases store.bit? cell place <;> rfl

theorem ime_foldl_put (stores : List Store) : (stores.foldl put registers).ime = registers.ime := by
  induction stores generalizing registers with
  | nil => rfl
  | cons store rest ih => exact (ih _).trans (registers.ime_setByte _ _)

theorem assign_eq_put (mask : UInt8) (on : Bool) :
    { registers with flags := registers.flags.assign mask on } =
      registers.put { cell := .flags, mask, value := if on then 0xFF else 0 } := by
  cases on with
  | false =>
      have cleared : registers.f &&& ~~~mask ||| 0 &&& mask = registers.f &&& ~~~mask := by
        rw [UInt8.zero_and, UInt8.or_zero]
      exact congrArg registers.setF cleared.symm
  | true => exact congrArg registers.setF (or_eq_merge registers.f mask)

def apply : RegisterChange → Registers
  | .setSlot slot value => (registers.setSlot? slot value).getD registers
  | .setPair pair value => registers.setPair pair value
  | .setStackPair pair value => registers.setStackPair pair value
  | .setF value => registers.setF value
  | .setFlag mask on => { registers with flags := registers.flags.assign mask on }
  | .advance pointer => (registers.advance pointer).2
  | .retreat pointer => (registers.retreat pointer).2

def stores : RegisterChange → List Store
  | .setSlot (.register register) value => [.whole (.register register) value]
  | .setSlot .atHl _ => []
  | .setPair pair value => pair.wide.stores value
  | .setStackPair pair value => pair.wide.stores value
  | .setF value => [.whole .flags value]
  | .setFlag mask on => [{ cell := .flags, mask, value := if on then 0xFF else 0 }]
  | .advance pointer => pointer.wide.stores (registers.pointer pointer + 1)
  | .retreat pointer => pointer.wide.stores (registers.pointer pointer - 1)

theorem foldl_put_wide (wide : Wide) (value : UInt16) :
    (wide.stores value).foldl put registers = registers.setWord wide value := by
  simp only [Wide.stores, List.foldl_cons, List.foldl_nil, put_whole, setWord]

theorem apply_eq (change : RegisterChange) :
    registers.apply change = (registers.stores change).foldl put registers := by
  cases change with
  | setSlot slot value =>
      cases slot with
      | register register => exact (registers.put_whole (.register register) value).symm
      | atHl => rfl
  | setPair pair value => rw [stores, foldl_put_wide, apply, setPair_eq]
  | setStackPair pair value => rw [stores, foldl_put_wide, apply, setStackPair_eq]
  | setF value => exact (registers.put_whole .flags value).symm
  | setFlag mask on => exact registers.assign_eq_put mask on
  | advance pointer => rw [stores, foldl_put_wide, apply, advance, setPointer_eq]
  | retreat pointer => rw [stores, foldl_put_wide, apply, retreat, setPointer_eq]

def run (changes : List RegisterChange) : Registers := changes.foldl apply registers

def history : Registers → List RegisterChange → List Store
  | _, [] => []
  | registers, change :: rest => registers.stores change ++ history (registers.apply change) rest

theorem run_eq (changes : List RegisterChange) :
    registers.run changes = (registers.history changes).foldl put registers := by
  induction changes generalizing registers with
  | nil => rfl
  | cons change rest ih =>
      rw [history, List.foldl_append, ← apply_eq, ← ih]
      rfl

/-! The laws of a register file. -/

theorem byte_apply_of_outside {change : RegisterChange} {cell : Cell}
    (outside : ∀ store ∈ registers.stores change, store.cell ≠ cell) :
    (registers.apply change).byte cell = registers.byte cell := by
  rw [apply_eq]
  generalize registers.stores change = stores at outside
  induction stores generalizing registers with
  | nil => rfl
  | cons store rest ih =>
      obtain ⟨first, later⟩ := List.forall_mem_cons.mp outside
      exact (ih (registers.put store) later).trans (registers.byte_setByte_of_ne _ first)

theorem testBit_setFlag (mask : UInt8) (on : Bool) (place : Nat) :
    (registers.apply (.setFlag mask on)).f.toNat.testBit place =
      if mask.toNat.testBit place then on && decide (4 ≤ place)
      else registers.f.toNat.testBit place := by
  rw [apply, assign_eq_put]
  refine (registers.testBit_put _ .flags place).trans ?_
  rw [Store.bit?]
  cases covered : mask.toNat.testBit place with
  | false => simp [byte]
  | true =>
      have inside : place < 8 := by
        by_contra outside
        rw [testBit_of_le mask (Nat.le_of_not_lt outside)] at covered
        cases covered
      have full : (0xFF : UInt8).toNat.testBit place = true := by
        rw [show (0xFF : UInt8).toNat = 2 ^ 8 - 1 from rfl, Nat.testBit_two_pow_sub_one]
        exact decide_eq_true inside
      cases on with
      | false => simp
      | true => simpa [Cell.backed] using fun _ => full

theorem assign_test {mask : UInt8}
    (single : mask ∈ [Flags.zeroMask, Flags.subtractMask, Flags.halfCarryMask, Flags.carryMask]) :
    registers.apply (.setFlag mask (registers.flags.test mask)) = registers := by
  have same : registers.flags.assign mask (registers.flags.test mask) = registers.flags := by
    generalize registers.flags = flags
    obtain ⟨zero, subtract, halfCarry, carry⟩ := flags
    simp only [List.mem_cons, List.not_mem_nil, or_false] at single
    rcases single with rfl | rfl | rfl | rfl <;> cases zero <;> cases subtract <;>
      cases halfCarry <;> cases carry <;> rfl
  rw [apply, same]

structure Reads : Prop where
  slot : ∀ register, registers.getSlot? (.register register) =
    some (registers.byte (.register register))
  memory : registers.getSlot? .atHl = none
  pair : ∀ pair : Pair, (registers.getPair pair).toNat =
    256 * (registers.byte pair.wide.high).toNat + (registers.byte pair.wide.low).toNat
  stackPair : ∀ pair : StackPair, (registers.getStackPair pair).toNat =
    256 * (registers.byte pair.wide.high).toNat + (registers.byte pair.wide.low).toNat
  pointer : ∀ pointer : Pointer, (registers.pointer pointer).toNat =
    256 * (registers.byte pointer.wide.high).toNat + (registers.byte pointer.wide.low).toNat
  flags : registers.flags.zero = (registers.byte .flags).toNat.testBit 7 ∧
    registers.flags.subtract = (registers.byte .flags).toNat.testBit 6 ∧
    registers.flags.halfCarry = (registers.byte .flags).toNat.testBit 5 ∧
    registers.flags.carry = (registers.byte .flags).toNat.testBit 4
  mask : ∀ mask, registers.flags.test mask = (registers.byte .flags &&& mask != 0)

theorem reads : registers.Reads where
  slot _ := rfl
  memory := rfl
  pair pair := by rw [getPair_eq, word, toNat_join]
  stackPair pair := by rw [getStackPair_eq, word, toNat_join]
  pointer pointer := by rw [pointer_eq, word, toNat_join]
  flags := registers.flags.eq_testBit
  mask _ := rfl

/-- A write changes the bytes that it covers and nothing else, and nothing at all if it puts back
what is there. -/
structure Writes : Prop where
  slot : ∀ register value, registers.setSlot? (.register register) value =
    some (registers.setByte (.register register) value)
  memory : ∀ value, registers.setSlot? .atHl value = none ∧
    registers.apply (.setSlot .atHl value) = registers
  pair : ∀ (pair : Pair) value,
    let high := highByte value
    let low := lowByte value
    registers.setPair pair value =
      (registers.setByte pair.wide.high high).setByte pair.wide.low low ∧
    registers.setPair pair value =
      (registers.setByte pair.wide.low low).setByte pair.wide.high high
  stackPair : ∀ (pair : StackPair) value,
    let high := highByte value
    let low := lowByte value
    registers.setStackPair pair value =
      (registers.setByte pair.wide.high high).setByte pair.wide.low low ∧
    registers.setStackPair pair value =
      (registers.setByte pair.wide.low low).setByte pair.wide.high high
  flagByte : ∀ value, registers.setF value = registers.setByte .flags value ∧
    (registers.setF value).f = value &&& 0xF0
  flag : ∀ mask on place, (registers.apply (.setFlag mask on)).f.toNat.testBit place =
    if mask.toNat.testBit place then on && decide (4 ≤ place)
    else registers.f.toNat.testBit place
  outside : ∀ change cell, (∀ store ∈ registers.stores change, store.cell ≠ cell) →
    (registers.apply change).byte cell = registers.byte cell
  slotBack : ∀ slot value, registers.getSlot? slot = some value →
    registers.setSlot? slot value = some registers
  pairBack : ∀ pair, registers.setPair pair (registers.getPair pair) = registers
  stackPairBack : ∀ pair, registers.setStackPair pair (registers.getStackPair pair) = registers
  flagByteBack : registers.setF registers.f = registers
  flagBack : ∀ mask ∈ [Flags.zeroMask, Flags.subtractMask, Flags.halfCarryMask, Flags.carryMask],
    registers.apply (.setFlag mask (registers.flags.test mask)) = registers
  advance : ∀ pointer, (registers.advance pointer).1 = registers.pointer pointer ∧
    (registers.advance pointer).2.retreat pointer = (registers.pointer pointer + 1, registers)
  retreat : ∀ pointer, (registers.retreat pointer).1 = registers.pointer pointer ∧
    (registers.retreat pointer).2.advance pointer = (registers.pointer pointer - 1, registers)

theorem setWord_eq_swap (wide : Wide) (value : UInt16) :
    registers.setWord wide value =
      (registers.setByte wide.low (lowByte value)).setByte wide.high (highByte value) :=
  registers.setByte_comm wide.apart _ _

theorem writes : registers.Writes where
  slot _ _ := rfl
  memory _ := ⟨rfl, rfl⟩
  pair pair value :=
    ⟨registers.setPair_eq pair value,
      (registers.setPair_eq pair value).trans (setWord_eq_swap _ _ _)⟩
  stackPair pair value :=
    ⟨registers.setStackPair_eq pair value,
      (registers.setStackPair_eq pair value).trans (setWord_eq_swap _ _ _)⟩
  flagByte value := ⟨rfl, Flags.toByte_ofByte value⟩
  flag := registers.testBit_setFlag
  outside _ _ := registers.byte_apply_of_outside
  slotBack slot value read := by
    cases slot with
    | register register =>
        cases read
        exact congrArg some (registers.setByte_byte (.register register))
    | atHl => cases read
  pairBack pair := by rw [setPair_eq, getPair_eq, setWord_word]
  stackPairBack pair := by rw [setStackPair_eq, getStackPair_eq, setWord_word]
  flagByteBack := registers.setByte_byte .flags
  flagBack _ := registers.assign_test
  advance pointer := ⟨rfl, registers.retreat_advance pointer⟩
  retreat pointer := ⟨rfl, registers.advance_retreat pointer⟩

/-- After any sequence of changes each bit of each byte is as the last store that covers it left
it, the low half of the flag byte is clear, and every view reads and writes those bytes. -/
theorem register_file (changes : List RegisterChange) :
    let file := registers.run changes
    (∀ cell place, (file.byte cell).toNat.testBit place =
      (Store.lastBit? (registers.history changes) cell place).getD
        ((registers.byte cell).toNat.testBit place)) ∧
    file.ime = registers.ime ∧ file.f &&& 0x0F = 0 ∧ file.Reads ∧ file.Writes := by
  intro file
  have replayed : file = (registers.history changes).foldl put registers :=
    registers.run_eq changes
  refine ⟨fun cell place => ?_, ?_, file.flags.toByte_low, file.reads, file.writes⟩
  · rw [replayed, testBit_foldl_put]
  · rw [replayed, ime_foldl_put]

example : (postBoot.run [.setStackPair .af 0x12FF, .setFlag Flags.carryMask false, .retreat .hl,
    .setSlot (.register .h) 0x20]).getPair .hl = 0x204C := by decide

end Registers

end Dmg
