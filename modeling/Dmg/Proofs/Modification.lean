import Dmg.Proofs.Bits
import Dmg.Proofs.Encoding
import Dmg.Proofs.InstructionFrame
import Dmg.Proofs.OperandStream

/-!
The instructions that change a byte operand in place.  What they leave in the operand and the flags
depends on nothing else than what was there, whether the operand is a register or lies in memory.
-/

namespace Dmg

inductive Modification
  | increment
  | decrement
  | shift (kind : Shift)
  | testBit (index : Fin 8)
  | resetBit (index : Fin 8)
  | setBit (index : Fin 8)

namespace Modification

def on (modification : Modification) (slot : Slot) : Operation :=
  match modification with
  | increment => .increment slot
  | decrement => .decrement slot
  | shift kind => .shift kind slot
  | testBit index => .testBit index slot
  | resetBit index => .resetBit index slot
  | setBit index => .setBit index slot

def apply (modification : Modification) (content : AluResult) : AluResult :=
  match modification with
  | increment =>
      let result := Alu.increment content.value
      { result with flags := Wired.keepCarry content.flags result.flags }
  | decrement =>
      let result := Alu.decrement content.value
      { result with flags := Wired.keepCarry content.flags result.flags }
  | shift kind => kind.apply content.value content.flags.carry
  | testBit index =>
      { content with flags := Wired.keepCarry content.flags (Alu.testBit index content.value) }
  | resetBit index => { content with value := Alu.resetBit index content.value }
  | setBit index => { content with value := Alu.setBit index content.value }

def stores : Modification → Bool
  | testBit _ => false
  | _ => true

def assign (index : Fin 8) (on : Bool) : Modification :=
  if on then setBit index else resetBit index

theorem value_apply_of_test {modification : Modification} (tests : modification.stores = false)
    (content : AluResult) : (modification.apply content).value = content.value := by
  cases modification <;> first | rfl | cases tests

section Bits

variable (index : Fin 8) (on : Bool) (content : AluResult)

theorem flags_assign : ((assign index on).apply content).flags = content.flags := by
  cases on <;> rfl

theorem testBit_assign (place : Nat) :
    ((assign index on).apply content).value.toNat.testBit place =
      if index.val = place then on else content.value.toNat.testBit place := by
  cases on with
  | false =>
      refine (Alu.testBit_resetBit index content.value place).trans ?_
      split <;> simp [*]
  | true =>
      refine (Alu.testBit_setBit index content.value place).trans ?_
      split <;> simp [*]

theorem zero_testBit :
    ((testBit index).apply content).flags.zero = true ↔
      content.value.toNat.testBit index = false :=
  Alu.zero_testBit index content.value

theorem zero_testBit_assign :
    ((testBit index).apply ((assign index on).apply content)).flags.zero = !on := by
  rw [Bool.eq_iff_iff, zero_testBit, testBit_assign, if_pos rfl, Bool.not_eq_true']

theorem assign_comm {index other : Fin 8} (apart : index ≠ other) (on off : Bool)
    (content : AluResult) :
    (assign other off).apply ((assign index on).apply content) =
      (assign index on).apply ((assign other off).apply content) := by
  have bits : ∀ place,
      ((assign other off).apply ((assign index on).apply content)).value.toNat.testBit place =
        ((assign index on).apply ((assign other off).apply content)).value.toNat.testBit place := by
    intro place
    simp only [testBit_assign]
    by_cases here : index.val = place
    · have elsewhere : other.val ≠ place := fun there => apart (Fin.ext (here.trans there.symm))
      rw [if_neg elsewhere, if_pos here, if_pos here]
    · rw [if_neg here, if_neg here]
  have flags : ((assign other off).apply ((assign index on).apply content)).flags =
      ((assign index on).apply ((assign other off).apply content)).flags := by
    simp only [flags_assign]
  exact congrArg₂ AluResult.mk (eq_of_bits bits) flags

end Bits

end Modification

namespace Wired

variable {β : Type}

section Execute

variable [Bus β]

def content (wired : Wired β) (slot : Slot) : AluResult :=
  { value := (wired.loadSlot slot).1, flags := wired.registers.flags }

def settle (wired : Wired β) (modification : Modification) (slot : Slot) (result : AluResult) :
    Wired β :=
  (if modification.stores then wired.storeSlot slot result.value else wired).setFlags result.flags

theorem execute_modification (wired : Wired β) (modification : Modification) (slot : Slot) :
    wired.execute (modification.on slot) =
      (none, (wired.loadSlot slot).2.settle modification slot
        (modification.apply (wired.content slot))) := by
  cases modification with
  -- These leave the flags alone, which is to put the same flags back.
  | resetBit index | setBit index => rcases slot with ⟨_ | _⟩ | _ <;> rfl
  | testBit index => cases slot <;> rfl
  | _ => rfl

theorem effectWith_modification (wired : Wired β) (modification : Modification) (slot : Slot)
    (operand behind : UInt16) :
    wired.effectWith (modification.on slot) operand behind =
      ((wired.goTo behind).loadSlot slot).2.settle modification slot
        (modification.apply (wired.content slot)) := by
  have none : (modification.on slot).operandLength = 0 := by cases modification <;> rfl
  have same : (wired.goTo behind).content slot = wired.content slot := by
    rcases slot with ⟨_ | _⟩ | _ <;> rfl
  rw [effectWith, executeWith_of_none _ _ none, execute_modification, same]

omit [Bus β] in
theorem duration_modification (wired : Wired β) (modification : Modification) (slot : Slot) :
    wired.duration (modification.on slot).instruction.operation =
      (modification.on slot).cycles := by
  cases modification <;> rfl

end Execute

section Memory

variable {wired : Wired Ram} {modification : Modification} {slot : Slot}

theorem content_congr {wired other : Wired Ram} (registers : wired.registers = other.registers)
    (bus : wired.bus = other.bus) (slot : Slot) : wired.content slot = other.content slot := by
  have value : (wired.loadSlot slot).1 = (other.loadSlot slot).1 := by
    cases slot with
    | register name => exact congrArg (·.get name) registers
    | atHl => exact congrArg₂ (fun ram registers => ram.get (Registers.hl registers)) bus registers
  exact congrArg₂ AluResult.mk value (congrArg Registers.flags registers)

theorem content_settle {result : AluResult}
    (tested : modification.stores = false → result.value = (wired.content slot).value) :
    (wired.settle modification slot result).content slot = result := by
  have value : ((wired.settle modification slot result).loadSlot slot).1 = result.value := by
    rw [settle]
    cases stores : modification.stores with
    | false =>
        rw [tested stores]
        rcases slot with ⟨_ | _⟩ | _ <;> rfl
    | true =>
        cases slot with
        | register name => exact (get_setFlags _).trans (Registers.get_set_self _ _ _)
        | atHl => exact Ram.get_set_self _ _ _
  exact congrArg₂ AluResult.mk value rfl

theorem effect_modification (wired : Wired Ram) (modification : Modification) (slot : Slot) :
    wired.effect (modification.on slot).instruction =
      (((wired.release (modification.on slot).instruction).goTo
          (wired.behindOpcode + UInt16.ofNat (modification.on slot).length - 1)).settle
        modification slot (modification.apply (wired.content slot))).expireDelay := by
  have loaded : ∀ wired : Wired Ram, (wired.loadSlot slot).2 = wired := by
    intro wired
    cases slot <;> rfl
  rw [effect, effectAt_eq_effectWith]
  change Wired.expireDelay (Wired.effectWith _ (modification.on slot) _ _) = _
  rw [effectWith_modification, loaded]
  cases slot <;> rfl

theorem content_effect (wired : Wired Ram) (modification : Modification) (slot : Slot) :
    (wired.effect (modification.on slot).instruction).content slot =
      modification.apply (wired.content slot) := by
  have expired : ∀ wired : Wired Ram, wired.expireDelay.content slot = wired.content slot := by
    intro wired
    rw [expireDelay_eq]
    rcases slot with ⟨_ | _⟩ | _ <;> rfl
  rw [effect_modification, expired]
  refine content_settle fun tests => ?_
  rw [Modification.value_apply_of_test tests]
  rcases slot with ⟨_ | _⟩ | _ <;> rfl

theorem loadSlot_logging (wired : Wired Ram) (log : List Access) (slot : Slot) :
    ((wired.logging log).loadSlot slot).2 = wired.logging
      (log ++ (slot.places wired.registers).map (.read · (wired.loadSlot slot).1)) := by
  cases slot with
  | register _ =>
      change _ = wired.logging (log ++ [])
      rw [List.append_nil]
      rfl
  | atHl =>
      change _ = wired.logging (log ++ [_])
      rw [logging, logging, ← List.push_toArray]
      rfl

theorem storeSlot_logging (wired : Wired Ram) (log : List Access) (slot : Slot) (value : UInt8) :
    (wired.logging log).storeSlot slot value = (wired.storeSlot slot value).logging
      (log ++ (slot.places wired.registers).map (.write · value)) := by
  cases slot with
  | register _ =>
      change _ = Wired.logging _ (log ++ [])
      rw [List.append_nil]
      rfl
  | atHl =>
      change _ = Wired.logging _ (log ++ [_])
      rw [logging, logging, ← List.push_toArray]
      rfl

def dataAccesses (wired : Wired Ram) (modification : Modification) (slot : Slot) : List Access :=
  let places := slot.places wired.registers
  let result := modification.apply (wired.content slot)
  places.map (.read · (wired.content slot).value) ++
    if modification.stores then places.map (.write · result.value) else []

theorem bus_effectWith_modification (wired : Wired Ram) (modification : Modification) (slot : Slot)
    (operand behind : UInt16) :
    let instruction := (modification.on slot).instruction
    let reads := wired.encodingReads instruction.operation.reads
    (((wired.release instruction).logging reads).effectWith instruction.operation operand
        behind).bus =
      { inner := (wired.effect instruction).bus
        accesses := (reads ++ wired.dataAccesses modification slot).toArray } := by
  intro instruction reads
  let passed := (wired.release instruction).goTo behind
  let result := modification.apply (wired.content slot)
  have content : ((wired.release instruction).logging reads).content slot = wired.content slot := by
    cases slot <;> rfl
  have loaded := loadSlot_logging passed reads slot
  change (Wired.effectWith _ (modification.on slot) _ _).bus = _
  rw [effectWith_modification, effect_modification, expireDelay_eq, content, settle, settle,
    dataAccesses]
  change Wired.bus (Wired.setFlags (if modification.stores then
    ((passed.logging reads).loadSlot slot).2.storeSlot slot result.value
    else ((passed.logging reads).loadSlot slot).2) _) = _
  rw [loaded]
  cases modification.stores with
  | false =>
      simp only [Bool.false_eq_true, if_false, List.append_nil]
      cases slot <;> rfl
  | true =>
      simp only [if_true]
      rw [storeSlot_logging, List.append_assoc]
      cases slot <;> rfl

/-- The processor carries out modifications of one operand, each right behind the other. -/
inductive Modifies (start : Wired Ram) (slot : Slot) : List Modification → Wired Ram → Prop
  | start : Modifies start slot [] start
  | step {done now modification} : Modifies start slot done now →
      now.Begins (modification.on slot) →
      now.step.2.cpu.phase ≠ .executing dispatchCycles .idle →
      Modifies start slot (done ++ [modification]) now.step.2

theorem content_step (begins : wired.Begins (modification.on slot))
    (undispatched : wired.step.2.cpu.phase ≠ .executing dispatchCycles .idle) :
    wired.step.2.content slot = modification.apply (wired.content slot) := by
  obtain ⟨_, registers, bus⟩ := step_undispatched begins.fetching begins.found undispatched
  rw [content_congr registers bus, content_effect]

theorem Modifies.content {start now : Wired Ram} {modifications : List Modification}
    (run : start.Modifies slot modifications now) :
    now.content slot =
      modifications.foldl (fun content modification => modification.apply content)
        (start.content slot) := by
  induction run with
  | start => rfl
  | step _ begins undispatched ih =>
      rw [content_step begins undispatched, List.foldl_append, ih]
      rfl

structure Modified (wired : Wired Ram) (modification : Modification) (slot : Slot) : Prop where
  passes : wired.step.1 = .ok (modification.on slot).cycles
  content : wired.step.2.content slot = modification.apply (wired.content slot)
  register : ∀ name, slot = .register name → wired.step.2.bus = wired.bus
  memory : slot = .atHl → wired.step.2.registers.hl = wired.registers.hl ∧
    wired.step.2.bus =
      if modification.stores then
        wired.bus.set wired.registers.hl (modification.apply (wired.content slot)).value
      else wired.bus
  accesses : ∃ told : Wired (Recorder Ram),
    wired.recorded.step = (.ok (modification.on slot).cycles, told.retire.count) ∧
      told.bus.inner = wired.step.2.bus ∧ told.bus.accesses.toList =
        wired.encodingReads (modification.on slot).reads ++ wired.dataAccesses modification slot
  assigned : ∀ index on, modification = .assign index on →
    wired.step.2.registers.flags = wired.registers.flags ∧
      ∀ place, (wired.step.2.loadSlot slot).1.toNat.testBit place =
        if index.val = place then on else (wired.loadSlot slot).1.toNat.testBit place
  tested : ∀ index, modification = .testBit index →
    (wired.step.2.registers.flags.zero = true ↔
      (wired.loadSlot slot).1.toNat.testBit index = false) ∧ wired.step.2.bus = wired.bus ∧
      ∀ name, wired.step.2.registers.get name = wired.registers.get name

theorem bus_effect_modification (wired : Wired Ram) (modification : Modification) (slot : Slot) :
    (wired.effect (modification.on slot).instruction).bus =
      if modification.stores then
        (wired.storeSlot slot (modification.apply (wired.content slot)).value).bus
      else wired.bus := by
  rw [effect_modification, expireDelay_eq, settle]
  cases modification.stores with
  | false => rfl
  | true => cases slot <;> rfl

theorem modified (begins : wired.Begins (modification.on slot))
    (undispatched : wired.step.2.cpu.phase ≠ .executing dispatchCycles .idle) :
    wired.Modified modification slot := by
  obtain ⟨passes, registers, bus⟩ :=
    step_undispatched begins.fetching begins.found undispatched
  have content := content_step begins undispatched
  rw [duration_modification] at passes
  constructor
  case passes => exact passes
  case content => exact content
  case register =>
    rintro name rfl
    rw [bus, bus_effect_modification]
    exact ite_self _
  case memory =>
    rintro rfl
    rw [bus, bus_effect_modification, registers, effect_modification, expireDelay_eq, settle]
    refine ⟨?_, rfl⟩
    cases modification.stores <;> rfl
  case accesses =>
    obtain ⟨told, phase, stepped, same⟩ := step_reading begins.fetching begins.found
    rw [duration_modification] at stepped
    refine ⟨told, stepped, ?_⟩
    rw [same, bus_ended, bus_effectWith_modification]
    exact ⟨bus.symm, rfl⟩
  case assigned =>
    rintro index on rfl
    have flags := congrArg AluResult.flags content
    refine ⟨flags.trans (Modification.flags_assign _ _ _), fun place => ?_⟩
    have value := congrArg (·.value.toNat.testBit place) content
    exact value.trans (Modification.testBit_assign _ _ _ _)
  case tested =>
    rintro index rfl
    have zero : wired.step.2.registers.flags.zero = _ := congrArg (·.flags.zero) content
    refine ⟨?_, ?_, fun name => ?_⟩
    · rw [zero]
      exact Modification.zero_testBit index _
    · rw [bus, bus_effect_modification]
      rfl
    · rw [registers, effect_modification, expireDelay_eq]
      cases name <;> rfl

/-- What modifications in a row leave in an operand and the flags is up to what was there.  It makes
no difference which operand it is, nor in which order different bits are set or cleared. -/
theorem operand_modified {start now : Wired Ram} {modifications : List Modification}
    (run : start.Modifies slot modifications now) :
    (∀ (other last : Wired Ram) place, other.Modifies place modifications last →
      other.content place = start.content slot → last.content place = now.content slot) ∧
    (∀ earlier later index number on off (other last : Wired Ram) place, index ≠ number →
      modifications = earlier ++ .assign index on :: .assign number off :: later →
      other.Modifies place (earlier ++ .assign number off :: .assign index on :: later) last →
      other.content place = start.content slot → last.content place = now.content slot) ∧
    (∀ earlier index on, modifications = earlier ++ [.assign index on, .testBit index] →
      now.registers.flags.zero = !on) ∧
    ∀ (wired : Wired Ram) modification slot, wired.Begins (modification.on slot) →
      wired.step.2.cpu.phase ≠ .executing dispatchCycles .idle →
      wired.Modified modification slot := by
  refine ⟨?_, ?_, ?_, fun wired modification slot => modified⟩
  · intro other last place again same
    rw [again.content, run.content, same]
  · intro earlier later index number on off other last place apart among again same
    rw [again.content, run.content, same, among]
    simp only [List.foldl_append, List.foldl_cons]
    rw [Modification.assign_comm apart]
  · intro earlier index on among
    have flags := congrArg (·.flags.zero) run.content
    rw [among, List.foldl_append] at flags
    exact flags.trans (Modification.zero_testBit_assign _ _ _)

/-- The opcode of an increment in memory is incremented by it. -/
theorem operand_modified_opcode :
    ∃ last : Wired Ram, (requested 0x34 0x00).Modifies .atHl [.increment] last ∧
      last.bus.get 0 = 0x35 := by
  have opcode : (requested 0x34 0x00).bus.get 0 = 0x34 := (requested_get 0x34 0x00).1
  have begins : (requested 0x34 0x00).Begins (Modification.increment.on .atHl) :=
    ⟨rfl, nofun, opcode, nofun⟩
  have undispatched := undispatched_disabled begins.fetching begins.found (by rfl)
  have run : (requested 0x34 0x00).Modifies .atHl [.increment] _ :=
    .step .start begins undispatched
  obtain ⟨_, _, _, each⟩ := operand_modified run
  obtain ⟨_, written⟩ := (each _ _ _ begins undispatched).memory rfl
  have result : (Alu.increment ((requested 0x34 0x00).bus.get 0)).value = 0x35 := by
    rw [opcode]
    rfl
  refine ⟨_, run, ?_⟩
  rw [written, ← result]
  exact Ram.get_set_self _ _ _

end Memory

end Wired

end Dmg
