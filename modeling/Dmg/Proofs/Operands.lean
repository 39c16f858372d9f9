import Dmg.Proofs.ReturnAddress
import Dmg.Proofs.Turn

/-!
Instructions with their operand bytes given.  An instruction is its effect on a processor that has
passed the operand, and where the operand lies matters to nothing else.
-/

namespace Dmg

/-- The operand bytes that are read.  The one of a stop is only passed. -/
def Operation.operandReads : Operation → Nat
  | stop => 0
  | operation => operation.operandLength

def Operation.reads : Operation → Nat
  | stop => 1
  | operation => operation.length

theorem Operation.reads_pos (operation : Operation) : 0 < operation.reads := by
  cases operation with
  | loadA _ | storeA _ => exact Nat.lt_add_right _ Nat.zero_lt_one
  | _ => exact Nat.succ_pos _

theorem Operation.reads_add_operandLength (operation : Operation) :
    operation.reads + operation.operandLength = operation.length + operation.operandReads := by
  cases operation <;> rfl

theorem Operation.operandReads_of_none {operation : Operation}
    (none : operation.operandLength = 0) : operation.operandReads = 0 := by
  cases operation with
  | stop => rfl
  | _ => exact none

theorem operandLength_decodeExtended (opcode : UInt8) :
    (decodeExtended opcode).operandLength = 0 := by
  simp only [decodeExtended]
  split
  · rfl
  · split
    · rfl
    · split <;> rfl

namespace Wired

variable {β : Type}

def goTo (wired : Wired β) (address : UInt16) : Wired β :=
  { wired with cpu.registers.pc := address }

def onBus (wired : Wired β) (bus : β) : Wired β := { wired with bus }

theorem holds_goTo (wired : Wired β) (address : UInt16) (condition : Option Condition) :
    (wired.goTo address).registers.holds condition = wired.registers.holds condition :=
  Registers.holds_congr rfl condition

variable [Bus β]

/-- The effect of an operation whose operand is given, its first byte low, on a processor that has
passed the operand bytes. -/
def executeWith (wired : Wired β) (operand : UInt16) : Operation → Option Jump × Wired β
  | .stop => (none, wired.halt)
  | .loadByte target => (none, wired.storeSlot target (lowByte operand))
  | .loadA .word =>
      let (value, wired) := wired.read operand
      (none, wired.mapRegisters (·.set .a value))
  | .loadA .highByte =>
      let (value, wired) := wired.read (join 0xFF (lowByte operand))
      (none, wired.mapRegisters (·.set .a value))
  | .storeA .word => (none, wired.write operand wired.registers.a)
  | .storeA .highByte =>
      (none, wired.write (join 0xFF (lowByte operand)) wired.registers.a)
  | .loadPair target => (none, wired.mapRegisters (·.setPair target operand))
  | .storeSp =>
      let sp := wired.registers.sp
      (none, (wired.write operand (lowByte sp)).write (operand + 1) (highByte sp))
  | .loadHlSp =>
      let result := Alu.addOffset wired.registers.sp (lowByte operand)
      (none, (wired.mapRegisters (·.setPair .hl result.value)).setFlags result.flags)
  | .arithmeticByte operation => (none, wired.applyArithmetic operation (lowByte operand))
  | .addSp =>
      let result := Alu.addOffset wired.registers.sp (lowByte operand)
      (none, (wired.mapRegisters (·.setPair .sp result.value)).setFlags result.flags)
  | .jump condition => wired.branch condition (.goTo operand)
  | .jumpRelative condition =>
      wired.branch condition (.goTo (displace wired.registers.pc (lowByte operand)))
  | .call condition => wired.branch condition (.call operand)
  | operation => wired.execute operation

/-- The whole effect of an operation whose operand bytes begin at `operand` and behind which the
program goes on at `behind`. -/
def effectAt (wired : Wired β) (operation : Operation) (operand behind : UInt16) : Wired β :=
  match (wired.goTo behind).executeWith (wordAt wired.bus operand) operation with
  | (some jump, wired) => wired.land jump
  | (none, wired) => wired

theorem executeWith_of_none (wired : Wired β) (operand : UInt16) {operation : Operation}
    (none : operation.operandLength = 0) :
    wired.executeWith operand operation = wired.execute operation := by
  cases operation with
  | loadA source | storeA source => cases source <;> first | rfl | cases none
  | stop | loadByte _ | loadHlSp | arithmeticByte _ | addSp | jumpRelative _ | loadPair _ | storeSp
  | jump _ | call _ => cases none
  | _ => rfl

theorem perform_retime (wired : Wired β) (operation : Operation) (phase : Phase) (clock : Clock) :
    (wired.retime phase clock).perform operation =
      (wired.perform operation).retime phase clock := by
  rw [perform, perform, execute_retime]
  rcases wired.execute operation with ⟨_ | jump, after⟩
  · rfl
  · exact land_retime after jump phase clock

def effectWith (wired : Wired β) (operation : Operation) (operand behind : UInt16) : Wired β :=
  match (wired.goTo behind).executeWith operand operation with
  | (some jump, wired) => wired.land jump
  | (none, wired) => wired

theorem effectAt_eq_effectWith (wired : Wired β) (operation : Operation) (operand behind : UInt16) :
    wired.effectAt operation operand behind =
      wired.effectWith operation (wordAt wired.bus operand) behind := rfl

theorem effectWith_of_none (wired : Wired β) (left right behind : UInt16) {operation : Operation}
    (none : operation.operandLength = 0) :
    wired.effectWith operation left behind = wired.effectWith operation right behind := by
  rw [effectWith, effectWith, executeWith_of_none _ _ none, executeWith_of_none _ _ none]

theorem operandLength_of_extended {wired : Wired β} {instruction : Instruction}
    (found : wired.instruction? = some instruction) (extended : instruction.extended = true) :
    instruction.operation.operandLength = 0 := by
  simp only [instruction?] at found
  split at found
  · cases found
    exact operandLength_decodeExtended _
  · simp only [Instruction.base?, Option.map_eq_some_iff] at found
    obtain ⟨_, _, rfl⟩ := found
    cases extended

theorem pc_perform_straight (wired : Wired β) {operation : Operation}
    (straight : operation.penalty wired.registers = 0) (plain : operation ≠ .jumpHl) :
    (wired.perform operation).registers.pc =
      wired.registers.pc + UInt16.ofNat operation.operandLength := by
  cases executed : (wired.execute operation).1 with
  | none => rw [perform_of_straight executed, pc_execute wired plain]
  | some jump =>
      have late := penalty_of_branch executed
      rw [straight] at late
      cases jump <;> cases late

/-! The branches that read or push an address. -/

theorem effectAt_branch {wired : Wired β} {operation : Operation} {operand behind : UInt16}
    {condition : Option Condition} {jump : Jump}
    (branches : (wired.goTo behind).executeWith (wordAt wired.bus operand) operation =
      (wired.goTo behind).branch condition jump) :
    wired.effectAt operation operand behind =
      if wired.registers.holds condition then (wired.goTo behind).land jump
      else wired.goTo behind := by
  rw [effectAt, branches, branch, holds_goTo]
  cases wired.registers.holds condition <;> rfl

theorem bus_land_call (wired : Wired β) (target : UInt16) :
    (wired.land (.call target)).bus = pushWord wired.bus wired.registers.sp wired.registers.pc := by
  have twice : wired.registers.sp - 1 - 1 = wired.registers.sp - 2 := by grind
  simp only [pushWord, ← twice]
  rfl

theorem bus_effectAt_call {wired : Wired β} {condition : Option Condition} (operand behind : UInt16)
    (holds : wired.registers.holds condition = true) :
    (wired.effectAt (.call condition) operand behind).bus =
      pushWord wired.bus wired.registers.sp behind := by
  rw [effectAt_branch rfl, if_pos holds, bus_land_call]
  rfl

theorem bus_effectAt_restart (wired : Wired β) (index : Fin 8) (operand behind : UInt16) :
    (wired.effectAt (.restart index) operand behind).bus =
      pushWord wired.bus wired.registers.sp behind := by
  simp only [effectAt, executeWith, execute, bus_land_call]
  rfl

theorem pc_effectAt_jumpRelative {wired : Wired β} {condition : Option Condition}
    (operand behind : UInt16) (holds : wired.registers.holds condition = true) :
    (wired.effectAt (.jumpRelative condition) operand behind).registers.pc =
      displace behind (lowByte (wordAt wired.bus operand)) := by
  rw [effectAt_branch rfl, if_pos holds]
  rfl

/-! Where the operand bytes come from. -/

def readOn (bus : β) (address : UInt16) : Nat → β
  | 0 => bus
  | count + 1 => readOn (Bus.read bus address).2 (address + 1) count

theorem readOn_add (bus : β) (address : UInt16) (first second : Nat) :
    readOn bus address (first + second) =
      readOn (readOn bus address first) (address + UInt16.ofNat first) second := by
  induction first generalizing bus address with
  | zero => simp [readOn]
  | succ first ih =>
      have place : address + 1 + UInt16.ofNat first = address + UInt16.ofNat (first + 1) := by
        rw [UInt16.ofNat_add]
        grind
      rw [Nat.add_right_comm, readOn, readOn, ih, place]

theorem execute_eq_executeWith (wired : Wired β) (operation : Operation) :
    wired.execute operation =
      ((wired.onBus (readOn wired.bus wired.registers.pc operation.operandReads)).goTo
        (wired.registers.pc + UInt16.ofNat operation.operandLength)).executeWith
        (wordAt wired.bus wired.registers.pc) operation := by
  have twice : wired.registers.pc + 1 + 1 = wired.registers.pc + UInt16.ofNat 2 :=
    UInt16.add_assoc _ _ _
  by_cases none : operation.operandLength = 0
  · have passed : (wired.onBus wired.bus).goTo (wired.registers.pc + UInt16.ofNat 0) = wired :=
      congrArg wired.goTo (UInt16.add_zero _)
    rw [executeWith_of_none _ _ none, none, Operation.operandReads_of_none none, readOn, passed]
  cases operation with
  | stop => rfl
  | loadByte _ | loadHlSp | arithmeticByte _ | addSp | jumpRelative _ =>
      simp only [executeWith, wordAt, lowByte_join]
      rfl
  | loadPair _ | storeSp | jump _ | call _ =>
      simp only [Operation.operandLength, ← twice]
      rfl
  | loadA indirect | storeA indirect =>
      cases indirect with
      | word =>
          simp only [Operation.operandLength, Indirect.length, ← twice]
          rfl
      | highByte =>
          simp only [executeWith, wordAt, lowByte_join]
          rfl
      | _ => exact (none rfl).elim
  | _ => exact (none rfl).elim

theorem perform_eq_effectWith (wired : Wired β) (operation : Operation) :
    wired.perform operation =
      (wired.onBus (readOn wired.bus wired.registers.pc operation.operandReads)).effectWith
        operation (wordAt wired.bus wired.registers.pc)
        (wired.registers.pc + UInt16.ofNat operation.operandLength) := by
  rw [perform, execute_eq_executeWith]
  rfl

section Still

variable [Bus.Still β]

theorem wordAt_still (bus : β) (address : UInt16) :
    wordAt bus address = join (Bus.read bus (address + 1)).1 (Bus.read bus address).1 := by
  simp only [wordAt, Bus.Still.read_bus]

theorem readOn_still (bus : β) (address : UInt16) (count : Nat) :
    readOn bus address count = bus := by
  induction count generalizing address with
  | zero => rfl
  | succ count ih => rw [readOn, Bus.Still.read_bus, ih]

theorem perform_eq_effectAt (wired : Wired β) (operation : Operation) :
    wired.perform operation = wired.effectAt operation wired.registers.pc
      (wired.registers.pc + UInt16.ofNat operation.operandLength) := by
  rw [perform_eq_effectWith, readOn_still]
  rfl

end Still

end Wired

end Dmg
