import Dmg.Proofs.Turn

/-!
Encoding, the way back from operations to bytes.  Every operation has an opcode of its own, except
for the load from memory to memory, which has the halt in its place.
-/

namespace Dmg

def Slot.index : Slot → Nat
  | register .b => 0 | register .c => 1 | register .d => 2 | register .e => 3
  | register .h => 4 | register .l => 5 | atHl => 6 | register .a => 7

def Pair.index : Pair → Nat
  | bc => 0 | de => 1 | hl => 2 | sp => 3

def StackPair.index : StackPair → Nat
  | bc => 0 | de => 1 | hl => 2 | af => 3

def Condition.index : Condition → Nat
  | notZero => 0 | zero => 1 | notCarry => 2 | carry => 3

def Arithmetic.index : Arithmetic → Nat
  | add => 0 | addCarry => 1 | subtract => 2 | subtractCarry => 3
  | and => 4 | xor => 5 | or => 6 | compare => 7

def Rotation.index : Rotation → Nat
  | leftCircular => 0 | rightCircular => 1 | left => 2 | right => 3

def Shift.index : Shift → Nat
  | rotate rotation => rotation.index
  | leftArithmetic => 4 | rightArithmetic => 5 | swap => 6 | rightLogical => 7

def octal (quadrant middle low : Nat) : UInt8 :=
  UInt8.ofNat (64 * quadrant + 8 * middle + low)

def paired (pair : Nat) (upper : Bool) : Nat := 2 * pair + upper.toNat

def conditioned (condition : Condition) (upper : Bool) : Nat :=
  4 * upper.toNat + condition.index

def Indirect.opcode (indirect : Indirect) (upper : Bool) : UInt8 :=
  match indirect with
  | bc => octal 0 (paired 0 upper) 2
  | de => octal 0 (paired 1 upper) 2
  | hlIncrement => octal 0 (paired 2 upper) 2
  | hlDecrement => octal 0 (paired 3 upper) 2
  | highByte => octal 3 (4 + 2 * upper.toNat) 0
  | highC => octal 3 (4 + 2 * upper.toNat) 2
  | word => octal 3 (5 + 2 * upper.toNat) 2

namespace Operation

def extended : Operation → Bool
  | shift _ _ | testBit _ _ | resetBit _ _ | setBit _ _ => true
  | _ => false

def opcode : Operation → UInt8
  | nop => octal 0 0 0
  | storeSp => octal 0 1 0
  | stop => octal 0 2 0
  | jumpRelative none => octal 0 3 0
  | jumpRelative (some condition) => octal 0 (conditioned condition true) 0
  | loadPair target => octal 0 (paired target.index false) 1
  | addHl source => octal 0 (paired source.index true) 1
  | storeA target => target.opcode false
  | loadA source => source.opcode true
  | incrementPair target => octal 0 (paired target.index false) 3
  | decrementPair target => octal 0 (paired target.index true) 3
  | increment target => octal 0 target.index 4
  | decrement target => octal 0 target.index 5
  | loadByte target => octal 0 target.index 6
  | rotateA rotation => octal 0 rotation.index 7
  | decimalAdjust => octal 0 4 7
  | complement => octal 0 5 7
  | setCarry => octal 0 6 7
  | complementCarry => octal 0 7 7
  | load target source => octal 1 target.index source.index
  | halt => octal 1 6 6
  | arithmetic operation source => octal 2 operation.index source.index
  | ret (some condition) => octal 3 (conditioned condition false) 0
  | addSp => octal 3 5 0
  | loadHlSp => octal 3 7 0
  | pop target => octal 3 (paired target.index false) 1
  | ret none => octal 3 1 1
  | retEnable => octal 3 3 1
  | jumpHl => octal 3 5 1
  | loadSpHl => octal 3 7 1
  | jump (some condition) => octal 3 (conditioned condition false) 2
  | jump none => octal 3 0 3
  | disableInterrupts => octal 3 6 3
  | enableInterrupts => octal 3 7 3
  | call (some condition) => octal 3 (conditioned condition false) 4
  | push source => octal 3 (paired source.index false) 5
  | call none => octal 3 1 5
  | arithmeticByte operation => octal 3 operation.index 6
  | restart index => octal 3 index.val 7
  | shift kind target => octal 0 kind.index target.index
  | testBit index source => octal 1 index.val source.index
  | resetBit index target => octal 2 index.val target.index
  | setBit index target => octal 3 index.val target.index

def instruction (operation : Operation) : Instruction :=
  { opcode := operation.opcode, extended := operation.extended, operation }

theorem decode?_opcode {operation : Operation} (base : operation.extended = false)
    (encoded : operation ≠ .load .atHl .atHl) : decode? operation.opcode = some operation := by
  cases operation with
  | shift _ _ | testBit _ _ | resetBit _ _ | setBit _ _ => cases base
  | increment slot | decrement slot | loadByte slot => rcases slot with ⟨_ | _⟩ | _ <;> rfl
  | loadPair pair | addHl pair | incrementPair pair | decrementPair pair => cases pair <;> rfl
  | load target source =>
      rcases target with ⟨_ | _⟩ | _ <;> rcases source with ⟨_ | _⟩ | _ <;>
        first | rfl | exact (encoded rfl).elim
  | arithmetic operation source =>
      cases operation <;> rcases source with ⟨_ | _⟩ | _ <;> rfl
  | arithmeticByte operation => cases operation <;> rfl
  | restart index =>
      revert index
      decide
  | storeA indirect | loadA indirect => cases indirect <;> rfl
  | push pair | pop pair => cases pair <;> rfl
  | rotateA rotation => cases rotation <;> rfl
  | jump condition | jumpRelative condition | call condition | ret condition =>
      rcases condition with _ | _ | _ <;> rfl
  | _ => rfl

theorem decodeExtended_opcode {operation : Operation} (extended : operation.extended = true) :
    decodeExtended operation.opcode = operation := by
  cases operation with
  | shift kind target =>
      rcases kind with ⟨_ | _⟩ | _ <;> rcases target with ⟨_ | _⟩ | _ <;> rfl
  | testBit index operand | resetBit index operand | setBit index operand =>
      rcases operand with ⟨_ | _⟩ | _ <;> revert index <;> decide
  | _ => cases extended

theorem of_decode? {byte : UInt8} {operation : Operation}
    (decoded : decode? byte = some operation) :
    operation.opcode = byte ∧ operation.extended = false ∧ operation ≠ .load .atHl .atHl := by
  have everyByte : ∀ bits : BitVec 8, ∀ operation ∈ decode? ⟨bits⟩,
      operation.opcode = ⟨bits⟩ ∧ operation.extended = false ∧
        operation ≠ .load .atHl .atHl := by
    decide +kernel
  exact everyByte byte.toBitVec operation decoded

theorem of_decodeExtended (byte : UInt8) :
    (decodeExtended byte).opcode = byte ∧ (decodeExtended byte).extended = true := by
  have everyByte : ∀ bits : BitVec 8, (decodeExtended ⟨bits⟩).opcode = ⟨bits⟩ ∧
      (decodeExtended ⟨bits⟩).extended = true := by
    decide +kernel
  exact everyByte byte.toBitVec

end Operation

namespace Wired

variable {β : Type} [Bus β] [Bus.Still β]

structure Begins (wired : Wired β) (operation : Operation) : Prop where
  fetching : wired.cpu.phase = .fetching
  encoded : operation ≠ .load .atHl .atHl
  first : (Bus.read wired.bus wired.registers.pc).1 =
    if operation.extended then extendedOpcode else operation.opcode
  second : operation.extended = true →
    (Bus.read wired.bus wired.behindOpcode).1 = operation.opcode

theorem Begins.found {wired : Wired β} {operation : Operation} (begins : wired.Begins operation) :
    wired.instruction? = some operation.instruction := by
  have first := begins.first
  cases extended : operation.extended with
  | false =>
      rw [extended, if_neg Bool.false_ne_true] at first
      have found := instruction?_of_decode first (Operation.decode?_opcode extended begins.encoded)
      rw [found, Operation.instruction, extended]
  | true =>
      rw [extended, if_pos rfl] at first
      simp only [instruction?, Bus.Still.read_bus, first, if_true, begins.second extended]
      rw [Instruction.ofExtended, Operation.decodeExtended_opcode extended, Operation.instruction,
        extended]

/-- An instruction is found where the bytes encode its operation. -/
theorem begins_iff {wired : Wired β} {instruction : Instruction} :
    wired.Begins instruction.operation ∧ instruction = instruction.operation.instruction ↔
      wired.cpu.phase = .fetching ∧ wired.instruction? = some instruction := by
  constructor
  · rintro ⟨begins, same⟩
    refine ⟨begins.fetching, ?_⟩
    rw [same]
    exact begins.found
  · rintro ⟨fetching, found⟩
    simp only [instruction?, Bus.Still.read_bus] at found
    by_cases announced : (Bus.read wired.bus wired.registers.pc).1 = extendedOpcode
    · rw [if_pos announced] at found
      obtain ⟨opcode, extended⟩ :=
        Operation.of_decodeExtended (Bus.read wired.bus wired.behindOpcode).1
      cases found
      refine ⟨⟨fetching, ?_, ?_, fun _ => opcode.symm⟩, ?_⟩
      · intro same
        change decodeExtended _ = _ at same
        rw [same] at extended
        cases extended
      · change _ = if (decodeExtended _).extended then _ else _
        rw [extended]
        exact announced
      · change _ = Operation.instruction (decodeExtended _)
        rw [Operation.instruction, opcode, extended]
        rfl
    · rw [if_neg announced, Instruction.base?, Option.map_eq_some_iff] at found
      obtain ⟨operation, decoded, rfl⟩ := found
      obtain ⟨opcode, base, encoded⟩ := Operation.of_decode? decoded
      refine ⟨⟨fetching, encoded, ?_, ?_⟩, ?_⟩
      · change _ = if operation.extended then _ else _
        rw [base]
        exact opcode.symm
      · intro extended
        cases base.symm.trans extended
      · change _ = operation.instruction
        rw [Operation.instruction, opcode, base]

end Wired

end Dmg
