import Dmg.Cpu.Tick

/-!
What an operation does to the processor as a whole: which parts it leaves alone, where it leaves the
program counter, and that it takes no notice of the engine's phase and clock.
-/

namespace Dmg

namespace Operation

def steers : Operation → Bool
  | halt | stop | disableInterrupts | enableInterrupts => true
  | _ => false

def operandLength : Operation → Nat
  | stop | loadByte _ | loadHlSp | arithmeticByte _ | addSp | jumpRelative _ => 1
  | loadA source => source.length
  | storeA target => target.length
  | loadPair _ | storeSp | jump _ | call _ => 2
  | _ => 0

def penalty (operation : Operation) (registers : Registers) : Nat :=
  match operation with
  | jump condition | jumpRelative condition => if registers.holds condition then 4 else 0
  | call condition | ret condition => if registers.holds condition then 12 else 0
  | retEnable | restart _ => 12
  | _ => 0

theorem cycles_add_penalty_le (operation : Operation) (registers : Registers) :
    operation.cycles + operation.penalty registers ≤ 24 := by
  have cost := operation.cycles_le_twenty
  cases operation with
  | jump condition | jumpRelative condition | call condition =>
      simp only [cycles, penalty]
      split <;> omega
  | ret condition =>
      cases condition with
      | none =>
          simp only [cycles, penalty]
          split <;> omega
      | some condition =>
          simp only [cycles, penalty]
          split <;> omega
  | _ =>
      simp only [cycles, penalty] at *
      omega

end Operation

theorem Registers.holds_congr {left right : Registers} (same : left.flags = right.flags)
    (condition : Option Condition) : left.holds condition = right.holds condition := by
  cases condition with
  | none => rfl
  | some condition => cases condition <;> simp only [holds, same]

theorem Operation.penalty_congr (operation : Operation) {left right : Registers}
    (same : left.flags = right.flags) : operation.penalty left = operation.penalty right := by
  cases operation <;> simp only [penalty, Registers.holds_congr same]

namespace Wired

variable {β : Type}

def retime (wired : Wired β) (phase : Phase) (clock : Clock) : Wired β :=
  { wired with cpu.phase := phase, cpu.clock := clock }

variable [Bus β]

/-- The whole effect of an operation: what it does itself and, if it branches, the late half. -/
def perform (wired : Wired β) (operation : Operation) : Wired β :=
  match wired.execute operation with
  | (some jump, wired) => wired.land jump
  | (none, wired) => wired

theorem perform_of_straight {wired : Wired β} {operation : Operation}
    (straight : (wired.execute operation).1 = none) :
    wired.perform operation = (wired.execute operation).2 := by
  unfold perform
  split
  · rename_i executed
    simp [executed] at straight
  · rename_i executed
    rw [executed]

theorem perform_of_branch {wired : Wired β} {operation : Operation} {jump : Jump}
    (taken : (wired.execute operation).1 = some jump) :
    wired.perform operation = (wired.execute operation).2.land jump := by
  unfold perform
  split
  · rename_i executed
    simp only [executed, Option.some.injEq] at taken
    rw [executed, taken]
  · rename_i executed
    simp [executed] at taken

/-! The engine's phase and clock, and what has been traced, are none of an operation's business. -/

def beside (wired : Wired β) (phase : Phase) (clock : Clock) (fetches : Option (Array Fetch)) :
    Wired β :=
  { wired with cpu.phase := phase, cpu.clock := clock, cpu.fetches := fetches }

section Beside

variable (wired : Wired β) (phase : Phase) (clock : Clock) (fetches : Option (Array Fetch))

theorem halt_beside :
    (wired.beside phase clock fetches).halt = wired.halt.beside phase clock fetches := by
  simp only [halt]
  change (if wired.registers.ime then _ else if wired.pending.1 = 0 then _ else _) = _
  split
  · rfl
  · split <;> rfl

theorem execute_beside (operation : Operation) :
    (wired.beside phase clock fetches).execute operation =
      ((wired.execute operation).1, (wired.execute operation).2.beside phase clock fetches) := by
  cases operation with
  | halt => simp only [execute, halt_beside]
  | stop =>
      simp only [execute]
      rw [← halt_beside]
      rfl
  | enableInterrupts =>
      simp only [execute]
      change (none, if wired.registers.ime then _ else _) = _
      split <;> rfl
  | load target source => cases target <;> cases source <;> rfl
  | loadByte operand | arithmetic _ operand | increment operand | decrement operand
  | shift _ operand | testBit _ operand | resetBit _ operand | setBit _ operand =>
      cases operand <;> rfl
  | loadA operand | storeA operand => cases operand <;> rfl
  | _ => rfl

theorem execute_aside (operation : Operation) :
    (wired.execute operation).2.beside wired.cpu.phase wired.cpu.clock wired.cpu.fetches =
      (wired.execute operation).2 :=
  (congrArg Prod.snd (execute_beside wired _ _ _ operation)).symm

end Beside

theorem execute_retime (wired : Wired β) (operation : Operation) (phase : Phase) (clock : Clock) :
    (wired.retime phase clock).execute operation =
      ((wired.execute operation).1, (wired.execute operation).2.retime phase clock) := by
  have kept := congrArg (·.retime phase clock) (execute_aside wired operation)
  exact (execute_beside wired phase clock wired.cpu.fetches operation).trans
    (congrArg (Prod.mk _) kept)

theorem land_retime (wired : Wired β) (jump : Jump) (phase : Phase) (clock : Clock) :
    (wired.retime phase clock).land jump = (wired.land jump).retime phase clock := by
  cases jump <;> rfl

omit [Bus β] in
theorem expireDelay_eq (wired : Wired β) :
    wired.expireDelay = { wired with
      cpu.enableDelay := wired.cpu.enableDelay - 1
      cpu.registers.ime := wired.cpu.enableDelay == 1 || wired.registers.ime } := by
  obtain ⟨⟨registers, phase, halted, haltBug, enableDelay, clock, fetches⟩, bus⟩ := wired
  match enableDelay with
  | 0 => rfl
  | 1 => rfl
  | _ + 2 => rfl

omit [Bus β] in
theorem expireDelay_retime (wired : Wired β) (phase : Phase) (clock : Clock) :
    (wired.retime phase clock).expireDelay = wired.expireDelay.retime phase clock := by
  rw [expireDelay_eq, expireDelay_eq]
  rfl

/-! What an operation leaves alone. -/

theorem execute_cpu (wired : Wired β) {operation : Operation} (plain : operation.steers = false) :
    (wired.execute operation).2.cpu =
      { wired.cpu with registers := (wired.execute operation).2.registers } := by
  cases operation with
  | halt | stop | disableInterrupts | enableInterrupts => cases plain
  | load target source => cases target <;> cases source <;> rfl
  | loadByte operand | arithmetic _ operand | increment operand | decrement operand
  | shift _ operand | testBit _ operand | resetBit _ operand | setBit _ operand =>
      cases operand <;> rfl
  | loadA operand | storeA operand => cases operand <;> rfl
  | _ => rfl

theorem execute_running (wired : Wired β) {operation : Operation}
    (running : ¬(operation = .halt ∨ operation = .stop)) :
    (wired.execute operation).2.cpu.halted = wired.cpu.halted ∧
      (wired.execute operation).2.cpu.haltBug = wired.cpu.haltBug := by
  cases plain : operation.steers with
  | false =>
      rw [execute_cpu wired plain]
      exact ⟨rfl, rfl⟩
  | true =>
      cases operation with
      | halt => exact (running (Or.inl rfl)).elim
      | stop => exact (running (Or.inr rfl)).elim
      | disableInterrupts => exact ⟨rfl, rfl⟩
      | enableInterrupts =>
          simp only [execute]
          split <;> exact ⟨rfl, rfl⟩
      | _ => cases plain

theorem land_cpu (wired : Wired β) (jump : Jump) :
    (wired.land jump).cpu = { wired.cpu with registers := (wired.land jump).registers } := by
  cases jump <;> rfl

theorem plain_of_branch {wired : Wired β} {operation : Operation} {jump : Jump}
    (taken : (wired.execute operation).1 = some jump) : operation.steers = false := by
  cases operation <;> first | rfl | cases taken

/-- The late half of a branch changes nothing of the processor but its registers. -/
theorem part_perform {α : Type} {part : Cpu → α}
    (apart : ∀ cpu registers, part { cpu with registers } = part cpu) (wired : Wired β)
    (operation : Operation) :
    part (wired.perform operation).cpu = part (wired.execute operation).2.cpu := by
  cases taken : (wired.execute operation).1 with
  | none => rw [perform_of_straight taken]
  | some jump => rw [perform_of_branch taken, land_cpu, apart]

theorem halt_cpu (wired : Wired β) :
    wired.halt.cpu =
      if wired.registers.ime = false ∧ wired.pending.1 ≠ 0 then
        { wired.cpu with haltBug := true }
      else { wired.cpu with halted := true } := by
  simp only [halt]
  cases enabled : wired.registers.ime with
  | true =>
      simp only [if_true, reduceCtorEq, false_and, if_false]
      rfl
  | false =>
      by_cases quiet : wired.pending.1 = 0
      · simp only [quiet, ne_eq, not_true_eq_false, and_false, if_false, Bool.false_eq_true,
          if_true]
        rfl
      · simp only [quiet, ne_eq, not_false_eq_true, and_self, if_true, Bool.false_eq_true, if_false]
        rfl

theorem halt_registers (wired : Wired β) : wired.halt.registers = wired.registers := by
  change wired.halt.cpu.registers = _
  rw [halt_cpu]
  split <;> rfl

theorem execute_halt_cpu (wired : Wired β) :
    (wired.execute .halt).2.cpu = wired.halt.cpu := rfl

theorem execute_stop_cpu (wired : Wired β) :
    (wired.execute .stop).2.cpu =
      { wired.halt.cpu with
        registers := { wired.registers with pc := wired.registers.pc + 1 } } := by
  change (Wired.halt _).cpu = _
  rw [halt_cpu, halt_cpu]
  change (if wired.registers.ime = false ∧ wired.pending.1 ≠ 0 then _ else _) = _
  split <;> rfl

theorem ime_execute (wired : Wired β) {operation : Operation}
    (kept : operation ≠ .disableInterrupts) :
    (wired.execute operation).2.registers.ime = wired.registers.ime := by
  cases operation with
  | disableInterrupts => exact (kept rfl).elim
  | halt =>
      change wired.halt.registers.ime = _
      rw [halt_registers]
  | stop =>
      change (Wired.halt _).registers.ime = _
      rw [halt_registers]
      rfl
  | enableInterrupts =>
      simp only [execute]
      split <;> rfl
  | load target source =>
      cases source <;> rcases target with ⟨_ | _⟩ | _ <;> rfl
  | loadByte operand => rcases operand with ⟨_ | _⟩ | _ <;> rfl
  | loadPair pair | incrementPair pair | decrementPair pair => cases pair <;> rfl
  | pop pair => cases pair <;> rfl
  | arithmetic _ operand => cases operand <;> rfl
  | testBit _ operand => cases operand <;> rfl
  | increment operand | decrement operand | shift _ operand | resetBit _ operand
  | setBit _ operand => rcases operand with ⟨_ | _⟩ | _ <;> rfl
  | loadA operand | storeA operand => cases operand <;> rfl
  | _ => rfl

theorem pc_execute (wired : Wired β) {operation : Operation} (straight : operation ≠ .jumpHl) :
    (wired.execute operation).2.registers.pc =
      wired.registers.pc + UInt16.ofNat operation.operandLength := by
  have kept : wired.registers.pc = wired.registers.pc + UInt16.ofNat 0 := (UInt16.add_zero _).symm
  have twice : wired.registers.pc + 1 + 1 = wired.registers.pc + UInt16.ofNat 2 :=
    UInt16.add_assoc _ _ _
  cases operation with
  | jumpHl => exact (straight rfl).elim
  | halt =>
      change wired.halt.registers.pc = _
      rw [halt_registers]
      exact kept
  | stop =>
      change (Wired.halt _).registers.pc = _
      rw [halt_registers]
      rfl
  | enableInterrupts =>
      simp only [execute]
      split <;> exact kept
  | load target source =>
      cases source <;> rcases target with ⟨_ | _⟩ | _ <;> exact kept
  | loadByte operand => rcases operand with ⟨_ | _⟩ | _ <;> rfl
  | loadPair pair => cases pair <;> exact twice
  | incrementPair pair | decrementPair pair => cases pair <;> exact kept
  | pop pair => cases pair <;> exact kept
  | arithmetic _ operand => cases operand <;> exact kept
  | testBit _ operand => cases operand <;> exact kept
  | increment operand | decrement operand | shift _ operand | resetBit _ operand
  | setBit _ operand => rcases operand with ⟨_ | _⟩ | _ <;> exact kept
  | loadA operand | storeA operand => cases operand <;> first | exact kept | exact twice | rfl
  | arithmeticByte _ | loadHlSp | addSp | jumpRelative _ => rfl
  | storeSp | jump _ | call _ => exact twice
  | _ => exact kept

/-! A branch is taken or not by the flags from before its operand bytes are read. -/

theorem holds_nextByte (wired : Wired β) (condition : Option Condition) :
    wired.nextByte.2.registers.holds condition = wired.registers.holds condition :=
  Registers.holds_congr rfl condition

theorem holds_nextWord (wired : Wired β) (condition : Option Condition) :
    wired.nextWord.2.registers.holds condition = wired.registers.holds condition :=
  Registers.holds_congr rfl condition

theorem penalty_of_straight {wired : Wired β} {operation : Operation}
    (straight : (wired.execute operation).1 = none) :
    operation.penalty wired.registers = 0 := by
  cases operation with
  | jump condition | jumpRelative condition | call condition | ret condition =>
      simp only [execute, branch, holds_nextByte, holds_nextWord, ite_eq_right_iff, reduceCtorEq,
        imp_false] at straight
      simp only [Operation.penalty, straight, Bool.false_eq_true, if_false]
  | retEnable | restart _ => cases straight
  | _ => rfl

theorem penalty_of_branch {wired : Wired β} {operation : Operation} {jump : Jump}
    (taken : (wired.execute operation).1 = some jump) :
    operation.penalty wired.registers = jump.delay := by
  cases operation with
  | jump condition | jumpRelative condition | call condition | ret condition =>
      simp only [execute, branch, holds_nextByte, holds_nextWord, Option.ite_none_right_eq_some,
        Option.some.injEq] at taken
      obtain ⟨holds, rfl⟩ := taken
      simp only [Operation.penalty, holds, if_true, Jump.delay]
  | retEnable | restart _ =>
      cases taken
      rfl
  | _ => cases taken

end Wired

end Dmg
