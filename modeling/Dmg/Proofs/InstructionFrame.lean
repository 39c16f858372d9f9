import Dmg.Proofs.EnableDelay
import Dmg.Proofs.FlagLaw
import Dmg.Proofs.HeldFetch

/-!
What an instruction may change, and that it changes nothing else: the registers that its opcode
names, the stack pointer, the places in memory that it stores to, and the control state.
-/

namespace Dmg

namespace Slot

def registers : Slot → List Register
  | .register name => [name]
  | .atHl => []

def places (slot : Slot) (registers : Registers) : List UInt16 :=
  match slot with
  | .register _ => []
  | .atHl => [registers.hl]

end Slot

def Pair.registers : Pair → List Register
  | bc => [.b, .c]
  | de => [.d, .e]
  | hl => [.h, .l]
  | sp => []

def StackPair.registers : StackPair → List Register
  | bc => [.b, .c]
  | de => [.d, .e]
  | hl => [.h, .l]
  | af => [.a]

def Arithmetic.registers : Arithmetic → List Register
  | compare => []
  | _ => [.a]

namespace Indirect

def drift : Indirect → UInt16
  | hlIncrement => 1
  | hlDecrement => -1
  | _ => 0

def registers : Indirect → List Register
  | hlIncrement | hlDecrement => [.h, .l]
  | _ => []

def place (indirect : Indirect) (registers : Registers) (operand : UInt16) : UInt16 :=
  match indirect with
  | bc => registers.bc
  | de => registers.de
  | hlIncrement | hlDecrement => registers.hl
  | word => operand
  | highByte => join 0xFF (lowByte operand)
  | highC => join 0xFF registers.c

end Indirect

namespace Operation

def writes : Operation → List Register
  | load target _ | loadByte target | increment target | decrement target | shift _ target
  | resetBit _ target | setBit _ target => target.registers
  | loadA source => .a :: source.registers
  | storeA target => target.registers
  | loadPair target | incrementPair target | decrementPair target => target.registers
  | pop target => target.registers
  | addHl _ | loadHlSp => [.h, .l]
  | arithmetic operation _ | arithmeticByte operation => operation.registers
  | rotateA _ | decimalAdjust | complement => [.a]
  | _ => []

def setsSp : Operation → Bool
  | loadSpHl | addSp | loadPair .sp | incrementPair .sp | decrementPair .sp => true
  | _ => false

/-- The word that an operation pushes if the program goes on at `behind`. -/
def pushed (operation : Operation) (registers : Registers) (behind : UInt16) : Option UInt16 :=
  match operation with
  | push source => some (registers.getStackPair source)
  | call condition => if registers.holds condition then some behind else none
  | restart _ => some behind
  | _ => none

def pops (operation : Operation) (registers : Registers) : Bool :=
  match operation with
  | pop _ | retEnable => true
  | ret condition => registers.holds condition
  | _ => false

def drift (operation : Operation) (registers : Registers) : UInt16 :=
  if (operation.pushed registers 0).isSome then -2 else if operation.pops registers then 2 else 0

def stores (operation : Operation) (registers : Registers) (operand : UInt16) : List UInt16 :=
  match operation with
  | load target _ | loadByte target | increment target | decrement target | shift _ target
  | resetBit _ target | setBit _ target => target.places registers
  | storeA target => [target.place registers operand]
  | storeSp => [operand, operand + 1]
  | operation =>
      if (operation.pushed registers 0).isSome then [registers.sp - 1, registers.sp - 2] else []

def enabling (operation : Operation) (ime : Bool) (delay : Nat) : Bool × Nat :=
  match operation with
  | disableInterrupts => (false, 0)
  | enableInterrupts => if ime then (true, delay - 1) else (false, 1)
  | retEnable => (true, delay - 1)
  | _ => (delay == 1 || ime, delay - 1)

end Operation

theorem Operation.enabling_plain {operation : Operation} {ime : Bool} {delay : Nat}
    (off : operation ≠ .disableInterrupts) (on : operation ≠ .enableInterrupts)
    (returning : operation ≠ .retEnable) :
    operation.enabling ime delay = (delay == 1 || ime, delay - 1) := by
  cases operation <;> first | rfl | contradiction

namespace Registers

variable {registers : Registers} {register : Register}

theorem get_setPair {pair : Pair} (value : UInt16) (apart : register ∉ pair.registers) :
    (registers.setPair pair value).get register = registers.get register := by
  cases pair <;> cases register <;> first | rfl | exact absurd (by decide) apart

theorem get_setStackPair {pair : StackPair} (value : UInt16) (apart : register ∉ pair.registers) :
    (registers.setStackPair pair value).get register = registers.get register := by
  cases pair <;> cases register <;> first | rfl | exact absurd (by decide) apart

theorem hl_congr {left right : Registers} (same : left.bytes = right.bytes) :
    left.hl = right.hl := by
  have high : left.h = right.h := get_congr same .h
  have low : left.l = right.l := get_congr same .l
  rw [hl, hl, high, low]

end Registers

namespace Wired

variable {β : Type}

section Execute

variable [Bus β] {wired : Wired β} {register : Register}

theorem get_storeSlot {slot : Slot} (value : UInt8) (apart : register ∉ slot.registers) :
    (wired.storeSlot slot value).registers.get register = wired.registers.get register := by
  cases slot with
  | register target =>
      refine Registers.get_set_of_ne _ _ ?_
      rintro rfl
      exact apart (List.mem_singleton_self target)
  | atHl => rfl

omit [Bus β] in
theorem get_setFlags (flags : Flags) :
    (wired.setFlags flags).registers.get register = wired.registers.get register := by
  cases register <;> rfl

theorem get_modifySlot {slot : Slot} (change : UInt8 → AluResult) (merge : Flags → Flags → Flags)
    (apart : register ∉ slot.registers) :
    (wired.modifySlot slot change merge).registers.get register =
      wired.registers.get register := by
  cases slot <;> exact (get_setFlags _).trans (get_storeSlot _ apart)

omit [Bus β] in
theorem get_setResult (result : AluResult) (apart : register ∉ [Register.a]) :
    (wired.setResult result).registers.get register = wired.registers.get register := by
  cases register <;> first | rfl | exact absurd (by decide) apart

theorem get_nextByte : wired.nextByte.2.registers.get register = wired.registers.get register :=
  Registers.get_congr (wired.registers.bytes_exchange _ _ _) register

theorem get_nextWord : wired.nextWord.2.registers.get register = wired.registers.get register :=
  get_nextByte.trans get_nextByte

theorem get_pop : wired.pop.2.registers.get register = wired.registers.get register :=
  Registers.get_congr (bytes_pop wired) register

theorem get_address {indirect : Indirect} (apart : register ∉ indirect.registers) :
    (wired.address indirect).2.registers.get register = wired.registers.get register := by
  cases indirect with
  | hlIncrement | hlDecrement => exact @Registers.get_setPair _ _ .hl _ apart
  | word => exact get_nextWord
  | highByte => exact get_nextByte
  | _ => rfl

omit [Bus β] in
theorem get_applyArithmetic {operation : Arithmetic} (value : UInt8)
    (apart : register ∉ operation.registers) :
    (wired.applyArithmetic operation value).registers.get register =
      wired.registers.get register := by
  cases operation with
  | compare => cases register <;> rfl
  | _ => exact get_setResult _ apart

theorem get_execute {operation : Operation} (apart : register ∉ operation.writes) :
    (wired.execute operation).2.registers.get register = wired.registers.get register := by
  cases operation with
  | load target source => cases source <;> exact get_storeSlot _ apart
  | loadByte target => exact (get_storeSlot _ apart).trans get_nextByte
  | increment target | decrement target | shift _ target => exact get_modifySlot _ _ apart
  | resetBit _ target | setBit _ target => cases target <;> exact get_storeSlot _ apart
  | loadA source =>
      have other : Register.a ≠ register := (List.ne_of_not_mem_cons apart).symm
      have still : register ∉ source.registers := List.not_mem_of_not_mem_cons apart
      exact (Registers.get_set_of_ne _ _ other).trans (get_address still)
  | storeA target => exact get_address apart
  | loadPair target => exact (Registers.get_setPair _ apart).trans get_nextWord
  | incrementPair target | decrementPair target => exact Registers.get_setPair _ apart
  | pop target => exact (Registers.get_setStackPair _ apart).trans get_pop
  | push _ => exact Registers.get_congr (bytes_push wired _) register
  | addHl _ => exact (get_setFlags _).trans (@Registers.get_setPair _ _ .hl _ apart)
  | loadHlSp =>
      exact (get_setFlags _).trans ((@Registers.get_setPair _ _ .hl _ apart).trans get_nextByte)
  | addSp =>
      exact (get_setFlags _).trans ((@Registers.get_setPair _ _ .sp _ nofun).trans get_nextByte)
  | loadSpHl => exact @Registers.get_setPair _ _ .sp _ nofun
  | arithmetic _ source => cases source <;> exact get_applyArithmetic _ apart
  | arithmeticByte operation => exact (get_applyArithmetic _ apart).trans get_nextByte
  | rotateA _ | decimalAdjust => exact get_setResult _ apart
  | complement => cases register <;> first | rfl | exact absurd (by decide) apart
  | setCarry | complementCarry => exact get_setFlags _
  | testBit _ source => cases source <;> exact get_setFlags _
  | jump _ | call _ | storeSp => exact get_nextWord
  | jumpRelative _ => exact get_nextByte
  | halt => exact congrArg (·.get register) (halt_registers wired)
  | stop =>
      change (wired.execute .stop).2.cpu.registers.get register = _
      rw [execute_stop_cpu]
      cases register <;> rfl
  | enableInterrupts =>
      simp only [execute]
      split <;> rfl
  | _ => cases register <;> rfl

theorem hl_execute {operation : Operation} {indirect : Indirect}
    (names : operation = .loadA indirect ∨ operation = .storeA indirect) :
    (wired.execute operation).2.registers.hl = wired.registers.hl + indirect.drift := by
  have moved : (wired.address indirect).2.registers.hl = wired.registers.hl + indirect.drift := by
    cases indirect with
    | hlIncrement => exact Registers.hl_setHl _ _
    | hlDecrement =>
        have down : wired.registers.hl - 1 = wired.registers.hl + -1 := UInt16.sub_eq_add_neg _ _
        exact (Registers.hl_setHl _ _).trans down
    | _ => exact (UInt16.add_zero _).symm
  rcases names with rfl | rfl <;> exact moved

/-! The effect with its operand given. -/

variable {operation : Operation} {operand behind : UInt16}

theorem bus_effectAt_pushed {value : UInt16}
    (pushes : operation.pushed wired.registers behind = some value) :
    (wired.effectAt operation operand behind).bus =
      pushWord wired.bus wired.registers.sp value := by
  cases operation with
  | push source =>
      have twice : wired.registers.sp - 1 - 1 = wired.registers.sp - 2 := by grind
      obtain rfl := Option.some.inj pushes
      simp only [pushWord, ← twice]
      cases source <;> rfl
  | call condition =>
      obtain ⟨holds, same⟩ := Option.ite_none_right_eq_some.mp pushes
      obtain rfl := Option.some.inj same
      exact bus_effectAt_call operand behind holds
  | restart index =>
      obtain rfl := Option.some.inj pushes
      exact bus_effectAt_restart wired index operand behind
  | _ => cases pushes

theorem sp_effectAt (other : operation.setsSp = false) :
    (wired.effectAt operation operand behind).registers.sp =
      wired.registers.sp + operation.drift wired.registers := by
  have kept : wired.registers.sp = wired.registers.sp + 0 := (UInt16.add_zero _).symm
  have below : wired.registers.sp - 1 - 1 = wired.registers.sp + -2 := by grind
  have above : wired.registers.sp + 1 + 1 = wired.registers.sp + 2 := UInt16.add_assoc _ _ _
  cases operation with
  | loadSpHl | addSp => cases other
  | loadPair pair | incrementPair pair | decrementPair pair =>
      cases pair <;> first | exact kept | cases other
  | push _ | restart _ => exact below
  | pop pair => cases pair <;> exact above
  | retEnable => exact above
  | call condition =>
      rw [effectAt_branch rfl, Operation.drift, Operation.pushed]
      cases wired.registers.holds condition with
      | false => exact kept
      | true => exact below
  | ret condition =>
      rw [effectAt_branch rfl, Operation.drift, Operation.pops]
      cases wired.registers.holds condition with
      | false => exact kept
      | true => exact above
  | jump condition | jumpRelative condition =>
      rw [effectAt_branch rfl]
      cases wired.registers.holds condition <;> exact kept
  | halt | stop =>
      change (Wired.halt _).registers.sp = _
      rw [halt_registers]
      exact kept
  | enableInterrupts =>
      simp only [effectAt, executeWith, execute]
      cases (wired.goTo behind).registers.ime <;> exact kept
  | load target source => cases source <;> rcases target with ⟨_ | _⟩ | _ <;> exact kept
  | loadByte operand | increment operand | decrement operand | shift _ operand
  | resetBit _ operand | setBit _ operand => rcases operand with ⟨_ | _⟩ | _ <;> exact kept
  | arithmetic _ operand | testBit _ operand => cases operand <;> exact kept
  | loadA operand | storeA operand => cases operand <;> exact kept
  | _ => exact kept

end Execute

/-! Memory. -/

section Memory

variable {wired : Wired Ram} {operation : Operation} {operand behind address : UInt16}

theorem ram_storeSlot {slot : Slot} (value : UInt8)
    (apart : address ∉ slot.places wired.registers) :
    (wired.storeSlot slot value).bus.get address = wired.bus.get address := by
  cases slot with
  | register _ => rfl
  | atHl => exact Ram.get_set_of_ne _ _ (List.ne_of_not_mem_cons apart).symm

theorem ram_modifySlot {slot : Slot} (change : UInt8 → AluResult) (merge : Flags → Flags → Flags)
    (apart : address ∉ slot.places wired.registers) :
    (wired.modifySlot slot change merge).bus.get address = wired.bus.get address := by
  cases slot with
  | register _ => rfl
  | atHl => exact ram_storeSlot _ apart

theorem ram_pushWord (ram : Ram) {sp : UInt16} (value : UInt16)
    (apart : address ∉ [sp - 1, sp - 2]) :
    (pushWord ram sp value).get address = ram.get address := by
  have high : sp - 1 ≠ address := (List.ne_of_not_mem_cons apart).symm
  have low : sp - 2 ≠ address :=
    (List.ne_of_not_mem_cons (List.not_mem_of_not_mem_cons apart)).symm
  rw [pushWord, Ram.write_eq, Ram.write_eq, Ram.get_set_of_ne _ _ low, Ram.get_set_of_ne _ _ high]

theorem ram_effectAt
    (apart : address ∉ operation.stores wired.registers (wordAt wired.bus operand)) :
    (wired.effectAt operation operand behind).bus.get address = wired.bus.get address := by
  have pushes : ∀ value, operation.pushed wired.registers behind = some value →
      address ∉ [wired.registers.sp - 1, wired.registers.sp - 2] →
      (wired.effectAt operation operand behind).bus.get address = wired.bus.get address := by
    intro value pushes below
    rw [bus_effectAt_pushed pushes, ram_pushWord _ _ below]
  cases operation with
  | load target source => cases source <;> exact ram_storeSlot _ apart
  | loadByte target => exact ram_storeSlot _ apart
  | increment target | decrement target | shift _ target => exact ram_modifySlot _ _ apart
  | resetBit _ target | setBit _ target => cases target <;> exact ram_storeSlot _ apart
  | storeA target =>
      cases target <;> exact Ram.get_set_of_ne _ _ (List.ne_of_not_mem_cons apart).symm
  | storeSp =>
      have low := (List.ne_of_not_mem_cons apart).symm
      have high := (List.ne_of_not_mem_cons (List.not_mem_of_not_mem_cons apart)).symm
      exact (Ram.get_set_of_ne _ _ high).trans (Ram.get_set_of_ne _ _ low)
  | push source => exact pushes _ rfl apart
  | restart _ => exact pushes _ rfl apart
  | call condition =>
      cases holds : wired.registers.holds condition with
      | true =>
          rw [Operation.stores, Operation.pushed, holds] at apart
          · exact pushes behind (if_pos holds) apart
          all_goals exact nofun
      | false =>
          rw [effectAt_branch rfl, holds]
          rfl
  | jump condition | jumpRelative condition | ret condition =>
      rw [effectAt_branch rfl]
      cases wired.registers.holds condition <;> rfl
  | halt | stop =>
      change (Wired.halt (wired.goTo behind)).bus.get address = _
      rw [(halt_waits _).1]
      rfl
  | enableInterrupts =>
      simp only [effectAt, executeWith, execute]
      cases (wired.goTo behind).registers.ime <;> rfl
  | arithmetic _ source | testBit _ source => cases source <;> rfl
  | loadA source => cases source <;> rfl
  | _ => rfl

end Memory

/-! A whole step. -/

theorem retire_undispatched [Bus β] [Bus.Still β] {polled : Wired β}
    (undispatched : polled.retire.cpu.phase ≠ .executing dispatchCycles .idle) :
    ∃ phase halted haltBug,
      polled.retire = ⟨{ polled.cpu with phase, halted, haltBug }, polled.bus⟩ ∧
      (polled.cpu.halted = false →
        phase = .fetching ∧ halted = false ∧ haltBug = polled.cpu.haltBug) := by
  rcases retire_cases polled with
    ⟨_, _, interrupt, _, same⟩ | ⟨_, ⟨running, same⟩ | ⟨waiting, _, same⟩ | ⟨waiting, _, same⟩⟩
  · rw [same, dispatch_cpu] at undispatched
    exact (undispatched rfl).elim
  all_goals rw [pending_still] at same
  · exact ⟨_, _, _, same, fun _ => ⟨rfl, running, rfl⟩⟩
  · exact ⟨_, _, _, same, fun running => Bool.noConfusion (running.symm.trans waiting)⟩
  · exact ⟨_, _, _, same, fun running => Bool.noConfusion (running.symm.trans waiting)⟩

/-- The processor as the instruction at hand leaves it, apart from the engine's phase and clock. -/
def effect [Bus β] (wired : Wired β) (instruction : Instruction) : Wired β :=
  ((wired.release instruction).effectAt instruction.operation wired.behindOpcode
    (wired.behindOpcode + UInt16.ofNat instruction.operation.length - 1)).expireDelay

theorem step_effect [Bus β] [Bus.Still β] {wired : Wired β} {instruction : Instruction}
    (fetching : wired.cpu.phase = .fetching) (found : wired.instruction? = some instruction) :
    ∃ polled phase, (wired.after (wired.duration instruction.operation - 1)).Retires polled ∧
      polled = (wired.effect instruction).retime phase
        (wired.cpu.clock.advanceBy (wired.duration instruction.operation - 1)) ∧
      wired.step = (.ok (wired.duration instruction.operation), polled.retire.count) := by
  obtain ⟨polled, phase, retires, same, stepped⟩ := (runs_instruction fetching found).step
  refine ⟨polled, phase, retires, ?_, stepped⟩
  rw [same, conclude, perform_fetch found, expireDelay_retime]
  rfl

/-- A poll that takes no interrupt leaves registers and memory as the instruction left them. -/
theorem step_undispatched [Bus β] [Bus.Still β] {wired : Wired β} {instruction : Instruction}
    (fetching : wired.cpu.phase = .fetching) (found : wired.instruction? = some instruction)
    (undispatched : wired.step.2.cpu.phase ≠ .executing dispatchCycles .idle) :
    wired.step.1 = .ok (wired.duration instruction.operation) ∧
      wired.step.2.registers = (wired.effect instruction).registers ∧
      wired.step.2.bus = (wired.effect instruction).bus := by
  obtain ⟨polled, phase, _, same, stepped⟩ := step_effect fetching found
  obtain ⟨final, halted, haltBug, retired, _⟩ : ∃ phase halted haltBug, _ := by
    refine @retire_undispatched _ _ _ polled ?_
    rw [stepped] at undispatched
    exact undispatched
  rw [stepped, retired, same]
  exact ⟨rfl, rfl, rfl⟩

theorem undispatched_disabled [Bus β] [Bus.Still β] {wired : Wired β} {instruction : Instruction}
    (fetching : wired.cpu.phase = .fetching) (found : wired.instruction? = some instruction)
    (disabled : (wired.effect instruction).registers.ime = false) :
    wired.step.2.cpu.phase ≠ .executing dispatchCycles .idle := by
  obtain ⟨polled, phase, _, same, stepped⟩ := step_effect fetching found
  have off : polled.registers.ime = false := by
    rw [same]
    exact disabled
  rw [stepped]
  change polled.retire.cpu.phase ≠ _
  rcases retire_cases polled with ⟨on, _⟩ | ⟨_, ⟨_, same⟩ | ⟨_, _, same⟩ | ⟨_, _, same⟩⟩
  · exact Bool.noConfusion (off.symm.trans on)
  all_goals
    rw [same]
    exact nofun

theorem ime_perform [Bus β] (wired : Wired β) {operation : Operation}
    (off : operation ≠ .disableInterrupts) (returning : operation ≠ .retEnable) :
    (wired.perform operation).registers.ime = wired.registers.ime := by
  have executed := ime_execute wired off
  cases taken : (wired.execute operation).1 with
  | none => rw [perform_of_straight taken, executed]
  | some jump =>
      rw [perform_of_branch taken, ← executed]
      cases jump with
      | retEnable =>
          cases operation with
          | retEnable => exact (returning rfl).elim
          | jump _ | jumpRelative _ | call _ | ret _ => simp [execute, branch] at taken
          | _ => cases taken
      | _ => rfl

theorem enabling_perform [Bus β] (wired : Wired β) (operation : Operation) :
    let after := (wired.perform operation).expireDelay
    (after.registers.ime, after.cpu.enableDelay) =
      operation.enabling wired.registers.ime wired.cpu.enableDelay := by
  intro after
  have expired : (after.registers.ime, after.cpu.enableDelay) =
      ((wired.perform operation).cpu.enableDelay == 1 || (wired.perform operation).registers.ime,
        (wired.perform operation).cpu.enableDelay - 1) := by
    simp only [after, expireDelay_eq]
    rfl
  rw [expired]
  by_cases off : operation = .disableInterrupts
  · subst off
    rfl
  by_cases on : operation = .enableInterrupts
  · subst on
    cases enabled : wired.registers.ime with
    | true =>
        have same : wired.perform .enableInterrupts = wired := if_pos enabled
        rw [same, enabled, Bool.or_true]
        rfl
    | false =>
        have same : wired.perform .enableInterrupts = { wired with cpu.enableDelay := 2 } :=
          if_neg (Bool.eq_false_iff.mp enabled)
        rw [same]
        exact congrArg (·, 1) enabled
  rw [enableDelay_perform wired off on]
  by_cases returning : operation = .retEnable
  · subst returning
    exact congrArg (·, _) (Bool.or_true _)
  · rw [ime_perform wired off returning, Operation.enabling_plain off on returning]

theorem fetches_perform [Bus β] (wired : Wired β) (operation : Operation) :
    (wired.perform operation).cpu.fetches = wired.cpu.fetches := by
  have kept := congrArg (·.cpu.fetches) (execute_aside wired operation)
  exact (part_perform (fun _ _ => rfl) wired operation).trans kept.symm

theorem halted_perform [Bus β] (wired : Wired β) {operation : Operation}
    (running : ¬(operation = .halt ∨ operation = .stop)) :
    (wired.perform operation).cpu.halted = wired.cpu.halted :=
  (part_perform (fun _ _ => rfl) wired operation).trans (execute_running wired running).1

/-- What an instruction leaves as it was, and what becomes of the rest. -/
structure Framed (instruction : Instruction) (before after : Wired Ram) : Prop where
  registers : ∀ register, register ∉ instruction.operation.writes →
    after.registers.get register = before.registers.get register
  flags : instruction.operation.flagEffects.Allow before.registers.flags after.registers.flags
  sp : instruction.operation.setsSp = false →
    after.registers.sp = before.registers.sp + instruction.operation.drift before.registers
  hl : ∀ indirect, instruction.operation = .loadA indirect ∨
    instruction.operation = .storeA indirect →
    after.registers.hl = before.registers.hl + indirect.drift
  enabling : (after.registers.ime, after.cpu.enableDelay) =
    instruction.operation.enabling before.registers.ime before.cpu.enableDelay
  -- no reachable processor that fetches is halted, by `Cpu.Reachable.coherent`
  running : before.cpu.halted = false →
    ¬(instruction.operation = .halt ∨ instruction.operation = .stop) →
    after.cpu.phase = .fetching ∧ after.cpu.halted = false ∧ after.cpu.haltBug = false
  fetches : after.cpu.fetches = before.cpu.fetches.map
    (·.push ⟨before.registers.pc, instruction, before.registers⟩)
  memory : ∀ address, address ∉ instruction.operation.stores before.registers
    (wordAt before.bus before.behindOpcode) → after.bus.get address = before.bus.get address
  pushed : ∀ value, instruction.operation.pushed before.registers
    (before.behindOpcode + UInt16.ofNat instruction.operation.length - 1) = some value →
    after.bus = pushWord before.bus before.registers.sp value

/-- A step that no interrupt ends changes only what its instruction may change. -/
theorem instruction_frame {wired : Wired Ram} {instruction : Instruction}
    (fetching : wired.cpu.phase = .fetching) (found : wired.instruction? = some instruction)
    (undispatched : wired.step.2.cpu.phase ≠ .executing dispatchCycles .idle) :
    wired.step.1 = .ok (wired.duration instruction.operation) ∧
      wired.Framed instruction wired.step.2 := by
  obtain ⟨passes, bytes⟩ := bytes_step fetching found
  obtain ⟨_, flags, _⟩ := flag_law fetching found
  have fetched : wired.fetch.2.registers.bytes = wired.registers.bytes := bytes_fetch found
  obtain ⟨polled, phase, _, same, stepped⟩ := (runs_instruction fetching found).step
  obtain ⟨final, halted, haltBug, retired, waits⟩ : ∃ phase halted haltBug, _ := by
    refine @retire_undispatched _ _ _ polled ?_
    rw [stepped] at undispatched
    exact undispatched
  have after : wired.step.2 = ⟨{ polled.cpu with
      phase := final, halted, haltBug, clock := polled.cpu.clock.advance }, polled.bus⟩ := by
    rw [stepped, retired]
    rfl
  let effect := (wired.release instruction).effectAt instruction.operation wired.behindOpcode
    (wired.behindOpcode + UInt16.ofNat instruction.operation.length - 1)
  have sp : wired.step.2.registers.sp = effect.registers.sp := by
    rw [after, same, conclude, perform_fetch found, expireDelay_eq]
    rfl
  have bus : wired.step.2.bus = effect.bus := by
    rw [after, same]
    exact bus_conclude found
  refine ⟨passes, ?_⟩
  constructor
  case registers =>
    intro register apart
    rw [Registers.get_congr bytes, get_execute apart, Registers.get_congr fetched]
  case flags => exact flags
  case sp =>
    intro other
    rw [sp]
    exact sp_effectAt other
  case hl =>
    intro indirect names
    rw [Registers.hl_congr bytes, hl_execute names, Registers.hl_congr fetched]
  case enabling =>
    have enabling := enabling_perform wired.fetch.2 instruction.operation
    have ime : wired.fetch.2.registers.ime = wired.registers.ime := by
      rw [fetch_eq found]
      rfl
    have delay : wired.fetch.2.cpu.enableDelay = wired.cpu.enableDelay := by rw [fetch_eq found]
    rw [ime, delay] at enabling
    rw [after, same]
    exact enabling
  case running =>
    intro running others
    have stopped : polled.cpu.halted = false := by
      rw [same, conclude, expireDelay_eq]
      change (wired.fetch.2.perform instruction.operation).cpu.halted = false
      rw [halted_perform _ others, fetch_eq found]
      exact running
    have advancing : polled.cpu.haltBug = false := by
      rw [same, conclude, expireDelay_eq]
      change (wired.fetch.2.perform instruction.operation).cpu.haltBug = false
      rw [haltBug_running _ others, fetch_eq found]
    obtain ⟨rfl, rfl, rfl⟩ := waits stopped
    rw [after]
    exact ⟨rfl, rfl, advancing⟩
  case fetches =>
    rw [after, same, conclude, expireDelay_eq]
    change (wired.fetch.2.perform instruction.operation).cpu.fetches = _
    rw [fetches_perform, fetch_eq found]
  case memory =>
    intro address apart
    rw [bus]
    exact ram_effectAt apart
  case pushed =>
    intro value pushes
    rw [bus]
    exact bus_effectAt_pushed pushes

/-- A restart pushes the address behind itself, and the program stays as it was. -/
theorem instruction_frame_restart :
    let last := (requested 0xC7 0x00).step.2
    last.registers.sp = 0xFFFC ∧ last.bus.get 0xFFFD = 0 ∧ last.bus.get 0xFFFC = 1 ∧
      last.bus.get 0 = 0xC7 := by
  intro last
  have found : (requested 0xC7 0x00).instruction? = some ⟨0xC7, false, .restart 0⟩ :=
    instruction?_of_decode (requested_get 0xC7 0x00).1 rfl
  have undispatched : last.cpu.phase ≠ .executing dispatchCycles .idle := by
    intro dispatched
    obtain ⟨polled, phase, _, same, stepped⟩ := (runs_instruction rfl found).step
    have enabling := enabling_perform (requested 0xC7 0x00).fetch.2 (.restart 0)
    have disabled : polled.registers.ime = false := by
      rw [same]
      refine (congrArg Prod.fst enabling).trans ?_
      rw [fetch_eq found]
      rfl
    have ended : last = polled.retire.count := congrArg Prod.snd stepped
    rw [ended] at dispatched
    change polled.retire.cpu.phase = _ at dispatched
    rcases retire_cases polled with ⟨enabled, _⟩ | ⟨_, ⟨_, same⟩ | ⟨_, _, same⟩ | ⟨_, _, same⟩⟩
    · exact Bool.noConfusion (disabled.symm.trans enabled)
    all_goals
      rw [same] at dispatched
      cases dispatched
  obtain ⟨_, framed⟩ := instruction_frame rfl found undispatched
  have sp := framed.sp rfl
  have bus := framed.pushed 1 rfl
  refine ⟨sp, ?_, ?_, (framed.memory 0 (by decide)).trans (requested_get 0xC7 0x00).1⟩
  · rw [bus, pushWord, Ram.write_eq, Ram.get_set_of_ne _ _ (by decide)]
    exact Ram.get_set_self _ _ _
  · rw [bus]
    exact Ram.get_set_self _ _ _

end Wired

end Dmg
