import Dmg.Proofs.Dispatch
import Dmg.Proofs.InstructionFrame

/-!
The discipline of the stack.  Pushes and pops that match give every word back, however they nest and
wherever the stack pointer wraps, as long as nothing else writes to the words that are waiting and
there is room for them.
-/

namespace Dmg

/-- A word pushed or popped by an operation: what the source held before, or the destination holds
afterwards. -/
inductive StackEvent
  | pushed (operation : Operation) (value : UInt16)
  | popped (operation : Operation) (value : UInt16)

/-- The pushes that wait for their pops, the last of them first. -/
abbrev Waiting := List (Operation × UInt16)

/-- The pushes that wait behind some events, if others have been waiting before. -/
def unmatched (waiting : Waiting) : List StackEvent → Waiting
  | [] => waiting
  | .pushed operation value :: later => unmatched ((operation, value) :: waiting) later
  | .popped _ _ :: later => unmatched waiting.tail later

theorem unmatched_append (waiting : Waiting) (earlier later : List StackEvent) :
    unmatched waiting (earlier ++ later) = unmatched (unmatched waiting earlier) later := by
  induction earlier generalizing waiting with
  | nil => rfl
  | cons event rest ih => cases event <;> exact ih _

theorem mem_unmatched {waiting : Waiting} {events : List StackEvent} {operation : Operation}
    {value : UInt16} (among : (operation, value) ∈ unmatched waiting events) :
    (operation, value) ∈ waiting ∨ .pushed operation value ∈ events := by
  induction events generalizing waiting with
  | nil => exact Or.inl among
  | cons event rest ih =>
      cases event with
      | pushed source word =>
          rcases ih among with before | later
          · rcases List.mem_cons.mp before with same | before
            · cases same
              exact Or.inr List.mem_cons_self
            · exact Or.inl before
          · exact Or.inr (List.mem_cons_of_mem _ later)
      | popped target word =>
          rcases ih among with before | later
          · exact Or.inl (List.mem_of_mem_tail before)
          · exact Or.inr (List.mem_cons_of_mem _ later)

theorem snoc_eq_append_cons {α : Type} {items earlier later : List α} {item last : α}
    (same : items ++ [last] = earlier ++ item :: later) :
    (items = earlier ∧ last = item ∧ later = []) ∨
      ∃ others, items = earlier ++ item :: others ∧ later = others ++ [last] := by
  rcases List.eq_nil_or_concat later with rfl | ⟨others, final, rfl⟩
  · obtain ⟨front, back⟩ := List.append_inj' same rfl
    exact Or.inl ⟨front, List.singleton_inj.mp back, rfl⟩
  · rw [List.concat_eq_append, ← List.cons_append, ← List.append_assoc] at same
    obtain ⟨front, back⟩ := List.append_inj' same rfl
    exact Or.inr ⟨others, front, by rw [List.concat_eq_append, back]⟩

def OnStack (sp : UInt16) (words : Nat) (place : UInt16) : Prop :=
  (place - sp).toNat < 2 * words

def Stacked (ram : Ram) (sp : UInt16) : Waiting → Prop
  | [] => True
  | (_, value) :: rest => Wired.wordAt ram sp = value ∧ Stacked ram (sp + 2) rest

section Stacked

variable {ram later : Ram} {sp : UInt16} {waiting : Waiting}

theorem OnStack.above {words : Nat} {place : UInt16} (above : OnStack (sp + 2) words place) :
    OnStack sp (words + 1) place := by
  have distance : place - sp = place - (sp + 2) + 2 := by grind
  have two : (2 : UInt16).toNat = 2 := rfl
  rw [OnStack] at above
  rw [OnStack, distance, UInt16.toNat_add, two]
  omega

theorem not_onStack_below {words : Nat} (room : words < 0x8000) :
    ∀ place ∈ [sp - 1, sp - 2], ¬OnStack sp words place := by
  have first : (sp - 1 - sp).toNat = 0xFFFF := by
    have distance : sp - 1 - sp = 0xFFFF := by grind
    rw [distance]
    rfl
  have second : (sp - 2 - sp).toNat = 0xFFFE := by
    have distance : sp - 2 - sp = 0xFFFE := by grind
    rw [distance]
    rfl
  intro place among
  rw [OnStack]
  rcases List.mem_cons.mp among with rfl | among
  · omega
  · rw [List.mem_singleton.mp among]
    omega

theorem Stacked.congr (stacked : Stacked ram sp waiting)
    (kept : ∀ place, OnStack sp waiting.length place → later.get place = ram.get place) :
    Stacked later sp waiting := by
  induction waiting generalizing sp with
  | nil => trivial
  | cons word rest ih =>
      obtain ⟨top, others⟩ := stacked
      have low : later.get sp = ram.get sp := by
        apply kept
        rw [OnStack, UInt16.sub_self]
        exact Nat.mul_pos Nat.two_pos (Nat.succ_pos _)
      have high : later.get (sp + 1) = ram.get (sp + 1) := by
        have distance : sp + 1 - sp = 1 := by grind
        apply kept
        rw [OnStack, distance, List.length_cons]
        change 1 < _
        omega
      refine ⟨?_, ih others fun place above => ?_⟩
      · rw [← top, Wired.wordAt_still, Wired.wordAt_still, Ram.read_eq, Ram.read_eq, Ram.read_eq,
          Ram.read_eq, low, high]
      · exact kept place above.above

/-- A word pushed lies below those that are waiting and overwrites none of them. -/
theorem Stacked.push (stacked : Stacked ram sp waiting) (room : waiting.length < 0x8000)
    (operation : Operation) (value : UInt16) :
    Stacked (Wired.pushWord ram sp value) (sp - 2) ((operation, value) :: waiting) := by
  have next : sp - 2 + 1 = sp - 1 := by grind
  have back : sp - 2 + 2 = sp := by grind
  have apart : sp - 2 ≠ sp - 1 := by grind
  constructor
  · rw [Wired.wordAt_still, next, Wired.pushWord, Ram.write_eq, Ram.write_eq, Ram.read_eq,
      Ram.read_eq, Ram.get_set_self, Ram.get_set_of_ne _ _ apart, Ram.get_set_self,
      join_highByte_lowByte]
  · rw [back]
    refine stacked.congr fun place above => ?_
    exact Wired.ram_pushWord ram value fun among => not_onStack_below room place among above

end Stacked

/-! One push and one pop. -/

theorem join_and_mask (high low : UInt8) :
    join high (low &&& 0xF0) = join high low &&& 0xFFF0 := by
  have everyByte : ∀ bits : BitVec 8,
      (⟨bits⟩ : UInt8).toUInt16 <<< 8 &&& (0xFFF0 : UInt16) = (⟨bits⟩ : UInt8).toUInt16 <<< 8 ∧
        (⟨bits⟩ : UInt8).toUInt16 &&& (0xFFF0 : UInt16) =
          ((⟨bits⟩ : UInt8) &&& (0xF0 : UInt8)).toUInt16 := by
    decide +kernel
  obtain ⟨highKept, _⟩ := everyByte high.toBitVec
  obtain ⟨_, lowMasked⟩ := everyByte low.toBitVec
  have whole := Nat.and_or_distrib_right (high.toUInt16 <<< 8).toNat low.toUInt16.toNat 0xFFF0
  apply UInt16.toNat_inj.mp
  calc (join high (low &&& 0xF0)).toNat
      _ = (high.toUInt16 <<< 8).toNat ||| (low &&& 0xF0).toUInt16.toNat := UInt16.toNat_or _ _
      _ = (high.toUInt16 <<< 8 &&& 0xFFF0).toNat ||| (low.toUInt16 &&& 0xFFF0).toNat := by
        rw [highKept, lowMasked]
      _ = (join high low &&& 0xFFF0).toNat := by
        rw [UInt16.toNat_and, UInt16.toNat_and, UInt16.toNat_and, join, UInt16.toNat_or]
        exact whole.symm

/-- What a popped word leaves in the destination: the low byte of AF has only four bits. -/
def Operation.received (operation : Operation) (value : UInt16) : UInt16 :=
  match operation with
  | pop .af => value &&& 0xFFF0
  | _ => value

theorem Operation.received_of_ne {operation : Operation} (other : operation ≠ .pop .af)
    (value : UInt16) : operation.received value = value := by
  cases operation with
  | pop target =>
      cases target with
      | af => exact (other rfl).elim
      | _ => rfl
  | _ => rfl

namespace Registers

def destination (registers : Registers) : Operation → UInt16
  | .pop target => registers.getStackPair target
  | _ => registers.pc

theorem destination_of_ne {operation : Operation} (other : ∀ target, operation ≠ .pop target)
    (registers : Registers) : registers.destination operation = registers.pc := by
  cases operation with
  | pop target => exact (other target rfl).elim
  | _ => rfl

theorem getStackPair_congr {left right : Registers} (same : left.bytes = right.bytes)
    (pair : StackPair) : left.getStackPair pair = right.getStackPair pair := by
  have kept : ∀ registers : Registers,
      registers.bytes.getStackPair pair = registers.getStackPair pair := by
    intro registers
    cases pair <;> rfl
  rw [← kept left, same, kept right]

theorem af_setAf (registers : Registers) (value : UInt16) :
    (registers.setAf value).af = value &&& 0xFFF0 := by
  have halves : (registers.setAf value).af = join (highByte value) (lowByte value &&& 0xF0) := by
    rw [← Flags.toByte_ofByte]
    rfl
  rw [halves, join_and_mask, join_highByte_lowByte]

theorem af_and_mask (registers : Registers) : registers.af &&& 0xFFF0 = registers.af := by
  have low : registers.f &&& 0xF0 = registers.f := by
    rw [f, ← Flags.toByte_ofByte, Flags.ofByte_toByte]
  rw [af, ← join_and_mask, low]

theorem getStackPair_setStackPair (registers : Registers) (pair : StackPair) (value : UInt16) :
    (registers.setStackPair pair value).getStackPair pair =
      (Operation.pop pair).received value := by
  cases pair with
  | af => exact af_setAf registers value
  | _ => exact join_highByte_lowByte value

end Registers

namespace Operation

section Moves

variable {operation : Operation} {registers : Registers}

theorem setsSp_of_pushed {behind value : UInt16}
    (pushes : operation.pushed registers behind = some value) : operation.setsSp = false := by
  cases operation <;> first | rfl | cases pushes

theorem drift_of_pushed {behind value : UInt16}
    (pushes : operation.pushed registers behind = some value) : operation.drift registers = -2 := by
  cases operation with
  | push _ | restart _ => rfl
  | call condition =>
      obtain ⟨holds, _⟩ := Option.ite_none_right_eq_some.mp pushes
      rw [drift, pushed, holds]
      rfl
  | _ => cases pushes

theorem setsSp_of_pops (pops : operation.pops registers = true) : operation.setsSp = false := by
  cases operation <;> first | rfl | cases pops

theorem drift_of_pops (pops : operation.pops registers = true) : operation.drift registers = 2 := by
  cases operation with
  | pop _ | retEnable => rfl
  | ret condition => exact if_pos pops
  | _ => cases pops

theorem drift_of_neither {behind : UInt16} (pushes : operation.pushed registers behind = none)
    (pops : operation.pops registers = false) : operation.drift registers = 0 := by
  cases operation with
  | push _ | restart _ => cases pushes
  | pop _ | retEnable => cases pops
  | call condition =>
      cases holds : registers.holds condition with
      | true =>
          rw [pushed, if_pos holds] at pushes
          cases pushes
      | false =>
          rw [drift, pushed, holds]
          rfl
  | ret condition =>
      change registers.holds condition = false at pops
      simp only [drift, pushed, Operation.pops, pops]
      rfl
  | _ => rfl

theorem stores_of_pops (pops : operation.pops registers = true) (operand : UInt16) :
    operation.stores registers operand = [] := by
  cases operation <;> first | rfl | cases pops

theorem pushed_congr {left right : Registers} (same : left.bytes = right.bytes)
    (operation : Operation) (behind : UInt16) :
    operation.pushed left behind = operation.pushed right behind := by
  cases operation with
  | push source => rw [pushed, pushed, Registers.getStackPair_congr same]
  | call condition => rw [pushed, pushed, Registers.holds_congr (Registers.flags_congr same)]
  | _ => rfl

theorem received_of_pushed {behind value : UInt16}
    (pushes : operation.pushed registers behind = some value) (target : Operation) :
    target.received value =
      if target = .pop .af ∧ operation ≠ .push .af then value &&& 0xFFF0 else value := by
  by_cases masked : target = .pop .af
  · subst masked
    by_cases whole : operation = .push .af
    · subst whole
      cases pushes
      rw [if_neg fun other => other.2 rfl]
      exact registers.af_and_mask
    · rw [if_pos ⟨rfl, whole⟩]
      rfl
  · rw [if_neg fun other => masked other.1]
    exact received_of_ne masked value

theorem pops_congr {left right : Registers} (same : left.bytes = right.bytes)
    (operation : Operation) : operation.pops left = operation.pops right := by
  cases operation with
  | ret condition => exact Registers.holds_congr (Registers.flags_congr same) condition
  | _ => rfl

end Moves

end Operation

namespace Wired

variable {wired : Wired Ram} {operation : Operation}

theorem sp_perform (other : operation.setsSp = false) :
    (wired.perform operation).registers.sp =
      wired.registers.sp + operation.drift wired.registers := by
  rw [perform_eq_effectAt]
  exact sp_effectAt other

theorem bus_perform_pushed {value : UInt16}
    (pushes : operation.pushed wired.registers
      (wired.registers.pc + UInt16.ofNat operation.operandLength) = some value) :
    (wired.perform operation).bus = pushWord wired.bus wired.registers.sp value := by
  rw [perform_eq_effectAt]
  exact bus_effectAt_pushed pushes

theorem bus_perform_pops (pops : operation.pops wired.registers = true) :
    (wired.perform operation).bus = wired.bus := by
  apply Ram.ext_get
  intro address
  rw [perform_eq_effectAt]
  apply ram_effectAt
  rw [Operation.stores_of_pops pops]
  exact List.not_mem_nil

theorem destination_perform (pops : operation.pops wired.registers = true) :
    (wired.perform operation).registers.destination operation =
      operation.received (wordAt wired.bus wired.registers.sp) := by
  cases operation with
  | pop target => exact Registers.getStackPair_setStackPair _ _ _
  | ret condition =>
      have taken : (wired.execute (.ret condition)).1 = some .ret := if_pos pops
      rw [perform_of_branch taken]
      rfl
  | retEnable => rfl
  | _ => cases pops

/-! Runs. -/

/-- The processor comes to a state by pushes and pops.  In between anything may happen that leaves
the stack pointer where it is and the waiting words as they are. -/
inductive StackRun (start : Wired Ram) (waiting : Waiting) : List StackEvent → Wired Ram → Prop
  | start : StackRun start waiting [] start
  | aside {events now later} : StackRun start waiting events now →
      later.registers.sp = now.registers.sp →
      (∀ place, OnStack now.registers.sp (unmatched waiting events).length place →
        later.bus.get place = now.bus.get place) →
      StackRun start waiting events later
  | push {events now operation value} : StackRun start waiting events now →
      operation.pushed now.registers
        (now.registers.pc + UInt16.ofNat operation.operandLength) = some value →
      (unmatched waiting events).length < 0x8000 →
      StackRun start waiting (events ++ [.pushed operation value]) (now.perform operation)
  | pop {events now operation} : StackRun start waiting events now →
      operation.pops now.registers = true → unmatched waiting events ≠ [] →
      StackRun start waiting
        (events ++ [.popped operation ((now.perform operation).registers.destination operation)])
        (now.perform operation)

namespace StackRun

variable {start now : Wired Ram} {waiting : Waiting} {events : List StackEvent}

theorem of_same {later : Wired Ram} (run : start.StackRun waiting events now)
    (sp : later.registers.sp = now.registers.sp) (bus : later.bus = now.bus) :
    start.StackRun waiting events later :=
  run.aside sp fun place _ => by rw [bus]

theorem stacked (run : start.StackRun waiting events now)
    (before : Stacked start.bus start.registers.sp waiting) :
    Stacked now.bus now.registers.sp (unmatched waiting events) ∧
      now.registers.sp + 2 * UInt16.ofNat (unmatched waiting events).length =
        start.registers.sp + 2 * UInt16.ofNat waiting.length := by
  induction run with
  | start => exact ⟨before, rfl⟩
  | aside _ sp kept ih =>
      obtain ⟨stacked, level⟩ := ih
      rw [sp]
      exact ⟨stacked.congr kept, level⟩
  | @push events now operation value _ pushes room ih =>
      obtain ⟨stacked, level⟩ := ih
      -- The pushed word goes below the others, and there is room below as long as they do not meet.
      have below : now.registers.sp + -2 = now.registers.sp - 2 :=
        (UInt16.sub_eq_add_neg _ _).symm
      rw [unmatched_append, bus_perform_pushed pushes,
        sp_perform (Operation.setsSp_of_pushed pushes), Operation.drift_of_pushed pushes, below]
      refine ⟨stacked.push room operation value, ?_⟩
      rw [← level]
      change _ + 2 * UInt16.ofNat ((unmatched waiting events).length + 1) = _
      rw [UInt16.ofNat_add]
      grind
  | @pop events now operation _ pops some ih =>
      obtain ⟨stacked, level⟩ := ih
      rw [unmatched_append, bus_perform_pops pops, sp_perform (Operation.setsSp_of_pops pops),
        Operation.drift_of_pops pops]
      cases left : unmatched waiting events with
      | nil => exact (some left).elim
      | cons word rest =>
          rw [left] at stacked level
          refine ⟨stacked.2, ?_⟩
          rw [← level]
          change _ + 2 * UInt16.ofNat rest.length = _ + 2 * UInt16.ofNat (rest.length + 1)
          rw [UInt16.ofNat_add]
          grind

theorem popped (run : start.StackRun waiting events now)
    (before : Stacked start.bus start.registers.sp waiting) {earlier later : List StackEvent}
    {operation : Operation} {result : UInt16}
    (among : events = earlier ++ .popped operation result :: later) :
    ∃ source value rest, unmatched waiting earlier = (source, value) :: rest ∧
      result = operation.received value := by
  induction run generalizing later with
  | start => cases earlier <;> cases among
  | aside _ _ _ ih => exact ih among
  | push _ _ _ ih =>
      rcases snoc_eq_append_cons among with ⟨_, same, _⟩ | ⟨others, same, _⟩
      · cases same
      · exact ih same
  | @pop events now popping run pops some ih =>
      rcases snoc_eq_append_cons among with ⟨rfl, same, _⟩ | ⟨others, same, _⟩
      · cases same
        obtain ⟨stacked, _⟩ := run.stacked before
        cases left : unmatched waiting events with
        | nil => exact (some left).elim
        | cons word rest =>
            rw [left] at stacked
            refine ⟨word.1, word.2, rest, rfl, ?_⟩
            rw [destination_perform pops, stacked.1]
      · exact ih same

theorem pushed (run : start.StackRun waiting events now) {operation : Operation} {value : UInt16}
    (among : .pushed operation value ∈ events) :
    ∃ registers behind, operation.pushed registers behind = some value := by
  induction run with
  | start => cases among
  | aside _ _ _ ih => exact ih among
  | push _ pushes _ ih =>
      rcases List.mem_append.mp among with earlier | last
      · exact ih earlier
      · cases List.mem_singleton.mp last
        exact ⟨_, _, pushes⟩
  | pop _ _ _ ih =>
      rcases List.mem_append.mp among with earlier | last
      · exact ih earlier
      · cases List.mem_singleton.mp last

theorem trans {later : Wired Ram} {more : List StackEvent}
    (first : start.StackRun waiting events now)
    (second : now.StackRun (unmatched waiting events) more later) :
    start.StackRun waiting (events ++ more) later := by
  induction second with
  | start =>
      rw [List.append_nil]
      exact first
  | aside _ sp kept ih =>
      rw [← unmatched_append] at kept
      exact ih.aside sp kept
  | push _ pushes room ih =>
      rw [← unmatched_append] at room
      rw [← List.append_assoc]
      exact ih.push pushes room
  | pop _ pops some ih =>
      rw [← unmatched_append] at some
      rw [← List.append_assoc]
      exact ih.pop pops some

/-- A word pushed is popped behind a stretch that leaves it as the last that waits. -/
theorem returned {call returning : Operation} {behind result : UInt16} {body : List StackEvent}
    (run : start.StackRun [] (.pushed call behind :: (body ++ [.popped returning result])) now)
    (matched : unmatched [(call, behind)] body = [(call, behind)]) :
    result = returning.received behind ∧ now.registers.sp = start.registers.sp := by
  have split : .pushed call behind :: (body ++ [.popped returning result]) =
      (.pushed call behind :: body) ++ .popped returning result :: [] := rfl
  obtain ⟨_, _, _, top, got⟩ := run.popped trivial split
  obtain ⟨_, level⟩ := run.stacked trivial
  have last : unmatched [] (.pushed call behind :: body) = [(call, behind)] := matched
  have none : unmatched [] (.pushed call behind :: (body ++ [.popped returning result])) = [] := by
    rw [← List.cons_append, unmatched_append, last]
    rfl
  rw [last] at top
  rw [none] at level
  cases top
  exact ⟨got, (UInt16.add_left_inj _).mp level⟩

end StackRun

/-! Steps.  What an instruction does to the stack lies between its fetch and its poll, which only
set the stage. -/

theorem pushed_fetch {instruction : Instruction} (found : wired.instruction? = some instruction) :
    let operation := instruction.operation
    operation.pushed wired.fetch.2.registers
        (wired.fetch.2.registers.pc + UInt16.ofNat operation.operandLength) =
      operation.pushed wired.registers
        (wired.behindOpcode + UInt16.ofNat operation.length - 1) := by
  intro operation
  rw [passed_fetch found]
  exact Operation.pushed_congr (bytes_fetch found) _ _

theorem pops_fetch {instruction : Instruction} (found : wired.instruction? = some instruction) :
    instruction.operation.pops wired.fetch.2.registers =
      instruction.operation.pops wired.registers :=
  Operation.pops_congr (bytes_fetch found) _

theorem destination_ended {phase : Phase} {clock : Clock} :
    (wired.expireDelay.retime phase clock).registers.destination operation =
      wired.registers.destination operation := by
  rw [expireDelay_eq]
  cases operation with
  | pop target => cases target <;> rfl
  | _ => rfl

/-- A step of the processor as a push, a pop or neither.  The poll at its end adds nothing if it
takes no interrupt. -/
structure StackStep (wired : Wired Ram) (instruction : Instruction) (polled : Wired Ram) :
    Prop where
  stepped : wired.step = (.ok (wired.duration instruction.operation), polled.retire.count)
  retires : (wired.after (wired.duration instruction.operation - 1)).Retires polled
  pushes : ∀ {waiting value}, instruction.operation.pushed wired.registers
      (wired.behindOpcode + UInt16.ofNat instruction.operation.length - 1) = some value →
    waiting.length < 0x8000 →
    wired.StackRun waiting [.pushed instruction.operation value] polled
  pops : ∀ {waiting}, instruction.operation.pops wired.registers = true → waiting ≠ [] →
    wired.StackRun waiting [.popped instruction.operation
      (polled.registers.destination instruction.operation)] polled
  aside : ∀ {waiting}, instruction.operation.pushed wired.registers
      (wired.behindOpcode + UInt16.ofNat instruction.operation.length - 1) = none →
    instruction.operation.pops wired.registers = false →
    instruction.operation.setsSp = false →
    (∀ place, OnStack wired.registers.sp waiting.length place →
      place ∉ instruction.operation.stores wired.registers
        (wordAt wired.bus wired.behindOpcode)) →
    wired.StackRun waiting [] polled
  declined : polled.registers.ime = false ∨ pendingOn polled.bus = 0 →
    wired.step.2.registers = polled.registers ∧ wired.step.2.bus = polled.bus

theorem stackStep {instruction : Instruction} (fetching : wired.cpu.phase = .fetching)
    (found : wired.instruction? = some instruction) :
    ∃ polled, wired.StackStep instruction polled := by
  obtain ⟨polled, phase, retires, same, stepped⟩ := (runs_instruction fetching found).step
  have fetched : ∀ {waiting}, wired.StackRun waiting [] wired.fetch.2 := by
    refine StackRun.start.of_same ?_ ?_
    · rw [fetch_eq found]
      rfl
    · rw [fetch_eq found, fetchedBus_ram]
  have ended : ∀ {waiting events},
      wired.StackRun waiting events (wired.fetch.2.perform instruction.operation) →
        wired.StackRun waiting events polled := by
    intro waiting events run
    rw [same, conclude, expireDelay_eq]
    exact run.of_same rfl rfl
  refine ⟨polled, stepped, retires, ?_, ?_, ?_, ?_⟩
  · intro waiting value pushes room
    refine ended (fetched.push ?_ room)
    rw [pushed_fetch found]
    exact pushes
  · intro waiting pops some
    have destination : polled.registers.destination instruction.operation =
        (wired.fetch.2.perform instruction.operation).registers.destination
          instruction.operation := by
      rw [same]
      exact destination_ended
    rw [destination]
    refine ended (fetched.pop ?_ some)
    rw [pops_fetch found]
    exact pops
  · intro waiting pushes pops other apart
    refine StackRun.start.aside ?_ fun place above => ?_
    · have still : instruction.operation.drift wired.fetch.2.registers = 0 := by
        refine Operation.drift_of_neither ((pushed_fetch found).trans pushes) ?_
        rw [pops_fetch found]
        exact pops
      rw [same, conclude, expireDelay_eq]
      change (wired.fetch.2.perform instruction.operation).registers.sp = _
      rw [sp_perform other, still, UInt16.add_zero, fetch_eq found]
      rfl
    · rw [same]
      change (wired.conclude instruction.operation).bus.get place = _
      rw [bus_conclude found]
      exact ram_effectAt (apart place above)
  · intro declined
    rw [stepped]
    refine retire_declined (declined.imp_right fun quiet => ?_)
    rw [pending_still]
    exact quiet

/-- Every pop gets what the push that it matches has put on the stack, and the stack pointer is back
once all are matched.  Steps of the processor are such pushes and pops, and so a subroutine that
leaves the stack as it found it goes on behind its call. -/
theorem stack_discipline {start now : Wired Ram} {events : List StackEvent}
    (run : start.StackRun [] events now) :
    (∀ earlier target result later, events = earlier ++ .popped target result :: later →
      ∃ source value rest, unmatched [] earlier = (source, value) :: rest ∧
        result =
          if target = .pop .af ∧ source ≠ .push .af then value &&& 0xFFF0 else value) ∧
    (unmatched [] events = [] → now.registers.sp = start.registers.sp) ∧
    (∀ (wired : Wired Ram) instruction, wired.cpu.phase = .fetching →
      wired.instruction? = some instruction → ∃ polled, wired.StackStep instruction polled) ∧
    ∀ (caller : Wired Ram) instruction, caller.cpu.phase = .fetching →
      caller.instruction? = some instruction →
      let call := instruction.operation
      let behind := caller.behindOpcode + UInt16.ofNat call.length - 1
      (∃ condition, call = .call condition ∧ caller.registers.holds condition = true) ∨
        (∃ index, call = .restart index) →
      (caller.cpu.haltBug = false → behind = caller.registers.pc + UInt16.ofNat call.length) ∧
      ∃ entered, caller.StackStep instruction entered ∧
        ∀ body leaving returning, entered.StackRun [(call, behind)] body leaving →
          unmatched [(call, behind)] body = [(call, behind)] →
          leaving.cpu.phase = .fetching → leaving.instruction? = some returning →
          returning.operation = .retEnable ∨ (∃ condition,
            returning.operation = .ret condition ∧ leaving.registers.holds condition = true) →
          ∃ left, leaving.StackStep returning left ∧ left.registers.pc = behind ∧
            left.registers.sp = caller.registers.sp := by
  refine ⟨?_, ?_, fun wired instruction => stackStep, ?_⟩
  · intro earlier target result later among
    obtain ⟨source, value, rest, top, got⟩ := run.popped trivial among
    refine ⟨source, value, rest, top, ?_⟩
    have waits : (source, value) ∈ unmatched [] earlier := by
      rw [top]
      exact List.mem_cons_self
    have happened : .pushed source value ∈ events := by
      rw [among]
      exact List.mem_append_left _ ((mem_unmatched waits).resolve_left List.not_mem_nil)
    obtain ⟨_, _, pushes⟩ := run.pushed happened
    rw [got, Operation.received_of_pushed pushes]
  · intro matched
    obtain ⟨_, level⟩ := run.stacked trivial
    rw [matched] at level
    exact (UInt16.add_left_inj _).mp level
  · intro caller instruction fetching found call behind calls
    have pushes : call.pushed caller.registers behind = some behind := by
      rcases calls with ⟨condition, same, holds⟩ | ⟨index, same⟩
      · rw [same]
        exact if_pos holds
      · rw [same]
        rfl
    obtain ⟨entered, entry⟩ := stackStep fetching found
    refine ⟨?_, entered, entry, ?_⟩
    · intro advancing
      simp only [behind, behindOpcode_of_advancing advancing]
      grind
    · intro body leaving returning within matched again following returns
      obtain ⟨left, exit⟩ := stackStep again following
      have pops : returning.operation.pops leaving.registers = true ∧
          ∀ target, returning.operation ≠ .pop target := by
        rcases returns with same | ⟨condition, same, holds⟩
        · rw [same]
          exact ⟨rfl, nofun⟩
        · rw [same]
          exact ⟨holds, nofun⟩
      have room : ([] : Waiting).length < 0x8000 := by decide
      have some : unmatched [(call, behind)] body ≠ [] := by
        rw [matched]
        exact nofun
      have through := (entry.pushes pushes room).trans (within.trans (exit.pops pops.1 some))
      obtain ⟨got, sp⟩ := through.returned matched
      refine ⟨left, exit, ?_, sp⟩
      rw [Operation.received_of_ne (pops.2 _), Registers.destination_of_ne pops.2] at got
      exact got

/-- BC is pushed where the stack pointer wraps, and popped into AF. -/
theorem stack_discipline_wraps :
    ∃ (start now : Wired Ram) (result : UInt16), start.registers.sp = 1 ∧
      start.registers.bc = 0x12FF ∧ start.StackRun []
        [.pushed (.push .bc) 0x12FF, .popped (.pop .af) result] now ∧
      result = 0x12F0 ∧ now.registers.sp = 1 := by
  let start : Wired Ram := { cpu := .withRegisters { sp := 1, b := 0x12, c := 0xFF }, bus := .zero }
  have room : ([] : Waiting).length < 0x8000 := by decide
  have whole : join 0x12 0xFF = 0x12FF := by decide
  have masked : (0x12FF : UInt16) &&& 0xFFF0 = 0x12F0 := by decide
  have pushed : start.StackRun [] [.pushed (.push .bc) 0x12FF] (start.perform (.push .bc)) :=
    StackRun.start.push (congrArg some whole) room
  have run := pushed.pop (rfl : Operation.pops (.pop .af) _ = true) nofun
  obtain ⟨yields, level, _⟩ := stack_discipline run
  obtain ⟨source, value, _, top, got⟩ := yields [.pushed (.push .bc) 0x12FF] _ _ [] rfl
  cases top
  exact ⟨start, _, _, rfl, whole, run, got.trans masked, level rfl⟩

end Wired

end Dmg
