import Dmg.Cpu.Decode
import Dmg.Memory.Ram
import Dmg.Proofs.Run

/-!
One instruction from its fetch to the poll that ends it.  The ticks in between come to the same as
the whole effect at once: the fetch, the operation with its branch, and the expiry of a delay.
-/

namespace Dmg

namespace Wired

variable {β : Type}

/-- The address behind the opcode byte, or the opcode's own while the program counter is held. -/
def behindOpcode (wired : Wired β) : UInt16 :=
  if wired.cpu.haltBug then wired.registers.pc else wired.registers.pc + 1

theorem behindOpcode_of_advancing {wired : Wired β} (advancing : wired.cpu.haltBug = false) :
    wired.behindOpcode = wired.registers.pc + 1 := by
  rw [behindOpcode, advancing]
  rfl

variable [Bus β]

def instruction? (wired : Wired β) : Option Instruction :=
  let (opcode, bus) := Bus.read wired.bus wired.registers.pc
  if opcode = extendedOpcode then some (.ofExtended (Bus.read bus wired.behindOpcode).1)
  else Instruction.base? opcode

def fetchedBus (wired : Wired β) : β :=
  let (opcode, bus) := Bus.read wired.bus wired.registers.pc
  if opcode = extendedOpcode then (Bus.read bus wired.behindOpcode).2 else bus

theorem extended_instruction? {wired : Wired β} {instruction : Instruction}
    (found : wired.instruction? = some instruction) :
    instruction.extended =
      ((Bus.read wired.bus wired.registers.pc).1 == extendedOpcode) := by
  simp only [instruction?] at found
  split at found
  · rename_i announced
    cases found
    simp [announced, Instruction.ofExtended]
  · rename_i plain
    simp only [Instruction.base?, Option.map_eq_some_iff] at found
    obtain ⟨operation, _, rfl⟩ := found
    simp [plain]

theorem instruction?_of_decode {wired : Wired β} {opcode : UInt8} {operation : Operation}
    (read : (Bus.read wired.bus wired.registers.pc).1 = opcode)
    (decoded : decode? opcode = some operation) :
    wired.instruction? = some { opcode, extended := false, operation } := by
  have plain : opcode ≠ extendedOpcode := by
    rintro rfl
    cases decode?_extendedOpcode.symm.trans decoded
  simp only [instruction?, read, plain, if_false, Instruction.base?, decoded, Option.map_some]

omit [Bus β] in
theorem passOpcode_eq (wired : Wired β) :
    wired.passOpcode =
      { wired with cpu.haltBug := false, cpu.registers.pc := wired.behindOpcode } := by
  obtain ⟨⟨registers, phase, halted, haltBug, enableDelay, clock, fetches⟩, bus⟩ := wired
  cases haltBug <;> rfl

theorem fetch_eq {wired : Wired β} {instruction : Instruction}
    (found : wired.instruction? = some instruction) :
    wired.fetch = (.ok (),
      { cpu := { wired.cpu with
          registers := { wired.registers with
            pc := wired.behindOpcode + if instruction.extended then 1 else 0 }
          phase := .executing (instruction.operation.cycles - 1) (.operation instruction.operation)
          haltBug := false
          fetches := wired.cpu.fetches.map
            (·.push ⟨wired.registers.pc, instruction, wired.registers⟩) }
        bus := wired.fetchedBus }) := by
  have extended := extended_instruction? found
  simp only [instruction?] at found
  simp only [fetch, fetchedBus]
  by_cases announced : (Bus.read wired.bus wired.registers.pc).1 = extendedOpcode
  · have announced' : (wired.read wired.registers.pc).1 = extendedOpcode := announced
    simp only [announced, if_true, Option.some.injEq] at found
    simp only [announced, announced', if_true, passOpcode_eq, extended, beq_self_eq_true]
    subst found
    rfl
  · have announced' : (wired.read wired.registers.pc).1 ≠ extendedOpcode := announced
    have found' : Instruction.base? (wired.read wired.registers.pc).1 = some instruction := by
      simp only [announced, if_false] at found
      exact found
    simp only [announced, announced', if_false, found', passOpcode_eq, extended,
      beq_eq_false_iff_ne.mpr announced, Bool.false_eq_true, UInt16.add_zero]
    rfl

theorem fetch_none {wired : Wired β} (missing : wired.instruction? = none) :
    wired.fetch = (.error (.illegalOpcode (Bus.read wired.bus wired.registers.pc).1
      wired.registers.pc), (wired.read wired.registers.pc).2) := by
  simp only [instruction?] at missing
  by_cases announced : (Bus.read wired.bus wired.registers.pc).1 = extendedOpcode
  · simp [announced] at missing
  · have announced' : (wired.read wired.registers.pc).1 ≠ extendedOpcode := announced
    have missing' : Instruction.base? (wired.read wired.registers.pc).1 = none := by
      simp only [announced, if_false] at missing
      exact missing
    simp only [fetch, announced', if_false, missing']
    rfl

/-- The processor as the instruction it is about to fetch leaves it for the poll at its end. -/
def conclude (wired : Wired β) (operation : Operation) : Wired β :=
  (wired.fetch.2.perform operation).expireDelay

def duration (wired : Wired β) (operation : Operation) : Nat :=
  operation.cycles + operation.penalty wired.registers

/-- How the ticks of an instruction go: they only count, apart from the one on which the cost of the
operation is over and the last, and the last polls what the whole effect at once leaves. -/
structure Runs (wired : Wired β) (operation : Operation) : Prop where
  counts : ∀ count, count ≠ 0 → count + 1 ≠ operation.cycles →
    count + 1 < wired.duration operation → wired.after (count + 1) = (wired.after count).elapse 1
  within : ∀ count, count + 1 < wired.duration operation →
    (wired.after count).tick.1 = .ok .within
  retires : ∃ phase, (wired.after (wired.duration operation - 1)).Retires
    ((wired.conclude operation).retime phase
      (wired.cpu.clock.advanceBy (wired.duration operation - 1)))

theorem after_stretch {wired start : Wired β} {first count : Nat}
    (started : wired.after first = start) (counting : count < start.cpu.phase.remaining) :
    wired.after (first + count) = start.elapse count := by
  rw [after_add, started, after_counting counting]

theorem within_stretch {wired start : Wired β} {first count : Nat}
    (started : wired.after first = start) (counting : count + 1 < start.cpu.phase.remaining) :
    (wired.after (first + count)).tick = (.ok .within, (wired.after (first + count)).elapse 1) := by
  rw [after_add, started, within_of_counting counting, after_counting counting,
    after_counting (by omega), elapse_elapse]

theorem penalty_fetch {wired : Wired β} {instruction : Instruction}
    (found : wired.instruction? = some instruction) :
    instruction.operation.penalty wired.registers =
      instruction.operation.penalty wired.fetch.2.registers := by
  rw [fetch_eq found]
  exact Operation.penalty_congr _ rfl

theorem after_one {wired : Wired β} {instruction : Instruction}
    (fetching : wired.cpu.phase = .fetching) (found : wired.instruction? = some instruction) :
    wired.after 1 = wired.fetch.2.retime
      (.executing (instruction.operation.cycles - 1) (.operation instruction.operation))
      (wired.cpu.clock.advanceBy 1) := by
  change wired.tick.2 = _
  simp only [tick, fetching, fetch_eq found]
  rfl

theorem tick_fetching {wired : Wired β} {instruction : Instruction}
    (fetching : wired.cpu.phase = .fetching) (found : wired.instruction? = some instruction) :
    wired.tick.1 = .ok .within := by
  simp only [tick, fetching, fetch_eq found]

theorem after_cost {wired : Wired β} {instruction : Instruction}
    (fetching : wired.cpu.phase = .fetching) (found : wired.instruction? = some instruction) :
    wired.after (instruction.operation.cycles - 1) = wired.fetch.2.retime
      (.executing 1 (.operation instruction.operation))
      (wired.cpu.clock.advanceBy (instruction.operation.cycles - 1)) := by
  have cost := instruction.operation.cycles_ge_four
  have place : 1 + (instruction.operation.cycles - 2) = instruction.operation.cycles - 1 := by omega
  have left : instruction.operation.cycles - 1 - (instruction.operation.cycles - 2) = 1 := by omega
  rw [← place, after_stretch (after_one fetching found)]
  · simp only [elapse, retime, Phase.elapse, left, Clock.advanceBy_advanceBy]
  · change instruction.operation.cycles - 2 < instruction.operation.cycles - 1
    omega

theorem tick_branch {wired : Wired β} {instruction : Instruction} {jump : Jump}
    (fetching : wired.cpu.phase = .fetching) (found : wired.instruction? = some instruction)
    (taken : (wired.fetch.2.execute instruction.operation).1 = some jump) :
    (wired.after (instruction.operation.cycles - 1)).tick =
      (.ok .within, (wired.fetch.2.execute instruction.operation).2.retime
        (.executing jump.delay (.jump jump))
        (wired.cpu.clock.advanceBy instruction.operation.cycles)) := by
  have cost := instruction.operation.cycles_ge_four
  have place : instruction.operation.cycles - 1 + 1 = instruction.operation.cycles := by omega
  have time := Clock.advance_advanceBy wired.cpu.clock (instruction.operation.cycles - 1)
  have later := execute_retime wired.fetch.2 instruction.operation
    (.executing 1 (.operation instruction.operation))
    (wired.cpu.clock.advanceBy (instruction.operation.cycles - 1))
  rw [place] at time
  rw [after_cost fetching found,
    tick_of_branch ((congrArg Prod.fst later).trans taken) rfl (Nat.le_refl 1), later, ← time]
  rfl

theorem tick_opening {wired : Wired β} {instruction : Instruction} {count : Nat}
    (fetching : wired.cpu.phase = .fetching) (found : wired.instruction? = some instruction)
    (started : count ≠ 0) (before : count + 1 < instruction.operation.cycles) :
    (wired.after count).tick = (.ok .within, (wired.after count).elapse 1) := by
  obtain ⟨count, rfl⟩ := Nat.exists_eq_succ_of_ne_zero started
  rw [Nat.succ_eq_one_add]
  apply within_stretch (after_one fetching found)
  change count + 1 < instruction.operation.cycles - 1
  omega

theorem runs_straight {wired : Wired β} {instruction : Instruction}
    (fetching : wired.cpu.phase = .fetching) (found : wired.instruction? = some instruction)
    (straight : (wired.fetch.2.execute instruction.operation).1 = none) :
    wired.Runs instruction.operation := by
  have total : wired.duration instruction.operation = instruction.operation.cycles := by
    rw [duration, penalty_fetch found, penalty_of_straight straight]
    rfl
  refine ⟨?_, ?_, .executing 1 (.operation instruction.operation), ?_⟩
  · intro count started _ before
    rw [after, tick_opening fetching found started (by omega)]
  · intro count before
    by_cases started : count = 0
    · subst started
      exact tick_fetching fetching found
    · rw [tick_opening fetching found started (by omega)]
  · rw [total, after_cost fetching found]
    exact retires_operation straight _

theorem runs_branch {wired : Wired β} {instruction : Instruction} {jump : Jump}
    (fetching : wired.cpu.phase = .fetching) (found : wired.instruction? = some instruction)
    (taken : (wired.fetch.2.execute instruction.operation).1 = some jump) :
    wired.Runs instruction.operation := by
  have cost := instruction.operation.cycles_ge_four
  have total : wired.duration instruction.operation =
      instruction.operation.cycles + jump.delay := by
    rw [duration, penalty_fetch found, penalty_of_branch taken]
  have late : 4 ≤ jump.delay := by cases jump <;> simp [Jump.delay]
  have branched := tick_branch fetching found taken
  -- The late half begins where the cost of the operation is over, and counts down like any phase.
  have second : wired.after (instruction.operation.cycles - 1 + 1) =
      (wired.fetch.2.execute instruction.operation).2.retime (.executing jump.delay (.jump jump))
        (wired.cpu.clock.advanceBy instruction.operation.cycles) := by
    rw [after, branched]
  rw [Nat.sub_add_cancel (by omega)] at second
  have closing : ∀ count, instruction.operation.cycles ≤ count →
      count + 1 < instruction.operation.cycles + jump.delay →
      (wired.after count).tick = (.ok .within, (wired.after count).elapse 1) := by
    intro count started before
    obtain ⟨count, rfl⟩ := Nat.exists_eq_add_of_le started
    apply within_stretch second
    change count + 1 < jump.delay
    omega
  refine ⟨?_, ?_, .executing 1 (.jump jump), ?_⟩
  · intro count started apart before
    by_cases early : count + 1 < instruction.operation.cycles
    · rw [after, tick_opening fetching found started early]
    · rw [after, closing count (by omega) (by omega)]
  · intro count before
    by_cases started : count = 0
    · subst started
      exact tick_fetching fetching found
    · by_cases early : count + 1 < instruction.operation.cycles
      · rw [tick_opening fetching found started early]
      · by_cases due : count + 1 = instruction.operation.cycles
        · obtain rfl : count = instruction.operation.cycles - 1 := by omega
          rw [branched]
        · rw [closing count (by omega) (by omega)]
  · have left : jump.delay - (jump.delay - 1) = 1 := by omega
    rw [total, Nat.add_sub_assoc (by omega), after_stretch second]
    · simp only [elapse, retime, Phase.elapse, left, Clock.advanceBy_advanceBy, conclude,
        perform_of_branch taken]
      exact retires_jump _ jump _
    · change jump.delay - 1 < jump.delay
      omega

theorem runs_instruction {wired : Wired β} {instruction : Instruction}
    (fetching : wired.cpu.phase = .fetching) (found : wired.instruction? = some instruction) :
    wired.Runs instruction.operation := by
  cases executed : (wired.fetch.2.execute instruction.operation).1 with
  | none => exact runs_straight fetching found executed
  | some jump => exact runs_branch fetching found executed

theorem Runs.step {wired : Wired β} {operation : Operation} (runs : wired.Runs operation) :
    ∃ polled phase, (wired.after (wired.duration operation - 1)).Retires polled ∧
      polled = (wired.conclude operation).retime phase
        (wired.cpu.clock.advanceBy (wired.duration operation - 1)) ∧
      wired.step = (.ok (wired.duration operation), polled.retire.count) := by
  have cost := operation.cycles_ge_four
  obtain ⟨phase, retires⟩ := runs.retires
  refine ⟨_, phase, retires, rfl, ?_⟩
  have total : wired.duration operation = wired.duration operation - 1 + 1 := by
    simp only [duration]
    omega
  rw [total]
  apply step_of_after
  · intro earlier bound
    exact runs.within earlier (by omega)
  · exact step_of_retires retires

/-! On flat memory a read changes nothing. -/

theorem pending_ram (wired : Wired Ram) :
    wired.pending = (wired.bus.get Interrupt.enableAddress &&&
      wired.bus.get Interrupt.requestAddress &&& Interrupt.allMask, wired) := rfl

theorem fetchedBus_ram (wired : Wired Ram) : wired.fetchedBus = wired.bus := by
  simp only [fetchedBus, Ram.read_eq]
  split <;> rfl

theorem get_acknowledge_pushWord (ram : Ram) {sp : UInt16} (value : UInt16) (interrupt : Interrupt)
    (highApart : sp - 1 ≠ Interrupt.requestAddress) (lowApart : sp - 2 ≠ Interrupt.requestAddress)
    (address : UInt16) :
    (acknowledge (pushWord ram sp value) interrupt).get address =
      if address = Interrupt.requestAddress then
        ram.get Interrupt.requestAddress &&& ~~~interrupt.mask
      else if address = sp - 2 then lowByte value
      else if address = sp - 1 then highByte value
      else ram.get address := by
  simp only [acknowledge, pushWord, Ram.read_eq, Ram.write_eq, Ram.get_set, highApart, lowApart,
    if_false, eq_comm]

def requested (first second : UInt8) : Wired Ram :=
  { cpu := { registers := { sp := 0xFFFE } }
    bus := ((Ram.zero.load 0 [first, second]).set Interrupt.enableAddress 1).set
      Interrupt.requestAddress 1 }

theorem requested_get (first second : UInt8) :
    (requested first second).bus.get 0 = first ∧ (requested first second).bus.get 1 = second ∧
      (requested first second).bus.get Interrupt.enableAddress = 1 ∧
      (requested first second).bus.get Interrupt.requestAddress = 1 := by
  simp [requested, Ram.load, Ram.get_set, Interrupt.enableAddress, Interrupt.requestAddress]

theorem requested_pending {wired : Wired Ram} {first second : UInt8}
    (same : wired.bus = (requested first second).bus) : wired.pending.1 = 1 := by
  obtain ⟨_, _, enabled, request⟩ := requested_get first second
  rw [pending_ram, same, enabled, request]
  rfl

end Wired

end Dmg
