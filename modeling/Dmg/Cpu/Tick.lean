import Dmg.Cpu.Decode
import Dmg.Cpu.Execute

/-!
The processor cycle by cycle.  An operation takes effect on the last cycle of its cost, a taken
branch on the last of its extra cycles, and interrupts are looked at only when an instruction or a
halted period ends.  `phase_bound_tick` bounds the ticks to the next boundary, which makes `step`
total.
-/

namespace Dmg

def dispatchCycles : Nat := 20

def haltCycles : Nat := 4

namespace Wired

variable {β : Type}

@[inline] def enter (wired : Wired β) (phase : Phase) : Wired β :=
  { wired with cpu.phase := phase }

@[inline] def count (wired : Wired β) : Wired β :=
  { wired with cpu.clock := wired.cpu.clock.advance }

def passOpcode (wired : Wired β) : Wired β :=
  if wired.cpu.haltBug then { wired with cpu.haltBug := false }
  else
    let (_, registers) := wired.registers.advance .pc
    wired.setRegisters registers

def record (wired : Wired β) (fetch : Fetch) : Wired β :=
  match wired with
  | ⟨⟨registers, phase, halted, haltBug, enableDelay, clock, fetches⟩, bus⟩ =>
      ⟨⟨registers, phase, halted, haltBug, enableDelay, clock, fetches.map (·.push fetch)⟩, bus⟩

def start (wired : Wired β) (fetch : Fetch) : Wired β :=
  let operation := fetch.instruction.operation
  (wired.record fetch).enter (.executing (operation.cycles - 1) (.operation operation))

def expireDelay (wired : Wired β) : Wired β :=
  match wired.cpu.enableDelay with
  | 0 => wired
  | 1 => { wired with cpu.enableDelay := 0, cpu.registers.ime := true }
  | delay + 2 => { wired with cpu.enableDelay := delay + 1 }

variable [Bus β]

def fetch (wired : Wired β) : Except Fault Unit × Wired β :=
  let registers := wired.registers
  let address := registers.pc
  let (opcode, wired) := wired.read address
  if opcode = extendedOpcode then
    let (second, wired) := wired.passOpcode.nextByte
    (.ok (), wired.start { address, instruction := .ofExtended second, registers })
  else
    match Instruction.base? opcode with
    | some instruction => (.ok (), wired.passOpcode.start { address, instruction, registers })
    | none => (.error (.illegalOpcode opcode address), wired)

/-- Takes an interrupt: pushes the return address, jumps to the vector and clears the request.  A
halt whose bug is pending is returned to, and so executed again. -/
def dispatch (wired : Wired β) (interrupt : Interrupt) : Wired β :=
  let pc := wired.registers.pc
  let back := if wired.cpu.haltBug then pc - 1 else pc
  let wired := { wired with
    cpu.halted := false, cpu.haltBug := false, cpu.enableDelay := 0, cpu.registers.ime := false }
  let wired := wired.push back
  let wired := { wired with cpu.registers.pc := interrupt.vector }
  let (requested, wired) := wired.read Interrupt.requestAddress
  (wired.write Interrupt.requestAddress (requested &&& ~~~interrupt.mask)).enter
    (.executing dispatchCycles .idle)

/-- Ends an instruction or a halted period: takes an interrupt, wakes up, stays halted, or goes on
to the next fetch. -/
def retire (wired : Wired β) : Wired β :=
  let (pending, wired) := wired.pending
  match Interrupt.first? pending with
  | some interrupt =>
      if wired.registers.ime then wired.dispatch interrupt
      else if wired.cpu.halted then
        { wired with
          cpu.halted := false, cpu.haltBug := true, cpu.phase := .executing haltCycles .idle }
      else wired.enter .fetching
  | none =>
      if wired.cpu.halted then wired.enter (.halted haltCycles) else wired.enter .fetching

def complete (wired : Wired β) : Stage → Progress × Wired β
  | .operation operation =>
      match wired.execute operation with
      | (some jump, wired) => (.within, wired.enter (.executing jump.delay (.jump jump)))
      | (none, wired) => (.boundary, wired.expireDelay.retire)
  | .jump jump => (.boundary, (wired.land jump).expireDelay.retire)
  | .idle => (.boundary, wired.retire)

/-- Advances the processor by one cycle.  A fault leaves the processor as it was. -/
def tick (wired : Wired β) : Except Fault Progress × Wired β :=
  match wired.cpu.phase with
  | .fetching =>
      match wired.fetch with
      | (.ok _, wired) => (.ok .within, wired.count)
      | (.error fault, wired) => (.error fault, wired)
  | .executing remaining stage =>
      if 1 < remaining then
        (.ok .within, (wired.enter (.executing (remaining - 1) stage)).count)
      else
        let (progress, wired) := wired.complete stage
        (.ok progress, wired.count)
  | .halted remaining =>
      if 1 < remaining then (.ok .within, (wired.enter (.halted (remaining - 1))).count)
      else (.ok .boundary, wired.retire.count)

theorem phase_bound_fetch (wired next : Wired β) (fetched : wired.fetch = (.ok (), next)) :
    next.cpu.phase.bound < 40 := by
  have started : ∀ (before : Wired β) (fetch : Fetch), (before.start fetch).cpu.phase.bound < 40 := by
    intro before fetch
    have costBound := fetch.instruction.operation.cycles_le_twenty
    simp only [start, enter, Phase.bound]
    omega
  simp only [Wired.fetch] at fetched
  split at fetched
  · cases fetched
    exact started _ _
  · split at fetched
    · cases fetched
      exact started _ _
    · cases fetched

theorem phase_bound_complete (wired next : Wired β) (stage : Stage)
    (completed : wired.complete stage = (.within, next)) :
    ∃ operation, stage = .operation operation ∧ next.cpu.phase.bound ≤ 12 := by
  cases stage with
  | operation operation =>
      simp only [complete] at completed
      split at completed
      · rename_i jump after executed
        cases completed
        refine ⟨operation, rfl, ?_⟩
        cases jump <;> simp [enter, Phase.bound, Jump.delay]
      · cases completed
  | jump jump => cases completed
  | idle => cases completed

theorem phase_bound_tick (wired next : Wired β) (ticked : wired.tick = (.ok .within, next)) :
    next.cpu.phase.bound < wired.cpu.phase.bound := by
  simp only [tick] at ticked
  split at ticked
  · rename_i phaseEq
    rw [phaseEq]
    split at ticked
    · rename_i after fetched
      cases ticked
      exact phase_bound_fetch wired after fetched
    · cases ticked
  · rename_i remaining stage phaseEq
    rw [phaseEq]
    split at ticked
    · cases ticked
      cases stage <;> simp only [count, enter, Phase.bound] <;> omega
    · simp only [Prod.mk.injEq, Except.ok.injEq] at ticked
      obtain ⟨within, rfl⟩ := ticked
      have completed : wired.complete stage = (.within, (wired.complete stage).2) := by
        rw [← within]
      obtain ⟨operation, rfl, phaseBound⟩ := phase_bound_complete wired _ stage completed
      change (wired.complete (.operation operation)).2.cpu.phase.bound < remaining + 20
      omega
  · rename_i remaining phaseEq
    rw [phaseEq]
    split at ticked
    · cases ticked
      simp only [count, enter, Phase.bound]
      omega
    · cases ticked

/-- Runs to the next instruction boundary; the value is the number of ticks it took. -/
def step (wired : Wired β) : Except Fault Nat × Wired β :=
  match _ : wired.tick with
  | (.ok .boundary, next) => (.ok 1, next)
  | (.ok .within, next) =>
      match next.step with
      | (.ok ticks, last) => (.ok (ticks + 1), last)
      | (.error fault, last) => (.error fault, last)
  | (.error fault, next) => (.error fault, next)
termination_by wired.cpu.phase.bound
decreasing_by exact phase_bound_tick wired next (by assumption)

end Wired

end Dmg
