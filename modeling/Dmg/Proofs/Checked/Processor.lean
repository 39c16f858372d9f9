import Dmg.Proofs.Checked.Arithmetic
import Dmg.Proofs.MachineTick

/-!
The processor with every sum, difference, shift and table look-up checked.  In every state a tick
that does not fill its clock passes all checks, and it is the tick without them.
-/

namespace Dmg

open Checked

def lowestBit (byte : UInt8) : Nat :=
  ((List.range 8).find? fun place => byte.toNat.testBit place).getD 8

def Interrupt.vectors : List UInt16 := [0x40, 0x48, 0x50, 0x58, 0x60]

theorem lowestBit_of_first? {pending : UInt8} {interrupt : Interrupt}
    (first : Interrupt.first? pending = some interrupt) :
    lowestBit pending = interrupt.index.val := by
  have table : ∀ index : Fin 256, ∀ interrupt ∈ Interrupt.first? (UInt8.ofNat index.val),
      lowestBit (UInt8.ofNat index.val) = interrupt.index.val := by decide +kernel
  have entry := table ⟨pending.toNat, pending.toNat_lt⟩ interrupt
  rw [UInt8.ofNat_toNat] at entry
  exact entry first

theorem Interrupt.vectors_index (interrupt : Interrupt) :
    Interrupt.vectors[interrupt.index.val]? = some interrupt.vector := by
  cases interrupt <;> rfl

namespace Wired

variable {β : Type}

def count? (wired : Wired β) : Option (Wired β) := do
  let cycles ← sum 64 wired.cpu.clock.cycles 1
  some { wired with cpu.clock := ⟨cycles⟩ }

def start? (wired : Wired β) (fetch : Fetch) : Option (Wired β) := do
  let operation := fetch.instruction.operation
  let remaining ← difference operation.cycles 1
  some ((wired.record fetch).enter (.executing remaining (.operation operation)))

def expireDelay? (wired : Wired β) : Option (Wired β) :=
  if 0 < wired.cpu.enableDelay then do
    let delay ← difference wired.cpu.enableDelay 1
    some { wired with
      cpu.enableDelay := delay, cpu.registers.ime := delay == 0 || wired.registers.ime }
  else some wired

variable [Bus β]

def fetch? (wired : Wired β) : Option (Except Fault Unit × Wired β) :=
  let registers := wired.registers
  let address := registers.pc
  let (opcode, wired) := wired.read address
  if opcode = extendedOpcode then
    let (second, wired) := wired.passOpcode.nextByte
    (wired.start? { address, instruction := .ofExtended second, registers }).map (.ok (), ·)
  else
    match Instruction.base? opcode with
    | some instruction =>
        (wired.passOpcode.start? { address, instruction, registers }).map (.ok (), ·)
    | none => some (.error (.illegalOpcode opcode address), wired)

def applyArithmetic? (wired : Wired β) (operation : Arithmetic) (value : UInt8) :
    Option (Wired β) := do
  let registers := wired.registers
  let result ← operation.result? registers.a value registers.flags.carry
  some (wired.setResult result)

/-- The effect of an operation.  Those without arithmetic have nothing to check. -/
def execute? (wired : Wired β) (operation : Operation) : Option (Option Jump × Wired β) :=
  match operation with
  | .loadHlSp => do
      let (offset, wired) := wired.nextByte
      let result ← Alu.addOffset? wired.registers.sp offset
      some (none, (wired.mapRegisters (·.setPair .hl result.value)).setFlags result.flags)
  | .arithmetic operation source => do
      let (value, wired) := wired.loadSlot source
      let wired ← wired.applyArithmetic? operation value
      some (none, wired)
  | .arithmeticByte operation => do
      let (value, wired) := wired.nextByte
      let wired ← wired.applyArithmetic? operation value
      some (none, wired)
  | .addHl source => do
      let registers := wired.registers
      let result ← Alu.addWord? registers.hl (registers.getPair source)
      some (none, (wired.mapRegisters (·.setPair .hl result.value)).setFlags
        (keepZero registers.flags result.flags))
  | .addSp => do
      let (offset, wired) := wired.nextByte
      let result ← Alu.addOffset? wired.registers.sp offset
      some (none, (wired.mapRegisters (·.setPair .sp result.value)).setFlags result.flags)
  | .rotateA rotation => do
      let registers := wired.registers
      let result ← rotation.result? registers.a registers.flags.carry
      some (none, wired.setResult { result with flags.zero := false })
  | .shift kind target => do
      let carry := wired.registers.flags.carry
      let (value, wired) := wired.loadSlot target
      let result ← kind.result? value carry
      some (none, (wired.storeSlot target result.value).setFlags result.flags)
  | .testBit index source => do
      let flags := wired.registers.flags
      let (value, wired) := wired.loadSlot source
      let mask ← Alu.bitMask? index.val
      some (none, wired.setFlags
        (keepCarry flags { zero := value &&& mask == 0, halfCarry := true }))
  | .resetBit index target => do
      let (value, wired) := wired.loadSlot target
      let mask ← Alu.bitMask? index.val
      some (none, wired.storeSlot target (value &&& ~~~mask))
  | .setBit index target => do
      let (value, wired) := wired.loadSlot target
      let mask ← Alu.bitMask? index.val
      some (none, wired.storeSlot target (value ||| mask))
  | operation => some (wired.execute operation)

def dispatch? (wired : Wired β) (pending : UInt8) : Option (Wired β) := do
  let bit := lowestBit pending
  let pc := wired.registers.pc
  let back := if wired.cpu.haltBug then pc - 1 else pc
  let wired := { wired with
    cpu.halted := false, cpu.haltBug := false, cpu.enableDelay := 0, cpu.registers.ime := false }
  let wired := wired.push back
  let vector ← Interrupt.vectors[bit]?
  let wired := { wired with cpu.registers.pc := vector }
  let (requested, wired) := wired.read Interrupt.requestAddress
  let mask ← shiftLeft 1 bit
  some ((wired.write Interrupt.requestAddress (requested &&& ~~~mask)).enter
    (.executing dispatchCycles .idle))

def retire? (wired : Wired β) : Option (Wired β) :=
  let (pending, polled) := wired.pending
  if pending ≠ 0 ∧ polled.registers.ime = true then polled.dispatch? pending
  else some wired.retire

def complete? (wired : Wired β) : Stage → Option (Progress × Wired β)
  | .operation operation => do
      match ← wired.execute? operation with
      | (some jump, wired) => some (.within, wired.enter (.executing jump.delay (.jump jump)))
      | (none, wired) =>
          let wired ← wired.expireDelay?
          let wired ← wired.retire?
          some (.boundary, wired)
  | .jump jump => do
      let wired ← (wired.land jump).expireDelay?
      let wired ← wired.retire?
      some (.boundary, wired)
  | .idle => do
      let wired ← wired.retire?
      some (.boundary, wired)

def tick? (wired : Wired β) : Option (Except Fault Progress × Wired β) :=
  match wired.cpu.phase with
  | .fetching => do
      match ← wired.fetch? with
      | (.ok _, wired) =>
          let wired ← wired.count?
          some (.ok .within, wired)
      | (.error fault, wired) => some (.error fault, wired)
  | .executing remaining stage =>
      if 1 < remaining then do
        let left ← difference remaining 1
        let wired ← (wired.enter (.executing left stage)).count?
        some (.ok .within, wired)
      else do
        let (progress, wired) ← wired.complete? stage
        let wired ← wired.count?
        some (.ok progress, wired)
  | .halted remaining =>
      if 1 < remaining then do
        let left ← difference remaining 1
        let wired ← (wired.enter (.halted left)).count?
        some (.ok .within, wired)
      else do
        let wired ← wired.retire?
        let wired ← wired.count?
        some (.ok .boundary, wired)

/-! The checks pass. -/

section Steps

omit [Bus β]

theorem count?_eq {wired : Wired β} (room : wired.cpu.clock.cycles + 1 < 2 ^ 64) :
    wired.count? = some wired.count := by
  simp only [count?, sum_eq room, Option.bind_eq_bind, Option.bind_some]
  rfl

theorem start?_eq (wired : Wired β) (fetch : Fetch) :
    wired.start? fetch = some (wired.start fetch) := by
  have cost := fetch.instruction.operation.cycles_ge_four
  have enough : 1 ≤ fetch.instruction.operation.cycles := by omega
  simp only [start?, difference_eq enough, Option.bind_eq_bind, Option.bind_some]
  rfl

theorem expireDelay?_eq (wired : Wired β) : wired.expireDelay? = some wired.expireDelay := by
  obtain ⟨⟨registers, phase, halted, haltBug, enableDelay, clock, fetches⟩, bus⟩ := wired
  match enableDelay with
  | 0 => rfl
  | 1 => rfl
  | delay + 2 => rfl

theorem applyArithmetic?_eq (wired : Wired β) (operation : Arithmetic) (value : UInt8) :
    wired.applyArithmetic? operation value = some (wired.applyArithmetic operation value) := by
  simp only [applyArithmetic?, Arithmetic.result?_eq, Option.bind_eq_bind, Option.bind_some]
  rfl

end Steps

theorem fetch?_eq (wired : Wired β) : wired.fetch? = some wired.fetch := by
  simp only [fetch?, fetch, start?_eq, Option.map_some]
  split
  · rfl
  · cases Instruction.base? (wired.read wired.registers.pc).1 <;> rfl

theorem execute?_eq (wired : Wired β) (operation : Operation) :
    wired.execute? operation = some (wired.execute operation) := by
  cases operation with
  | loadHlSp | addSp =>
      simp only [execute?, Alu.addOffset?_eq, Option.bind_eq_bind, Option.bind_some]
      rfl
  | arithmetic | arithmeticByte =>
      simp only [execute?, applyArithmetic?_eq, Option.bind_eq_bind, Option.bind_some]
      rfl
  | addHl =>
      simp only [execute?, Alu.addWord?_eq, Option.bind_eq_bind, Option.bind_some]
      rfl
  | rotateA =>
      simp only [execute?, Rotation.result?_eq, Option.bind_eq_bind, Option.bind_some]
      rfl
  | shift =>
      simp only [execute?, Shift.result?_eq, Option.bind_eq_bind, Option.bind_some]
      rfl
  | testBit | resetBit | setBit =>
      simp only [execute?, Alu.bitMask?_eq, Option.bind_eq_bind, Option.bind_some]
      rfl
  | _ => rfl

theorem dispatch?_eq (wired : Wired β) {pending : UInt8} {interrupt : Interrupt}
    (first : Interrupt.first? pending = some interrupt) :
    wired.dispatch? pending = some (wired.dispatch interrupt) := by
  have place : interrupt.index.val < 8 := by omega
  simp only [dispatch?, lowestBit_of_first? first, Interrupt.vectors_index, shiftLeft_eq 1 place,
    Option.bind_eq_bind, Option.bind_some]
  rfl

theorem retire?_eq (wired : Wired β) : wired.retire? = some wired.retire := by
  change (if wired.pending.1 ≠ 0 ∧ wired.pending.2.registers.ime = true then
    wired.pending.2.dispatch? wired.pending.1 else some wired.retire) = _
  split
  · rename_i taken
    obtain ⟨interrupt, first, dispatched⟩ : ∃ interrupt, _ ∧ wired.retire = _ :=
      retire_dispatch taken.2 taken.1
    rw [dispatch?_eq _ first, dispatched]
  · rfl

theorem complete?_eq (wired : Wired β) (stage : Stage) :
    wired.complete? stage = some (wired.complete stage) := by
  cases stage with
  | operation operation =>
      simp only [complete?, execute?_eq, expireDelay?_eq, retire?_eq, Option.bind_eq_bind,
        Option.bind_some, complete]
      rcases wired.execute operation with ⟨_ | jump, after⟩ <;> rfl
  | jump | idle =>
      simp only [complete?, expireDelay?_eq, retire?_eq, Option.bind_eq_bind, Option.bind_some,
        complete]

/-- A tick leaves no range, as long as the clock does not run full. -/
theorem tick?_eq {wired : Wired β} (fits : wired.tick.2.cpu.clock.cycles < 2 ^ 64) :
    wired.tick? = some wired.tick := by
  revert fits
  simp only [tick?, tick]
  cases wired.cpu.phase with
  | fetching =>
      rw [fetch?_eq, Option.bind_eq_bind, Option.bind_some]
      rcases wired.fetch with ⟨_ | _, after⟩ <;> intro fits
      · rfl
      · have counted : after.count? = some after.count := count?_eq fits
        simp only [counted, Option.bind_eq_bind, Option.bind_some]
  | executing remaining stage =>
      by_cases more : 1 < remaining <;> simp only [more, if_true, if_false] <;> intro fits
      · have counted : (wired.enter (.executing (remaining - 1) stage)).count? = some _ :=
          count?_eq fits
        simp only [difference_eq (Nat.le_of_lt more), counted, Option.bind_eq_bind,
          Option.bind_some]
      · have counted : (wired.complete stage).2.count? = some _ := count?_eq fits
        simp only [complete?_eq, counted, Option.bind_eq_bind, Option.bind_some]
  | halted remaining =>
      by_cases more : 1 < remaining <;> simp only [more, if_true, if_false] <;> intro fits
      · have counted : (wired.enter (.halted (remaining - 1))).count? = some _ := count?_eq fits
        simp only [difference_eq (Nat.le_of_lt more), counted, Option.bind_eq_bind,
          Option.bind_some]
      · have counted : wired.retire.count? = some _ := count?_eq fits
        simp only [retire?_eq, counted, Option.bind_eq_bind, Option.bind_some]

end Wired

end Dmg
