import Dmg.Memory.AddressSpace
import Dmg.Proofs.Instruction

/-!
All that one tick can do, and a processor whose bus is changed from outside between its ticks.
-/

namespace Dmg

class Bus.Still (β : Type) [Bus β] : Prop where
  read_bus : ∀ (bus : β) (address : UInt16), (Bus.read bus address).2 = bus

instance : Bus.Still Ram := ⟨fun _ _ => rfl⟩

instance : Bus.Still AddressSpace := ⟨fun _ _ => rfl⟩

def pendingOn {β : Type} [Bus β] (bus : β) : UInt8 :=
  (Bus.read bus Interrupt.enableAddress).1 &&& (Bus.read bus Interrupt.requestAddress).1 &&&
    Interrupt.allMask

/-- The processor after some ticks, each on the bus that the outside has left for it. -/
def Cpu.during {β : Type} [Bus β] (cpu : Cpu) (buses : Nat → β) : Nat → Cpu
  | 0 => cpu
  | count + 1 => (Wired.tick ⟨cpu.during buses count, buses count⟩).2.cpu

namespace Wired

variable {β : Type} [Bus β]

theorem pending_still [Bus.Still β] (wired : Wired β) :
    wired.pending = (pendingOn wired.bus, wired) := by
  obtain ⟨cpu, bus⟩ := wired
  simp only [pending, read, pendingOn, Bus.Still.read_bus]

theorem registers_retire_still [Bus.Still β] {wired : Wired β}
    (declined : wired.registers.ime = false ∨ pendingOn wired.bus = 0) :
    wired.retire.registers = wired.registers := by
  refine registers_retire (declined.imp_right fun quiet => ?_)
  rwa [pending_still]

theorem halt_still [Bus.Still β] (wired : Wired β) :
    wired.halt = if wired.registers.ime = false ∧ pendingOn wired.bus ≠ 0 then wired.setHaltBug
      else wired.setHalted := by
  simp only [halt, pending_still]
  cases wired.registers.ime with
  | true => simp
  | false => by_cases quiet : pendingOn wired.bus = 0 <;> simp [quiet]

theorem fetchedBus_still [Bus.Still β] (wired : Wired β) : wired.fetchedBus = wired.bus := by
  simp only [fetchedBus, Bus.Still.read_bus, ite_self]

/-- The outcomes of a tick: a fault, a fetch, a cycle that only counts, a branch whose late half is
put off, or the end of an instruction or of an idle or halted period. -/
inductive Turn (wired : Wired β) : Except Fault Progress × Wired β → Prop
  | fault {fault} : wired.cpu.phase = .fetching → wired.instruction? = none →
      Turn wired (.error fault, (wired.read wired.registers.pc).2)
  | fetch {instruction} : wired.cpu.phase = .fetching → wired.instruction? = some instruction →
      Turn wired (.ok .within, wired.fetch.2.count)
  | counting : 1 < wired.cpu.phase.remaining → Turn wired (.ok .within, wired.elapse 1)
  | branch {remaining operation jump} :
      wired.cpu.phase = .executing remaining (.operation operation) → remaining ≤ 1 →
      (wired.execute operation).1 = some jump →
      Turn wired (.ok .within,
        ((wired.execute operation).2.enter (.executing jump.delay (.jump jump))).count)
  | retires {polled} : wired.Retires polled → Turn wired (.ok .boundary, polled.retire.count)

theorem turn_of_retires {wired polled : Wired β} (retires : wired.Retires polled) :
    wired.Turn wired.tick := by
  rw [tick_of_retires retires]
  exact .retires retires

theorem turn_tick (wired : Wired β) : wired.Turn wired.tick := by
  by_cases more : 1 < wired.cpu.phase.remaining
  · rw [tick_counting more]
    exact .counting more
  · cases phase : wired.cpu.phase with
    | fetching =>
        cases found : wired.instruction? with
        | none =>
            simp only [tick, phase, fetch_none found]
            exact .fault phase found
        | some instruction =>
            have ticked : wired.tick = (.ok .within, wired.fetch.2.count) := by
              simp only [tick, phase, fetch_eq found]
            rw [ticked]
            exact .fetch phase found
    | executing remaining stage =>
        rw [phase] at more
        have due : remaining ≤ 1 := Nat.le_of_not_lt more
        cases stage with
        | operation operation =>
            cases executed : (wired.execute operation).1 with
            | none => exact turn_of_retires (.operation phase due executed)
            | some jump =>
                rw [tick_of_branch executed phase due]
                exact .branch phase due executed
        | jump jump => exact turn_of_retires (.jump phase due)
        | idle => exact turn_of_retires (.idle phase due)
    | halted remaining =>
        rw [phase] at more
        exact turn_of_retires (.halted phase (Nat.le_of_not_lt more))

end Wired

end Dmg
