import Dmg.Proofs.MachineTick
import Dmg.Proofs.DisplayRequests
import Dmg.Proofs.SpaceHistory
import Dmg.Proofs.Wake

/-!
The machine's clock, the processor's and the picture processor go forward together, and only by
ticks that do not fault.  So a frame's worth of ticks is a frame of the picture processor, wherever
in its frame it begins.
-/

namespace Dmg

namespace Machine

def ticksUntil (target : Nat) (machine : Machine) : Nat :=
  if machine.clock.cycles < target then
    match _ : machine.tick with
    | (.ok _, next) => ticksUntil target next + 1
    | (.error _, _) => 0
  else 0
termination_by target - machine.clock.cycles
decreasing_by
  rename_i ticked
  rw [clock_tick machine next ticked, Clock.cycles_advance]
  omega

def ticksIn (machine : Machine) : Event → Nat
  | .tick => if machine.tick.1 = .ok () then 1 else 0
  | .runFrame => machine.ticksUntil (machine.clock.cycles + Ppu.cyclesPerFrame)
  | _ => 0

/-- The ticks of a run that do not fault, those of its frames included. -/
def goodTicks (machine : Machine) : List Event → Nat
  | [] => 0
  | event :: rest => machine.ticksIn event + (machine.apply event).goodTicks rest

theorem succeeds_succ {machine : Machine} {count : Nat} (first : machine.tick.1 = .ok ())
    (rest : machine.tick.2.Succeeds count) : machine.Succeeds (count + 1) := by
  intro earlier early
  cases earlier with
  | zero => exact first
  | succ earlier =>
      rw [after_succ]
      exact rest earlier (Nat.lt_of_succ_lt_succ early)

/-- A run up to a target passes all the ticks there are to the target, or those before a fault. -/
theorem runUntil_ends (target : Nat) (machine : Machine) :
    ∃ count, machine.ticksUntil target = count ∧ machine.Succeeds count ∧
      ((machine.runUntil target = (.ok (), machine.after count) ∧
          count = target - machine.clock.cycles) ∨
        ∃ fault, (machine.after count).tick = (.error (.cpu fault), machine.after count) ∧
          machine.runUntil target = (.error (.cpu fault), machine.after count) ∧
          count < target - machine.clock.cycles) := by
  fun_induction ticksUntil target machine with
  | case1 machine early result next ticked ih =>
      obtain ⟨count, same, passes, ended⟩ := ih
      have first : machine.tick.1 = .ok () := congrArg Prod.fst ticked
      have second : machine.tick.2 = next := congrArg Prod.snd ticked
      have clock : next.clock.cycles = machine.clock.cycles + 1 :=
        congrArg Clock.cycles (clock_tick machine next ticked)
      refine ⟨count + 1, congrArg (· + 1) same, succeeds_succ first (second ▸ passes), ?_⟩
      rw [runUntil_of_ok early ticked, after_succ, second]
      rcases ended with ⟨ended, total⟩ | ⟨fault, failed, ended, few⟩
      · exact .inl ⟨ended, by omega⟩
      · exact .inr ⟨fault, failed, ended, by omega⟩
  | case2 machine early error next failed =>
      obtain ⟨stays, fault, rfl⟩ := tick_of_failed (congrArg Prod.fst failed)
      exact ⟨0, rfl, nofun, .inr ⟨fault, stays, runUntil_of_error early stays, by omega⟩⟩
  | case3 machine reached =>
      have passed : target ≤ machine.clock.cycles := Nat.le_of_not_lt reached
      exact ⟨0, rfl, nofun, .inl ⟨runUntil_of_reached passed, by omega⟩⟩

/-! The three counts. -/

/-- The clocks agree, and the picture processor stands no further than they tell. -/
structure InStep (machine : Machine) : Prop where
  clocks : machine.clock = machine.cpu.clock
  display : ∃ count ≤ machine.clock.cycles, machine.ppu.Stands count

def litCycles (machine : Machine) : Nat → Nat
  | 0 => 0
  | count + 1 => machine.litCycles count + (machine.after count).handed.lit.toNat

theorem inStep_boot {image : List UInt8} {start : StartState} {machine : Machine}
    (booted : boot image start = .ok machine) : machine.InStep ∧ machine.clock.cycles = 0 := by
  rw [eq_of_boot booted]
  exact ⟨⟨rfl, 0, Nat.le_refl 0, Ppu.stands_start⟩, rfl⟩

theorem cycles_tick {machine : Machine} (passes : machine.tick.1 = .ok ()) :
    machine.tick.2.clock.cycles = machine.clock.cycles + 1 := by
  obtain ⟨progress, ticked⟩ := ok_of_tick passes
  rw [tick_of_ok ticked]
  rfl

theorem ppu_tick {machine : Machine} (passes : machine.tick.1 = .ok ()) :
    machine.tick.2.ppu = machine.handed.tick.ppu := by
  obtain ⟨progress, ticked⟩ := ok_of_tick passes
  rw [tick_of_ok ticked]

theorem InStep.tick {machine : Machine} (inStep : machine.InStep) : machine.tick.2.InStep := by
  obtain ⟨clocks, count, few, stands⟩ := inStep
  cases ticked : machine.wired.tick.1 with
  | error fault =>
      rw [tick_of_error ticked]
      exact ⟨clocks, count, few, stands⟩
  | ok progress =>
      rw [tick_of_ok ticked]
      constructor
      · have whole : machine.wired.tick = (.ok progress, machine.wired.tick.2) :=
          Prod.ext ticked rfl
        exact (congrArg Clock.advance clocks).trans (Wired.clock_tick whole).symm
      · have further := stands.tick machine.handed.space
        refine ⟨_, ?_, further⟩
        have once := Bool.toNat_le machine.handed.space.lcdEnabled
        change _ ≤ machine.clock.cycles + 1
        omega

theorem InStep.after {machine : Machine} (inStep : machine.InStep) (count : Nat) :
    (machine.after count).InStep := by
  induction count with
  | zero => exact inStep
  | succ count ih => exact ih.tick

theorem cycles_after {machine : Machine} {count : Nat} (passes : machine.Succeeds count) :
    (machine.after count).clock.cycles = machine.clock.cycles + count := by
  induction count with
  | zero => rfl
  | succ count ih =>
      rw [after, cycles_tick (passes count (Nat.lt_succ_self count)),
        ih fun earlier early => passes earlier (Nat.lt_succ_of_lt early), Nat.add_assoc]

theorem stands_after {machine : Machine} {count ticks : Nat} (stands : machine.ppu.Stands count)
    (passes : machine.Succeeds ticks) :
    (machine.after ticks).ppu.Stands (count + machine.litCycles ticks) := by
  induction ticks with
  | zero => exact stands
  | succ ticks ih =>
      have before := ih fun earlier early => passes earlier (Nat.lt_succ_of_lt early)
      rw [after, ppu_tick (passes ticks (Nat.lt_succ_self ticks)), litCycles, ← Nat.add_assoc]
      exact before.tick (machine.after ticks).handed.space

theorem litCycles_le (machine : Machine) (ticks : Nat) : machine.litCycles ticks ≤ ticks := by
  induction ticks with
  | zero => exact Nat.le_refl 0
  | succ ticks ih =>
      have once := Bool.toNat_le (machine.after ticks).handed.lit
      rw [litCycles]
      omega

theorem lcdEnabled_tick {machine : Machine} (passes : machine.tick.1 = .ok ()) :
    machine.tick.2.space.lcdEnabled = machine.handed.lit := by
  obtain ⟨progress, ticked⟩ := ok_of_tick passes
  rw [tick_of_ok ticked]
  exact machine.handed.lit_tick

def StaysLit (machine : Machine) (ticks : Nat) : Prop :=
  ∀ count < ticks, (machine.after (count + 1)).space.lcdEnabled = true

theorem lit_of_staysLit {machine : Machine} {ticks count : Nat} (passes : machine.Succeeds ticks)
    (lit : machine.StaysLit ticks) (early : count < ticks) :
    (machine.after count).handed.lit = true :=
  (lcdEnabled_tick (passes count early)).symm.trans (lit count early)

theorem litCycles_of_staysLit {machine : Machine} {ticks : Nat} (passes : machine.Succeeds ticks)
    (lit : machine.StaysLit ticks) {count : Nat} (early : count ≤ ticks) :
    machine.litCycles count = count := by
  induction count with
  | zero => rfl
  | succ count ih =>
      rw [litCycles, ih (Nat.le_of_succ_le early), lit_of_staysLit passes lit early]
      rfl

theorem runFrame_ends (machine : Machine) :
    ∃ count, machine.ticksIn .runFrame = count ∧ machine.Succeeds count ∧
      ((count = 70224 ∧ machine.runFrame = (.ok 70224, machine.after count)) ∨
        ∃ fault, count < 70224 ∧
          (machine.after count).tick = (.error (.cpu fault), machine.after count) ∧
          machine.runFrame = (.error (.cpu fault), machine.after count)) := by
  have frame : Ppu.cyclesPerFrame = 70224 := rfl
  obtain ⟨count, same, passes, ended⟩ :=
    runUntil_ends (machine.clock.cycles + Ppu.cyclesPerFrame) machine
  refine ⟨count, same, passes, ?_⟩
  rcases ended with ⟨ran, total⟩ | ⟨fault, failed, ran, few⟩
  · have cycles := cycles_after passes
    have full : (machine.after count).clock.cycles - machine.clock.cycles = 70224 := by omega
    have ended := runFrame_of_ok ran
    rw [full] at ended
    exact .inl ⟨by omega, ended⟩
  · exact .inr ⟨fault, by omega, failed, runFrame_of_error ran⟩

theorem Succeeds.le_of_fault {machine : Machine} {count last : Nat} {error : MachineError}
    (passes : machine.Succeeds count) (failed : (machine.after last).tick.1 = .error error) :
    count ≤ last := by
  by_contra passed
  have good := passes last (Nat.lt_of_not_le passed)
  rw [failed] at good
  cases good

theorem runFrame_of_succeeds {machine : Machine} (passes : machine.Succeeds 70224) :
    machine.runFrame = (.ok 70224, machine.after 70224) := by
  obtain ⟨count, -, -, ⟨rfl, ended⟩ | ⟨fault, few, failed, -⟩⟩ := machine.runFrame_ends
  · exact ended
  · have reached := passes.le_of_fault (congrArg Prod.fst failed)
    omega

theorem runFrame_after (machine : Machine) :
    machine.Succeeds (machine.ticksIn .runFrame) ∧
      machine.ticksIn .runFrame ≤ 70224 ∧
      machine.runFrame.2 = machine.after (machine.ticksIn .runFrame) := by
  obtain ⟨count, rfl, passes, ends⟩ := machine.runFrame_ends
  rcases ends with ⟨full, ended⟩ | ⟨fault, few, _, ended⟩
  · exact ⟨passes, Nat.le_of_eq full, congrArg Prod.snd ended⟩
  · exact ⟨passes, Nat.le_of_lt few, congrArg Prod.snd ended⟩

theorem InStep.apply {machine : Machine} (inStep : machine.InStep) (event : Event) :
    (machine.apply event).InStep ∧
      (machine.apply event).clock.cycles = machine.clock.cycles + machine.ticksIn event := by
  cases event with
  | tick =>
      refine ⟨inStep.tick, ?_⟩
      change machine.tick.2.clock.cycles = _ + if machine.tick.1 = .ok () then 1 else 0
      cases ticked : machine.tick.1 with
      | ok result => rw [cycles_tick ticked, if_pos rfl]
      | error error =>
          obtain ⟨stays, _⟩ := tick_of_failed ticked
          rw [stays]
          rfl
  | runFrame =>
      obtain ⟨passes, _, ended⟩ := machine.runFrame_after
      rw [apply_runFrame, ended]
      exact ⟨inStep.after _, cycles_after passes⟩
  | operate | setRegisters | setTrace => exact ⟨⟨inStep.clocks, inStep.display⟩, rfl⟩

theorem InStep.run {machine : Machine} (inStep : machine.InStep) (events : List Event) :
    (machine.run events).InStep ∧
      (machine.run events).clock.cycles = machine.clock.cycles + machine.goodTicks events := by
  induction events generalizing machine with
  | nil => exact ⟨inStep, rfl⟩
  | cons event rest ih =>
      obtain ⟨next, passed⟩ := inStep.apply event
      obtain ⟨last, cycles⟩ := ih next
      rw [passed, Nat.add_assoc] at cycles
      exact ⟨last, cycles⟩

theorem frames_runFrame {machine : Machine} (inStep : machine.InStep) :
    machine.ppu.frames ≤ machine.runFrame.2.ppu.frames ∧
      machine.runFrame.2.ppu.frames ≤ machine.ppu.frames + 1 := by
  obtain ⟨passes, few, ended⟩ := machine.runFrame_after
  obtain ⟨count, _, stands⟩ := inStep.display
  have later := stands_after stands passes
  have lit := machine.litCycles_le (machine.ticksIn .runFrame)
  rw [ended, stands.frames, later.frames]
  omega

/-- The tick of a full frame that requests the vertical blank. -/
theorem vblank_once {machine : Machine} (inStep : machine.InStep) (passes : machine.Succeeds 70224)
    (lit : machine.StaysLit 70224) :
    ∃! count, count < 70224 ∧ (machine.after count).handed.requestsVblank = true := by
  obtain ⟨start, _, stands⟩ := inStep.display
  have requests : ∀ count < 70224, ((machine.after count).handed.requestsVblank = true ↔
      70224 ∣ start + count + 1 + 4560) := by
    intro count early
    have before := stands_after stands fun earlier less => passes earlier (Nat.lt_trans less early)
    rw [litCycles_of_staysLit passes lit (Nat.le_of_lt early)] at before
    have standing : (machine.after count).handed.ppu.Stands _ := before
    rw [Display.requestsVblank_iff standing, lit_of_staysLit passes lit early, eq_self, true_and]
  have place : (70223 - (start + 4560) % 70224) < 70224 := by omega
  refine ⟨70223 - (start + 4560) % 70224, ⟨place, (requests _ place).mpr (by omega)⟩, ?_⟩
  rintro count ⟨early, requested⟩
  have due := (requests count early).mp requested
  omega

/-- In every state of every run the clocks agree and tell the ticks that have passed.  A frame is a
frame's worth of ticks, or those before the first fault.  It finishes one frame of the picture at
most; with the display on throughout it finishes one, requests the vertical blank once, and leaves
the picture processor at the place of its frame where it was. -/
theorem lockstep {image : List UInt8} {start : StartState} {machine : Machine}
    (booted : boot image start = .ok machine) (events : List Event) :
    let reached := machine.run events
    reached.clock = reached.cpu.clock ∧
    reached.clock.cycles = machine.goodTicks events ∧
    ((reached.Succeeds 70224 ∧ reached.runFrame = (.ok 70224, reached.after 70224)) ∨
      ∃ count fault, count < 70224 ∧ reached.Succeeds count ∧
        (reached.after count).tick = (.error (.cpu fault), reached.after count) ∧
        reached.runFrame = (.error (.cpu fault), reached.after count)) ∧
    (reached.ppu.frames ≤ reached.runFrame.2.ppu.frames ∧
      reached.runFrame.2.ppu.frames ≤ reached.ppu.frames + 1) ∧
    (reached.Succeeds 70224 → reached.StaysLit 70224 →
      (reached.after 70224).ppu.mode = reached.ppu.mode ∧
      (reached.after 70224).ppu.remaining = reached.ppu.remaining ∧
      (reached.after 70224).ppu.line = reached.ppu.line ∧
      (reached.after 70224).ppu.frames = reached.ppu.frames + 1 ∧
      ∃! count, count < 70224 ∧ (reached.after count).handed.requestsVblank = true) := by
  intro reached
  obtain ⟨begun, zero⟩ := inStep_boot booted
  obtain ⟨inStep, cycles⟩ := begun.run events
  rw [zero, Nat.zero_add] at cycles
  refine ⟨inStep.clocks, cycles, ?_, frames_runFrame inStep, fun passes lit => ?_⟩
  · obtain ⟨count, _, passes, ends⟩ := reached.runFrame_ends
    rcases ends with ⟨rfl, ended⟩ | ⟨fault, few, failed, ended⟩
    · exact .inl ⟨passes, ended⟩
    · exact .inr ⟨count, fault, few, passes, failed, ended⟩
  · obtain ⟨count, _, before⟩ := inStep.display
    have behind := stands_after before passes
    rw [litCycles_of_staysLit passes lit (Nat.le_refl _)] at behind
    have place : (count + 70224) % 70224 = count % 70224 := Nat.add_mod_right count 70224
    refine ⟨?_, ?_, ?_, ?_, vblank_once inStep passes lit⟩
    · rw [behind.mode_eq, before.mode_eq, place]
    · rw [behind.remaining_eq, before.remaining_eq, place]
    · rw [behind.line_eq, before.line_eq, place]
    · rw [behind.frames, before.frames]
      omega

/-! A machine that waits for an interrupt that cannot come. -/

structure Sleeps (machine : Machine) : Prop where
  lit : machine.space.lcdEnabled = true
  disabled : machine.space.mapped.enabled = 0
  phase : (∃ remaining, machine.cpu.phase = .executing remaining (.operation .halt)) ∨
    machine.cpu.halted = true ∧ ∃ remaining, machine.cpu.phase = .halted remaining

theorem Sleeps.quiet {machine : Machine} (sleeps : machine.Sleeps) :
    pendingOn machine.space = 0 := by
  change machine.space.mapped.enabled &&& _ &&& _ = 0
  rw [sleeps.disabled, UInt8.zero_and, UInt8.zero_and]

theorem Sleeps.retires {machine : Machine} (sleeps : machine.Sleeps)
    (due : machine.cpu.phase.remaining ≤ 1) :
    ∃ polled, machine.wired.Retires polled ∧ polled.bus = machine.space ∧
      polled.cpu.halted = true := by
  rcases sleeps.phase with ⟨remaining, phase⟩ | ⟨halted, remaining, phase⟩
  · rw [phase] at due
    obtain ⟨straight, bus, waiting⟩ := Wired.execute_waits machine.wired (.inl rfl)
    refine ⟨_, .operation phase due straight, ?_, ?_⟩
    · rw [Wired.expireDelay_eq]
      exact bus
    · rw [Wired.expireDelay_eq]
      exact waiting sleeps.quiet
  · rw [phase] at due
    exact ⟨machine.wired, .halted phase due, rfl, halted⟩

theorem Sleeps.waits {machine : Machine} (sleeps : machine.Sleeps) :
    ∃ progress cpu, machine.wired.tick = (.ok progress, ⟨cpu, machine.space⟩) ∧
      ((∃ remaining, cpu.phase = .executing remaining (.operation .halt)) ∨
        cpu.halted = true ∧ ∃ remaining, cpu.phase = .halted remaining) := by
  by_cases more : 1 < machine.cpu.phase.remaining
  · have counting : machine.wired.tick = (.ok .within, machine.wired.elapse 1) :=
      Wired.tick_counting more
    refine ⟨_, _, counting, ?_⟩
    change (∃ remaining, machine.cpu.phase.elapse 1 = _) ∨
      _ ∧ ∃ remaining, machine.cpu.phase.elapse 1 = _
    rcases sleeps.phase with ⟨remaining, phase⟩ | ⟨halted, remaining, phase⟩
    · exact .inl ⟨remaining - 1, by rw [phase]; rfl⟩
    · exact .inr ⟨halted, remaining - 1, by rw [phase]; rfl⟩
  · obtain ⟨polled, retires, bus, halted⟩ := sleeps.retires (Nat.le_of_not_lt more)
    have quiet : polled.pending.1 = 0 := by
      rw [Wired.pending_still, bus]
      exact sleeps.quiet
    have stays : polled.retire.count =
        ⟨{ polled.cpu with phase := .halted haltCycles, clock := polled.cpu.clock.advance },
          machine.space⟩ := by
      rw [Wired.retire_stay quiet halted, Wired.pending_still, ← bus]
      rfl
    exact ⟨_, _, (Wired.tick_of_retires retires).trans (congrArg _ stays), .inr
      ⟨halted, haltCycles, rfl⟩⟩

theorem enabled_tick (display : Display) :
    display.tick.space.mapped.enabled = display.space.mapped.enabled :=
  display.ppu.read_tick display.space (by decide : MappedRegister.enabled ∉ _)

theorem Sleeps.tick {machine : Machine} (sleeps : machine.Sleeps) :
    machine.tick.1 = .ok () ∧ machine.tick.2.Sleeps := by
  obtain ⟨progress, cpu, ticked, phase⟩ := sleeps.waits
  let display : Display := ⟨machine.ppu, machine.space⟩
  rw [tick_of_still ticked]
  exact ⟨rfl, display.lit_tick.trans sleeps.lit, (enabled_tick display).trans sleeps.disabled,
    phase⟩

theorem Sleeps.after {machine : Machine} (sleeps : machine.Sleeps) (count : Nat) :
    (machine.after count).Sleeps := by
  induction count with
  | zero => exact sleeps
  | succ count ih => exact ih.tick.2

/-- An image of one halt, run for a tick and then for a frame. -/
theorem lockstep_halt :
    ∃ machine, boot [0x76] .reset = .ok machine ∧
      let reached := machine.run [.tick]
      reached.Succeeds 70224 ∧ reached.StaysLit 70224 ∧
      reached.runFrame = (.ok 70224, reached.after 70224) ∧
      (reached.after 70224).ppu.remaining = reached.ppu.remaining ∧
      (reached.after 70224).ppu.frames = reached.ppu.frames + 1 := by
  let machine : Machine :=
    { cpu := .withRegisters {}, ppu := {}, space := .loadImage {} [0x76], clock := .zero }
  have opcode : machine.space.peek 0 = 0x76 := AddressSpace.get_loadImage {} [0x76] 0
  have found : machine.wired.instruction? = some ⟨0x76, false, .halt⟩ :=
    Wired.instruction?_of_decode opcode rfl
  have fetching : machine.wired.cpu.phase = .fetching := rfl
  have fetched := Wired.after_one fetching found
  rw [Wired.fetch_eq found, Wired.fetchedBus_still] at fetched
  let display : Display := ⟨machine.ppu, machine.space⟩
  have on : machine.space.lcdEnabled = true := by decide
  have sleeps : (machine.run [.tick]).Sleeps := by
    change machine.tick.2.Sleeps
    rw [tick_of_still (Prod.ext (Wired.tick_fetching fetching found) fetched)]
    exact ⟨display.lit_tick.trans on, (enabled_tick display).trans rfl, .inl ⟨3, rfl⟩⟩
  have passes : (machine.run [.tick]).Succeeds 70224 := fun count _ => (sleeps.after count).tick.1
  have lit : (machine.run [.tick]).StaysLit 70224 := fun count _ => (sleeps.after (count + 1)).lit
  have booted : boot [0x76] .reset = .ok machine := rfl
  obtain ⟨_, _, _, _, full⟩ := lockstep booted [.tick]
  obtain ⟨_, remaining, _, frames, _⟩ := full passes lit
  exact ⟨machine, booted, passes, lit, runFrame_of_succeeds passes, remaining, frames⟩

end Machine

end Dmg
