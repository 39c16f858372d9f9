import Dmg.Memory.Recorder
import Dmg.Proofs.Turn

/-!
The processor reaches its bus through reads and writes only.  So it cannot tell a bus from a view of
it while the view answers as the bus does, and what reads and writes keep of a bus, every tick
keeps.
-/

namespace Dmg

/-- A view of a bus that answers every access as the bus does. -/
structure Bus.View {β γ : Type} [Bus β] [Bus γ] (view : β → γ) : Prop where
  read : ∀ bus address,
    Bus.read (view bus) address = ((Bus.read bus address).1, view (Bus.read bus address).2)
  write : ∀ bus address value,
    Bus.write (view bus) address value = view (Bus.write bus address value)

/-- A view that answers an access as the bus does if the bus is of some kind behind the access.  A
bus that has once lost the kind does not get it back. -/
structure Bus.ViewWhile {β γ : Type} [Bus β] [Bus γ] (kind : β → Prop) (view : β → γ) : Prop where
  read : ∀ {bus} address, kind (Bus.read bus address).2 → kind bus ∧
    Bus.read (view bus) address = ((Bus.read bus address).1, view (Bus.read bus address).2)
  write : ∀ {bus} address value, kind (Bus.write bus address value) → kind bus ∧
    Bus.write (view bus) address value = view (Bus.write bus address value)

theorem Bus.View.always {β γ : Type} [Bus β] [Bus γ] {view : β → γ} (same : Bus.View view) :
    Bus.ViewWhile (fun _ => True) view :=
  ⟨fun address _ => ⟨trivial, same.read _ address⟩,
    fun address value _ => ⟨trivial, same.write _ address value⟩⟩

namespace Wired

variable {β γ : Type}

def through (view : β → γ) (wired : Wired β) : Wired γ := ⟨wired.cpu, view wired.bus⟩

@[simp] theorem registers_through (view : β → γ) (wired : Wired β) :
    (wired.through view).registers = wired.registers := rfl

variable [Bus β] [Bus γ] {kind : β → Prop} {view : β → γ} (same : Bus.ViewWhile kind view)
  (wired : Wired β)

include same

/-! Each part of a tick, seen through the view.  If the bus is of the kind behind it, it was so all
along, and the facts about the accesses are put together from the last to the first. -/

theorem read_through (address : UInt16) (lasts : kind (wired.read address).2.bus) :
    kind wired.bus ∧ (wired.through view).read address =
      ((wired.read address).1, (wired.read address).2.through view) := by
  obtain ⟨before, answer⟩ := same.read address lasts
  refine ⟨before, ?_⟩
  simp only [through, read, answer]

theorem write_through (address : UInt16) (value : UInt8)
    (lasts : kind (wired.write address value).bus) :
    kind wired.bus ∧
      (wired.through view).write address value = (wired.write address value).through view := by
  obtain ⟨before, answer⟩ := same.write address value lasts
  refine ⟨before, ?_⟩
  simp only [through, write, answer]

theorem nextByte_through (lasts : kind wired.nextByte.2.bus) :
    kind wired.bus ∧
      (wired.through view).nextByte = (wired.nextByte.1, wired.nextByte.2.through view) :=
  read_through same (wired.setRegisters (wired.registers.advance .pc).2) wired.registers.pc lasts

theorem popByte_through (lasts : kind wired.popByte.2.bus) :
    kind wired.bus ∧
      (wired.through view).popByte = (wired.popByte.1, wired.popByte.2.through view) :=
  read_through same (wired.setRegisters (wired.registers.advance .sp).2) wired.registers.sp lasts

theorem pushByte_through (value : UInt8) (lasts : kind (wired.pushByte value).bus) :
    kind wired.bus ∧
      (wired.through view).pushByte value = (wired.pushByte value).through view :=
  write_through same (wired.setRegisters (wired.registers.retreat .sp).2) _ value lasts

theorem nextWord_through (lasts : kind wired.nextWord.2.bus) :
    kind wired.bus ∧
      (wired.through view).nextWord = (wired.nextWord.1, wired.nextWord.2.through view) := by
  obtain ⟨between, high⟩ := nextByte_through same wired.nextByte.2 lasts
  obtain ⟨before, low⟩ := nextByte_through same wired between
  refine ⟨before, ?_⟩
  simp only [nextWord, low, high]

theorem pop_through (lasts : kind wired.pop.2.bus) :
    kind wired.bus ∧ (wired.through view).pop = (wired.pop.1, wired.pop.2.through view) := by
  obtain ⟨between, high⟩ := popByte_through same wired.popByte.2 lasts
  obtain ⟨before, low⟩ := popByte_through same wired between
  refine ⟨before, ?_⟩
  simp only [pop, low, high]

theorem push_through (value : UInt16) (lasts : kind (wired.push value).bus) :
    kind wired.bus ∧ (wired.through view).push value = (wired.push value).through view := by
  obtain ⟨between, low⟩ := pushByte_through same (wired.pushByte (highByte value)) _ lasts
  obtain ⟨before, high⟩ := pushByte_through same wired _ between
  refine ⟨before, ?_⟩
  simp only [push, high, low]

theorem pending_through (lasts : kind wired.pending.2.bus) :
    kind wired.bus ∧
      (wired.through view).pending = (wired.pending.1, wired.pending.2.through view) := by
  obtain ⟨between, requested⟩ :=
    read_through same (wired.read Interrupt.enableAddress).2 Interrupt.requestAddress lasts
  obtain ⟨before, enabled⟩ := read_through same wired Interrupt.enableAddress between
  refine ⟨before, ?_⟩
  simp only [pending, enabled, requested]

theorem loadSlot_through (slot : Slot) (lasts : kind (wired.loadSlot slot).2.bus) :
    kind wired.bus ∧ (wired.through view).loadSlot slot =
      ((wired.loadSlot slot).1, (wired.loadSlot slot).2.through view) := by
  cases slot with
  | register register => exact ⟨lasts, rfl⟩
  | atHl => exact read_through same wired _ lasts

theorem storeSlot_through (slot : Slot) (value : UInt8)
    (lasts : kind (wired.storeSlot slot value).bus) :
    kind wired.bus ∧
      (wired.through view).storeSlot slot value = (wired.storeSlot slot value).through view := by
  cases slot with
  | register register => exact ⟨lasts, rfl⟩
  | atHl => exact write_through same wired _ _ lasts

theorem address_through (indirect : Indirect) (lasts : kind (wired.address indirect).2.bus) :
    kind wired.bus ∧ (wired.through view).address indirect =
      ((wired.address indirect).1, (wired.address indirect).2.through view) := by
  cases indirect with
  | word => exact nextWord_through same wired lasts
  | highByte =>
      obtain ⟨before, low⟩ := nextByte_through same wired lasts
      refine ⟨before, ?_⟩
      simp only [address, low]
  | _ => exact ⟨lasts, rfl⟩

theorem halt_through (lasts : kind wired.halt.bus) :
    kind wired.bus ∧ (wired.through view).halt = wired.halt.through view := by
  cases enabled : wired.registers.ime with
  | true =>
      simp only [halt, registers_through, enabled, if_true] at lasts ⊢
      exact ⟨lasts, rfl⟩
  | false =>
      have looked : kind wired.pending.2.bus := by
        simp only [halt, enabled, Bool.false_eq_true, if_false] at lasts
        split at lasts <;> exact lasts
      obtain ⟨before, pending⟩ := pending_through same wired looked
      refine ⟨before, ?_⟩
      simp only [halt, registers_through, enabled, pending, Bool.false_eq_true, if_false]
      split <;> rfl

theorem modifySlot_through (slot : Slot) (change : UInt8 → AluResult)
    (merge : Flags → Flags → Flags) (lasts : kind (wired.modifySlot slot change merge).bus) :
    kind wired.bus ∧ (wired.through view).modifySlot slot change merge =
      (wired.modifySlot slot change merge).through view := by
  obtain ⟨between, stored⟩ := storeSlot_through same (wired.loadSlot slot).2 slot
    (change (wired.loadSlot slot).1).value lasts
  obtain ⟨before, loaded⟩ := loadSlot_through same wired slot between
  refine ⟨before, ?_⟩
  simp only [modifySlot, loaded, stored]
  rfl

theorem execute_through (operation : Operation) (lasts : kind (wired.execute operation).2.bus) :
    kind wired.bus ∧ (wired.through view).execute operation =
      ((wired.execute operation).1, (wired.execute operation).2.through view) := by
  cases operation with
  | halt =>
      obtain ⟨before, waits⟩ := halt_through same wired lasts
      refine ⟨before, ?_⟩
      simp only [execute, waits]
  | stop =>
      obtain ⟨before, waits⟩ :=
        halt_through same (wired.setRegisters (wired.registers.advance .pc).2) lasts
      refine ⟨before, ?_⟩
      simp only [execute, ← waits]
      rfl
  | enableInterrupts =>
      simp only [execute] at lasts ⊢
      change kind wired.bus ∧ (none, if wired.registers.ime then _ else _) = _
      split at lasts
      all_goals
        rename_i enabled
        simp only [enabled]
        exact ⟨lasts, rfl⟩
  | load _ source | resetBit _ source | setBit _ source =>
      obtain ⟨between, stored⟩ := storeSlot_through same (wired.loadSlot source).2 _ _ lasts
      obtain ⟨before, loaded⟩ := loadSlot_through same wired source between
      refine ⟨before, ?_⟩
      simp only [execute, loaded]
      exact congrArg (Prod.mk none) stored
  | loadByte =>
      obtain ⟨between, stored⟩ := storeSlot_through same wired.nextByte.2 _ _ lasts
      obtain ⟨before, fetched⟩ := nextByte_through same wired between
      refine ⟨before, ?_⟩
      simp only [execute, fetched]
      exact congrArg (Prod.mk none) stored
  | loadA source =>
      obtain ⟨between, loaded⟩ :=
        read_through same (wired.address source).2 (wired.address source).1 lasts
      obtain ⟨before, found⟩ := address_through same wired source between
      refine ⟨before, ?_⟩
      simp only [execute, found, loaded]
      rfl
  | storeA target =>
      obtain ⟨between, stored⟩ := write_through same (wired.address target).2
        (wired.address target).1 wired.registers.a lasts
      obtain ⟨before, found⟩ := address_through same wired target between
      refine ⟨before, ?_⟩
      simp only [execute, found, stored, registers_through]
  | loadPair | jump | call =>
      obtain ⟨before, fetched⟩ := nextWord_through same wired lasts
      refine ⟨before, ?_⟩
      simp only [execute, fetched]
      rfl
  | storeSp =>
      let target := wired.nextWord.1
      let sp := wired.nextWord.2.registers.sp
      obtain ⟨later, high⟩ := write_through same (wired.nextWord.2.write target (lowByte sp))
        (target + 1) (highByte sp) lasts
      obtain ⟨between, low⟩ := write_through same wired.nextWord.2 target (lowByte sp) later
      obtain ⟨before, fetched⟩ := nextWord_through same wired between
      refine ⟨before, ?_⟩
      simp only [execute, fetched, registers_through]
      exact congrArg (Prod.mk none) ((congrArg (·.write (target + 1) (highByte sp)) low).trans high)
  | loadHlSp | arithmeticByte | addSp | jumpRelative =>
      obtain ⟨before, fetched⟩ := nextByte_through same wired lasts
      refine ⟨before, ?_⟩
      simp only [execute, fetched]
      rfl
  | push =>
      obtain ⟨before, pushed⟩ := push_through same wired _ lasts
      refine ⟨before, ?_⟩
      simp only [execute, pushed, registers_through]
  | pop =>
      obtain ⟨before, popped⟩ := pop_through same wired lasts
      refine ⟨before, ?_⟩
      simp only [execute, popped]
      rfl
  | arithmetic _ source | testBit _ source =>
      obtain ⟨before, loaded⟩ := loadSlot_through same wired source lasts
      refine ⟨before, ?_⟩
      simp only [execute, loaded]
      rfl
  | increment | decrement | shift =>
      obtain ⟨before, modified⟩ := modifySlot_through same wired _ _ _ lasts
      refine ⟨before, ?_⟩
      simp only [execute, modified, registers_through]
  | _ => exact ⟨lasts, rfl⟩

theorem land_through (jump : Jump) (lasts : kind (wired.land jump).bus) :
    kind wired.bus ∧ (wired.through view).land jump = (wired.land jump).through view := by
  cases jump with
  | goTo target => exact ⟨lasts, rfl⟩
  | call target =>
      obtain ⟨before, pushed⟩ := push_through same wired _ lasts
      refine ⟨before, ?_⟩
      simp only [land, pushed, registers_through]
      rfl
  | ret | retEnable =>
      obtain ⟨before, popped⟩ := pop_through same wired lasts
      refine ⟨before, ?_⟩
      simp only [land, popped]
      rfl

omit [Bus β] [Bus γ] same in
theorem expireDelay_through :
    (wired.through view).expireDelay = wired.expireDelay.through view := by
  rw [expireDelay_eq, expireDelay_eq]
  rfl

omit wired in
theorem pushWord_through {bus : β} {sp value : UInt16} (lasts : kind (pushWord bus sp value)) :
    kind bus ∧ pushWord (view bus) sp value = view (pushWord bus sp value) := by
  obtain ⟨between, low⟩ := same.write _ _ lasts
  obtain ⟨before, high⟩ := same.write _ _ between
  refine ⟨before, ?_⟩
  simp only [pushWord, high, low]

omit wired in
theorem acknowledge_through {bus : β} {interrupt : Interrupt}
    (lasts : kind (acknowledge bus interrupt)) :
    kind bus ∧ acknowledge (view bus) interrupt = view (acknowledge bus interrupt) := by
  obtain ⟨between, cleared⟩ := same.write _ _ lasts
  obtain ⟨before, requested⟩ := same.read _ between
  refine ⟨before, ?_⟩
  simp only [acknowledge, requested]
  exact cleared

theorem dispatch_through (interrupt : Interrupt) (lasts : kind (wired.dispatch interrupt).bus) :
    kind wired.bus ∧
      (wired.through view).dispatch interrupt = (wired.dispatch interrupt).through view := by
  rw [dispatch_bus] at lasts
  obtain ⟨between, acknowledged⟩ := acknowledge_through same lasts
  obtain ⟨before, pushed⟩ := pushWord_through same between
  refine ⟨before, congrArg (Wired.mk _) ?_⟩
  change (wired.through view |>.dispatch interrupt).bus = view (wired.dispatch interrupt).bus
  rw [dispatch_bus, dispatch_bus, ← acknowledged, ← pushed]
  rfl

theorem retire_through (lasts : kind wired.retire.bus) :
    kind wired.bus ∧ (wired.through view).retire = wired.retire.through view := by
  cases first : Interrupt.first? wired.pending.1 with
  | none =>
      have looked : kind wired.pending.2.bus := by
        simp only [retire, first] at lasts
        split at lasts <;> exact lasts
      obtain ⟨before, pending⟩ := pending_through same wired looked
      refine ⟨before, ?_⟩
      simp only [retire, pending, first, apply_ite (through view)]
      rfl
  | some interrupt =>
      cases enabled : wired.registers.ime with
      | true =>
          have stillEnabled : wired.pending.2.registers.ime = true := enabled
          simp only [retire, first, stillEnabled, if_true] at lasts
          obtain ⟨looked, taken⟩ := dispatch_through same wired.pending.2 interrupt lasts
          obtain ⟨before, pending⟩ := pending_through same wired looked
          refine ⟨before, ?_⟩
          simp only [retire, pending, first, registers_through, stillEnabled, if_true, taken]
      | false =>
          have stillDisabled : wired.pending.2.registers.ime = false := enabled
          have looked : kind wired.pending.2.bus := by
            simp only [retire, first, stillDisabled, Bool.false_eq_true, if_false] at lasts
            split at lasts <;> exact lasts
          obtain ⟨before, pending⟩ := pending_through same wired looked
          refine ⟨before, ?_⟩
          simp only [retire, pending, first, registers_through, stillDisabled, Bool.false_eq_true,
            if_false, apply_ite (through view)]
          rfl

theorem complete_through (stage : Stage) (lasts : kind (wired.complete stage).2.bus) :
    kind wired.bus ∧ (wired.through view).complete stage =
      ((wired.complete stage).1, (wired.complete stage).2.through view) := by
  cases stage with
  | operation operation =>
      cases executed : (wired.execute operation).1 with
      | none =>
          rw [complete_straight executed] at lasts ⊢
          obtain ⟨ended, polled⟩ :=
            retire_through same (wired.execute operation).2.expireDelay lasts
          rw [expireDelay_eq] at ended
          obtain ⟨before, effect⟩ := execute_through same wired operation ended
          refine ⟨before, ?_⟩
          rw [complete_straight (by rw [effect]; exact executed), effect]
          simp only [expireDelay_through, polled]
      | some jump =>
          rw [complete_branch executed] at lasts ⊢
          obtain ⟨before, effect⟩ := execute_through same wired operation lasts
          refine ⟨before, ?_⟩
          rw [complete_branch (by rw [effect]; exact executed), effect]
          rfl
  | jump jump =>
      obtain ⟨ended, polled⟩ := retire_through same (wired.land jump).expireDelay lasts
      rw [expireDelay_eq] at ended
      obtain ⟨before, landed⟩ := land_through same wired jump ended
      refine ⟨before, ?_⟩
      simp only [complete, landed, expireDelay_through, polled]
  | idle =>
      obtain ⟨before, polled⟩ := retire_through same wired lasts
      refine ⟨before, ?_⟩
      simp only [complete, polled]

theorem fetch_through (lasts : kind wired.fetch.2.bus) :
    kind wired.bus ∧
      (wired.through view).fetch = (wired.fetch.1, wired.fetch.2.through view) := by
  have passed : ∀ wired : Wired β,
      (wired.through view).passOpcode = wired.passOpcode.through view := by
    intro wired
    rw [passOpcode_eq, passOpcode_eq]
    rfl
  by_cases announced : (wired.read wired.registers.pc).1 = extendedOpcode
  · simp only [fetch, announced, if_true] at lasts
    obtain ⟨between, second⟩ :=
      nextByte_through same (wired.read wired.registers.pc).2.passOpcode lasts
    rw [passOpcode_eq] at between
    obtain ⟨before, opcode⟩ := read_through same wired wired.registers.pc between
    refine ⟨before, ?_⟩
    simp only [fetch, registers_through, opcode, announced, if_true, passed, second]
    rfl
  · have read : kind (wired.read wired.registers.pc).2.bus := by
      simp only [fetch, announced, if_false] at lasts
      split at lasts
      · change kind (passOpcode _).bus at lasts
        rwa [passOpcode_eq] at lasts
      · exact lasts
    obtain ⟨before, opcode⟩ := read_through same wired wired.registers.pc read
    refine ⟨before, ?_⟩
    simp only [fetch, registers_through, opcode, announced, if_false, passed]
    split <;> rfl

/-- A tick on a view of a bus is the view of the tick on the bus. -/
theorem tick_through (lasts : kind wired.tick.2.bus) :
    kind wired.bus ∧
      (wired.through view).tick = (wired.tick.1, wired.tick.2.through view) := by
  have kept : (wired.through view).cpu.phase = wired.cpu.phase := rfl
  cases phase : wired.cpu.phase with
  | fetching =>
      have fetched : kind wired.fetch.2.bus := by
        simp only [tick, phase] at lasts
        split at lasts
        all_goals
          rename_i outcome
          rw [outcome]
          exact lasts
      obtain ⟨before, seen⟩ := fetch_through same wired fetched
      refine ⟨before, ?_⟩
      simp only [tick, kept, phase, seen]
      rcases wired.fetch with ⟨_ | _, after⟩ <;> rfl
  | executing remaining stage =>
      by_cases more : 1 < remaining
      · simp only [tick, kept, phase, more, if_true] at lasts ⊢
        exact ⟨lasts, rfl⟩
      · simp only [tick, kept, phase, more, if_false] at lasts ⊢
        obtain ⟨before, seen⟩ := complete_through same wired stage lasts
        refine ⟨before, ?_⟩
        rw [seen]
        rfl
  | halted remaining =>
      by_cases more : 1 < remaining
      · simp only [tick, kept, phase, more, if_true] at lasts ⊢
        exact ⟨lasts, rfl⟩
      · simp only [tick, kept, phase, more, if_false] at lasts ⊢
        obtain ⟨before, seen⟩ := retire_through same wired lasts
        refine ⟨before, ?_⟩
        rw [seen]
        rfl

omit same wired in
theorem Retires.of_through (same : Bus.View view) {wired : Wired β} {polled : Wired γ}
    (retires : (wired.through view).Retires polled) :
    ∃ inner, wired.Retires inner ∧ polled = inner.through view := by
  cases retires with
  | operation phase due straight =>
      rw [(execute_through same.always wired _ trivial).2] at straight ⊢
      exact ⟨_, .operation phase due straight, expireDelay_through _⟩
  | jump phase due =>
      rw [(land_through same.always wired _ trivial).2]
      exact ⟨_, .jump phase due, expireDelay_through _⟩
  | idle phase due => exact ⟨_, .idle phase due, rfl⟩
  | halted phase due => exact ⟨_, .halted phase due, rfl⟩

end Wired

/-! What every access keeps of a bus, the processor keeps. -/

section Keeping

variable {β : Type} [Bus β] {holds : β → Prop}

/-- What neither a read nor a write of a bus undoes. -/
structure Bus.Keeps (holds : β → Prop) : Prop where
  read : ∀ {bus} address, holds bus → holds (Bus.read bus address).2
  write : ∀ {bus} address value, holds bus → holds (Bus.write bus address value)

@[reducible] def Bus.Keeps.bus (keeps : Bus.Keeps holds) : Bus { bus : β // holds bus } where
  read state address :=
    ((Bus.read state.val address).1,
      ⟨(Bus.read state.val address).2, keeps.read address state.property⟩)
  write state address value :=
    ⟨Bus.write state.val address value, keeps.write address value state.property⟩

theorem Bus.Keeps.view (keeps : Bus.Keeps holds) :
    @Bus.View _ _ keeps.bus _ (Subtype.val : { bus : β // holds bus } → β) :=
  @Bus.View.mk _ _ keeps.bus _ _ (fun _ _ => rfl) fun _ _ _ => rfl

namespace Wired

variable (keeps : Bus.Keeps holds) {wired polled : Wired β}

include keeps

theorem holds_execute (start : holds wired.bus) (operation : Operation) :
    holds (wired.execute operation).2.bus := by
  let _ := keeps.bus
  have whole : wired.execute operation = _ :=
    (execute_through keeps.view.always ⟨wired.cpu, ⟨wired.bus, start⟩⟩ operation trivial).2
  rw [whole]
  exact Subtype.property _

theorem holds_land (start : holds wired.bus) (jump : Jump) : holds (wired.land jump).bus := by
  let _ := keeps.bus
  have whole : wired.land jump = _ :=
    (land_through keeps.view.always ⟨wired.cpu, ⟨wired.bus, start⟩⟩ jump trivial).2
  rw [whole]
  exact Subtype.property _

theorem holds_retires (start : holds wired.bus) (retires : wired.Retires polled) :
    holds polled.bus := by
  cases retires with
  | operation =>
      rw [expireDelay_eq]
      exact holds_execute keeps start _
  | jump =>
      rw [expireDelay_eq]
      exact holds_land keeps start _
  | idle | halted => exact start

theorem holds_tick (start : holds wired.bus) : holds wired.tick.2.bus := by
  let _ := keeps.bus
  have whole : wired.tick = _ :=
    (tick_through keeps.view.always ⟨wired.cpu, ⟨wired.bus, start⟩⟩ trivial).2
  rw [whole]
  exact Subtype.property _

end Wired

end Keeping

/-! A recorder's log tells all that is done to the bus inside. -/

section Recording

variable {β : Type} [Bus β]

theorem Recorder.view_inner : Bus.View (Recorder.inner : Recorder β → β) := by
  constructor
  · intro recorder address
    obtain ⟨inner, active, accesses⟩ := recorder
    cases active <;> rfl
  · intro recorder address value
    obtain ⟨inner, active, accesses⟩ := recorder
    cases active <;> rfl

def replay (bus : β) (accesses : List Access) : β :=
  accesses.foldl (fun bus access =>
    match access with
    | .read _ _ => bus
    | .write address value => Bus.write bus address value) bus

theorem replay_append (bus : β) (earlier later : List Access) :
    replay bus (earlier ++ later) = replay (replay bus earlier) later :=
  List.foldl_append

theorem replay_keeps (holds : β → Prop) {accesses : List Access}
    (write : ∀ {bus address value}, .write address value ∈ accesses → holds bus →
      holds (Bus.write bus address value)) {bus : β} (start : holds bus) :
    holds (replay bus accesses) := by
  induction accesses generalizing bus with
  | nil => exact start
  | cons access rest ih =>
      have later := @ih fun among => write (List.mem_cons_of_mem _ among)
      cases access with
      | read address value => exact later start
      | write address value => exact later (write List.mem_cons_self start)

structure Recorder.Recounts (start : β) (recorder : Recorder β) : Prop where
  active : recorder.active = true
  inner : recorder.inner = replay start recorder.accesses.toList

theorem Recorder.keeps_recounts [Bus.Still β] (start : β) :
    Bus.Keeps (Recorder.Recounts start) := by
  constructor
  · intro recorder address recounts
    obtain ⟨inner, active, accesses⟩ := recorder
    obtain ⟨rfl, told⟩ := recounts
    refine ⟨rfl, ?_⟩
    change (Bus.read inner address).2 = replay start (accesses.push _).toList
    rw [Bus.Still.read_bus, Array.toList_push, replay_append]
    exact told
  · intro recorder address value recounts
    obtain ⟨inner, active, accesses⟩ := recorder
    obtain ⟨rfl, told⟩ := recounts
    refine ⟨rfl, ?_⟩
    change Bus.write inner address value = replay start (accesses.push _).toList
    rw [Array.toList_push, replay_append]
    exact congrArg (Bus.write · address value) told

namespace Wired

def recorded (wired : Wired β) : Wired (Recorder β) := ⟨wired.cpu, { inner := wired.bus }⟩

/-- The accesses to the bus that the next tick makes, in their order. -/
def accesses (wired : Wired β) : List Access := wired.recorded.tick.2.bus.accesses.toList

theorem recounts_recorded (wired : Wired β) : wired.recorded.bus.Recounts wired.bus := ⟨rfl, rfl⟩

theorem tick_recorded (wired : Wired β) :
    wired.tick = (wired.recorded.tick.1, wired.recorded.tick.2.through Recorder.inner) :=
  (tick_through Recorder.view_inner.always wired.recorded trivial).2

/-- A tick does to the bus what it writes, and nothing else. -/
theorem bus_tick [Bus.Still β] (wired : Wired β) :
    wired.tick.2.bus = replay wired.bus wired.accesses := by
  rw [tick_recorded]
  exact (holds_tick (Recorder.keeps_recounts wired.bus) wired.recounts_recorded).inner

end Wired

end Recording

end Dmg
