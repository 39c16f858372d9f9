import Dmg.Proofs.BusView

/-!
A tick is determined by the answers to its reads.  A bus that answers as another does, behind
everything that the tick does to the other, is treated in the same way.
-/

namespace Dmg

section Replaying

variable {β : Type} [Bus β] (start : β) (accesses : List Access)

theorem replay_read (address : UInt16) (value : UInt8) :
    replay start (accesses ++ [.read address value]) = replay start accesses :=
  replay_append start accesses [.read address value]

theorem replay_write (address : UInt16) (value : UInt8) :
    replay start (accesses ++ [.write address value]) =
      Bus.write (replay start accesses) address value :=
  replay_append start accesses [.write address value]

end Replaying

/-- What has been done to a bus since it stood at the start.  It answers as that bus would now. -/
structure Transcript {β : Type} (start : β) where
  accesses : List Access

namespace Transcript

variable {β γ : Type} [Bus β] [Bus γ] {start : β}

instance : Bus (Transcript start) where
  read transcript address :=
    let value := (Bus.read (replay start transcript.accesses) address).1
    (value, ⟨transcript.accesses ++ [.read address value]⟩)
  write transcript address value := ⟨transcript.accesses ++ [.write address value]⟩

def onto (other : γ) (transcript : Transcript start) : Recorder γ :=
  { inner := replay other transcript.accesses, accesses := transcript.accesses.toArray }

/-- The other bus answers as the first behind every beginning of the accesses. -/
def Echoes (start : β) (other : γ) (accesses : List Access) : Prop :=
  ∀ earlier, earlier <+: accesses → ∀ address,
    (Bus.read (replay other earlier) address).1 = (Bus.read (replay start earlier) address).1

theorem write_onto (other : γ) (transcript : Transcript start) (address : UInt16)
    (value : UInt8) :
    Bus.write (transcript.onto other) address value =
      (Bus.write transcript address value).onto other := by
  change Recorder.note ⟨Bus.write (replay other transcript.accesses) address value, true, _⟩ _ =
    onto other ⟨transcript.accesses ++ [.write address value]⟩
  simp only [onto, replay_write, Recorder.note, if_true, List.push_toArray]

theorem read_onto [Bus.Still γ] (other : γ) (transcript : Transcript start) {address : UInt16}
    {value : UInt8} (answer : (Bus.read (replay start transcript.accesses) address).1 = value)
    (echo : (Bus.read (replay other transcript.accesses) address).1 = value) :
    Bus.read (transcript.onto other) address =
      ((Bus.read transcript address).1, (Bus.read transcript address).2.onto other) := by
  have told : Bus.read transcript address =
      (value, ⟨transcript.accesses ++ [.read address value]⟩) := by
    rw [← answer]
    rfl
  have answered : Bus.read (transcript.onto other) address =
      (value, Recorder.note ⟨(Bus.read (replay other transcript.accesses) address).2, true,
        transcript.accesses.toArray⟩ (.read address value)) := by
    rw [← echo]
    rfl
  rw [told, answered, Bus.Still.read_bus]
  simp only [onto, replay_read, Recorder.note, if_true, List.push_toArray]

theorem view_onto [Bus.Still β] (start : β) :
    Bus.View (onto start : Transcript start → Recorder β) := by
  constructor
  · intro transcript address
    exact read_onto start transcript rfl rfl
  · intro transcript address value
    exact write_onto start transcript address value

/-- As long as the transcript is a beginning of the accesses, the echo cannot be told apart. -/
theorem viewWhile_onto [Bus.Still γ] {other : γ} {accesses : List Access}
    (echoes : Echoes start other accesses) :
    Bus.ViewWhile (fun transcript => transcript.accesses <+: accesses)
      (onto other : Transcript start → Recorder γ) := by
  constructor
  · intro transcript address begins
    have before : transcript.accesses <+: accesses := (List.prefix_append _ _).trans begins
    exact ⟨before, read_onto other transcript rfl (echoes _ before address)⟩
  · intro transcript address value begins
    have before : transcript.accesses <+: accesses := (List.prefix_append _ _).trans begins
    exact ⟨before, write_onto other transcript address value⟩

end Transcript

namespace Wired

variable {β γ : Type} [Bus β] [Bus γ]

def transcribed (wired : Wired β) : Wired (Transcript wired.bus) := ⟨wired.cpu, ⟨[]⟩⟩

theorem tick_transcribed [Bus.Still β] (wired : Wired β) :
    wired.recorded.tick = (wired.transcribed.tick.1,
      wired.transcribed.tick.2.through (Transcript.onto wired.bus)) :=
  (tick_through (Transcript.view_onto wired.bus).always wired.transcribed trivial).2

/-- The tick of a processor on a bus that answers as the one of its twin does. -/
theorem tick_of_echoes [Bus.Still β] [Bus.Still γ] {left : Wired β} {right : Wired γ}
    (cpu : right.cpu = left.cpu)
    (echoes : Transcript.Echoes left.bus right.bus left.accesses) :
    right.tick.1 = left.tick.1 ∧ right.tick.2.cpu = left.tick.2.cpu ∧
      right.accesses = left.accesses := by
  have twin := left.tick_transcribed
  have own : left.transcribed.tick.2.bus.accesses = left.accesses :=
    (congrArg (·.2.bus.accesses.toList) twin).symm
  have begins : left.transcribed.tick.2.bus.accesses <+: left.accesses := by
    simp only [own, List.prefix_rfl]
  have echoed : right.recorded.tick = (left.transcribed.tick.1,
      left.transcribed.tick.2.through (Transcript.onto right.bus)) := by
    have start : right.recorded = left.transcribed.through (Transcript.onto right.bus) :=
      congrArg (Wired.mk · _) cpu
    rw [start]
    exact (tick_through (Transcript.viewWhile_onto echoes) left.transcribed begins).2
  rw [tick_recorded left, tick_recorded right, accesses, echoed, twin]
  exact ⟨rfl, rfl, own⟩

end Wired

end Dmg
