import Dmg.Host.Basic
import Dmg.Machine.Basic

/-!
Pictures of a running machine.  A recording is one file for each frame, numbered from one; it ends
at the first frame that faults, and that frame has no file.
-/

namespace Dmg

inductive RecordingError
  | machine (error : MachineError)
  | host (error : HostError)
deriving DecidableEq

def RecordingError.message : RecordingError → String
  | .machine error => error.message
  | .host error => error.message

def frameName (index : Nat) : String := paddedDecimal 6 index ++ ".png"

namespace Machine

variable {m : Type → Type} [Monad m] [Host m]

def savePicture (machine : Machine) (path : String) : m (Except HostError Unit) :=
  Host.writePicture path machine.picture

/-- Records frames from the given number on.  `attend` is what happens after each run, whether it
reached the end of the frame or not. -/
@[specialize] def recordFrames (attend : Machine → m Machine) (directory : String) :
    Nat → Nat → Machine → m (Except RecordingError Unit × Machine)
  | _, 0, machine => pure (.ok (), machine)
  | index, count + 1, machine => do
      let (outcome, machine) := machine.runFrame
      let machine ← attend machine
      match outcome with
      | .error error => pure (.error (.machine error), machine)
      | .ok _ =>
          match ← machine.savePicture (joinPath directory (frameName index)) with
          | .error error => pure (.error (.host error), machine)
          | .ok _ => recordFrames attend directory (index + 1) count machine

@[specialize] def record (attend : Machine → m Machine) (machine : Machine) (directory : String)
    (count : Nat) : m (Except RecordingError Unit × Machine) := do
  let frames := joinPath directory "frames"
  match ← Host.makeDirectories frames with
  | .error error => pure (.error (.host error), machine)
  | .ok _ =>
      let (outcome, machine) ← recordFrames attend frames 1 count machine
      match outcome with
      | .error _ => pure ()
      | .ok _ => Host.report ("Captured " ++ Nat.repr count ++ " frames to " ++ frames)
      pure (outcome, machine)

end Machine

end Dmg
