import Dmg.Proofs.Fault
import Dmg.Proofs.Lockstep
import Dmg.Proofs.RecordingFolder
import Dmg.Proofs.Slide

/-!
Recordings.  A frame that passes leaves a picture of the display in a file of its own; the first
that faults ends the recording and leaves none.
-/

namespace Dmg

namespace Machine

section Recording

variable {φ : Type} [Host (StateM φ)] {folder : Folder φ}

end Recording

end Machine

end Dmg
