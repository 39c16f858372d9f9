import Dmg.CommandLine.Run
import Dmg.Image.Png

/-!
The program: the command line on the computer's own files and streams.
-/

namespace Dmg

def HostError.ofSystem : IO.Error → HostError
  | .noFileOrDirectory .. => .notFound
  | error => .other (toString error)

def attempt {α : Type} (action : IO α) : IO (Except HostError α) := do
  try
    return .ok (← action)
  catch error => return .error (HostError.ofSystem error)

instance : Host IO where
  readFile path := attempt do return (← IO.FS.readBinFile path).toList
  writePicture path picture := attempt (IO.FS.writeBinFile path ⟨Png.encode picture⟩)
  makeDirectories path := attempt (IO.FS.createDirAll path)
  send bytes := do
    let output ← IO.getStdout
    output.write ⟨bytes⟩
    output.flush
  report line := IO.eprintln line

end Dmg

def main (arguments : List String) : IO UInt32 :=
  Dmg.CommandLine.run arguments
