import Dmg.Video.Shade

/-!
What the command line needs from the computer it runs on: files, and two streams of text.
-/

namespace Dmg

inductive HostError
  | notFound
  | alreadyExists
  | notDirectory
  | isDirectory
  | other (text : String)
deriving DecidableEq

def HostError.message : HostError → String
  | .notFound => "No such file or directory (os error 2)"
  | .alreadyExists => "File exists (os error 17)"
  | .notDirectory => "Not a directory (os error 20)"
  | .isDirectory => "Is a directory (os error 21)"
  | .other text => text

class Host (m : Type → Type) where
  readFile : String → m (Except HostError (List UInt8))
  writePicture : String → Picture → m (Except HostError Unit)
  makeDirectories : String → m (Except HostError Unit)
  send : Array UInt8 → m Unit
  report : String → m Unit

def joinPath (directory name : String) : String :=
  if directory.isEmpty || directory.endsWith "/" then directory ++ name
  else directory ++ "/" ++ name

end Dmg
