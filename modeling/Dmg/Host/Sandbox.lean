import Dmg.Host.Basic
import Dmg.Image.Png

/-!
A host in memory: a small tree of directories and files, and what was written to the two streams.
Paths start at its root, and whatever lies outside is not found.
-/

namespace Dmg

abbrev Route := List String

def splitNames : List Char → List (List Char)
  | [] => [[]]
  | '/' :: rest => [] :: splitNames rest
  | symbol :: rest =>
      match splitNames rest with
      | [] => [[symbol]]
      | name :: names => (symbol :: name) :: names

inductive SandboxFile
  | bytes (content : List UInt8)
  | picture (content : Picture)

structure Sandbox where
  directories : List Route := [[]]
  files : List (Route × SandboxFile) := []
  output : Array UInt8 := #[]
  errors : Array String := #[]

namespace Sandbox

def isFile (sandbox : Sandbox) (place : Route) : Bool :=
  (sandbox.files.lookup place).isSome

def follow (sandbox : Sandbox) (here : Route) : List String → Except HostError Route
  | [] => .ok here
  | name :: rest =>
      if name = "" ∨ name = "." then sandbox.follow here rest
      else if name = ".." then
        if here.isEmpty then .error .notFound else sandbox.follow here.dropLast rest
      else
        let place := here ++ [name]
        if rest.isEmpty then .ok place
        else if sandbox.directories.contains place then sandbox.follow place rest
        else if sandbox.isFile place then .error .notDirectory
        else .error .notFound

def namesOf (path : String) : List String :=
  (splitNames path.toList).map String.ofList

/-- The place of a path, if its directory exists and the place is not a directory itself. -/
def resolve (sandbox : Sandbox) (path : String) : Except HostError Route :=
  if path.isEmpty || path.startsWith "/" then .error .notFound
  else
    match sandbox.follow [] (namesOf path) with
    | .ok place => if sandbox.directories.contains place then .error .isDirectory else .ok place
    | .error error => .error error

def put (sandbox : Sandbox) (place : Route) (file : SandboxFile) : Sandbox :=
  { sandbox with files := sandbox.files.filter (·.1 != place) ++ [(place, file)] }

def read (sandbox : Sandbox) (path : String) : Except HostError (List UInt8) :=
  match sandbox.resolve path with
  | .error error => .error error
  | .ok place =>
      match sandbox.files.lookup place with
      | some (.bytes content) => .ok content
      | some (.picture content) => .ok (Png.encode content).toList
      | none => .error .notFound

def makeRoute (sandbox : Sandbox) (here : Route) : List String → Except HostError Sandbox
  | [] => .ok sandbox
  | name :: rest =>
      if name = "" ∨ name = "." then sandbox.makeRoute here rest
      else if name = ".." then sandbox.makeRoute here.dropLast rest
      else
        let place := here ++ [name]
        if sandbox.directories.contains place then sandbox.makeRoute place rest
        else if sandbox.isFile place then
          .error (if rest.isEmpty then .alreadyExists else .notDirectory)
        else { sandbox with directories := sandbox.directories ++ [place] }.makeRoute place rest

def withFile (path : String) (content : List UInt8) : Sandbox :=
  let place := (namesOf path).filter fun name => name != "" && name != "."
  let directories := (List.range place.length).map place.take
  put { directories } place (.bytes content)

def errorLines (sandbox : Sandbox) : List String :=
  sandbox.errors.toList.flatMap (·.splitOn "\n")

def pictures (sandbox : Sandbox) : List (String × Picture) :=
  sandbox.files.filterMap fun (place, file) =>
    match file with
    | .picture content => some (String.intercalate "/" place, content)
    | .bytes _ => none

instance : Host (StateM Sandbox) where
  readFile path := do return (← get).read path
  writePicture path picture := modifyGet fun sandbox =>
    match sandbox.resolve path with
    | .ok place => (.ok (), sandbox.put place (.picture picture))
    | .error error => (.error error, sandbox)
  makeDirectories path := modifyGet fun sandbox =>
    match sandbox.makeRoute [] (namesOf path) with
    | .ok sandbox => (.ok (), sandbox)
    | .error error => (.error error, sandbox)
  send bytes := modify fun sandbox => { sandbox with output := sandbox.output ++ bytes }
  report line := modify fun sandbox => { sandbox with errors := sandbox.errors.push line }

end Sandbox

end Dmg
