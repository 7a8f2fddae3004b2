import CrossBuild.FileSystem.Basic
import CrossBuild.FileSystem.Error

/-!
# Where a path leads

Walking along the parts of a path, through links. Each link spends one of a fixed number, so that
links which lead in a circle end a walk.
-/

namespace CrossBuild

namespace FileSystem

/-- The longest name, in bytes. -/
def maxNameBytes : Nat := 255

/-- The shortest path that is too long, in bytes. -/
def pathByteLimit : Nat := 4096

/-- How many links a walk may take. -/
def maxLinks : Nat := 40

/-- How far a walk comes without taking a link. -/
inductive Progress
  | arrived (place : Location)
  | link (here : Location) (target : String) (rest : List String)
  | fault (e : Errno)
  deriving Repr

/-- Walks until the end or the next link. What stands at `here` has to be a directory for every
part, a dot included; the last part may be missing, and a link in last place is taken only when
`follow` says so. -/
def advance (fs : FileSystem) (follow : Bool) (here : Location) : List String → Progress
  | [] => .arrived here
  | part :: rest =>
    if !fs.isDirectoryAt here then .fault .notDirectory
    else if part = "." then advance fs follow here rest
    else if part = ".." then advance fs follow here.dropLast rest
    else if part.utf8ByteSize > maxNameBytes then .fault .nameTooLong
    else
      match fs.node? (here ++ [part]) with
      | none => if rest.isEmpty then .arrived (here ++ [part]) else .fault .noEntry
      | some (.link target) =>
        if rest.isEmpty && !follow then .arrived (here ++ [part]) else .link here target rest
      | some _ => advance fs follow (here ++ [part]) rest

/-- The parts of a link's target; a slash at the end asks for a directory, as a dot does. -/
def linkParts (target : String) : List String :=
  let parts := (Text.splitString '/' target).filter (· != "")
  if target.endsWith "/" then parts ++ ["."] else parts

/-- Walks to the end, taking at most `links` links. -/
def walk (fs : FileSystem) (follow : Bool) (links : Nat) (here : Location) (parts : List String) :
    Except Errno Location :=
  match fs.advance follow here parts with
  | .arrived l => .ok l
  | .fault e => .error e
  | .link here target rest =>
    match links with
    | 0 => .error .linkLoop
    | links + 1 =>
      fs.walk follow links (if target.startsWith "/" then [] else here) (linkParts target ++ rest)

/-- Where a path starts. -/
def origin (fs : FileSystem) (p : Path) : Location :=
  if p.isAbsolute then [] else fs.workingDirectory

/-- The location a path leads to; nothing has to stand there, but it lies in a directory. -/
def locate (fs : FileSystem) (follow : Bool) (p : Path) : Except Errno Location :=
  if p.toString.utf8ByteSize ≥ pathByteLimit then .error .nameTooLong
  else fs.walk follow maxLinks (fs.origin p) p.parts

end FileSystem

end CrossBuild
