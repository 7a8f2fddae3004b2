import CrossBuild.Archive.Zip
import CrossBuild.FileSystem.Operations
import CrossBuild.Path.Lexical

/-!
# Unpacking archives

Writing the members of an archive into a directory. No member leaves the directory: empty parts of
its name and dots are dropped.
-/

namespace CrossBuild.Zip

open FileSystem

/-- The parts of a member's name that count. -/
def cleanParts (name : String) : List String :=
  (Text.splitString '/' name).filter fun part => part != "" && part != "." && part != ".."

/-- Where a member goes, with the double dots of the directory's path taken away. -/
def targetOf (directory : Path) (name : String) : Path :=
  let text := Lexical.shorten directory.toString.toList
  let base := Path.ofString (String.ofList text)
  ⟨base.anchor, base.parts ++ cleanParts name⟩

/-- Whether something stands at a path, as far as can be told. -/
def seemsPresent (fs : FileSystem) (p : Path) : Bool :=
  match fs.isPresent p with
  | .ok b => b
  | .error _ => false

/-- Lets a failure pass that only says that something is there already. -/
def unlessThere : Except Failure Unit → Task FileSystem Unit
  | .error (.file (.fault .exists _)) => return ()
  | r => Task.ofExcept r

/-- Creates the parents that a path lacks, and then a directory. -/
def makeMissing (p : Path) : Task FileSystem Unit := do
  if _h : p.parts = [] then return ()
  else
    let parent ← Task.ask fun fs => .ok (seemsPresent fs p.parent)
    if !parent then unlessThere (← Task.attempt (makeMissing p.parent))
    makeDirectory p
termination_by p.parts.length
decreasing_by
  simp only [Path.parent, List.length_dropLast]
  have := List.length_pos_iff.2 _h
  omega

/-- Whether a member is a directory. -/
def isDirectoryName (name : String) : Bool :=
  name.toList.getLast? == some '/'

/-- Writes a member. -/
def extractEntry (bytes : Bytes) (directory : Path) (e : Entry) :
    Task FileSystem (Option Fault) := do
  let target := targetOf directory e.name
  let upper := target.parent
  if !(← Task.ask fun fs => .ok (seemsPresent fs upper)) then makeMissing upper
  if isDirectoryName e.name then
    let there ← Task.ask fun fs => .ok ((fs.isDirectory target).toOption.getD false)
    if !there then makeDirectory target
    return none
  else
    match content bytes e with
    | .ok content =>
      write target content
      return none
    | .error (fault, some begun) =>
      write target begun
      return some fault
    | .error (fault, none) => return some fault

/-- Writes members until one is at fault. -/
def extractEntries (bytes : Bytes) (directory : Path) :
    List Entry → Task FileSystem (Option Fault)
  | [] => return none
  | e :: rest => do
    match ← extractEntry bytes directory e with
    | some fault => return some fault
    | none => extractEntries bytes directory rest

/-- The entries to write: for every name in the directory its last entry. -/
def chosen (all : List Entry) : List Entry :=
  all.map fun e => ((all.filter fun other => other.name == e.name).getLast?).getD e

/-- Writes all members of an archive into a directory. Gives the fault that ended it, if any. -/
def extract (bytes : Bytes) (directory : Path) : Task FileSystem (Option Fault) :=
  match entries bytes with
  | .error fault => return some fault
  | .ok all => extractEntries bytes directory (chosen all)

end CrossBuild.Zip
