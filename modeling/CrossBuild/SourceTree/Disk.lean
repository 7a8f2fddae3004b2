import CrossBuild.FileSystem.Operations
import CrossBuild.FileSystem.Resolve
import CrossBuild.SourceTree.Basic

/-!
# Source trees on disk

Reading a directory as a source tree and writing a source tree into a directory.
-/

namespace CrossBuild.SourceTree

open FileSystem

/-- Reads a directory, without those whose resolved path is excluded. Links are followed; `depth`
bounds the nesting, which is less than the longest path. -/
def scanTo (fs : FileSystem) (exclude : List Path) : Nat → Path → Except Failure SourceTree
  | 0, p => .error (faultAt .nameTooLong p)
  | depth + 1, p => do
    let names ← fs.names p
    let entries ← names.filterMapM fun name => do
      let place : Path := ⟨p.anchor, p.parts ++ [name]⟩
      if ← fs.isDirectory place then
        if exclude.contains (← fs.resolve place) then return none
        return some (name, Entry.directory (← scanTo fs exclude depth place))
      else if ScriptName.isScript name then
        return some (name, .script (some (← fs.text place)))
      else return some (name, .asset (some place))
    return ofEntries entries

/-- Reads a directory, without those whose resolved path is excluded. -/
def scan (fs : FileSystem) (exclude : List Path) (p : Path) : Except Failure SourceTree :=
  scanTo fs exclude pathByteLimit p

/-- Writes a tree into a directory that is there. Gives the number of files written. -/
def writeInto (p : Path) : SourceTree → Task FileSystem Nat
  | .nil => return 0
  | .script name text rest => do
    writeText (p / name) (text.getD "")
    return 1 + (← writeInto p rest)
  | .asset name source rest => do
    match source with
    | none => throw (.assetWithoutSource name)
    | some source => copyFile source (p / name)
    return 1 + (← writeInto p rest)
  | .directory name children rest => do
    makeDirectories (p / name)
    let count ← writeInto (p / name) children
    return count + (← writeInto p rest)

/-- Writes a tree into a directory, which is created if it is missing. -/
def write (t : SourceTree) (p : Path) : Task FileSystem Nat := do
  makeDirectories p
  writeInto p t

end CrossBuild.SourceTree
