import CrossBuild.Path

/-!
# Errors of file operations

The faults that the system reports, and the refusals of operations on whole files and trees.
-/

namespace CrossBuild

/-- The faults of file operations. -/
inductive Errno
  | noEntry
  | busy
  | exists
  | notDirectory
  | isDirectory
  | invalid
  | nameTooLong
  | notEmpty
  | linkLoop
  deriving DecidableEq, Repr

def Errno.number : Errno → Nat
  | .noEntry => 2
  | .busy => 16
  | .exists => 17
  | .notDirectory => 20
  | .isDirectory => 21
  | .invalid => 22
  | .nameTooLong => 36
  | .notEmpty => 39
  | .linkLoop => 40

def Errno.text : Errno → String
  | .noEntry => "No such file or directory"
  | .busy => "Device or resource busy"
  | .exists => "File exists"
  | .notDirectory => "Not a directory"
  | .isDirectory => "Is a directory"
  | .invalid => "Invalid argument"
  | .nameTooLong => "File name too long"
  | .notEmpty => "Directory not empty"
  | .linkLoop => "Too many levels of symbolic links"

/-- Why a file operation, or the start of a tool, fails. -/
inductive FileError
  | fault (e : Errno) (path : String)
  | treeAtFile (path : Path)
  | treeAtLink
  | sameFile (source target : Path)
  | noSourceDirectory (path : Path)
  | other (text : String)
  deriving DecidableEq, Repr

/-- The text of a fault: its number, its words and what it is about. -/
def Errno.message (e : Errno) (subject : String) : String :=
  s!"[Errno {e.number}] {e.text}: {subject}"

def FileError.message : FileError → String
  | .fault e path => e.message (Text.quoted path)
  | .treeAtFile path => Errno.notDirectory.message path.quoted
  | .treeAtLink => "Cannot call rmtree on a symbolic link"
  | .sameFile source target => source.quoted ++ " and " ++ target.quoted ++ " are the same file"
  | .noSourceDirectory path => s!"Source directory not found: {path}"
  | .other text => text

end CrossBuild
