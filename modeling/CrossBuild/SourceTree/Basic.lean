import CrossBuild.Assoc
import CrossBuild.ScriptName

/-!
# Source trees

The content of a directory as a value: scripts with their text, other files by where they come
from, and directories. A name occurs once in a directory; setting it again keeps its place.
-/

namespace CrossBuild

/-- What a directory holds, in order. -/
inductive SourceTree
  | nil
  | script (name : String) (text : Option String) (rest : SourceTree)
  | asset (name : String) (source : Option Path) (rest : SourceTree)
  | directory (name : String) (children rest : SourceTree)
  deriving DecidableEq, Repr, Inhabited

/-- One thing in a directory. -/
inductive SourceTree.Entry
  | script (text : Option String)
  | asset (source : Option Path)
  | directory (children : SourceTree)
  deriving DecidableEq, Repr, Inhabited

namespace SourceTree

def Entry.isFile : Entry → Bool
  | .directory _ => false
  | _ => true

/-- The names in a directory. -/
def names : SourceTree → List String
  | .nil => []
  | .script name _ rest | .asset name _ rest | .directory name _ rest => name :: rest.names

/-- What a directory holds, by name. -/
def entries : SourceTree → List (String × Entry)
  | .nil => []
  | .script name text rest => (name, .script text) :: rest.entries
  | .asset name source rest => (name, .asset source) :: rest.entries
  | .directory name children rest => (name, .directory children) :: rest.entries

/-- A directory with one more thing in front. -/
def cons (name : String) (entry : Entry) (rest : SourceTree) : SourceTree :=
  match entry with
  | .script text => .script name text rest
  | .asset source => .asset name source rest
  | .directory children => .directory name children rest

/-- The directory that holds the given things. -/
def ofEntries : List (String × Entry) → SourceTree
  | [] => .nil
  | (name, entry) :: rest => cons name entry (ofEntries rest)

@[simp] theorem entries_cons (name : String) (entry : Entry) (rest : SourceTree) :
    (cons name entry rest).entries = (name, entry) :: rest.entries := by
  cases entry <;> rfl

@[simp] theorem entries_ofEntries (l : List (String × Entry)) : (ofEntries l).entries = l := by
  induction l with
  | nil => rfl
  | cons p l ih => simp [ofEntries, ih]

theorem names_eq_map_entries (t : SourceTree) : t.names = t.entries.map Prod.fst := by
  induction t with
  | nil => rfl
  | script name text rest ih => simp [names, entries, ih]
  | asset name source rest ih => simp [names, entries, ih]
  | directory name children rest _ ih => simp [names, entries, ih]

/-- The directory with a thing of this name: in its old place, or at the end. -/
def insert (t : SourceTree) (name : String) (entry : Entry) : SourceTree :=
  ofEntries (assign name entry t.entries)

/-- What stands under a name. -/
def child? (t : SourceTree) (name : String) : Option Entry :=
  valueOf? name t.entries

/-- What stands at the end of a way of names. -/
def get? (t : SourceTree) : List String → Option Entry
  | [] => some (.directory t)
  | name :: path =>
    match t.child? name, path with
    | some entry, [] => some entry
    | some (.directory children), path => children.get? path
    | _, _ => none

/-- The paths of all files, each after the text `before`. -/
def filesFrom (before : String) : SourceTree → List String
  | .nil => []
  | .script name _ rest | .asset name _ rest => (before ++ name) :: filesFrom before rest
  | .directory name children rest =>
    filesFrom (before ++ name ++ "/") children ++ filesFrom before rest

/-- The paths of all files. -/
def files (t : SourceTree) : List String :=
  filesFrom "" t

end SourceTree

end CrossBuild
