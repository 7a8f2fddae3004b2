import CrossBuild.Assoc
import CrossBuild.Text.Utf8

/-!
# File systems

A file system is what stands at each location. The laws say what stands where after something is
put, removed, or removed with all that lies below.
-/

namespace CrossBuild

/-- The names on the way from the root. -/
abbrev Location := List String

/-- What can stand at a location. -/
inductive Node
  | file (content : Bytes) (executable : Bool)
  | directory
  | link (target : String)
  deriving DecidableEq, Repr

/-- Files, directories and links by location, and the directory that relative paths start at. -/
structure FileSystem where
  nodes : List (Location × Node)
  workingDirectory : Location
  deriving Repr

namespace FileSystem

/-- What stands at a location. The root is always a directory. -/
def node? (fs : FileSystem) (place : Location) : Option Node :=
  if place = [] then some .directory else valueOf? place fs.nodes

/-- Whether a directory stands at a location. -/
def isDirectoryAt (fs : FileSystem) (place : Location) : Bool :=
  fs.node? place == some .directory

def put (fs : FileSystem) (place : Location) (node : Node) : FileSystem :=
  { fs with nodes := assign place node fs.nodes }

def remove (fs : FileSystem) (place : Location) : FileSystem :=
  { fs with nodes := fs.nodes.filter fun entry => entry.1 != place }

/-- Removes what stands at a location and everything below it. -/
def removeBelow (fs : FileSystem) (place : Location) : FileSystem :=
  { fs with nodes := fs.nodes.filter fun entry => !place.isPrefixOf entry.1 }

/-- The name of a location in the directory `place`, if it is directly in it. -/
def childName? (place other : Location) : Option String :=
  match other.getLast? with
  | some name => if other.dropLast = place then some name else none
  | none => none

/-- The names in a directory, each once, in the order of their code points. -/
def childNames (fs : FileSystem) (place : Location) : List String :=
  (fs.nodes.filterMap fun entry => childName? place entry.1).eraseDups.mergeSort fun a b => !(b < a)

/-- Moves what stands at a location, and everything below it, to another location. -/
def moveBelow (fs : FileSystem) (source target : Location) : FileSystem :=
  { fs with nodes := fs.nodes.map fun entry =>
      if source.isPrefixOf entry.1 then (target ++ entry.1.drop source.length, entry.2) else entry }

theorem node?_put (fs : FileSystem) {place : Location} (h : place ≠ []) (node : Node)
    (other : Location) :
    (fs.put place node).node? other = if place = other then some node else fs.node? other := by
  unfold node? put
  by_cases ho : other = []
  · subst ho
    rw [if_pos rfl, if_pos rfl, if_neg h]
  · rw [if_neg ho, if_neg ho]
    exact valueOf?_assign place other node fs.nodes

theorem valueOf?_filter {β : Type} (keep : Location → Bool) (pairs : List (Location × β))
    (other : Location) :
    valueOf? other (pairs.filter fun entry => keep entry.1) =
      if keep other then valueOf? other pairs else none := by
  induction pairs with
  | nil => simp [valueOf?]
  | cons p rest ih =>
    obtain ⟨k, v⟩ := p
    by_cases hk : keep k
    · by_cases ho : k = other
      · simp [valueOf?, hk, ← ho]
      · simp [valueOf?, hk, ho, ih]
    · by_cases ho : k = other
      · subst ho
        simp [hk, ih]
      · simp [valueOf?, hk, ho, ih]

theorem node?_remove (fs : FileSystem) (place : Location) {other : Location} (ho : other ≠ []) :
    (fs.remove place).node? other = if other = place then none else fs.node? other := by
  unfold node? remove
  rw [if_neg ho, if_neg ho]
  have := valueOf?_filter (fun l => l != place) fs.nodes other
  by_cases h : other = place <;> simp_all

theorem node?_remove_of_ne {fs : FileSystem} {place other : Location} (h : other ≠ place) :
    (fs.remove place).node? other = fs.node? other := by
  by_cases ho : other = []
  · subst ho
    rfl
  · rw [node?_remove fs place ho, if_neg h]

/-- What stands after a removal stood there before. -/
theorem node?_of_remove {fs : FileSystem} {place other : Location} {node : Node}
    (h : (fs.remove place).node? other = some node) : fs.node? other = some node := by
  by_cases ho : other = []
  · subst ho
    exact h
  · rw [node?_remove fs place ho] at h
    split at h
    · cases h
    · exact h

theorem node?_removeBelow (fs : FileSystem) (place : Location) {other : Location}
    (ho : other ≠ []) :
    (fs.removeBelow place).node? other = if place <+: other then none else fs.node? other := by
  unfold node? removeBelow
  rw [if_neg ho, if_neg ho]
  rw [valueOf?_filter (fun l => !place.isPrefixOf l) fs.nodes other]
  by_cases h : place <+: other
  · simp [h, List.isPrefixOf_iff_prefix.2 h]
  · simp [h, Bool.eq_false_iff.2 (mt List.isPrefixOf_iff_prefix.1 h)]

theorem node?_removeBelow_below {fs : FileSystem} {place other : Location} (h : place <+: other)
    (hp : place ≠ []) : (fs.removeBelow place).node? other = none := by
  rw [node?_removeBelow fs place (h.ne_nil hp), if_pos h]

theorem node?_removeBelow_outside {fs : FileSystem} {place other : Location}
    (h : ¬ place <+: other) : (fs.removeBelow place).node? other = fs.node? other := by
  by_cases ho : other = []
  · subst ho
    rfl
  · rw [node?_removeBelow fs place ho, if_neg h]

theorem node?_of_removeBelow {fs : FileSystem} {place other : Location} {node : Node}
    (h : (fs.removeBelow place).node? other = some node) : fs.node? other = some node := by
  by_cases ho : other = []
  · subst ho
    exact h
  · rw [node?_removeBelow fs place ho] at h
    split at h
    · cases h
    · exact h

end FileSystem

end CrossBuild
