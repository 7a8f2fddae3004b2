import CrossBuild.Proofs.FileSystem.Agree

/-!
# Paths read in another directory

The same files can be seen from several working directories. A path that begins at the root leads to the
same place from everywhere. A relative path of names leads from each directory to another place, if there
are no links.
-/

namespace CrossBuild

namespace FileSystem

variable {fs : FileSystem} {d d' : Location} {p : Path} {follow : Bool}

/-- The same files, seen from another directory. -/
def seenFrom (fs : FileSystem) (d : Location) : FileSystem :=
  { fs with workingDirectory := d }

@[simp] theorem node?_seenFrom (l : Location) : (fs.seenFrom d).node? l = fs.node? l := rfl

@[simp] theorem isDirectoryAt_seenFrom (l : Location) :
    (fs.seenFrom d).isDirectoryAt l = fs.isDirectoryAt l := rfl

theorem Unlinked.seenFrom (hu : fs.Unlinked) (d : Location) : (fs.seenFrom d).Unlinked := hu

@[simp] theorem advance_seenFrom (parts : List String) : ∀ here : Location,
    (fs.seenFrom d).advance follow here parts = fs.advance follow here parts := by
  induction parts with
  | nil => exact fun _ => rfl
  | cons part rest ih =>
    intro here
    simp only [advance, isDirectoryAt_seenFrom, node?_seenFrom, ih]

@[simp] theorem walk_seenFrom (links : Nat) : ∀ (here : Location) (parts : List String),
    (fs.seenFrom d).walk follow links here parts = fs.walk follow links here parts := by
  induction links with
  | zero =>
    intro here parts
    rw [walk, walk, advance_seenFrom]
  | succ links ih =>
    intro here parts
    rw [walk, walk, advance_seenFrom]
    simp only [ih]

/-- A path that begins at the root leads from every directory to the same place. -/
theorem place_seenFrom (habs : p.isAbsolute = true) :
    (fs.seenFrom d).place follow p = fs.place follow p := by
  unfold place locate
  rw [origin_of_isAbsolute habs, origin_of_isAbsolute habs, walk_seenFrom]

theorem origin_seenFrom (hrelative : p.isAbsolute = false) : (fs.seenFrom d).origin p = d := by
  unfold origin
  rw [hrelative]
  rfl

/-- Without links, a relative path of names leads down from where it starts. -/
theorem Unlinked.place_of_relative (hu : fs.Unlinked) (hrelative : p.isAbsolute = false)
    (hnames : ∀ part ∈ p.parts, IsName part) {l : Location}
    (h : (fs.seenFrom d).place follow p = .ok l) : l = d ++ p.parts := by
  rw [(hu.seenFrom d).place_eq h, origin_seenFrom hrelative]
  exact foldl_tread_of_names (fun part hpart => (hnames part hpart).2) d

/-- Without links, a relative path of names leads from different directories to different places. -/
theorem Unlinked.place_ne (hu : fs.Unlinked) (hrelative : p.isAbsolute = false)
    (hnames : ∀ part ∈ p.parts, IsName part) (hd : d ≠ d') {l l' : Location}
    (h : (fs.seenFrom d).place follow p = .ok l) (h' : (fs.seenFrom d').place follow p = .ok l') :
    l ≠ l' := by
  rw [hu.place_of_relative hrelative hnames h, hu.place_of_relative hrelative hnames h']
  exact fun heq => hd (List.append_cancel_right heq)

end FileSystem

/-! ## Paths that are handed on as texts -/

/-- The text of a path, read in a directory, leads wherever the path itself leads from another one. -/
def Path.Denotes (p : Path) (d d' : Location) : Prop :=
  ∀ (fs : FileSystem) (follow : Bool),
    (fs.seenFrom d).place follow (.ofString p.toString) = (fs.seenFrom d').place follow p

/-- The text of a path means the same in every directory if the path begins at the root, and in the
directory itself in any case. -/
theorem Path.denotes_of {p : Path} {d d' : Location} (hparts : ∀ part ∈ p.parts, IsPart part)
    (h : p.isAbsolute = true ∨ d' = d) : p.Denotes d d' := by
  intro fs follow
  rw [Path.ofString_toString_of_parts hparts]
  rcases h with habs | rfl
  · rw [FileSystem.place_seenFrom habs, FileSystem.place_seenFrom habs]
  · rfl

end CrossBuild
