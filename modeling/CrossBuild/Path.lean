import CrossBuild.Text.Split
import CrossBuild.Text.Quoted

/-!
# Paths

A path is its beginning and its parts. Empty parts and single dots are dropped when a path is
read, two dots stay. A path that begins with exactly two slashes is kept apart from one that begins
with a single slash.
-/

namespace CrossBuild

/-- How a path begins. -/
inductive Path.Anchor
  | relative
  | root
  | doubleRoot
  deriving DecidableEq, Repr

structure Path where
  anchor : Path.Anchor
  parts : List String
  deriving DecidableEq, Repr

namespace Path

/-- The slashes in front. -/
def Anchor.text : Anchor → String
  | .relative => ""
  | .root => "/"
  | .doubleRoot => "//"

/-- The beginning that leading slashes mean: three or more are one. -/
def Anchor.ofText : List Char → Anchor
  | '/' :: '/' :: '/' :: _ => .root
  | '/' :: '/' :: _ => .doubleRoot
  | '/' :: _ => .root
  | _ => .relative

/-- Whether a part says nothing. -/
def isVoid (part : String) : Bool :=
  part == "" || part == "."

/-- The path a text means. -/
def ofString (s : String) : Path :=
  ⟨.ofText s.toList, (Text.splitString '/' s).filter (!isVoid ·)⟩

/-- The text of a path; the empty path is written as a dot. -/
protected def toString (p : Path) : String :=
  if p.anchor = .relative ∧ p.parts = [] then "."
  else p.anchor.text ++ String.intercalate "/" p.parts

instance : ToString Path := ⟨Path.toString⟩

/-- The path `q` as seen from `p`. -/
def append (p q : Path) : Path :=
  if q.anchor = .relative then ⟨p.anchor, p.parts ++ q.parts⟩ else q

instance : HDiv Path Path Path := ⟨append⟩

/-- The path of a text as seen from `p`. -/
instance : HDiv Path String Path := ⟨fun p s => p.append (ofString s)⟩

@[simp] theorem append_of_relative {p q : Path} (h : q.anchor = .relative) :
    p.append q = ⟨p.anchor, p.parts ++ q.parts⟩ := by
  simp [append, h]

/-- The last part; nothing for a path without parts. -/
def name (p : Path) : String :=
  p.parts.getLastD ""

/-- The path without its last part. -/
def parent (p : Path) : Path :=
  ⟨p.anchor, p.parts.dropLast⟩

/-- The path with another last part, if it has one at all. -/
def withName? (p : Path) (name : String) : Option Path :=
  if p.parts = [] then none else some ⟨p.anchor, p.parts.dropLast ++ [name]⟩

/-- Whether a path begins at the root. -/
def isAbsolute (p : Path) : Bool :=
  p.anchor != .relative

/-- The quoted form of a path in a message. -/
def quoted (p : Path) : String :=
  "PosixPath(" ++ Text.quoted p.toString ++ ")"

end Path

end CrossBuild
