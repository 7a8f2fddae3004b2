import CrossBuild.Failure
import CrossBuild.Text.Splice

/-!
# Patches

A patch is a text to insert at an anchor, and a marker that tells that it was inserted before.
Patching works on lists of any kind, with a function that turns the patch's texts into them, so
that the same definition patches characters, source texts and bytes.
-/

namespace CrossBuild

/-- Where the insertion goes. -/
inductive Patch.Position
  | before
  | after
  | replace
  | front
  deriving DecidableEq, Repr

structure Patch where
  /-- The text whose presence tells that the patch is applied. -/
  marker : String
  insertion : String
  anchor : Option String := none
  position : Patch.Position := .after
  /-- Whether a missing anchor is an error. -/
  required : Bool := true
  description : String := ""
  deriving DecidableEq, Repr

namespace Patch

/-- The position with the word. -/
def Position.ofWord? : String → Option Position
  | "before" => some .before
  | "after" => some .after
  | "replace" => some .replace
  | "prepend" => some .front
  | _ => none

/-- How messages call a patch. -/
def title (p : Patch) : String :=
  if p.description = "" then p.marker else p.description

/-- What a patch does to a text. -/
inductive Outcome (α : Type)
  | present
  | done (text : List α)
  | skipped
  | anchorMissing

section
variable {α : Type} [DecidableEq α]

/-- The text that takes the anchor's place. -/
def replacement (spell : String → List α) (p : Patch) (anchor : List α) : List α :=
  match p.position with
  | .before => spell p.insertion ++ anchor
  | .after => anchor ++ spell p.insertion
  | .replace | .front => spell p.insertion

/-- Applies a patch. A text that holds the marker stays as it is; otherwise the first occurrence of
the anchor counts. -/
def apply (spell : String → List α) (p : Patch) (text : List α) : Outcome α :=
  if Splice.occursIn (spell p.marker) text then .present
  else if p.position = .front then .done (spell p.insertion ++ text)
  else
    match p.anchor with
    | some anchor =>
      let anchor := spell anchor
      if Splice.occursIn anchor text then
        .done (Splice.replaceFirst anchor (p.replacement spell anchor) text)
      else if p.required then .anchorMissing
      else .skipped
    | none => if p.required then .anchorMissing else .skipped

end

/-- The warning about a patch that is left out. -/
def skippedMessage (p : Patch) : String :=
  "Optional patch skipped, anchor not found: " ++ p.title

/-- The failure of a patch without its anchor. -/
def anchorFault (p : Patch) : Failure :=
  .patch (.anchorMissing p.title p.anchor)

end Patch

end CrossBuild
