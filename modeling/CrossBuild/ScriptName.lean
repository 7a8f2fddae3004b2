import CrossBuild.Target
import CrossBuild.Text.Split

/-!
# Names of scripts

A script is named `stem.extension`, or `stem.family.extension` when it is for one family of
operating systems only.
-/

namespace CrossBuild

/-- A file name taken apart; the extension has its point. -/
structure ScriptName where
  stem : String
  family : Option OsFamily
  extension : String
  deriving DecidableEq, Repr

namespace ScriptName

/-- The extensions of scripts. -/
def extensions : List String := [".mjs", ".js"]

/-- Whether a file of this name is a script. -/
def isScript (name : String) : Bool :=
  extensions.any fun e => e.toList.isSuffixOf name.toList

/-- Parts with points between them. -/
def joinPoints (parts : List (List Char)) : String :=
  String.ofList (Text.joinWith '.' parts)

/-- Takes a name apart. The last part is the extension, and the part before it is a family only if
a third one comes first. -/
def ofString (name : String) : ScriptName :=
  let parts := Text.splitAt '.' name.toList
  let extension := String.ofList ('.' :: parts.getLastD [])
  let before := parts.dropLast
  let family :=
    if before.length > 1 then OsFamily.ofWord? (String.ofList (before.getLastD [])) else none
  ⟨joinPoints (if family.isSome then before.dropLast else before), family, extension⟩

/-- The name put together. -/
protected def toString (n : ScriptName) : String :=
  match n.family with
  | some family => n.stem ++ "." ++ family.word ++ n.extension
  | none => n.stem ++ n.extension

/-- The name of the variant for a family given by its word. -/
def specificWord (name word : String) : String :=
  let n := ofString name
  n.stem ++ "." ++ word ++ n.extension

/-- The name of the variant for a family. -/
def specific (name : String) (family : OsFamily) : String :=
  specificWord name family.word

end ScriptName

end CrossBuild
