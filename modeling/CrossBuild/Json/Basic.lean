import CrossBuild.Assoc

/-!
# JSON values

JSON values with exact numbers: an integer is an integer, any other number is kept as it was
written, and the three words for numbers that are not finite are values too.
-/

namespace CrossBuild

/-- A number written with a fraction or an exponent, or one of the words for what is not finite. -/
inductive Json.Real
  | decimal (mantissa : Int) (exponent : Int)
  | infinity (negative : Bool)
  | nan
  deriving DecidableEq, Repr

/-- A JSON value; the members of an object keep their order. -/
inductive Json
  | null
  | bool (b : Bool)
  | int (n : Int)
  | real (x : Json.Real)
  | str (s : String)
  | arr (items : List Json)
  | obj (members : List (String × Json))
  deriving Repr, Inhabited

namespace Json

/-- The member of an object; nothing for another value. -/
def member? (j : Json) (key : String) : Option Json :=
  match j with
  | .obj members => valueOf? key members
  | _ => none

/-- A list of texts. -/
def ofStrings (l : List String) : Json :=
  .arr (l.map .str)

/-- A text or null. -/
def ofString? : Option String → Json
  | none => .null
  | some s => .str s

end Json

end CrossBuild
