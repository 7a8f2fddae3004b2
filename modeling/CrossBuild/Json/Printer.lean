import CrossBuild.Json.Basic
import CrossBuild.Text.Quoted

/-!
# Printing JSON

Two layouts of a value, both in ASCII with sorted keys: on one line, and indented by two blanks a
level.
-/

namespace CrossBuild.Json

/-- An escape of one UTF-16 unit. -/
def unitEscape (n : Nat) : List Char :=
  '\\' :: 'u' :: Text.hexDigits 4 n

/-- A character inside quotes. Only printable ASCII stands for itself; a character past the first
plane takes two units. -/
def escapeChar (c : Char) : List Char :=
  if c = '"' ∨ c = '\\' then ['\\', c]
  else if c = '\n' then ['\\', 'n']
  else if c = '\r' then ['\\', 'r']
  else if c = '\t' then ['\\', 't']
  else if c = '\x08' then ['\\', 'b']
  else if c = '\x0c' then ['\\', 'f']
  else if 0x20 ≤ c.toNat ∧ c.toNat < 0x7F then [c]
  else if c.toNat < 0x10000 then unitEscape c.toNat
  else
    unitEscape (0xD800 + (c.toNat - 0x10000) / 0x400) ++
      unitEscape (0xDC00 + (c.toNat - 0x10000) % 0x400)

def quotedString (s : String) : String :=
  String.ofList ('"' :: s.toList.flatMap escapeChar ++ ['"'])

def Real.render : Real → String
  | .decimal mantissa exponent => toString mantissa ++ "e" ++ toString exponent
  | .infinity false => "Infinity"
  | .infinity true => "-Infinity"
  | .nan => "NaN"

/-- Pairs in the order of their keys, by code points. -/
def sortPairs {β : Type} (pairs : List (String × β)) : List (String × β) :=
  pairs.mergeSort fun a b => !(b.1 < a.1)

/-- How the parts of a list or an object are laid out. -/
structure Layout where
  /-- Between the opening bracket and the first part at a level. -/
  first : Nat → String
  /-- After a comma, before the next part of a level. -/
  next : Nat → String
  /-- Between the last part and the closing bracket of a level. -/
  last : Nat → String

/-- Everything on one line, a blank after each comma. -/
def Layout.line : Layout := ⟨fun _ => "", fun _ => " ", fun _ => ""⟩

/-- A new line indented by two blanks a level. -/
def newline (level : Nat) : String :=
  String.ofList ('\n' :: List.replicate (2 * level) ' ')

/-- Every part on a line of its own. -/
def Layout.indented : Layout :=
  ⟨fun level => newline (level + 1), fun level => newline (level + 1), newline⟩

/-- The parts of a level between brackets. -/
def Layout.enclose (layout : Layout) (level : Nat) (opening closing : String)
    (parts : List String) : String :=
  if parts.isEmpty then opening ++ closing
  else
    opening ++ layout.first level ++ String.intercalate ("," ++ layout.next level) parts ++
      layout.last level ++ closing

mutual

/-- The text of a value in a layout; `level` counts the brackets around it. -/
def render (layout : Layout) (level : Nat) : Json → String
  | .null => "null"
  | .bool b => if b then "true" else "false"
  | .int n => toString n
  | .real x => x.render
  | .str s => quotedString s
  | .arr items => layout.enclose level "[" "]" (renderItems layout (level + 1) items)
  | .obj members =>
    layout.enclose level "\x7b" "\x7d"
      ((sortPairs (renderMembers layout (level + 1) members)).map fun p =>
        quotedString p.1 ++ ": " ++ p.2)

def renderItems (layout : Layout) (level : Nat) : List Json → List String
  | [] => []
  | item :: items => render layout level item :: renderItems layout level items

def renderMembers (layout : Layout) (level : Nat) :
    List (String × Json) → List (String × String)
  | [] => []
  | (key, value) :: members =>
    (key, render layout level value) :: renderMembers layout level members

end

/-- The value on one line. -/
def compact (j : Json) : String :=
  render .line 0 j

/-- The value with one part a line. -/
def pretty (j : Json) : String :=
  render .indented 0 j

end CrossBuild.Json
