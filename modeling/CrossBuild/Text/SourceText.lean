import CrossBuild.Text.Utf8

/-!
# Source texts

The text of a source file that may hold stray bytes. Every byte string is the byte form of its
text, so a file that is read, edited and written back keeps all bytes outside the edits.
-/

namespace CrossBuild

/-- A character, or a byte that is part of no character. -/
inductive SourceChar
  | char (c : Char)
  | stray (b : UInt8)
  deriving DecidableEq, Repr

abbrev SourceText := List SourceChar

namespace SourceText

/-- The text of a string. -/
def ofString (s : String) : SourceText :=
  s.toList.map .char

/-- The text of some bytes; what is no character stays as stray bytes, one by one. -/
def ofBytes (s : Bytes) : SourceText :=
  match h : Utf8.step s with
  | .done => []
  | .char c r =>
    have := Utf8.length_lt_of_step h
    .char c :: ofBytes r
  | .defect _ _ =>
    match s with
    | [] => []
    | b :: r => .stray b :: ofBytes r
termination_by s.length

def charBytes : SourceChar → Bytes
  | .char c => String.utf8EncodeChar c
  | .stray b => [b]

/-- The byte form of a text. -/
def toBytes (t : SourceText) : Bytes :=
  t.flatMap charBytes

@[simp] theorem toBytes_nil : toBytes [] = [] := rfl

@[simp] theorem toBytes_append (s t : SourceText) : toBytes (s ++ t) = toBytes s ++ toBytes t := by
  simp [toBytes]

/-- The bytes of a string's text are its UTF-8 form. -/
@[simp] theorem toBytes_ofString (s : String) : toBytes (ofString s) = Bytes.ofString s := by
  simp only [toBytes, ofString, Bytes.ofString, Utf8.encode, List.flatMap_map]
  rfl

end SourceText

end CrossBuild
