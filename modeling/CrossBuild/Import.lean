import CrossBuild.Text.Blank
import CrossBuild.Text.WordClass

/-!
# Imports of scripts

Finding the import statements of a script and rebinding their paths to the variant for a family. A
script is read as plain characters and import statements; rebinding changes the path of a
statement and nothing else.
-/

namespace CrossBuild.Import

/-- The extension of an imported script. -/
inductive Extension
  | mjs
  | js
  deriving DecidableEq, Repr

def Extension.text : Extension → List Char
  | .mjs => ['.', 'm', 'j', 's']
  | .js => ['.', 'j', 's']

/-- An import statement: all up to the opening quote, the quote, the path without its extension,
and the extension. -/
structure Statement where
  opening : List Char
  quote : Char
  path : List Char
  extension : Extension
  deriving DecidableEq, Repr

/-- The imported path. -/
def Statement.imported (s : Statement) : List Char :=
  s.path ++ s.extension.text

/-- The path of the variant for a family. -/
def Statement.specific (s : Statement) (family : List Char) : List Char :=
  s.path ++ '.' :: family ++ s.extension.text

/-- The statement with another path between its quotes. -/
def Statement.withPath (s : Statement) (path : List Char) : List Char :=
  s.opening ++ s.quote :: path ++ [s.quote]

/-- The statement as it is written. -/
def Statement.text (s : Statement) : List Char :=
  s.withPath s.imported

/-- The word that a statement starts with. -/
def importWord : List Char := ['i', 'm', 'p', 'o', 'r', 't']

/-- The word before the quote. -/
def fromWord : List Char := ['f', 'r', 'o', 'm']

/-- Whether a character ends the part before the quote. -/
def isStop (c : Char) : Bool :=
  c == ';' || c == '\'' || c == '"'

def isQuote (c : Char) : Bool :=
  c == '\'' || c == '"'

/-- Whether what stands between the keyword and the quote is a blank, a binding, a blank, the word
`from` and maybe blanks. -/
def isClause (s : List Char) : Bool :=
  let s := Text.dropEndWhile Text.isBlank s
  let binding := s.take (s.length - fromWord.length)
  fromWord.isSuffixOf s && 3 ≤ binding.length &&
    (binding.head?.map Text.isBlank).getD false && (binding.getLast?.map Text.isBlank).getD false

/-- A path and its extension; the path is not empty. -/
def splitExtension? (literal : List Char) : Option (List Char × Extension) :=
  [Extension.mjs, .js].findSome? fun e =>
    let path := literal.take (literal.length - e.text.length)
    if e.text.isSuffixOf literal && !path.isEmpty then some (path, e) else none

/-- The statement in front, and what follows it. -/
def statement? (s : List Char) : Option (Statement × List Char) :=
  if importWord.isPrefixOf s then
    let s := s.drop importWord.length
    let clause := s.takeWhile (!isStop ·)
    match s.dropWhile (!isStop ·) with
    | [] => none
    | quote :: s =>
      let literal := s.takeWhile (!isQuote ·)
      match s.dropWhile (!isQuote ·), splitExtension? literal with
      | closing :: rest, some (path, extension) =>
        if isQuote quote && closing == quote && isClause clause then
          some (⟨importWord ++ clause, quote, path, extension⟩, rest)
        else none
      | _, _ => none
  else none

/-- A statement takes at least one character. -/
theorem length_lt_of_statement? {s rest : List Char} {st : Statement}
    (h : statement? s = some (st, rest)) : rest.length < s.length := by
  have drop_le (p : Char → Bool) (l : List Char) : (l.dropWhile p).length ≤ l.length :=
    (List.dropWhile_sublist p).length_le
  unfold statement? at h
  split at h
  · rename_i hk
    simp only at h
    split at h
    · simp at h
    · rename_i quote t hs
      split at h
      · rename_i closing r path e ht _
        split at h
        · simp only [Option.some.injEq, Prod.mk.injEq] at h
          obtain ⟨-, rfl⟩ := h
          have h1 := drop_le (!isQuote ·) t
          have h2 := drop_le (!isStop ·) (s.drop importWord.length)
          rw [ht] at h1
          rw [hs] at h2
          simp only [List.length_cons, List.length_drop] at h1 h2
          omega
        · simp at h
      · simp at h
  · simp at h

/-- A part of a script. -/
inductive Piece
  | plain (c : Char)
  | statement (s : Statement)
  deriving DecidableEq, Repr

def Piece.text : Piece → List Char
  | .plain c => [c]
  | .statement s => s.text

/-- The pieces of a script from left to right. A statement starts at a word boundary; `inWord` says
whether a word character comes before. -/
def scan (inWord : Bool) (s : List Char) : List Piece :=
  match h : if inWord then none else statement? s with
  | some (st, rest) =>
    have : rest.length < s.length := by
      split at h
      · simp at h
      · exact length_lt_of_statement? h
    .statement st :: scan false rest
  | none =>
    match s with
    | [] => []
    | c :: s => .plain c :: scan (Text.isWordChar c) s
termination_by s.length

/-- The pieces of a whole script. -/
def pieces (s : List Char) : List Piece :=
  scan false s

/-- A path that was rebound, and what it was rebound to. -/
structure Swap where
  old : String
  new : String
  deriving DecidableEq, Repr

section
variable {m : Type → Type} [Monad m]

/-- Rebinds the statements whose variant exists. The question is asked once a statement, from left
to right. -/
def rebindPieces (family : List Char) (present : String → m Bool) :
    List Piece → m (List Char × List Swap)
  | [] => pure ([], [])
  | .plain c :: rest => do
    let (text, swaps) ← rebindPieces family present rest
    return (c :: text, swaps)
  | .statement s :: rest => do
    let specific := s.specific family
    let found ← present (String.ofList specific)
    let (text, swaps) ← rebindPieces family present rest
    if found then
      let swap := ⟨String.ofList s.imported, String.ofList specific⟩
      return (s.withPath specific ++ text, swap :: swaps)
    else return (s.text ++ text, swaps)

/-- The script with its imports rebound for a family, and the swaps in order. -/
def rebind (family : String) (present : String → m Bool) (script : String) :
    m (String × List Swap) := do
  let (text, swaps) ← rebindPieces family.toList present (pieces script.toList)
  return (String.ofList text, swaps)

end

end CrossBuild.Import
