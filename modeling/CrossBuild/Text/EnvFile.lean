import CrossBuild.Assoc
import CrossBuild.Text.Blank

/-!
# Files of environment variables

Lines `KEY=VALUE`, maybe after the word `export`, with comments and quotes. A line that is none of
these is left out. A value may refer to variables as `$\x7bNAME\x7d`.
-/

namespace CrossBuild.EnvFile

open Text

/-- A key and its value, if the key has one. -/
structure Binding where
  key : String
  value : Option String
  deriving DecidableEq, Repr

/-- White space within a line. -/
def isGap (c : Char) : Bool :=
  isBlank c && c != '\n' && c != '\r'

def skipGap (s : List Char) : List Char :=
  s.dropWhile isGap

def isLineEnd (c : Char) : Bool :=
  c == '\n' || c == '\r'

/-- What follows the word `export` and a gap, if they stand in front. -/
def skipExport (s : List Char) : List Char :=
  let word := "export".toList
  let rest := s.drop word.length
  if word.isPrefixOf s && (rest.head?.map isGap).getD false then skipGap rest else s

/-- The text before the first quote that no backslash precedes, and what follows the quote. -/
def untilBareQuote (quote : Char) : List Char → Option (List Char × List Char)
  | [] => none
  | '\\' :: c :: s =>
    if c = quote then (untilBareQuote quote s).map fun (v, rest) => ('\\' :: c :: v, rest)
    else (untilBareQuote quote (c :: s)).map fun (v, rest) => ('\\' :: v, rest)
  | c :: s =>
    if c = quote then some ([], s) else (untilBareQuote quote s).map fun (v, rest) => (c :: v, rest)

/-- The text before the last quote, and what follows it. -/
def untilLastQuote (quote : Char) (s : List Char) : Option (List Char × List Char) :=
  let after := s.reverse.takeWhile (· != quote)
  if after.length = s.length then none
  else some (s.take (s.length - after.length - 1), after.reverse)

/-- A quoted text up to its closing quote: the first bare quote, or the last one of all. -/
def quotedText (quote : Char) (s : List Char) : Option (List Char × List Char) :=
  (untilBareQuote quote s).or (untilLastQuote quote s)

/-- The character that an escape in single quotes means. -/
def singleEscape? (c : Char) : Option Char :=
  if c = '\\' ∨ c = '\'' then some c else none

/-- The character that an escape in double quotes means. -/
def doubleEscape? (c : Char) : Option Char :=
  match c with
  | '\\' | '\'' | '"' => some c
  | 'a' => some '\x07'
  | 'b' => some '\x08'
  | 'f' => some '\x0c'
  | 'n' => some '\n'
  | 'r' => some '\r'
  | 't' => some '\t'
  | 'v' => some '\x0b'
  | _ => none

/-- The text with its escapes replaced; a backslash that starts none stays. -/
def unescape (escape? : Char → Option Char) : List Char → List Char
  | [] => []
  | '\\' :: c :: s =>
    match escape? c with
    | some d => d :: unescape escape? s
    | none => '\\' :: unescape escape? (c :: s)
  | c :: s => c :: unescape escape? s

/-- The text before the first number sign that follows white space. -/
def dropComment : List Char → List Char
  | [] => []
  | c :: s =>
    if isBlank c && (s.dropWhile isBlank).head? == some '#' then [] else c :: dropComment s

/-- A value: a text in quotes, or the rest of the line without a comment. -/
def value (s : List Char) : Option (List Char × List Char) :=
  match s with
  | '\'' :: s => (quotedText '\'' s).map fun (v, rest) => (unescape singleEscape? v, rest)
  | '"' :: s => (quotedText '"' s).map fun (v, rest) => (unescape doubleEscape? v, rest)
  | s =>
    some (dropEndWhile isBlank (dropComment (s.takeWhile (!isLineEnd ·))),
      s.dropWhile (!isLineEnd ·))

/-- A key: a text in single quotes, or what comes before a blank, an equals sign or a number sign.
A number sign in front means that there is no key. -/
def key (s : List Char) : Option (Option (List Char) × List Char) :=
  match s with
  | '#' :: _ => some (none, s)
  | '\'' :: t =>
    let name := t.takeWhile (· != '\'')
    match t.drop name.length with
    | _ :: rest => if name.isEmpty then none else some (some name, rest)
    | [] => none
  | s =>
    let name := s.takeWhile fun c => c != '=' && c != '#' && !isBlank c
    if name.isEmpty then none else some (some name, s.drop name.length)

/-- What follows a line from here on. -/
def skipLine (s : List Char) : List Char :=
  (s.dropWhile (!isLineEnd ·)).drop 1

/-- What follows a comment and the end of the line; nothing if something else comes before. -/
def finishLine (s : List Char) : Option (List Char) :=
  let s := skipGap s
  let s := if s.head? == some '#' then s.dropWhile (!isLineEnd ·) else s
  match s with
  | [] => some []
  | '\r' :: '\n' :: s => some s
  | c :: s => if isLineEnd c then some s else none

/-- One line: a binding or none, and what follows. -/
def line (s : List Char) : Option Binding × List Char :=
  let s := skipExport s
  match key s with
  | none => (none, skipLine s)
  | some (name, s) =>
    let s := skipGap s
    let bound : Option (Option (List Char) × List Char) := match s with
      | '=' :: t => (value (skipGap t)).map fun (v, rest) => (some v, rest)
      | s => some (none, s)
    match bound with
    | none => (none, skipLine (skipGap (s.drop 1)))
    | some (v, s) =>
      match finishLine s with
      | none => (none, skipLine s)
      | some rest =>
        (name.map fun name => ⟨String.ofList name, v.map String.ofList⟩, rest)

/-- The bindings of a text; each line shortens the text, so its length bounds their number. -/
def bindingsWithin : Nat → List Char → List Binding
  | 0, _ => []
  | fuel + 1, s =>
    match s.dropWhile isBlank with
    | [] => []
    | s =>
      let (b, rest) := line s
      b.toList ++ bindingsWithin fuel rest

/-- The bindings of a text, in order. -/
def bindings (s : List Char) : List Binding :=
  bindingsWithin (s.length + 1) s

/-- A reference in front: the variable's name, what stands for a missing variable, and the rest. -/
def reference? (s : List Char) : Option (List Char × List Char × List Char) :=
  match s with
  | '$' :: '\x7b' :: s =>
    let name := s.takeWhile fun c => c != '\x7d' && c != ':'
    match s.drop name.length with
    | '\x7d' :: rest => some (name, [], rest)
    | ':' :: '-' :: s =>
      let other := s.takeWhile (· != '\x7d')
      match s.drop other.length with
      | _ :: rest => some (name, other, rest)
      | [] => none
    | _ => none
  | _ => none

/-- The text with its references replaced; `lookup` tells a variable's value and whether it has
one. Each step shortens the text, so its length bounds their number. -/
def expandWithin (lookup : String → Option (Option String)) : Nat → List Char → List Char
  | 0, _ => []
  | _, [] => []
  | fuel + 1, c :: s =>
    match reference? (c :: s) with
    | some (name, other, rest) =>
      let text := match lookup (String.ofList name) with
        | some (some v) => v.toList
        | some none => []
        | none => other
      text ++ expandWithin lookup fuel rest
    | none => c :: expandWithin lookup fuel s

def expand (lookup : String → Option (Option String)) (s : List Char) : List Char :=
  expandWithin lookup s.length s

/-- The variables of a text. References are to variables set before in the text and to those of the
environment, in this order. -/
def values (environment : List (String × String)) (s : List Char) :
    List (String × Option String) :=
  (bindings s).foldl (fun known b =>
    let lookup (name : String) : Option (Option String) :=
      match valueOf? name known with
      | some v => some v
      | none => (valueOf? name environment).map some
    assign b.key (b.value.map fun v => String.ofList (expand lookup v.toList)) known) []

end CrossBuild.EnvFile
