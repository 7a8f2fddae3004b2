import CrossBuild.Json.Basic

/-!
# Reading JSON

A reader on lists of characters. A failure holds what is left of the text at the place it blames,
from which the line, the column and the offset follow. The words `NaN`, `Infinity` and `-Infinity`
are numbers, and of members with the same key the last value wins in the first one's place.
-/

namespace CrossBuild.Json

/-- What is wrong with a text. -/
inductive Problem
  | value
  | propertyName
  | colon
  | comma
  | extraData
  | unterminatedString
  | controlCharacter
  | escape
  | unicodeEscape
  | byteOrderMark
  deriving DecidableEq, Repr

def Problem.message : Problem → String
  | .value => "Expecting value"
  | .propertyName => "Expecting property name enclosed in double quotes"
  | .colon => "Expecting ':' delimiter"
  | .comma => "Expecting ',' delimiter"
  | .extraData => "Extra data"
  | .unterminatedString => "Unterminated string starting at"
  | .controlCharacter => "Invalid control character at"
  | .escape => "Invalid \\escape"
  | .unicodeEscape => "Invalid \\uXXXX escape"
  | .byteOrderMark => "Unexpected UTF-8 BOM (decode using utf-8-sig)"

/-- Why a text is not read. -/
inductive ReadError
  | malformed (problem : Problem) (rest : List Char)
  | longInteger (digits : Nat)
  deriving DecidableEq, Repr

/-- The longest integer that is read, in digits. -/
def maxIntegerDigits : Nat := 4300

/-- A value and what follows it. -/
abbrev Reading (α : Type) := Except ReadError (α × List Char)

def isSpace (c : Char) : Bool :=
  c == ' ' || c == '\t' || c == '\n' || c == '\r'

def skipSpace (s : List Char) : List Char :=
  s.dropWhile isSpace

def hexValue? (c : Char) : Option Nat :=
  if '0' ≤ c ∧ c ≤ '9' then some (c.toNat - '0'.toNat)
  else if 'a' ≤ c ∧ c ≤ 'f' then some (c.toNat - 'a'.toNat + 10)
  else if 'A' ≤ c ∧ c ≤ 'F' then some (c.toNat - 'A'.toNat + 10)
  else none

/-- The number that four hexadecimal digits spell. -/
def hex4? (a b c d : Char) : Option Nat := do
  let a ← hexValue? a
  let b ← hexValue? b
  let c ← hexValue? c
  let d ← hexValue? d
  return ((a * 16 + b) * 16 + c) * 16 + d

/-- The character after a backslash that stands for a code point. -/
def simpleEscape? (c : Char) : Option Nat :=
  match c with
  | '"' | '\\' | '/' => some c.toNat
  | 'b' => some 8
  | 'f' => some 12
  | 'n' => some 10
  | 'r' => some 13
  | 't' => some 9
  | _ => none

/-- The code units of a string up to its closing quote; `opening` is the text from the opening
quote on, which an unterminated string is blamed on. -/
def stringUnits (opening : List Char) : List Char → Reading (List Nat)
  | [] => .error (.malformed .unterminatedString opening)
  | '"' :: s => .ok ([], s)
  | '\\' :: 'u' :: a :: b :: c :: d :: s =>
    match hex4? a b c d, s with
    | some _, [] | none, _ => .error (.malformed .unicodeEscape ('u' :: a :: b :: c :: d :: s))
    | some n, s => (stringUnits opening s).map fun (units, rest) => (n :: units, rest)
  | '\\' :: 'u' :: s => .error (.malformed .unicodeEscape ('u' :: s))
  | ['\\'] => .error (.malformed .unterminatedString opening)
  | '\\' :: c :: s =>
    match simpleEscape? c with
    | some n => (stringUnits opening s).map fun (units, rest) => (n :: units, rest)
    | none => .error (.malformed .escape ('\\' :: c :: s))
  | c :: s =>
    if c.toNat < 0x20 then .error (.malformed .controlCharacter (c :: s))
    else (stringUnits opening s).map fun (units, rest) => (c.toNat :: units, rest)

/-- The text of code units: two surrogates in a row are one character, a lone one is the
replacement character. -/
def joinUnits : List Nat → List Char
  | [] => []
  | [n] => [if 0xD800 ≤ n ∧ n < 0xE000 then '\uFFFD' else Char.ofNat n]
  | n :: m :: units =>
    if 0xD800 ≤ n ∧ n < 0xDC00 ∧ 0xDC00 ≤ m ∧ m < 0xE000 then
      Char.ofNat (0x10000 + (n - 0xD800) * 0x400 + (m - 0xDC00)) :: joinUnits units
    else if 0xD800 ≤ n ∧ n < 0xE000 then '\uFFFD' :: joinUnits (m :: units)
    else Char.ofNat n :: joinUnits (m :: units)

/-- The string whose opening quote precedes `s`. -/
def stringBody (s : List Char) : Reading String :=
  (stringUnits ('"' :: s) s).map fun (units, rest) => (String.ofList (joinUnits units), rest)

/-- The number that decimal digits spell. -/
def digitsValue (s : List Char) : Nat :=
  s.foldl (fun n c => n * 10 + (c.toNat - '0'.toNat)) 0

/-- The digits after a point, if one follows. -/
def fraction? : List Char → Option (List Char × List Char)
  | '.' :: s =>
    let digits := s.takeWhile Char.isDigit
    if digits.isEmpty then none else some (digits, s.drop digits.length)
  | _ => none

/-- The exponent, if one with a digit follows. -/
def exponent? : List Char → Option (Int × List Char)
  | e :: s =>
    if e = 'e' ∨ e = 'E' then
      let (negative, s) := match s with
        | '-' :: s => (true, s)
        | '+' :: s => (false, s)
        | s => (false, s)
      let digits := s.takeWhile Char.isDigit
      if digits.isEmpty then none
      else
        let n : Int := digitsValue digits
        some (if negative then -n else n, s.drop digits.length)
    else none
  | [] => none

/-- The digits before the point: a single zero, or digits that start with another one. -/
def integerDigits : List Char → List Char
  | '0' :: _ => ['0']
  | s => s.takeWhile Char.isDigit

/-- A number after its sign; `blame` is the text from the sign on. -/
def unsignedNumber (negative : Bool) (blame s : List Char) : Reading Json :=
  let whole := integerDigits s
  let s := s.drop whole.length
  let signed (n : Nat) : Int := if negative then -n else n
  if whole.isEmpty then .error (.malformed .value blame)
  else
    match fraction? s with
    | some (digits, s) =>
      let mantissa := signed (digitsValue (whole ++ digits))
      match exponent? s with
      | some (e, s) => .ok (.real (.decimal mantissa (e - digits.length)), s)
      | none => .ok (.real (.decimal mantissa (-digits.length)), s)
    | none =>
      match exponent? s with
      | some (e, s) => .ok (.real (.decimal (signed (digitsValue whole)) e), s)
      | none =>
        if whole.length > maxIntegerDigits then .error (.longInteger whole.length)
        else .ok (.int (signed (digitsValue whole)), s)

/-- The words that are values. -/
def words : List (List Char × Json) :=
  [("null".toList, .null), ("true".toList, .bool true), ("false".toList, .bool false),
   ("NaN".toList, .real .nan), ("Infinity".toList, .real (.infinity false)),
   ("-Infinity".toList, .real (.infinity true))]

/-- A word or a number. -/
def scalar (s : List Char) : Reading Json :=
  match words.find? fun w => w.1.isPrefixOf s with
  | some (word, value) => .ok (value, s.drop word.length)
  | none =>
    match s with
    | '-' :: rest => unsignedNumber true s rest
    | _ => unsignedNumber false s s

mutual

/-- A value. Each level of brackets and each part takes one step of `fuel`; the length of the text
is enough. -/
def value (fuel : Nat) (s : List Char) : Reading Json :=
  match fuel with
  | 0 => .error (.malformed .value s)
  | fuel + 1 =>
    match s with
    | '"' :: s => (stringBody s).map fun (text, rest) => (.str text, rest)
    | '[' :: s =>
      match skipSpace s with
      | ']' :: s => .ok (.arr [], s)
      | s => (items fuel s).map fun (items, rest) => (.arr items, rest)
    | '\x7b' :: s =>
      match skipSpace s with
      | '\x7d' :: s => .ok (.obj [], s)
      | s => (members fuel [] s).map fun (members, rest) => (.obj members, rest)
    | s => scalar s

/-- The items of a list up to its closing bracket. -/
def items (fuel : Nat) (s : List Char) : Except ReadError (List Json × List Char) :=
  match fuel with
  | 0 => .error (.malformed .value s)
  | fuel + 1 => do
    let (item, s) ← value fuel s
    match skipSpace s with
    | ']' :: s => return ([item], s)
    | ',' :: s =>
      let (rest, s) ← items fuel (skipSpace s)
      return (item :: rest, s)
    | s => .error (.malformed .comma s)

/-- The members of an object up to its closing brace, after those in `before`. -/
def members (fuel : Nat) (before : List (String × Json)) (s : List Char) :
    Except ReadError (List (String × Json) × List Char) :=
  match fuel with
  | 0 => .error (.malformed .value s)
  | fuel + 1 =>
    match s with
    | '"' :: s => do
      let (key, s) ← stringBody s
      match skipSpace s with
      | ':' :: s =>
        let (item, s) ← value fuel (skipSpace s)
        let before := assign key item before
        match skipSpace s with
        | '\x7d' :: s => return (before, s)
        | ',' :: s => members fuel before (skipSpace s)
        | s => .error (.malformed .comma s)
      | s => .error (.malformed .colon s)
    | s => .error (.malformed .propertyName s)

end

/-- The value that a whole text spells. -/
def parse (text : List Char) : Except ReadError Json :=
  match text with
  | '\uFEFF' :: _ => .error (.malformed .byteOrderMark text)
  | _ =>
    match value (2 * text.length + 1) (skipSpace text) with
    | .error e => .error e
    | .ok (j, rest) =>
      match skipSpace rest with
      | [] => .ok j
      | rest => .error (.malformed .extraData rest)

/-- Where a text with `rest` left is: line and column from one, offset from zero. -/
def placeMessage (text rest : List Char) : String :=
  let offset := text.length - rest.length
  let before := text.take offset
  let line := before.count '\n' + 1
  let column := (before.reverse.takeWhile (· != '\n')).length + 1
  s!"line {line} column {column} (char {offset})"

/-- The message for a text that is not read. -/
def ReadError.message (text : List Char) : ReadError → String
  | .malformed problem rest => problem.message ++ ": " ++ placeMessage text rest
  | .longInteger digits =>
    s!"Exceeds the limit ({maxIntegerDigits} digits) for integer string conversion: " ++
      s!"value has {digits} digits; use sys.set_int_max_str_digits() to increase the limit"

end CrossBuild.Json
