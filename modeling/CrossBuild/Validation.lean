import CrossBuild.Json.Real

/-!
# Validation

Reading typed values from loosely typed ones, with a report of everything that is wrong. Reading
several fields collects the issues of all of them, in the order of the fields.
-/

namespace CrossBuild

/-- A step on the way to a value: the name of a field or the index of an item. -/
inductive Key
  | name (s : String)
  | index (i : Nat)
  deriving DecidableEq, Repr

/-- What is wrong with a value. -/
inductive Complaint
  | missing
  | stringType
  | pathType
  | boolType
  | boolParsing
  | intType
  | intParsing
  | intParsingSize
  | intFromFloat
  | finiteNumber
  | dictType
  | listType
  | modelType
  | enumeration
  | rule (message : String)
  deriving DecidableEq, Repr

/-- The word for a complaint. -/
def Complaint.word : Complaint → String
  | .missing => "missing"
  | .stringType => "string_type"
  | .pathType => "path_type"
  | .boolType => "bool_type"
  | .boolParsing => "bool_parsing"
  | .intType => "int_type"
  | .intParsing => "int_parsing"
  | .intParsingSize => "int_parsing_size"
  | .intFromFloat => "int_from_float"
  | .finiteNumber => "finite_number"
  | .dictType => "dict_type"
  | .listType => "list_type"
  | .modelType => "model_type"
  | .enumeration => "enum"
  | .rule _ => "value_error"

/-- One complaint and the way to the value it is about. -/
structure Issue where
  place : List Key
  complaint : Complaint
  deriving DecidableEq, Repr

/-- The issues of a value that was to be a `model`. -/
structure Report where
  model : String
  issues : List Issue
  deriving DecidableEq, Repr

def Report.message (r : Report) : String :=
  let count := r.issues.length
  let noun := if count = 1 then "error" else "errors"
  s!"{count} validation {noun} for {r.model}"

/-- A value, or all that is wrong. -/
inductive Validated (α : Type)
  | valid (a : α)
  | invalid (issues : List Issue)
  deriving Repr

namespace Validated

variable {α β : Type}

def map (f : α → β) : Validated α → Validated β
  | valid a => valid (f a)
  | invalid issues => invalid issues

/-- Both values, or the issues of both. -/
def seq (f : Validated (α → β)) (x : Validated α) : Validated β :=
  match f, x with
  | valid f, valid a => valid (f a)
  | valid _, invalid issues => invalid issues
  | invalid issues, valid _ => invalid issues
  | invalid issues, invalid more => invalid (issues ++ more)

instance : Applicative Validated where
  pure := valid
  map := map
  seq f x := seq f (x ())

@[simp] theorem seq_eq_valid_iff {f : Validated (α → β)} {x : Validated α} {b : β} :
    f.seq x = valid b ↔ ∃ g a, f = valid g ∧ x = valid a ∧ g a = b := by
  cases f <;> cases x <;> simp [seq]

/-- The issues with a step put in front of every place. -/
def under (key : Key) : Validated α → Validated α
  | valid a => valid a
  | invalid issues => invalid (issues.map fun i => ⟨key :: i.place, i.complaint⟩)

/-- A single complaint about the value itself. -/
def reject (complaint : Complaint) : Validated α :=
  invalid [⟨[], complaint⟩]

/-- The value, or a report about the model. -/
def toExcept (model : String) : Validated α → Except Report α
  | valid a => .ok a
  | invalid issues => .error ⟨model, issues⟩

end Validated

/-- How a value of type `α` is read. -/
abbrev Reader (α : Type) := Json → Validated α

namespace Reader

variable {α : Type}

def string : Reader String
  | .str s => .valid s
  | _ => .reject .stringType

/-- The first whole number past those of 64 bits with sign. -/
def bound64 : Int := 0x8000000000000000

/-- Whether a whole number fits 64 bits with sign. -/
def fits64 (n : Int) : Bool :=
  -bound64 ≤ n && n < bound64

def boolOfWhole (n : Int) : Validated Bool :=
  if n = 0 then .valid false else if n = 1 then .valid true else .reject .boolParsing

/-- The words for the truth values, in any case of ASCII letters. -/
def boolOfWord (s : String) : Validated Bool :=
  let s := s.toLower
  if ["0", "off", "f", "false", "n", "no"].contains s then .valid false
  else if ["1", "on", "t", "true", "y", "yes"].contains s then .valid true
  else .reject .boolParsing

/-- A whole binary number of at most 64 bits, where the upper end counts as the largest one. -/
def whole64 (n : Int) : Option Int :=
  if -bound64 ≤ n ∧ n ≤ bound64 then some (min n (bound64 - 1)) else none

def bool : Reader Bool
  | .bool b => .valid b
  | .str s => boolOfWord s
  | .int n => if fits64 n then boolOfWhole n else .reject .boolType
  | .real x =>
    match x.wholeness with
    | .whole n =>
      match whole64 n with
      | some n => boolOfWhole n
      | none => .reject .boolType
    | _ => .reject .boolType
  | _ => .reject .boolType

/-- White space around a number. -/
def isPadding (c : Char) : Bool :=
  let n := c.toNat
  (9 ≤ n && n ≤ 13) || n == 0x20 || n == 0x85 || n == 0xA0 || n == 0x1680 ||
    (0x2000 ≤ n && n ≤ 0x200A) || n == 0x2028 || n == 0x2029 || n == 0x202F || n == 0x205F ||
    n == 0x3000

/-- The number that digits with single underscores between them spell. -/
def digitsOf? : List Char → Option Nat
  | [] => none
  | s => go 0 s
where
  /-- The digits after those worth `n`; at least one digit comes first. -/
  go (n : Nat) : List Char → Option Nat
    | [] => none
    | c :: s =>
      if c.isDigit then
        let n := n * 10 + (c.toNat - '0'.toNat)
        match s with
        | [] => some n
        | '_' :: s => go n s
        | s => go n s
      else none

/-- The whole number a text spells: a sign, digits, and a point with zeros. -/
def intOfText? (s : String) : Option Int := do
  let s := ((s.toList.dropWhile isPadding).reverse.dropWhile isPadding).reverse
  let (negative, s) := match s with
    | '-' :: s => (true, s)
    | '+' :: s => (false, s)
    | s => (false, s)
  let digits := s.takeWhile (· != '.')
  let zeros := s.drop (digits.length + 1)
  guard (digits.length = s.length || (!zeros.isEmpty && zeros.all (· == '0')))
  let n ← digitsOf? digits
  return if negative then -n else n

def int : Reader Int
  | .int n => .valid n
  | .bool b => .valid (if b then 1 else 0)
  | .real x =>
    match x.wholeness with
    | .whole n =>
      match whole64 n with
      | some n => .valid n
      | none => .reject .intParsingSize
    | .fractional => .reject .intFromFloat
    | .notFinite => .reject .finiteNumber
  | .str s =>
    match intOfText? s with
    | some n => .valid n
    | none => .reject .intParsing
  | _ => .reject .intType

/-- A value or null. -/
def optional (r : Reader α) : Reader (Option α)
  | .null => .valid none
  | j => some <$> r j

def itemsFrom (r : Reader α) (index : Nat) : List Json → Validated (List α)
  | [] => .valid []
  | j :: items => List.cons <$> (r j).under (.index index) <*> itemsFrom r (index + 1) items

def list (r : Reader α) : Reader (List α)
  | .arr items => itemsFrom r 0 items
  | _ => .reject .listType

def membersOf (r : Reader α) : List (String × Json) → Validated (List (String × α))
  | [] => .valid []
  | (key, j) :: members =>
    (fun a rest => (key, a) :: rest) <$> (r j).under (.name key) <*> membersOf r members

/-- An object with any keys. -/
def dict (r : Reader α) : Reader (List (String × α))
  | .obj members => membersOf r members
  | _ => .reject .dictType

/-- One of some words. -/
def choice (ofWord? : String → Option α) : Reader α
  | .str s =>
    match ofWord? s with
    | some a => .valid a
    | none => .reject .enumeration
  | _ => .reject .enumeration

/-- An object with known fields; other fields are ignored. -/
def model (fields : List (String × Json) → Validated α) : Reader α
  | .obj members => fields members
  | _ => .reject .modelType

/-- A field that has to be there. -/
def required (name : String) (r : Reader α) (members : List (String × Json)) : Validated α :=
  match valueOf? name members with
  | some j => (r j).under (.name name)
  | none => (Validated.reject .missing).under (.name name)

/-- A field with a value for when it is absent. -/
def withDefault (name : String) (r : Reader α) (default : α) (members : List (String × Json)) :
    Validated α :=
  match valueOf? name members with
  | some j => (r j).under (.name name)
  | none => .valid default

end Reader

end CrossBuild
