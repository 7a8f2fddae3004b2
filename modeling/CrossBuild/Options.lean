import CrossBuild.Text.Decimal
import CrossBuild.Text.Quoted

/-!
# Command line options

Reading arguments by a grammar of options. Long options may be shortened as long as they stay
unique, short flags may be written together, and an option's value may follow in the same argument.
Everything is classified before anything takes effect.
-/

namespace CrossBuild.Options

/-- What an option does: it ends the reading with a help text or the version, is on or off, or has
a value. -/
inductive Effect
  | help
  | version
  | flag
  | value
  deriving DecidableEq, Repr

/-- An option with all its spellings. -/
structure Spec where
  names : List String
  effect : Effect
  deriving DecidableEq, Repr

/-- The options of a command, and whether another command follows them. -/
structure Grammar where
  options : List Spec
  hasCommand : Bool

/-- How messages call an option. -/
def Spec.title (o : Spec) : String :=
  String.intercalate "/" o.names

/-- An option as it is written: by this name, maybe with a value in the same argument. -/
structure Use where
  option : Spec
  name : String
  value : Option String
  deriving DecidableEq, Repr

/-- What an argument is. -/
inductive Token
  /-- Two dashes, after which everything is a word. -/
  | dashes
  | word (s : String)
  | known (u : Use)
  | unknown (s : String)
  deriving DecidableEq, Repr

/-- Why the reading ends early. -/
inductive Stop
  | help
  | version
  | misuse (message : String)
  /-- Two dashes as a value are taken away and leave none. -/
  | lostValue
  deriving DecidableEq, Repr

/-! ## Classifying -/

/-- All spellings of all options, in order. -/
def Grammar.spellings (g : Grammar) : List (String × Spec) :=
  g.options.flatMap fun o => o.names.map fun n => (n, o)

/-- The option with exactly this spelling. -/
def Grammar.find? (g : Grammar) (name : String) : Option Spec :=
  (g.spellings.find? fun s => s.1 == name).map Prod.snd

/-- The text before the first equals sign and the one after it. -/
def splitEquals? (s : String) : Option (String × String) :=
  let cs := s.toList
  let before := cs.takeWhile (· != '=')
  match cs.drop before.length with
  | _ :: after => some (String.ofList before, String.ofList after)
  | [] => none

/-- The options that an argument may be short for. -/
def Grammar.candidates (g : Grammar) (s : String) : List Use :=
  if s.startsWith "--" then
    let (start, value) := match splitEquals? s with
      | some (start, value) => (start, some value)
      | none => (s, none)
    g.spellings.filterMap fun (name, o) =>
      if start.toList.isPrefixOf name.toList then some ⟨o, name, value⟩ else none
  else
    let short := String.ofList (s.toList.take 2)
    g.spellings.filterMap fun (name, o) =>
      if name = short then some ⟨o, name, some (String.ofList (s.toList.drop 2))⟩
      else if s.toList.isPrefixOf name.toList then some ⟨o, name, none⟩
      else none

/-- Whether a text is a negative number: digits, maybe with a point before the last ones. -/
def isNegativeNumber (s : String) : Bool :=
  let cs := s.toList.drop 1
  let cs := if cs.getLast? == some '\n' then cs.dropLast else cs
  let whole := cs.takeWhile Text.isDecimal
  match cs.drop whole.length with
  | [] => !whole.isEmpty
  | '.' :: fraction => !fraction.isEmpty && fraction.all Text.isDecimal
  | _ => false

/-- What an argument is; an option that several spellings fit is refused. -/
def Grammar.classify (g : Grammar) (s : String) : Except Stop Token :=
  if !s.startsWith "-" then .ok (.word s)
  else
    match g.find? s with
    | some o => .ok (.known ⟨o, s, none⟩)
    | none =>
      if s = "-" then .ok (.word s)
      else
        let exact := do
          let (name, value) ← splitEquals? s
          return (⟨← g.find? name, name, some value⟩ : Use)
        match exact, g.candidates s with
        | some u, _ => .ok (.known u)
        | none, [u] => .ok (.known u)
        | none, [] =>
          if isNegativeNumber s || s.contains ' ' then .ok (.word s) else .ok (.unknown s)
        | none, several =>
          let names := String.intercalate ", " (several.map (·.name))
          .error (.misuse s!"ambiguous option: {s} could match {names}")

/-- What the arguments are. -/
def Grammar.tokens (g : Grammar) : List String → Except Stop (List Token)
  | [] => .ok []
  | s :: rest =>
    if s = "--" then .ok (.dashes :: rest.map .word)
    else do
      let token ← g.classify s
      return token :: (← g.tokens rest)

/-! ## Taking effect -/

/-- An option with the value it gets. -/
abbrev Setting := Spec × Option String

/-- What the arguments say: the options set, in order, what nothing takes, and the command with its
own arguments. -/
structure Reading where
  settings : List Setting
  extras : List String
  command : List String

/-- The argument that a token was. -/
def Token.text : Token → String
  | .dashes => "--"
  | .word s | .unknown s => s
  | .known u => u.name

/-- The message about a value that an option does not take. -/
def ignoredValue (o : Spec) (value : String) : Stop :=
  .misuse (s!"argument {o.title}: ignored explicit argument " ++ Text.quoted value)

/-- Flags written together: each character of `rest` is one, until an option with a value takes what
is left. -/
def cluster (g : Grammar) (o : Spec) : List Char → Except Stop (List Setting)
  | [] => .ok [(o, none)]
  | c :: rest =>
    match g.find? (String.ofList ['-', c]) with
    | none => .error (ignoredValue o (String.ofList (c :: rest)))
    | some next =>
      match next.effect, rest with
      | .value, [] => .ok [(o, none), (next, none)]
      | .value, value => .ok [(o, none), (next, some (String.ofList value))]
      | _, rest => (cluster g next rest).map ((o, none) :: ·)

/-- The settings of one argument; an option without its value comes last. -/
def Use.settings (g : Grammar) (u : Use) : Except Stop (List Setting) :=
  match u.option.effect, u.value with
  | .value, value => .ok [(u.option, value)]
  | _, none => .ok [(u.option, none)]
  | _, some value =>
    if u.name.startsWith "--" || value.isEmpty then .error (ignoredValue u.option value)
    else cluster g u.option value.toList

/-- Lets settings take effect in order. -/
def applyAll : List Setting → Except Stop Unit
  | [] => .ok ()
  | (o, value) :: rest =>
    match o.effect with
    | .help => .error .help
    | .version => .error .version
    | .value => if value = some "--" then .error .lostValue else applyAll rest
    | .flag => applyAll rest

/-- Whether the last setting still lacks its value. -/
def lacksValue (settings : List Setting) : Option Spec :=
  match settings.getLast? with
  | some (o, none) => if o.effect = .value then some o else none
  | _ => none

/-- Reads tokens from left to right; `full` are the arguments that they were. -/
def Grammar.readTokens (g : Grammar) : List Token → List String → Except Stop Reading
  | [], _ => .ok ⟨[], [], []⟩
  | .dashes :: rest, full =>
    if g.hasCommand && !rest.isEmpty then .ok ⟨[], [], full⟩ else .ok ⟨[], full, []⟩
  | .word s :: rest, full =>
    if g.hasCommand then .ok ⟨[], [], full⟩
    else do
      let r ← g.readTokens rest full.tail
      return { r with extras := s :: r.extras }
  | .unknown s :: rest, full => do
    let r ← g.readTokens rest full.tail
    return { r with extras := s :: r.extras }
  | .known u :: rest, full => do
    let settings ← u.settings g
    match lacksValue settings with
    | none =>
      applyAll settings
      let r ← g.readTokens rest full.tail
      return { r with settings := settings ++ r.settings }
    | some o =>
      match rest with
      | .word value :: rest =>
        let settings := settings.dropLast ++ [(o, some value)]
        applyAll settings
        let r ← g.readTokens rest full.tail.tail
        return { r with settings := settings ++ r.settings }
      | _ => .error (.misuse s!"argument {o.title}: expected one argument")

/-- Reads arguments. -/
def Grammar.read (g : Grammar) (arguments : List String) : Except Stop Reading := do
  g.readTokens (← g.tokens arguments) arguments

end CrossBuild.Options
