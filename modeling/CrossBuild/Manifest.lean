import CrossBuild.FileSystem.Resolve
import CrossBuild.Json.Parser

/-!
# Manifests

What a project says about itself: its name, its entry script, whether it is optimized, and the
native modules that its scripts may import.
-/

namespace CrossBuild

/-- A native module: the name that scripts import it by, and its C file. -/
structure Module where
  name : String
  source : Path
  deriving DecidableEq, Repr

namespace Module

def isIdentifierStart (c : Char) : Bool :=
  ('A' ≤ c && c ≤ 'Z') || ('a' ≤ c && c ≤ 'z') || c == '_'

def isIdentifierChar (c : Char) : Bool :=
  isIdentifierStart c || ('0' ≤ c && c ≤ '9')

/-- Whether a text is a C identifier. -/
def isIdentifier : List Char → Bool
  | [] => false
  | c :: s => isIdentifierStart c && s.all isIdentifierChar

/-- Whether a name is admitted: a C identifier, which one line feed may follow. -/
def isName (s : List Char) : Bool :=
  isIdentifier s || (s.getLast? == some '\n' && isIdentifier s.dropLast)

/-- A module's name. -/
def readName (s : String) : Validated String :=
  if isName s.toList then .valid s
  else .reject (.rule ("Value error, module name must be a C identifier: " ++ Text.quoted s))

/-- What reports call a module. -/
def modelName : String := "ModuleRegistration"

/-- A module with a path that is known to be one. -/
def ofName (name : String) (source : Path) : Except Report Module :=
  ((readName name).under (.name "name") |>.map fun name => ⟨name, source⟩).toExcept modelName

/-- A path. -/
def readPath : Reader Path
  | .str s => .valid (.ofString s)
  | _ => .reject .pathType

/-- A name that is a text and is admitted. -/
def readNameValue : Reader String
  | .str s => readName s
  | _ => .reject .stringType

/-- A module from the fields of an object. -/
def ofMembers (members : List (String × Json)) : Except Report Module :=
  (Module.mk <$> Reader.required "name" readNameValue members <*>
    Reader.required "source_path" readPath members).toExcept modelName

end Module

structure Manifest where
  name : String
  input : String
  optimized : Bool
  /-- The modules' C files by the modules' names. -/
  modules : List (String × String)
  deriving DecidableEq, Repr

namespace Manifest

def fileName : String := "package.json"

def defaultName : String := "app"

def defaultInput : String := "app/index.mjs"

/-- Whether a value counts as absent. -/
def isVoid : Json → Bool
  | .null => true
  | .bool b => !b
  | .int n => n == 0
  | .real x => x.wholeness == .whole 0
  | .str s => s.isEmpty
  | .arr items => items.isEmpty
  | .obj members => members.isEmpty

/-- The value of a member, or another one if it is missing or counts as absent. -/
def memberOr (members : List (String × Json)) (key : String) (other : Json) : Json :=
  match valueOf? key members with
  | some j => if isVoid j then other else j
  | none => other

/-- What follows the last slash of a name. -/
def unscoped : Json → Json
  | .str s => .str ((Text.splitString '/' s).getLastD "")
  | j => j

/-- The section about the script engine. -/
def readSection : Reader (String × Bool × List (String × String)) :=
  .model fun members =>
    (fun input optimized modules => (input, optimized, modules)) <$>
      Reader.withDefault "input" .string defaultInput members <*>
      Reader.withDefault "optimization" .bool false members <*>
      Reader.withDefault "modules" (.dict .string) [] members

/-- A manifest from the members of its file. -/
def ofMembers (members : List (String × Json)) : Except Report Manifest :=
  let name := unscoped (memberOr members "name" (.str defaultName))
  let engine := memberOr members "quickJs" (.obj [])
  (((fun name (input, optimized, modules) => ⟨name, input, optimized, modules⟩ :
      String → String × Bool × List (String × String) → Manifest) <$>
    (Reader.string name).under (.name "name") <*>
    (readSection engine).under (.name "quickJs")) : Validated Manifest).toExcept "ProjectManifest"

/-- The modules with their files as seen from the project's root, in the order of the manifest. -/
def registrations (m : Manifest) (fs : FileSystem) (root : Path) : Except Failure (List Module) :=
  m.modules.mapM fun (name, source) => do
    let source ← fs.resolve (root / source)
    match Module.ofName name source with
    | .ok registration => return registration
    | .error report => throw (.invalid report)

/-- The JSON value in a file. -/
def readJson (fs : FileSystem) (path : Path) : Except Failure Json :=
  match fs.text path with
  | .error (.file e) => .error (.manifest (.unreadable path e.message))
  | .error f => .error f
  | .ok text =>
    match Json.parse text.toList with
    | .ok j => .ok j
    | .error e =>
      let message := e.message text.toList
      match e with
      | .malformed .. => .error (.manifest (.unreadable path message))
      | .longInteger _ => .error (.longInteger message)

/-- Turns a report into a fault of the manifest. -/
def blame {α : Type} (path : Path) : Except Failure α → Except Failure α
  | .error (.invalid report) => .error (.manifest (.invalid path report))
  | r => r

/-- Reads and checks the manifest of a project. -/
def load (fs : FileSystem) (root : Path) : Except Failure Manifest := do
  let path := root / fileName
  if !(← fs.isFile path) then throw (.manifest (.missing root))
  match ← readJson fs path with
  | .obj members =>
    match ofMembers members with
    | .error report => throw (.manifest (.invalid path report))
    | .ok m =>
      let _ ← blame path (m.registrations fs root)
      return m
  | _ => throw (.manifest (.notAnObject path))

end Manifest

end CrossBuild
