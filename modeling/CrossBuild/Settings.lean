import CrossBuild.FileSystem.Operations
import CrossBuild.Profile
import CrossBuild.Text.EnvFile

/-!
# Settings

What a user sets for all projects. A value given directly wins over the environment, which wins
over a file of variables in the working directory.
-/

namespace CrossBuild

/-- The world around a run as far as it is fixed: the environment, the machine, the home of the
tool and where its own files are. -/
structure Surroundings where
  environment : List (String × String)
  /-- The home directories of other users, by name. -/
  users : List (String × String)
  system : String
  machine : String
  /-- Where fetched dependencies live unless it is set. -/
  toolHome : String
  /-- Where the text of the process starter is unless it is set. -/
  starter : String

structure Settings where
  toolHome : String
  compiler : Option String
  engine : Option String
  starter : Option String
  hostPrecompiler : Option String
  compilerVersion : String
  engineVersion : String
  timeout : Int
  jobs : Int
  deriving DecidableEq, Repr

namespace Settings

/-- The file of variables. -/
def fileName : String := ".env"

/-- The settings among some values. -/
def read (around : Surroundings) : Reader Settings :=
  .model fun members =>
    Settings.mk <$>
      Reader.withDefault "QJS_BUILDER_HOME" .string around.toolHome members <*>
      Reader.withDefault "ZIG_PATH" (.optional .string) none members <*>
      Reader.withDefault "QUICKJS_DIR" (.optional .string) none members <*>
      Reader.withDefault "EXEC_SHIM_PATH" (.optional .string) (some around.starter) members <*>
      Reader.withDefault "HOST_PRECOMPILER" (.optional .string) none members <*>
      Reader.withDefault "ZIG_VERSION" .string "0.15.2" members <*>
      Reader.withDefault "QUICKJS_VERSION" .string Profile.defaultVersion members <*>
      Reader.withDefault "BUILD_TIMEOUT" .int 600 members <*>
      Reader.withDefault "BUILD_JOBS" .int 1 members

/-- The variables of the file in the working directory that have a value; none without a file. -/
def fileVariables (around : Surroundings) (fs : FileSystem) :
    Except Failure (List (String × String)) := do
  let path := Path.ofString fileName
  if !(← fs.isFile path) then return []
  let text ← fs.text path
  return (EnvFile.values around.environment text.toList).filterMap fun (key, v) =>
    v.map fun v => (key, v)

/-- The settings in force, given the values set directly. -/
def load (around : Surroundings) (fs : FileSystem) (given : List (String × Json)) :
    Except Failure Settings := do
  let file ← fileVariables around fs
  let texts (l : List (String × String)) := l.map fun (key, v) => (key, Json.str v)
  match (read around (.obj (given ++ texts around.environment ++ texts file))).toExcept
      "Settings" with
  | .ok s => return s
  | .error report => throw (.invalid report)

/-- The home directory that a leading part `~` or `~user` stands for. -/
def homeOf? (around : Surroundings) (part : String) : Option String :=
  let home :=
    if part = "~" then valueOf? "HOME" around.environment
    else valueOf? (String.ofList (part.toList.drop 1)) around.users
  home.map fun h =>
    let h := String.ofList (Text.dropEndWhile (· == '/') h.toList)
    if h.isEmpty then "/" else h

/-- The path with a leading home directory written out. -/
def expandHome (around : Surroundings) (p : Path) : Except Failure Path :=
  match p.anchor, p.parts with
  | .relative, part :: parts =>
    if part.startsWith "~" then
      match homeOf? around part with
      | some home =>
        if home.startsWith "~" then .error .noHome
        else
          let home := Path.ofString home
          .ok ⟨home.anchor, home.parts ++ parts⟩
      | none => .error .noHome
    else .ok p
  | _, _ => .ok p

/-- A setting that is there and not empty. -/
def given? (s : Option String) : Option String :=
  s.filter (!·.isEmpty)

def home (s : Settings) (around : Surroundings) : Except Failure Path :=
  expandHome around (.ofString s.toolHome)

def compilerPath (s : Settings) (around : Surroundings) : Except Failure Path :=
  match given? s.compiler with
  | some p => expandHome around (.ofString p)
  | none => return (← s.home around) / "zig" / "zig"

def enginePath (s : Settings) (around : Surroundings) : Except Failure Path :=
  match given? s.engine with
  | some p => expandHome around (.ofString p)
  | none => return (← s.home around) / "quickjs"

end Settings

end CrossBuild
