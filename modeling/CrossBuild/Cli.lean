import CrossBuild.Fetch
import CrossBuild.Options
import CrossBuild.Run.Build

/-!
# The command line

The commands of the program: build a project, fetch the dependencies, list the targets. Misuse and
help texts end the program before anything is done.
-/

namespace CrossBuild.Cli

open Options Workspace

/-! ## Grammar and texts -/

def programName : String := "qjs-builder"

def version : String := "1.0.0"

def helpOption : Spec := ⟨["-h", "--help"], .help⟩

/-- The options before a command. -/
def mainGrammar : Grammar :=
  ⟨[helpOption, ⟨["--version"], .version⟩, ⟨["-v", "--verbose"], .flag⟩], true⟩

def projectOption : Spec := ⟨["-C", "--project"], .value⟩

def targetOption : Spec := ⟨["-t", "--target"], .value⟩

def noReceiptOption : Spec := ⟨["--no-receipt"], .flag⟩

def buildGrammar : Grammar := ⟨[helpOption, projectOption, targetOption, noReceiptOption], false⟩

def plainGrammar : Grammar := ⟨[helpOption], false⟩

inductive Command
  | build
  | fetch
  | targets
  | help
  deriving DecidableEq, Repr

namespace Command

def all : List Command := [.build, .fetch, .targets, .help]

def word : Command → String
  | .build => "build"
  | .fetch => "fetch"
  | .targets => "targets"
  | .help => "help"

def ofWord? (s : String) : Option Command :=
  all.find? fun c => c.word == s

def grammar : Command → Grammar
  | .build => buildGrammar
  | _ => plainGrammar

end Command

/-- The line that says how the program, or one of its commands, is called. -/
def usage : Option Command → String
  | none => "usage: qjs-builder [-h] [--version] [-v] \x7bbuild,fetch,targets,help\x7d ...\n"
  | some .build => "usage: qjs-builder build [-h] [-C PROJECT] [-t TARGET] [--no-receipt]\n"
  | some c => "usage: qjs-builder " ++ c.word ++ " [-h]\n"

/-- The text that explains the program or one of its commands. -/
def helpText (c : Option Command) : String :=
  usage c ++
    match c with
    | none =>
      "\nCompile a QuickJS project into native binaries with zig cc\n" ++
      "\npositional arguments:\n" ++
      "  \x7bbuild,fetch,targets,help\x7d\n" ++
      "    build               Compile the project described by package.json\n" ++
      "    fetch               Download zig and the QuickJS sources\n" ++
      "    targets             List supported targets\n" ++
      "    help                Show this help message\n" ++
      "\noptions:\n" ++
      "  -h, --help            show this help message and exit\n" ++
      "  --version             show program's version number and exit\n" ++
      "  -v, --verbose         Enable verbose logging\n"
    | some .build =>
      "\noptions:\n" ++
      "  -h, --help            show this help message and exit\n" ++
      "  -C PROJECT, --project PROJECT\n" ++
      "                        Project root holding package.json (default: current\n" ++
      "                        directory)\n" ++
      "  -t TARGET, --target TARGET\n" ++
      "                        Only build this target triple (repeatable)\n" ++
      "  --no-receipt          Do not write build_receipt.json\n"
    | some _ =>
      "\noptions:\n" ++
      "  -h, --help  show this help message and exit\n"

/-- A text with blanks after it up to a width. -/
def padRight (width : Nat) (s : String) : String :=
  s ++ String.ofList (List.replicate (width - s.length) ' ')

/-- The table of targets. -/
def targetsText : String :=
  String.join (Target.all.map fun t =>
    padRight 22 t.id ++ " " ++ padRight 7 t.family.word ++ " " ++
      padRight 18 t.interpreter ++ " " ++ t.precompiler ++ "\n")

/-! ## Arguments -/

/-- What the program is asked to do. -/
inductive Job
  | build (project : Option String) (targets : List String) (receipt : Bool)
  | fetch
  | targets
  | help
  deriving DecidableEq, Repr

/-- How the program ends, and what it prints. -/
inductive Ending
  /-- A command was carried out and gave an exit code. -/
  | returned (code : Nat)
  /-- The arguments ended the program. -/
  | stopped (code : Nat)
  deriving DecidableEq, Repr

structure Output where
  ending : Ending
  stdout : String
  stderr : String
  deriving DecidableEq, Repr

/-- Why there is no job: the program has ended, or an argument is lost. -/
inductive NoJob
  | ended (o : Output)
  | lostValue

/-- The end that misuse brings. -/
def misuse (c : Option Command) (message : String) : Output :=
  let program := match c with
    | none => programName
    | some c => programName ++ " " ++ c.word
  ⟨.stopped 2, "", usage c ++ program ++ ": error: " ++ message ++ "\n"⟩

def endOf (c : Option Command) : Stop → NoJob
  | .help => .ended ⟨.stopped 0, helpText c, ""⟩
  | .version => .ended ⟨.stopped 0, programName ++ " " ++ version ++ "\n", ""⟩
  | .misuse message => .ended (misuse c message)
  | .lostValue => .lostValue

/-- The values given for an option, in order. -/
def valuesOf (o : Spec) (settings : List Setting) : List String :=
  settings.filterMap fun (option, value) => if option = o then value else none

/-- The job of a command with its options. -/
def jobOf (c : Command) (settings : List Setting) : Job :=
  match c with
  | .build =>
    .build (valuesOf projectOption settings).getLast? (valuesOf targetOption settings)
      (!settings.any fun (option, _) => option == noReceiptOption)
  | .fetch => .fetch
  | .targets => .targets
  | .help => .help

/-- Refuses arguments that nothing took. -/
def refuseExtras (extras : List String) (job : Job) : Except NoJob Job :=
  if extras.isEmpty then .ok job
  else .error (.ended (misuse none ("unrecognized arguments: " ++ String.intercalate " " extras)))

/-- The message about a command that does not exist. -/
def unknownCommand (word : String) : String :=
  let choices := String.intercalate ", " (Command.all.map fun c => Text.quoted c.word)
  "argument command: invalid choice: " ++ Text.quoted word ++ s!" (choose from {choices})"

/-- The job that the arguments ask for. -/
def readArguments (arguments : List String) : Except NoJob Job :=
  match mainGrammar.read arguments with
  | .error stop => .error (endOf none stop)
  | .ok r =>
    match r.command with
    | [] => refuseExtras r.extras .help
    | word :: rest =>
      match Command.ofWord? word with
      | none => .error (.ended (misuse none (unknownCommand word)))
      | some c =>
        match c.grammar.read rest with
        | .error stop => .error (endOf (some c) stop)
        | .ok own => refuseExtras (r.extras ++ own.extras) (jobOf c own.settings)

/-! ## Commands -/

/-- The world that the program runs in. -/
structure World where
  around : Surroundings
  tools : Tools
  server : Server
  /-- The time that receipts are given. -/
  now : String
  /-- A name for temporary files that nothing has. -/
  temporary : Path

/-- Whether a failure of the preparation is told instead of escaping: one of the setup, or of a
value. -/
def isTold : Failure → Bool
  | .file _ | .linkLoop _ | .noHome | .fetch _ | .crash _ => false
  | _ => true

/-- The configuration of a project. -/
def configOf (w : World) (s : Settings) (project : Path) (targets : List String)
    (fs : FileSystem) : Except Failure Config := do
  let m ← Manifest.load fs project
  Config.create w.around fs project m s targets none none

/-- Builds a project. -/
def build (w : World) (s : Settings) (project : Option String) (targets : List String)
    (receipt : Bool) : Task Workspace Nat := do
  let directory ← Task.ask fun work => .ok (FileSystem.pathOf work.files.workingDirectory)
  let project := (project.map Path.ofString).getD directory
  match ← Task.attempt (look (configOf w s project targets)) with
  | .error f =>
    if isTold f then
      error f.message
      return 1
    else throw f
  | .ok c =>
    info s!"Starting build of {c.application}"
    let r ← Build.run (.ofConfig c w.tools) w.now receipt
    return r.exitCode

/-- Fetches the dependencies. -/
def fetch (w : World) (s : Settings) : Task Workspace Nat := do
  match ← Task.attempt (Fetch.all w.server w.around w.temporary s) with
  | .ok () => return 0
  | .error (.fetch f) =>
    error ("Installation failed: " ++ f.message)
    return 1
  | .error f => throw f

/-- Carries out a command that needs settings. -/
def withSettings (w : World) (job : Settings → Task Workspace Nat) : Task Workspace Nat := do
  match ← Task.attempt (look fun fs => Settings.load w.around fs []) with
  | .error (.invalid report) =>
    error ("Invalid settings: " ++ report.message)
    return 1
  | .error f => throw f
  | .ok s => job s

/-- Carries out a job. -/
def perform (w : World) : Job → Task Workspace Output
  | .help => return ⟨.returned 0, helpText none, ""⟩
  | .targets => return ⟨.returned 0, targetsText, ""⟩
  | .fetch => do return ⟨.returned (← withSettings w (fetch w)), "", ""⟩
  | .build project targets receipt => do
    return ⟨.returned (← withSettings w fun s => build w s project targets receipt), "", ""⟩

/-- The whole program. -/
def run (w : World) (arguments : List String) : Task Workspace Output :=
  match readArguments arguments with
  | .ok job => perform w job
  | .error (.ended o) => return o
  | .error .lostValue => throw .lostValue

end CrossBuild.Cli
