import CrossBuild.FileSystem.Operations

/-!
# Workspaces

The state of a run: the files, the log, and what was asked of the world outside. A tool and a
server are functions of what was asked of them before, so that a run is determined by its start.
-/

namespace CrossBuild

inductive LogLevel
  | info
  | warning
  | error
  deriving DecidableEq, Repr

def LogLevel.word : LogLevel → String
  | .info => "INFO"
  | .warning => "WARNING"
  | .error => "ERROR"

structure LogLine where
  level : LogLevel
  message : String
  deriving DecidableEq, Repr

/-- A tool to run, where, and for how many seconds at most. -/
structure Command where
  arguments : List String
  directory : Path
  timeout : Int
  deriving DecidableEq, Repr

/-- How the run of a tool ends. -/
inductive Exit
  | exited (code : Int) (stderr : String)
  | timedOut
  | notStarted (e : FileError)
  | crashed (text : String)
  deriving DecidableEq, Repr

/-- A command that was run, and the files it found. -/
structure Invocation where
  command : Command
  before : FileSystem

/-- How tools behave, given the earlier runs, the command and the files. -/
structure Tools where
  run : List Invocation → Command → FileSystem → Exit × FileSystem

/-- A request for a download, and how many seconds it may take. -/
structure Request where
  url : String
  timeout : Int
  deriving DecidableEq, Repr

/-- What a server does with a request: it refuses, or it answers with a status and a body in
chunks, which may break off. -/
inductive Reply
  | refused (reason : String)
  | answered (status : Nat) (chunks : List Bytes) (broken : Option String)
  deriving DecidableEq, Repr

/-- How a server behaves, given the earlier requests. -/
structure Server where
  reply : List Request → Request → Reply

structure Workspace where
  files : FileSystem
  log : List LogLine
  invocations : List Invocation
  requests : List Request

namespace Workspace

/-- A workspace at its start. -/
def ofFiles (fs : FileSystem) : Workspace :=
  ⟨fs, [], [], []⟩

/-- A task on the files alone. -/
def onFiles {α : Type} (t : Task FileSystem α) : Task Workspace α :=
  Task.onPart (·.files) (fun fs w => { w with files := fs }) t

instance : MonadLift (Task FileSystem) (Task Workspace) := ⟨onFiles⟩

/-- A question about the files. -/
def look {α : Type} (f : FileSystem → Except Failure α) : Task Workspace α :=
  Task.ask fun w => f w.files

def report (level : LogLevel) (message : String) : Task Workspace Unit :=
  Task.update fun w => { w with log := w.log ++ [⟨level, message⟩] }

def info (message : String) : Task Workspace Unit := report .info message

def warning (message : String) : Task Workspace Unit := report .warning message

def error (message : String) : Task Workspace Unit := report .error message

/-- Runs a command and notes it. -/
def runTool (tools : Tools) (c : Command) : Task Workspace Exit := fun w =>
  let (exit, fs) := tools.run w.invocations c w.files
  (.ok exit, { w with files := fs, invocations := w.invocations ++ [⟨c, w.files⟩] })

/-- Sends a request and notes it. -/
def send (server : Server) (r : Request) : Task Workspace Reply := fun w =>
  (.ok (server.reply w.requests r), { w with requests := w.requests ++ [r] })

end Workspace

end CrossBuild
