import CrossBuild.Cli

/-!
# The program

Gives the command line the environment of the process, prints what it answers and logs, and ends
with its exit code. Everything that the arguments decide is answered in full. The process starts
with an empty workspace and reaches neither tools nor servers: a tool is reported as not started,
and a download as refused. A caller who has them runs `Cli.run` in a world of its own.
-/

namespace CrossBuild.Program

/-- The variables that a run can ask for. -/
def variableNames : List String :=
  ["HOME", "QJS_BUILDER_HOME", "ZIG_PATH", "QUICKJS_DIR", "EXEC_SHIM_PATH", "HOST_PRECOMPILER",
    "ZIG_VERSION", "QUICKJS_VERSION", "BUILD_TIMEOUT", "BUILD_JOBS"]

/-- The variables that are set. -/
def environment : IO (List (String × String)) :=
  variableNames.filterMapM fun name => do return (← IO.getEnv name).map fun v => (name, v)

/-- Where the bundled process starter is. -/
def starterPath : Path := .ofString "/usr/share/qjs-builder/exec_win32.c"

/-- Tools none of which can be started. -/
def noTools : Tools :=
  ⟨fun _ _ fs => (.notStarted (.other "no tools in reach"), fs)⟩

/-- A server that refuses every request. -/
def noServer : Server :=
  ⟨fun _ _ => .refused "no route"⟩

/-- The world of a process with some variables. -/
def world (environment : List (String × String)) : Cli.World where
  around := {
    environment
    users := []
    system := "Linux"
    machine := "x86_64"
    toolHome := ((valueOf? "HOME" environment).getD "/") ++ "/.qjs_builder"
    starter := starterPath.toString }
  tools := noTools
  server := noServer
  now := "1970-01-01T00:00:00+00:00"
  temporary := .ofString "/tmp/fetching"

/-- A workspace that holds a working directory, one for temporary files, and the process starter. -/
def start (directory : Path) : Workspace :=
  let fill : Task FileSystem Unit := do
    FileSystem.makeDirectories directory
    FileSystem.makeDirectories (.ofString "/tmp")
    FileSystem.makeDirectories starterPath.parent
    FileSystem.writeText starterPath ProcessStarter.text
  .ofFiles (fill.runOn ⟨[], directory.parts⟩).2

/-- What a failure that escapes the program ends it with. -/
def escaped (f : Failure) : Cli.Output :=
  ⟨.returned 1, "", f.message ++ "\n"⟩

/-- What the program answers, and what it logs. -/
def answer (environment : List (String × String)) (directory : Path) (arguments : List String) :
    Cli.Output × List LogLine :=
  let (r, w) := (Cli.run (world environment) arguments).runOn (start directory)
  match r with
  | .ok o => (o, w.log)
  | .error f => (escaped f, w.log)

/-- The exit code of an ending. -/
def exitCode : Cli.Ending → UInt32
  | .returned code | .stopped code => code.toUInt32

end CrossBuild.Program

open CrossBuild in
/-- Runs the command line. -/
def main (arguments : List String) : IO UInt32 := do
  let environment ← Program.environment
  let directory := Path.ofString ((← IO.getEnv "PWD").getD "/")
  let (output, log) := Program.answer environment directory arguments
  for line in log do
    IO.eprintln (line.level.word ++ ": " ++ line.message)
  IO.print output.stdout
  IO.eprint output.stderr
  return Program.exitCode output.ending
