import CrossBuild.Config
import CrossBuild.Receipt.Basic
import CrossBuild.Text.CommandLine
import CrossBuild.Workspace

/-!
# The toolchain

The command lines of the compiler and the precompiler, and running them. However a tool ends, the
outcome is a phase of the receipt; only a crash of the runner itself is a failure.
-/

namespace CrossBuild

/-- The tools of a run. -/
structure Toolchain where
  config : Config
  profile : Profile
  tools : Tools

namespace Toolchain

/-- The tools for a configuration with its own profile. -/
def ofConfig (config : Config) (tools : Tools) : Toolchain :=
  ⟨config, config.profile, tools⟩

/-! ## Commands -/

/-- The sources of the engine, and then those of the native modules. -/
def baseSources (t : Toolchain) : List Path :=
  t.profile.sources.map (fun name : String => t.config.engine / name) ++
    t.config.modules.map (·.source)

/-- The command that compiles and links sources for a target. -/
def compileCommand (t : Toolchain) (target : Target) (output : Path) (sources : List Path) :
    List String :=
  let darwin := target.family == .darwin
  [t.config.compiler.toString, "cc", "-target", target.id, "-I" ++ t.config.engine.toString] ++
    t.profile.levelFlags t.config.optimized darwin ++ target.compileFlags ++
    t.profile.commonFlags ++ ["-DCONFIG_VERSION=\"" ++ t.profile.engineVersion ++ "\""] ++
    (if t.profile.stripSymbols then ["-s"] else []) ++
    ["-o", output.toString] ++ sources.map Path.toString ++ target.linkFlags

/-- The command that turns an entry script into C. -/
def precompileCommand (t : Toolchain) (precompiler : String) (entry output : Path) : List String :=
  precompiler :: t.profile.precompilerFlags t.config.optimized ++
    ["-e", "-o", output.toString, entry.toString]

/-! ## Running -/

/-- How many characters of a tool's messages are kept. -/
def tailLength : Nat := 4000

/-- The end of a tool's messages without white space around; nothing if they are blank. -/
def tail? (stderr : String) : Option String :=
  let s := Text.trim stderr.toList
  if s.isEmpty then none else some (String.ofList (s.drop (s.length - tailLength)))

/-- The phase that the end of a tool is. -/
def phaseOf (name command : String) (timeout : Int) : Exit → Except Failure Phase
  | .exited code stderr =>
    .ok { name, command, exitCode := code, stderrTail := tail? stderr
          status := if code = 0 then .success else .failed }
  | .timedOut =>
    .ok { name, command, stderrTail := some s!"TIMEOUT after {timeout}s", status := .timeout }
  | .notStarted e => .ok { name, command, stderrTail := some e.message, status := .failed }
  | .crashed text => .error (.crash text)

/-- Runs a tool in a directory. -/
def runIn (t : Toolchain) (directory : Path) (name : String) (arguments : List String) :
    Task Workspace Phase := do
  let timeout := t.config.timeout
  let exit ← Workspace.runTool t.tools ⟨arguments, directory, timeout⟩
  Task.ofExcept (phaseOf name (CommandLine.render arguments) timeout exit)

/-- Runs a tool in the project's root. -/
def run (t : Toolchain) (name : String) (arguments : List String) : Task Workspace Phase :=
  t.runIn t.config.root name arguments

/-- Builds the interpreter for a target. -/
def buildInterpreter (t : Toolchain) (target : Target) (stub : Path) : Task Workspace Phase :=
  t.run "interpreter" (t.compileCommand target (t.config.toolsDirectory / target.interpreter)
    (t.baseSources ++ [stub, t.config.engineFile .interpreter]))

/-- Builds the precompiler for a target. -/
def buildPrecompiler (t : Toolchain) (target : Target) : Task Workspace Phase :=
  t.run "precompiler" (t.compileCommand target (t.config.toolsDirectory / target.precompiler)
    (t.baseSources ++ [t.config.engineFile .precompiler]))

/-- A phase that was left out. -/
def skipped (name : String) : Phase := { name }

/-- Builds the interpreter, and the precompiler if that succeeds. -/
def buildHelpers (t : Toolchain) (target : Target) (stub : Path) : Task Workspace (List Phase) := do
  let interpreter ← t.buildInterpreter target stub
  if interpreter.ok then return [interpreter, ← t.buildPrecompiler target]
  else return [interpreter, skipped "precompiler"]

/-- Turns an entry script into C. -/
def precompile (t : Toolchain) (precompiler : String) (entry output : Path) :
    Task Workspace Phase :=
  t.run "precompile" (t.precompileCommand precompiler entry output)

/-- Links an application. -/
def link (t : Toolchain) (target : Target) (intermediate output : Path) : Task Workspace Phase :=
  t.run "link" (t.compileCommand target output (intermediate :: t.baseSources))

end Toolchain

end CrossBuild
