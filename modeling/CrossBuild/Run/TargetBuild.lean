import CrossBuild.Artifact.Inspect
import CrossBuild.BuildTree
import CrossBuild.Toolchain

/-!
# Building one target

The steps for a target: resolve its tree, build the helper tools, precompile the entry script, link
the application. The first step that fails ends the build of the target, and whatever happens there
is a result for it.
-/

namespace CrossBuild

/-- A workspace with the result of a target so far. -/
structure TargetState where
  work : Workspace
  result : TargetResult

namespace TargetState

/-- A task on the workspace alone. -/
def onWork {α : Type} (t : Task Workspace α) : Task TargetState α :=
  Task.onPart (·.work) (fun w s => { s with work := w }) t

instance : MonadLift (Task Workspace) (Task TargetState) := ⟨onWork⟩

/-- Changes the result. -/
def record (f : TargetResult → TargetResult) : Task TargetState Unit :=
  Task.update fun s => { s with result := f s.result }

/-- Adds phases to the result. -/
def addPhases (phases : List Phase) : Task TargetState Unit :=
  record fun r => { r with phases := r.phases ++ phases }

end TargetState

/-- The helper tools that were built for this machine before the targets: the precompiler to run
and the phases of their build. -/
structure HostTools where
  precompiler : Option Path
  phases : List Phase
  deriving DecidableEq, Repr

namespace TargetBuild

open Workspace TargetState

/-- The C file that the precompiler writes for a target. -/
def intermediate (c : Config) (t : Target) : Path :=
  c.toolsDirectory / (t.id ++ "_app.c")

/-- The stand-in that takes the place of the interpreter's console. -/
def stub (c : Config) : Path :=
  c.buildDirectory / "repl_stub.c"

/-- The entry script in a build tree: the variant for the target's family if it is there. -/
def entryIn (fs : FileSystem) (c : Config) (tree : Path) (t : Target) : Except Failure Path := do
  let specific := tree / ScriptName.specific c.entry.name t.family
  if ← fs.isFile specific then return specific else return tree / c.entry.name

/-- How the precompiler is called on a command line, even if there is none. -/
def precompilerWord (host : HostTools) : String :=
  (host.precompiler.map Path.toString).getD "None"

/-- The helper tools of a target: those of the host were built before. -/
def helpers (t : Toolchain) (host : HostTools) (target : Target) : Task Workspace (List Phase) :=
  if target.id = t.config.host.id ∧ host.phases ≠ [] then return host.phases
  else t.buildHelpers target (stub t.config)

/-- Links the application and describes it. -/
def linkStep (t : Toolchain) (target : Target) : Task TargetState Unit := do
  let output := t.config.distDirectory / target.applicationName t.config.application
  let link ← onWork (t.link target (intermediate t.config target) output)
  addPhases [link]
  if link.ok then
    if ← onWork (look (·.isFile output)) then
      let artifact ← onWork (Artifact.describe output target)
      record fun r => { r with artifact := some artifact, status := .success }
    else
      let message := s!"Linker reported success but {output.name} is missing"
      record fun r => { r with errorMessage := some message }

/-- All steps of a target. -/
def steps (t : Toolchain) (host : HostTools) (target : Target) : Task TargetState Unit := do
  let c := t.config
  let tree := c.buildTree target
  let r ← onWork (BuildTree.build c.entryDirectory tree target.family c.excluded)
  record fun result =>
    { result with buildTree := some tree.toString, reboundImports := r.rebindings.length }
  addPhases [{ name := "resolve", exitCode := 0, status := .success }]
  let helpers ← onWork (helpers t host target)
  addPhases helpers
  if !helpers.all Phase.ok then
    addPhases [Toolchain.skipped "precompile", Toolchain.skipped "link"]
  else
    info "Build tools generated."
    let entry ← onWork (look fun fs => entryIn fs c tree target)
    let precompile ← onWork (t.precompile (precompilerWord host) entry (intermediate c target))
    addPhases [precompile]
    if !precompile.ok then addPhases [Toolchain.skipped "link"] else linkStep t target

/-- What is told about a target that was not built. -/
def failureReport (r : TargetResult) : Task Workspace TargetResult := do
  match r.failedPhase? with
  | some p =>
    let status := p.statusWord
    error s!"Compilation failed for {r.target} at {p.name}"
    let tail := p.stderrTail.getD ""
    if !tail.isEmpty then error tail
    return { r with errorMessage := some s!"{p.name} {status} (exit {p.exitCode})" }
  | none =>
    error (s!"Compilation failed for {r.target}: " ++ r.errorMessage.getD "None")
    return r

/-- Builds a target. The result says how far it came. -/
def build (t : Toolchain) (host : HostTools) (target : Target) : Task Workspace TargetResult := do
  info s!"--- Compiling for: {target.id} ---"
  let start : TargetResult := { target := target.id, family := target.family.word }
  let (outcome, r) ← fun w =>
    let (outcome, s) := (steps t host target).runOn ⟨w, start⟩
    (.ok (outcome, s.result), s.work)
  match outcome with
  | .error f =>
    error (s!"Compilation failed for {target.id}: " ++ f.message)
    return { r with errorMessage := some f.message, status := .failed }
  | .ok () =>
    if r.status = .success then
      let how := if t.config.optimized then " and optimized" else ""
      info (s!"Binary built{how}: " ++ target.applicationName t.config.application)
      return r
    else failureReport r

/-- Builds targets one after the other. -/
def buildAll (t : Toolchain) (host : HostTools) (targets : List Target) :
    Task Workspace (List TargetResult) :=
  targets.mapM (build t host)

end TargetBuild

end CrossBuild
