import CrossBuild.ProcessStarter
import CrossBuild.Patch.Engine
import CrossBuild.Receipt.Printer
import CrossBuild.Run.TargetBuild

/-!
# A run

The stages of a run: clean, patch, host tools, targets; then, whatever happened, the removal of
temporary files and the restoring of the patched sources. A setup stage that fails ends the setup,
and no target is built.
-/

namespace CrossBuild

/-- The state of a run. -/
structure BuildState where
  patching : PatchState
  receipt : Receipt
  host : HostTools

namespace BuildState

/-- A task on the patched files and the workspace. -/
def onPatching {α : Type} (t : Task PatchState α) : Task BuildState α :=
  Task.onPart (·.patching) (fun p s => { s with patching := p }) t

instance : MonadLift (Task PatchState) (Task BuildState) := ⟨onPatching⟩

/-- A task on the workspace alone. -/
def onWork {α : Type} (t : Task Workspace α) : Task BuildState α :=
  onPatching (PatchState.onWork t)

/-- Changes the receipt. -/
def record (f : Receipt → Receipt) : Task BuildState Unit :=
  Task.update fun s => { s with receipt := f s.receipt }

def setHost (host : HostTools) : Task BuildState Unit :=
  Task.update fun s => { s with host }

end BuildState

namespace Build

open Workspace FileSystem BuildState

/-- The state of a run at its start. -/
def start (c : Config) (now : String) (work : Workspace) : Except Failure BuildState := do
  let ledger ← Ledger.ofPaths (EngineFile.all.map c.engineFile)
  return {
    patching := ⟨work, ledger⟩
    host := ⟨none, []⟩
    receipt :=
      { builder := { profile := c.profile.id }
        application := c.application
        entry := c.entry.toString
        optimized := c.optimized
        hostTarget := c.host.id
        modules := c.modules.foldl (fun l m => assign m.name m.source.toString l) []
        createdAt := now } }

/-! ## Setup -/

/-- Empties the build directory and creates the directories of the run. -/
def clean (c : Config) : Task Workspace Unit := do
  info "=== CLEAN ==="
  if ← look (·.isPresent c.buildDirectory) then removeTree c.buildDirectory
  makeDirectories c.buildDirectory
  makeDirectories c.toolsDirectory
  makeDirectories c.distDirectory
  writeText (TargetBuild.stub c) consoleStub

/-- The text of the process starter, if its file is there. -/
def starterText (c : Config) : Task Workspace (Option String) := do
  let present ← match c.starter with
    | some p => look (·.isFile p)
    | none => pure false
  match present, c.starter with
  | true, some p => return some (← look (·.text p))
  | _, _ =>
    let word := (c.starter.map Path.toString).getD "None"
    info s!"No exec shim at {word}, os.exec stays POSIX-only"
    return none

/-- Refuses a module whose file is missing. -/
def checkModule (m : Module) : Task Workspace Unit := do
  if !(← look (·.isFile m.source)) then throw (.setup (.moduleMissing m.name m.source))

/-- Checks that everything is there, and patches the sources of the engine. -/
def patch (c : Config) : Task PatchState Unit := do
  info "=== PATCHING QUICKJS SOURCES ==="
  if !(← look (·.isPresent c.compiler)) then throw (.setup (.compilerMissing c.compiler))
  if !(← look (·.isDirectory c.engine)) then throw (.setup (.engineMissing c.engine))
  for m in c.modules do
    checkModule m
  let starter ← starterText c
  let _ ← Ledger.patchEngine c.engineFile (c.modules.map (·.name)) starter EngineFile.all

/-- Finds the given precompiler for this machine, or builds the helper tools for it. -/
def prepareHost (t : Toolchain) : Task BuildState Unit := do
  let c := t.config
  match c.hostPrecompiler with
  | some p =>
    if !(← onWork (look (·.isFile p))) then throw (.setup (.hostToolMissing p))
    Task.update fun s => { s with host := { s.host with precompiler := some p } }
    onWork (info s!"Using host pre-compiler {p}")
  | none =>
    onWork (info s!"=== HOST TOOLS ({c.host.id}) ===")
    let phases ← onWork (t.buildHelpers c.host (TargetBuild.stub c))
    match phases.find? fun p => !p.ok with
    | some p => throw (.setup (.hostToolFailed p.name c.host.id (p.stderrTail.getD "")))
    | none => setHost ⟨some (c.toolsDirectory / c.host.precompiler), phases⟩

/-! ## Targets -/

def buildTarget (t : Toolchain) (target : Target) : Task BuildState TargetResult := do
  let host ← Task.ask fun s => .ok s.host
  onWork (TargetBuild.build t host target)

/-- Builds every target of the configuration, in the order of the table. -/
def buildTargets (t : Toolchain) : Task BuildState (List TargetResult) := do
  let host ← Task.ask fun s => .ok s.host
  onWork (TargetBuild.buildAll t host t.config.targets)

/-! ## Teardown -/

/-- Whether a name is that of a temporary C file. -/
def isTemporary (name : String) : Bool :=
  "_app.c".toList.isSuffixOf name.toList

/-- Reports a file that could not be removed. -/
def orWarn (p : Path) (t : Task FileSystem Unit) (message : Option String) :
    Task Workspace Unit := do
  match ← Task.attempt (onFiles t) with
  | .ok () => if let some m := message then info m
  | .error (.file e) => warning (s!"Could not remove {p}: " ++ e.message)
  | .error f => throw f

/-- Removes the C files of the targets and the console's stand-in. -/
def cleanup (c : Config) : Task Workspace Unit := do
  info "=== CLEANUP ==="
  if ← look (·.isDirectory c.toolsDirectory) then
    for name in (← look (·.names c.toolsDirectory)).filter isTemporary do
      let p : Path := ⟨c.toolsDirectory.anchor, c.toolsDirectory.parts ++ [name]⟩
      orWarn p (unlink p) (some s!"Removed temporary source: {name}")
  let stub := TargetBuild.stub c
  orWarn stub (unlinkIfPresent stub) none

/-- Puts the patched sources back and notes it in the receipt. -/
def restore : Task BuildState Unit := do
  let markers ← Task.ask fun s => .ok s.patching.ledger.markers
  record fun r => { r with patches := markers }
  let restored ← onPatching Ledger.restore
  record fun r => { r with restoredFiles := restored.map Path.toString }

/-! ## The whole run -/

/-- Whether a failure is one of the setup or of a file, which the receipt records. -/
def isRecorded : Failure → Bool
  | .file _ | .setup _ | .patch _ | .manifest _ => true
  | _ => false

/-- Runs a setup stage and notes how it went. -/
def stage (s : Stage) (t : Task BuildState Unit) : Task BuildState Bool := do
  match ← Task.attempt t with
  | .ok () =>
    record fun r => { r with stages := r.stages ++ [{ stage := s }] }
    return true
  | .error f =>
    if isRecorded f then
      onWork (error (s!"{s.word} stage failed: " ++ f.message))
      record fun r =>
        { r with stages := r.stages ++ [{ stage := s, ok := false, detail := some f.message }] }
      return false
    else throw f

/-- Notes that a stage is done. -/
def done (s : Stage) : Task BuildState Unit :=
  record fun r => { r with stages := r.stages ++ [{ stage := s }] }

/-- The setup stages, and the targets if all of them succeed. -/
def forward (t : Toolchain) : Task BuildState Unit := do
  let c := t.config
  if !(← stage .clean (onWork (clean c))) then return
  if !(← stage .patch (onPatching (patch c))) then return
  if !(← stage .hostTools (prepareHost t)) then return
  let results ← buildTargets t
  record fun r => { r with targets := results }
  done .targets

/-- What every run ends with. -/
def teardown (c : Config) : Task BuildState Unit := do
  onWork (cleanup c)
  done .tempCleanup
  restore
  done .restore

/-- Tells how the run went. -/
def summary (c : Config) (r : Receipt) : Task Workspace Unit := do
  let failed := r.targets.filter fun t => t.status != .success
  if !failed.isEmpty then
    let names := String.intercalate ", " (failed.map (·.target))
    warning s!"{failed.length} target(s) failed: {names}"
  let mode := if c.optimized then "ON" else "OFF"
  info s!"Build process complete. (Optimization: {mode})"
  info "Platform sources kept in build/ subfolders."

/-- Writes the receipt; that it cannot be written is only reported. -/
def writeReceipt (c : Config) (r : Receipt) : Task Workspace Unit := do
  match ← Task.attempt (onFiles (r.write c.buildDirectory)) with
  | .ok p => info s!"Receipt written to {p}"
  | .error (.file e) => warning ("Could not write receipt: " ++ e.message)
  | .error f => throw f

/-- A whole run. Gives the receipt. -/
def execute (t : Toolchain) (now : String) (write : Bool) : Task BuildState Receipt := do
  Task.thenAlways (forward t) (teardown t.config)
  record fun r => { r with status := r.computeStatus, finishedAt := some now }
  let r ← Task.ask fun s => .ok s.receipt
  onWork (summary t.config r)
  if write then onWork (writeReceipt t.config r)
  return r

/-- A run of a configuration in a workspace. -/
def run (t : Toolchain) (now : String) (write : Bool) : Task Workspace Receipt := fun w =>
  match start t.config now w with
  | .error f => (.error f, w)
  | .ok s =>
    let (r, s) := (execute t now write).runOn s
    (r, s.patching.work)

end Build

end CrossBuild
