import CrossBuild.FileSystem.Operations
import CrossBuild.Json.Printer
import CrossBuild.Receipt.Basic

/-!
# Writing receipts

A receipt as a JSON value and as a file in the build directory.
-/

namespace CrossBuild

def PhaseStatus.word : PhaseStatus → String
  | .success => "SUCCESS"
  | .failed => "FAILED"
  | .timeout => "TIMEOUT"
  | .skipped => "SKIPPED"

def TargetStatus.word : TargetStatus → String
  | .success => "SUCCESS"
  | .failed => "FAILED"

def RunStatus.word : RunStatus → String
  | .running => "RUNNING"
  | .success => "SUCCESS"
  | .incomplete => "PARTIAL"
  | .failed => "FAILED"

def Stage.word : Stage → String
  | .clean => "clean"
  | .patch => "patch"
  | .hostTools => "host_tools"
  | .targets => "targets"
  | .tempCleanup => "temp_cleanup"
  | .restore => "restore"

def Phase.toJson (p : Phase) : Json :=
  .obj [("name", .str p.name), ("command", .str p.command), ("exit_code", .int p.exitCode),
    ("duration_ms", .int p.durationMs), ("stderr_tail", .ofString? p.stderrTail),
    ("status", .str p.status.word)]

def Artifact.toJson (a : Artifact) : Json :=
  .obj [("path", .str a.path), ("sha256", .str a.sha256), ("size_bytes", .int a.size),
    ("format", .str a.format), ("machine", .ofString? a.machine),
    ("matches_target", .bool a.matchesTarget)]

def TargetResult.toJson (r : TargetResult) : Json :=
  .obj [("target", .str r.target), ("os_family", .str r.family), ("status", .str r.status.word),
    ("build_tree", .ofString? r.buildTree), ("import_rewrites", .int r.reboundImports),
    ("phases", .arr (r.phases.map Phase.toJson)),
    ("artifact", (r.artifact.map Artifact.toJson).getD .null),
    ("error_message", .ofString? r.errorMessage)]

def StageResult.toJson (s : StageResult) : Json :=
  .obj [("stage", .str s.stage.word), ("ok", .bool s.ok), ("detail", .ofString? s.detail)]

def Builder.toJson (b : Builder) : Json :=
  .obj [("name", .str b.name), ("version", .str b.version),
    ("schema_version", .str b.schemaVersion), ("profile_id", .str b.profile)]

namespace Receipt

def toJson (r : Receipt) : Json :=
  .obj [("builder", r.builder.toJson), ("app_name", .str r.application), ("entry", .str r.entry),
    ("optimized", .bool r.optimized), ("host_target", .str r.hostTarget),
    ("modules", .obj (r.modules.map fun (k, v) => (k, .str v))),
    ("created_at", .str r.createdAt), ("finished_at", .ofString? r.finishedAt),
    ("status", .str r.status.word), ("stages", .arr (r.stages.map StageResult.toJson)),
    ("targets", .arr (r.targets.map TargetResult.toJson)),
    ("patches", .obj (r.patches.map fun (k, l) => (k, .ofStrings l))),
    ("restored_files", .ofStrings r.restoredFiles)]

def fileName : String := "build_receipt.json"

/-- Writes a receipt into a directory, which is created if it is missing. Gives the file's path. -/
def write (r : Receipt) (directory : Path) : Task FileSystem Path := do
  FileSystem.makeDirectories directory
  let path := directory / fileName
  FileSystem.writeText path (r.toJson.pretty ++ "\n")
  return path

end Receipt

end CrossBuild
