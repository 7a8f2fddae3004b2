import CrossBuild.Target

/-!
# Receipts

The record of a run: its setup stages, what became of every target and with which tool commands,
and which files came out. The status of a run follows from its stages and targets.
-/

namespace CrossBuild

inductive PhaseStatus
  | success
  | failed
  | timeout
  | skipped
  deriving DecidableEq, Repr

inductive TargetStatus
  | success
  | failed
  deriving DecidableEq, Repr

/-- How a run as a whole went: all targets, some of them, or the setup failed. -/
inductive RunStatus
  | running
  | success
  | incomplete
  | failed
  deriving DecidableEq, Repr

/-- The stages of a run, in order. -/
inductive Stage
  | clean
  | patch
  | hostTools
  | targets
  | tempCleanup
  | restore
  deriving DecidableEq, Repr

/-- One step for a target, most often a run of a tool. -/
structure Phase where
  name : String
  command : String := ""
  exitCode : Int := -1
  durationMs : Int := 0
  stderrTail : Option String := none
  status : PhaseStatus := .skipped
  deriving DecidableEq, Repr

/-- How a phase ended, in small letters. -/
def Phase.statusWord (p : Phase) : String :=
  match p.status with
  | .success => "success"
  | .failed => "failed"
  | .timeout => "timeout"
  | .skipped => "skipped"

/-- Whether a phase succeeded. -/
def Phase.ok (p : Phase) : Bool :=
  p.status == .success

/-- A file that was built. -/
structure Artifact where
  path : String
  sha256 : String
  size : Int
  /-- The kind of program file. -/
  format : String
  machine : Option String
  matchesTarget : Bool
  deriving DecidableEq, Repr

structure TargetResult where
  target : String
  family : String
  status : TargetStatus := .failed
  buildTree : Option String := none
  reboundImports : Int := 0
  phases : List Phase := []
  artifact : Option Artifact := none
  errorMessage : Option String := none
  deriving DecidableEq, Repr

/-- The first phase that failed. -/
def TargetResult.failedPhase? (r : TargetResult) : Option Phase :=
  r.phases.find? fun p => p.status == .failed || p.status == .timeout

structure StageResult where
  stage : Stage
  ok : Bool := true
  detail : Option String := none
  deriving DecidableEq, Repr

/-- Which builder made a receipt. -/
structure Builder where
  name : String := "qjs_builder"
  version : String := "v1"
  schemaVersion : String := "1.0"
  profile : String := ""
  deriving DecidableEq, Repr

structure Receipt where
  builder : Builder := {}
  application : String
  entry : String
  optimized : Bool
  hostTarget : String
  modules : List (String × String) := []
  createdAt : String
  finishedAt : Option String := none
  status : RunStatus := .running
  stages : List StageResult := []
  targets : List TargetResult := []
  /-- The markers inserted during the run, by file name. -/
  patches : List (String × List String) := []
  restoredFiles : List String := []
  deriving DecidableEq, Repr

namespace Stage

/-- Whether no target can be built without this stage. -/
def isSetup : Stage → Bool
  | .clean | .patch | .hostTools => true
  | _ => false

end Stage

namespace Receipt

/-- The status that follows from the stages and targets. -/
def computeStatus (r : Receipt) : RunStatus :=
  if r.stages.any fun s => s.stage.isSetup && !s.ok then .failed
  else if r.targets.isEmpty then .failed
  else if r.targets.all fun t => t.status == .success then .success
  else .incomplete

/-- The exit code of a run: zero if every target was built, two if some failed, one else. -/
def exitCode (r : Receipt) : Nat :=
  match r.status with
  | .success => 0
  | .incomplete => 2
  | _ => 1

end Receipt

end CrossBuild
