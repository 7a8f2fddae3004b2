import CrossBuild.Receipt.Printer
import CrossBuild.Validation

/-!
# Reading receipts

A receipt from a JSON value, with every issue of the value.
-/

namespace CrossBuild

open Reader

/-- The one among some values that has the word. -/
def byWord? {α : Type} (all : List α) (word : α → String) (s : String) : Option α :=
  all.find? fun a => word a == s

def PhaseStatus.reader : Reader PhaseStatus :=
  choice (byWord? [.success, .failed, .timeout, .skipped] word)

def TargetStatus.reader : Reader TargetStatus :=
  choice (byWord? [.success, .failed] word)

def RunStatus.reader : Reader RunStatus :=
  choice (byWord? [.running, .success, .incomplete, .failed] word)

def Stage.reader : Reader Stage :=
  choice (byWord? [.clean, .patch, .hostTools, .targets, .tempCleanup, .restore] word)

def Phase.reader : Reader Phase :=
  model fun m => Phase.mk <$> required "name" string m <*> withDefault "command" string "" m <*>
    withDefault "exit_code" int (-1) m <*> withDefault "duration_ms" int 0 m <*>
    withDefault "stderr_tail" (optional string) none m <*>
    withDefault "status" PhaseStatus.reader .skipped m

def Artifact.reader : Reader Artifact :=
  model fun m => Artifact.mk <$> required "path" string m <*> required "sha256" string m <*>
    required "size_bytes" int m <*> required "format" string m <*>
    withDefault "machine" (optional string) none m <*> withDefault "matches_target" bool true m

def TargetResult.reader : Reader TargetResult :=
  model fun m => TargetResult.mk <$> required "target" string m <*>
    required "os_family" string m <*>
    withDefault "status" TargetStatus.reader .failed m <*>
    withDefault "build_tree" (optional string) none m <*>
    withDefault "import_rewrites" int 0 m <*> withDefault "phases" (list Phase.reader) [] m <*>
    withDefault "artifact" (optional Artifact.reader) none m <*>
    withDefault "error_message" (optional string) none m

def StageResult.reader : Reader StageResult :=
  model fun m => StageResult.mk <$> required "stage" Stage.reader m <*>
    withDefault "ok" bool true m <*> withDefault "detail" (optional string) none m

def Builder.reader : Reader Builder :=
  model fun m => Builder.mk <$> withDefault "name" string "qjs_builder" m <*>
    withDefault "version" string "v1" m <*> withDefault "schema_version" string "1.0" m <*>
    withDefault "profile_id" string "" m

/-- A receipt; `now` is the time that it gets if it has none. -/
def Receipt.reader (now : String) : Reader Receipt :=
  model fun m => Receipt.mk <$> withDefault "builder" Builder.reader {} m <*>
    required "app_name" string m <*> required "entry" string m <*> required "optimized" bool m <*>
    required "host_target" string m <*> withDefault "modules" (dict string) [] m <*>
    withDefault "created_at" string now m <*>
    withDefault "finished_at" (optional string) none m <*>
    withDefault "status" RunStatus.reader .running m <*>
    withDefault "stages" (list StageResult.reader) [] m <*>
    withDefault "targets" (list TargetResult.reader) [] m <*>
    withDefault "patches" (dict (list string)) [] m <*>
    withDefault "restored_files" (list string) [] m

/-- A receipt from the fields of an object. -/
def Receipt.ofJson (now : String) (j : Json) : Except Report Receipt :=
  (Receipt.reader now j).toExcept "BuildReceipt"

end CrossBuild
