import CrossBuild.Patch.Ledger
import CrossBuild.Patch.Plan

/-!
# Patching the engine

The patch plan, applied to the files of the engine.
-/

namespace CrossBuild.Ledger

/-- Applies the plan to files of the engine one after the other; a file without patches is left
alone. Tells of each of the others whether it was changed. -/
def patchEngine (place : EngineFile → Path) (modules : List String) (starter : Option String) :
    List EngineFile → Task PatchState (List (EngineFile × Bool))
  | [] => return []
  | f :: rest => do
    let patches := Patch.plan modules starter f
    if patches.isEmpty then patchEngine place modules starter rest
    else
      let changed ← patchFile (place f) patches
      return (f, changed) :: (← patchEngine place modules starter rest)

end CrossBuild.Ledger
