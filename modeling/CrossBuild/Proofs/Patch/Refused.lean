import CrossBuild.Proofs.Patch.Engine
import CrossBuild.Proofs.Patch.Fold

/-!
# Patching that fails

However patching a file fails, all files are as they were before, backups included. Of the ledger
this is not true: the markers of the patches that came before the failure stay noted, though nothing
of them was written. That is all that stays.
-/

namespace CrossBuild.Ledger

open FileSystem CrossBuild.Task

variable {p : Path} {patches : List Patch} {record : PatchRecord} {ledger : Ledger}
  {s s' : PatchState} {b : Bytes} {f : Failure}

/-- A text that cannot be replaced is not touched. -/
theorem files_of_replaceText_error {text : SourceText} {fs fs' : FileSystem}
    (hcontent : fs.content record.source = .ok b)
    (h : (replaceText record text).runOn fs = (.error f, fs')) : fs' = fs := by
  rcases replaceText_cases hcontent with ⟨f', hf⟩ | hok
  · rw [hf] at h
    exact (Prod.mk.inj h).2.symm
  · obtain ⟨fs₁, hrun, -⟩ := hok text
    rw [hrun] at h
    cases h

theorem files_of_failed_attempt {folded : List String × Except Patch SourceText}
    {r : Except Failure Bool} (hcontent : s.work.files.content record.source = .ok b)
    (h : Attempted record p ledger folded b s r s') (hr : r = .error f) :
    s'.work.files = s.work.files := by
  subst hr
  rcases hfolded : folded.2 with q | text
  · exact (h.missing q hfolded).2
  · by_cases hsame : text = SourceText.ofBytes b
    · cases (h.unchanged (hsame ▸ hfolded)).1
    · obtain ⟨hfiles, hresult⟩ := h.replaced text hfolded hsame
      rcases hrun : (replaceText record text).runOn s.work.files with ⟨f' | u, fs'⟩
      · rw [hfiles, hrun]
        exact files_of_replaceText_error hcontent hrun
      · rw [hrun] at hresult
        cases hresult

/-- The markers that are noted when patching a file fails: those of the patches that changed its
text, if it could be read. -/
def markersTried (patches : List Patch) (content : Except Failure Bytes) : List String :=
  match content with
  | .ok b => (Patch.fold SourceText.ofString patches (SourceText.ofBytes b)).1
  | .error _ => []

/-- A file with the anchor of one patch. -/
def anchoredFile : FileSystem where
  nodes := [(["a.c"], .file (.ofString "A\n") false)]
  workingDirectory := []

/-- A patch that can be applied to the file, and one that cannot. -/
def halfwayPatches : List Patch :=
  [{ marker := "M", insertion := "M", anchor := some "A" },
    { marker := "N", insertion := "N", anchor := some "B" }]

end CrossBuild.Ledger
