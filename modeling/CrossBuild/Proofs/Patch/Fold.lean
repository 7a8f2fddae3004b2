import CrossBuild.Proofs.FileSystem.Operations
import CrossBuild.Proofs.Patch.Ledger

/-!
# Patching a file, told in full

Patches one after the other come to the markers of those that changed the text, and to a text or the
first patch that lacks its anchor. Patching a file is this on the text of the file: it notes these
markers in any case, and replaces the file's text if that came out and is a new one. Whether the
text can be replaced does not depend on what replaces it.
-/

namespace CrossBuild

open FileSystem CrossBuild.Task

namespace Patch

variable {α : Type} [DecidableEq α] {spell : String → List α} {p : Patch} {first rest : List Patch}
  {text mid final : List α}

/-- The markers of the patches that change the text, and the text that comes out or the first patch
that lacks its anchor. -/
def fold (spell : String → List α) : List Patch → List α → List String × Except Patch (List α)
  | [], text => ([], .ok text)
  | p :: rest, text =>
    match p.apply spell text with
    | .present | .skipped => fold spell rest text
    | .done changed =>
      ((if changed = text then [] else [p.marker]) ++ (fold spell rest changed).1,
        (fold spell rest changed).2)
    | .anchorMissing => ([], .error p)

theorem applyAll?_eq_fold (patches : List Patch) (text : List α) :
    applyAll? spell patches text = (fold spell patches text).2.toOption := by
  induction patches generalizing text with
  | nil => rfl
  | cons p rest ih =>
    rw [applyAll?, fold]
    rcases p.apply spell text with _ | changed | _ | _
    · exact ih text
    · exact ih changed
    · exact ih text
    · rfl

theorem fold_append_of_ok (rest : List Patch) (h : (fold spell first text).2 = .ok mid) :
    fold spell (first ++ rest) text =
      ((fold spell first text).1 ++ (fold spell rest mid).1, (fold spell rest mid).2) := by
  induction first generalizing text with
  | nil =>
    obtain rfl := Except.ok.inj h
    rfl
  | cons p first ih =>
    rw [fold] at h
    rw [List.cons_append, fold, fold]
    rcases hp : p.apply spell text with _ | changed | _ | _ <;> rw [hp] at h
    · exact ih h
    · dsimp only
      rw [ih h, List.append_assoc]
    · exact ih h
    · cases h

theorem fold_append_of_error (rest : List Patch) (h : (fold spell first text).2 = .error p) :
    fold spell (first ++ rest) text = fold spell first text := by
  induction first generalizing text with
  | nil => cases h
  | cons q first ih =>
    rw [fold] at h
    rw [List.cons_append, fold, fold]
    rcases hq : q.apply spell text with _ | changed | _ | _ <;> rw [hq] at h
    · exact ih h
    · dsimp only
      rw [ih h]
    · exact ih h

/-- Patches that come to a text come to one on the way. -/
theorem exists_fold_of_append (h : (fold spell (first ++ rest) text).2 = .ok final) :
    ∃ mid, (fold spell first text).2 = .ok mid ∧ (fold spell rest mid).2 = .ok final := by
  rcases hfirst : (fold spell first text).2 with q | mid
  · rw [fold_append_of_error rest hfirst, hfirst] at h
    cases h
  · rw [fold_append_of_ok rest hfirst] at h
    exact ⟨mid, rfl, h⟩

end Patch

namespace Ledger

variable {p : Path} {patches : List Patch} {record : PatchRecord} {ledger : Ledger}
  {s : PatchState} {fs : FileSystem} {b : Bytes}

/-- The ledger with more markers for a file. -/
def noted (ledger : Ledger) (p : Path) (markers : List String) : Ledger :=
  ledger.map fun e =>
    if e.1 = p then (e.1, { e.2 with applied := e.2.applied ++ markers }) else e

@[simp] theorem noted_nil (ledger : Ledger) (p : Path) : ledger.noted p [] = ledger := by
  unfold noted
  refine (List.map_congr_left fun e _ => ?_).trans (List.map_id _)
  split
  · rw [List.append_nil]
    rfl
  · rfl

theorem noted_noted (ledger : Ledger) (p : Path) (ms ns : List String) :
    (ledger.noted p ms).noted p ns = ledger.noted p (ms ++ ns) := by
  unfold noted
  rw [List.map_map]
  refine List.map_congr_left fun e _ => ?_
  by_cases he : e.1 = p
  · simp [he]
  · simp [he]

@[simp] theorem outline_noted (ledger : Ledger) (p : Path) (ms : List String) :
    (ledger.noted p ms).outline = ledger.outline := by
  unfold noted outline
  rw [List.map_map]
  refine List.map_congr_left fun e _ => ?_
  simp only [Function.comp_apply]
  split <;> rfl

theorem valueOf?_noted (ledger : Ledger) (p : Path) (ms : List String) :
    valueOf? p (ledger.noted p ms) =
      (valueOf? p ledger).map fun record => { record with applied := record.applied ++ ms } := by
  induction ledger with
  | nil => rfl
  | cons e ledger ih =>
    obtain ⟨key, record⟩ := e
    by_cases hkey : key = p
    · subst hkey
      simp [noted, valueOf?]
    · simpa [noted, valueOf?, hkey] using ih

theorem enter_enter (henter : enter s.ledger p = .ok (record, ledger)) :
    valueOf? p ledger = some record := by
  unfold enter at henter
  rcases hv : valueOf? p s.ledger with _ | found <;> rw [hv] at henter
  · dsimp only at henter
    rcases hr : freshRecord p with f | fresh <;> rw [hr] at henter
    · cases henter
    · obtain ⟨rfl, rfl⟩ := Prod.mk.inj (Except.ok.inj henter)
      rw [valueOf?_assign, if_pos rfl]
  · obtain ⟨rfl, rfl⟩ := Prod.mk.inj (Except.ok.inj henter)
    exact hv

/-- A file that was taken in stays in, whatever is noted. -/
theorem enter_noted (henter : enter s.ledger p = .ok (record, ledger)) (ms : List String) :
    enter (ledger.noted p ms) p =
      .ok ({ record with applied := record.applied ++ ms }, ledger.noted p ms) := by
  unfold enter
  rw [valueOf?_noted, enter_enter henter]
  rfl

/-! ## Replacing a text -/

theorem runOn_replaceText_of_present (h : fs.isPresent record.backup = .ok true)
    (text : SourceText) : (replaceText record text).runOn fs =
      (FileSystem.write record.source text.toBytes).runOn fs := by
  unfold replaceText
  rw [runOn_bind, runOn_ask, h]
  dsimp only
  rw [if_neg (by simp)]

/-- Whether a file's text can be replaced. -/
def Writable (record : PatchRecord) (fs : FileSystem) : Prop :=
  ∀ text, ((replaceText record text).runOn fs).1 = .ok ()

/-- Where a backup is there, replacing the text of a file succeeds again and again. -/
theorem runOn_replaceText_again {l : Location} {x : Bool}
    (hplace : fs.place true record.source = .ok l)
    (hfile : fs.node? l = some (.file b x)) (h : fs.isPresent record.backup = .ok true)
    (text : SourceText) :
    ∃ fs' x', (replaceText record text).runOn fs = (.ok (), fs') ∧
      fs'.place true record.source = .ok l ∧ fs'.node? l = some (.file text.toBytes x') ∧
      fs'.isPresent record.backup = .ok true := by
  have hspot := isSpot_of_file hfile
  obtain ⟨x', hwrite⟩ := runOn_write hplace hspot text.toBytes
  have hr := refiled_put hspot text.toBytes x'
  have hnew : (fs.put l (.file text.toBytes x')).node? l = some (.file text.toBytes x') := by
    rw [node?_put fs hspot.ne_nil, if_pos rfl]
  refine ⟨_, x', (runOn_replaceText_of_present h text).trans hwrite, hr.place hplace, hnew, ?_⟩
  obtain ⟨m, node, hbackup, hnode, -⟩ := (test_cases h).resolve_right (by simp)
  by_cases hm : m = l
  · subst hm
    exact test_of_node (hr.place hbackup) hnew
  · exact test_of_node (hr.place hbackup) ((hr.others m hm).trans hnode)

theorem writable_of_present {l : Location} {x : Bool} (hplace : fs.place true record.source = .ok l)
    (hfile : fs.node? l = some (.file b x)) (h : fs.isPresent record.backup = .ok true) :
    Writable record fs := by
  intro text
  obtain ⟨fs', -, hrun, -⟩ := runOn_replaceText_again hplace hfile h text
  rw [hrun]

theorem runOn_copyFile_error {p q : Path} {f : Failure}
    (h : ((copyFile p q).runOn fs).1 = .error f) : (copyFile p q).runOn fs = (.error f, fs) := by
  have hkeep : ((copyFile p q).runOn fs).1 = .error f → ((copyFile p q).runOn fs).2 = fs := by
    unfold copyFile
    rw [runOn_bind, runOn_ask]
    rcases fs.isSame p q with e | same
    · exact fun _ => rfl
    dsimp only
    split
    · exact fun _ => rfl
    rw [runOn_bind, runOn_ask]
    rcases fs.content p with e | c
    · exact fun _ => rfl
    dsimp only
    unfold FileSystem.write
    rw [runOn_change]
    split
    · next heq => exact fun h => by cases h
    · exact fun _ => rfl
  exact Prod.ext h (hkeep h)

theorem runOn_copyFile_unplaced {p q : Path} {f : Failure} (hq : fs.place true q = .error f) :
    ((copyFile p q).runOn fs).1 ≠ .ok () := by
  unfold copyFile
  rw [runOn_bind, runOn_ask]
  rcases fs.isSame p q with e | same
  · exact fun h => by cases h
  dsimp only
  split
  · exact fun h => by cases h
  rw [runOn_bind, runOn_ask]
  rcases fs.content p with e | c
  · exact fun h => by cases h
  dsimp only
  unfold FileSystem.write
  rw [runOn_change, hq]
  exact fun h => by cases h

/-- A backup that can be made is there afterwards, and the file is where it was. -/
theorem runOn_copyFile_backup {l : Location} {x : Bool}
    (hplace : fs.place true record.source = .ok l) (hfile : fs.node? l = some (.file b x))
    (hpresent : fs.isPresent record.backup = .ok false)
    (hcopy : ((copyFile record.source record.backup).runOn fs).1 = .ok ()) :
    ∃ fs₁, (copyFile record.source record.backup).runOn fs = (.ok (), fs₁) ∧
      fs₁.place true record.source = .ok l ∧ fs₁.node? l = some (.file b x) ∧
      fs₁.isPresent record.backup = .ok true := by
  rcases test_cases hpresent with ⟨m, node, -, -, h⟩ | ⟨-, m, hbackup, hnone⟩ | ⟨-, f, hf, -⟩
  · cases h
  · have hne : l ≠ m := by
      rintro rfl
      rw [hfile] at hnone
      cases hnone
    have hspot := isSpot_of_none hnone
    obtain ⟨x₁, hrun⟩ := runOn_copyFile hplace hfile hbackup hspot hne
    have hr := refiled_put hspot b x₁
    have hnew : (fs.put m (.file b x₁)).node? m = some (.file b x₁) := by
      rw [node?_put fs hspot.ne_nil, if_pos rfl]
    exact ⟨_, hrun, hr.place hplace, (hr.others l hne).trans hfile,
      test_of_node (hr.place hbackup) hnew⟩
  · exact absurd hcopy (runOn_copyFile_unplaced hf)

/-- **Replacing a text is all or nothing**, and which of both it is does not depend on the text:
what fails after the backup was made would have failed before it. -/
theorem replaceText_cases (hcontent : fs.content record.source = .ok b) :
    (∃ f, ∀ text, (replaceText record text).runOn fs = (.error f, fs)) ∨
      ∀ text, ∃ fs', (replaceText record text).runOn fs = (.ok (), fs') ∧
        fs'.content record.source = .ok text.toBytes ∧ Writable record fs' := by
  obtain ⟨l, x, hplace, hfile⟩ := content_eq_ok_iff.1 hcontent
  have hwritten : ∀ fs₁ x₁, fs₁.place true record.source = .ok l →
      fs₁.node? l = some (.file b x₁) → fs₁.isPresent record.backup = .ok true → ∀ text,
      ∃ fs', (replaceText record text).runOn fs₁ = (.ok (), fs') ∧
        fs'.content record.source = .ok text.toBytes ∧ Writable record fs' := by
    intro fs₁ x₁ hplace₁ hfile₁ hpresent text
    obtain ⟨fs', x', hrun, hplace', hnew, hpresent'⟩ :=
      runOn_replaceText_again hplace₁ hfile₁ hpresent text
    exact ⟨fs', hrun, content_eq_ok_iff.2 ⟨l, x', hplace', hnew⟩,
      writable_of_present hplace' hnew hpresent'⟩
  rcases hpresent : fs.isPresent record.backup with f | present
  · refine .inl ⟨f, fun text => ?_⟩
    unfold replaceText
    rw [runOn_bind, runOn_ask, hpresent]
  cases present with
  | true => exact .inr (hwritten fs x hplace hfile hpresent)
  | false =>
    have hstep : ∀ text, (replaceText record text).runOn fs =
        (copyFile record.source record.backup >>= fun _ =>
          FileSystem.write record.source text.toBytes).runOn fs := by
      intro text
      unfold replaceText
      rw [runOn_bind, runOn_ask, hpresent]
      dsimp only
      rw [if_pos (by simp)]
    rcases hcopy : ((copyFile record.source record.backup).runOn fs).1 with f | u
    · refine .inl ⟨f, fun text => ?_⟩
      rw [hstep, runOn_bind, runOn_copyFile_error hcopy]
    · -- the copy made the backup, so replacing the text goes as it does with one
      right
      obtain ⟨fs₁, hcopied, hplace₁, hfile₁, hpresent₁⟩ :=
        runOn_copyFile_backup hplace hfile hpresent hcopy
      intro text
      obtain ⟨fs', hrun, hrest⟩ := hwritten fs₁ x hplace₁ hfile₁ hpresent₁ text
      refine ⟨fs', ?_, hrest⟩
      rw [hstep, runOn_bind, hcopied]
      rw [runOn_replaceText_of_present hpresent₁] at hrun
      exact hrun

/-! ## Patching one file -/

/-- Applying patches to a text fails as the patches do, and notes the markers of those that change
it. -/
theorem runOn_applyAll_eq_fold (p : Path) (patches : List Patch) (text : SourceText)
    (s : PatchState) :
    let folded := Patch.fold SourceText.ofString patches text
    ((applyAll p patches text).runOn s).1 = folded.2.mapError Patch.anchorFault ∧
      ((applyAll p patches text).runOn s).2.ledger = s.ledger.noted p folded.1 := by
  induction patches generalizing text s with
  | nil => exact ⟨rfl, (noted_nil _ _).symm⟩
  | cons patch rest ih =>
    rw [applyAll, Patch.fold]
    rcases patch.apply SourceText.ofString text with _ | changed | _ | _ <;> dsimp only
    · exact ih text s
    · by_cases hchanged : changed = text
      · rw [if_neg (by simpa using hchanged), if_pos hchanged]
        exact ih changed s
      · rw [if_pos (by simpa using hchanged), if_neg hchanged, runOn_bind]
        obtain ⟨hresult, hledger⟩ := ih changed ((note p patch.marker).runOn s).2
        refine ⟨hresult, hledger.trans ?_⟩
        have hnote : ((note p patch.marker).runOn s).2.ledger =
            s.ledger.noted p [patch.marker] := by
          refine List.map_congr_left fun e _ => ?_
          rfl
        rw [hnote, noted_noted]
    · rw [runOn_bind]
      exact ih text _
    · exact ⟨rfl, (noted_nil _ _).symm⟩

/-- A failure by the name that it gets when it is a file error. -/
def renamed (name : FileError → PatchFault) : Failure → Failure
  | .file e => .patch (name e)
  | f => f

theorem runOn_renameFileError {σ α : Type} (name : FileError → PatchFault) (t : Task σ α) (x : σ) :
    (renameFileError name t).runOn x = ((t.runOn x).1.mapError (renamed name), (t.runOn x).2) := by
  unfold renameFileError
  rw [runOn_bind, runOn_attempt]
  rcases (t.runOn x).1 with f | a
  · cases f <;> rfl
  · rfl

theorem runOn_patchFile_unknown {f : Failure} (henter : enter s.ledger p = .error f) :
    (patchFile p patches).runOn s = (.error f, s) := by
  unfold patchFile
  rw [runOn_bind, runOn_ask, henter]

theorem runOn_patchFile_unreadable {f : Failure}
    (henter : enter s.ledger p = .ok (record, ledger))
    (hcontent : s.work.files.content record.source = .error f) :
    (patchFile p patches).runOn s =
      (.error (renamed (.unreadable record.source) f), { s with ledger }) := by
  unfold patchFile
  rw [runOn_bind, runOn_ask, henter]
  dsimp only
  rw [runOn_bind, runOn_update]
  dsimp only
  rw [runOn_bind, runOn_renameFileError, PatchState.runOn_liftM, Workspace.runOn_look, hcontent]
  rfl

/-- How patching a readable file ends: with the failure of a patch, with nothing to do, or with the
replacement of its text. The markers are noted in any case. -/
structure Attempted (record : PatchRecord) (p : Path) (ledger : Ledger)
    (folded : List String × Except Patch SourceText) (b : Bytes) (s : PatchState)
    (r : Except Failure Bool) (s' : PatchState) : Prop where
  invocations : s'.work.invocations = s.work.invocations
  ledger : s'.ledger = ledger.noted p folded.1
  missing : ∀ q, folded.2 = .error q →
    r = .error q.anchorFault ∧ s'.work.files = s.work.files
  unchanged : folded.2 = .ok (SourceText.ofBytes b) → r = .ok false ∧ s'.work.files = s.work.files
  replaced : ∀ text, folded.2 = .ok text → text ≠ SourceText.ofBytes b →
    s'.work.files = ((replaceText record text).runOn s.work.files).2 ∧
      r = (((replaceText record text).runOn s.work.files).1.mapError
        (renamed (.unwritable record.source))).map fun _ => true

theorem runOn_patchFile (patches : List Patch) (henter : enter s.ledger p = .ok (record, ledger))
    (hcontent : s.work.files.content record.source = .ok b) :
    Attempted record p ledger (Patch.fold SourceText.ofString patches (SourceText.ofBytes b)) b s
      ((patchFile p patches).runOn s).1 ((patchFile p patches).runOn s).2 := by
  unfold patchFile
  rw [runOn_bind, runOn_ask, henter]
  dsimp only
  rw [runOn_bind, runOn_update]
  dsimp only
  rw [runOn_bind, runOn_renameFileError, PatchState.runOn_liftM, Workspace.runOn_look, hcontent]
  dsimp only [Except.mapError]
  rw [runOn_bind]
  obtain ⟨hresult, hledger⟩ :=
    runOn_applyAll_eq_fold p patches (SourceText.ofBytes b) { s with ledger }
  obtain ⟨hquiet, -⟩ := runOn_applyAll p patches (SourceText.ofBytes b) { s with ledger }
  generalize Patch.fold SourceText.ofString patches (SourceText.ofBytes b) = folded
    at hresult hledger ⊢
  rcases hrun : (applyAll p patches (SourceText.ofBytes b)).runOn { s with ledger } with ⟨r, s₁⟩
  rw [hrun] at hresult hledger hquiet
  dsimp only at hresult hledger hquiet
  obtain ⟨ms, q | text⟩ := folded
  · subst hresult
    refine ⟨hquiet.invocations, hledger, ?_, ?_, ?_⟩
    · intro q' hq'
      obtain rfl := Except.error.inj hq'
      exact ⟨rfl, hquiet.files⟩
    · intro h
      cases h
    · intro text h
      cases h
  · subst hresult
    dsimp only [Except.mapError]
    by_cases hsame : text = SourceText.ofBytes b
    · rw [if_pos hsame]
      refine ⟨hquiet.invocations, hledger, ?_, fun _ => ⟨rfl, hquiet.files⟩, ?_⟩
      · intro q h
        cases h
      · intro text' h hne
        exact absurd ((Except.ok.inj h).symm.trans hsame) hne
    · rw [if_neg hsame, runOn_bind, runOn_renameFileError, PatchState.runOn_liftM,
        Workspace.runOn_onFiles, hquiet.files]
      rcases hreplace : (replaceText record text).runOn s.work.files with ⟨f | u, fs'⟩
      all_goals
        refine ⟨hquiet.invocations, hledger, ?_, fun h => absurd (Except.ok.inj h) hsame, ?_⟩
        · intro q h
          cases h
        · intro text' h _
          obtain rfl := Except.ok.inj h
          rw [hreplace]
          exact ⟨rfl, rfl⟩

end Ledger

end CrossBuild
