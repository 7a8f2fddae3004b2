import CrossBuild.Proofs.Patch.Apply
import CrossBuild.Proofs.Workspace

/-!
# What patching a file does

Applying patches notes markers and reports, and neither touches a file. So patching a file either
leaves all files alone or replaces the text of that one file, after backing it up.
-/

namespace CrossBuild

open Workspace CrossBuild.Task

/-- The ledger without the markers. -/
def Ledger.outline (ledger : Ledger) : List (Path × Path × Path) :=
  ledger.map fun entry => (entry.1, entry.2.source, entry.2.backup)

/-- Files, runs of tools and files under patching are the same; markers and reports may differ. -/
structure PatchState.Quiet (s s' : PatchState) : Prop where
  files : s'.work.files = s.work.files
  invocations : s'.work.invocations = s.work.invocations
  outline : s'.ledger.outline = s.ledger.outline

namespace PatchState.Quiet

theorem refl (s : PatchState) : Quiet s s := ⟨rfl, rfl, rfl⟩

theorem trans {s s' s'' : PatchState} (h : Quiet s s') (h' : Quiet s' s'') : Quiet s s'' :=
  ⟨h'.files.trans h.files, h'.invocations.trans h.invocations, h'.outline.trans h.outline⟩

end PatchState.Quiet

namespace Ledger

variable {p : Path} {patches : List Patch} {ledger ledger' : Ledger} {record : PatchRecord}

/-- Whether every record is that of its key. -/
def Sound (ledger : Ledger) : Prop :=
  ∀ entry ∈ ledger, entry.2.source = entry.1 ∧ backupOf entry.1 = .ok entry.2.backup

theorem Sound.of_outline (h : ledger.Sound)
    (ho : ledger'.outline = ledger.outline) : ledger'.Sound := by
  intro entry hentry
  have hmem : (entry.1, entry.2.source, entry.2.backup) ∈ ledger.outline := by
    rw [← ho]
    exact List.mem_map_of_mem hentry
  obtain ⟨other, hother, heq⟩ := List.mem_map.1 hmem
  obtain ⟨hsource, hbackup⟩ := h other hother
  simp only [Prod.mk.injEq] at heq
  obtain ⟨h1, h2, h3⟩ := heq
  rw [← h1, ← h2, ← h3]
  exact ⟨hsource, hbackup⟩

theorem freshRecord_ok (h : freshRecord p = .ok record) :
    record.source = p ∧ backupOf p = .ok record.backup ∧ record.applied = [] := by
  unfold freshRecord at h
  rcases hb : backupOf p with f | backup <;> rw [hb] at h
  · cases h
  · cases h
    exact ⟨rfl, rfl, rfl⟩

theorem assign_of_new {α β : Type} [DecidableEq α] {key : α} (value : β) {pairs : List (α × β)}
    (h : valueOf? key pairs = none) : assign key value pairs = pairs ++ [(key, value)] := by
  induction pairs with
  | nil => rfl
  | cons pair pairs ih =>
    obtain ⟨k, v⟩ := pair
    rw [valueOf?] at h
    split at h
    · cases h
    · next hk => rw [assign, if_neg hk, ih h, List.cons_append]

/-- The record of a file, and the ledger that holds it: the old one or one with a new record. -/
theorem enter_cases (h : enter ledger p = .ok (record, ledger')) :
    (ledger' = ledger ∧ (p, record) ∈ ledger) ∨
      (ledger' = ledger ++ [(p, record)] ∧ freshRecord p = .ok record) := by
  unfold enter at h
  rcases hv : valueOf? p ledger with _ | found <;> rw [hv] at h
  · dsimp only at h
    rcases hr : freshRecord p with f | fresh <;> rw [hr] at h
    · cases h
    · obtain ⟨rfl, rfl⟩ := Prod.mk.inj (Except.ok.inj h)
      exact .inr ⟨assign_of_new _ hv, rfl⟩
  · obtain ⟨rfl, rfl⟩ := Prod.mk.inj (Except.ok.inj h)
    exact .inl ⟨rfl, mem_of_valueOf? hv⟩

theorem Sound.enter (hs : ledger.Sound) (h : enter ledger p = .ok (record, ledger')) :
    ledger'.Sound ∧ record.source = p ∧ backupOf p = .ok record.backup := by
  rcases enter_cases h with ⟨rfl, hmem⟩ | ⟨rfl, hfresh⟩
  · exact ⟨hs, hs _ hmem⟩
  · obtain ⟨hsource, hbackup, -⟩ := freshRecord_ok hfresh
    refine ⟨?_, hsource, hbackup⟩
    intro entry hentry
    rcases List.mem_append.1 hentry with hentry | hentry
    · exact hs entry hentry
    · rw [List.mem_singleton.1 hentry]
      exact ⟨hsource, hbackup⟩

/-- Applying patches to a text is quiet, and gives the text that the patches make of it. -/
theorem runOn_applyAll (p : Path) (patches : List Patch) (text : SourceText) (s : PatchState) :
    PatchState.Quiet s ((applyAll p patches text).runOn s).2 ∧
      ((applyAll p patches text).runOn s).1.toOption =
        Patch.applyAll? SourceText.ofString patches text := by
  induction patches generalizing text s with
  | nil => exact ⟨.refl s, rfl⟩
  | cons patch rest ih =>
    rw [applyAll, Patch.applyAll?]
    rcases patch.apply SourceText.ofString text with _ | changed | _ | _ <;> dsimp only
    · exact ih text s
    · split
      · -- the marker is noted in the record, which keeps its paths
        have hnote : PatchState.Quiet s ((note p patch.marker).runOn s).2 := by
          refine ⟨rfl, rfl, ?_⟩
          show (s.ledger.map _).map _ = _
          rw [List.map_map]
          refine List.map_congr_left fun entry _ => ?_
          simp only [Function.comp_apply]
          split <;> rfl
        have hrest := ih changed ((note p patch.marker).runOn s).2
        rw [runOn_bind]
        exact ⟨hnote.trans hrest.1, hrest.2⟩
      · exact ih changed s
    · have hwarning : PatchState.Quiet s
          ((liftM (warning patch.skippedMessage) : Task PatchState Unit).runOn s).2 :=
        ⟨rfl, rfl, rfl⟩
      have hrest := ih text
        ((liftM (warning patch.skippedMessage) : Task PatchState Unit).runOn s).2
      rw [runOn_bind]
      exact ⟨hwarning.trans hrest.1, hrest.2⟩
    · exact ⟨.refl s, rfl⟩

/-- Patches that change nothing leave the ledger as it is. -/
theorem runOn_applyAll_of_idle (p : Path) {text : SourceText} (s : PatchState)
    (h : ∀ patch ∈ patches, patch.Idle SourceText.ofString text) :
    ((applyAll p patches text).runOn s).1 = .ok text ∧
      ((applyAll p patches text).runOn s).2.ledger = s.ledger := by
  induction patches generalizing s with
  | nil => exact ⟨rfl, rfl⟩
  | cons patch rest ih =>
    have hrest : ∀ q ∈ rest, Patch.Idle SourceText.ofString text q := fun q hq => h q (by simp [hq])
    rw [applyAll]
    rcases h patch (by simp) with hp | hp <;> rw [hp] <;> dsimp only
    · exact ih s hrest
    · rw [runOn_bind]
      exact ih _ hrest

/-- Another name for a file error changes nothing but the failure. -/
theorem meets_renameFileError {σ α : Type} {f : FileError → PatchFault} {t : Task σ α}
    {pre failed : σ → Prop} {post : α → σ → Prop} (h : Meets pre t post fun _ => failed) :
    Meets pre (renameFileError f t) post fun _ => failed := by
  have hattempt : Meets pre (Task.attempt t)
      (fun r s => match r with
        | .ok a => post a s
        | .error _ => failed s) fun _ => failed := Meets.attempt h
  refine hattempt.bind fun r => ?_
  rcases r with e | a
  · cases e with
    | file e => exact Meets.throw fun _ h => h
    | _ => exact Meets.throw fun _ h => h
  · exact Meets.pure fun _ h => h

/-! ## Patching one file -/

/-- How patching a file can end, and the files it leaves. -/
inductive Patched (record : PatchRecord) (patches : List Patch) (fs : FileSystem) :
    Except Failure Bool → FileSystem → Prop
  /-- The file cannot be read, or an anchor is missing. -/
  | refused (f : Failure) : Patched record patches fs (.error f) fs
  | unchanged {content : Bytes} (hcontent : fs.content record.source = .ok content)
      (htext : Patch.applyAll? SourceText.ofString patches (SourceText.ofBytes content) =
        some (SourceText.ofBytes content)) : Patched record patches fs (.ok false) fs
  | unwritten {content : Bytes} {text : SourceText} {e : Failure} {fs' : FileSystem} (f : Failure)
      (hcontent : fs.content record.source = .ok content)
      (htext : Patch.applyAll? SourceText.ofString patches (SourceText.ofBytes content) = some text)
      (hwrite : (replaceText record text).runOn fs = (.error e, fs')) :
      Patched record patches fs (.error f) fs'
  | changed {content : Bytes} {text : SourceText} {fs' : FileSystem}
      (hcontent : fs.content record.source = .ok content)
      (htext : Patch.applyAll? SourceText.ofString patches (SourceText.ofBytes content) = some text)
      (hwrite : (replaceText record text).runOn fs = (.ok (), fs')) :
      Patched record patches fs (.ok true) fs'

/-- What patching a file does to the files, the runs of tools and the ledger. -/
theorem patchFile_ends {s : PatchState} (patches : List Patch)
    (henter : enter s.ledger p = .ok (record, ledger)) :
    Patched record patches s.work.files ((patchFile p patches).runOn s).1
        ((patchFile p patches).runOn s).2.work.files ∧
      ((patchFile p patches).runOn s).2.work.invocations = s.work.invocations ∧
      ((patchFile p patches).runOn s).2.ledger.outline = ledger.outline := by
  let Ends (r : Except Failure Bool) (s' : PatchState) : Prop :=
    Patched record patches s.work.files r s'.work.files ∧
      s'.work.invocations = s.work.invocations ∧ s'.ledger.outline = ledger.outline
  -- no step but the last does more than note and report
  let Still (s' : PatchState) : Prop := PatchState.Quiet ⟨s.work, ledger⟩ s'
  have hrefused : ∀ f s', Still s' → Ends (.error f) s' := by
    intro f s' hs'
    refine ⟨?_, hs'.invocations, hs'.outline⟩
    rw [hs'.files]
    exact .refused f
  have henter' : Meets (fun x => x = s) (Task.ask fun s => enter s.ledger p)
      (fun a x => a = (record, ledger) ∧ x = s) fun f => Ends (.error f) := by
    refine Meets.ask ?_ ?_
    · rintro a x rfl ha
      rw [henter] at ha
      exact ⟨(Except.ok.inj ha).symm, rfl⟩
    · rintro f x rfl hf
      rw [henter] at hf
      cases hf
  have hread : Meets Still (renameFileError (.unreadable record.source)
        (liftM (look (·.content record.source)) : Task PatchState Bytes))
      (fun content x => s.work.files.content record.source = .ok content ∧ Still x)
      fun f => Ends (.error f) := by
    refine (meets_renameFileError ?_).weaken (fun _ h => h) (fun _ _ h => h) hrefused
    refine meets_of_runOn ?_ ?_
    · intro x x' content hx hrun
      rw [PatchState.runOn_liftM, runOn_look, hx.files] at hrun
      obtain ⟨hcontent, rfl⟩ := Prod.mk.inj hrun
      exact ⟨hcontent, hx⟩
    · intro x x' f hx hrun
      rw [PatchState.runOn_liftM, runOn_look] at hrun
      obtain ⟨-, rfl⟩ := Prod.mk.inj hrun
      exact hx
  have happly : ∀ before, Meets Still (applyAll p patches before)
      (fun text x => Patch.applyAll? SourceText.ofString patches before = some text ∧ Still x)
      fun f => Ends (.error f) := by
    intro before
    refine meets_of_runOn ?_ ?_
    · intro x x' text hx hrun
      obtain ⟨hquiet, htext⟩ := runOn_applyAll p patches before x
      rw [hrun] at hquiet htext
      exact ⟨htext.symm, hx.trans hquiet⟩
    · intro x x' f hx hrun
      obtain ⟨hquiet, -⟩ := runOn_applyAll p patches before x
      rw [hrun] at hquiet
      exact hrefused f x' (hx.trans hquiet)
  have hwrite : ∀ content text, s.work.files.content record.source = .ok content →
      Patch.applyAll? SourceText.ofString patches (SourceText.ofBytes content) = some text →
      Meets Still (renameFileError (.unwritable record.source)
        (liftM (onFiles (replaceText record text)) : Task PatchState Unit))
      (fun _ x => Ends (.ok true) x) fun f => Ends (.error f) := by
    intro content text hcontent htext
    refine (meets_renameFileError ?_).weaken (fun _ h => h) (fun _ _ h => h)
      (fun f x (hx : ∀ f, Ends (.error f) x) => hx f)
    refine meets_of_runOn ?_ ?_
    · intro x x' u hx hrun
      rw [PatchState.runOn_liftM, runOn_onFiles, hx.files] at hrun
      obtain ⟨hok, rfl⟩ := Prod.mk.inj hrun
      exact ⟨.changed hcontent htext (Prod.ext hok rfl), hx.invocations, hx.outline⟩
    · intro x x' e hx hrun f
      rw [PatchState.runOn_liftM, runOn_onFiles, hx.files] at hrun
      obtain ⟨herror, rfl⟩ := Prod.mk.inj hrun
      exact ⟨.unwritten f hcontent htext (Prod.ext herror rfl), hx.invocations, hx.outline⟩
  have hmeets : Meets (fun x => x = s) (patchFile p patches) (fun b => Ends (.ok b))
      fun f => Ends (.error f) := by
    unfold patchFile
    refine henter'.bind ?_
    rintro ⟨record', ledger'⟩
    refine Meets.assuming fun heq => ?_
    obtain ⟨rfl, rfl⟩ := Prod.mk.inj heq
    have hupdate : Meets (fun x => x = s)
        (Task.update fun x : PatchState => { x with ledger := ledger' }) (fun _ => Still)
        fun f => Ends (.error f) := by
      refine Meets.update ?_
      rintro x rfl
      exact .refl _
    refine hupdate.bind fun _ => hread.bind fun content => Meets.assuming fun hcontent => ?_
    refine (happly _).bind fun text => Meets.assuming fun htext => ?_
    split
    · next heq =>
      subst heq
      refine Meets.pure fun x hx => ⟨?_, hx.invocations, hx.outline⟩
      rw [hx.files]
      exact .unchanged hcontent htext
    · have hinfo : ∀ message, Meets (Ends (.ok true))
          (liftM (info message) : Task PatchState Unit) (fun _ => Ends (.ok true))
          fun f => Ends (.error f) := fun message x hx => hx
      refine (hwrite content text hcontent htext).bind fun _ => (hinfo _).bind fun _ => ?_
      exact Meets.pure fun _ hx => hx
  have := hmeets s rfl
  rcases hrun : (patchFile p patches).runOn s with ⟨r, s'⟩
  rw [hrun] at this
  cases r <;> exact this

/-- A file whose patches are all applied is found so, and its markers stay as they are. -/
theorem patchFile_of_idle {s : PatchState} {content : Bytes}
    (henter : enter s.ledger p = .ok (record, ledger))
    (hcontent : s.work.files.content record.source = .ok content)
    (hidle : ∀ patch ∈ patches, patch.Idle SourceText.ofString (SourceText.ofBytes content)) :
    ((patchFile p patches).runOn s).1 = .ok false ∧
      ((patchFile p patches).runOn s).2.ledger = ledger := by
  unfold patchFile
  rw [runOn_bind, runOn_ask, henter]
  simp only [runOn_bind, runOn_update, renameFileError, runOn_attempt, PatchState.runOn_liftM,
    runOn_look, hcontent, runOn_pure]
  obtain ⟨hresult, hledger⟩ := runOn_applyAll_of_idle p ⟨s.work, ledger⟩ hidle
  rcases happly : (applyAll p patches (SourceText.ofBytes content)).runOn ⟨s.work, ledger⟩ with
    ⟨r, s'⟩
  rw [happly] at hresult hledger
  dsimp only at hresult hledger
  subst hresult
  dsimp only
  rw [if_pos rfl]
  exact ⟨rfl, hledger⟩

end Ledger

end CrossBuild
