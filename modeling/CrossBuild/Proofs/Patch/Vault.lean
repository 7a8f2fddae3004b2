import CrossBuild.Proofs.FileSystem.Siblings
import CrossBuild.Proofs.Patch.Ledger

/-!
# The vault

For each file under patching there is something to be kept: the bytes of its backup if it has one,
and its own bytes otherwise. Patching a file and restoring files keep all of it, and after restoring
the files hold what was kept and no backup is left.
-/

namespace CrossBuild

open FileSystem Workspace CrossBuild.Task

/-- A file under patching: its path and that of its backup, where they lead, and the bytes that
restoring has to give, if any. -/
structure Deposit where
  source : Path
  backup : Path
  place : Location
  backupPlace : Location
  pristine : Option Bytes

namespace Deposit

variable {d : Deposit} {fs fs' : FileSystem}

/-- Both paths lead where they should, and no directory or link is there. -/
structure Placed (d : Deposit) (fs : FileSystem) : Prop where
  source : ∀ follow, fs.place follow d.source = .ok d.place
  backup : ∀ follow, fs.place follow d.backup = .ok d.backupPlace
  spot : fs.IsSpot d.place
  backupSpot : fs.IsSpot d.backupPlace

/-- The file has the pristine bytes, and there is none if there are none. -/
def Pristine (d : Deposit) (fs : FileSystem) : Prop :=
  match d.pristine with
  | some b => ∃ x, fs.node? d.place = some (.file b x)
  | none => fs.node? d.place = none

/-- The pristine bytes are in the backup, or there is no backup and they are in the file. -/
def Kept (d : Deposit) (fs : FileSystem) : Prop :=
  (∃ b x, d.pristine = some b ∧ fs.node? d.backupPlace = some (.file b x)) ∨
    (fs.node? d.backupPlace = none ∧ d.Pristine fs)

/-- The file is pristine and has no backup. -/
def Restored (d : Deposit) (fs : FileSystem) : Prop :=
  fs.node? d.backupPlace = none ∧ d.Pristine fs

theorem Restored.kept (h : d.Restored fs) : d.Kept fs := .inr h

/-- Whether a location is that of the file or of its backup. -/
def At (d : Deposit) (l : Location) : Prop :=
  l = d.place ∨ l = d.backupPlace

theorem Placed.refiled {places : Location → Prop} (h : d.Placed fs)
    (hr : Refiled places fs fs') : d.Placed fs' where
  source follow := hr.place (h.source follow)
  backup follow := hr.place (h.backup follow)
  spot := (hr.guides d.place).trans h.spot
  backupSpot := (hr.guides d.backupPlace).trans h.backupSpot

theorem Pristine.congr (h : d.Pristine fs) (hp : fs'.node? d.place = fs.node? d.place) :
    d.Pristine fs' := by
  unfold Pristine at h ⊢
  rw [hp]
  exact h

theorem Restored.congr (h : d.Restored fs) (hp : fs'.node? d.place = fs.node? d.place)
    (hb : fs'.node? d.backupPlace = fs.node? d.backupPlace) : d.Restored fs' :=
  ⟨hb.trans h.1, h.2.congr hp⟩

theorem Kept.congr (h : d.Kept fs) (hp : fs'.node? d.place = fs.node? d.place)
    (hb : fs'.node? d.backupPlace = fs.node? d.backupPlace) : d.Kept fs' := by
  rcases h with ⟨b, x, hpristine, hbackup⟩ | hrestored
  · exact .inl ⟨b, x, hpristine, hb.trans hbackup⟩
  · exact .inr (hrestored.imp hb.trans fun h => h.congr hp)

/-- Replacing a file's text keeps what was to be kept: the old bytes are copied first, unless there
is a backup. -/
theorem runOn_replaceText {r : PatchRecord} (hsource : r.source = d.source)
    (hbackup : r.backup = d.backup) (hne : d.place ≠ d.backupPlace) (hp : d.Placed fs)
    (hk : d.Kept fs) {b : Bytes} {x : Bool} (hfile : fs.node? d.place = some (.file b x))
    (text : SourceText) :
    ∃ fs', (Ledger.replaceText r text).runOn fs = (.ok (), fs') ∧ Refiled d.At fs fs' ∧
      d.Kept fs' ∧ ∃ x, fs'.node? d.place = some (.file text.toBytes x) := by
  -- once there is a backup with the pristine bytes, only the file changes
  have hlast : ∀ fs₁, Refiled d.At fs fs₁ →
      (∃ b x, d.pristine = some b ∧ fs₁.node? d.backupPlace = some (.file b x)) →
      ∃ fs', (FileSystem.write r.source text.toBytes).runOn fs₁ = (.ok (), fs') ∧
        Refiled d.At fs fs' ∧ d.Kept fs' ∧ ∃ x, fs'.node? d.place = some (.file text.toBytes x) := by
    intro fs₁ hr ⟨b, x, hpristine, hback⟩
    have hp₁ := hp.refiled hr
    obtain ⟨x', hwrite⟩ := runOn_write (hsource ▸ hp₁.source true) hp₁.spot text.toBytes
    have hr' := refiled_put hp₁.spot text.toBytes x'
    refine ⟨_, hwrite, hr.trans (hr'.mono fun l hl => .inl hl), ?_, x', ?_⟩
    · exact .inl ⟨b, x, hpristine, (hr'.others _ (Ne.symm hne)).trans hback⟩
    · rw [node?_put fs₁ hp₁.spot.ne_nil, if_pos rfl]
  unfold Ledger.replaceText
  rw [runOn_bind, runOn_ask, hbackup]
  rcases hk with ⟨b', x', hpristine, hback⟩ | ⟨hback, hpristine⟩
  · have hpresent : fs.isPresent d.backup = .ok true := test_of_node (hp.backup true) hback
    rw [hpresent]
    exact hlast fs (.refl fs) ⟨b', x', hpristine, hback⟩
  · have hpresent : fs.isPresent d.backup = .ok false := test_of_none (hp.backup true) hback
    rw [hpresent]
    dsimp only
    rw [if_pos (by simp), runOn_bind, hsource]
    obtain ⟨x₁, hcopy⟩ := runOn_copyFile (hp.source true) hfile (hp.backup true) hp.backupSpot hne
    rw [hcopy, ← hsource]
    have hput : (fs.put d.backupPlace (.file b x₁)).node? d.backupPlace = some (.file b x₁) := by
      rw [node?_put fs hp.backupSpot.ne_nil, if_pos rfl]
    refine hlast _ ((refiled_put hp.backupSpot b x₁).mono fun l hl => .inr hl) ⟨b, x₁, ?_, hput⟩
    unfold Pristine at hpristine
    rcases hd : d.pristine with _ | c <;> rw [hd] at hpristine
    · rw [hfile] at hpristine
      cases hpristine
    · obtain ⟨x₂, hc⟩ := hpristine
      rw [hfile] at hc
      cases hc
      rfl

/-- Restoring a file from its backup gives the pristine bytes and takes the backup away. -/
theorem runOn_restoreFile {r : PatchRecord} (hsource : r.source = d.source)
    (hbackup : r.backup = d.backup) (hne : d.place ≠ d.backupPlace) (hp : d.Placed fs)
    {b : Bytes} {x : Bool} (hpristine : d.pristine = some b)
    (hback : fs.node? d.backupPlace = some (.file b x)) :
    ∃ fs', (Ledger.restoreFile r).runOn fs = (.ok (), fs') ∧ Refiled d.At fs fs' ∧
      d.Restored fs' := by
  unfold Ledger.restoreFile
  rw [runOn_bind, hsource, hbackup]
  obtain ⟨x₁, hcopy⟩ := runOn_copyFile (hp.backup true) hback (hp.source true) hp.spot (Ne.symm hne)
  rw [hcopy]
  have hr := refiled_put hp.spot b x₁
  have hp₁ := hp.refiled hr
  have hback₁ : (fs.put d.place (.file b x₁)).node? d.backupPlace = some (.file b x) :=
    (hr.others _ (Ne.symm hne)).trans hback
  have hr' := refiled_remove hp₁.backupSpot
  refine ⟨_, runOn_unlink (hp₁.backup false) hback₁,
    (hr.mono fun l hl => .inl hl).trans (hr'.mono fun l hl => .inr hl), ?_, ?_⟩
  · rw [node?_remove _ _ hp₁.backupSpot.ne_nil, if_pos rfl]
  · unfold Pristine
    rw [hpristine]
    refine ⟨x₁, (hr'.others _ hne).trans ?_⟩
    rw [node?_put fs hp.spot.ne_nil, if_pos rfl]

end Deposit

/-! ## Several files -/

/-- Files under patching whose locations, and those of their backups, are all different. -/
def Separate (vault : List Deposit) : Prop :=
  ∀ d ∈ vault, d.place ≠ d.backupPlace ∧ ∀ d' ∈ vault, d' = d ∨ ∀ l, d.At l → ¬ d'.At l

/-- Everything that has to be kept is kept. -/
def Safe (vault : List Deposit) (fs : FileSystem) : Prop :=
  ∀ d ∈ vault, d.Placed fs ∧ d.Kept fs

/-- Whether a location is that of some file or backup. -/
def InVault (vault : List Deposit) (l : Location) : Prop :=
  ∃ d ∈ vault, d.At l

/-- Whether a file is in the vault, unless it and its backup are nowhere. -/
def Tracked (vault : List Deposit) (fs : FileSystem) (source backup : Path) : Prop :=
  (∃ d ∈ vault, source = d.source ∧ backup = d.backup) ∨ (fs.Lost source ∧ fs.Lost backup)

section
variable {vault : List Deposit} {fs fs' : FileSystem} {d : Deposit} {p : Path}

theorem Tracked.refiled {places : Location → Prop} {source backup : Path}
    (h : Tracked vault fs source backup) (hr : Refiled places fs fs') :
    Tracked vault fs' source backup :=
  h.imp id fun ⟨h, h'⟩ => ⟨h.refiled hr, h'.refiled hr⟩

theorem Deposit.At.inVault {l : Location} (hd : d ∈ vault) (h : d.At l) : InVault vault l :=
  ⟨d, hd, h⟩

/-- A change to one file and its backup that keeps what is kept there keeps everything. -/
theorem Safe.refiled (hsep : Separate vault) (h : Safe vault fs) (hd : d ∈ vault)
    (hr : Refiled d.At fs fs') (hkept : d.Kept fs') : Safe vault fs' := by
  intro d' hd'
  obtain ⟨hplaced, hkept'⟩ := h d' hd'
  refine ⟨hplaced.refiled hr, ?_⟩
  rcases (hsep d hd).2 d' hd' with rfl | hapart
  · exact hkept
  · exact hkept'.congr (hr.others _ fun hl => hapart _ hl (.inl rfl))
      (hr.others _ fun hl => hapart _ hl (.inr rfl))

/-- **Patching a file keeps everything**, however it ends. -/
theorem Safe.patched {record : PatchRecord} {patches : List Patch} {r : Except Failure Bool}
    (hsep : Separate vault) (h : Safe vault fs)
    (htracked : Tracked vault fs record.source record.backup)
    (hpatched : Ledger.Patched record patches fs r fs') :
    Safe vault fs' ∧ Refiled (InVault vault) fs fs' := by
  have hwritten : ∀ content text r' fs', fs.content record.source = .ok content →
      (Ledger.replaceText record text).runOn fs = (r', fs') →
      Safe vault fs' ∧ Refiled (InVault vault) fs fs' := by
    intro content text r' fs' hcontent hwrite
    obtain ⟨l, x, hplace, hfile⟩ := content_eq_ok_iff.1 hcontent
    rcases htracked with ⟨d, hd, hsource, hbackup⟩ | ⟨hlost, -⟩
    · obtain ⟨hplaced, hkept⟩ := h d hd
      rw [hsource, hplaced.source] at hplace
      obtain rfl := Except.ok.inj hplace
      obtain ⟨fs₁, hrun, hr, hkept₁, -⟩ :=
        Deposit.runOn_replaceText hsource hbackup (hsep d hd).1 hplaced hkept hfile text
      rw [hwrite] at hrun
      obtain ⟨-, rfl⟩ := Prod.mk.inj hrun
      exact ⟨h.refiled hsep hd hr hkept₁, hr.mono fun l hl => hl.inVault hd⟩
    · obtain ⟨f, hf, -⟩ := hlost true
      rw [hf] at hplace
      cases hplace
  cases hpatched with
  | refused f => exact ⟨h, .refl fs⟩
  | unchanged hcontent htext => exact ⟨h, .refl fs⟩
  | unwritten f hcontent htext hwrite => exact hwritten _ _ _ _ hcontent hwrite
  | changed hcontent htext hwrite => exact hwritten _ _ _ _ hcontent hwrite

end

namespace Ledger

theorem outline_clear (p : Path) (s : PatchState) :
    ((clear p).runOn s).2.ledger.outline = s.ledger.outline := by
  show (s.ledger.map _).map _ = s.ledger.map _
  rw [List.map_map]
  refine List.map_congr_left fun entry _ => ?_
  simp only [Function.comp_apply]
  split <;> rfl

/-- What restoring some files does: every one of them that is in the vault is pristine and without a
backup afterwards, and so is every one that was before. -/
structure Restores (vault : List Deposit) (entries : List (Path × PatchRecord))
    (s s' : PatchState) : Prop where
  invocations : s'.work.invocations = s.work.invocations
  outline : s'.ledger.outline = s.ledger.outline
  refiled : Refiled (InVault vault) s.work.files s'.work.files
  safe : Safe vault s'.work.files
  restored : ∀ d ∈ vault, (d.Restored s.work.files ∨
    ∃ e ∈ entries, e.2.source = d.source ∧ e.2.backup = d.backup) → d.Restored s'.work.files

theorem runOn_restoreEach_skip {key : Path} {record : PatchRecord} {s : PatchState}
    (entries : List (Path × PatchRecord)) (h : s.work.files.isPresent record.backup = .ok false) :
    (restoreEach ((key, record) :: entries)).runOn s = (restoreEach entries).runOn s := by
  rw [restoreEach, runOn_bind, PatchState.runOn_liftM, runOn_look, h]
  dsimp only
  rw [if_pos (by simp)]

theorem runOn_restoreEach_restored {record : PatchRecord} {s : PatchState} {fs' : FileSystem}
    (key : Path) (entries : List (Path × PatchRecord))
    (h : s.work.files.isPresent record.backup = .ok true)
    (hrestore : (restoreFile record).runOn s.work.files = (.ok (), fs')) :
    ∃ s₁ : PatchState, s₁.work.files = fs' ∧ s₁.work.invocations = s.work.invocations ∧
      s₁.ledger = ((clear key).runOn s).2.ledger ∧
      ∀ restored s', (restoreEach entries).runOn s₁ = (.ok restored, s') →
        (restoreEach ((key, record) :: entries)).runOn s = (.ok (record.source :: restored), s') := by
  let s₀ : PatchState := { s with work := { s.work with files := fs' } }
  let line : LogLine := ⟨.info, s!"Restored original: {record.source.name}"⟩
  let s₁ : PatchState :=
    { ((clear key).runOn s₀).2 with work := { s₀.work with log := s₀.work.log ++ [line] } }
  refine ⟨s₁, rfl, rfl, rfl, fun restored s' hrun => ?_⟩
  rw [restoreEach, runOn_bind, PatchState.runOn_liftM, runOn_look, h]
  dsimp only
  rw [if_neg (by simp), runOn_bind, runOn_attempt, PatchState.runOn_liftM, runOn_onFiles, hrestore]
  dsimp only
  rw [runOn_bind]
  show (liftM (info _) >>= _ : Task PatchState (List Path)).runOn ((clear key).runOn s₀).2 = _
  rw [runOn_bind]
  show (restoreEach entries >>= _ : Task PatchState (List Path)).runOn s₁ = _
  rw [runOn_bind, hrun]
  rfl

/-- **Restoring succeeds** and leaves every file of the list that is in the vault pristine and
without a backup. -/
theorem runOn_restoreEach {vault : List Deposit} (hsep : Separate vault)
    (entries : List (Path × PatchRecord)) :
    ∀ s : PatchState, Safe vault s.work.files →
      (∀ e ∈ entries, Tracked vault s.work.files e.2.source e.2.backup) →
      ∃ restored s', (restoreEach entries).runOn s = (.ok restored, s') ∧
        Restores vault entries s s' := by
  induction entries with
  | nil =>
    intro s hsafe _
    refine ⟨[], s, rfl, rfl, rfl, .refl _, hsafe, ?_⟩
    rintro d hd (h | ⟨e, he, -⟩)
    · exact h
    · cases he
  | cons entry entries ih =>
    intro s hsafe htracked
    obtain ⟨key, record⟩ := entry
    have hrest : ∀ e ∈ entries, Tracked vault s.work.files e.2.source e.2.backup :=
      fun e he => htracked e (by simp [he])
    -- a file without a backup is passed over
    have hskip : s.work.files.isPresent record.backup = .ok false →
        (∀ d ∈ vault, record.source = d.source → record.backup = d.backup →
          d.Restored s.work.files) →
        ∃ restored s', (restoreEach ((key, record) :: entries)).runOn s = (.ok restored, s') ∧
          Restores vault ((key, record) :: entries) s s' := by
      intro hpresent hdone
      obtain ⟨restored, s', hrun, hres⟩ := ih s hsafe hrest
      refine ⟨restored, s', (runOn_restoreEach_skip entries hpresent).trans hrun,
        hres.invocations, hres.outline, hres.refiled, hres.safe, ?_⟩
      rintro d hd (h | ⟨e, he, hsource, hbackup⟩)
      · exact hres.restored d hd (.inl h)
      · rcases List.mem_cons.1 he with rfl | he
        · exact hres.restored d hd (.inl (hdone d hd hsource hbackup))
        · exact hres.restored d hd (.inr ⟨e, he, hsource, hbackup⟩)
    rcases htracked (key, record) (by simp) with ⟨d, hd, hsource, hbackup⟩ | ⟨hlost, hlost'⟩
    · dsimp only at hsource hbackup
      obtain ⟨hplaced, hkept⟩ := hsafe d hd
      have hbackupPlace := hplaced.backup true
      rw [← hbackup] at hbackupPlace
      rcases hkept with ⟨b, x, hpristine, hback⟩ | ⟨hback, -⟩
      · obtain ⟨fs', hrestore, hr, hdone⟩ := Deposit.runOn_restoreFile hsource hbackup
          (hsep d hd).1 hplaced hpristine hback
        obtain ⟨s₁, hfiles, hinv, hledger, hnext⟩ := runOn_restoreEach_restored key entries
          (test_of_node hbackupPlace hback) hrestore
        have hout : s₁.ledger.outline = s.ledger.outline :=
          (congrArg outline hledger).trans (outline_clear key s)
        rw [← hfiles] at hr hdone
        have hsafe₁ := hsafe.refiled hsep hd hr hdone.kept
        obtain ⟨restored, s', hrun, hres⟩ :=
          ih s₁ hsafe₁ fun e he => (hrest e he).refiled hr
        refine ⟨_, s', hnext restored s' hrun, hres.invocations.trans hinv,
          hres.outline.trans hout, (hr.mono fun l hl => hl.inVault hd).trans hres.refiled,
          hres.safe, ?_⟩
        rintro d' hd' h
        -- the file of this record is restored now, and no other is touched
        rcases (hsep d hd).2 d' hd' with rfl | hapart
        · exact hres.restored d' hd' (.inl hdone)
        · rcases h with h | ⟨e, he, hsource', hbackup'⟩
          · refine hres.restored d' hd' (.inl (h.congr ?_ ?_))
            · exact hr.others _ fun hl => hapart _ hl (.inl rfl)
            · exact hr.others _ fun hl => hapart _ hl (.inr rfl)
          · rcases List.mem_cons.1 he with rfl | he
            · have hsame := (hsafe d' hd').1.source true
              rw [← hsource', hsource, hplaced.source] at hsame
              exact absurd (.inl (Except.ok.inj hsame)) (hapart _ (.inl rfl))
            · exact hres.restored d' hd' (.inr ⟨e, he, hsource', hbackup'⟩)
      · refine hskip (test_of_none hbackupPlace hback) fun d' hd' hsource' hbackup' => ?_
        obtain ⟨hplaced', hkept'⟩ := hsafe d' hd'
        have hsame := hplaced'.backup true
        rw [← hbackup', hbackupPlace] at hsame
        rcases hkept' with ⟨b, x, -, hback'⟩ | hrestored
        · rw [← Except.ok.inj hsame, hback] at hback'
          cases hback'
        · exact hrestored
    · obtain ⟨f, hf, habsent⟩ := hlost' true
      refine hskip (test_of_absent hf habsent) fun d hd _ hbackup => ?_
      have hplace := (hsafe d hd).1.backup true
      rw [← hbackup, hf] at hplace
      cases hplace

end Ledger

end CrossBuild
