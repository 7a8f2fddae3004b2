import CrossBuild.Proofs.FileSystem.Faults
import CrossBuild.Proofs.Run.Engine
import CrossBuild.Proofs.Run.Receipt

/-!
# Failures of the setup

What a stage of the setup fails with is noted in the receipt if it is an error of the setup, of the
patching or of the file system. Other failures end the run without a receipt, and so does a name
that is too long for a look at the files after the targets.
-/

namespace CrossBuild

open Workspace FileSystem CrossBuild.Task

variable {α : Type} {t : Toolchain} {c : Config} {tools : Tools}

/-- A failure that can end a run without a receipt. -/
def Failure.Escapes : Failure → Prop
  | .undecodable _ | .crash _ | .nulInPath | .file (.fault .nameTooLong _) => True
  | _ => False

/-- A failure that can end a stage of the setup. -/
def Failure.StopsSetup (f : Failure) : Prop :=
  Build.isRecorded f = true ∨ f.Escapes

theorem Failure.IsSystem.stopsSetup {f : Failure} (h : f.IsSystem) : f.StopsSetup := by
  rcases h with ⟨e, rfl⟩ | rfl
  · exact .inl rfl
  · exact .inr trivial

/-! ## Kinds of failure in a run -/

section
variable {K : Failure → Prop}

theorem failsAs_report (level : LogLevel) (message : String) : FailsAs K (report level message) :=
  fun _ _ => trivial

theorem failsAs_look {q : FileSystem → Except Failure α} (h : ∀ fs f, q fs = .error f → K f) :
    FailsAs K (look q) :=
  failsAs_ask fun w f hf => h w.files f hf

theorem failsAs_onFiles {task : Task FileSystem α} (h : FailsAs K task) : FailsAs K (onFiles task) :=
  FailsAs.onPart h

theorem PatchState.failsAs_onWork {task : Task Workspace α} (h : FailsAs K task) :
    FailsAs K (PatchState.onWork task) :=
  FailsAs.onPart h

theorem BuildState.failsAs_onPatching {task : Task PatchState α} (h : FailsAs K task) :
    FailsAs K (BuildState.onPatching task) :=
  FailsAs.onPart h

theorem BuildState.failsAs_onWork {task : Task Workspace α} (h : FailsAs K task) :
    FailsAs K (BuildState.onWork task) :=
  BuildState.failsAs_onPatching (PatchState.failsAs_onWork h)

/-- A question whether something is there. -/
theorem failsAs_test (follow : Bool) (property : Node → Bool) (p : Path)
    (h : K (faultAt .nameTooLong p)) : FailsAs K (look (·.test follow property p)) :=
  failsAs_look fun _ _ hf => test_error hf ▸ h

end

namespace Ledger

theorem failsAs_renameFileError {σ : Type} {task : Task σ α} (rename : FileError → PatchFault)
    (h : FailsAs Failure.IsSystem task) :
    FailsAs Failure.StopsSetup (renameFileError rename task) := by
  unfold renameFileError
  refine h.attempt_bind (fun a => failsAs_pure a) fun f hf => ?_
  cases f <;> first | exact failsAs_throw (.inl rfl) | exact failsAs_throw hf.stopsSetup

theorem failsAs_replaceText (record : PatchRecord) (text : SourceText) :
    FailsAs Failure.IsSystem (replaceText record text) := by
  have hwrite := failsAs_write record.source text.toBytes
  unfold replaceText
  refine FailsAs.bind (failsAs_ask fun fs f hf => test_error hf ▸ isSystem_faultAt _ _) fun _ => ?_
  exact FailsAs.ite ((failsAs_copyFile _ _).bind fun _ => hwrite) hwrite

theorem failsAs_applyAll (p : Path) (patches : List Patch) (text : SourceText) :
    FailsAs Failure.StopsSetup (applyAll p patches text) := by
  induction patches generalizing text with
  | nil => exact failsAs_pure text
  | cons patch rest ih =>
    rw [applyAll]
    cases patch.apply SourceText.ofString text with
    | present => exact ih text
    | done changed =>
      refine FailsAs.ite (FailsAs.bind (failsAs_update _) fun _ => ih changed) (ih changed)
    | skipped => exact FailsAs.bind (PatchState.failsAs_onWork (failsAs_report _ _)) fun _ => ih text
    | anchorMissing => exact failsAs_throw (.inl rfl)

/-- Files with a name beside which they can be backed up. -/
theorem failsAs_patchFile {p backup : Path} (hbackup : backupOf p = .ok backup)
    (patches : List Patch) : FailsAs Failure.StopsSetup (patchFile p patches) := by
  unfold patchFile
  refine FailsAs.bind (failsAs_ask fun s f hf => ?_) fun (record, ledger) => ?_
  · have hfresh : freshRecord p = .ok ⟨p, backup, []⟩ := by
      unfold freshRecord
      rw [hbackup]
      rfl
    unfold enter at hf
    rw [hfresh] at hf
    split at hf <;> cases hf
  refine (failsAs_update _).bind fun _ => ?_
  have hcontent : FailsAs Failure.IsSystem (look (·.content record.source)) :=
    failsAs_look fun _ _ hf => content_error hf
  refine (failsAs_renameFileError _ (PatchState.failsAs_onWork hcontent)).bind fun content => ?_
  refine (failsAs_applyAll p patches _).bind fun text => FailsAs.ite (failsAs_pure _) ?_
  have hreplace := failsAs_onFiles (failsAs_replaceText record text)
  refine (failsAs_renameFileError _ (PatchState.failsAs_onWork hreplace)).bind fun _ => ?_
  exact FailsAs.bind (PatchState.failsAs_onWork (failsAs_report _ _)) fun _ => failsAs_pure _

theorem failsAs_patchEngine (c : Config) (modules : List String) (starter : Option String)
    (files : List EngineFile) :
    FailsAs Failure.StopsSetup (patchEngine c.engineFile modules starter files) := by
  induction files with
  | nil => exact failsAs_pure _
  | cons f rest ih =>
    rw [patchEngine]
    refine FailsAs.ite ih ?_
    refine (failsAs_patchFile (c.backupOf_engineFile f) _).bind fun changed => ?_
    exact ih.bind fun _ => failsAs_pure _

/-- A file that cannot be restored is reported, unless its backup cannot even be looked for. -/
theorem failsAs_restoreEach (entries : Ledger) : FailsAs Failure.Escapes (restoreEach entries) := by
  induction entries with
  | nil => exact failsAs_pure _
  | cons entry rest ih =>
    obtain ⟨key, record⟩ := entry
    rw [restoreEach]
    refine FailsAs.bind (PatchState.failsAs_onWork (failsAs_test true _ record.backup trivial)) fun present => ?_
    refine FailsAs.ite ih ?_
    have hrestore : FailsAs Failure.IsSystem (restoreFile record) :=
      (failsAs_copyFile _ _).bind fun _ => failsAs_unlink _
    refine FailsAs.attempt_bind (PatchState.failsAs_onWork (failsAs_onFiles hrestore)) (fun _ => ?_) fun f hf => ?_
    · refine FailsAs.bind (failsAs_update _) fun _ => ?_
      exact FailsAs.bind (PatchState.failsAs_onWork (failsAs_report _ _)) fun _ => ih.bind fun _ => failsAs_pure _
    · rcases hf with ⟨e, rfl⟩ | rfl
      · exact FailsAs.bind (PatchState.failsAs_onWork (failsAs_report _ _)) fun _ => ih
      · exact failsAs_throw trivial

end Ledger

namespace Build

open BuildState

theorem failsAs_clean (c : Config) : FailsAs Failure.IsSystem (clean c) := by
  have hmake : ∀ p, FailsAs Failure.IsSystem (onFiles (makeDirectories p)) := fun p =>
    failsAs_onFiles (failsAs_makeDirectories p)
  have hrest : FailsAs Failure.IsSystem (do
      onFiles (makeDirectories c.buildDirectory)
      onFiles (makeDirectories c.toolsDirectory)
      onFiles (makeDirectories c.distDirectory)
      onFiles (writeText (TargetBuild.stub c) consoleStub)) :=
    (hmake _).bind fun _ => (hmake _).bind fun _ => (hmake _).bind fun _ =>
      failsAs_onFiles (failsAs_write _ _)
  unfold clean
  refine FailsAs.bind (failsAs_report _ _) fun _ => ?_
  refine (failsAs_test true _ _ (isSystem_faultAt _ _)).bind fun present => ?_
  exact FailsAs.ite ((failsAs_onFiles (failsAs_removeTree _)).bind fun _ => hrest) hrest

theorem failsAs_starterText (c : Config) : FailsAs Failure.StopsSetup (starterText c) := by
  have hnone : ∀ message, FailsAs Failure.StopsSetup (do info message; return none : Task _ (Option String)) :=
    fun _ => FailsAs.bind (failsAs_report _ _) fun _ => failsAs_pure none
  unfold starterText
  rcases c.starter with _ | p
  · refine FailsAs.bind (failsAs_pure false) fun present => ?_
    cases present <;> exact hnone _
  · refine (failsAs_test true _ p (isSystem_faultAt _ _).stopsSetup).bind fun present => ?_
    cases present with
    | false => exact hnone _
    | true =>
      refine FailsAs.bind (failsAs_look fun fs f hf => ?_) fun text => failsAs_pure (some text)
      rcases text_error hf with hsystem | ⟨u, rfl⟩
      · exact hsystem.stopsSetup
      · exact .inr trivial

theorem failsAs_patch (c : Config) : FailsAs Failure.StopsSetup (patch c) := by
  have htest : ∀ follow property p, FailsAs Failure.StopsSetup (look (·.test follow property p)) :=
    fun follow property p => failsAs_test follow property p (isSystem_faultAt _ _).stopsSetup
  have hengine : FailsAs Failure.StopsSetup (do
      let starter ← PatchState.onWork (starterText c)
      let _ ← Ledger.patchEngine c.engineFile (c.modules.map (·.name)) starter EngineFile.all) :=
    (PatchState.failsAs_onWork (failsAs_starterText c)).bind fun starter =>
      (Ledger.failsAs_patchEngine c _ starter _).bind fun _ => failsAs_pure _
  have hmodules : FailsAs Failure.StopsSetup (do
      for m in c.modules do
        PatchState.onWork (checkModule m)
      let starter ← PatchState.onWork (starterText c)
      let _ ← Ledger.patchEngine c.engineFile (c.modules.map (·.name)) starter EngineFile.all) := by
    refine FailsAs.bind (failsAs_forIn fun m _ _ => ?_) fun _ => hengine
    refine FailsAs.bind (PatchState.failsAs_onWork ?_) fun _ => failsAs_pure _
    refine (htest true _ m.source).bind fun isFile => ?_
    exact FailsAs.ite (failsAs_throw (.inl rfl)) (failsAs_pure _)
  unfold patch
  refine FailsAs.bind (PatchState.failsAs_onWork (failsAs_report _ _)) fun _ => ?_
  refine FailsAs.bind (PatchState.failsAs_onWork (htest true _ c.compiler)) fun isPresent => ?_
  refine FailsAs.ite (FailsAs.bind (failsAs_throw (.inl rfl)) fun _ => ?_) ?_
  all_goals refine FailsAs.bind (PatchState.failsAs_onWork (htest true _ c.engine)) fun isDirectory => ?_
  all_goals exact FailsAs.ite (FailsAs.bind (failsAs_throw (.inl rfl)) fun _ => hmodules) hmodules

/-- Only a runner that breaks down keeps a tool from having a phase. -/
theorem failsAs_run (name : String) (arguments : List String) :
    FailsAs Failure.StopsSetup (t.run name arguments) := by
  unfold Toolchain.run Toolchain.runIn
  refine FailsAs.bind (fun _ _ => trivial) fun exit => failsAs_ofExcept fun f hf => ?_
  cases exit <;> cases hf
  exact .inr trivial

theorem failsAs_prepareHost (t : Toolchain) : FailsAs Failure.StopsSetup (prepareHost t) := by
  have hinfo : ∀ message, FailsAs Failure.StopsSetup (onWork (info message)) :=
    fun message => failsAs_onWork (failsAs_report _ message)
  unfold prepareHost
  dsimp only
  rcases t.config.hostPrecompiler with _ | p
  · refine (hinfo _).bind fun _ => FailsAs.bind (failsAs_onWork ?_) fun phases => ?_
    · unfold Toolchain.buildHelpers
      refine (failsAs_run _ _).bind fun interpreter => FailsAs.ite ?_ (failsAs_pure _)
      exact (failsAs_run _ _).bind fun precompiler => failsAs_pure _
    · split
      · exact failsAs_throw (.inl rfl)
      · exact failsAs_update _
  · refine (failsAs_onWork (failsAs_test true _ p
      (isSystem_faultAt .nameTooLong p).stopsSetup)).bind fun isFile => ?_
    have hrest : FailsAs Failure.StopsSetup (do
        Task.update fun s : BuildState => { s with host := { s.host with precompiler := some p } }
        onWork (info s!"Using host pre-compiler {p}")) :=
      FailsAs.bind (failsAs_update _) fun _ => hinfo _
    exact FailsAs.ite (FailsAs.bind (failsAs_throw (.inl rfl)) fun _ => hrest) hrest

/-- **A stage** notes the failure of its task, if it is not one that escapes. -/
theorem failsAs_stage (s : Stage) {task : Task BuildState Unit}
    (h : FailsAs Failure.StopsSetup task) : FailsAs Failure.Escapes (stage s task) := by
  unfold stage
  refine h.attempt_bind (fun _ => ?_) fun f hf => ?_
  · exact FailsAs.bind (failsAs_update _) fun _ => failsAs_pure _
  · dsimp only
    split
    · refine FailsAs.bind (failsAs_onWork (failsAs_report _ _)) fun _ => ?_
      exact FailsAs.bind (failsAs_update _) fun _ => failsAs_pure _
    · next hrecorded => exact failsAs_throw (hf.resolve_left hrecorded)

theorem stopsSetup_setup (t : Toolchain) : ∀ e ∈ setup t, FailsAs Failure.StopsSetup e.2 := by
  intro e he
  simp only [setup, List.mem_cons, List.not_mem_nil, or_false] at he
  obtain rfl | rfl | rfl := he
  · exact failsAs_onWork ((failsAs_clean t.config).weaken fun _ => Failure.IsSystem.stopsSetup)
  · exact failsAs_onPatching (failsAs_patch t.config)
  · exact failsAs_prepareHost t

theorem failsAs_stages {l : List (Stage × Task BuildState Unit)}
    (hl : ∀ e ∈ l, FailsAs Failure.StopsSetup e.2) : FailsAs Failure.Escapes (stages l) := by
  induction l with
  | nil => exact failsAs_pure _
  | cons e l ih =>
    obtain ⟨s, task⟩ := e
    refine (failsAs_stage s (hl _ List.mem_cons_self)).bind fun ok => ?_
    exact FailsAs.ite (ih fun e he => hl e (List.mem_cons_of_mem _ he)) (failsAs_pure _)

theorem failsAs_forward (t : Toolchain) : FailsAs Failure.Escapes (forward t) := by
  rw [forward_eq]
  refine (failsAs_stages (stopsSetup_setup t)).bind fun ok => FailsAs.ite ?_ (failsAs_pure _)
  have htargets : FailsAs Failure.Escapes (buildTargets t) := by
    refine FailsAs.bind (failsAs_ask fun s f hf => by cases hf) fun host => failsAs_onWork ?_
    exact (TargetBuild.meets_buildAll host _).weaken (fun _ hs => hs) (fun _ _ _ => trivial)
      fun _ _ hf => hf.elim
  exact htargets.bind fun results => FailsAs.bind (failsAs_update _) fun _ => failsAs_update _

/-! ## The teardown -/

theorem failsAs_orWarn (p : Path) {task : Task FileSystem Unit} (message : Option String)
    (h : FailsAs Failure.IsSystem task) : FailsAs Failure.Escapes (orWarn p task message) := by
  unfold orWarn
  refine FailsAs.attempt_bind (failsAs_onFiles h) (fun _ => ?_) fun f hf => ?_
  · rcases message with _ | text
    · exact failsAs_pure _
    · exact failsAs_report _ _
  · rcases hf with ⟨e, rfl⟩ | rfl
    · exact failsAs_report _ _
    · exact failsAs_throw trivial

theorem failsAs_cleanup (c : Config) : FailsAs Failure.Escapes (cleanup c) := by
  have hstub : FailsAs Failure.Escapes
      (orWarn (TargetBuild.stub c) (unlinkIfPresent (TargetBuild.stub c)) none) :=
    failsAs_orWarn _ _ (failsAs_unlinkIfPresent _)
  unfold cleanup
  refine FailsAs.bind (failsAs_report _ _) fun _ => ?_
  refine Meets.bind (M := fun b w => b = true → w.files.isDirectory c.toolsDirectory = .ok true)
    (Meets.ask ?_ ?_) fun isDirectory => ?_
  · exact fun b w _ hb htrue => htrue ▸ hb
  · exact fun f w _ hf => test_error hf ▸ trivial
  cases isDirectory with
  | false => exact Meets.weaken hstub (fun _ _ => trivial) (fun _ _ hs => hs) fun _ _ hf => hf
  | true =>
    -- the directory has just been found, so it can be listed
    refine Meets.bind (M := fun _ _ => True) (Meets.ask (fun _ _ _ _ => trivial) ?_) fun names => ?_
    · intro f w hw hf
      obtain ⟨names, hnames⟩ := names_of_isDirectory (hw rfl)
      cases hnames.symm.trans hf
    · refine FailsAs.bind (failsAs_forIn fun name _ _ => ?_) fun _ => hstub
      exact (failsAs_orWarn _ _ (failsAs_unlink _)).bind fun _ => failsAs_pure _

theorem failsAs_teardown (c : Config) : FailsAs Failure.Escapes (teardown c) := by
  have hrestore : FailsAs Failure.Escapes restore := by
    unfold restore
    refine FailsAs.bind (failsAs_ask fun s f hf => by cases hf) fun markers => ?_
    refine FailsAs.bind (failsAs_update _) fun _ => ?_
    refine FailsAs.bind (failsAs_onPatching ?_) fun restored => failsAs_update _
    exact FailsAs.bind (failsAs_ask fun s f hf => by cases hf) fun entries =>
      Ledger.failsAs_restoreEach entries
  unfold teardown
  refine (failsAs_onWork (failsAs_cleanup c)).bind fun _ => FailsAs.bind (failsAs_update _) fun _ => ?_
  exact hrestore.bind fun _ => failsAs_update _

theorem failsAs_writeReceipt (c : Config) (r : Receipt) :
    FailsAs Failure.Escapes (writeReceipt c r) := by
  have hwrite : FailsAs Failure.IsSystem (r.write c.buildDirectory) := by
    unfold Receipt.write
    refine (failsAs_makeDirectories _).bind fun _ => ?_
    exact FailsAs.bind (failsAs_write _ _) fun _ => failsAs_pure _
  unfold writeReceipt
  refine FailsAs.attempt_bind (failsAs_onFiles hwrite) (fun _ => failsAs_report _ _) fun f hf => ?_
  rcases hf with ⟨e, rfl⟩ | rfl
  · exact failsAs_report _ _
  · exact failsAs_throw trivial

theorem failsAs_summary (c : Config) (r : Receipt) : FailsAs Failure.Escapes (summary c r) := by
  have hend : ∀ first second, FailsAs Failure.Escapes (do info first; info second) :=
    fun _ _ => FailsAs.bind (failsAs_report _ _) fun _ => failsAs_report _ _
  unfold summary
  exact FailsAs.ite (FailsAs.bind (failsAs_report _ _) fun _ => hend _ _) (hend _ _)

/-- **A run** without a receipt ends in a failure that escapes. -/
theorem failsAs_execute (t : Toolchain) (now : String) (write : Bool) :
    FailsAs Failure.Escapes (execute t now write) := by
  have hbuild : FailsAs Failure.Escapes (Task.thenAlways (forward t) (teardown t.config)) := by
    refine (failsAs_forward t).attempt_bind (fun _ => ?_) fun f hf => ?_
    · refine (failsAs_teardown t.config).bind fun _ => failsAs_ofExcept fun f hf => ?_
      cases hf
    · refine (failsAs_teardown t.config).bind fun _ => failsAs_ofExcept fun f' hf' => ?_
      exact Except.error.inj hf' ▸ hf
  unfold execute
  refine hbuild.bind fun _ => FailsAs.bind (failsAs_update _) fun _ => ?_
  refine FailsAs.bind (failsAs_ask fun s f hf => by cases hf) fun r => ?_
  refine (failsAs_onWork (failsAs_summary _ r)).bind fun _ => ?_
  exact FailsAs.ite ((failsAs_onWork (failsAs_writeReceipt _ r)).bind fun _ => failsAs_pure r)
    (failsAs_pure r)

/-! ## The failure of the setup -/

/-- The first of some stages that fails, and its failure. -/
def faultIn : List (Stage × Task BuildState Unit) → BuildState → Option (Stage × Failure)
  | [], _ => none
  | (s, task) :: rest, b =>
    match task.runOn b with
    | (.error f, _) => some (s, f)
    | (.ok (), _) => faultIn rest ((stage s task).runOn b).2

/-- The stage of the setup that a run cannot carry out, and its failure. -/
def fault? (t : Toolchain) (now : String) (w : Workspace) : Option (Stage × Failure) :=
  match start t.config now w with
  | .ok b => faultIn (setup t) b
  | .error _ => none

theorem mem_of_faultIn {l : List (Stage × Task BuildState Unit)} {s : Stage} {f : Failure} :
    ∀ b, faultIn l b = some (s, f) → s ∈ l.map (·.1) := by
  induction l with
  | nil => exact fun b h => by cases h
  | cons e l ih =>
    intro b h
    rw [faultIn] at h
    split at h
    · obtain ⟨rfl, -⟩ := Prod.mk.inj (Option.some.inj h)
      exact List.mem_cons_self
    · exact List.mem_cons_of_mem _ (ih _ h)

theorem runOn_stage_ok (s : Stage) {task : Task BuildState Unit} {b b' : BuildState}
    (h : task.runOn b = (.ok (), b')) : ((stage s task).runOn b).1 = .ok true := by
  unfold stage
  rw [runOn_bind, runOn_attempt, h]
  rfl

/-- A failure that is recorded is noted, and any other is handed on. -/
theorem runOn_stage_error (s : Stage) {task : Task BuildState Unit} {b b' : BuildState} {f : Failure}
    (h : task.runOn b = (.error f, b')) :
    (∃ b'', (stage s task).runOn b = (.ok false, b'') ∧ .stopped s f.message ∈ b''.receipt.stages) ∨
      (stage s task).runOn b = (.error f, b') := by
  unfold stage
  rw [runOn_bind, runOn_attempt, h]
  dsimp only
  split
  · exact .inl ⟨_, rfl, List.mem_append_right _ List.mem_cons_self⟩
  · exact .inr rfl

/-- The failure of a stage is noted, if the run goes on from it. -/
theorem meets_stages_fault {l : List (Stage × Task BuildState Unit)} {s : Stage} {f : Failure} :
    ∀ b₀, faultIn l b₀ = some (s, f) → Meets (fun b => b = b₀) (stages l)
      (fun ok b => ok = false ∧ .stopped s f.message ∈ b.receipt.stages) fun _ _ => True := by
  induction l with
  | nil => exact fun b₀ h => by cases h
  | cons e l ih =>
    obtain ⟨s', task⟩ := e
    intro b₀ h
    rw [faultIn] at h
    refine Meets.bind (M := fun ok b => (ok = true → faultIn l b = some (s, f)) ∧
      (ok = false → .stopped s f.message ∈ b.receipt.stages)) ?_ fun ok => ?_
    · refine meets_of_runOn ?_ fun _ _ _ _ _ => trivial
      rintro b₁ b ok rfl hrun
      rcases htask : task.runOn b₁ with ⟨f' | u, b'⟩ <;> rw [htask] at h
      · obtain ⟨rfl, rfl⟩ := Prod.mk.inj (Option.some.inj h)
        rcases runOn_stage_error s' htask with ⟨b'', hstage, hnote⟩ | hstage <;>
          cases hrun.symm.trans hstage
        exact ⟨fun hok => (by cases hok), fun _ => hnote⟩
      · have hok := runOn_stage_ok s' htask
        rw [hrun] at h hok
        obtain rfl := Except.ok.inj hok
        exact ⟨fun _ => h, fun hok => by cases hok⟩
    · cases ok with
      | false => exact Meets.pure fun b hb => ⟨rfl, hb.2 rfl⟩
      | true => exact fun b hb => ih b (hb.1 rfl) b rfl

/-- What is noted of the stages stays in the receipt. -/
theorem keeps_note_teardown (c : Config) (note : StageResult) :
    Keeps (fun b => note ∈ b.receipt.stages) (teardown c) := by
  have hpatching : ∀ {α : Type} (task : Task PatchState α),
      Keeps (fun b : BuildState => note ∈ b.receipt.stages) (onPatching task) := fun task b hb => hb
  have hdone : ∀ s, Keeps (fun b : BuildState => note ∈ b.receipt.stages) (done s) :=
    fun s b hb => List.mem_append_left _ hb
  unfold teardown restore
  refine (hpatching _).bind fun _ => (hdone _).bind fun _ => Keeps.bind ?_ fun _ => hdone _
  refine (keeps_ask _).bind fun markers => Keeps.bind (fun _ hb => hb) fun _ => ?_
  exact (hpatching _).bind fun restored => fun _ hb => hb

theorem meets_execute_fault {now : String} {write : Bool} {b₀ : BuildState} {s : Stage} {f : Failure}
    (h : faultIn (setup t) b₀ = some (s, f)) :
    Meets (fun b => b = b₀) (execute t now write)
      (fun r _ => .stopped s f.message ∈ r.stages) fun _ _ => True := by
  let note := StageResult.stopped s f.message
  have hforward : Meets (fun b => b = b₀) (forward t)
      (fun _ b => note ∈ b.receipt.stages) fun _ _ => True := by
    rw [forward_eq]
    refine Meets.bind (meets_stages_fault b₀ h) fun ok => Meets.assuming ?_
    rintro rfl
    exact Meets.pure fun b hb => hb
  have hrest : ∀ {α : Type} (task : Task BuildState α) (P : Prop),
      Meets (fun _ => P) task (fun _ _ => P) fun _ _ => True := fun task P =>
    Keeps.meets (I := fun _ => P) (fun _ hP => hP) fun _ _ _ => trivial
  unfold execute
  refine Meets.bind (M := fun _ (b : BuildState) => note ∈ b.receipt.stages) ?_
    fun _ => ?_
  · refine hforward.thenAlways (fun _ => ?_) fun _ => ?_
    · exact (keeps_note_teardown t.config _).meets fun _ _ _ => trivial
    · exact hrest _ True
  refine Meets.bind (M := fun _ (b : BuildState) => note ∈ b.receipt.stages)
    (fun _ hb => hb) fun _ => ?_
  refine Meets.bind (M := fun (r : Receipt) _ => note ∈ r.stages) (fun b hb => hb) fun r => ?_
  refine Meets.bind (hrest _ _) fun _ => ?_
  exact Meets.when (fun _ => hrest _ _) (fun _ _ hr => hr) (Meets.pure fun _ hr => hr)

end Build

namespace Config

/-- The small project with a process starter. -/
def started : Config := { small with starter := some ⟨.root, ["s"]⟩ }

/-- Its files, where the text of the process starter cannot be decoded. -/
def startedFiles : FileSystem := smallFiles.put ["s"] (.file [0xff] false)

end Config

end CrossBuild
