import CrossBuild.Proofs.Run.Engine
import CrossBuild.Proofs.Run.Stable

/-!
# From stage to stage

What holds before a run's stages holds of its end if each stage hands on what the next one needs.
A stage that fails ends the run, so that of all failures only what they have in common is known.
-/

namespace CrossBuild.Ledger

open FileSystem Workspace CrossBuild.Task

/-! ## Tasks on several files -/

/-- Patching the engine does what patching each of its files does. -/
theorem meets_patchEngine_of {place : EngineFile → Path} {modules : List String}
    {starter : Option String} {J : PatchState → Prop} {failed : Failure → PatchState → Prop}
    (hfile : ∀ f, Meets J (patchFile (place f) (Patch.plan modules starter f)) (fun _ => J) failed)
    (files : List EngineFile) :
    Meets J (patchEngine place modules starter files) (fun _ => J) failed := by
  induction files with
  | nil => exact Meets.pure fun _ hs => hs
  | cons f files ih =>
    rw [patchEngine]
    split
    · exact ih
    · refine Meets.bind (hfile f) fun changed => Meets.bind ih fun rest => ?_
      exact Meets.pure fun _ hs => hs

/-- Patching a file keeps what writing it and writing its backup do. -/
theorem keeps_patchFile_of {J : FileSystem → Prop} {paths : List Path} {p q : Path} (hp : p ∈ paths)
    (hq : backupOf p = .ok q) (hsource : ∀ b, Keeps J (write p b))
    (hbackup : ∀ b, Keeps J (write q b)) (patches : List Patch) :
    Keeps (PatchState.Of (fun fs _ => J fs) fun ledger => ledger.Covers paths)
      (patchFile p patches) := by
  rintro s ⟨hfs, hcovers⟩
  rcases henter : enter s.ledger p with e | ⟨record, ledger⟩
  · have hrefused : (patchFile p patches).runOn s = (.error e, s) := by
      unfold patchFile
      rw [runOn_bind, runOn_ask, henter]
    rw [hrefused]
    exact ⟨hfs, hcovers⟩
  obtain ⟨-, rfl, hrecord⟩ := hcovers.sound.enter henter
  obtain rfl := Except.ok.inj (hq.symm.trans hrecord)
  have hreplace : ∀ text, Keeps J (replaceText record text) := fun text =>
    (keeps_ask _).bind fun _ => Keeps.when (keeps_copyFile_of hbackup) (hsource _)
  have hkept : ∀ {r fs'}, Patched record patches s.work.files r fs' → J fs' := by
    intro r fs' hends
    cases hends with
    | refused => exact hfs
    | unchanged => exact hfs
    | @unwritten _ text _ _ _ _ _ hwrite =>
      have := hreplace text s.work.files hfs
      rwa [hwrite] at this
    | @changed _ text _ _ _ hwrite =>
      have := hreplace text s.work.files hfs
      rwa [hwrite] at this
  obtain ⟨hends, -, houtline⟩ := patchFile_ends patches henter
  exact ⟨hkept hends, (hcovers.enter hp henter).of_outline houtline⟩

/-- Restoring files keeps what restoring each of them does. -/
theorem keeps_restoreEach {I : Workspace → Prop} {entries : List (Path × PatchRecord)}
    (hreport : ∀ level message, Keeps I (report level message))
    (hrestore : ∀ e ∈ entries, Keeps I (onFiles (restoreFile e.2))) :
    Keeps (fun s : PatchState => I s.work) (restoreEach entries) := by
  induction entries with
  | nil => exact keeps_pure _
  | cons e rest ih =>
    obtain ⟨key, record⟩ := e
    have hrest := ih fun e he => hrestore e (List.mem_cons_of_mem _ he)
    have hfirst := hrestore (key, record) List.mem_cons_self
    rw [restoreEach]
    refine Keeps.bind (fun s hs => hs) fun isPresent => Keeps.ite hrest ?_
    refine Keeps.bind (Keeps.attempt fun s hs => hfirst s.work hs) fun r => ?_
    rcases r with f | u
    · cases f
      case file e => exact Keeps.bind (fun s hs => hreport _ _ s.work hs) fun _ => hrest
      all_goals exact keeps_throw _
    · refine Keeps.bind (fun s hs => hs) fun _ => ?_
      refine Keeps.bind (fun s hs => hreport _ _ s.work hs) fun _ => ?_
      exact hrest.bind fun _ => keeps_pure _

end CrossBuild.Ledger

namespace CrossBuild.Build

open FileSystem Workspace CrossBuild.Task

variable {c : Config} {t : Toolchain} {I : Workspace → Prop} {before after ended : PatchState → Prop}

/-! ## Tasks of a run -/

section
variable (hreport : ∀ level message, Keeps I (report level message))
include hreport

theorem keeps_clean_of (hremove : Keeps I (liftM (removeTree c.buildDirectory)))
    (hmake : ∀ p ∈ [c.buildDirectory, c.toolsDirectory, c.distDirectory],
      Keeps I (liftM (makeDirectories p)))
    (hwrite : Keeps I (liftM (writeText (TargetBuild.stub c) consoleStub))) :
    Keeps I (clean c) := by
  unfold clean
  refine (hreport _ _).bind fun _ => (keeps_look _).bind fun isPresent => Keeps.when hremove ?_
  refine (hmake _ (by simp)).bind fun _ => (hmake _ (by simp)).bind fun _ => ?_
  exact (hmake _ (by simp)).bind fun _ => hwrite

/-- What a removal brings about, whether or not it succeeds, is there when that has been reported. -/
theorem meets_orWarn {before : Workspace → Prop} {p : Path} {task : Task FileSystem Unit}
    {message : Option String} (htask : Meets before (onFiles task) (fun _ => I) fun _ => I) :
    Meets before (orWarn p task message) (fun _ => I) fun _ => I := by
  have hattempt : Meets before (Task.attempt (onFiles task)) (fun _ => I) fun _ => I :=
    Meets.attempt htask
  unfold orWarn
  refine hattempt.bind fun r => keeps_iff.1 ?_
  rcases r with f | u
  · cases f <;> first | exact hreport _ _ | exact keeps_throw _
  · rcases message with _ | text
    · exact keeps_pure _
    · exact hreport _ _

theorem keeps_orWarn {p : Path} {task : Task FileSystem Unit} {message : Option String}
    (htask : Keeps I (onFiles task)) : Keeps I (orWarn p task message) :=
  keeps_iff.2 (meets_orWarn hreport (keeps_iff.1 htask))

theorem keeps_cleanup_of {P : String → Prop}
    (hfound : ∀ w found, I w → w.files.names c.toolsDirectory = .ok found →
      ∀ name ∈ found, isTemporary name = true → P name)
    (hremove : ∀ name, P name →
      Keeps I (onFiles (unlink ⟨c.toolsDirectory.anchor, c.toolsDirectory.parts ++ [name]⟩)))
    (hstub : Keeps I (onFiles (unlinkIfPresent (TargetBuild.stub c)))) : Keeps I (cleanup c) := by
  have hlast := keeps_iff.1 (@keeps_orWarn I hreport (TargetBuild.stub c) _ none hstub)
  have hnames : Meets I (look (·.names c.toolsDirectory))
      (fun found w => (∀ name ∈ found, isTemporary name = true → P name) ∧ I w) fun _ => I :=
    Meets.ask (fun found w hw h => ⟨hfound w found hw h, hw⟩) fun _ _ hw _ => hw
  unfold cleanup
  refine (hreport _ _).bind fun _ => (keeps_look _).bind fun isDirectory =>
    Keeps.ite (keeps_iff.2 ?_) (keeps_iff.2 hlast)
  refine Meets.bind hnames fun found => Meets.assuming fun hall => keeps_iff.1 ?_
  refine Keeps.bind ?_ fun _ => keeps_iff.2 hlast
  refine keeps_forIn fun name hname _ => Keeps.bind ?_ fun _ => keeps_pure _
  obtain ⟨hmem, htemporary⟩ := List.mem_filter.1 hname
  exact keeps_orWarn hreport (hremove name (hall name hmem htemporary))

theorem keeps_summary (r : Receipt) : Keeps I (summary c r) := by
  unfold summary
  refine Keeps.when (hreport _ _) ?_
  exact (hreport _ _).bind fun _ => hreport _ _

theorem keeps_writeReceipt_of {r : Receipt} (hwrite : Keeps I (onFiles (r.write c.buildDirectory))) :
    Keeps I (writeReceipt c r) := by
  unfold writeReceipt
  refine hwrite.attempt.bind fun outcome => ?_
  rcases outcome with f | p
  · cases f <;> first | exact hreport _ _ | exact keeps_throw _
  · exact hreport _ _

end

/-- The text of the process starter as some files hold it; none without a file. -/
def starterIn (c : Config) (fs : FileSystem) : Except Failure (Option String) :=
  match c.starter with
  | none => .ok none
  | some p => do if ← fs.isFile p then return some (← fs.text p) else return none

theorem runOn_starterText (c : Config) (w : Workspace) :
    ((starterText c).runOn w).1 = starterIn c w.files ∧
      ((starterText c).runOn w).2.files = w.files := by
  unfold starterText starterIn
  rcases c.starter with _ | p
  · exact ⟨rfl, rfl⟩
  · simp only [runOn_bind, runOn_look]
    rcases w.files.isFile p with f | present
    · exact ⟨rfl, rfl⟩
    · cases present with
      | false => exact ⟨rfl, rfl⟩
      | true =>
        simp only [runOn_bind, runOn_look]
        rcases w.files.text p with f | text <;> exact ⟨rfl, rfl⟩

/-- Before it changes a file, patching reports and looks. Then it knows the process starter. -/
theorem meets_patch_found {post : Unit → PatchState → Prop} {failed : Failure → PatchState → Prop}
    (hreport : ∀ level message, Keeps before (PatchState.onWork (report level message)))
    (hfailed : ∀ f s, before s → failed f s)
    (hengine : ∀ starter, Meets (fun s => before s ∧ starterIn c s.work.files = .ok starter)
      (Ledger.patchEngine c.engineFile (c.modules.map (·.name)) starter EngineFile.all)
      (fun _ => post ()) failed) : Meets before (patch c) post failed := by
  have hlook : ∀ {α : Type} (f : FileSystem → Except Failure α),
      Keeps before (PatchState.onWork (look f)) := fun f s hs => hs
  have hmodule : ∀ m, Keeps before (PatchState.onWork (checkModule m)) := by
    intro m s hs
    have hkeeps : Keeps (fun w => before { s with work := w }) (checkModule m) :=
      (keeps_look _).bind fun isFile => Keeps.ite (keeps_throw _) (keeps_pure _)
    exact hkeeps s.work hs
  have hkeeps : Keeps before (PatchState.onWork (starterText c)) := by
    intro s hs
    have hinfo : ∀ message, Keeps (fun w => before { s with work := w }) (info message) :=
      fun message w hw => hreport .info message { s with work := w } hw
    have hkeeps : Keeps (fun w => before { s with work := w }) (starterText c) := by
      unfold starterText
      rcases c.starter with _ | p
      · refine (keeps_pure false).bind fun present => ?_
        cases present <;> exact (hinfo _).bind fun _ => keeps_pure none
      · refine (keeps_look _).bind fun present => ?_
        cases present with
        | false => exact (hinfo _).bind fun _ => keeps_pure none
        | true => exact (keeps_look _).bind fun text => keeps_pure (some text)
    exact hkeeps s.work hs
  have hstarter : Meets before (PatchState.onWork (starterText c))
      (fun starter s => before s ∧ starterIn c s.work.files = .ok starter) failed := by
    refine meets_of_runOn ?_ ?_
    · intro s s' starter hs hrun
      refine ⟨(keeps_iff.1 hkeeps).of_ok hs hrun, ?_⟩
      obtain ⟨hvalue, hfiles⟩ := runOn_starterText c s.work
      rw [PatchState.runOn_onWork] at hrun
      obtain ⟨hok, rfl⟩ := Prod.mk.inj hrun
      show starterIn c ((starterText c).runOn s.work).2.files = _
      rw [hfiles, ← hvalue, hok]
    · exact fun s s' f hs hrun => hfailed f s' ((keeps_iff.1 hkeeps).of_error hs hrun)
  unfold patch
  refine Meets.bind ((hreport _ _).meets hfailed) fun _ => ?_
  refine Meets.bind ((hlook _).meets hfailed) fun isPresent => ?_
  refine Meets.when (fun _ => (keeps_throw _).meets hfailed) (fun _ s hs => hs) ?_
  refine Meets.bind ((hlook _).meets hfailed) fun isDirectory => ?_
  refine Meets.when (fun _ => (keeps_throw _).meets hfailed) (fun _ s hs => hs) ?_
  refine Meets.bind (Keeps.meets ?_ hfailed) fun _ => ?_
  · exact keeps_forIn fun m _ _ => (hmodule m).bind fun _ => keeps_pure _
  · refine Meets.bind hstarter fun starter => ?_
    exact Meets.bind (hengine starter) fun _ => Meets.pure fun s hs => hs

theorem meets_patch_of {post : Unit → PatchState → Prop} {failed : Failure → PatchState → Prop}
    (hreport : ∀ level message, Keeps before (PatchState.onWork (report level message)))
    (hfailed : ∀ f s, before s → failed f s)
    (hengine : ∀ starter, Meets before
      (Ledger.patchEngine c.engineFile (c.modules.map (·.name)) starter EngineFile.all)
      (fun _ => post ()) failed) : Meets before (patch c) post failed :=
  meets_patch_found hreport hfailed fun starter =>
    (hengine starter).weaken (fun _ hs => hs.1) (fun _ _ hs => hs) fun _ _ hs => hs

/-! ## The stages -/

section
variable (hreport : ∀ message, Keeps ended (PatchState.onWork (error message)))
include hreport

/-- A stage that succeeds hands on what its task brings about, if that is not about the receipt. -/
theorem meets_stage_of {task : Task BuildState Unit} {pre post : BuildState → Prop} (s : Stage)
    (hreceipt : ∀ b r, post b → post { b with receipt := r })
    (htask : Meets pre task (fun _ => post) fun _ b => ended b.patching) :
    Meets pre (stage s task) (fun ok b => if ok then post b else ended b.patching)
      fun _ b => ended b.patching := by
  have hrecord : ∀ f, Keeps (fun b : BuildState => ended b.patching) (BuildState.record f) :=
    fun f b hb => hb
  have hattempt : Meets pre (Task.attempt task)
      (fun r b => match r with
        | .ok _ => post b
        | .error _ => ended b.patching) fun _ b => ended b.patching :=
    Meets.attempt htask
  unfold stage
  refine Meets.bind hattempt fun r => ?_
  rcases r with f | u
  · dsimp only
    split
    · refine Meets.bind (M := fun _ b => ended b.patching) ?_ fun _ => ?_
      · exact Keeps.meets (fun b hb => hreport _ b.patching hb) fun _ _ hb => hb
      · exact Meets.bind ((hrecord _).meets fun _ _ hb => hb) fun _ => Meets.pure fun b hb => hb
    · exact Meets.throw fun b hb => hb
  · exact fun b hb => hreceipt b _ hb

theorem meets_stage {task : Task BuildState Unit} (s : Stage)
    (htask : Meets (fun b => before b.patching) task (fun _ b => after b.patching)
      fun _ b => ended b.patching) :
    Meets (fun b => before b.patching) (stage s task)
      (fun ok b => if ok then after b.patching else ended b.patching) fun _ b => ended b.patching :=
  meets_stage_of hreport s (fun _ _ hb => hb) htask

/-- **The stages of a run**, one after the other. What the third brings about may be about the tools of
this machine. -/
theorem meets_forward_of {start cleaned patched : PatchState → Prop} {ready : BuildState → Prop}
    (hreceipt : ∀ b r, ready b → ready { b with receipt := r })
    (hclean : Meets start (PatchState.onWork (clean t.config)) (fun _ => cleaned) fun _ => ended)
    (hpatch : Meets cleaned (patch t.config) (fun _ => patched) fun _ => ended)
    (hhost : Meets (fun b => patched b.patching) (prepareHost t) (fun _ => ready)
      fun _ b => ended b.patching)
    (htargets : Meets ready (buildTargets t) (fun _ b => ended b.patching)
      fun _ b => ended b.patching) :
    Meets (fun b => start b.patching) (forward t) (fun _ b => ended b.patching)
      fun _ b => ended b.patching := by
  have hnext : ∀ {post : BuildState → Prop} {ok : Bool} {rest : Task BuildState Unit},
      Meets post rest (fun _ b => ended b.patching) (fun _ b => ended b.patching) →
      Meets (fun b => if ok then post b else ended b.patching)
        (if !ok then pure () else rest) (fun _ b => ended b.patching)
        fun _ b => ended b.patching := by
    intro post ok rest hrest
    cases ok with
    | false => exact Meets.pure fun b hb => hb
    | true => exact hrest
  unfold forward
  refine Meets.bind (meets_stage hreport .clean (BuildState.meets_onPatching hclean)) fun ok => ?_
  refine hnext (Meets.bind (meets_stage hreport .patch (BuildState.meets_onPatching hpatch)) ?_)
  refine fun ok => hnext (Meets.bind (meets_stage_of hreport .hostTools hreceipt hhost) ?_)
  refine fun ok => hnext (Meets.bind htargets fun results => ?_)
  exact fun b hb => hb

theorem meets_forward {start cleaned patched : PatchState → Prop}
    (hclean : Meets start (PatchState.onWork (clean t.config)) (fun _ => cleaned) fun _ => ended)
    (hpatch : Meets cleaned (patch t.config) (fun _ => patched) fun _ => ended)
    (hhost : Meets (fun b => patched b.patching) (prepareHost t) (fun _ b => patched b.patching)
      fun _ b => ended b.patching)
    (htargets : Meets (fun b => patched b.patching) (buildTargets t)
      (fun _ b => ended b.patching) fun _ b => ended b.patching) :
    Meets (fun b => start b.patching) (forward t) (fun _ b => ended b.patching)
      fun _ b => ended b.patching :=
  meets_forward_of hreport (fun _ _ hb => hb) hclean hpatch hhost htargets

end

/-- **The teardown** removes the temporary files and restores the engine. -/
theorem meets_teardown_of {before cleared after ended : PatchState → Prop}
    (hcleanup : Meets before (PatchState.onWork (cleanup c)) (fun _ => cleared) fun _ => ended)
    (hrestore : Meets cleared Ledger.restore (fun _ => after) fun _ => ended) :
    Meets (fun s => before s.patching) (teardown c) (fun _ s => after s.patching)
      fun _ s => ended s.patching := by
  have hrecord : ∀ (P : PatchState → Prop) f, Meets (fun s : BuildState => P s.patching)
      (BuildState.record f) (fun _ s => P s.patching) fun _ s => ended s.patching :=
    fun _ _ _ hs => hs
  have hmarkers : Meets (fun s : BuildState => cleared s.patching)
      (Task.ask fun s => .ok s.patching.ledger.markers) (fun _ s => cleared s.patching)
      fun _ s => ended s.patching := fun _ hs => hs
  unfold teardown restore
  refine (BuildState.meets_onPatching hcleanup).bind fun _ => (hrecord cleared _).bind fun _ => ?_
  refine Meets.bind ?_ fun _ => hrecord after _
  refine hmarkers.bind fun markers => (hrecord cleared _).bind fun _ => ?_
  exact (BuildState.meets_onPatching hrestore).bind fun restored => hrecord after _

/-! ## The whole run -/

theorem start_ok (c : Config) (now : String) (w : Workspace) :
    ∃ s, start c now w = .ok s ∧ s.patching.work = w ∧ s.patching.ledger.Covers c.enginePaths := by
  have hledger : ∃ ledger, Ledger.ofPaths c.enginePaths = .ok ledger := by
    unfold Config.enginePaths Ledger.ofPaths Ledger.freshRecord EngineFile.all
    simp only [List.map_cons, List.map_nil, List.foldlM_cons, List.foldlM_nil,
      Config.backupOf_engineFile]
    exact ⟨_, rfl⟩
  obtain ⟨ledger, hledger⟩ := hledger
  have hpaths : Ledger.ofPaths (EngineFile.all.map c.engineFile) = .ok ledger := hledger
  unfold start
  rw [hpaths]
  exact ⟨_, rfl, rfl, Ledger.covers_ofPaths hledger⟩

/-- What an execution brings about: what the teardown does, and nothing that follows changes it. -/
theorem meets_execute_of {now : String} {write : Bool} {begun torn : BuildState → Prop}
    (done : Workspace → Prop) (hforward : Meets begun (forward t) (fun _ => torn) fun _ => torn)
    (hteardown : Meets torn (teardown t.config) (fun _ s => done s.patching.work)
      fun _ s => done s.patching.work)
    (hsummary : ∀ r, Keeps done (summary t.config r))
    (hreceipt : ∀ r, Keeps done (writeReceipt t.config r)) :
    Meets begun (execute t now write) (fun _ s => done s.patching.work)
      fun _ s => done s.patching.work := by
  have hwork : ∀ {task : Task Workspace Unit}, Keeps done task →
      Keeps (fun s : BuildState => done s.patching.work) (BuildState.onWork task) :=
    fun hk s hs => hk s.patching.work hs
  unfold execute
  refine (Meets.thenAlways hforward (fun _ => hteardown) fun _ => hteardown).bind fun _ => ?_
  refine keeps_iff.1 (Keeps.bind (fun _ hs => hs) fun _ => (keeps_ask _).bind fun r => ?_)
  exact (hwork (hsummary r)).bind fun _ => Keeps.when (hwork (hreceipt r)) (keeps_pure r)

/-- What the end of every execution has, the end of a run has. -/
theorem meets_run {now : String} {write : Bool} {w : Workspace} {begun : PatchState → Prop}
    (done : Workspace → Prop)
    (h : Meets (fun s => begun s.patching) (execute t now write)
      (fun _ s => done s.patching.work) fun _ s => done s.patching.work)
    (hbegun : ∀ s : PatchState, s.work = w → s.ledger.Covers t.config.enginePaths → begun s) :
    done ((run t now write).runOn w).2 := by
  obtain ⟨s, hstart, hwork, hcovers⟩ := start_ok t.config now w
  have hrun : ((run t now write).runOn w).2 = ((execute t now write).runOn s).2.patching.work := by
    unfold run Task.runOn
    dsimp only
    rw [hstart]
    rfl
  have hdone := h s (hbegun s.patching hwork hcovers)
  rw [hrun]
  rcases hexecute : (execute t now write).runOn s with ⟨r, s'⟩
  rw [hexecute] at hdone
  cases r with
  | ok receipt => exact hdone
  | error f => exact hdone

end CrossBuild.Build
