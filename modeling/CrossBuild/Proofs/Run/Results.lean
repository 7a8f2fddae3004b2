import CrossBuild.Proofs.Run.Barred
import CrossBuild.Proofs.Run.Phases

/-!
# The results of a run

What building the targets brings about holds at the end of the run, if the teardown and the reports
leave it. A run is followed to its end in this way, and a run for one target from there on where the
tree of the target is made.
-/

namespace CrossBuild

open FileSystem Workspace CrossBuild.Task

variable {T : Toolchain} {host : HostTools} {target : Target} {w w₁ : Workspace}
  {made : SourceTree.Resolution}

namespace Build

open TargetBuild

variable {b₀ b b₁ : BuildState} {now : String} {write : Bool}

/-- What building the targets brings about after a setup that succeeds holds of the results when the
stages of a run are over. There are none after one that fails. -/
theorem meets_forward_results (torn : List TargetResult → PatchState → Prop)
    (ready : BuildState → Prop) {failed : Prop} (htargets : b₀.receipt.targets = [])
    (hsetup : Meets (fun b => b = b₀) (stages (setup T))
      (fun ok b => if ok then ready b else torn [] b.patching) fun _ _ => failed)
    (hbuild : ∀ b, ready b → Meets (fun w => w = b.patching.work)
      (buildAll T b.host T.config.targets)
      (fun results w => torn results { b.patching with work := w }) fun _ _ => failed) :
    Meets (fun b => b = b₀) (forward T) (fun _ b => torn b.receipt.targets b.patching)
      fun _ _ => failed := by
  have hnone : Meets (fun b => b = b₀) (stages (setup T))
      (fun _ b => b.receipt.targets = []) fun _ _ => True := by
    refine meets_of_runOn ?_ fun _ _ _ _ _ => trivial
    rintro _ b ok rfl hrun
    obtain ⟨notes, -, hb⟩ := (meets_stages (keeps_receipt_setup T) _).of_ok rfl hrun
    unfold Adds at hb
    rw [hb]
    exact htargets
  rw [forward_eq]
  refine ((hsetup.and hnone).weaken (fun _ hb => hb) (fun _ _ hb => hb) fun _ _ hb => hb.1).bind
    fun ok => ?_
  cases ok with
  | false =>
    refine Meets.pure fun b hb => ?_
    rw [hb.2]
    exact hb.1
  | true =>
    refine Meets.from_each fun b ⟨hready, _⟩ => ?_
    refine Meets.bind (M := fun results b' => torn results b'.patching) ?_ fun results => ?_
    · refine Meets.bind (M := fun host b' => host = b.host ∧ b' = b) ?_ fun host => ?_
      · refine Meets.ask ?_ fun _ _ _ h => by cases h
        rintro host _ rfl h
        exact ⟨(Except.ok.inj h).symm, rfl⟩
      · refine Meets.assuming ?_
        rintro rfl
        refine meets_of_runOn ?_ ?_
        · rintro _ b' results rfl hrun
          obtain ⟨hresults, rfl⟩ := Prod.mk.inj hrun
          exact (hbuild _ hready).of_ok rfl (Prod.ext hresults rfl)
        · rintro _ b' f rfl hrun
          obtain ⟨hfailed, rfl⟩ := Prod.mk.inj hrun
          exact (hbuild _ hready).of_error rfl (Prod.ext hfailed rfl)
    · refine Meets.bind (M := fun _ b' => torn b'.receipt.targets b'.patching)
        (Meets.update fun b' hb' => hb') fun _ => ?_
      exact Meets.update fun b' hb' => hb'

/-- What holds of the results when the stages of a run are over holds of those in the receipt at the end
of the run, if the teardown and the reports bring it there. -/
theorem meets_execute_results {begun : BuildState → Prop} {failed : Prop}
    (torn cleared : List TargetResult → PatchState → Prop) (done : List TargetResult → Workspace → Prop)
    (hforward : Meets begun (forward T) (fun _ b => torn b.receipt.targets b.patching)
      fun _ _ => failed)
    (hcleanup : ∀ results, Meets (torn results) (PatchState.onWork (cleanup T.config))
      (fun _ => cleared results) fun _ _ => failed)
    (hrestore : ∀ results, Meets (cleared results) Ledger.restore (fun _ s => done results s.work)
      fun _ _ => failed)
    (hsummary : ∀ results r, Meets (done results) (summary T.config r) (fun _ => done results)
      fun _ _ => failed)
    (hreceipt : write = true → ∀ results r, Meets (done results) (writeReceipt T.config r)
      (fun _ => done results) fun _ _ => failed) :
    Meets begun (execute T now write) (fun r b => done r.targets b.patching.work)
      fun _ _ => failed := by
  have hteardown : Meets (fun b : BuildState => torn b.receipt.targets b.patching) (teardown T.config)
      (fun _ b => done b.receipt.targets b.patching.work) fun _ _ => failed := by
    refine Meets.from_each fun b hb => ?_
    have hpatching : Meets (fun b' : BuildState => torn b.receipt.targets b'.patching)
        (teardown T.config) (fun _ b' => done b.receipt.targets b'.patching.work) fun _ _ => failed :=
      meets_teardown_of (hcleanup b.receipt.targets) (hrestore b.receipt.targets)
    have hnotes := meets_teardown_notes T.config b.receipt.stages b.receipt.targets
    refine meets_of_runOn ?_ ?_
    · rintro _ b' u rfl hrun
      rw [(hnotes.of_ok ⟨rfl, rfl⟩ hrun).2]
      exact hpatching.of_ok hb hrun
    · rintro _ b' f rfl hrun
      exact hpatching.of_error hb hrun
  have hwork : ∀ {results} {task : Task Workspace Unit},
      Meets (done results) task (fun _ => done results) (fun _ _ => failed) →
      Meets (fun b : BuildState => done results b.patching.work) (BuildState.onWork task)
        (fun _ b => done results b.patching.work) fun _ _ => failed := fun h =>
    (BuildState.meets_onPatching (PatchState.meets_onWork (L := fun _ => True) h)).weaken
      (fun _ hb => ⟨hb, trivial⟩) (fun _ _ hb => hb.1) fun _ _ hb => hb.1
  unfold execute
  refine Meets.bind (M := fun _ b => done b.receipt.targets b.patching.work) ?_ fun _ => ?_
  · refine Meets.thenAlways hforward (fun _ => hteardown) fun _ => ?_
    exact meets_of_runOn (fun _ _ _ h _ => h) fun _ _ _ h _ => h
  refine Meets.bind (M := fun _ b => done b.receipt.targets b.patching.work)
    (Meets.update fun b hb => hb) fun _ => ?_
  refine Meets.bind (M := fun r b => done r.targets b.patching.work) ?_ fun r => ?_
  · refine Meets.ask (fun _ _ hb h => Except.ok.inj h ▸ hb) fun _ _ _ h => ?_
    cases h
  refine Meets.bind (hwork (hsummary _ r)) fun _ => ?_
  exact Meets.when (fun hwrite => hwork (hreceipt hwrite _ r)) (fun _ _ hb => hb)
    (Meets.pure fun _ hb => hb)

/-- A run is put together from what its setup, the targets and its teardown do. -/
theorem exists_run_of_parts {w w₂ w₃ : Workspace} {p : PatchState} {restored : List Path}
    {results : List TargetResult} (hstart : start T.config now w = .ok b)
    (hsetup : (stages (setup T)).runOn b = (.ok true, b₁))
    (hbuilt : (buildAll T b₁.host T.config.targets).runOn b₁.patching.work = (.ok results, w₂))
    (hcleanup : (cleanup T.config).runOn w₂ = (.ok (), w₃))
    (hrestore : Ledger.restore.runOn { b₁.patching with work := w₃ } = (.ok restored, p)) :
    ∃ receipt w', (run T now false).runOn w = (.ok receipt, w') ∧ receipt.targets = results ∧
      w'.files = p.work.files := by
  have hforward : Meets (fun b' => b' = b) (forward T) (fun _ b' => b'.receipt.targets = results ∧
      b'.patching = { b₁.patching with work := w₂ }) fun _ _ => False := by
    refine meets_forward_results (fun rs s => rs = results ∧ s = { b₁.patching with work := w₂ })
      (fun b' => b' = b₁) (receipt_of_start hstart).2 ?_ ?_
    · rintro _ rfl
      rw [hsetup]
      rfl
    · rintro _ rfl _ rfl
      rw [hbuilt]
      exact ⟨rfl, rfl⟩
  have hexecute : Meets (fun b' => b' = b) (execute T now false)
      (fun r b' => r.targets = results ∧ b'.patching.work.files = p.work.files) fun _ _ => False := by
    refine meets_execute_results (fun rs s => rs = results ∧ s = { b₁.patching with work := w₂ })
      (fun rs s => rs = results ∧ s = { b₁.patching with work := w₃ })
      (fun rs w => rs = results ∧ w.files = p.work.files) hforward ?_ ?_ ?_ ?_
    · rintro rs _ ⟨hrs, rfl⟩
      rw [PatchState.runOn_onWork]
      dsimp only
      rw [hcleanup]
      exact ⟨hrs, rfl⟩
    · rintro rs _ ⟨hrs, rfl⟩
      rw [hrestore]
      exact ⟨hrs, rfl⟩
    · intro rs r
      have hreport : ∀ level message, Meets (fun w => rs = results ∧ w.files = p.work.files)
          (report level message) (fun _ w => rs = results ∧ w.files = p.work.files) fun _ _ => False :=
        fun _ _ _ hw => hw
      unfold summary
      refine Meets.when (fun _ => hreport _ _) (fun _ _ hw => hw) ?_
      exact (hreport _ _).bind fun _ => hreport _ _
    · exact fun h => by cases h
  rw [runOn_run hstart]
  rcases hrun : (execute T now false).runOn b with ⟨f | receipt, b'⟩
  · exact (hexecute.of_error rfl hrun).elim
  · exact ⟨receipt, _, rfl, hexecute.of_ok rfl hrun⟩

end Build

/-! ## From the tree on -/

namespace TargetBuild

open TargetState

/-- The steps of a target once its tree is made. -/
def afterTree (T : Toolchain) (host : HostTools) (target : Target) (made : SourceTree.Resolution) :
    Task TargetState Unit := do
  let c := T.config
  record fun result => { result with
    buildTree := some (c.buildTree target).toString, reboundImports := made.rebindings.length }
  addPhases [{ name := "resolve", exitCode := 0, status := .success }]
  let helpers ← onWork (helpers T host target)
  addPhases helpers
  if !helpers.all Phase.ok then
    addPhases [Toolchain.skipped "precompile", Toolchain.skipped "link"]
  else
    info "Build tools generated."
    let entry ← onWork (look fun fs => entryIn fs c (c.buildTree target) target)
    let precompile ← onWork (T.precompile (precompilerWord host) entry (intermediate c target))
    addPhases [precompile]
    if !precompile.ok then addPhases [Toolchain.skipped "link"] else linkStep T target

/-- How the build of a target ends. -/
def conclude (T : Toolchain) (target : Target) (r : TargetResult) :
    Except Failure Unit → Task Workspace TargetResult
  | .error f => do
    error (s!"Compilation failed for {target.id}: " ++ f.message)
    return { r with errorMessage := some f.message, status := .failed }
  | .ok () =>
    if r.status = .success then do
      let how := if T.config.optimized then " and optimized" else ""
      info (s!"Binary built{how}: " ++ target.applicationName T.config.application)
      return r
    else failureReport r

/-- The build of a target once its tree is made. -/
def fromTree (T : Toolchain) (host : HostTools) (target : Target) (made : SourceTree.Resolution) :
    Task Workspace TargetResult := fun w =>
  let (outcome, s) := (afterTree T host target made).runOn
    ⟨w, { target := target.id, family := target.family.word }⟩
  (conclude T target s.result outcome).runOn s.work

theorem runOn_build_of_tree (htree : (BuildTree.build T.config.entryDirectory
      (T.config.buildTree target) target.family T.config.excluded).runOn
        { w with log := w.log ++ [⟨.info, s!"--- Compiling for: {target.id} ---"⟩] } = (.ok made, w₁)) :
    (build T host target).runOn w = (fromTree T host target made).runOn w₁ := by
  let r : TargetResult := { target := target.id, family := target.family.word }
  let w₀ : Workspace := { w with log := w.log ++ [⟨.info, s!"--- Compiling for: {target.id} ---"⟩] }
  have hsteps : (steps T host target).runOn ⟨w₀, r⟩ = (afterTree T host target made).runOn ⟨w₁, r⟩ := by
    have heq : steps T host target = (do
        let made ← onWork (BuildTree.build T.config.entryDirectory (T.config.buildTree target)
          target.family T.config.excluded)
        afterTree T host target made) := rfl
    rw [heq, runOn_bind]
    unfold onWork
    rw [runOn_onPart, htree]
  show (conclude T target ((steps T host target).runOn ⟨w₀, r⟩).2.result
    ((steps T host target).runOn ⟨w₀, r⟩).1).runOn ((steps T host target).runOn ⟨w₀, r⟩).2.work = _
  rw [hsteps]
  rfl

end TargetBuild

namespace Build

open TargetBuild

variable {b b₁ : BuildState} {now : String}

/-- What is left of a run for one target, once the tree of that target is made. -/
def complete (T : Toolchain) (host : HostTools) (target : Target) (made : SourceTree.Resolution) :
    Task PatchState TargetResult := do
  let r ← PatchState.onWork (fromTree T host target made)
  PatchState.onWork (cleanup T.config)
  let _ ← Ledger.restore
  return r

theorem exists_run_of_tree (target : Target) {r : TargetResult} {p : PatchState}
    (htargets : T.config.targets = [target])
    (hstart : start T.config now w = .ok b)
    (hsetup : (stages (setup T)).runOn b = (.ok true, b₁))
    (htree : (BuildTree.build T.config.entryDirectory (T.config.buildTree target) target.family
      T.config.excluded).runOn { b₁.patching.work with
        log := b₁.patching.work.log ++ [⟨.info, s!"--- Compiling for: {target.id} ---"⟩] } = (.ok made, w₁))
    (hcomplete : (complete T b₁.host target made).runOn { b₁.patching with work := w₁ } = (.ok r, p)) :
    ∃ receipt w', (run T now false).runOn w = (.ok receipt, w') ∧ receipt.targets = [r] ∧
      w'.files = p.work.files := by
  obtain ⟨r', s, hbuilt, hcomplete⟩ := of_runOn_bind hcomplete
  obtain ⟨u, s', hcleanup, hcomplete⟩ := of_runOn_bind hcomplete
  obtain ⟨restored, s'', hrestore, hcomplete⟩ := of_runOn_bind hcomplete
  obtain ⟨hr, rfl⟩ := Prod.mk.inj hcomplete
  obtain rfl := Except.ok.inj hr
  simp only [PatchState.runOn_onWork, Prod.mk.injEq] at hbuilt hcleanup
  obtain ⟨hbuilt, rfl⟩ := hbuilt
  obtain ⟨hcleanup, rfl⟩ := hcleanup
  have hall : (buildAll T b₁.host T.config.targets).runOn b₁.patching.work =
      (.ok [r'], ((fromTree T b₁.host target made).runOn w₁).2) := by
    unfold buildAll
    rw [htargets, List.mapM_cons, List.mapM_nil, runOn_bind, runOn_build_of_tree htree]
    rw [show (fromTree T b₁.host target made).runOn w₁ = (.ok r', _) from Prod.ext hbuilt rfl]
    rfl
  exact exists_run_of_parts hstart hsetup hall (Prod.ext hcleanup rfl) hrestore

end Build

/-! ## A small project whose build succeeds -/

/-- Tools that are content with everything and write nothing but the file at a path, whenever they are
asked for it. -/
def Tools.obliging (output : Path) : Tools where
  run _ command fs :=
    (.exited 0 "", if command.output? = some output then ((write output [0]).runOn fs).2 else fs)

theorem Tools.writesOnlyOutput_obliging (output : Path) : (obliging output).WritesOnlyOutput := by
  intro earlier command fs
  show Refiled _ fs (if command.output? = some output then ((write output [0]).runOn fs).2 else fs)
  split
  · next houtput =>
    refine keeps_write_of (I := Refiled _ fs) (fun fs' l x hfs' hl hspot => ?_) fs (.refl fs)
    refine hfs'.trans ((refiled_put hspot [0] x).mono ?_)
    rintro _ rfl
    exact ⟨output, houtput, place_of_congr (hfs'.place_congr true output).symm hl⟩
  · exact .refl fs

namespace Config

/-- The small project with a precompiler. -/
def ready : Config := readyAt ["app"]

/-- Its tree is its entry script. -/
def readyTree : SourceTree.Resolution := ⟨.script "index.mjs" (some "") .nil, [], []⟩

/-- How the setup of a run goes for that project, and what it leaves. -/
def readySetup (tools : Tools) (fs : FileSystem) : Option (Except Failure Bool × BuildState) :=
  (Build.start ready "now" (.ofFiles fs)).toOption.map
    (Build.stages (Build.setup (.ofConfig ready tools))).runOn

/-- Writing its tree. -/
def readyWrite (fs : FileSystem) : Except Failure Nat × FileSystem :=
  (readyTree.tree.write (ready.buildTree .linux64)).runOn fs

/-- How a run goes on for that project, from its setup on. -/
def readyEnd (tools : Tools) (b : BuildState) : Except Failure TargetResult × PatchState :=
  (Build.complete (.ofConfig ready tools) b.host .linux64 readyTree).runOn
    { b.patching with work := { b.patching.work with
        files := (readyWrite b.patching.work.files).2
        log := b.patching.work.log ++ [⟨.info, "--- Compiling for: x86_64-linux-gnu ---"⟩] } }

/-- The directories that no tree is read from, as the directories they are in and their names. -/
def readyPlaces : List (Location × String) :=
  [(["p"], "build"), (["p"], "bin"), (["p"], "dist"), (["p"], "node_modules"),
    (["p", "build"], "x86_64-linux-gnu")]

/-- Files from which the tree of that project is made. -/
def IsReady (fs : FileSystem) : Prop :=
  (∀ e ∈ fs.nodes, (∀ n ∈ e.1, IsName n) ∧ fs.isDirectoryAt e.1.dropLast = true ∧
      isFollowable e.2 = true) ∧
    fs.isDirectory ready.entryDirectory = .ok true ∧
    fs.isPresent (ready.buildTree .linux64) = .ok false ∧
    (∀ e ∈ readyPlaces, fs.isDirectoryAt e.1 = true ∧
      fs.place true ⟨.root, e.1 ++ [e.2]⟩ = .ok (e.1 ++ [e.2]) ∧
      (fs.guide? (e.1 ++ [e.2]) = none ∨ fs.isDirectoryAt (e.1 ++ [e.2]) = true)) ∧
    BuildTree.resolved fs ready.entryDirectory .linux (ready.excluded ++ [ready.buildTree .linux64]) =
      .ok readyTree ∧
    (readyWrite fs).1 = .ok 1

instance (fs : FileSystem) : Decidable (IsReady fs) := by
  unfold IsReady
  infer_instance

theorem IsReady.runOn_build (h : IsReady w.files) :
    (BuildTree.build ready.entryDirectory (ready.buildTree .linux64) .linux ready.excluded).runOn w =
      (.ok readyTree, { w with files := (readyWrite w.files).2 }) := by
  obtain ⟨hnodes, hsource, hpresent, hplaces, hresolved, hwrite⟩ := h
  have hskip : (ready.excluded ++ [ready.buildTree .linux64]).mapM w.files.resolve =
      .ok (ready.excluded ++ [ready.buildTree .linux64]) := by
    have hlist : ready.excluded ++ [ready.buildTree .linux64] =
        readyPlaces.map fun e => ⟨.root, e.1 ++ [e.2]⟩ := by
      rfl
    have hnames : ∀ e ∈ readyPlaces, IsName e.2 := by decide
    rw [hlist]
    refine mapM_eq_self fun p hp => ?_
    obtain ⟨e, he, rfl⟩ := List.mem_map.1 hp
    obtain ⟨hdir, hplace, hlink⟩ := hplaces e he
    exact resolve_self_of_place (sound_of_nodes hnodes) (hnames e he) hdir hplace hlink
  exact BuildTree.runOn_build_of_steps hsource hpresent rfl hskip hresolved rfl (Prod.ext hwrite rfl)

/-- A run for that project comes to its end, if the parts of it do that can be carried out. -/
theorem exists_run_ready {tools : Tools} {fs : FileSystem} (told : TargetResult → FileSystem → Prop)
    (h : ∀ s ∈ readySetup tools fs, s.1.toOption = some true ∧ IsReady s.2.patching.work.files ∧
      ∃ r ∈ (readyEnd tools s.2).1.toOption, told r (readyEnd tools s.2).2.work.files) :
    ∃ receipt w' r, (Build.run (.ofConfig ready tools) "now" false).runOn (.ofFiles fs) =
        (.ok receipt, w') ∧ receipt.targets = [r] ∧ told r w'.files := by
  obtain ⟨b, hb, -, -⟩ := Build.start_ok ready "now" (.ofFiles fs)
  rcases hsetup : (Build.stages (Build.setup (.ofConfig ready tools))).runOn b with ⟨passed, b₁⟩
  have hmem : (passed, b₁) ∈ readySetup tools fs := by
    rw [readySetup, hb]
    exact congrArg some hsetup
  obtain ⟨hpassed, hready, r, hr, htold⟩ := h _ hmem
  obtain rfl : passed = .ok true := eq_ok_of_toOption hpassed
  rcases hend : readyEnd tools b₁ with ⟨result, p⟩
  rw [hend] at hr htold
  obtain rfl : result = .ok r := eq_ok_of_toOption hr
  let w₀ : Workspace := { b₁.patching.work with
    log := b₁.patching.work.log ++ [⟨.info, "--- Compiling for: x86_64-linux-gnu ---"⟩] }
  have htree := IsReady.runOn_build (w := w₀) hready
  obtain ⟨receipt, w', hrun, htargets, hfiles⟩ :=
    Build.exists_run_of_tree (T := .ofConfig ready tools) .linux64 rfl hb hsetup htree hend
  exact ⟨receipt, w', r, hrun, htargets, hfiles ▸ htold⟩

/-- The tools of that project, which write its application. -/
def readyTools : Tools := .obliging (ready.applicationPath .linux64)

theorem exists_success_ready :
    ∃ receipt w' r, (Build.run (.ofConfig ready readyTools) "now" false).runOn (.ofFiles (filesAt ["app"])) =
        (.ok receipt, w') ∧ receipt.targets = [r] ∧ r.status = .success :=
  exists_run_ready (fun r _ => r.status = .success) (by decide +kernel)

end Config

end CrossBuild
