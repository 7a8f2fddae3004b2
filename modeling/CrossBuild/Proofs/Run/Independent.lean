import CrossBuild.Proofs.Run.SetUp

/-!
# Targets are independent

A target is built alike whichever others are built before and after it, and what follows the targets
leaves its tree and its application alone. So what a run leaves of a target depends neither on the
other targets nor on their order.
-/

namespace CrossBuild

open FileSystem Workspace CrossBuild.Task

theorem FileSystem.Agree.mono {V V' : Location → Prop} {fs fs' : FileSystem} (h : Agree V fs fs')
    (hV : ∀ l, V' l → V l) : Agree V' fs fs' :=
  ⟨h.unlinked, h.unlinked', h.workingDirectory, fun l hl => h.same l (hV l hl)⟩

/-- The results for a target. -/
def Target.resultsIn (t : Target) (results : List TargetResult) : List TargetResult :=
  results.filter fun r => r.target == t.id

/-- Targets of the table, each at most once, in any order, and this one among them. -/
structure Target.SelectedIn (t : Target) (targets : List Target) : Prop where
  nodup : targets.Nodup
  table : ∀ u ∈ targets, u ∈ all
  mem : t ∈ targets

theorem Target.resultsIn_others {t : Target} (ht : t ∈ all) {results : List TargetResult}
    {others : List Target} (h : List.Forall₂ TargetResult.IsOf results others)
    (hothers : ∀ u ∈ others, u ∈ all ∧ u ≠ t) : t.resultsIn results = [] := by
  have hids : ∀ t ∈ all, ∀ u ∈ all, t.id = u.id → t = u := by decide
  induction h with
  | nil => rfl
  | @cons r u results others hr _ ih =>
    obtain ⟨hu, hne⟩ := hothers u List.mem_cons_self
    unfold resultsIn at ih ⊢
    rw [List.filter_cons_of_neg, ih fun v hv => hothers v (List.mem_cons_of_mem u hv)]
    rw [hr.1, beq_iff_eq]
    exact fun hid => hne (hids u hu t ht hid)

/-- What a task brings about however it ends. -/
theorem Task.Meets.ends {σ α : Type} {pre J : σ → Prop} {task : Task σ α}
    (h : Meets pre task (fun _ => J) fun _ => J) {s : σ} (hs : pre s) : J (task.runOn s).2 := by
  rcases hrun : task.runOn s with ⟨f | a, s'⟩
  · exact h.of_error hs hrun
  · exact h.of_ok hs hrun

/-- A run that is set up goes on with the targets. -/
theorem Build.forward_of_setup {T : Toolchain} {b₀ b₁ : BuildState} {results : List TargetResult}
    {w : Workspace} (hsetup : (Build.stages (Build.setup T)).runOn b₀ = (.ok true, b₁))
    (hrun : (TargetBuild.buildAll T b₁.host T.config.targets).runOn b₁.patching.work =
      (.ok results, w)) :
    (Build.forward T).runOn b₀ =
      (.ok (), ⟨{ b₁.patching with work := w },
        { b₁.receipt with targets := results, stages := b₁.receipt.stages ++ [.passed .targets] },
        b₁.host⟩) := by
  have htargets : (Build.buildTargets T).runOn b₁ =
      (.ok results, { b₁ with patching := { b₁.patching with work := w } }) := by
    show (((TargetBuild.buildAll T b₁.host T.config.targets).runOn b₁.patching.work).1,
      { b₁ with patching := { b₁.patching with
          work := ((TargetBuild.buildAll T b₁.host T.config.targets).runOn b₁.patching.work).2 } }) = _
    rw [hrun]
  rw [Build.forward_eq, runOn_bind, hsetup]
  dsimp only
  unfold Build.finish
  rw [if_pos rfl, runOn_bind, htargets]
  rfl

/-- The receipt that a run gives is the one it ends with. -/
theorem Build.meets_execute_receipt (T : Toolchain) (now : String) (write : Bool) :
    Meets (fun _ => True) (Build.execute T now write) (fun receipt b => receipt = b.receipt)
      fun _ _ => True := by
  have hkeeps : ∀ {receipt : Receipt} (task : Task Workspace Unit),
      Meets (fun b => receipt = b.receipt) (BuildState.onWork task) (fun _ b => receipt = b.receipt)
        fun _ _ => True := fun task =>
    Keeps.meets (fun _ hb => hb) fun _ _ _ => trivial
  unfold Build.execute
  refine Meets.bind (M := fun _ _ => True) ?_ fun _ => ?_
  · exact meets_of_runOn (fun _ _ _ _ _ => trivial) fun _ _ _ _ _ => trivial
  refine Meets.bind (M := fun _ _ => True) (fun _ _ => trivial) fun _ => ?_
  refine Meets.bind (M := fun receipt b => receipt = b.receipt) ?_ fun receipt => ?_
  · exact Meets.ask (fun _ _ _ h => (Except.ok.inj h).symm) fun _ _ _ _ => trivial
  refine Meets.bind (hkeeps _) fun _ => ?_
  exact Meets.when (fun _ => hkeeps _) (fun _ _ hb => hb) (Meets.pure fun _ hb => hb)

namespace Config

variable {c : Config} {tools : Tools} {t : Target} {fs₀ fs fs' view : FileSystem} {w : Workspace}
  {l : Location}

/-! ## Building several targets -/

section
variable (hp : c.Placed) (host : HostTools)
include hp

/-- Building other targets gives no result for a target and leaves what it has in view. -/
theorem Building.others (ht : t ∈ Target.all) (htools : tools.WritesOnlyOutput) {others : List Target}
    (hothers : ∀ u ∈ others, u ∈ Target.all ∧ u ≠ t) (hb : c.Building fs₀ w.files)
    (hview : Agree (c.InView t) view w.files) :
    ∃ results w', (TargetBuild.buildAll (.ofConfig c tools) host others).runOn w = (.ok results, w') ∧
      t.resultsIn results = [] ∧ c.Building fs₀ w'.files ∧ Agree (c.InView t) view w'.files := by
  have hkeeps : Keeps (Of fun fs _ => c.Building fs₀ fs ∧ Agree (c.InView t) view fs)
      (TargetBuild.buildAll (.ofConfig c tools) host others) :=
    keeps_mapM fun u hu => keeps_view hp htools ht (hothers u hu).1 (hothers u hu).2 host
  have hmeets := TargetBuild.meets_buildAll (t := .ofConfig c tools) host others
  rcases hrun : (TargetBuild.buildAll (.ofConfig c tools) host others).runOn w with ⟨f | results, w'⟩
  · exact (hmeets.of_error trivial hrun).elim
  obtain ⟨hb', hview'⟩ : c.Building fs₀ w'.files ∧ Agree (c.InView t) view w'.files := by
    have := hkeeps w ⟨hb, hview⟩
    rwa [hrun] at this
  exact ⟨results, w', rfl, Target.resultsIn_others ht (hmeets.of_ok trivial hrun) hothers, hb', hview'⟩

/-- **Among other targets** a target has the result, and leaves what it has in view, as it does when
it is built alone. -/
theorem Building.among (htools : tools.Determined) (hb : c.Building w.files w.files)
    (himports : c.ImportsOutside w.files) {targets : List Target} (h : t.SelectedIn targets) :
    ∃ r results w', ((TargetBuild.build (.ofConfig c tools) host t).runOn w).1 = .ok r ∧
      (TargetBuild.buildAll (.ofConfig c tools) host targets).runOn w = (.ok results, w') ∧
      t.resultsIn results = [r] ∧
      c.Building w.files ((TargetBuild.build (.ofConfig c tools) host t).runOn w).2.files ∧
      Agree (c.InView t) ((TargetBuild.build (.ofConfig c tools) host t).runOn w).2.files w'.files := by
  have ht : t ∈ Target.all := h.table t h.mem
  obtain ⟨hnodup, hall, hmem⟩ := h
  obtain ⟨before, after, rfl⟩ := List.append_of_mem hmem
  rw [List.nodup_append, List.nodup_cons] at hnodup
  obtain ⟨-, ⟨hafter, -⟩, hbefore⟩ := hnodup
  have hbuild := TargetBuild.meets_build (t := .ofConfig c tools) host t
  rcases halone : (TargetBuild.build (.ofConfig c tools) host t).runOn w with ⟨f | r, alone⟩
  · exact (hbuild.of_error trivial halone).elim
  -- the others before it leave what it has in view
  have hothers : ∀ u ∈ before, u ∈ Target.all ∧ u ≠ t := fun u hu =>
    ⟨hall u (by simp [hu]), hbefore u hu t List.mem_cons_self⟩
  obtain ⟨results₁, w₁, hrun₁, hnone₁, hb₁, hview₁⟩ :=
    Building.others hp host ht htools.writesOnlyOutput hothers hb (.refl hb.outside.unlinked)
  -- so it is built alike
  obtain ⟨hsame, hview, halone', hb₂⟩ := (Abreast.carriesBuild hp htools ht himports).respects_build host
    w w₁ ⟨hview₁, hb, hb₁⟩
  rcases hrun₂ : (TargetBuild.build (.ofConfig c tools) host t).runOn w₁ with ⟨o, w₂⟩
  rw [halone, hrun₂] at hsame hview
  rw [halone] at halone'
  rw [hrun₂] at hb₂
  dsimp only at hsame
  subst hsame
  -- and the others after it leave what it made
  have hothers' : ∀ u ∈ after, u ∈ Target.all ∧ u ≠ t := fun u hu =>
    ⟨hall u (by simp [hu]), fun heq => hafter (heq ▸ hu)⟩
  obtain ⟨results₃, w₃, hrun₃, hnone₃, -, hview₃⟩ :=
    Building.others hp host ht htools.writesOnlyOutput hothers' hb₂ hview
  refine ⟨r, results₁ ++ r :: results₃, w₃, rfl, ?_, ?_, halone', hview₃⟩
  · unfold TargetBuild.buildAll at hrun₁ hrun₃ ⊢
    rw [List.mapM_append, runOn_bind, hrun₁]
    dsimp only
    rw [List.mapM_cons, runOn_bind, runOn_bind, hrun₂]
    dsimp only
    rw [runOn_bind, hrun₃]
    rfl
  · have hid : r.target = t.id := (hbuild.of_ok trivial halone).1
    unfold Target.resultsIn at hnone₁ hnone₃ ⊢
    rw [List.filter_append, hnone₁, List.filter_cons_of_pos (by simp [hid]), hnone₃]
    rfl

end

/-! ## What is left of a target -/

/-- Where what is made for a target goes: its build tree and its application. -/
def Owns (c : Config) (t : Target) (l : Location) : Prop :=
  (c.buildTree t).parts <+: l ∨ (c.applicationPath t).parts <+: l

section
variable (hp : c.Placed) (ht : t ∈ Target.all)
include hp ht

theorem Placed.owns_iff : c.Owns t l ↔ c.root.parts ++ ["build", t.id] <+: l ∨
    c.root.parts ++ ["dist", t.applicationName c.application] <+: l := by
  obtain ⟨hpart, -⟩ := Target.isPart_applicationName ht hp.sensible.application
  have happlication : (c.applicationPath t).parts =
      c.root.parts ++ ["dist", t.applicationName c.application] := by
    unfold applicationPath
    rw [Path.div_part _ hpart, distDirectory, hp.div_root (by decide)]
    simp
  unfold Owns
  rw [hp.buildTree_eq ht, happlication]

theorem Placed.inView_of_owns (h : c.Owns t l) : c.InView t l := by
  rcases (hp.owns_iff ht).1 h with ⟨rest, rfl⟩ | ⟨rest, rfl⟩
  · rw [List.append_assoc]
    exact (inView_cons_iff (by simp [yard])).2 (.inl ⟨rfl, rfl⟩)
  · rw [List.append_assoc]
    exact (inView_cons_iff (by simp [yard])).2 (.inr ⟨rfl, rfl⟩)

/-- What is made for a target goes deeper into the yard than where it begins. -/
theorem Placed.length_of_owns (h : c.Owns t l) : c.root.parts.length + 2 ≤ l.length := by
  rcases (hp.owns_iff ht).1 h with h | h
  · simpa using h.length_le
  · simpa using h.length_le

theorem Placed.within_of_owns (h : c.Owns t l) : c.yard.Within l := by
  rcases (hp.owns_iff ht).1 h with ⟨rest, rfl⟩ | ⟨rest, rfl⟩
  · rw [List.append_assoc]
    exact Yard.within_cons (y := c.yard) (by simp [yard]) _
  · rw [List.append_assoc]
    exact Yard.within_cons (y := c.yard) (by simp [yard]) _

/-- A file directly where the yard begins is not one of the target. -/
theorem Placed.misses_beside {d n : String} (hd : d = "build" ∨ d = "bin") (hn : n ≠ "." ∧ n ≠ "..")
    (hid : n ≠ t.id) : Misses (c.Owns t) fs ⟨.root, c.root.parts ++ [d, n]⟩ := by
  have hplain : ∀ part ∈ c.root.parts ++ [d, n], part ≠ "." ∧ part ≠ ".." := by
    intro part hpart
    simp only [List.mem_append, List.mem_cons, List.not_mem_nil, or_false] at hpart
    obtain hroot | rfl | rfl := hpart
    · exact (hp.rootNames part hroot).2
    · rcases hd with rfl | rfl <;> decide
    · exact hn
  unfold Misses
  rw [tread_of_isAbsolute rfl hplain]
  intro howns
  have hview := hp.inView_of_owns ht howns
  have hmem : d ∈ c.yard.names := by
    rcases hd with rfl | rfl <;> simp [yard]
  rcases (inView_cons_iff hmem).1 hview with ⟨-, rfl⟩ | ⟨rfl, -⟩
  · exact hid rfl
  · rcases hd with h | h <;> exact absurd h (by decide)

/-! ## The teardown -/

theorem Placed.keeps_cleanup : Keeps (Of fun fs _ => Agree (c.Owns t) view fs) (Build.cleanup c) := by
  have hids : ∀ t ∈ Target.all, t.id ≠ "repl_stub.c" ∧ Build.isTemporary t.id = false := by decide
  obtain ⟨hstub, htemporary⟩ := hids t ht
  refine Build.keeps_cleanup_of (P := fun name => Build.isTemporary name = true) keeps_report
    (fun _ _ _ _ _ _ htemporary => htemporary) (fun name hname => keeps_onFiles fun _ => ?_)
    (keeps_onFiles fun _ => keeps_unlinkIfPresent ?_)
  · have hne : ∀ n, Build.isTemporary n = false → name ≠ n := by
      rintro n hn rfl
      rw [hname] at hn
      cases hn
    have hplace : (⟨c.toolsDirectory.anchor, c.toolsDirectory.parts ++ [name]⟩ : Path) =
        ⟨.root, c.root.parts ++ ["bin", name]⟩ := by
      rw [toolsDirectory, hp.div_root (by decide)]
      simp
    rw [hplace]
    exact keeps_unlink (hp.misses_beside ht (.inr rfl) ⟨hne "." (by decide), hne ".." (by decide)⟩
      (hne t.id htemporary))
  · have hplace : TargetBuild.stub c = ⟨.root, c.root.parts ++ ["build", "repl_stub.c"]⟩ := by
      unfold TargetBuild.stub
      rw [Path.div_name _ (by decide), buildDirectory, hp.div_root (by decide)]
      simp
    rw [hplace]
    exact hp.misses_beside ht (.inl rfl) (by decide) hstub.symm

theorem Placed.keeps_writeReceipt (r : Receipt) :
    Keeps (Of fun fs _ => Agree (c.Owns t) view fs) (Build.writeReceipt c r) := by
  have hids : ∀ t ∈ Target.all, t.id ≠ Receipt.fileName := by decide
  have hdirectory : c.buildDirectory = ⟨.root, c.root.parts ++ ["build"]⟩ := hp.div_root (by decide)
  have hfile : c.buildDirectory / Receipt.fileName =
      ⟨.root, c.root.parts ++ ["build", Receipt.fileName]⟩ := by
    rw [Path.div_name _ (by decide), hdirectory]
    simp
  have hplain : ∀ part ∈ c.root.parts ++ ["build"], part ≠ "." ∧ part ≠ ".." := by
    intro part hpart
    rcases List.mem_append.1 hpart with hpart | hpart
    · exact (hp.rootNames part hpart).2
    · rw [List.mem_singleton.1 hpart]
      decide
  refine Build.keeps_writeReceipt_of keeps_report (keeps_onFiles fun _ => ?_)
  unfold Receipt.write
  dsimp only
  rw [hfile]
  refine Keeps.bind (keeps_makeDirectories ?_) fun _ => Keeps.bind ?_ fun _ => keeps_pure _
  · -- the directories above are none of the target
    rw [hdirectory]
    refine along_of_plain (fun hl hm howns => hl ?_) rfl hplain fun howns => ?_
    · rcases howns with h | h
      · exact .inl (h.trans hm)
      · exact .inr (h.trans hm)
    · have := hp.length_of_owns ht howns
      rw [List.length_append, List.length_singleton] at this
      omega
  · exact keeps_write (hp.misses_beside ht (.inl rfl) (by decide) (hids t ht).symm) _

/-- A file of an engine outside of the yard is none of the target. -/
theorem Placed.misses_engine (hout : ¬ c.yard.Within (c.engineAt fs)) (f : EngineFile) {n : String}
    (hn : n ∈ f.names) : Misses (c.Owns t) fs ⟨c.engine.anchor, c.engine.parts ++ [n]⟩ := by
  have hnames : ∀ f : EngineFile, ∀ n ∈ f.names, n ∉ ["build", "bin", "dist"] := by
    intro f
    cases f <;> decide
  unfold Misses
  rw [tread_engine f hn]
  exact fun howns => Yard.Within.concat hout (hnames f n hn) (hp.within_of_owns ht howns)

theorem Placed.keeps_restoreEach (hout : ¬ c.yard.Within (c.engineAt view)) {ledger : Ledger}
    (hledger : ledger.Covers c.enginePaths) :
    Keeps (fun s : PatchState => Of (fun fs _ => Agree (c.Owns t) view fs) s.work)
      (Ledger.restoreEach ledger) := by
  refine Ledger.keeps_restoreEach keeps_report fun e he => keeps_onFiles fun _ => ?_
  obtain ⟨hsource, hbackup⟩ := hledger.sound e he
  obtain ⟨f, hf⟩ := mem_enginePaths.1 ((hledger.keys e.1).1 (List.mem_map_of_mem he))
  rw [hf] at hsource hbackup
  rw [c.backupOf_engineFile] at hbackup
  unfold Ledger.restoreFile
  rw [hsource, ← Except.ok.inj hbackup, c.engineFile_eq, c.engineBackup_eq]
  refine Keeps.bind (keeps_copyFile _ ?_) fun _ => keeps_unlink ?_
  · exact hp.misses_engine ht hout f List.mem_cons_self
  · exact hp.misses_engine ht hout f (by simp [EngineFile.names])

end

/-! ## The end of a run -/

/-- What a run leaves of a target: its one result, and what some files have of it. -/
structure Leaves (c : Config) (t : Target) (r : TargetResult) (view : FileSystem) (b : BuildState) :
    Prop where
  result : t.resultsIn b.receipt.targets = [r]
  files : Agree (c.Owns t) view b.patching.work.files

variable {r : TargetResult} {b b₀ b₁ : BuildState}

section
variable (hp : c.Placed) (ht : t ∈ Target.all)
include hp ht

theorem Placed.meets_teardown (hout : ¬ c.yard.Within (c.engineAt view)) :
    Meets (fun b => c.Leaves t r view b ∧ b.patching.ledger.Covers c.enginePaths) (Build.teardown c)
      (fun _ b => c.Leaves t r view b) fun _ b => c.Leaves t r view b := by
  let before (b : BuildState) : Prop :=
    c.Leaves t r view b ∧ b.patching.ledger.Covers c.enginePaths
  have hkeeps : ∀ {α : Type} {task : Task BuildState α}, Keeps before task →
      Meets before task (fun _ => before) fun _ b => c.Leaves t r view b := fun hk =>
    hk.meets fun _ _ hb => hb.1
  have hcleanup : Keeps before (BuildState.onWork (Build.cleanup c)) := fun b hb =>
    ⟨⟨hb.1.result, hp.keeps_cleanup ht b.patching.work hb.1.files⟩, hb.2⟩
  have hdone : ∀ s, Keeps before (Build.done s) := fun s b hb => ⟨⟨hb.1.result, hb.1.files⟩, hb.2⟩
  have hnoted : ∀ s, Keeps (c.Leaves t r view) (Build.done s) := fun s b hb => ⟨hb.result, hb.files⟩
  have hrestore : Meets before Build.restore (fun _ b => c.Leaves t r view b)
      fun _ b => c.Leaves t r view b := by
    unfold Build.restore
    refine Meets.bind (hkeeps (keeps_ask _)) fun markers => ?_
    refine Meets.bind (hkeeps fun b hb => ⟨⟨hb.1.result, hb.1.files⟩, hb.2⟩) fun _ => ?_
    refine Meets.bind (M := fun _ b => c.Leaves t r view b) ?_ fun restored => ?_
    · refine meets_of_runOn ?_ ?_
      all_goals
        intro b b' a hb hrun
        have hafter : c.Leaves t r view ((BuildState.onPatching Ledger.restore).runOn b).2 :=
          ⟨hb.1.result, hp.keeps_restoreEach ht hout hb.2 b.patching hb.1.files⟩
        rwa [hrun] at hafter
    · exact fun b hb => ⟨hb.result, hb.files⟩
  unfold Build.teardown
  refine Meets.bind (hkeeps hcleanup) fun _ => Meets.bind (hkeeps (hdone _)) fun _ => ?_
  exact Meets.bind hrestore fun _ => keeps_iff.1 (hnoted _)

/-- After the targets nothing changes what a run leaves of one. -/
theorem Placed.meets_rest (hout : ¬ c.yard.Within (c.engineAt view)) {before : BuildState → Prop}
    {forward : Task BuildState Unit} {now : String} {write : Bool}
    (hforward : Meets before forward
      (fun _ b => c.Leaves t r view b ∧ b.patching.ledger.Covers c.enginePaths) fun _ _ => False) :
    Meets before
      (do
        Task.thenAlways forward (Build.teardown c)
        BuildState.record fun r => { r with status := r.computeStatus, finishedAt := some now }
        let receipt ← Task.ask fun s => .ok s.receipt
        BuildState.onWork (Build.summary c receipt)
        if write then BuildState.onWork (Build.writeReceipt c receipt)
        return receipt)
      (fun _ b => c.Leaves t r view b) fun _ b => c.Leaves t r view b := by
  have hwork : ∀ {task : Task Workspace Unit}, Keeps (Of fun fs _ => Agree (c.Owns t) view fs) task →
      Keeps (c.Leaves t r view) (BuildState.onWork task) := fun hk b hb =>
    ⟨hb.result, hk b.patching.work hb.files⟩
  refine Meets.bind (M := fun _ => c.Leaves t r view) ?_ fun _ => keeps_iff.1 ?_
  · refine Meets.thenAlways hforward (fun _ => hp.meets_teardown ht hout) fun _ => ?_
    exact fun b hb => hb.elim
  refine Keeps.bind (fun b hb => ⟨hb.result, hb.files⟩) fun _ => ?_
  refine (keeps_ask _).bind fun receipt => ?_
  refine (hwork (Build.keeps_summary keeps_report receipt)).bind fun _ => ?_
  exact Keeps.when (hwork (hp.keeps_writeReceipt ht receipt)) (keeps_pure receipt)

end

/-- **A run that is set up** leaves of a target what is made when the target is built next. -/
theorem Placed.meets_execute (hp : c.Placed) (htools : tools.Determined) {targets : List Target}
    (h : t.SelectedIn targets) {now : String} {write : Bool}
    (hsetup : (Build.stages (Build.setup (.ofConfig c tools))).runOn b₀ = (.ok true, b₁))
    (hbuilding : c.Building b₁.patching.work.files b₁.patching.work.files)
    (himports : c.ImportsOutside b₁.patching.work.files)
    (hout : ¬ c.yard.Within (c.engineAt b₁.patching.work.files))
    (hledger : b₁.patching.ledger.Covers c.enginePaths) :
    ∃ r, ((TargetBuild.build (.ofConfig c tools) b₁.host t).runOn b₁.patching.work).1 = .ok r ∧
      Meets (fun b => b = b₀) (Build.execute (.ofConfig { c with targets } tools) now write)
        (fun _ b => c.Leaves t r
          ((TargetBuild.build (.ofConfig c tools) b₁.host t).runOn b₁.patching.work).2.files b)
        fun _ b => c.Leaves t r
          ((TargetBuild.build (.ofConfig c tools) b₁.host t).runOn b₁.patching.work).2.files b := by
  have ht : t ∈ Target.all := h.table t h.mem
  obtain ⟨r, results, w, hr, hrun, hone, halone, hfiles⟩ :=
    Building.among hp b₁.host htools hbuilding himports h
  refine ⟨r, hr, hp.meets_rest ht ?_ ?_⟩
  · unfold engineAt at hout ⊢
    rwa [halone.outside.origin]
  · rintro b rfl
    have hsetup' : (Build.stages (Build.setup (.ofConfig { c with targets } tools))).runOn b =
        (.ok true, b₁) := hsetup
    have hrun' : (TargetBuild.buildAll (.ofConfig { c with targets } tools) b₁.host targets).runOn
        b₁.patching.work = (.ok results, w) := hrun
    rw [Build.forward_of_setup hsetup' hrun']
    exact ⟨⟨hone, hfiles.mono fun l => hp.inView_of_owns ht⟩, hledger⟩

end Config

/-! ## A small project with a variant of a script -/

namespace Config

/-- The small project with a precompiler at hand, so that targets are built. -/
def handy : Config := { small with hostPrecompiler := some ⟨.root, ["zig"]⟩ }

/-- The files of the small project with scripts, one of which has a variant. -/
def scriptFiles : FileSystem where
  nodes := smallFiles.nodes ++
    [(["p", "app"], .directory),
      (["p", "app", "index.mjs"], .file (.ofString "import x from './x.mjs'") false),
      (["p", "app", "x.mjs"], .file [] false),
      (["p", "app", "x.linux.mjs"], .file [] false)]
  workingDirectory := []

theorem placed_handy : handy.Placed where
  sensible := { sensible_small with }
  rootNames := by decide
  entryRoot := rfl
  entryNames := by decide
  entryOutside := by
    rintro ⟨n, hn, hle⟩
    have hnone : ∀ n ∈ handy.yard.names, ¬ handy.yard.root ++ [n] <+: handy.entryDirectory.parts := by
      decide
    exact hnone n hn hle

theorem sound_scriptFiles : scriptFiles.Sound :=
  sound_of_nodes (by decide)

theorem unlinked_scriptFiles : scriptFiles.Unlinked :=
  unlinked_of_nodes (by simp [scriptFiles, smallFiles, bareEngine])

/-- The one import of the project leads beside the script that makes it. -/
theorem importsOutside_scriptFiles : handy.ImportsOutside scriptFiles := by
  intro dirs name text s hdirs hname _ htext hs
  unfold FileSystem.text at htext
  rcases hcontent : scriptFiles.content (handy.entryDirectory.below (dirs ++ [name])) with f | b <;>
    rw [hcontent] at htext
  · cases htext
  obtain ⟨l, x, hplace, hnode⟩ := content_eq_ok_iff.1 hcontent
  have hnames : ∀ part ∈ ["p", "app"] ++ (dirs ++ [name]), part ≠ "." ∧ part ≠ ".." := by
    intro part hpart
    simp only [List.mem_append, List.mem_cons, List.not_mem_nil, or_false] at hpart
    obtain (rfl | rfl) | hpart | rfl := hpart
    · decide
    · decide
    · exact (hdirs.1 part hpart).2
    · exact hname.2
  obtain rfl : l = ["p", "app"] ++ (dirs ++ [name]) := by
    rw [unlinked_scriptFiles.place_eq hplace]
    exact tread_of_isAbsolute rfl hnames
  -- two files below the scripts' directory are empty, and the third one is the entry script
  have hfiles : ∀ e ∈ scriptFiles.nodes, ["p", "app"] <+: e.1 → e.2 = .directory ∨
      e.2 = .file [] false ∨ (e.1 = ["p", "app", "index.mjs"] ∧
        e.2 = .file (.ofString "import x from './x.mjs'") false) := by
    decide
  rcases hfiles _ (mem_nodes hnode (by simp)) (List.prefix_append _ _) with h | h | ⟨hplace, h⟩
  · cases h
  · obtain ⟨rfl, -⟩ := Node.file.inj h
    have hempty : "" = text := by
      have hdecode : Utf8.decode [] = .ok [] := by decide +kernel
      dsimp only at htext
      rw [hdecode] at htext
      exact Except.ok.inj htext
    subst hempty
    have hnone : Import.pieces "".toList = [] := by decide +kernel
    rw [hnone] at hs
    cases hs
  · obtain ⟨rfl, -⟩ := Node.file.inj h
    have hentry : dirs ++ [name] = [] ++ ["index.mjs"] := List.append_cancel_left hplace
    obtain ⟨rfl, -⟩ := List.append_inj' hentry rfl
    have hscript : "import x from './x.mjs'" = text := by
      have hdecode : Utf8.decode (.ofString "import x from './x.mjs'") =
          .ok "import x from './x.mjs'".toList := by
        decide +kernel
      have hlines : Text.unifyNewlines "import x from './x.mjs'".toList =
          "import x from './x.mjs'".toList := by
        rfl
      dsimp only at htext
      rw [hdecode] at htext
      dsimp only at htext
      rw [hlines, String.ofList_toList] at htext
      exact Except.ok.inj htext
    subst hscript
    have hone : Import.pieces "import x from './x.mjs'".toList =
        [.statement ⟨"import x from ".toList, '\'', "./x".toList, .mjs⟩] := by
      decide +kernel
    rw [hone, List.mem_singleton] at hs
    rw [Import.Piece.statement.inj hs]
    have hbeside : handy.importedAt [] "./x.mjs".toList = ["p", "app", "x.mjs"] := by rfl
    show ¬ handy.yard.Within (handy.importedAt [] "./x.mjs".toList)
    rw [hbeside]
    rintro ⟨n, hn, hle⟩
    have hout : ∀ n ∈ handy.yard.names, ¬ handy.yard.root ++ [n] <+: ["p", "app", "x.mjs"] := by decide
    exact hout n hn hle

theorem engineOutside_handy : ¬ handy.yard.Within (handy.engineAt scriptFiles) := by
  rintro ⟨n, hn, hle⟩
  have hout : ∀ n ∈ handy.yard.names, ¬ handy.yard.root ++ [n] <+: handy.engineAt scriptFiles := by
    decide
  exact hout n hn hle

end Config

end CrossBuild
