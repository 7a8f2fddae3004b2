import CrossBuild.Proofs.Run.Patched

/-!
# What the tools of a run find

Tools run in the last two stages alone, after the stage that patches the engine. The stages before
and everything after them add nothing to the tools' runs. So every tool finds the engine as the
patching left it.
-/

namespace CrossBuild

open FileSystem Workspace CrossBuild.Task

variable {c : Config} {tools : Tools} {fs fs₁ : FileSystem}

/-! ## What runs no tool -/

section
variable {G : List Invocation → Prop}

theorem Ledger.silent_patchFile (p : Path) (patches : List Patch) :
    Keeps (PatchState.Of (fun _ inv => G inv) fun _ => True) (Ledger.patchFile p patches) := by
  intro s hs
  rcases henter : Ledger.enter s.ledger p with e | ⟨record, ledger⟩
  · have : (Ledger.patchFile p patches).runOn s = (.error e, s) := by
      unfold Ledger.patchFile
      rw [runOn_bind, runOn_ask, henter]
    rw [this]
    exact hs
  · obtain ⟨-, hinvocations, -⟩ := Ledger.patchFile_ends patches henter
    refine ⟨?_, trivial⟩
    show G _
    rw [hinvocations]
    exact hs.1

theorem Ledger.silent_patchEngine (place : EngineFile → Path) (modules : List String)
    (starter : Option String) (files : List EngineFile) :
    Keeps (PatchState.Of (fun _ inv => G inv) fun _ => True)
      (Ledger.patchEngine place modules starter files) :=
  keeps_iff.2 (Ledger.meets_patchEngine_of (fun _ => keeps_iff.1 (Ledger.silent_patchFile _ _)) files)

theorem Ledger.silent_restoreEach (entries : List (Path × PatchRecord)) :
    Keeps (PatchState.Of (fun _ inv => G inv) fun _ => True) (Ledger.restoreEach entries) := by
  have hkeeps : Keeps (fun s : PatchState => Workspace.Of (fun _ inv => G inv) s.work)
      (Ledger.restoreEach entries) := Ledger.keeps_restoreEach keeps_report fun _ _ _ hw => hw
  exact fun s hs => ⟨hkeeps s hs.1, trivial⟩

namespace Build

theorem silent_clean (c : Config) : Keeps (Workspace.Of fun _ inv => G inv) (clean c) :=
  keeps_clean_of keeps_report (fun _ hw => hw) (fun _ _ _ hw => hw) fun _ hw => hw

theorem silent_patch (c : Config) : Keeps (PatchState.Of (fun _ inv => G inv) fun _ => True) (patch c) :=
  keeps_iff.2 (meets_patch_of (fun _ _ _ hs => hs) (fun _ _ hs => hs) fun _ =>
    keeps_iff.1 (Ledger.silent_patchEngine _ _ _ _))

theorem silent_cleanup (c : Config) : Keeps (Workspace.Of fun _ inv => G inv) (cleanup c) :=
  keeps_cleanup_of (P := fun _ => True) keeps_report (fun _ _ _ _ _ _ _ => trivial)
    (fun _ _ _ hw => hw) fun _ hw => hw

theorem silent_restore : Keeps (PatchState.Of (fun _ inv => G inv) fun _ => True) Ledger.restore :=
  (keeps_ask _).bind fun entries => Ledger.silent_restoreEach entries

theorem silent_teardown (c : Config) :
    Keeps (BuildState.Of (fun _ inv => G inv) fun _ => True) (teardown c) := by
  unfold teardown restore
  refine (BuildState.keeps_onWork (silent_cleanup c)).bind fun _ => ?_
  refine (BuildState.keeps_record _).bind fun _ => Keeps.bind ?_ fun _ => BuildState.keeps_record _
  refine (keeps_ask _).bind fun markers => (BuildState.keeps_record _).bind fun _ => ?_
  refine Keeps.bind (fun s hs => ?_) fun restored => BuildState.keeps_record _
  exact silent_restore s.patching hs

/-- What comes after the stages of a run runs no tool: what the runs of tools have when the stages are
over, however they end, they have at the end of the run. -/
theorem meets_execute_silent {t : Toolchain} {begun : BuildState → Prop}
    (hforward : Meets begun (forward t) (fun _ s => G s.patching.work.invocations)
      fun _ s => G s.patching.work.invocations) (now : String) (write : Bool) :
    Meets begun (execute t now write) (fun _ s => G s.patching.work.invocations)
      fun _ s => G s.patching.work.invocations := by
  refine meets_execute_of (fun w => G w.invocations) hforward ?_ ?_ ?_
  · exact (keeps_iff.1 (silent_teardown t.config)).weaken (fun _ hs => ⟨hs, trivial⟩)
      (fun _ _ hs => hs.1) fun _ _ hs => hs.1
  · exact fun r => keeps_summary (I := Workspace.Of fun _ inv => G inv) keeps_report r
  · exact fun r => keeps_writeReceipt_of (I := Workspace.Of fun _ inv => G inv) keeps_report fun w hw => hw

end Build

end

/-! ## What runs tools -/

namespace Config

variable {P : FileSystem → Prop} {earlier inv : List Invocation}

/-- Every tool that ran since the earlier ones found the engine as some patched files have it. -/
def Watched (c : Config) (P : FileSystem → Prop) (earlier inv : List Invocation) : Prop :=
  ∃ new, inv = earlier ++ new ∧ ∀ i ∈ new, ∃ fs₁, P fs₁ ∧ c.Standing fs₁ i.before

theorem watched_refl (c : Config) (P : FileSystem → Prop) (earlier : List Invocation) :
    c.Watched P earlier earlier :=
  ⟨[], by simp, fun i hi => by cases hi⟩

/-- What holds from the patching on until the files are restored. -/
def Underway (c : Config) (P : FileSystem → Prop) (earlier : List Invocation) (fs : FileSystem)
    (inv : List Invocation) : Prop :=
  (∃ fs₁, P fs₁ ∧ c.Standing fs₁ fs) ∧ c.Watched P earlier inv

theorem Underway.stable (hP : ∀ fs, P fs → c.Patched fs) (htools : tools.WritesOnlyOutput)
    (hunharmed : c.Unharmed tools) :
    (Toolchain.ofConfig c tools).Stable c.trees (c.Underway P earlier) where
  ready fs inv h := by
    obtain ⟨⟨fs₁, -, hs⟩, -⟩ := h
    exact hs.held.ready
  work fs fs' inv h hk := by
    obtain ⟨⟨fs₁, hpatched, hs⟩, hwatched⟩ := h
    exact ⟨⟨fs₁, hpatched, hs.work (hP fs₁ hpatched) hk⟩, hwatched⟩
  tool fs inv command p h hout hp := by
    obtain ⟨⟨fs₁, hpatched, hs⟩, new, rfl, hnew⟩ := h
    refine ⟨⟨fs₁, hpatched, hs.tool (hP fs₁ hpatched) htools hunharmed hp hout⟩,
      new ++ [⟨command, fs⟩], ?_, ?_⟩
    · rw [List.append_assoc]
    · intro i hi
      rcases List.mem_append.1 hi with hi | hi
      · exact hnew i hi
      · rw [List.mem_singleton.1 hi]
        exact ⟨fs₁, hpatched, hs⟩

theorem leads_trees (hc : c.Sensible) {target : Target} (ht : target ∈ Target.all) :
    c.trees.Leads (c.buildTree target) target.id [] := by
  obtain ⟨hname, -⟩ := Target.isName_of_mem_all target ht
  obtain ⟨habs, hparts⟩ := hc.buildDirectory
  unfold buildTree
  rw [Path.div_name _ hname, hparts]
  exact ⟨habs, rfl, List.mem_map_of_mem ht, fun x hx => by cases hx⟩

theorem Underway.buildable (hc : c.Sensible) (hroot : ∀ part ∈ c.root.parts, IsName part)
    (hP : ∀ fs, P fs → c.Patched fs) (htools : tools.WritesOnlyOutput)
    (hunharmed : c.Unharmed tools) : c.Buildable tools c.trees (c.Underway P earlier) where
  sensible := hc
  rootNames := hroot
  trees target ht := ⟨target.id, [], leads_trees hc (hc.targets target ht)⟩
  stable := stable hP htools hunharmed

end Config

/-! ## The whole run -/

/-- The files of a workspace once its first stage is over. -/
def Build.cleaned (c : Config) (w : Workspace) : FileSystem :=
  ((Build.clean c).runOn w).2.files

section
variable {P : FileSystem → Prop} {w : Workspace}

/-- How a run of a workspace begins. -/
def Config.Begins (c : Config) (w : Workspace) (s : PatchState) : Prop :=
  (c.Rooted s.work.files ∧ s.work = w) ∧ s.ledger.Sound

/-- How a run is when its first stage is over. -/
def Config.Swept (c : Config) (w : Workspace) (s : PatchState) : Prop :=
  (c.Cleaned s.work.files ∧ s.work.files = Build.cleaned c w) ∧ s.ledger.Sound

/-- How a run ends as to the tools. -/
def Config.Ended (c : Config) (P : FileSystem → Prop) (w : Workspace) (s : PatchState) : Prop :=
  c.Watched P w.invocations s.work.invocations

theorem meets_clean_swept (hc : c.Sensible) :
    Meets (fun w' : Workspace => c.Rooted w'.files ∧ w' = w) (Build.clean c)
      (fun _ w' => c.Cleaned w'.files ∧ w'.files = Build.cleaned c w) fun _ _ => True := by
  refine meets_of_runOn ?_ fun _ _ _ _ _ => trivial
  rintro _ w' u ⟨hrooted, rfl⟩ hrun
  refine ⟨(Config.meets_clean hc).of_ok hrooted hrun, ?_⟩
  unfold Build.cleaned
  rw [hrun]

variable (hc : c.Sensible) (hroot : ∀ part ∈ c.root.parts, IsName part)
  (hP : ∀ fs, P fs → c.Patched fs) (htools : tools.WritesOnlyOutput) (hunharmed : c.Unharmed tools)
  (hpatch : Meets (c.Swept w) (Build.patch c) (fun _ s => P s.work.files) fun _ _ => True)
include hc hroot hP htools hunharmed hpatch

/-- Through the stages of a run every tool finds the engine patched, wherever the run ends. -/
theorem watched_forward :
    Meets (fun s => c.Begins w s.patching) (Build.forward (Toolchain.ofConfig c tools))
      (fun _ s => c.Ended P w s.patching) fun _ s => c.Ended P w s.patching := by
  have hwatched : ∀ {inv}, inv = w.invocations → c.Watched P w.invocations inv := by
    rintro inv rfl
    exact c.watched_refl P _
  have hb : c.Buildable tools c.trees (c.Underway P w.invocations) :=
    Config.Underway.buildable hc hroot hP htools hunharmed
  have hclean : Meets (c.Begins w) (PatchState.onWork (Build.clean c))
      (fun _ s => c.Swept w s ∧ s.work.invocations = w.invocations)
      fun _ => c.Ended P w := by
    have hsilent : Keeps (fun w' : Workspace => w'.invocations = w.invocations) (Build.clean c) :=
      Build.silent_clean (G := (· = w.invocations)) c
    have hwork := (meets_clean_swept (w := w) hc).keeping hsilent
    exact (PatchState.meets_onWork (L := Ledger.Sound) hwork).weaken
      (fun _ hs => ⟨⟨hs.1, congrArg (·.invocations) hs.1.2⟩, hs.2⟩)
      (fun _ _ hs => ⟨⟨hs.1.1, hs.2⟩, hs.1.2⟩) fun _ _ hs => hwatched hs.1.2
  have hpatch' : Meets (fun s => c.Swept w s ∧ s.work.invocations = w.invocations) (Build.patch c)
      (fun _ => PatchState.Of (c.Underway P w.invocations) fun _ => True)
      fun _ => c.Ended P w := by
    have hsilent : Keeps (PatchState.Of (fun _ inv => inv = w.invocations) fun _ => True)
        (Build.patch c) :=
      Build.silent_patch c
    refine (hpatch.keeping hsilent).weaken ?_ ?_ ?_
    · exact fun s hs => ⟨hs.1, hs.2, trivial⟩
    · exact fun _ s hs =>
        ⟨⟨⟨_, hs.1, (hP _ hs.1).standing⟩, hwatched hs.2.1⟩, trivial⟩
    · exact fun _ s hs => hwatched hs.2.1
  have hhost := hb.keeps_prepareHost (L := fun _ => True)
  have htargets := hb.keeps_buildTargets (L := fun _ => True)
  refine Build.meets_forward (fun _ _ hs => hs) hclean hpatch' ?_ ?_
  · exact hhost.meets fun _ s hs => hs.1.2
  · exact (keeps_iff.1 htargets).weaken (fun _ hs => hs) (fun _ s hs => hs.1.2)
      fun _ s hs => hs.1.2

/-- However the run ends, what comes after its stages runs no tool. -/
theorem watched_execute (now : String) (write : Bool) :
    Meets (fun s => c.Begins w s.patching)
      (Build.execute (Toolchain.ofConfig c tools) now write)
      (fun _ s => c.Ended P w s.patching) fun _ s => c.Ended P w s.patching :=
  Build.meets_execute_silent (G := c.Watched P w.invocations)
    (watched_forward hc hroot hP htools hunharmed hpatch) now write

end

end CrossBuild
