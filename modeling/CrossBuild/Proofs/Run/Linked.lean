import CrossBuild.Proofs.Run.Ordered
import CrossBuild.Proofs.Run.Results

/-!
# What a success rests on

A target is a success if its link command exits with zero and a file stands at its output then. What
the link command leaves is what the build of the target leaves, since nothing is run after it. The runs
of tools only add up, so the link command is among those of the whole run. Of what stood at the output
before nothing is known: a file that an earlier run left there is taken for the application.
-/

namespace CrossBuild

open FileSystem Workspace CrossBuild.Task

variable {T : Toolchain} {c : Config} {tools : Tools} {host : HostTools} {target : Target}
  {earlier : List Invocation} {α : Type}

/-! ## The runs of tools add up -/

/-- The runs of tools go on from the earlier ones. -/
def Since (earlier : List Invocation) (_ : FileSystem) (inv : List Invocation) : Prop :=
  earlier <+: inv

theorem since_eq (earlier : List Invocation) : Since earlier = Ran (fun _ => True) earlier := by
  funext fs inv
  exact propext ⟨fun ⟨new, hnew⟩ => ⟨new, hnew.symm, fun _ _ => trivial⟩,
    fun ⟨new, hnew, _⟩ => ⟨new, hnew.symm⟩⟩

theorem Toolchain.since_buildHelpers :
    Keeps (Of (Since earlier)) (T.buildHelpers target (TargetBuild.stub T.config)) := by
  rw [since_eq]
  exact ran_buildHelpers fun _ _ => trivial

theorem TargetBuild.since_build : Keeps (Of (Since earlier)) (build T host target) := by
  rw [since_eq]
  exact ran_build ⟨fun _ _ => trivial, fun _ => trivial, trivial⟩

/-! ## What the link command leaves -/

namespace TargetBuild

variable {r : TargetResult} {fs : FileSystem} {inv : List Invocation}

/-- The link command of a target was the last tool to run, after the earlier ones. It exited with zero
and left the files that are there. -/
def LinkedLast (T : Toolchain) (target : Target) (earlier : List Invocation) (fs' : FileSystem)
    (inv' : List Invocation) : Prop :=
  ∃ inv fs stderr, earlier <+: inv ∧ inv' = inv ++ [⟨T.command (linkOrder T target), fs⟩] ∧
    T.tools.run inv (T.command (linkOrder T target)) fs = (.exited 0 stderr, fs')

/-- The link phase is among the phases, and succeeded. -/
def LinkPassed (r : TargetResult) : Prop :=
  ∃ p ∈ r.phases, p.name = "link" ∧ p.status = .success

/-- What is told where the link command leaves no file. -/
def missingMessage (T : Toolchain) (target : Target) : String :=
  s!"Linker reported success but {(T.config.applicationPath target).name} is missing"

/-- The result of a target goes by what its link command left: it is a success only if that was a file,
which it describes, and it is none if that was no file. -/
structure GoesByLink (T : Toolchain) (target : Target) (earlier : List Invocation) (r : TargetResult)
    (fs : FileSystem) (inv : List Invocation) : Prop where
  linked : LinkPassed r → LinkedLast T target earlier fs inv ∧ ∀ p ∈ r.phases, p.ok
  passed : r.status = .success → LinkPassed r ∧
    fs.isFile (T.config.applicationPath target) = .ok true ∧
    ∃ a, r.artifact = some a ∧ a.Describes (T.config.applicationPath target) fs
  missing : LinkPassed r → fs.isFile (T.config.applicationPath target) = .ok false →
    r.status = .failed ∧ r.errorMessage = some (missingMessage T target)
  other : r.status ≠ .success → r.artifact = none

/-- What is known of a result when a failure is raised on the way. -/
def GoesAstray (T : Toolchain) (target : Target) (earlier : List Invocation) (r : TargetResult)
    (fs : FileSystem) (inv : List Invocation) : Prop :=
  r.artifact = none ∧ (LinkPassed r → LinkedLast T target earlier fs inv ∧ (∀ p ∈ r.phases, p.ok) ∧
    fs.isFile (T.config.applicationPath target) ≠ .ok false)

/-- Without a link phase that succeeded there is nothing to go by. -/
theorem goesByLink_of_not_passed (hr : r.Unbuilt) (hlink : ¬ LinkPassed r) :
    GoesByLink T target earlier r fs inv where
  linked h := absurd h hlink
  passed h := by rw [hr.1] at h; cases h
  missing h := absurd h hlink
  other _ := hr.2

/-- A failure that is raised on the way becomes the message. -/
theorem GoesAstray.goesByLink (h : GoesAstray T target earlier r fs inv) (message : String) :
    GoesByLink T target earlier { r with errorMessage := some message, status := .failed } fs inv where
  linked hlink := ⟨(h.2 hlink).1, (h.2 hlink).2.1⟩
  passed hsuccess := by cases hsuccess
  missing hlink hmissing := absurd hmissing (h.2 hlink).2.2
  other _ := h.1

theorem not_linkPassed_of_names (h : ∀ p ∈ r.phases, p.name ≠ "link") : ¬ LinkPassed r := by
  rintro ⟨p, hp, hname, -⟩
  exact h p hp hname

theorem goesAstray_of_names (hr : r.artifact = none) (h : ∀ p ∈ r.phases, p.name ≠ "link") :
    GoesAstray T target earlier r fs inv :=
  ⟨hr, fun hpassed => absurd hpassed (not_linkPassed_of_names h)⟩

end TargetBuild

namespace Toolchain

/-- A phase has the name of its tool, and it succeeded if the tool exited with zero. -/
theorem phaseOf_eq_ok {name command : String} {timeout : Int} {exit : Exit} {p : Phase}
    (h : phaseOf name command timeout exit = .ok p) :
    p.name = name ∧ (p.ok → ∃ stderr, exit = .exited 0 stderr) := by
  unfold phaseOf at h
  split at h
  · next code stderr =>
    obtain rfl := Except.ok.inj h
    refine ⟨rfl, fun hok => ⟨stderr, ?_⟩⟩
    have hstatus := Phase.ok_iff.1 hok
    dsimp only at hstatus
    split at hstatus
    · next hcode => rw [hcode]
    · cases hstatus
  · obtain rfl := Except.ok.inj h
    exact ⟨rfl, fun hok => by cases hok⟩
  · obtain rfl := Except.ok.inj h
    exact ⟨rfl, fun hok => by cases hok⟩
  · cases h

theorem meets_run_name (name : String) (arguments : List String) :
    Meets (Of (Since earlier)) (T.run name arguments)
      (fun p w => p.name = name ∧ Of (Since earlier) w) fun _ _ => True := by
  unfold run runIn
  refine Meets.bind (M := fun _ => Of (Since earlier)) ?_ fun exit => ?_
  · exact fun w hw => hw.trans (List.prefix_append _ _)
  · exact Meets.ofExcept (fun p w hp hw => ⟨(phaseOf_eq_ok hp).1, hw⟩) fun _ _ _ _ => trivial

theorem meets_buildHelpers_names (stub : Path) :
    Meets (Of (Since earlier)) (T.buildHelpers target stub)
      (fun phases w => (∀ p ∈ phases, p.name ≠ "link") ∧ Of (Since earlier) w) fun _ _ => True := by
  unfold buildHelpers
  refine Meets.bind (meets_run_name _ _) fun interpreter => Meets.assuming fun hinterpreter => ?_
  split
  · refine Meets.bind (meets_run_name _ _) fun precompiler => Meets.assuming fun hprecompiler => ?_
    exact Meets.pure fun w hw => ⟨by simp [hinterpreter, hprecompiler], hw⟩
  · exact Meets.pure fun w hw => ⟨by simp [hinterpreter, skipped], hw⟩

end Toolchain

namespace TargetBuild

open TargetState

variable {r : TargetResult} {w : Workspace}

theorem meets_link (target : Target) :
    Meets (Of (Since earlier))
      (T.link target (intermediate T.config target) (T.config.applicationPath target))
      (fun p w => p.name = "link" ∧ (p.ok → Of (LinkedLast T target earlier) w)) fun _ _ => True := by
  refine meets_of_runOn ?_ fun _ _ _ _ _ => trivial
  intro w w' p hw hrun
  obtain ⟨hphase, rfl⟩ := Prod.mk.inj hrun
  obtain ⟨hname, hok⟩ := Toolchain.phaseOf_eq_ok hphase
  refine ⟨hname, fun hp => ?_⟩
  obtain ⟨stderr, hexit⟩ := hok hp
  exact ⟨w.invocations, w.files, stderr, hw, rfl, Prod.ext hexit rfl⟩

theorem meets_helpers_names (hhost : ∀ p ∈ host.phases, p.name ≠ "link") :
    Meets (Of (Since earlier)) (helpers T host target)
      (fun phases w => (∀ p ∈ phases, p.name ≠ "link") ∧ Of (Since earlier) w) fun _ _ => True := by
  unfold helpers
  split
  · exact Meets.pure fun w hw => ⟨hhost, hw⟩
  · exact Toolchain.meets_buildHelpers_names _

section

-- so that a step is not carried out on the state where it is only named
attribute [local irreducible] Task.Meets

/-- **The link step**: what becomes of the target is told by what the link command left. -/
theorem meets_linkStep_link (hr : r.Unbuilt) (hok : ∀ p ∈ r.phases, p.ok)
    (hnames : ∀ p ∈ r.phases, p.name ≠ "link") :
    Meets (fun s => s.result = r ∧ Of (Since earlier) s.work) (linkStep T target)
      (fun _ s => Of (GoesByLink T target earlier s.result) s.work)
      fun _ s => Of (GoesAstray T target earlier s.result) s.work := by
  unfold linkStep
  refine Meets.bind ((meets_onWork (meets_link (T := T) target)).weaken (fun _ hs => hs)
    (fun _ _ hs => hs) fun _ s hs => ?_) fun link => ?_
  · rw [hs.1]
    exact goesAstray_of_names hr.2 hnames
  let r₁ : TargetResult := { r with phases := r.phases ++ [link] }
  refine Meets.bind (M := fun _ s => link.name = "link" ∧
    (link.ok → Of (LinkedLast T target earlier) s.work) ∧ s.result = r₁) ?_ fun _ => ?_
  · refine Meets.update ?_
    rintro s ⟨rfl, hname, hlast⟩
    exact ⟨hname, hlast, rfl⟩
  refine Meets.assuming fun hname => ?_
  have hpassed : link.ok → LinkPassed r₁ := fun hlink =>
    ⟨link, List.mem_append_right _ List.mem_cons_self, hname, Phase.ok_iff.1 hlink⟩
  split
  · next hlink =>
    have hall : ∀ p ∈ r₁.phases, p.ok := by
      intro p hp
      rcases List.mem_append.1 hp with hp | hp
      · exact hok p hp
      · rw [List.mem_singleton.1 hp]
        exact hlink
    have hastray : ∀ s : TargetState, Of (LinkedLast T target earlier) s.work → s.result = r₁ →
        s.work.files.isFile (T.config.applicationPath target) ≠ .ok false →
        Of (GoesAstray T target earlier s.result) s.work := by
      intro s hlast hs hfile
      rw [hs]
      exact ⟨hr.2, fun _ => ⟨hlast, hall, hfile⟩⟩
    -- whether there is a file
    refine Meets.bind (M := fun isFile s => (Of (LinkedLast T target earlier) s.work ∧ s.result = r₁) ∧
      s.work.files.isFile (T.config.applicationPath target) = .ok isFile) ?_ fun isFile => ?_
    · refine meets_of_runOn ?_ ?_
      · rintro s s' isFile ⟨hlast, hs⟩ hrun
        obtain ⟨hfile, rfl⟩ := Prod.mk.inj hrun
        exact ⟨⟨hlast hlink, hs⟩, hfile⟩
      · rintro s s' f ⟨hlast, hs⟩ hrun
        obtain ⟨hfile, rfl⟩ := Prod.mk.inj hrun
        refine hastray s (hlast hlink) hs fun h => ?_
        cases (show Except.error f = Except.ok false from hfile.symm.trans h)
    cases isFile with
    | true =>
      rw [if_pos rfl]
      have hdescribe := meets_onWork (r := r₁) (Artifact.meets_describe (T.config.applicationPath target)
        target (I := fun fs inv => LinkedLast T target earlier fs inv ∧
          fs.isFile (T.config.applicationPath target) = .ok true))
      refine Meets.bind (hdescribe.weaken ?_ (fun _ _ hs => hs) ?_) fun artifact => ?_
      · exact fun s hs => ⟨hs.1.2, hs.1.1, hs.2⟩
      · rintro f s ⟨hs, hlast, hfile⟩
        exact hastray s hlast hs (by rw [hfile]; decide)
      · refine Meets.update ?_
        rintro s ⟨hs, hdescribes, hlast, hfile⟩
        rw [hs]
        refine ⟨fun _ => ⟨hlast, hall⟩, fun _ => ⟨hpassed hlink, hfile, artifact, rfl, hdescribes⟩,
          fun _ hmissing => ?_, fun hfailed => absurd rfl hfailed⟩
        cases (show Except.ok true = Except.ok false from hfile.symm.trans hmissing)
    | false =>
      refine Meets.update ?_
      rintro s ⟨⟨hlast, hs⟩, hfile⟩
      rw [hs]
      refine ⟨fun _ => ⟨hlast, hall⟩, fun hsuccess => ?_, fun _ _ => ⟨hr.1, rfl⟩, fun _ => hr.2⟩
      cases (show TargetStatus.failed = .success from hr.1.symm.trans hsuccess)
  · next hlink =>
    refine Meets.pure fun s hs => goesByLink_of_not_passed (by rw [hs.2]; exact hr) ?_
    rw [hs.2]
    rintro ⟨p, hp, hname, hstatus⟩
    rcases List.mem_append.1 hp with hp | hp
    · exact hnames p hp hname
    · rw [List.mem_singleton.1 hp] at hstatus
      exact hlink (Phase.ok_iff.2 hstatus)

/-- The steps of a target, of which the link step is the last. -/
theorem meets_steps_link (hhost : ∀ p ∈ host.phases, p.name ≠ "link") (hr : r.Unbuilt)
    (hphases : r.phases = []) :
    Meets (fun s => s.result = r ∧ Of (Since earlier) s.work) (steps T host target)
      (fun _ s => Of (GoesByLink T target earlier s.result) s.work)
      fun _ s => Of (GoesAstray T target earlier s.result) s.work := by
  have hastray : ∀ {r' : TargetResult} (s : TargetState), s.result = r' →
      (∀ p ∈ r'.phases, p.name ≠ "link") → r'.artifact = none →
      Of (GoesAstray T target earlier s.result) s.work := by
    rintro r' s rfl hnames hartifact
    exact goesAstray_of_names hartifact hnames
  unfold steps
  have hmade := keeps_iff.1 (BuildTree.silent_build (G := fun inv => earlier <+: inv)
    T.config.entryDirectory (T.config.buildTree target) target.family T.config.excluded)
  refine Meets.bind ((meets_onWork (r := r) hmade).weaken (fun _ hs => hs) (fun _ _ hs => hs)
    fun _ s hs => hastray s hs.1 (by simp [hphases]) hr.2) fun made => ?_
  let r₁ : TargetResult := { r with
    buildTree := some (T.config.buildTree target).toString
    reboundImports := made.rebindings.length }
  refine Meets.bind (M := fun _ s => s.result = r₁ ∧ Of (Since earlier) s.work) ?_ fun _ => ?_
  · refine Meets.update ?_
    rintro s ⟨rfl, hs⟩
    exact ⟨rfl, hs⟩
  refine Meets.bind (M := fun _ s => s.result = { r₁ with phases := [resolvedPhase] } ∧
    Of (Since earlier) s.work) ?_ fun _ => ?_
  · refine Meets.update ?_
    rintro s ⟨hs, hw⟩
    rw [hs]
    exact ⟨by simp [r₁, hphases, resolvedPhase], hw⟩
  refine Meets.bind ((meets_onWork (meets_helpers_names hhost)).weaken (fun _ hs => hs)
    (fun _ _ hs => hs) fun _ s hs => hastray s hs.1 (by simp [resolvedPhase]) hr.2) fun helpers => ?_
  let r₂ : TargetResult := { r₁ with phases := resolvedPhase :: helpers }
  refine Meets.bind (M := fun _ s => (∀ p ∈ helpers, p.name ≠ "link") ∧ s.result = r₂ ∧
    Of (Since earlier) s.work) ?_ fun _ => ?_
  · refine Meets.update ?_
    rintro s ⟨hs, hnames, hw⟩
    rw [hs]
    exact ⟨hnames, rfl, hw⟩
  refine Meets.assuming fun hnames => ?_
  have hnames₂ : ∀ p ∈ r₂.phases, p.name ≠ "link" :=
    List.forall_mem_cons.2 ⟨by simp [resolvedPhase], hnames⟩
  split
  · refine Meets.update ?_
    rintro s ⟨hs, -⟩
    rw [hs]
    refine goesByLink_of_not_passed hr ?_
    rintro ⟨p, hp, hname, hstatus⟩
    rcases List.mem_append.1 hp with hp | hp
    · exact hnames₂ p hp hname
    · simp only [List.mem_cons, List.not_mem_nil, or_false] at hp
      rcases hp with rfl | rfl <;> cases hstatus
  · next hhelpers =>
    have hok : ∀ p ∈ r₂.phases, p.ok := by
      refine List.forall_mem_cons.2 ⟨rfl, ?_⟩
      simpa using hhelpers
    refine Meets.bind (M := fun _ s => s.result = r₂ ∧ Of (Since earlier) s.work) ?_ fun _ => ?_
    · exact Meets.update fun s hs => hs
    refine Meets.bind ((meets_onWork (r := r₂) (keeps_iff.1 (keeps_look (J := Of (Since earlier)) _))).weaken
      (fun _ hs => hs) (fun _ _ hs => hs) fun _ s hs => hastray s hs.1 hnames₂ hr.2) fun entry => ?_
    refine Meets.bind ((meets_onWork (Toolchain.meets_run_name "precompile" _)).weaken (fun _ hs => hs)
      (fun _ _ hs => hs) fun _ s hs => hastray s hs.1 hnames₂ hr.2) fun precompile => ?_
    let r₃ : TargetResult := { r₂ with phases := r₂.phases ++ [precompile] }
    refine Meets.bind (M := fun _ s => precompile.name = "precompile" ∧ s.result = r₃ ∧
      Of (Since earlier) s.work) ?_ fun _ => ?_
    · refine Meets.update ?_
      rintro s ⟨hs, hname, hw⟩
      rw [hs]
      exact ⟨hname, rfl, hw⟩
    refine Meets.assuming fun hname => ?_
    have hnames₃ : ∀ p ∈ r₃.phases, p.name ≠ "link" := by
      intro p hp
      rcases List.mem_append.1 hp with hp | hp
      · exact hnames₂ p hp
      · rw [List.mem_singleton.1 hp, hname]
        decide
    split
    · refine Meets.update ?_
      rintro s ⟨hs, -⟩
      rw [hs]
      refine goesByLink_of_not_passed hr ?_
      rintro ⟨p, hp, hname, hstatus⟩
      rcases List.mem_append.1 hp with hp | hp
      · exact hnames₃ p hp hname
      · rw [List.mem_singleton.1 hp] at hstatus
        cases hstatus
    · next hprecompile =>
      refine meets_linkStep_link hr (fun p hp => ?_) hnames₃
      rcases List.mem_append.1 hp with hp | hp
      · exact hok p hp
      · rw [List.mem_singleton.1 hp]
        simpa using hprecompile

/-- **Building a target** ends with a result that goes by what the link command left. -/
theorem meets_build_link (hhost : ∀ p ∈ host.phases, p.name ≠ "link") (target : Target) :
    Meets (Of (Since earlier)) (build T host target)
      (fun r w => Of (GoesByLink T target earlier r) w) fun _ _ => False := by
  unfold build
  refine Meets.bind (M := fun _ => Of (Since earlier)) (Meets.update fun w hw => hw) fun _ => ?_
  let start : TargetResult := { target := target.id, family := target.family.word }
  have hsteps : Meets (fun s => s.result = start ∧ Of (Since earlier) s.work) (steps T host target)
      (fun _ s => Of (GoesByLink T target earlier s.result) s.work)
      fun _ s => Of (GoesAstray T target earlier s.result) s.work :=
    meets_steps_link hhost ⟨rfl, rfl⟩ rfl
  refine (meets_outcome hsteps).bind fun (outcome, r) => ?_
  -- what is reported then changes the log alone
  rcases outcome with f | u <;> dsimp only
  · refine Meets.bind (M := fun _ => Of (GoesAstray T target earlier r)) (Meets.update fun w hw => hw)
      fun _ => Meets.pure fun w hw => ?_
    exact hw.goesByLink f.message
  · split
    · exact Meets.bind (M := fun _ => Of (GoesByLink T target earlier r)) (Meets.update fun w hw => hw)
        fun _ => Meets.pure fun w hw => hw
    · next hstatus =>
      unfold failureReport
      rcases hfailed : r.failedPhase? with _ | p
      · exact Meets.bind (M := fun _ => Of (GoesByLink T target earlier r)) (Meets.update fun w hw => hw)
          fun _ => Meets.pure fun w hw => hw
      · have hreport : ∀ message, Meets (Of (GoesByLink T target earlier r)) (error message)
            (fun _ => Of (GoesByLink T target earlier r)) fun _ _ => False := fun message =>
          Meets.update fun w hw => hw
        refine (hreport _).bind fun _ => ?_
        refine Meets.when (fun _ => hreport _) (fun _ _ hw => hw) (Meets.pure fun w hw => ?_)
        -- where the link phase succeeded, no phase failed
        have hnot : ¬ LinkPassed r := by
          intro hpassed
          have hok := Phase.ok_iff.1 ((hw.linked hpassed).2 p (List.mem_of_find?_eq_some hfailed))
          have := List.find?_some hfailed
          rw [hok] at this
          cases this
        exact ⟨fun h => absurd h hnot, fun h => absurd h hstatus, fun h => absurd h hnot, hw.other⟩

end

/-! ## The targets of a run -/

/-- In a run that added to the runs of tools, the link command of a target was run, on some files. It
exited with zero and left the others. -/
def LinkedIn (T : Toolchain) (target : Target) (inv inv' : List Invocation) (fs fs' : FileSystem) :
    Prop :=
  ∃ before after stderr, inv' = inv ++ before ++ ⟨T.command (linkOrder T target), fs⟩ :: after ∧
    T.tools.run (inv ++ before) (T.command (linkOrder T target)) fs = (.exited 0 stderr, fs')

/-- The result of a target goes by a link command of the run. -/
structure GoesByRun (T : Toolchain) (target : Target) (inv inv' : List Invocation) (r : TargetResult) :
    Prop where
  passed : r.status = .success → LinkPassed r
  linked : LinkPassed r → ∃ fs fs', LinkedIn T target inv inv' fs fs' ∧
    (r.status = .success → fs'.isFile (T.config.applicationPath target) = .ok true) ∧
    (fs'.isFile (T.config.applicationPath target) = .ok false →
      r.status = .failed ∧ r.errorMessage = some (missingMessage T target))

variable {inv inv' : List Invocation} {fs fs' : FileSystem}

theorem LinkedLast.linkedIn (h : LinkedLast T target inv fs' inv') :
    ∃ fs, LinkedIn T target inv inv' fs fs' := by
  obtain ⟨_, fs, stderr, ⟨before, rfl⟩, hinv, hrun⟩ := h
  exact ⟨fs, before, [], stderr, hinv, hrun⟩

theorem LinkedIn.mono (h : LinkedIn T target inv inv' fs fs') {inv'' : List Invocation}
    (hinv : inv' <+: inv'') : LinkedIn T target inv inv'' fs fs' := by
  obtain ⟨before, after, stderr, rfl, hrun⟩ := h
  obtain ⟨later, rfl⟩ := hinv
  exact ⟨before, after ++ later, stderr, by simp, hrun⟩

theorem GoesByLink.goesByRun (h : GoesByLink T target inv r fs' inv') :
    GoesByRun T target inv inv' r where
  passed hsuccess := (h.passed hsuccess).1
  linked hpassed := by
    obtain ⟨fs, hlinked⟩ := (h.linked hpassed).1.linkedIn
    exact ⟨fs, fs', hlinked, fun hsuccess => (h.passed hsuccess).2.1, h.missing hpassed⟩

theorem GoesByRun.mono (h : GoesByRun T target inv inv' r) {inv'' : List Invocation}
    (hinv : inv' <+: inv'') : GoesByRun T target inv inv'' r where
  passed := h.passed
  linked hpassed := by
    obtain ⟨fs, fs', hlinked, hfile⟩ := h.linked hpassed
    exact ⟨fs, fs', hlinked.mono hinv, hfile⟩

/-- Every result is that of a target, and goes by its link command. -/
def AllGoByRun (T : Toolchain) (inv : List Invocation) (results : List TargetResult)
    (targets : List Target) (inv' : List Invocation) : Prop :=
  ∀ r ∈ results, ∃ target ∈ targets, r.IsOf target ∧ GoesByRun T target inv inv' r

/-- What holds of the runs of tools however many follow holds after a task that only adds to them. -/
theorem keeps_of_since {P : List Invocation → Prop} {task : Task Workspace α}
    (hP : ∀ inv inv', P inv → inv <+: inv' → P inv')
    (htask : ∀ earlier, Keeps (Of (Since earlier)) task) : Keeps (Of fun _ inv => P inv) task :=
  fun w hw => hP _ _ hw (htask w.invocations w (List.prefix_refl _))

/-- **Building targets** one after the other: each result goes by the link command of its target. -/
theorem meets_buildAll_link (hhost : ∀ p ∈ host.phases, p.name ≠ "link") (targets : List Target) :
    Meets (Of (Since inv)) (buildAll T host targets)
      (fun results w => AllGoByRun T inv results targets w.invocations) fun _ _ => True := by
  unfold buildAll
  induction targets with
  | nil => exact Meets.pure fun w _ r hr => by cases hr
  | cons target targets ih =>
    rw [List.mapM_cons]
    have hsince : Keeps (Of (Since inv)) (build T host target) := since_build
    have hlink : Meets (Of (Since inv)) (build T host target)
        (fun r w => Of (GoesByLink T target inv r) w) fun _ _ => False := meets_build_link hhost target
    have hnames : Meets (fun w => Of (Since inv) w ∧ Of (Since inv) w) (build T host target)
        (fun r _ => r.IsOf target) fun _ _ => False :=
      (meets_build host target).weaken (fun _ _ => trivial) (fun _ _ hr => hr) fun _ _ h => h
    refine Meets.bind (M := fun r w => (r.IsOf target ∧ GoesByRun T target inv w.invocations r) ∧
      Of (Since inv) w) ?_ fun r => ?_
    · refine ((hlink.keeping hsince).and hnames).weaken (fun _ hw => ⟨hw, hw⟩) ?_
        fun _ _ _ => trivial
      exact fun r w hw => ⟨⟨hw.2, hw.1.1.goesByRun⟩, hw.1.2⟩
    have hkept : Keeps (Of fun _ inv' => r.IsOf target ∧ GoesByRun T target inv inv' r)
        (targets.mapM (build T host)) :=
      keeps_of_since (fun _ _ h hinv => ⟨h.1, h.2.mono hinv⟩) fun _ => keeps_mapM fun _ _ => since_build
    refine Meets.bind ((ih.keeping hkept).weaken (fun _ hw => ⟨hw.2, hw.1⟩) (fun _ _ hw => hw)
      fun _ _ _ => trivial) fun results => Meets.pure fun w hw r' hr' => ?_
    rcases List.mem_cons.1 hr' with rfl | hr'
    · exact ⟨target, List.mem_cons_self, hw.2⟩
    · obtain ⟨u, hu, hu'⟩ := hw.1 r' hr'
      exact ⟨u, List.mem_cons_of_mem _ hu, hu'⟩

end TargetBuild

/-! ## What a run gives -/

namespace Build

open TargetBuild

variable {b₀ b b₁ : BuildState} {now : String} {write : Bool}

theorem since_setup : Keeps (BuildState.Of (Since earlier) fun _ => True)
    (stages (setup (.ofConfig c tools))) := by
  refine keeps_stages (P := PatchState.Of (Since earlier) fun _ => True) (fun message s hs => hs)
    fun e he => ?_
  simp only [setup, List.mem_cons, List.not_mem_nil, or_false] at he
  obtain rfl | rfl | rfl := he
  · exact BuildState.keeps_onWork (silent_clean (G := fun inv => earlier <+: inv) c)
  · exact fun b hb => silent_patch (G := fun inv => earlier <+: inv) c b.patching hb
  · exact keeps_prepareHost Toolchain.since_buildHelpers

theorem names_of_setup (hb : b.host.phases = [])
    (hsetup : (stages (setup T)).runOn b = (.ok true, b₁)) : ∀ p ∈ b₁.host.phases, p.name ≠ "link" := by
  refine host_of_setup (P := fun phases => ∀ p ∈ phases, p.name ≠ "link") (fun p hp => by cases hp) ?_
    hb hsetup
  refine meets_of_runOn ?_ fun _ _ _ _ _ => trivial
  intro w w' phases _ hrun _
  have hnames : Meets (Of (Since [])) (T.buildHelpers T.config.host (stub T.config))
      (fun phases w => (∀ p ∈ phases, p.name ≠ "link") ∧ Of (Since []) w) fun _ _ => True :=
    Toolchain.meets_buildHelpers_names _
  exact (hnames.of_ok List.nil_prefix hrun).1

/-- When the stages of a run are over, each result goes by the link command of its target. -/
theorem meets_forward_link (tools : Tools) (hhost : b₀.host.phases = []) (htargets : b₀.receipt.targets = []) :
    Meets (fun b => b = b₀) (forward (.ofConfig c tools))
      (fun _ b => AllGoByRun (.ofConfig c tools) b₀.patching.work.invocations b.receipt.targets
        c.targets b.patching.work.invocations) fun _ _ => True := by
  let inv := b₀.patching.work.invocations
  have hsetup : Keeps (BuildState.Of (Since inv) fun _ => True) (stages (setup (.ofConfig c tools))) :=
    since_setup
  refine meets_forward_results (fun results s => AllGoByRun (.ofConfig c tools) inv results
    c.targets s.work.invocations)
    (fun b => Of (Since inv) b.patching.work ∧ ∀ p ∈ b.host.phases, p.name ≠ "link") htargets ?_ ?_
  · refine meets_of_runOn ?_ fun _ _ _ _ _ => trivial
    rintro _ b ok rfl hrun
    have hsince := hsetup _ ⟨List.prefix_refl _, trivial⟩
    rw [hrun] at hsince
    cases ok with
    | false => exact fun r hr => by cases hr
    | true => exact ⟨hsince.1, names_of_setup hhost hrun⟩
  · rintro b ⟨hsince, hnames⟩
    have hbuild : Meets (Of (Since inv)) (buildAll (.ofConfig c tools) b.host c.targets)
        (fun results w => AllGoByRun (.ofConfig c tools) inv results c.targets w.invocations)
        fun _ _ => True := meets_buildAll_link hnames c.targets
    refine hbuild.weaken ?_ (fun _ _ h => h) fun _ _ h => h
    rintro _ rfl
    exact hsince

end Build

/-- **A success was linked in this run.** Whatever the files are when a run begins and whatever its tools
do, a target that is told to be a success was linked by a command of this run that exited with zero, and
when it had, a file stood at the application's path. If there is none after a link command that exited
with zero, the target is told to have failed, and why. So where no file stood there when the command was
started, the command made it. -/
theorem success_is_linked {now : String} {write : Bool} {w w' : Workspace} {receipt : Receipt}
    (hrun : (Build.run (.ofConfig c tools) now write).runOn w = (.ok receipt, w')) :
    ∀ r ∈ receipt.targets, ∃ t ∈ c.targets, r.IsOf t ∧
      (r.status = .success → TargetBuild.LinkPassed r) ∧
      (TargetBuild.LinkPassed r → ∃ fs fs',
        TargetBuild.LinkedIn (.ofConfig c tools) t w.invocations w'.invocations fs fs' ∧
          (r.status = .success → fs'.isFile (c.applicationPath t) = .ok true) ∧
          (fs'.isFile (c.applicationPath t) = .ok false → r.status = .failed ∧
            r.errorMessage =
              some s!"Linker reported success but {(c.applicationPath t).name} is missing")) := by
  obtain ⟨b, hb, rfl, -⟩ := Build.start_ok c now w
  rw [Build.runOn_run (t := .ofConfig c tools) hb] at hrun
  rcases hexecute : (Build.execute (.ofConfig c tools) now write).runOn b with ⟨o, b'⟩
  rw [hexecute] at hrun
  obtain ⟨rfl, rfl⟩ := Prod.mk.inj hrun
  have hforward := Build.meets_forward_link (c := c) tools (Build.host_of_start hb)
    (Build.receipt_of_start hb).2
  let I (results : List TargetResult) (inv : List Invocation) : Prop :=
    TargetBuild.AllGoByRun (.ofConfig c tools) b.patching.work.invocations results c.targets inv
  have hall : I receipt.targets b'.patching.work.invocations := by
    have hkeeps : ∀ {σ : Type} {K : σ → Prop} {α : Type} {task : Task σ α}, Keeps K task →
        Meets K task (fun _ => K) fun _ _ => True := fun h => h.meets fun _ _ _ => trivial
    refine (Build.meets_execute_results (fun results s => I results s.work.invocations)
      (fun results s => I results s.work.invocations) (fun results w => I results w.invocations)
      hforward ?_ ?_ ?_ ?_).of_ok rfl hexecute
    · exact fun results => hkeeps fun s hs => Build.silent_cleanup (G := I results) c s.work hs
    · intro results
      exact (hkeeps (Build.silent_restore (G := I results))).weaken (fun _ hs => ⟨hs, trivial⟩)
        (fun _ _ hs => hs.1) fun _ _ h => h
    · exact fun results r => hkeeps
        (Build.keeps_summary (I := Of fun _ inv => I results inv) keeps_report r)
    · exact fun _ results r => hkeeps (Build.keeps_writeReceipt_of
        (I := Of fun _ inv => I results inv) keeps_report fun w hw => hw)
  intro r hr
  obtain ⟨t, ht, hnames, hgoes⟩ := hall r hr
  exact ⟨t, ht, hnames, hgoes.passed, hgoes.linked⟩

theorem success_is_linked_ready :
    ∃ receipt w' r, (Build.run (.ofConfig .ready Config.readyTools) "now" false).runOn
        (.ofFiles (Config.filesAt ["app"])) = (.ok receipt, w') ∧ receipt.targets = [r] ∧
      r.status = .success ∧ ∃ fs fs',
        TargetBuild.LinkedIn (.ofConfig .ready Config.readyTools) .linux64 [] w'.invocations fs fs' ∧
          fs'.isFile (Config.ready.applicationPath .linux64) = .ok true := by
  obtain ⟨receipt, w', r, hrun, htargets, hsuccess⟩ := Config.exists_success_ready
  obtain ⟨t, ht, -, hpassed, hlinked⟩ := success_is_linked hrun r (by rw [htargets]; exact List.mem_cons_self)
  obtain rfl : t = .linux64 := List.mem_singleton.1 ht
  obtain ⟨fs, fs', hin, hfile, -⟩ := hlinked (hpassed hsuccess)
  exact ⟨receipt, w', r, hrun, htargets, hsuccess, fs, fs', hin, hfile hsuccess⟩

namespace Config

/-- The files of the small project, with one that an earlier run left where the application goes. -/
def staleFiles : FileSystem :=
  ((filesAt ["app"]).put ["p", "dist"] .directory).put ["p", "dist", "a_linux64"] (.file [65, 66] false)

/-- That file is taken for the application, though no tool of the run writes anything. -/
theorem leftover_is_success :
    ∃ receipt w' r, (Build.run (.ofConfig .ready .idle) "now" false).runOn (.ofFiles staleFiles) =
        (.ok receipt, w') ∧ receipt.targets = [r] ∧ r.status = .success ∧
      w'.files.content (ready.applicationPath .linux64) = .ok [65, 66] :=
  exists_run_ready (fun r fs => r.status = .success ∧
    fs.content (ready.applicationPath .linux64) = .ok [65, 66]) (by decide +kernel)

end Config

end CrossBuild
