import CrossBuild.Proofs.FileSystem.Unlinked
import CrossBuild.Proofs.Run.Stages

/-!
# What a receipt says of its run

The setup of a run is a list of stages, taken up to the first that fails. From what one stage notes
follows what the setup notes, and from that what the receipt of a whole run looks like. Building a
target always ends with a result for it.
-/

namespace CrossBuild

open Workspace CrossBuild.Task

variable {α : Type} {t : Toolchain} {c : Config} {tools : Tools}

/-! ## The result of a target -/

/-- The result is one for the target. -/
def TargetResult.IsOf (r : TargetResult) (target : Target) : Prop :=
  r.target = target.id ∧ r.family = target.family.word

namespace TargetBuild

variable {target : Target}

/-- The result so far is one for the target. -/
def Names (target : Target) (s : TargetState) : Prop :=
  s.result.IsOf target

theorem names_onWork (task : Task Workspace α) : Keeps (Names target) (TargetState.onWork task) :=
  fun _ hs => hs

theorem names_record {f : TargetResult → TargetResult}
    (hf : ∀ r, (f r).target = r.target ∧ (f r).family = r.family) :
    Keeps (Names target) (TargetState.record f) := by
  intro s hs
  obtain ⟨htarget, hfamily⟩ := hf s.result
  exact ⟨htarget.trans hs.1, hfamily.trans hs.2⟩

theorem names_addPhases (phases : List Phase) :
    Keeps (Names target) (TargetState.addPhases phases) :=
  names_record fun _ => ⟨rfl, rfl⟩

theorem names_linkStep : Keeps (Names target) (linkStep t target) := by
  unfold linkStep
  refine (names_onWork _).bind fun link => (names_addPhases _).bind fun _ => ?_
  refine Keeps.ite ((names_onWork _).bind fun isFile => Keeps.ite ?_ ?_) (keeps_pure _)
  · exact (names_onWork _).bind fun artifact => names_record fun _ => ⟨rfl, rfl⟩
  · exact names_record fun _ => ⟨rfl, rfl⟩

theorem names_steps (host : HostTools) : Keeps (Names target) (steps t host target) := by
  unfold steps
  refine (names_onWork _).bind fun resolved => ?_
  refine Keeps.bind (names_record fun _ => ⟨rfl, rfl⟩) fun _ => (names_addPhases _).bind fun _ => ?_
  refine (names_onWork _).bind fun helpers => (names_addPhases _).bind fun _ => ?_
  refine Keeps.ite (names_addPhases _) ((names_onWork _).bind fun _ => ?_)
  refine (names_onWork _).bind fun entry => (names_onWork _).bind fun precompile => ?_
  exact (names_addPhases _).bind fun _ => Keeps.ite (names_addPhases _) names_linkStep

/-- A task that only reports does not fail. -/
theorem succeeds_report (level : LogLevel) (message : String) :
    Succeeds (fun _ => True) (report level message) := fun _ _ => trivial

theorem meets_failureReport {r : TargetResult} (hr : r.IsOf target) :
    Meets (fun _ => True) (failureReport r) (fun r _ => r.IsOf target) fun _ _ => False := by
  unfold failureReport
  rcases r.failedPhase? with _ | p
  · exact Meets.bind (succeeds_report _ _) fun _ => Meets.pure fun _ _ => hr
  · refine Meets.bind (succeeds_report _ _) fun _ => ?_
    exact Meets.when (fun _ => succeeds_report _ _) (fun _ _ hs => hs) (Meets.pure fun _ _ => hr)

/-- **Building a target** ends with a result for it, whatever fails on the way. -/
theorem meets_build (host : HostTools) (target : Target) :
    Meets (fun _ => True) (build t host target) (fun r _ => r.IsOf target) fun _ _ => False := by
  unfold build
  refine Meets.bind (succeeds_report _ _) fun _ => ?_
  refine Meets.bind (M := fun o _ => o.2.IsOf target ∧ True) ?_ fun (outcome, r) =>
    Meets.assuming fun hr => ?_
  · exact fun w _ => ⟨names_steps host ⟨w, _⟩ ⟨rfl, rfl⟩, trivial⟩
  rcases outcome with f | u
  · exact Meets.bind (succeeds_report _ _) fun _ => Meets.pure fun _ _ => hr
  · dsimp only
    split
    · exact Meets.bind (succeeds_report _ _) fun _ => Meets.pure fun _ _ => hr
    · exact meets_failureReport hr

/-- There is one result for each target, in the order of the targets. -/
theorem meets_buildAll (host : HostTools) (targets : List Target) :
    Meets (fun _ => True) (buildAll t host targets)
      (fun results _ => List.Forall₂ TargetResult.IsOf results targets) fun _ _ => False := by
  unfold buildAll
  induction targets with
  | nil => exact Meets.pure fun _ _ => .nil
  | cons target targets ih =>
    rw [List.mapM_cons]
    refine Meets.bind (M := fun r _ => r.IsOf target ∧ True) ?_ fun r => Meets.assuming fun hr => ?_
    · exact (meets_build host target).weaken (fun _ hs => hs) (fun _ _ hr => ⟨hr, trivial⟩)
        fun _ _ hs => hs
    · refine Meets.bind ih fun results => ?_
      exact Meets.pure fun _ hresults => .cons hr hresults

end TargetBuild

/-! ## The setup as a list of stages -/

/-- The note of a stage that succeeded. -/
def StageResult.passed (s : Stage) : StageResult := { stage := s }

/-- The note of a stage that failed. -/
def StageResult.stopped (s : Stage) (reason : String) : StageResult :=
  { stage := s, ok := false, detail := some reason }

/-- What a setup may note of its stages: that all of them succeeded, or that those up to some stage
succeeded and this one failed. -/
inductive Noted : List Stage → List StageResult → Bool → Prop
  | none : Noted [] [] true
  | passed {s : Stage} {l : List Stage} {notes : List StageResult} {ok : Bool}
      (h : Noted l notes ok) : Noted (s :: l) (.passed s :: notes) ok
  | stopped {s : Stage} {l : List Stage} (reason : String) : Noted (s :: l) [.stopped s reason] false

namespace Noted

variable {l : List Stage} {notes : List StageResult}

theorem eq_passed (h : Noted l notes true) : notes = l.map .passed := by
  generalize hok : true = ok at h
  induction h with
  | none => rfl
  | passed _ ih => rw [ih hok, List.map_cons]
  | stopped reason => cases hok

theorem exists_stopped (h : Noted l notes false) :
    ∃ before s reason, before ++ [s] <+: l ∧
      notes = before.map StageResult.passed ++ [.stopped s reason] := by
  generalize hok : false = ok at h
  induction h with
  | none => cases hok
  | @passed s l notes ok h ih =>
    obtain ⟨before, stopped, reason, hprefix, rfl⟩ := ih hok
    exact ⟨s :: before, stopped, reason, List.cons_prefix_cons.2 ⟨rfl, hprefix⟩, rfl⟩
  | @stopped s l reason =>
    exact ⟨[], s, reason, List.cons_prefix_cons.2 ⟨rfl, List.nil_prefix⟩, rfl⟩

end Noted

namespace Build

open BuildState

/-- The setup of a run: its stages in order, each with its task. -/
def setup (t : Toolchain) : List (Stage × Task BuildState Unit) :=
  [(.clean, onWork (clean t.config)), (.patch, onPatching (patch t.config)),
    (.hostTools, prepareHost t)]

/-- Takes stages one after the other, up to the first that fails. Tells whether all succeeded. -/
def stages : List (Stage × Task BuildState Unit) → Task BuildState Bool
  | [] => return true
  | (s, task) :: rest => do
    if ← stage s task then stages rest else return false

/-- Builds the targets and notes what became of them. -/
def finish (t : Toolchain) : Task BuildState Unit := do
  let results ← buildTargets t
  record fun r => { r with targets := results }
  done .targets

theorem forward_eq (t : Toolchain) :
    forward t = do if ← stages (setup t) then finish t else return () := by
  funext s
  unfold forward setup
  change Task.runOn _ s = Task.runOn _ s
  simp only [stages, runOn_bind]
  rcases (stage .clean (onWork (clean t.config))).runOn s with ⟨_ | _ | _, s₁⟩ <;> try rfl
  simp only [Bool.not_true, Bool.false_eq_true, if_false, if_true, runOn_bind]
  rcases (stage .patch (onPatching (patch t.config))).runOn s₁ with ⟨_ | _ | _, s₂⟩ <;> try rfl
  simp only [Bool.not_true, Bool.false_eq_true, if_false, if_true, runOn_bind]
  rcases (stage .hostTools (prepareHost t)).runOn s₂ with ⟨_ | _ | _, s₃⟩ <;> rfl

/-! ## What the stages note -/

variable {r : Receipt}

/-- The receipt is the given one with more notes of stages. -/
def Adds (r : Receipt) (notes : List StageResult) (s : BuildState) : Prop :=
  s.receipt = { r with stages := r.stages ++ notes }

theorem adds_nil {s : BuildState} (h : s.receipt = r) : Adds r [] s := by
  unfold Adds
  rw [h, List.append_nil]

theorem meets_stage_adds {task : Task BuildState Unit} (s : Stage)
    (htask : Keeps (fun b => b.receipt = r) task) :
    Meets (fun b => b.receipt = r) (stage s task)
      (fun ok b => ∃ note, (if ok then note = .passed s else ∃ reason, note = .stopped s reason) ∧
        Adds r [note] b) fun _ _ => True := by
  unfold stage
  refine Meets.bind (M := fun _ b => b.receipt = r) (htask.attempt.meets fun _ _ _ => trivial) ?_
  rintro (f | u)
  · dsimp only
    split
    · refine Meets.bind (M := fun _ (b : BuildState) => b.receipt = r) (fun b hb => hb) fun _ => ?_
      rintro b rfl
      exact ⟨_, ⟨f.message, rfl⟩, rfl⟩
    · exact Meets.throw fun _ _ => trivial
  · rintro b rfl
    exact ⟨_, rfl, rfl⟩

/-- **A setup** notes its stages, up to the first that fails. -/
theorem meets_stages {l : List (Stage × Task BuildState Unit)}
    (hl : ∀ e ∈ l, ∀ r, Keeps (fun b => b.receipt = r) e.2) :
    ∀ r, Meets (fun b => b.receipt = r) (stages l)
      (fun ok b => ∃ notes, Noted (l.map (·.1)) notes ok ∧ Adds r notes b) fun _ _ => True := by
  induction l with
  | nil => exact fun r => Meets.pure fun b hb => ⟨[], .none, adds_nil hb⟩
  | cons e l ih =>
    obtain ⟨s, task⟩ := e
    intro r
    refine Meets.bind (meets_stage_adds s (hl _ List.mem_cons_self r)) fun ok => ?_
    cases ok with
    | false =>
      refine Meets.pure ?_
      rintro b ⟨_, ⟨reason, rfl⟩, hb⟩
      exact ⟨_, .stopped reason, hb⟩
    | true =>
      rintro b ⟨_, rfl, hb⟩
      refine (ih (fun e he => hl e (List.mem_cons_of_mem _ he)) b.receipt).weaken
        (fun _ hs => hs) ?_ (fun _ _ hs => hs) b rfl
      rintro ok b' ⟨notes, hnotes, hb'⟩
      refine ⟨.passed s :: notes, .passed hnotes, ?_⟩
      unfold Adds at hb hb' ⊢
      rw [hb', hb]
      simp

theorem keeps_receipt_setup (t : Toolchain) :
    ∀ e ∈ setup t, ∀ r, Keeps (fun b => b.receipt = r) e.2 := by
  have hpatching : ∀ {α : Type} (task : Task PatchState α) r,
      Keeps (fun b : BuildState => b.receipt = r) (onPatching task) := fun task r b hb => hb
  intro e he r
  simp only [setup, List.mem_cons, List.not_mem_nil, or_false] at he
  obtain rfl | rfl | rfl := he
  · exact hpatching _ r
  · exact hpatching _ r
  · unfold prepareHost
    dsimp only
    rcases t.config.hostPrecompiler with _ | p
    · refine (hpatching _ r).bind fun _ => (hpatching _ r).bind fun phases => ?_
      split
      · exact keeps_throw _
      · exact keeps_update fun _ hb => hb
    · refine (hpatching _ r).bind fun isFile => Keeps.when (keeps_throw _) ?_
      exact Keeps.bind (keeps_update fun _ hb => hb) fun _ => hpatching _ r

theorem meets_finish_adds (t : Toolchain) (r : Receipt) :
    Meets (fun b => b.receipt = r) (finish t)
      (fun _ b => ∃ results, List.Forall₂ TargetResult.IsOf results t.config.targets ∧
        b.receipt = { r with targets := results, stages := r.stages ++ [.passed .targets] })
      fun _ _ => True := by
  have hwork : ∀ host, Meets (fun b : BuildState => b.receipt = r)
      (onWork (TargetBuild.buildAll t host t.config.targets))
      (fun results b => List.Forall₂ TargetResult.IsOf results t.config.targets ∧ b.receipt = r)
      fun _ _ => True := by
    intro host
    have hresults := BuildState.meets_onPatching (PatchState.meets_onWork (L := fun _ => True)
      (TargetBuild.meets_buildAll (t := t) host t.config.targets))
    refine (hresults.keeping (I := fun b : BuildState => b.receipt = r) fun _ hb => hb).weaken ?_ ?_ ?_
    · exact fun b hb => ⟨⟨trivial, trivial⟩, hb⟩
    · exact fun _ b hb => ⟨hb.1.1, hb.2⟩
    · exact fun _ _ _ => trivial
  unfold finish buildTargets
  refine Meets.bind (Meets.bind (M := fun _ b => b.receipt = r) ?_ fun host => hwork host) ?_
  · exact (keeps_ask _).meets fun _ _ _ => trivial
  · rintro results b ⟨hresults, rfl⟩
    exact ⟨results, hresults, rfl⟩

/-! ## What a run notes -/

variable {b₀ : BuildState}

/-- What the receipt holds when the run turns to its teardown. -/
def Forwarded (t : Toolchain) (b₀ : BuildState) (notes : List StageResult)
    (results : List TargetResult) : Prop :=
  (notes = [.clean, .patch, .hostTools, .targets].map .passed ∧
      List.Forall₂ TargetResult.IsOf results t.config.targets) ∨
    (((stages (setup t)).runOn b₀).1 = .ok false ∧
      (∃ before s reason, before ++ [s] <+: [.clean, .patch, .hostTools] ∧
        notes = before.map StageResult.passed ++ [.stopped s reason]) ∧
      results = [])

theorem meets_forward_notes (hstages : b₀.receipt.stages = []) (htargets : b₀.receipt.targets = []) :
    Meets (fun b => b = b₀) (forward t)
      (fun _ b => Forwarded t b₀ b.receipt.stages b.receipt.targets) fun _ _ => True := by
  have hsetup : Meets (fun b => b = b₀) (stages (setup t))
      (fun ok b => (((stages (setup t)).runOn b₀).1 = .ok ok ∧
        ∃ notes, Noted [.clean, .patch, .hostTools] notes ok) ∧
        ∃ notes, Noted [.clean, .patch, .hostTools] notes ok ∧ Adds b₀.receipt notes b)
      fun _ _ => True := by
    refine meets_of_runOn ?_ fun _ _ _ _ _ => trivial
    rintro _ b ok rfl hrun
    obtain ⟨notes, hnotes, hb⟩ := (meets_stages (keeps_receipt_setup t) _).of_ok rfl hrun
    exact ⟨⟨by rw [hrun], notes, hnotes⟩, notes, hnotes, hb⟩
  rw [forward_eq]
  refine Meets.bind hsetup fun ok => Meets.assuming ?_
  rintro ⟨hok, -⟩ b ⟨notes, hnotes, hb⟩
  unfold Adds at hb
  rw [hstages, List.nil_append] at hb
  cases ok with
  | false =>
    refine .inr ⟨hok, ?_, ?_⟩
    · obtain ⟨before, s, reason, hprefix, rfl⟩ := hnotes.exists_stopped
      exact ⟨before, s, reason, hprefix, by rw [hb]⟩
    · rw [hb]
      exact htargets
  | true =>
    refine (meets_finish_adds t b.receipt).weaken (fun _ hs => hs) ?_ (fun _ _ hs => hs) b rfl
    rintro - b' ⟨results, hresults, hb'⟩
    refine .inl ⟨?_, ?_⟩
    · rw [hb', hb, hnotes.eq_passed]
      rfl
    · rw [hb']
      exact hresults

theorem meets_teardown_notes (c : Config) (notes : List StageResult) (results : List TargetResult) :
    Meets (fun b => b.receipt.stages = notes ∧ b.receipt.targets = results) (teardown c)
      (fun _ b => b.receipt.stages = notes ++ [.tempCleanup, .restore].map .passed ∧
        b.receipt.targets = results) fun _ _ => True := by
  have hpatching : ∀ {α : Type} {stages} (task : Task PatchState α),
      Keeps (fun b : BuildState => b.receipt.stages = stages ∧ b.receipt.targets = results)
        (onPatching task) := fun task b hb => hb
  have hdone : ∀ stages s, Meets
      (fun b : BuildState => b.receipt.stages = stages ∧ b.receipt.targets = results) (done s)
      (fun _ b => b.receipt.stages = stages ++ [.passed s] ∧ b.receipt.targets = results)
      fun _ _ => True := by
    rintro stages s b ⟨rfl, hb⟩
    exact ⟨rfl, hb⟩
  have hrestore : ∀ stages, Keeps
      (fun b : BuildState => b.receipt.stages = stages ∧ b.receipt.targets = results) restore := by
    intro stages
    unfold restore
    refine (keeps_ask _).bind fun markers => Keeps.bind (fun _ hb => hb) fun _ => ?_
    exact (hpatching _).bind fun restored => fun _ hb => hb
  unfold teardown
  refine Meets.bind ((hpatching _).meets fun _ _ _ => trivial) fun _ => ?_
  refine Meets.bind (hdone notes _) fun _ => ?_
  refine Meets.bind ((hrestore _).meets fun _ _ _ => trivial) fun _ => ?_
  refine (hdone _ _).weaken (fun _ hb => hb) (fun _ b hb => ?_) fun _ _ hb => hb
  rwa [List.append_assoc] at hb

/-- What the receipt holds when it is given. -/
def Told (t : Toolchain) (b₀ : BuildState) (r : Receipt) : Prop :=
  r.status = r.computeStatus ∧ ∃ notes, r.stages = notes ++ [.tempCleanup, .restore].map .passed ∧
    Forwarded t b₀ notes r.targets

theorem meets_execute_told {now : String} {write : Bool} (hstages : b₀.receipt.stages = [])
    (htargets : b₀.receipt.targets = []) :
    Meets (fun b => b = b₀) (execute t now write) (fun r _ => Told t b₀ r) fun _ _ => True := by
  have hbuild : Meets (fun b => b = b₀) (Task.thenAlways (forward t) (teardown t.config))
      (fun _ b => ∃ notes, b.receipt.stages = notes ++ [.tempCleanup, .restore].map .passed ∧
        Forwarded t b₀ notes b.receipt.targets) fun _ _ => True := by
    refine meets_of_runOn ?_ fun _ _ _ _ _ => trivial
    intro s b _ hs hrun
    rw [runOn_thenAlways] at hrun
    rcases hforward : (forward t).runOn s with ⟨r, b₁⟩
    rw [hforward] at hrun
    rcases hteardown : (teardown t.config).runOn b₁ with ⟨r', b₂⟩
    rw [hteardown] at hrun
    rcases r' with f | u
    · cases hrun
    obtain ⟨rfl, rfl⟩ := Prod.mk.inj hrun
    have hnotes := (meets_forward_notes hstages htargets).of_ok hs hforward
    obtain ⟨hlast, hresults⟩ := (meets_teardown_notes t.config _ _).of_ok ⟨rfl, rfl⟩ hteardown
    exact ⟨_, hlast, hresults ▸ hnotes⟩
  have hkeeps : ∀ {α : Type} (task : Task BuildState α) (P : Prop),
      Meets (fun _ => P) task (fun _ _ => P) fun _ _ => True := fun task P =>
    Keeps.meets (I := fun _ => P) (fun _ hP => hP) fun _ _ _ => trivial
  unfold execute
  refine Meets.bind hbuild fun _ => ?_
  refine Meets.bind (M := fun _ (b : BuildState) => Told t b₀ b.receipt) ?_ fun _ => ?_
  · exact fun b hb => ⟨rfl, hb⟩
  refine Meets.bind (M := fun r _ => Told t b₀ r) (fun b hb => hb) fun r => ?_
  refine Meets.bind (hkeeps _ _) fun _ => ?_
  exact Meets.when (fun _ => hkeeps _ _) (fun _ _ hr => hr) (Meets.pure fun _ hr => hr)

theorem receipt_of_start {now : String} {w : Workspace} (h : start c now w = .ok b₀) :
    b₀.receipt.stages = [] ∧ b₀.receipt.targets = [] := by
  obtain ⟨ledger, -, h⟩ := of_bind_eq_ok h
  obtain rfl := Except.ok.inj h
  exact ⟨rfl, rfl⟩

theorem runOn_run {t : Toolchain} {now : String} {write : Bool} {w : Workspace}
    (h : start t.config now w = .ok b₀) :
    (run t now write).runOn w = (((execute t now write).runOn b₀).1,
      ((execute t now write).runOn b₀).2.patching.work) := by
  unfold run Task.runOn
  dsimp only
  rw [h]
  rfl

/-! ## Runs that differ in their targets -/

/-- Where the setup fails, nothing is asked of the targets. -/
theorem execute_eq_of_setup (targets : List Target) {now : String} {write : Bool}
    (hsetup : ((stages (setup t)).runOn b₀).1 ≠ .ok true) :
    (execute { t with config := { t.config with targets } } now write).runOn b₀ =
      (execute t now write).runOn b₀ := by
  have hforward : (forward { t with config := { t.config with targets } }).runOn b₀ =
      (forward t).runOn b₀ := by
    rw [forward_eq, forward_eq, runOn_bind, runOn_bind]
    have hsame : setup { t with config := { t.config with targets } } = setup t := rfl
    rw [hsame]
    rcases hrun : (stages (setup t)).runOn b₀ with ⟨f | ok, b⟩
    · rfl
    · cases ok with
      | false => rfl
      | true => exact absurd (congrArg Prod.fst hrun) hsetup
  unfold execute
  rw [runOn_bind, runOn_bind, runOn_thenAlways, runOn_thenAlways, hforward]
  rfl

theorem run_eq_of_setup (targets : List Target) {now : String} {write : Bool} {w : Workspace}
    (hsetup : ∀ b, start c now w = .ok b →
      ((stages (setup (.ofConfig c tools))).runOn b).1 ≠ .ok true) :
    (run (.ofConfig { c with targets } tools) now write).runOn w =
      (run (.ofConfig c tools) now write).runOn w := by
  obtain ⟨b, hb, -⟩ := start_ok c now w
  have hb' : start { c with targets } now w = .ok b := hb
  have hsame : (execute (.ofConfig { c with targets } tools) now write).runOn b =
      (execute (.ofConfig c tools) now write).runOn b :=
    execute_eq_of_setup (t := .ofConfig c tools) targets (hsetup b hb)
  rw [runOn_run (t := .ofConfig c tools) hb,
    runOn_run (t := .ofConfig { c with targets } tools) hb', hsame]

end Build

/-! ## Configurations and their targets -/

namespace Target

/-- The targets that a list of ids stands for, in the order of the table. -/
def chosen (ids : List String) : List Target :=
  all.filter fun t => ids.isEmpty || ids.contains t.id

theorem select_eq_ok {ids : List String} {targets : List Target} (h : select ids = .ok targets) :
    targets = chosen ids ∧ targets ≠ [] := by
  unfold select at h
  cases ids with
  | nil =>
    obtain rfl := Except.ok.inj h
    exact ⟨by decide, by decide⟩
  | cons id ids =>
    simp only [List.isEmpty_cons, Bool.false_eq_true, if_false] at h
    rcases hids : (id :: ids).mapM ofId with f | found
    · rw [hids] at h
      cases h
    rw [hids] at h
    obtain rfl := Except.ok.inj h
    refine ⟨by simp [chosen], ?_⟩
    -- the first id is that of some target
    rw [List.mapM_cons] at hids
    rcases hfirst : ofId id with f | first
    · rw [hfirst] at hids
      cases hids
    unfold ofId at hfirst
    split at hfirst
    · next t ht =>
      have hmem : t ∈ all := List.mem_of_find?_eq_some ht
      have hid : t.id = id := by simpa using List.find?_some ht
      exact List.ne_nil_of_mem (List.mem_filter.2 ⟨hmem, by simp [hid]⟩)
    · cases hfirst

end Target

theorem Config.targets_of_create {around : Surroundings} {fs : FileSystem} {root : Path}
    {m : Manifest} {s : Settings} {ids : List String} {system machine : Option String}
    (h : create around fs root m s ids system machine = .ok c) :
    c.targets = Target.chosen ids ∧ c.targets ≠ [] := by
  refine Target.select_eq_ok ?_
  unfold create at h
  obtain ⟨root, -, h⟩ := of_bind_eq_ok h
  obtain ⟨host, -, h⟩ := of_bind_eq_ok h
  obtain ⟨entry, -, h⟩ := of_bind_eq_ok h
  obtain ⟨modules, -, h⟩ := of_bind_eq_ok h
  obtain ⟨compiler, -, h⟩ := of_bind_eq_ok h
  obtain ⟨engine, -, h⟩ := of_bind_eq_ok h
  obtain ⟨targets, htargets, h⟩ := of_bind_eq_ok h
  obtain rfl := Except.ok.inj h
  exact htargets

/-! ## The receipt of a run -/

namespace Receipt

variable {r : Receipt}

theorem computeStatus_of_built {l : List Stage} (hstages : r.stages = l.map .passed)
    (htargets : r.targets ≠ []) :
    r.computeStatus =
      if r.targets.all fun t => t.status == .success then .success else .incomplete := by
  unfold computeStatus
  rw [if_neg, if_neg]
  · rwa [List.isEmpty_iff]
  · rw [hstages]
    simp [StageResult.passed]

theorem computeStatus_of_stopped {s : Stage} {reason : String}
    (hs : s.isSetup) (hstages : .stopped s reason ∈ r.stages) : r.computeStatus = .failed := by
  unfold computeStatus
  rw [if_pos]
  rw [List.any_eq_true]
  exact ⟨_, hstages, by simp [StageResult.stopped, hs]⟩

/-- The exit code tells the outcomes of a run that is over apart. -/
theorem exitCode_of_computed (h : r.status = r.computeStatus) :
    (r.exitCode = 0 ↔ r.status = .success) ∧ (r.exitCode = 2 ↔ r.status = .incomplete) ∧
      (r.exitCode = 1 ↔ r.status = .failed) := by
  have hended : r.status ≠ .running := by
    rw [h]
    unfold computeStatus
    split_ifs <;> simp
  unfold exitCode
  generalize r.status = status at hended
  cases status <;> simp at hended ⊢

end Receipt

/-- **A run goes through its stages as documented.** If it gives a receipt, then either all stages
succeeded and there is a result for each chosen target, in the order of the table; or one of the
setup stages failed, and then the targets played no part: with any others the run is the same. In
both cases the teardown follows, and status and exit code tell how it went. -/
theorem run_notes_stages {around : Surroundings} {fs : FileSystem} {root : Path} {m : Manifest}
    {s : Settings} {ids : List String} {system machine : Option String} {now : String} {write : Bool}
    {w w' : Workspace} {r : Receipt}
    (hc : Config.create around fs root m s ids system machine = .ok c)
    (hrun : (Build.run (.ofConfig c tools) now write).runOn w = (.ok r, w')) :
    ((r.stages = [.clean, .patch, .hostTools, .targets, .tempCleanup, .restore].map .passed ∧
        List.Forall₂ TargetResult.IsOf r.targets (Target.chosen ids) ∧
        r.status = if r.targets.all fun t => t.status == .success then .success else .incomplete) ∨
      ((∃ before stage reason, before ++ [stage] <+: [.clean, .patch, .hostTools] ∧
          r.stages = before.map StageResult.passed ++ [.stopped stage reason] ++
            [.tempCleanup, .restore].map .passed) ∧
        r.targets = [] ∧ r.status = .failed ∧
        ∀ targets, (Build.run (.ofConfig { c with targets } tools) now write).runOn w =
          (.ok r, w'))) ∧
      (r.exitCode = 0 ↔ r.status = .success) ∧ (r.exitCode = 2 ↔ r.status = .incomplete) ∧
      (r.exitCode = 1 ↔ r.status = .failed) := by
  obtain ⟨htargets, hsome⟩ := Config.targets_of_create hc
  obtain ⟨b, hb, -⟩ := Build.start_ok c now w
  obtain ⟨hnone, hnone'⟩ := Build.receipt_of_start hb
  rw [Build.runOn_run (t := .ofConfig c tools) hb] at hrun
  rcases hexecute : (Build.execute (.ofConfig c tools) now write).runOn b with ⟨o, b'⟩
  rw [hexecute] at hrun
  obtain ⟨rfl, rfl⟩ := Prod.mk.inj hrun
  obtain ⟨hstatus, notes, hstages, hforwarded⟩ :=
    (Build.meets_execute_told hnone hnone').of_ok rfl hexecute
  refine ⟨?_, Receipt.exitCode_of_computed hstatus⟩
  rcases hforwarded with ⟨rfl, hresults⟩ | ⟨hsetup, ⟨before, stage, reason, hprefix, rfl⟩, hresults⟩
  · left
    have hresults' : List.Forall₂ TargetResult.IsOf r.targets c.targets := hresults
    have hne : r.targets ≠ [] := by
      intro hnil
      rw [hnil] at hresults'
      cases htargets' : c.targets with
      | nil => exact hsome htargets'
      | cons target targets =>
        rw [htargets'] at hresults'
        cases hresults'
    rw [← List.map_append] at hstages
    refine ⟨hstages, htargets ▸ hresults', ?_⟩
    rw [hstatus, Receipt.computeStatus_of_built hstages hne]
  · right
    refine ⟨⟨before, stage, reason, hprefix, hstages⟩, hresults, ?_, fun targets => ?_⟩
    · have hmem : stage ∈ [Stage.clean, .patch, .hostTools] := hprefix.subset (by simp)
      have hsetup : stage.isSetup := by
        simp only [List.mem_cons, List.not_mem_nil, or_false] at hmem
        obtain rfl | rfl | rfl := hmem <;> rfl
      have hnote : StageResult.stopped stage reason ∈ r.stages := by
        rw [hstages]
        simp
      rw [hstatus, Receipt.computeStatus_of_stopped hsetup hnote]
    · rw [Build.run_eq_of_setup targets, Build.runOn_run (t := .ofConfig c tools) hb, hexecute]
      intro b₁ hb₁
      obtain rfl := Except.ok.inj (hb.symm.trans hb₁)
      rw [hsetup]
      simp

namespace Config

theorem unlinked_small : smallFiles.Unlinked := by
  intro l target hnode
  have hne : l ≠ [] := FileSystem.ne_nil_of_node? _ (by rw [hnode]; simp)
  have hnodes : ∀ e ∈ smallFiles.nodes, ∀ target, e.2 ≠ .link target := by
    simp [smallFiles, FileSystem.bareEngine]
  exact hnodes _ (FileSystem.mem_nodes hnode hne) target rfl

/-- What the small project says about itself. -/
def smallManifest : Manifest where
  name := "a"
  input := "app/index.mjs"
  optimized := false
  modules := [("hello", "hello.c")]

/-- The settings under which the small project is built. -/
def smallSettings : Settings where
  toolHome := "/t"
  compiler := some "/zig"
  engine := some "/q"
  starter := none
  hostPrecompiler := none
  compilerVersion := "0.15.2"
  engineVersion := Profile.defaultVersion
  timeout := 600
  jobs := 1

theorem create_small : create ⟨[], [], "Linux", "x86_64", "", ""⟩ smallFiles ⟨.root, ["p"]⟩
    smallManifest smallSettings ["x86_64-linux-gnu"] none none = .ok small := by
  have hresolve : ∀ parts : List String, FileSystem.hasNul ⟨.root, parts⟩ = false →
      (∀ part ∈ parts, part ≠ "." ∧ part ≠ "..") →
      smallFiles.resolve ⟨.root, parts⟩ = .ok ⟨.root, parts⟩ := fun parts hnul hnames =>
    unlinked_small.resolve_of_names rfl hnul hnames
  have hroot := hresolve ["p"] (by decide) (by decide)
  have hentry := hresolve ["p", "app", "index.mjs"] (by decide) (by decide)
  have hentryPath : (⟨.root, ["p"]⟩ : Path) / "app/index.mjs" = ⟨.root, ["p", "app", "index.mjs"]⟩ := by
    decide
  have hsource := hresolve ["p", "hello.c"] (by decide) (by decide)
  have hsourcePath : (⟨.root, ["p"]⟩ : Path) / "hello.c" = ⟨.root, ["p", "hello.c"]⟩ := by
    decide
  have hmodules : smallManifest.registrations smallFiles ⟨.root, ["p"]⟩ = .ok small.modules := by
    unfold Manifest.registrations smallManifest
    simp only [List.mapM_cons, List.mapM_nil, hsourcePath, hsource]
    decide
  have hhost : Target.host "Linux" "x86_64" = .ok .linux64 := by rfl
  unfold create
  have hinput : smallManifest.input = "app/index.mjs" := rfl
  simp only [hroot, hinput, hentryPath, hentry, hmodules, bind, Except.bind, Option.getD]
  rw [hhost]
  rfl

end Config

theorem run_notes_stages_small :
    ∃ r w', (Build.run (.ofConfig .small .failing) "now" true).runOn (.ofFiles Config.smallFiles) =
        (.ok r, w') ∧ r.targets = [] ∧ r.status = .failed ∧
      ∃ before stage reason, before ++ [stage] <+: [Stage.clean, .patch, .hostTools] ∧
        r.stages = before.map StageResult.passed ++ [.stopped stage reason] ++
          [.tempCleanup, .restore].map .passed := by
  have hcode : ((Build.run (.ofConfig .small .failing) "now" true).runOn
      (.ofFiles Config.smallFiles)).1.toOption.map (·.exitCode) = some 1 := by
    decide +kernel
  rcases hrun : (Build.run (.ofConfig .small .failing) "now" true).runOn
    (.ofFiles Config.smallFiles) with ⟨f | r, w'⟩
  · rw [hrun] at hcode
    cases hcode
  · rw [hrun] at hcode
    obtain ⟨houtcome, -, -, hfailed⟩ := run_notes_stages Config.create_small hrun
    have hstatus := hfailed.1 (Option.some.inj hcode)
    refine ⟨r, w', rfl, ?_⟩
    rcases houtcome with ⟨-, -, hbuilt⟩ | ⟨hstages, htargets, -, -⟩
    · rw [hstatus] at hbuilt
      split at hbuilt <;> cases hbuilt
    · exact ⟨htargets, hstatus, hstages⟩

end CrossBuild
