import CrossBuild.Proofs.Run.Lasting
import CrossBuild.Proofs.Run.Project

/-!
# The phases of a target

The tools that are run for a target are orders, carried out one after the other up to the first that
does not succeed. `Took` is what becomes of a list of orders: the phases, those left out included, and
the runs of tools. From it follow the names of the phases, how their statuses succeed one another, and
which tools were run. The steps of a target are two such lists with a look at the files between them.
-/

namespace CrossBuild

open FileSystem Workspace CrossBuild.Task

/-- A task can be followed from each of the states in which it may start. -/
theorem Task.Meets.from_each {σ α : Type} {pre : σ → Prop} {t : Task σ α} {post : α → σ → Prop}
    {failed : Failure → σ → Prop} (h : ∀ s, pre s → Meets (fun s' => s' = s) t post failed) :
    Meets pre t post failed := fun s hs => h s hs s rfl

/-! ## Lists of phases -/

/-- The exit code tells whether the phase succeeded. -/
def Phase.Coded (p : Phase) : Prop :=
  p.exitCode = 0 ↔ p.status = .success

/-- Phases that succeeded, up to one that failed or took too long; after it all are left out. -/
inductive Phase.Stops : List Phase → Prop
  | nil : Stops []
  | passed {p : Phase} {rest : List Phase} (hp : p.status = .success) (hrest : Stops rest) :
      Stops (p :: rest)
  | stopped {p : Phase} {rest : List Phase} (hp : p.status = .failed ∨ p.status = .timeout)
      (hrest : ∀ q ∈ rest, q.status = .skipped) : Stops (p :: rest)

namespace Phase

variable {p : Phase} {l l' : List Phase}

theorem ok_iff : p.ok = true ↔ p.status = .success := beq_iff_eq

theorem Stops.append (h : Stops l) (hl : ∀ p ∈ l, p.ok) (h' : Stops l') : Stops (l ++ l') := by
  induction h with
  | nil => exact h'
  | passed hp _ ih => exact .passed hp (ih fun p hp => hl p (List.mem_cons_of_mem _ hp))
  | stopped hp _ =>
    have := ok_iff.1 (hl _ List.mem_cons_self)
    rw [this] at hp
    rcases hp with hp | hp <;> cases hp

theorem Stops.of_ok (hl : ∀ p ∈ l, p.ok) : Stops l := by
  induction l with
  | nil => exact .nil
  | cons p l ih =>
    rw [List.forall_mem_cons] at hl
    exact .passed (ok_iff.1 hl.1) (ih hl.2)

/-- Where a phase did not succeed, one failed or took too long. -/
theorem Stops.exists_failed (h : Stops l) (hl : ¬ ∀ p ∈ l, p.ok) :
    ∃ p ∈ l, p.status = .failed ∨ p.status = .timeout := by
  induction h with
  | nil => exact absurd (fun p hp => by cases hp) hl
  | @passed p rest hp _ ih =>
    obtain ⟨q, hq, hfailed⟩ := ih fun hrest => hl fun q hq => by
      rcases List.mem_cons.1 hq with rfl | hq
      · exact ok_iff.2 hp
      · exact hrest q hq
    exact ⟨q, List.mem_cons_of_mem _ hq, hfailed⟩
  | stopped hp _ => exact ⟨_, List.mem_cons_self, hp⟩

end Phase

/-! ## Orders -/

/-- A run of a tool that a target needs: the name of its phase, and the command line. -/
structure Order where
  name : String
  arguments : List String

/-- Every run of a tool ends: by itself, at the time limit, or before it begins. -/
def Tools.End (tools : Tools) : Prop :=
  ∀ earlier command fs text, (tools.run earlier command fs).1 ≠ .crashed text

/-- Tools that are content with everything and do nothing. -/
def Tools.idle : Tools where
  run _ _ fs := (.exited 0 "", fs)

theorem Tools.end_idle : idle.End := fun _ _ _ _ h => by cases h

namespace Toolchain

variable {T : Toolchain} {o : Order} {orders orders' : List Order} {p : Phase} {fs : FileSystem}
  {inv inv₁ inv' : List Invocation} {phases phases' : List Phase}

def command (T : Toolchain) (o : Order) : Command :=
  ⟨o.arguments, T.config.root, T.config.timeout⟩

/-- Carried out on some files, an order becomes a phase. -/
def Became (T : Toolchain) (inv : List Invocation) (o : Order) (fs : FileSystem) (p : Phase) : Prop :=
  phaseOf o.name (CommandLine.render o.arguments) T.config.timeout
    (T.tools.run inv (T.command o) fs).1 = .ok p

/-- Orders become phases, and runs of tools that follow the earlier ones. -/
inductive Took (T : Toolchain) :
    List Order → List Invocation → List Phase → List Invocation → Prop
  | nil {inv : List Invocation} : Took T [] inv [] inv
  | passed {o : Order} {orders : List Order} {inv inv' : List Invocation} {fs : FileSystem} {p : Phase}
      {phases : List Phase} (h : T.Became inv o fs p) (hp : p.ok)
      (hrest : Took T orders (inv ++ [⟨T.command o, fs⟩]) phases inv') :
      Took T (o :: orders) inv (p :: phases) inv'
  | stopped {o : Order} {orders : List Order} {inv : List Invocation} {fs : FileSystem} {p : Phase}
      (h : T.Became inv o fs p) (hp : ¬ p.ok) :
      Took T (o :: orders) inv (p :: orders.map fun o => skipped o.name)
        (inv ++ [⟨T.command o, fs⟩])

/-- The phase of an order has its name and its command line, and its exit code is zero if it
succeeded. It is not left out. -/
theorem Became.phase (h : T.Became inv o fs p) :
    p.name = o.name ∧ p.command = CommandLine.render o.arguments ∧ p.Coded ∧
      (p.status = .success ∨ p.status = .failed ∨ p.status = .timeout) := by
  unfold Became phaseOf at h
  split at h
  · next code _ _ =>
    obtain rfl := Except.ok.inj h
    refine ⟨rfl, rfl, ?_, ?_⟩
    · unfold Phase.Coded
      dsimp only
      split <;> simp [*]
    · dsimp only
      split <;> simp
  · obtain rfl := Except.ok.inj h
    exact ⟨rfl, rfl, by simp [Phase.Coded], .inr (.inr rfl)⟩
  · obtain rfl := Except.ok.inj h
    exact ⟨rfl, rfl, by simp [Phase.Coded], .inr (.inl rfl)⟩
  · cases h

theorem Became.failed (h : T.Became inv o fs p) (hp : ¬ p.ok) :
    p.status = .failed ∨ p.status = .timeout := by
  obtain ⟨-, -, -, hstatus⟩ := h.phase
  rcases hstatus with hstatus | hstatus
  · exact absurd (Phase.ok_iff.2 hstatus) hp
  · exact hstatus

namespace Took

theorem names (h : T.Took orders inv phases inv') : phases.map (·.name) = orders.map (·.name) := by
  induction h with
  | nil => rfl
  | passed h _ _ ih => rw [List.map_cons, List.map_cons, ih, h.phase.1]
  | stopped h _ =>
    rw [List.map_cons, List.map_cons, h.phase.1, List.map_map]
    rfl

theorem stops (h : T.Took orders inv phases inv') : Phase.Stops phases := by
  induction h with
  | nil => exact .nil
  | passed _ hp _ ih => exact .passed (Phase.ok_iff.1 hp) ih
  | stopped h hp =>
    refine .stopped (h.failed hp) fun q hq => ?_
    obtain ⟨o, -, rfl⟩ := List.mem_map.1 hq
    rfl

theorem coded (h : T.Took orders inv phases inv') : ∀ p ∈ phases, p.Coded := by
  induction h with
  | nil => exact fun p hp => by cases hp
  | passed h _ _ ih => exact List.forall_mem_cons.2 ⟨h.phase.2.2.1, ih⟩
  | stopped h _ =>
    refine List.forall_mem_cons.2 ⟨h.phase.2.2.1, fun q hq => ?_⟩
    obtain ⟨o, -, rfl⟩ := List.mem_map.1 hq
    simp [Phase.Coded, skipped]

/-- The tools that were run are those of the phases that were not left out, in their order. -/
theorem rendered (h : T.Took orders inv phases inv') :
    ∃ new, inv' = inv ++ new ∧ new.map (fun i => CommandLine.render i.command.arguments) =
      (phases.filter fun p => p.status != .skipped).map (·.command) := by
  induction h with
  | nil => exact ⟨[], by simp, rfl⟩
  | @passed o orders inv inv' fs p phases h hp hrest ih =>
    obtain ⟨new, rfl, hnew⟩ := ih
    refine ⟨⟨T.command o, fs⟩ :: new, by simp, ?_⟩
    have hstatus := Phase.ok_iff.1 hp
    simp [hnew, hstatus, h.phase.2.1, command]
  | @stopped o orders inv fs p h hp =>
    refine ⟨[⟨T.command o, fs⟩], rfl, ?_⟩
    have hstatus : (p.status != .skipped) = true := by
      rcases h.failed hp with hstatus | hstatus <;> rw [hstatus] <;> rfl
    have hrest : ((orders.map fun o => skipped o.name).filter fun p => p.status != .skipped) = [] := by
      rw [List.filter_eq_nil_iff]
      intro q hq
      obtain ⟨o, -, rfl⟩ := List.mem_map.1 hq
      simp [skipped]
    simp [hstatus, hrest, h.phase.2.1, command]

/-- Orders that all succeed can be followed by others. -/
theorem append (h : T.Took orders inv phases inv₁) (hok : ∀ p ∈ phases, p.ok)
    (h' : T.Took orders' inv₁ phases' inv') : T.Took (orders ++ orders') inv (phases ++ phases') inv' := by
  induction h with
  | nil => exact h'
  | passed h hp _ ih => exact .passed h hp (ih (fun q hq => hok q (List.mem_cons_of_mem _ hq)) h')
  | stopped _ hp => exact absurd (hok _ List.mem_cons_self) hp

/-- Once an order did not succeed, those that follow are left out. -/
theorem leaveOut (h : T.Took orders inv phases inv') (hfailed : ¬ ∀ p ∈ phases, p.ok)
    (orders' : List Order) :
    T.Took (orders ++ orders') inv (phases ++ orders'.map fun o => skipped o.name) inv' := by
  induction h with
  | nil => exact absurd (fun p hp => by cases hp) hfailed
  | passed h hp _ ih =>
    refine .passed h hp (ih fun hok => hfailed fun q hq => ?_)
    rcases List.mem_cons.1 hq with rfl | hq
    · exact hp
    · exact hok q hq
  | stopped h hp =>
    rw [List.cons_append, List.cons_append, ← List.map_append]
    exact .stopped h hp

theorem single (h : T.Became inv o fs p) : T.Took [o] inv [p] (inv ++ [⟨T.command o, fs⟩]) := by
  by_cases hp : p.ok
  · exact .passed h hp .nil
  · exact .stopped h hp

end Took

/-! ## Running the tools of a target -/

/-- What a run of a tool leaves in the workspace: one more invocation, and the files as it left them. -/
structure After (T : Toolchain) (inv : List Invocation) (o : Order) (fs : FileSystem) (w : Workspace) :
    Prop where
  invocations : w.invocations = inv ++ [⟨T.command o, fs⟩]
  files : w.files = (T.tools.run inv (T.command o) fs).2

/-- **Running a tool** carries an order out. -/
theorem meets_run (htools : T.tools.End) (name : String) (arguments : List String)
    (inv : List Invocation) :
    Meets (fun w => w.invocations = inv) (T.run name arguments)
      (fun p w => ∃ fs, T.Became inv ⟨name, arguments⟩ fs p ∧ T.After inv ⟨name, arguments⟩ fs w)
      fun _ _ => False := by
  rintro w rfl
  unfold run runIn
  rw [runOn_bind, runOn_runTool]
  dsimp only
  rw [runOn_ofExcept]
  rcases hphase : phaseOf name (CommandLine.render arguments) T.config.timeout
    (T.tools.run w.invocations ⟨arguments, T.config.root, T.config.timeout⟩ w.files).1 with f | p
  · -- a tool that ends becomes a phase
    unfold phaseOf at hphase
    split at hphase
    · cases hphase
    · cases hphase
    · cases hphase
    · next text hcrashed => exact htools _ _ _ text hcrashed
  · exact ⟨w.files, hphase, rfl, rfl⟩

/-- The helper tools that are built for a target. -/
def helperOrders (T : Toolchain) (target : Target) : List Order :=
  let c := T.config
  [⟨"interpreter", T.compileCommand target (c.toolsDirectory / target.interpreter)
      (T.baseSources ++ [TargetBuild.stub c, c.engineFile .interpreter])⟩,
    ⟨"precompiler", T.compileCommand target (c.toolsDirectory / target.precompiler)
      (T.baseSources ++ [c.engineFile .precompiler])⟩]

theorem meets_buildHelpers (htools : T.tools.End) (target : Target) (inv : List Invocation) :
    Meets (fun w => w.invocations = inv) (T.buildHelpers target (TargetBuild.stub T.config))
      (fun phases w => T.Took (T.helperOrders target) inv phases w.invocations) fun _ _ => False := by
  unfold buildHelpers
  refine Meets.bind (meets_run htools _ _ inv) fun interpreter => ?_
  rintro w ⟨fs, hbecame, hafter⟩
  by_cases hok : interpreter.ok
  · rw [if_pos hok]
    refine Meets.bind (meets_run htools _ _ _) (fun precompiler => ?_) w rfl
    refine Meets.pure ?_
    rintro w' ⟨fs', hbecame', hafter'⟩
    rw [hafter.invocations] at hbecame' hafter'
    rw [hafter'.invocations]
    exact .passed hbecame hok (.single hbecame')
  · rw [if_neg hok]
    show T.Took _ inv _ w.invocations
    rw [hafter.invocations]
    exact .stopped hbecame hok

end Toolchain

/-! ## The steps of a target -/

namespace TargetState

variable {α : Type} {r : TargetResult} {pre : Workspace → Prop} {post : α → Workspace → Prop}
  {failed : Failure → Workspace → Prop}

/-- A task on the workspace alone leaves the result as it is. -/
theorem meets_onWork {task : Task Workspace α} (h : Meets pre task post failed) :
    Meets (fun s => s.result = r ∧ pre s.work) (onWork task) (fun a s => s.result = r ∧ post a s.work)
      fun f s => s.result = r ∧ failed f s.work :=
  Meets.onPart h (fun _ hs => hs.2) (fun _ _ _ hs hw => ⟨hs.1, hw⟩) fun _ _ _ hs hw => ⟨hs.1, hw⟩

/-- A task that begins with a result, with its outcome as a value. -/
theorem meets_outcome {I : Workspace → Prop} {task : Task TargetState Unit}
    {post : TargetState → Prop} {failed : Failure → TargetState → Prop}
    (h : Meets (fun s => s.result = r ∧ I s.work) task (fun _ => post) failed) :
    Meets I (fun w => let (outcome, s) := task.runOn ⟨w, r⟩; (.ok (outcome, s.result), s.work))
      (fun o w => match o.1 with
        | .ok () => post ⟨w, o.2⟩
        | .error f => failed f ⟨w, o.2⟩) fun _ _ => False := by
  intro w hw
  have := h ⟨w, r⟩ ⟨rfl, hw⟩
  show match (task.runOn ⟨w, r⟩).1 with
    | .ok () => post ⟨(task.runOn ⟨w, r⟩).2.work, (task.runOn ⟨w, r⟩).2.result⟩
    | .error f => failed f ⟨(task.runOn ⟨w, r⟩).2.work, (task.runOn ⟨w, r⟩).2.result⟩
  rcases hrun : task.runOn ⟨w, r⟩ with ⟨f | u, s⟩ <;> rw [hrun] at this <;> exact this

end TargetState

namespace TargetResult

/-- Nothing was built so far. -/
def Unbuilt (r : TargetResult) : Prop :=
  r.status = .failed ∧ r.artifact = none

/-- What the steps of a target make of its result if none of them raises a failure: a success, with
the application; or a failure of which the message tells, or a phase. -/
def Judged (r : TargetResult) : Prop :=
  (r.status = .success ∧ r.errorMessage = none ∧ r.artifact.isSome ∧ ∀ p ∈ r.phases, p.ok) ∨
    (r.Unbuilt ∧ (r.errorMessage = none → ¬ ∀ p ∈ r.phases, p.ok))

end TargetResult

section
variable {G : List Invocation → Prop}

theorem BuildTree.silent_build (source target : Path) (family : OsFamily) (exclude : List Path) :
    Keeps (Workspace.Of fun _ inv => G inv) (BuildTree.build source target family exclude) := by
  unfold BuildTree.build
  refine (keeps_look _).bind fun isDirectory => Keeps.when (keeps_throw _) ?_
  refine (keeps_look _).bind fun isPresent => Keeps.when (fun _ hw => hw) ?_
  refine (keeps_look _).bind fun skip => (keeps_look _).bind fun r => ?_
  refine Keeps.bind (fun _ hw => hw) fun _ => Keeps.bind ?_ fun _ => keeps_pure r
  exact keeps_forIn fun _ _ _ => (keeps_info _).bind fun _ => keeps_pure _

end

/-! ## Describing an application -/

/-- What is told of an application is so of the file at a path: where it is, its hash and its length. -/
def Artifact.Describes (a : Artifact) (p : Path) (fs : FileSystem) : Prop :=
  a.path = p.toString ∧ ∃ bytes, fs.content p = .ok bytes ∧ a.sha256 = Sha256.hexHash bytes ∧
    a.size = bytes.length

/-- Describing a file changes neither the files nor the runs of tools. -/
theorem Artifact.meets_describe (p : Path) (target : Target) {I : FileSystem → List Invocation → Prop} :
    Meets (Workspace.Of I) (describe p target) (fun a w => a.Describes p w.files ∧ Workspace.Of I w) fun _ => Workspace.Of I := by
  have hinspect : Keeps (Workspace.Of I) (inspect p) := by
    unfold inspect
    refine (keeps_look _).bind fun bytes => ?_
    rcases Format.ofBytes bytes with _ | _ | _ | _
    all_goals try exact keeps_pure _
    rcases Machine.ofHeader? bytes with _ | m
    · exact (keeps_warning _).bind fun _ => keeps_pure _
    · exact keeps_pure _
  have hhash : Meets (Workspace.Of I) (hash p)
      (fun sha256 w => (∃ bytes, w.files.content p = .ok bytes ∧ sha256 = Sha256.hexHash bytes) ∧ Workspace.Of I w)
      fun _ => Workspace.Of I := by
    refine Meets.ask (fun sha256 w hw h => ⟨?_, hw⟩) fun _ _ hw _ => hw
    obtain ⟨bytes, hbytes, h⟩ := of_bind_eq_ok h
    exact ⟨bytes, hbytes, (Except.ok.inj h).symm⟩
  unfold describe
  refine Meets.bind (keeps_iff.1 hinspect) fun (format, machine) => ?_
  refine Meets.when (fun _ => keeps_iff.1 (keeps_warning _)) (fun _ _ hw => hw) ?_
  refine hhash.bind fun sha256 => ?_
  refine Meets.bind (M := fun bytes w => (w.files.content p = .ok bytes ∧
    sha256 = Sha256.hexHash bytes) ∧ Workspace.Of I w) ?_ fun bytes => ?_
  · refine Meets.ask (fun bytes w hw h => ?_) fun _ _ hw _ => hw.2
    obtain ⟨⟨bytes', hbytes', hsha⟩, hw⟩ := hw
    obtain rfl := Except.ok.inj (h.symm.trans hbytes')
    exact ⟨⟨h, hsha⟩, hw⟩
  · have hdescribes : ∀ {a : Artifact}, a.path = p.toString → a.sha256 = sha256 →
        a.size = bytes.length → Meets (fun w => (w.files.content p = .ok bytes ∧
          sha256 = Sha256.hexHash bytes) ∧ Workspace.Of I w) (pure a)
          (fun a w => a.Describes p w.files ∧ Workspace.Of I w) fun _ => Workspace.Of I := by
      intro a hpath hsha hsize
      refine Meets.pure fun w hw => ⟨⟨hpath, bytes, hw.1.1, ?_, hsize⟩, hw.2⟩
      rw [hsha, hw.1.2]
    rcases machine with _ | _ | _
    · exact hdescribes rfl rfl rfl
    · exact hdescribes rfl rfl rfl
    · exact Meets.throw fun _ hw => hw.2

theorem Artifact.silent_describe {G : List Invocation → Prop} (p : Path) (target : Target) :
    Keeps (Workspace.Of fun _ inv => G inv) (Artifact.describe p target) :=
  keeps_iff.2 <| (Artifact.meets_describe p target).weaken (fun _ hw => hw) (fun _ _ hw => hw.2)
    fun _ _ hw => hw

namespace TargetBuild

open TargetState

variable {T : Toolchain} {host : HostTools} {target : Target} {inv inv' : List Invocation}
  {phases : List Phase} {r : TargetResult}

/-- The helper tools of a target were built before, as those of this machine. -/
def Reuses (T : Toolchain) (host : HostTools) (target : Target) : Prop :=
  target.id = T.config.host.id ∧ host.phases ≠ []

instance (T : Toolchain) (host : HostTools) (target : Target) : Decidable (Reuses T host target) :=
  inferInstanceAs (Decidable (_ ∧ _))

/-- The phases that a target takes over from this machine's helper tools. -/
def earlier (T : Toolchain) (host : HostTools) (target : Target) : List Phase :=
  if Reuses T host target then host.phases else []

/-- The helper tools that are built for a target when its turn comes. -/
def ownHelpers (T : Toolchain) (host : HostTools) (target : Target) : List Order :=
  if Reuses T host target then [] else T.helperOrders target

def precompileOrder (T : Toolchain) (host : HostTools) (target : Target) (entry : Path) : Order :=
  ⟨"precompile", T.precompileCommand (precompilerWord host) entry (intermediate T.config target)⟩

def linkOrder (T : Toolchain) (target : Target) : Order :=
  ⟨"link", T.compileCommand target (T.config.applicationPath target)
    (intermediate T.config target :: T.baseSources)⟩

/-- All that is run for a target whose entry script is known. -/
def allOrders (T : Toolchain) (host : HostTools) (target : Target) (entry : Path) : List Order :=
  ownHelpers T host target ++ [precompileOrder T host target entry, linkOrder T target]

/-- The phase of a tree that was made. -/
def resolvedPhase : Phase :=
  { name := "resolve", exitCode := 0, status := .success }

/-- The phases of a target whose tree was made: that of the tree, those taken over from this machine's
helper tools, and those that orders became. -/
def Went (T : Toolchain) (host : HostTools) (target : Target) (orders : List Order)
    (inv : List Invocation) (phases : List Phase) (inv' : List Invocation) : Prop :=
  ∃ taken, phases = resolvedPhase :: (earlier T host target ++ taken) ∧ T.Took orders inv taken inv'

theorem ok_earlier (hhost : ∀ p ∈ host.phases, p.ok) (target : Target) :
    ∀ p ∈ earlier T host target, p.ok := by
  unfold earlier
  split
  · exact hhost
  · exact fun p hp => by cases hp

theorem helpers_eq (T : Toolchain) (host : HostTools) (target : Target) :
    helpers T host target =
      if Reuses T host target then pure host.phases else T.buildHelpers target (stub T.config) := rfl

theorem meets_helpers (htools : T.tools.End) (host : HostTools) (target : Target)
    (inv : List Invocation) :
    Meets (fun w => w.invocations = inv) (helpers T host target)
      (fun phases w => ∃ taken, phases = earlier T host target ++ taken ∧
        T.Took (ownHelpers T host target) inv taken w.invocations) fun _ _ => False := by
  rw [helpers_eq]
  unfold earlier ownHelpers
  by_cases hreuses : Reuses T host target
  · rw [if_pos hreuses, if_pos hreuses, if_pos hreuses]
    refine Meets.pure ?_
    rintro w rfl
    exact ⟨[], by simp, .nil⟩
  · rw [if_neg hreuses, if_neg hreuses, if_neg hreuses]
    refine (Toolchain.meets_buildHelpers htools target inv).weaken (fun _ hw => hw) ?_ fun _ _ h => h
    exact fun phases w htook => ⟨phases, rfl, htook⟩

section

-- so that a step is not carried out on the state where it is only named
attribute [local irreducible] Task.Meets

theorem meets_linkStep (htools : T.tools.End) (target : Target) (inv : List Invocation)
    (hr : r.Unbuilt) (hmessage : r.errorMessage = none) (hok : ∀ p ∈ r.phases, p.ok) :
    Meets (fun s => s.result = r ∧ s.work.invocations = inv) (linkStep T target)
      (fun _ s => (∃ p, T.Took [linkOrder T target] inv [p] s.work.invocations ∧
        s.result.phases = r.phases ++ [p]) ∧ s.result.Judged)
      fun _ s => (∃ p, T.Took [linkOrder T target] inv [p] s.work.invocations ∧
        s.result.phases = r.phases ++ [p]) ∧ s.result.Unbuilt := by
  unfold linkStep
  refine Meets.bind ((meets_onWork (Toolchain.meets_run htools _ _ inv)).weaken (fun _ hs => hs)
    (fun _ _ hs => hs) fun _ _ hs => hs.2.elim) fun link => ?_
  refine Meets.bind (M := fun _ s => s.result = { r with phases := r.phases ++ [link] } ∧
    T.Took [linkOrder T target] inv [link] s.work.invocations) ?_ fun _ => ?_
  · refine Meets.update ?_
    rintro s ⟨rfl, fs, hbecame, hafter⟩
    refine ⟨rfl, ?_⟩
    show T.Took _ inv _ s.work.invocations
    rw [hafter.invocations]
    exact .single hbecame
  have hkeeps : ∀ {α : Type} {G : List Invocation → Prop} {task : Task Workspace α},
      Keeps (Workspace.Of fun _ inv => G inv) task →
      Meets (fun w : Workspace => G w.invocations) task (fun _ w => G w.invocations)
        fun _ w => G w.invocations := fun hkeeps => keeps_iff.1 hkeeps
  have hfailed : ∀ s : TargetState, s.result = { r with phases := r.phases ++ [link] } ∧
      T.Took [linkOrder T target] inv [link] s.work.invocations →
      (∃ p, T.Took [linkOrder T target] inv [p] s.work.invocations ∧
        s.result.phases = r.phases ++ [p]) ∧ s.result.Unbuilt := by
    rintro s ⟨hs, htook⟩
    rw [hs]
    exact ⟨⟨link, htook, rfl⟩, hr⟩
  split
  · next hlink =>
    have hall : ∀ p ∈ r.phases ++ [link], p.ok := by
      intro p hp
      rcases List.mem_append.1 hp with hp | hp
      · exact hok p hp
      · rw [List.mem_singleton.1 hp]
        exact hlink
    refine Meets.bind ((meets_onWork (hkeeps (G := fun inv' => T.Took _ inv _ inv')
      (keeps_look _))).weaken (fun _ hs => hs) (fun _ _ hs => hs) fun _ => hfailed) fun isFile => ?_
    split
    · refine Meets.bind ((meets_onWork (hkeeps (G := fun inv' => T.Took _ inv _ inv')
        (Artifact.silent_describe _ _))).weaken (fun _ hs => hs) (fun _ _ hs => hs)
          fun _ => hfailed) fun artifact => ?_
      refine Meets.update ?_
      rintro s ⟨hs, htook⟩
      rw [hs]
      exact ⟨⟨link, htook, rfl⟩, .inl ⟨rfl, hmessage, rfl, hall⟩⟩
    · refine Meets.update ?_
      rintro s ⟨hs, htook⟩
      rw [hs]
      exact ⟨⟨link, htook, rfl⟩, .inr ⟨hr, fun h => by cases h⟩⟩
  · next hlink =>
    refine Meets.pure fun s hs => ⟨(hfailed s hs).1, .inr ⟨(hfailed s hs).2, fun _ hall => ?_⟩⟩
    rw [hs.1] at hall
    exact hlink (hall link (by simp))

/-! ## How far a target comes -/

/-- The tree of the target could not be made: there is no phase, and no tool was run. -/
def Unresolved (T : Toolchain) (target : Target) (w : Workspace) (r : TargetResult) (w' : Workspace)
    (f : Failure) : Prop :=
  let c := T.config
  r.phases = [] ∧ w'.invocations = w.invocations ∧ ∃ w₁, w₁.files = w.files ∧
    ((BuildTree.build c.entryDirectory (c.buildTree target) target.family c.excluded).runOn w₁).1 =
      .error f

/-- The helper tools are there, and the system cannot be asked for the entry script. -/
def Entryless (T : Toolchain) (host : HostTools) (target : Target) (w : Workspace) (r : TargetResult)
    (w' : Workspace) (f : Failure) : Prop :=
  Went T host target (ownHelpers T host target) w.invocations r.phases w'.invocations ∧
    (∀ p ∈ r.phases, p.ok) ∧
    entryIn w'.files T.config (T.config.buildTree target) target = .error f

/-- The target went through all its phases, the last ones being left out if one did not succeed. -/
def Complete (T : Toolchain) (host : HostTools) (target : Target) (w : Workspace) (r : TargetResult)
    (w' : Workspace) : Prop :=
  ∃ entry, Went T host target (allOrders T host target entry) w.invocations r.phases w'.invocations

/-- What the steps of a target leave behind when they end in a failure. -/
def Broken (T : Toolchain) (host : HostTools) (target : Target) (w : Workspace) (f : Failure)
    (s : TargetState) : Prop :=
  s.result.Unbuilt ∧ (Complete T host target w s.result s.work ∨
    Unresolved T target w s.result s.work f ∨ Entryless T host target w s.result s.work f)

variable {w : Workspace}

/-- From the helper tools on: the entry script is looked up, precompiled and linked. -/
theorem meets_application (htools : T.tools.End) (host : HostTools) (target : Target)
    {taken : List Phase} (hr : r.Unbuilt) (hmessage : r.errorMessage = none)
    (hphases : r.phases = resolvedPhase :: (earlier T host target ++ taken))
    (htook : T.Took (ownHelpers T host target) w.invocations taken inv)
    (hok : ∀ p ∈ r.phases, p.ok) :
    Meets (fun s => s.result = r ∧ s.work.invocations = inv)
      (do
        let entry ← onWork (look fun fs => entryIn fs T.config (T.config.buildTree target) target)
        let precompile ← onWork (T.precompile (precompilerWord host) entry
          (intermediate T.config target))
        addPhases [precompile]
        if !precompile.ok then addPhases [Toolchain.skipped "link"] else linkStep T target)
      (fun _ s => Complete T host target w s.result s.work ∧ s.result.Judged)
      (Broken T host target w) := by
  have htaken : ∀ p ∈ taken, p.ok := fun p hp => hok p (by rw [hphases]; simp [hp])
  have hentry : Meets (fun s => s.result = r ∧ s.work.invocations = inv)
      (onWork (look fun fs => entryIn fs T.config (T.config.buildTree target) target))
      (fun _ s => s.result = r ∧ s.work.invocations = inv) (Broken T host target w) := by
    refine meets_of_runOn ?_ ?_
    · intro s s' entry hs hrun
      obtain ⟨-, rfl⟩ := Prod.mk.inj hrun
      exact hs
    · rintro s s' f ⟨rfl, rfl⟩ hrun
      obtain ⟨hfailed, rfl⟩ := Prod.mk.inj hrun
      exact ⟨hr, .inr (.inr ⟨⟨taken, hphases, htook⟩, hok, hfailed⟩)⟩
  refine hentry.bind fun entry => ?_
  refine Meets.bind ((meets_onWork (Toolchain.meets_run htools _ _ inv)).weaken (fun _ hs => hs)
    (fun _ _ hs => hs) fun _ _ hs => hs.2.elim) fun precompile => ?_
  -- what was taken so far, with the phase of this run at its end
  refine Meets.bind (M := fun _ s => T.Took [precompileOrder T host target entry] inv [precompile]
    s.work.invocations ∧ s.result = { r with phases := r.phases ++ [precompile] }) ?_ fun _ => ?_
  · refine Meets.update ?_
    rintro s ⟨rfl, fs, hbecame, hafter⟩
    refine ⟨?_, rfl⟩
    show T.Took _ inv _ s.work.invocations
    rw [hafter.invocations]
    exact .single hbecame
  have hcomplete : ∀ {l : List Phase} {inv' : List Invocation} {r' : TargetResult} {w' : Workspace},
      T.Took [precompileOrder T host target entry, linkOrder T target] inv l inv' →
      r'.phases = r.phases ++ l → w'.invocations = inv' → Complete T host target w r' w' := by
    intro l inv' r' w' h hr' hw'
    refine ⟨entry, taken ++ l, ?_, ?_⟩
    · rw [hr', hphases]
      simp
    · rw [hw']
      exact htook.append htaken h
  by_cases hprecompile : precompile.ok
  · simp only [hprecompile, Bool.not_true, Bool.false_eq_true, if_false]
    have hall : ∀ p ∈ r.phases ++ [precompile], p.ok := by
      intro p hp
      rcases List.mem_append.1 hp with hp | hp
      · exact hok p hp
      · rw [List.mem_singleton.1 hp]
        exact hprecompile
    refine Meets.from_each fun s ⟨hprecompiled, hs⟩ => ?_
    refine (meets_linkStep (r := { r with phases := r.phases ++ [precompile] }) htools target
      s.work.invocations hr hmessage hall).weaken ?_ ?_ ?_
    · rintro _ rfl
      exact ⟨hs, rfl⟩
    · rintro _ s' ⟨⟨p, hlinked, hp⟩, hjudged⟩
      refine ⟨hcomplete (hprecompiled.append (by simpa using hprecompile) hlinked) ?_ rfl, hjudged⟩
      rw [hp, List.append_assoc]
    · rintro f s' ⟨⟨p, hlinked, hp⟩, hunbuilt⟩
      refine ⟨hunbuilt, .inl (hcomplete (hprecompiled.append (by simpa using hprecompile) hlinked)
        ?_ rfl)⟩
      rw [hp, List.append_assoc]
  · simp only [hprecompile, Bool.not_false, if_true]
    refine Meets.update ?_
    rintro s ⟨hprecompiled, hs⟩
    rw [hs]
    refine ⟨hcomplete (hprecompiled.leaveOut (by simpa using hprecompile) [linkOrder T target]) ?_ rfl,
      .inr ⟨hr, fun _ hall => hprecompile (hall precompile (by simp))⟩⟩
    simp [linkOrder]

theorem meets_steps (htools : T.tools.End) (hhost : ∀ p ∈ host.phases, p.ok) (target : Target)
    (hr : r.Unbuilt) (hmessage : r.errorMessage = none) (hphases : r.phases = []) :
    Meets (fun s => s = ⟨w, r⟩) (steps T host target)
      (fun _ s => Complete T host target w s.result s.work ∧ s.result.Judged)
      (Broken T host target w) := by
  unfold steps
  -- the tree
  have hresolve : Meets (fun s => s = ⟨w, r⟩)
      (onWork (BuildTree.build T.config.entryDirectory (T.config.buildTree target) target.family
        T.config.excluded))
      (fun _ s => s.result = r ∧ s.work.invocations = w.invocations) (Broken T host target w) := by
    have hsilent := BuildTree.silent_build (G := fun inv => inv = w.invocations)
      T.config.entryDirectory (T.config.buildTree target) target.family T.config.excluded w rfl
    refine meets_of_runOn ?_ ?_
    · rintro _ s' made rfl hrun
      obtain ⟨-, rfl⟩ := Prod.mk.inj hrun
      exact ⟨rfl, hsilent⟩
    · rintro _ s' f rfl hrun
      obtain ⟨hfailed, rfl⟩ := Prod.mk.inj hrun
      exact ⟨hr, .inr (.inl ⟨hphases, hsilent, w, rfl, hfailed⟩)⟩
  refine hresolve.bind fun made => ?_
  let r₁ : TargetResult := { r with
    buildTree := some (T.config.buildTree target).toString
    reboundImports := made.rebindings.length }
  refine Meets.bind (M := fun _ s => s.result = r₁ ∧ s.work.invocations = w.invocations) ?_
    fun _ => ?_
  · refine Meets.update ?_
    rintro s ⟨rfl, hinv⟩
    exact ⟨rfl, hinv⟩
  refine Meets.bind (M := fun _ s => s.result = { r₁ with phases := [resolvedPhase] } ∧
    s.work.invocations = w.invocations) ?_ fun _ => ?_
  · refine Meets.update ?_
    rintro s ⟨hs, hinv⟩
    rw [hs]
    exact ⟨by simp [r₁, hphases, resolvedPhase], hinv⟩
  -- the helper tools
  refine Meets.bind ((meets_onWork (meets_helpers htools host target w.invocations)).weaken
    (fun _ hs => hs) (fun _ _ hs => hs) fun _ _ hs => hs.2.elim) fun helpers => ?_
  refine Meets.bind (M := fun _ s => (∃ taken, helpers = earlier T host target ++ taken ∧
      T.Took (ownHelpers T host target) w.invocations taken s.work.invocations) ∧
      s.result = { r₁ with phases := resolvedPhase :: helpers }) ?_ fun _ => ?_
  · refine Meets.update ?_
    rintro s ⟨hs, htook⟩
    rw [hs]
    exact ⟨htook, rfl⟩
  refine Meets.from_each fun s ⟨⟨taken, hhelpers, htook⟩, hs⟩ => ?_
  subst hhelpers
  by_cases hall : ∀ p ∈ taken, p.ok
  · have hhelpers : ∀ p ∈ earlier T host target ++ taken, p.ok := fun p hp =>
      (List.mem_append.1 hp).elim (ok_earlier hhost target p) (hall p)
    rw [List.all_eq_true.2 hhelpers]
    simp only [Bool.not_true, Bool.false_eq_true, if_false]
    refine Meets.bind (M := fun _ s' => s'.result = s.result ∧ s'.work.invocations =
      s.work.invocations) ?_ fun _ => ?_
    · refine Meets.update ?_
      rintro _ rfl
      exact ⟨rfl, rfl⟩
    refine meets_application htools host target ?_ ?_ ?_ htook ?_
    all_goals rw [hs]
    · exact hr
    · exact hmessage
    · exact List.forall_mem_cons.2 ⟨rfl, hhelpers⟩
  · have hhelpers : (earlier T host target ++ taken).all Phase.ok = false := by
      rw [Bool.eq_false_iff, ne_eq, List.all_eq_true]
      exact fun hhelpers => hall fun p hp => hhelpers p (List.mem_append_right _ hp)
    rw [hhelpers]
    simp only [Bool.not_false, if_true]
    refine Meets.update ?_
    rintro _ rfl
    rw [hs]
    refine ⟨⟨T.config.entry, _, ?_, htook.leaveOut hall _⟩, .inr ⟨hr, fun _ hphases => hall fun p hp => ?_⟩⟩
    · simp [precompileOrder, linkOrder]
    · exact hphases p (by simp [hp])

end

/-! ## The result of a target -/

theorem Went.stops (hhost : ∀ p ∈ host.phases, p.ok) {orders : List Order}
    (h : Went T host target orders inv phases inv') : Phase.Stops phases := by
  obtain ⟨taken, rfl, htook⟩ := h
  exact .passed rfl ((Phase.Stops.of_ok (ok_earlier hhost target)).append
    (ok_earlier hhost target) htook.stops)

/-- What the result of a target tells agrees with its phases: it is a success if all of them are and
there is an application, and there is a message if it is none. -/
def Agrees (r : TargetResult) : Prop :=
  (r.status = .success ↔ r.artifact.isSome ∧ ∀ p ∈ r.phases, p.ok) ∧
    (r.errorMessage = none ↔ r.status = .success)

theorem agrees_of_unbuilt (hr : r.Unbuilt) (hmessage : r.errorMessage.isSome) : Agrees r := by
  obtain ⟨hstatus, hartifact⟩ := hr
  unfold Agrees
  rw [hstatus, hartifact]
  constructor
  · simp
  · simp [Option.isSome_iff_ne_none.1 hmessage]

/-- A result that is no success is reported, and then it has a message. -/
theorem meets_failureReport_agrees {I : FileSystem → List Invocation → Prop} (hr : r.Unbuilt)
    (hstops : Phase.Stops r.phases) (hmessage : r.errorMessage = none → ¬ ∀ p ∈ r.phases, p.ok) :
    Meets (Workspace.Of I) (failureReport r)
      (fun r' w => (r'.phases = r.phases ∧ Agrees r') ∧ Workspace.Of I w) fun _ _ => False := by
  have hreport : ∀ message, Meets (Workspace.Of I) (error message) (fun _ => Workspace.Of I)
      fun _ _ => False := fun _ _ hw => hw
  unfold failureReport
  rcases hfailed : r.failedPhase? with _ | p
  · refine (hreport _).bind fun _ => Meets.pure fun w hw => ⟨⟨rfl, agrees_of_unbuilt hr ?_⟩, hw⟩
    -- no phase tells of the failure, so the message does
    rw [Option.isSome_iff_ne_none]
    intro hnone
    obtain ⟨p, hp, hstatus⟩ := hstops.exists_failed (hmessage hnone)
    have := List.find?_eq_none.1 hfailed p hp
    rcases hstatus with hstatus | hstatus <;> simp [hstatus] at this
  · refine (hreport _).bind fun _ => ?_
    refine Meets.when (fun _ => hreport _) (fun _ _ hw => hw) (Meets.pure fun w hw => ?_)
    exact ⟨⟨rfl, agrees_of_unbuilt hr rfl⟩, hw⟩

section

attribute [local irreducible] Task.Meets

/-- **The result of a target** tells of its phases, whatever happens on the way. -/
theorem meets_build_phases (htools : T.tools.End) (hhost : ∀ p ∈ host.phases, p.ok) (target : Target)
    (w : Workspace) :
    Meets (fun w₀ => w₀ = w) (build T host target)
      (fun r w' => (Complete T host target w r w' ∨ ∃ f, r.errorMessage = some f.message ∧
        (Unresolved T target w r w' f ∨ Entryless T host target w r w' f)) ∧ Agrees r)
      fun _ _ => False := by
  unfold build
  refine Meets.bind (M := fun _ w₁ => w₁.files = w.files ∧ w₁.invocations = w.invocations) ?_
    fun _ => ?_
  · refine Meets.update ?_
    rintro _ rfl
    exact ⟨rfl, rfl⟩
  let start : TargetResult := { target := target.id, family := target.family.word }
  have hsteps : Meets (fun s => s.result = start ∧ s.work.files = w.files ∧
      s.work.invocations = w.invocations) (steps T host target)
      (fun _ s => Complete T host target w s.result s.work ∧ s.result.Judged)
      (Broken T host target w) := by
    refine Meets.from_each fun s ⟨hs, hfiles, hinv⟩ => ?_
    refine (meets_steps (w := s.work) (r := start) htools hhost target ⟨rfl, rfl⟩ rfl rfl).weaken ?_ ?_ ?_
    · rintro _ rfl
      rw [← hs]
    · unfold Complete
      rw [hinv]
      exact fun _ _ hs => hs
    · unfold Broken Complete Unresolved Entryless
      rw [hinv, hfiles]
      exact fun _ _ hs => hs
  have houtcome := meets_outcome (r := start)
    (I := fun w₁ => w₁.files = w.files ∧ w₁.invocations = w.invocations) hsteps
  refine houtcome.bind fun (outcome, r) => ?_
  -- what is reported then changes the log alone
  · rcases outcome with f | u <;> dsimp only
    · refine Meets.bind (M := fun _ w' => Broken T host target w f ⟨w', r⟩) (Meets.update ?_) fun _ =>
        Meets.pure ?_
      · exact fun _ hw' => hw'
      · rintro w' ⟨hunbuilt, hended⟩
        refine ⟨hended.imp_right fun hended => ⟨f, rfl, hended⟩, ?_⟩
        exact agrees_of_unbuilt ⟨rfl, hunbuilt.2⟩ rfl
    · refine Meets.from_each fun w' ⟨hcomplete, hjudged⟩ => ?_
      obtain ⟨entry, hwent⟩ := hcomplete
      rcases hjudged with ⟨hstatus, hmessage, hartifact, hok⟩ | ⟨hunbuilt, hmessage⟩
      · rw [if_pos hstatus]
        refine Meets.bind (M := fun _ w'' => w''.invocations = w'.invocations) (Meets.update ?_)
          fun _ => Meets.pure fun w'' hw'' => ?_
        · rintro _ rfl
          rfl
        · exact ⟨.inl ⟨entry, hw'' ▸ hwent⟩, iff_of_true hstatus ⟨hartifact, hok⟩,
            iff_of_true hmessage hstatus⟩
      · rw [if_neg (by rw [hunbuilt.1]; decide)]
        refine (meets_failureReport_agrees (I := fun _ inv => inv = w'.invocations) hunbuilt
          (hwent.stops hhost) hmessage).weaken ?_ ?_ fun _ _ h => h
        · rintro _ rfl
          rfl
        · rintro r' w'' ⟨⟨hphases, hagrees⟩, hw''⟩
          refine ⟨.inl ⟨entry, ?_⟩, hagrees⟩
          rw [hphases, show w''.invocations = w'.invocations from hw'']
          exact hwent

end

end TargetBuild

/-! ## This machine's helper tools -/

/-- The phases of this machine's helper tools are none, or those of orders that all succeeded. -/
def HostTools.BuiltBy (T : Toolchain) (host : HostTools) : Prop :=
  host.phases = [] ∨
    (∃ inv inv', T.Took (T.helperOrders T.config.host) inv host.phases inv') ∧ ∀ p ∈ host.phases, p.ok

namespace Build

open BuildState

variable {T : Toolchain}

section
variable {P : List Phase → Prop} (hnil : P [])
  (hhelpers : Meets (fun _ => True) (T.buildHelpers T.config.host (TargetBuild.stub T.config))
    (fun phases _ => (∀ p ∈ phases, p.ok) → P phases) fun _ _ => True)
include hnil hhelpers

/-- Helper tools that succeeded are kept for this machine, as they were built. -/
theorem meets_prepareHost_of :
    Meets (fun b => b.host.phases = []) (prepareHost T) (fun _ b => P b.host.phases)
      fun _ _ => True := by
  have hwork : ∀ {α : Type} (task : Task Workspace α),
      Meets (fun b : BuildState => b.host.phases = []) (onWork task) (fun _ b => b.host.phases = [])
        fun _ _ => True := fun task => Keeps.meets (fun _ hb => hb) fun _ _ _ => trivial
  unfold prepareHost
  dsimp only
  rcases T.config.hostPrecompiler with _ | p
  · refine (hwork _).bind fun _ => ?_
    have hbuilt : Meets (fun b : BuildState => b.host.phases = [])
        (onWork (T.buildHelpers T.config.host (TargetBuild.stub T.config)))
        (fun phases _ => (∀ p ∈ phases, p.ok) → P phases) fun _ _ => True := by
      refine meets_of_runOn ?_ fun _ _ _ _ _ => trivial
      intro b b' phases _ hrun
      obtain ⟨hphases, -⟩ := Prod.mk.inj hrun
      exact hhelpers.of_ok trivial (Prod.ext hphases rfl)
    refine hbuilt.bind fun phases => ?_
    split
    · exact Meets.throw fun _ _ => trivial
    · next hnone =>
      refine Meets.update fun b hphases => hphases fun p hp => ?_
      simpa using List.find?_eq_none.1 hnone p hp
  · refine (hwork _).bind fun isFile => ?_
    refine Meets.when (fun _ => Meets.throw fun _ _ => trivial) (fun _ _ hb => hb) ?_
    refine Meets.bind (M := fun _ b => b.host.phases = []) (Meets.update fun b hb => hb) fun _ => ?_
    refine (hwork _).weaken (fun _ hb => hb) (fun _ b hb => ?_) fun _ _ h => h
    rw [hb]
    exact hnil

end

theorem meets_stage_host {P Q : HostTools → Prop} (s : Stage) {task : Task BuildState Unit}
    (htask : Meets (fun b => P b.host) task (fun _ b => Q b.host) fun _ _ => True) :
    Meets (fun b => P b.host) (stage s task) (fun ok b => ok = true → Q b.host) fun _ _ => True := by
  unfold stage
  refine Meets.bind (M := fun r b => r.toBool = true → Q b.host) ?_ fun r => ?_
  · exact Meets.attempt (htask.weaken (fun _ hb => hb) (fun _ _ hb _ => hb) fun f _ _ h => by cases h)
  · rcases r with f | u
    · dsimp only
      split
      · refine Meets.bind (M := fun _ _ => True) (fun _ _ => trivial) fun _ => ?_
        exact Meets.bind (M := fun _ _ => True) (fun _ _ => trivial) fun _ => Meets.pure fun _ _ h => by cases h
      · exact Meets.throw fun _ _ => trivial
    · exact Meets.bind (M := fun _ b => Q b.host) (Meets.update fun b hb => hb rfl) fun _ =>
        Meets.pure fun _ hb _ => hb

theorem host_of_start {c : Config} {now : String} {w : Workspace} {b : BuildState}
    (h : start c now w = .ok b) : b.host.phases = [] := by
  obtain ⟨ledger, -, h⟩ := of_bind_eq_ok h
  obtain rfl := Except.ok.inj h
  rfl

/-- **A setup that succeeds** leaves phases of this machine's helper tools that are as they were built,
or none. -/
theorem host_of_setup {P : List Phase → Prop} (hnil : P [])
    (hhelpers : Meets (fun _ => True) (T.buildHelpers T.config.host (TargetBuild.stub T.config))
      (fun phases _ => (∀ p ∈ phases, p.ok) → P phases) fun _ _ => True)
    {b b₁ : BuildState} (hb : b.host.phases = [])
    (hsetup : (stages (setup T)).runOn b = (.ok true, b₁)) : P b₁.host.phases := by
  have hnext : ∀ {Q R : HostTools → Prop} {s : Stage} {task : Task BuildState Unit} {rest},
      Meets (fun b => Q b.host) task (fun _ b => R b.host) (fun _ _ => True) →
      Meets (fun b => R b.host) (stages rest) (fun ok b => ok = true → P b.host.phases)
        (fun _ _ => True) →
      Meets (fun b => Q b.host) (stages ((s, task) :: rest)) (fun ok b => ok = true → P b.host.phases)
        fun _ _ => True := by
    intro Q R s task rest htask hrest
    rw [stages]
    refine (meets_stage_host s htask).bind fun ok => ?_
    cases ok with
    | false => exact Meets.pure fun _ _ h => by cases h
    | true => exact hrest.weaken (fun _ hb => hb rfl) (fun _ _ hb => hb) fun _ _ h => h
  have hkept : ∀ task : Task PatchState Unit, Meets (fun b : BuildState => b.host.phases = [])
      (onPatching task) (fun _ b => b.host.phases = []) fun _ _ => True := fun task =>
    Keeps.meets (fun _ hb => hb) fun _ _ _ => trivial
  have hhost : Meets (fun b => b.host.phases = []) (stages [(.hostTools, prepareHost T)])
      (fun ok b => ok = true → P b.host.phases) fun _ _ => True :=
    hnext (Q := fun host => host.phases = []) (R := fun host => P host.phases)
      (meets_prepareHost_of hnil hhelpers) (Meets.pure fun _ hb _ => hb)
  have hstages : Meets (fun b => b.host.phases = []) (stages (setup T))
      (fun ok b => ok = true → P b.host.phases) fun _ _ => True :=
    hnext (Q := fun host => host.phases = []) (R := fun host => host.phases = []) (hkept _) <|
      hnext (Q := fun host => host.phases = []) (R := fun host => host.phases = []) (hkept _) hhost
  exact hstages.of_ok hb hsetup rfl

theorem built_of_setup (htools : T.tools.End) {b b₁ : BuildState} (hb : b.host.phases = [])
    (hsetup : (stages (setup T)).runOn b = (.ok true, b₁)) : b₁.host.BuiltBy T := by
  refine host_of_setup (P := fun phases => phases = [] ∨ (∃ inv inv', T.Took
    (T.helperOrders T.config.host) inv phases inv') ∧ ∀ p ∈ phases, p.ok) (.inl rfl) ?_ hb hsetup
  refine meets_of_runOn ?_ fun _ _ _ _ _ => trivial
  intro w w' phases _ hrun hok
  exact .inr ⟨⟨_, _, (Toolchain.meets_buildHelpers htools T.config.host _).of_ok rfl hrun⟩, hok⟩

/-! ## The targets of a run -/

/-- A run gives a result for a target: its setup succeeds with some helper tools of this machine, the
targets before it are built, and building this one leads from a workspace to another. -/
def Gives (T : Toolchain) (b : BuildState) (host : HostTools) (target : Target) (w : Workspace)
    (r : TargetResult) (w' : Workspace) : Prop :=
  ∃ b₁ before after results, (stages (setup T)).runOn b = (.ok true, b₁) ∧ b₁.host = host ∧
    T.config.targets = before ++ target :: after ∧
    (TargetBuild.buildAll T host before).runOn b₁.patching.work = (.ok results, w) ∧
    (TargetBuild.build T host target).runOn w = (.ok r, w')

/-- A run whose setup succeeds gives a result for its first target. -/
theorem exists_gives {b : BuildState} {target : Target} {rest : List Target}
    (hsetup : ((stages (setup T)).runOn b).1 = .ok true) (htargets : T.config.targets = target :: rest) :
    ∃ host w r w', Gives T b host target w r w' := by
  rcases hrun : (stages (setup T)).runOn b with ⟨o, b₁⟩
  obtain rfl : o = .ok true := by rw [← hsetup, hrun]
  rcases hbuild : (TargetBuild.build T b₁.host target).runOn b₁.patching.work with ⟨f | r, w'⟩
  · exact ((TargetBuild.meets_build b₁.host target).of_error trivial hbuild).elim
  · exact ⟨b₁.host, b₁.patching.work, r, w', b₁, [], rest, [], hrun, rfl, htargets, rfl, hbuild⟩

end Build

section
variable {T : Toolchain} {host : HostTools} {target : Target} {orders : List Order}
  {inv inv' : List Invocation} {phases : List Phase} (hhost : host.BuiltBy T)
include hhost

theorem HostTools.BuiltBy.ok : ∀ p ∈ host.phases, p.ok := by
  rcases hhost with hnone | ⟨-, hok⟩
  · rw [hnone]
    exact fun p hp => by cases hp
  · exact hok

namespace TargetBuild

/-- The helper tools of a target are two, whether they were built before or are built now. -/
theorem names_helpers : (earlier T host target).map (·.name) ++
    (ownHelpers T host target).map (·.name) = ["interpreter", "precompiler"] := by
  unfold earlier ownHelpers
  split
  · next hreuses =>
    rcases hhost with hnone | ⟨⟨_, _, htook⟩, -⟩
    · exact absurd hnone hreuses.2
    · rw [htook.names]
      rfl
  · rfl

theorem length_earlier : (earlier T host target).length = if Reuses T host target then 2 else 0 := by
  have hnames : ((earlier T host target).map (·.name) ++ (ownHelpers T host target).map (·.name)).length = 2 :=
    congrArg List.length (names_helpers hhost)
  rw [List.length_append, List.length_map, List.length_map] at hnames
  unfold ownHelpers Toolchain.helperOrders at hnames
  split
  · next hreuses => simpa [hreuses] using hnames
  · next hreuses => simp [earlier, hreuses]

namespace Went

omit hhost in
theorem names (h : Went T host target orders inv phases inv') :
    phases.map (·.name) =
      "resolve" :: ((earlier T host target).map (·.name) ++ orders.map (·.name)) := by
  obtain ⟨taken, rfl, htook⟩ := h
  rw [List.map_cons, List.map_append, htook.names]
  rfl

theorem coded (h : Went T host target orders inv phases inv') : ∀ p ∈ phases, p.Coded := by
  obtain ⟨taken, rfl, htook⟩ := h
  have hearlier : ∀ p ∈ earlier T host target, p.Coded := by
    unfold earlier
    split
    · rcases hhost with hnone | ⟨⟨_, _, htook⟩, -⟩
      · rw [hnone]
        exact fun p hp => by cases hp
      · exact htook.coded
    · exact fun p hp => by cases hp
  refine List.forall_mem_cons.2 ⟨by simp [Phase.Coded, resolvedPhase], fun p hp => ?_⟩
  rcases List.mem_append.1 hp with hp | hp
  · exact hearlier p hp
  · exact htook.coded p hp

theorem rendered (h : Went T host target orders inv phases inv') :
    ∃ new, inv' = inv ++ new ∧ new.map (fun i => CommandLine.render i.command.arguments) =
      ((phases.drop (if Reuses T host target then 3 else 1)).filter
        fun p => p.status != .skipped).map (·.command) := by
  obtain ⟨taken, rfl, htook⟩ := h
  obtain ⟨new, hnew, hcommands⟩ := htook.rendered
  refine ⟨new, hnew, hcommands.trans ?_⟩
  have hlength : (if Reuses T host target then 3 else 1) = (earlier T host target).length + 1 := by
    rw [length_earlier hhost]
    split <;> rfl
  rw [hlength, List.drop_succ_cons, List.drop_left]

end Went

end TargetBuild

end

section
variable {T : Toolchain} {now : String} {w₀ w w' : Workspace} {b : BuildState} {host : HostTools}
  {target : Target} {r : TargetResult}

/-- **The phases of a target** have one shape. In every run they are the five phases in their order;
or none, where the tree of the target could not be made; or, where the system cannot even be asked for
the entry script, those of the tree and of the helper tools, all of which succeeded. The phases succeed
up to one that failed or took too long, and the others are left out. The tools that were run are those
of the phases after the first that were not left out, and were not taken over from this machine's helper
tools. The target is a success if all five phases are and there is an application, and if it is none
there is a message. -/
theorem phases_of_target (htools : T.tools.End) (hstart : Build.start T.config now w₀ = .ok b)
    (hgives : Build.Gives T b host target w r w') :
    ((r.phases.map (·.name) = ["resolve", "interpreter", "precompiler", "precompile", "link"] ∧
        TargetBuild.Complete T host target w r w') ∨
      ∃ f, r.errorMessage = some f.message ∧ (TargetBuild.Unresolved T target w r w' f ∨
        (r.phases.map (·.name) = ["resolve", "interpreter", "precompiler"] ∧
          TargetBuild.Entryless T host target w r w' f))) ∧
      Phase.Stops r.phases ∧ (∀ p ∈ r.phases.head?, p.status = .success) ∧
      (∀ p ∈ r.phases, p.exitCode = 0 ↔ p.status = .success) ∧
      (∃ new, w'.invocations = w.invocations ++ new ∧
        new.map (fun i => CommandLine.render i.command.arguments) =
          ((r.phases.drop (if TargetBuild.Reuses T host target then 3 else 1)).filter
            fun p => p.status != .skipped).map (·.command)) ∧
      (r.status = .success ↔
        r.phases.length = 5 ∧ (∀ p ∈ r.phases, p.status = .success) ∧ r.artifact.isSome) ∧
      (r.errorMessage = none ↔ r.status = .success) := by
  obtain ⟨b₁, before, after, results, hsetup, rfl, -, -, hbuild⟩ := hgives
  have hhost : b₁.host.BuiltBy T := Build.built_of_setup htools (Build.host_of_start hstart) hsetup
  obtain ⟨hended, hsuccess, hmessage⟩ :=
    (TargetBuild.meets_build_phases htools hhost.ok target w).of_ok rfl hbuild
  rw [forall₂_congr fun p _ => @Phase.ok_iff p] at hsuccess
  -- what follows from the phases that were gone through
  have hwent : ∀ {orders}, TargetBuild.Went T b₁.host target orders w.invocations r.phases w'.invocations →
      Phase.Stops r.phases ∧ (∀ p ∈ r.phases.head?, p.status = .success) ∧
        (∀ p ∈ r.phases, p.exitCode = 0 ↔ p.status = .success) ∧
        ∃ new, w'.invocations = w.invocations ++ new ∧
          new.map (fun i => CommandLine.render i.command.arguments) =
            ((r.phases.drop (if TargetBuild.Reuses T b₁.host target then 3 else 1)).filter
              fun p => p.status != .skipped).map (·.command) := by
    intro orders h
    refine ⟨h.stops hhost.ok, ?_, h.coded hhost, h.rendered hhost⟩
    obtain ⟨taken, hphases, -⟩ := h
    rw [hphases]
    rintro p hp
    obtain rfl := Option.some.inj hp
    rfl
  rcases hended with ⟨entry, h⟩ | ⟨f, hf, hended⟩
  · have hnames : r.phases.map (·.name) =
        ["resolve", "interpreter", "precompiler", "precompile", "link"] := by
      rw [h.names, TargetBuild.allOrders, List.map_append, ← List.append_assoc,
        TargetBuild.names_helpers hhost]
      rfl
    have hlength : r.phases.length = 5 := by
      rw [← List.length_map (f := (·.name)), hnames]
      rfl
    obtain ⟨hstops, hhead, hcoded, hinv⟩ := hwent h
    refine ⟨.inl ⟨hnames, entry, h⟩, hstops, hhead, hcoded, hinv, ?_, hmessage⟩
    rw [hsuccess]
    simp [hlength, and_comm]
  · -- then the list is shorter, and the target is no success
    have hfailed : r.status ≠ .success := by
      rw [Ne, ← hmessage, hf]
      simp
    have hshort : ∀ {n : Nat}, n ≠ 5 → r.phases.length = n → (r.status = .success ↔
        r.phases.length = 5 ∧ (∀ p ∈ r.phases, p.status = .success) ∧ r.artifact.isSome) :=
      fun hn hlength => iff_of_false hfailed fun h => hn (hlength ▸ h.1)
    rcases hended with h | h
    · refine ⟨.inr ⟨f, hf, .inl h⟩, ?_⟩
      obtain ⟨hnone, hinv, -⟩ := h
      refine ⟨?_, ?_, ?_, ⟨[], ?_, ?_⟩, hshort (n := 0) (by decide) (by rw [hnone]; rfl), hmessage⟩
      · rw [hnone]
        exact .nil
      · simp [hnone]
      · simp [hnone]
      · simp [hinv]
      · simp [hnone]
    · have hnames : r.phases.map (·.name) = ["resolve", "interpreter", "precompiler"] := by
        rw [h.1.names, TargetBuild.names_helpers hhost]
      obtain ⟨hstops, hhead, hcoded, hinv⟩ := hwent h.1
      refine ⟨.inr ⟨f, hf, .inr ⟨hnames, h⟩⟩, hstops, hhead, hcoded, hinv,
        hshort (n := 3) (by decide) ?_, hmessage⟩
      rw [← List.length_map (f := (·.name)), hnames]
      rfl

end

/-- The small project is built for the machine that builds it, so that its helper tools are reused. -/
theorem phases_of_target_small : ∃ b host w r w',
    Build.start (.smallAt []) "now" (.ofFiles (Config.filesAt [])) = .ok b ∧
      Build.Gives (.ofConfig (.smallAt []) .idle) b host .linux64 w r w' ∧
      TargetBuild.Reuses (.ofConfig (.smallAt []) .idle) host .linux64 ∧ Phase.Stops r.phases ∧
      (r.errorMessage = none ↔ r.status = .success) := by
  have hsetup : (Build.start (.smallAt []) "now" (.ofFiles (Config.filesAt []))).toOption.map (fun b =>
      ((Build.stages (Build.setup (.ofConfig (.smallAt []) .idle))).runOn b).1.toOption) =
        some (some true) := by
    decide +kernel
  have hhost : (Build.start (.smallAt []) "now" (.ofFiles (Config.filesAt []))).toOption.map (fun b =>
      ((Build.stages (Build.setup (.ofConfig (.smallAt []) .idle))).runOn b).2.host.phases.length) =
        some 2 := by
    decide +kernel
  obtain ⟨b, hb, -, -⟩ := Build.start_ok (.smallAt []) "now" (.ofFiles (Config.filesAt []))
  rw [hb] at hsetup hhost
  obtain ⟨host, w, r, w', hgives⟩ :=
    Build.exists_gives (T := .ofConfig (.smallAt []) .idle) (b := b)
      (eq_ok_of_toOption (Option.some.inj hsetup)) rfl
  obtain ⟨-, hstops, -, -, -, -, hmessage⟩ :=
    phases_of_target (T := .ofConfig (.smallAt []) .idle) Tools.end_idle hb hgives
  refine ⟨b, host, w, r, w', hb, hgives, ⟨rfl, ?_⟩, hstops, hmessage⟩
  obtain ⟨b₁, before, after, results, hrun, rfl, -⟩ := hgives
  simp only [Except.toOption, Option.map_some, hrun] at hhost
  exact List.ne_nil_of_length_pos (by rw [Option.some.inj hhost]; decide)

end CrossBuild
