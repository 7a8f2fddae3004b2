import CrossBuild.Proofs.Run.Carried

/-!
# What building keeps

Building a target works in the target's build tree and runs tools. Whatever neither that work nor a
tool affects holds through the builds of all targets, however they end.
-/

namespace CrossBuild

open FileSystem Workspace CrossBuild.Task

/-- Building a target works in a yard and keeps a property of the files and the runs of tools: work
in the yard keeps it, and so does a tool that was told to write an output for the target. -/
structure Config.WorksIn (c : Config) (tools : Tools) (target : Target) (y : Yard)
    (J : FileSystem → List Invocation → Prop) : Prop where
  sensible : c.Sensible
  rootNames : ∀ part ∈ c.root.parts, IsName part
  mem : target ∈ Target.all
  ready : ∀ fs inv, J fs inv → y.Ready fs
  work : ∀ fs fs' inv, J fs inv → y.Kept fs fs' → J fs' inv
  tool : ∀ fs inv command p, J fs inv → command.output? = some p → p ∈ c.outputs target →
    J (tools.run inv command fs).2 (inv ++ [⟨command, fs⟩])

/-- A property of the files and the runs of tools that work in the yard keeps, and so does a tool
that was told to write an output of the run. -/
structure Toolchain.Stable (t : Toolchain) (y : Yard) (J : FileSystem → List Invocation → Prop) :
    Prop where
  ready : ∀ fs inv, J fs inv → y.Ready fs
  work : ∀ fs fs' inv, J fs inv → y.Kept fs fs' → J fs' inv
  tool : ∀ fs inv command p, J fs inv → command.output? = some p → t.config.IsOutput p →
    J (t.tools.run inv command fs).2 (inv ++ [⟨command, fs⟩])

/-- A configuration that can be built in a yard, and what is stable there. -/
structure Config.Buildable (c : Config) (tools : Tools) (y : Yard)
    (J : FileSystem → List Invocation → Prop) : Prop where
  sensible : c.Sensible
  rootNames : ∀ part ∈ c.root.parts, IsName part
  trees : ∀ target ∈ c.targets, ∃ n xs, y.Leads (c.buildTree target) n xs
  stable : (Toolchain.ofConfig c tools).Stable y J

section
variable {c : Config} {tools : Tools} {y : Yard} {J : FileSystem → List Invocation → Prop}
  {α : Type} {target : Target}

/-! ## Building a target -/

namespace Config.WorksIn

variable (h : c.WorksIn tools target y J)
include h

theorem keeps_onFiles {task : Task FileSystem α} (ht : y.Minds task) : Keeps (Of J) (onFiles task) := by
  refine Workspace.keeps_onFiles fun inv fs hfs => ?_
  exact h.work fs _ inv hfs (ht fs fs (h.ready fs inv hfs))

theorem carries : c.Carries tools target fun w w' => w' = w ∧ Of J w where
  sensible := h.sensible
  rootNames := h.rootNames
  mem := h.mem
  report level message := keeps_iff_respects.1 (keeps_report level message)
  tool arguments p hp hout := by
    refine keeps_iff_respects.1 fun w hw => ?_
    exact h.tool w.files w.invocations _ p hw hout hp

theorem keeps_buildHelpers (stub : Path) :
    Keeps (Of J) ((Toolchain.ofConfig c tools).buildHelpers target stub) :=
  keeps_iff_respects.2 (h.carries.respects_buildHelpers stub)

variable {n : String} {xs : List String} (hleads : y.Leads (c.buildTree target) n xs)
include hleads

theorem keeps_buildTree (source : Path) (family : OsFamily) (exclude : List Path) :
    Keeps (Of J) (BuildTree.build source (c.buildTree target) family exclude) := by
  have hlook : ∀ {α : Type} (f : FileSystem → Except Failure α),
      Respects (fun w w' => w' = w ∧ Of J w) (look f) := fun f => keeps_iff_respects.1 (keeps_look f)
  refine keeps_iff_respects.2 (BuildTree.respects_build (P := fun _ => True) ?_ (hlook _) (hlook _)
    ?_ (hlook _) (fun _ _ _ _ _ => trivial) (fun _ _ => hlook _) ?_)
  · exact fun message => keeps_iff_respects.1 (keeps_info message)
  · exact keeps_iff_respects.1 (h.keeps_onFiles (Yard.minds_removeTree hleads))
  · -- the tree that is written was read from files on which the property holds
    rintro w _ skip r ⟨rfl, hw⟩ - hresolved
    have hnamed := BuildTree.named_resolved (h.ready _ _ hw).sound hresolved
    exact keeps_iff_respects.1 (h.keeps_onFiles (Yard.minds_writeTree hnamed hleads))

/-- **Building a target** keeps what is kept in the yard, however far it comes. -/
theorem keeps_build (host : HostTools) :
    Keeps (Of J) (TargetBuild.build (Toolchain.ofConfig c tools) host target) := by
  have hlook : ∀ {α : Type} (f : FileSystem → Except Failure α),
      Respects (fun w w' => w' = w ∧ Of J w) (look f) := fun f => keeps_iff_respects.1 (keeps_look f)
  have hcarries : c.CarriesBuild tools target fun w w' => w' = w ∧ Of J w :=
    { h.carries with
      tree := keeps_iff_respects.1 (h.keeps_buildTree hleads _ _ _)
      entry := hlook _
      linked := hlook _
      content := hlook _ }
  exact keeps_iff_respects.2 (hcarries.respects_build host)

end Config.WorksIn

namespace Config.Buildable

variable (hb : c.Buildable tools y J)
include hb

theorem worksIn (ht : target ∈ Target.all) : c.WorksIn tools target y J where
  sensible := hb.sensible
  rootNames := hb.rootNames
  mem := ht
  ready := hb.stable.ready
  work := hb.stable.work
  tool fs inv command p hJ hout hp :=
    hb.stable.tool fs inv command p hJ hout (isOutput_of_mem_outputs hb.sensible ht p hp)

theorem keeps_buildAll (host : HostTools) {targets : List Target}
    (htargets : ∀ target ∈ targets, target ∈ c.targets) :
    Keeps (Of J) (TargetBuild.buildAll (Toolchain.ofConfig c tools) host targets) := by
  refine keeps_mapM fun target ht => ?_
  obtain ⟨n, xs, hleads⟩ := hb.trees target (htargets target ht)
  exact (hb.worksIn (hb.sensible.targets target (htargets target ht))).keeps_build hleads host

end Config.Buildable

/-! ## The state of a run -/

/-- A property of the files and the runs of tools, and one of the ledger. -/
def PatchState.Of (J : FileSystem → List Invocation → Prop) (L : Ledger → Prop)
    (s : PatchState) : Prop :=
  Workspace.Of J s.work ∧ L s.ledger

/-- The same of the state of a run. -/
def BuildState.Of (J : FileSystem → List Invocation → Prop) (L : Ledger → Prop)
    (s : BuildState) : Prop :=
  PatchState.Of J L s.patching

variable {L : Ledger → Prop}

theorem PatchState.meets_onWork {t : Task Workspace α} {pre : Workspace → Prop}
    {post : α → Workspace → Prop} {failed : Failure → Workspace → Prop}
    (ht : Meets pre t post failed) :
    Meets (fun s => pre s.work ∧ L s.ledger) (PatchState.onWork t)
      (fun a s => post a s.work ∧ L s.ledger) fun f s => failed f s.work ∧ L s.ledger :=
  Meets.onPart ht (fun _ hs => hs.1) (fun _ _ _ hs hw => ⟨hw, hs.2⟩) fun _ _ _ hs hw => ⟨hw, hs.2⟩

theorem PatchState.keeps_onWork {t : Task Workspace α} (h : Keeps (Workspace.Of J) t) :
    Keeps (PatchState.Of J L) (PatchState.onWork t) := by
  intro s hs
  exact ⟨h s.work hs.1, hs.2⟩

theorem BuildState.meets_onPatching {t : Task PatchState α} {pre : PatchState → Prop}
    {post : α → PatchState → Prop} {failed : Failure → PatchState → Prop}
    (ht : Meets pre t post failed) :
    Meets (fun s => pre s.patching) (BuildState.onPatching t) (fun a s => post a s.patching)
      fun f s => failed f s.patching :=
  Meets.onPart ht (fun _ hs => hs) (fun _ _ _ _ hp => hp) fun _ _ _ _ hp => hp

theorem BuildState.keeps_onWork {t : Task Workspace α} (h : Keeps (Workspace.Of J) t) :
    Keeps (BuildState.Of J L) (BuildState.onWork t) :=
  fun s hs => PatchState.keeps_onWork h s.patching hs

theorem BuildState.keeps_record (f : Receipt → Receipt) :
    Keeps (BuildState.Of J L) (BuildState.record f) := fun _ hs => hs

/-- Finding or building the host's tools keeps what building them does. -/
theorem Build.keeps_prepareHost (hhelpers : Keeps (Workspace.Of J)
    ((Toolchain.ofConfig c tools).buildHelpers c.host (TargetBuild.stub c))) :
    Keeps (BuildState.Of J L) (prepareHost (Toolchain.ofConfig c tools)) := by
  unfold prepareHost
  dsimp only [Toolchain.ofConfig]
  rcases c.hostPrecompiler with _ | p
  · refine (BuildState.keeps_onWork (keeps_info _)).bind fun _ => ?_
    refine (BuildState.keeps_onWork hhelpers).bind fun phases => ?_
    split
    · exact keeps_throw _
    · exact fun _ hs => hs
  · refine (BuildState.keeps_onWork (keeps_look _)).bind fun isFile => ?_
    refine Keeps.when (keeps_throw _) ?_
    refine Keeps.bind (fun _ hs => hs) fun _ => ?_
    exact BuildState.keeps_onWork (keeps_info _)

theorem Config.Buildable.keeps_prepareHost (hb : c.Buildable tools y J) :
    Keeps (BuildState.Of J L) (Build.prepareHost (Toolchain.ofConfig c tools)) :=
  Build.keeps_prepareHost ((hb.worksIn hb.sensible.host).keeps_buildHelpers _)

theorem Config.Buildable.keeps_buildTargets (hb : c.Buildable tools y J) :
    Keeps (BuildState.Of J L) (Build.buildTargets (Toolchain.ofConfig c tools)) :=
  (keeps_ask _).bind fun host => BuildState.keeps_onWork (hb.keeps_buildAll host fun _ ht => ht)

end

end CrossBuild
