import CrossBuild.Proofs.BuildTree
import CrossBuild.Proofs.Toolchain
import CrossBuild.Proofs.Workspace

/-!
# What building a target carries through

Building a target makes its tree, runs tools, and looks at what they left. A relation of workspaces
that these steps respect is respected by the whole: two builds that start in related workspaces end
in related ones with the same result. That a build keeps a property is a case of it.
-/

namespace CrossBuild

open FileSystem Workspace CrossBuild.Task

variable {c : Config} {tools : Tools} {target : Target} {R : Workspace → Workspace → Prop} {α : Type}

namespace Config

/-- The application that is linked for a target. -/
def applicationPath (c : Config) (t : Target) : Path :=
  c.distDirectory / t.applicationName c.application

/-- What the tools that are run for a target are told to write. -/
def outputs (c : Config) (t : Target) : List Path :=
  [c.toolsDirectory / t.interpreter, c.toolsDirectory / t.precompiler,
    TargetBuild.intermediate c t, c.applicationPath t]

theorem isOutput_of_mem_outputs (hc : c.Sensible) (ht : target ∈ Target.all) :
    ∀ p ∈ c.outputs target, c.IsOutput p := by
  obtain ⟨-, hinterpreter, hprecompiler, hintermediate⟩ := Target.isName_of_mem_all target ht
  obtain ⟨hpart, hdots⟩ := Target.isPart_applicationName ht hc.application
  simp only [outputs, List.forall_mem_cons, List.not_mem_nil, false_implies, implies_true, and_true]
  exact ⟨isOutput_tools hc.root hinterpreter.isPart hinterpreter.2.2,
    isOutput_tools hc.root hprecompiler.isPart hprecompiler.2.2,
    isOutput_tools hc.root hintermediate.isPart hintermediate.2.2, isOutput_dist hc.root hpart hdots⟩

/-- A relation that is respected by reports, and by the tools that are run for a target. -/
structure Carries (c : Config) (tools : Tools) (target : Target)
    (R : Workspace → Workspace → Prop) : Prop where
  sensible : c.Sensible
  rootNames : ∀ part ∈ c.root.parts, IsName part
  mem : target ∈ Target.all
  report : ∀ level message, Respects R (report level message)
  tool : ∀ arguments, ∀ p ∈ c.outputs target,
    Command.output? ⟨arguments, c.root, c.timeout⟩ = some p →
    Respects R (runTool tools ⟨arguments, c.root, c.timeout⟩)

/-- A relation that is respected by all that building a target does. -/
structure CarriesBuild (c : Config) (tools : Tools) (target : Target)
    (R : Workspace → Workspace → Prop) : Prop extends c.Carries tools target R where
  tree : Respects R
    (BuildTree.build c.entryDirectory (c.buildTree target) target.family c.excluded)
  entry : Respects R (look fun fs => TargetBuild.entryIn fs c (c.buildTree target) target)
  linked : Respects R (look (·.isFile (c.applicationPath target)))
  content : Respects R (look (·.content (c.applicationPath target)))

end Config

/-! ## Running tools -/

namespace Config.Carries

variable (h : c.Carries tools target R)
include h

theorem respects_compile {p : Path} (name : String) (hp : p ∈ c.outputs target)
    (sources : List Path) : Respects R ((Toolchain.ofConfig c tools).run name
      ((Toolchain.ofConfig c tools).compileCommand target p sources)) := by
  have hout := @Toolchain.output?_compile c tools target p h.sensible h.mem
    (isOutput_of_mem_outputs h.sensible h.mem p hp) h.rootNames sources c.timeout
  exact (h.tool _ p hp hout).bind fun _ => respects_ofExcept _

theorem respects_buildHelpers (stub : Path) :
    Respects R ((Toolchain.ofConfig c tools).buildHelpers target stub) := by
  unfold Toolchain.buildHelpers
  refine Respects.bind ?_ fun interpreter => Respects.ite ?_ (respects_pure _)
  · exact h.respects_compile "interpreter" (p := c.toolsDirectory / target.interpreter) (by simp [outputs]) _
  · refine Respects.bind ?_ fun precompiler => respects_pure _
    exact h.respects_compile "precompiler" (p := c.toolsDirectory / target.precompiler) (by simp [outputs]) _

theorem respects_precompile (precompiler : String) (entry : Path) :
    Respects R ((Toolchain.ofConfig c tools).precompile precompiler entry
      (TargetBuild.intermediate c target)) := by
  have hp : TargetBuild.intermediate c target ∈ c.outputs target := by simp [outputs]
  have hout := @Toolchain.output?_precompile c tools _ h.sensible
    (isOutput_of_mem_outputs h.sensible h.mem _ hp) h.rootNames precompiler entry c.timeout
  exact (h.tool _ _ hp hout).bind fun _ => respects_ofExcept _

theorem respects_link (intermediate : Path) :
    Respects R ((Toolchain.ofConfig c tools).link target intermediate (c.applicationPath target)) :=
  h.respects_compile "link" (by simp [outputs]) _

theorem respects_helpers (host : HostTools) :
    Respects R (TargetBuild.helpers (Toolchain.ofConfig c tools) host target) :=
  Respects.ite (respects_pure _) (h.respects_buildHelpers _)

theorem respects_failureReport (r : TargetResult) : Respects R (TargetBuild.failureReport r) := by
  unfold TargetBuild.failureReport
  rcases r.failedPhase? with _ | p
  · exact (h.report _ _).bind fun _ => respects_pure _
  · refine (h.report _ _).bind fun _ => ?_
    exact Respects.when (h.report _ _) (respects_pure _)

end Config.Carries

/-! ## Building a target -/

namespace TargetState

/-- The same result in related workspaces. -/
def Alike (R : Workspace → Workspace → Prop) (s s' : TargetState) : Prop :=
  R s.work s'.work ∧ s'.result = s.result

theorem respects_onWork {t : Task Workspace α} (h : Respects R t) : Respects (Alike R) (onWork t) :=
  h.onPart (fun _ _ hs => hs.1) fun _ _ _ _ hs hw => ⟨hw, hs.2⟩

theorem respects_record (f : TargetResult → TargetResult) : Respects (Alike R) (record f) :=
  respects_update fun _ _ hs => ⟨hs.1, congrArg f hs.2⟩

end TargetState

namespace Config.CarriesBuild

open TargetState

variable (h : c.CarriesBuild tools target R)
include h

theorem respects_describe : Respects R (Artifact.describe (c.applicationPath target) target) := by
  have hinspect : Respects R (Artifact.inspect (c.applicationPath target)) := by
    unfold Artifact.inspect
    refine h.content.bind fun bytes => ?_
    rcases Format.ofBytes bytes with _ | _ | _ | _
    all_goals try exact respects_pure _
    rcases Machine.ofHeader? bytes with _ | m
    · exact (h.report _ _).bind fun _ => respects_pure _
    · exact respects_pure _
  have hhash : Respects R (Artifact.hash (c.applicationPath target)) := by
    intro w w' hw
    have hsame := (h.content w w' hw).1
    rw [runOn_look, runOn_look] at hsame
    dsimp only at hsame
    unfold Artifact.hash
    rw [runOn_look, runOn_look]
    dsimp only
    rw [hsame]
    exact ⟨rfl, hw⟩
  unfold Artifact.describe
  refine hinspect.bind fun (format, machine) => ?_
  refine Respects.when (h.report _ _) ?_
  refine hhash.bind fun sha256 => ?_
  refine h.content.bind fun bytes => ?_
  rcases machine with _ | _ | _
  · exact respects_pure _
  · exact respects_pure _
  · exact respects_throw _

theorem respects_linkStep :
    Respects (Alike R) (TargetBuild.linkStep (Toolchain.ofConfig c tools) target) := by
  unfold TargetBuild.linkStep
  refine (respects_onWork (h.respects_link _)).bind fun link => ?_
  refine (respects_record _).bind fun _ => ?_
  refine Respects.ite ((respects_onWork h.linked).bind fun isFile => ?_) (respects_pure _)
  refine Respects.ite ?_ (respects_record _)
  exact (respects_onWork h.respects_describe).bind fun artifact => respects_record _

theorem respects_steps (host : HostTools) :
    Respects (Alike R) (TargetBuild.steps (Toolchain.ofConfig c tools) host target) := by
  unfold TargetBuild.steps
  refine (respects_onWork h.tree).bind fun r => ?_
  refine (respects_record _).bind fun _ => (respects_record _).bind fun _ => ?_
  refine (respects_onWork (h.respects_helpers host)).bind fun helpers => ?_
  refine (respects_record _).bind fun _ => Respects.ite (respects_record _) ?_
  refine (respects_onWork (h.report _ _)).bind fun _ => ?_
  refine (respects_onWork h.entry).bind fun entry => ?_
  refine (respects_onWork (h.respects_precompile _ entry)).bind fun precompile => ?_
  exact (respects_record _).bind fun _ => Respects.ite (respects_record _) h.respects_linkStep

/-- **Building a target** respects what its steps respect, however far it comes. -/
theorem respects_build (host : HostTools) :
    Respects R (TargetBuild.build (Toolchain.ofConfig c tools) host target) := by
  unfold TargetBuild.build
  refine (h.report _ _).bind fun _ => Respects.bind ?_ fun (outcome, r) => ?_
  · intro w w' hw
    obtain ⟨hsame, hafter, hresult⟩ := h.respects_steps host
      ⟨w, { target := target.id, family := target.family.word }⟩ ⟨w', _⟩ ⟨hw, rfl⟩
    exact ⟨congrArg Except.ok (Prod.ext hsame hresult), hafter⟩
  · rcases outcome with f | u
    · exact (h.report _ _).bind fun _ => respects_pure _
    · refine Respects.ite ((h.report _ _).bind fun _ => respects_pure _) ?_
      exact h.respects_failureReport r

end Config.CarriesBuild

end CrossBuild
