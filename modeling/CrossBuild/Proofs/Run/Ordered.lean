import CrossBuild.Proofs.Run.Phases
import CrossBuild.Proofs.Run.Watched

/-!
# The commands of a run

The commands of a run are those that its stages order: helper tools for this machine while it is set up,
and for each target its helper tools, the precompiler and the link. The runs of tools only add up. So what
all of these commands have, every run of a tool has that was added.
-/

namespace CrossBuild

open FileSystem Workspace CrossBuild.Task

variable {T : Toolchain} {host : HostTools} {target : Target} {Q : Command → Prop}
  {earlier : List Invocation} {α : Type}

/-- The runs of tools go on from the earlier ones, with commands of some kind. -/
def Ran (Q : Command → Prop) (earlier : List Invocation) (_ : FileSystem) (inv : List Invocation) : Prop :=
  ∃ new, inv = earlier ++ new ∧ ∀ i ∈ new, Q i.command

theorem Ran.refl (Q : Command → Prop) (earlier : List Invocation) (fs : FileSystem) :
    Ran Q earlier fs earlier :=
  ⟨[], by simp, fun i hi => by cases hi⟩

namespace Toolchain

theorem ran_run {name : String} {arguments : List String} (h : Q (T.command ⟨name, arguments⟩)) :
    Keeps (Of (Ran Q earlier)) (T.run name arguments) := by
  refine Keeps.bind (fun w hw => ?_) fun _ => keeps_ofExcept _
  obtain ⟨new, hinv, hnew⟩ := hw
  refine ⟨new ++ [⟨T.command ⟨name, arguments⟩, w.files⟩], ?_, ?_⟩
  · show w.invocations ++ [_] = _
    rw [hinv, List.append_assoc]
    rfl
  · intro i hi
    rcases List.mem_append.1 hi with hi | hi
    · exact hnew i hi
    · rw [List.mem_singleton.1 hi]
      exact h

theorem ran_buildHelpers (h : ∀ o ∈ T.helperOrders target, Q (T.command o)) :
    Keeps (Of (Ran Q earlier)) (T.buildHelpers target (TargetBuild.stub T.config)) := by
  unfold helperOrders at h
  simp only [List.forall_mem_cons] at h
  obtain ⟨hinterpreter, hprecompiler, -⟩ := h
  unfold buildHelpers
  refine (ran_run hinterpreter).bind fun interpreter => Keeps.ite ?_ (keeps_pure _)
  exact (ran_run hprecompiler).bind fun precompiler => keeps_pure _

end Toolchain

namespace TargetBuild

/-- The commands that are run for a target are of some kind. -/
structure Orders (T : Toolchain) (host : HostTools) (target : Target) (Q : Command → Prop) : Prop where
  helpers : ∀ o ∈ T.helperOrders target, Q (T.command o)
  precompile : ∀ entry, Q (T.command (precompileOrder T host target entry))
  link : Q (T.command (linkOrder T target))

theorem ran_onWork {task : Task Workspace α} (h : Keeps (Of (Ran Q earlier)) task) :
    Keeps (fun s => Of (Ran Q earlier) s.work) (TargetState.onWork task) :=
  fun s hs => h s.work hs

variable (h : Orders T host target Q)
include h

theorem ran_helpers : Keeps (Of (Ran Q earlier)) (helpers T host target) :=
  Keeps.ite (keeps_pure _) (Toolchain.ran_buildHelpers h.helpers)

theorem ran_linkStep : Keeps (fun s => Of (Ran Q earlier) s.work) (linkStep T target) := by
  unfold linkStep
  refine (ran_onWork (Toolchain.ran_run h.link)).bind fun link => Keeps.bind (fun _ hs => hs) fun _ => ?_
  refine Keeps.ite ((ran_onWork (keeps_look _)).bind fun isFile => Keeps.ite ?_ ?_) (keeps_pure _)
  · exact (ran_onWork (Artifact.silent_describe _ _)).bind fun artifact => fun _ hs => hs
  · exact fun _ hs => hs

theorem ran_steps : Keeps (fun s => Of (Ran Q earlier) s.work) (steps T host target) := by
  unfold steps
  refine (ran_onWork (BuildTree.silent_build _ _ _ _)).bind fun made => ?_
  refine Keeps.bind (fun _ hs => hs) fun _ => Keeps.bind (fun _ hs => hs) fun _ => ?_
  refine (ran_onWork (ran_helpers h)).bind fun helpers => Keeps.bind (fun _ hs => hs) fun _ => ?_
  refine Keeps.ite (fun _ hs => hs) (Keeps.bind (fun _ hs => hs) fun _ => ?_)
  refine (ran_onWork (keeps_look _)).bind fun entry => ?_
  refine (ran_onWork (Toolchain.ran_run (h.precompile entry))).bind fun precompile => ?_
  exact Keeps.bind (fun _ hs => hs) fun _ => Keeps.ite (fun _ hs => hs) (ran_linkStep h)

theorem ran_build : Keeps (Of (Ran Q earlier)) (build T host target) := by
  unfold build
  refine (keeps_info _).bind fun _ => Keeps.bind ?_ fun (outcome, r) => ?_
  · exact fun w hw => ran_steps h ⟨w, _⟩ hw
  · rcases outcome with f | u
    · exact (keeps_error _).bind fun _ => keeps_pure _
    · refine Keeps.ite ((keeps_info _).bind fun _ => keeps_pure _) ?_
      unfold failureReport
      rcases r.failedPhase? with _ | p
      · exact (keeps_error _).bind fun _ => keeps_pure _
      · exact (keeps_error _).bind fun _ => Keeps.when (keeps_error _) (keeps_pure _)

end TargetBuild

end CrossBuild
