import CrossBuild.Patch.Ledger
import CrossBuild.Proofs.Task

/-!
# Tasks on parts of the state

How a task on the files runs in a workspace, and one on the workspace beside a ledger. Reporting
changes the log alone, and looking changes nothing.
-/

namespace CrossBuild

open CrossBuild.Task

variable {α : Type}

namespace Workspace

@[simp] theorem runOn_onFiles (t : Task FileSystem α) (w : Workspace) :
    (onFiles t).runOn w = ((t.runOn w.files).1, { w with files := (t.runOn w.files).2 }) := rfl

@[simp] theorem runOn_liftM (t : Task FileSystem α) (w : Workspace) :
    (liftM t : Task Workspace α).runOn w =
      ((t.runOn w.files).1, { w with files := (t.runOn w.files).2 }) := rfl

@[simp] theorem runOn_look (f : FileSystem → Except Failure α) (w : Workspace) :
    (look f).runOn w = (f w.files, w) := rfl

@[simp] theorem runOn_report (level : LogLevel) (message : String) (w : Workspace) :
    (report level message).runOn w = (.ok (), { w with log := w.log ++ [⟨level, message⟩] }) := rfl

@[simp] theorem runOn_runTool (tools : Tools) (c : Command) (w : Workspace) :
    (runTool tools c).runOn w =
      (.ok (tools.run w.invocations c w.files).1,
        { w with
          files := (tools.run w.invocations c w.files).2
          invocations := w.invocations ++ [⟨c, w.files⟩] }) := rfl

theorem keeps_look {J : Workspace → Prop} (f : FileSystem → Except Failure α) :
    Keeps J (look f) := fun _ h => h

/-- A property of the files and the runs of tools. -/
def Of (I : FileSystem → List Invocation → Prop) (w : Workspace) : Prop :=
  I w.files w.invocations

variable {I : FileSystem → List Invocation → Prop}

theorem keeps_report (level : LogLevel) (message : String) :
    Keeps (Of I) (report level message) := fun _ h => h

theorem keeps_info (message : String) : Keeps (Of I) (info message) :=
  keeps_report .info message

theorem keeps_warning (message : String) : Keeps (Of I) (warning message) :=
  keeps_report .warning message

theorem keeps_error (message : String) : Keeps (Of I) (error message) :=
  keeps_report .error message

theorem keeps_onFiles {t : Task FileSystem α} (h : ∀ inv, Keeps (fun fs => I fs inv) t) :
    Keeps (Of I) (onFiles t) := fun w hw => h w.invocations w.files hw

theorem keeps_liftM {t : Task FileSystem α} (h : ∀ inv, Keeps (fun fs => I fs inv) t) :
    Keeps (Of I) (liftM t : Task Workspace α) := fun w hw => h w.invocations w.files hw

theorem meets_liftM {t : Task FileSystem α} {pre : FileSystem → Prop}
    {post : α → FileSystem → Prop} {failed : Failure → FileSystem → Prop}
    (ht : Meets pre t post failed) :
    Meets (fun w => pre w.files) (liftM t : Task Workspace α) (fun a w => post a w.files)
      fun f w => failed f w.files := by
  refine meets_of_runOn ?_ ?_
  · intro w w' a hw hrun
    rw [runOn_liftM] at hrun
    obtain ⟨ha, rfl⟩ := Prod.mk.inj hrun
    exact ht.of_ok hw (Prod.ext ha rfl)
  · intro w w' f hw hrun
    rw [runOn_liftM] at hrun
    obtain ⟨hf, rfl⟩ := Prod.mk.inj hrun
    exact ht.of_error hw (Prod.ext hf rfl)

end Workspace

namespace PatchState

@[simp] theorem runOn_onWork (t : Task Workspace α) (s : PatchState) :
    (onWork t).runOn s = ((t.runOn s.work).1, { s with work := (t.runOn s.work).2 }) := rfl

@[simp] theorem runOn_liftM (t : Task Workspace α) (s : PatchState) :
    (liftM t : Task PatchState α).runOn s =
      ((t.runOn s.work).1, { s with work := (t.runOn s.work).2 }) := rfl

end PatchState

end CrossBuild
