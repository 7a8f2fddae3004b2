import CrossBuild.Proofs.Run.Aside
import CrossBuild.Proofs.Run.Receipt

/-!
# What lasts through a run

Beside its yard a run changes the engine's files and their backups alone. So a property of the files
that work in the yard keeps, and that writing those files and removing the backups keeps as well, holds
whenever a run gets to a target, and at the end of the run, however it ends.
-/

namespace CrossBuild

open FileSystem Workspace CrossBuild.Task

variable {c : Config} {tools : Tools} {J : FileSystem → Prop}

namespace Build

/-- A run gets to a target in a workspace: its setup succeeds, the targets before it are built, and
this one is announced. -/
def Reaches (T : Toolchain) (b : BuildState) (t : Target) (w : Workspace) : Prop :=
  ∃ b₁ before after results w₁, (stages (setup T)).runOn b = (.ok true, b₁) ∧
    T.config.targets = before ++ t :: after ∧
    (TargetBuild.buildAll T b₁.host before).runOn b₁.patching.work = (.ok results, w₁) ∧
    (info s!"--- Compiling for: {t.id} ---").runOn w₁ = (.ok (), w)

/-- A run whose setup succeeds gets to its first target. -/
theorem exists_reaches {T : Toolchain} {b : BuildState} {t : Target} {rest : List Target}
    (hsetup : ((stages (setup T)).runOn b).1 = .ok true) (htargets : T.config.targets = t :: rest) :
    ∃ w, Reaches T b t w ∧ w.files = ((stages (setup T)).runOn b).2.patching.work.files :=
  ⟨_, ⟨_, [], rest, [], _, Prod.ext hsetup rfl, htargets, rfl, rfl⟩, rfl⟩

theorem keeps_stage {P : PatchState → Prop} {task : Task BuildState Unit} (s : Stage)
    (hreport : ∀ message, Keeps P (PatchState.onWork (error message)))
    (htask : Keeps (fun b => P b.patching) task) : Keeps (fun b => P b.patching) (stage s task) :=
  keeps_iff.2 <| (meets_stage hreport s (keeps_iff.1 htask)).weaken (fun _ hb => hb)
    (fun ok _ hb => by cases ok <;> exact hb) fun _ _ hb => hb

theorem keeps_stages {P : PatchState → Prop} {l : List (Stage × Task BuildState Unit)}
    (hreport : ∀ message, Keeps P (PatchState.onWork (error message)))
    (htasks : ∀ e ∈ l, Keeps (fun b => P b.patching) e.2) :
    Keeps (fun b => P b.patching) (stages l) := by
  induction l with
  | nil => exact keeps_pure true
  | cons e l ih =>
    obtain ⟨s, task⟩ := e
    rw [stages]
    refine (keeps_stage s hreport (htasks (s, task) List.mem_cons_self)).bind fun ok => ?_
    exact Keeps.ite (ih fun e he => htasks e (List.mem_cons_of_mem _ he)) (keeps_pure false)

end Build

namespace Config

/-- A property of the files that lasts: work in the yard keeps it, and so does what is done to the
engine's files and their backups. -/
structure Lasts (c : Config) (J : FileSystem → Prop) : Prop extends c.Aside J where
  write : ∀ f : EngineFile, ∀ n ∈ f.names, ∀ b,
    Keeps J (write ⟨c.engine.anchor, c.engine.parts ++ [n]⟩ b)
  unlink : ∀ f : EngineFile, Keeps J (unlink (c.engineBackup f))

/-- While a run goes on the property holds, and the ledger is one of the engine's files. -/
def Lasting (c : Config) (J : FileSystem → Prop) : PatchState → Prop :=
  PatchState.Of (fun fs _ => J fs) fun ledger => ledger.Covers c.enginePaths

section
variable (hwrite : ∀ f : EngineFile, ∀ n ∈ f.names, ∀ b,
  Keeps J (FileSystem.write ⟨c.engine.anchor, c.engine.parts ++ [n]⟩ b))
include hwrite

theorem keeps_writeSource (f : EngineFile) (b : Bytes) :
    Keeps J (FileSystem.write (c.engineFile f) b) := by
  rw [engineFile_eq]
  exact hwrite f _ List.mem_cons_self b

theorem keeps_writeBackup (f : EngineFile) (b : Bytes) :
    Keeps J (FileSystem.write (c.engineBackup f) b) := by
  rw [engineBackup_eq]
  exact hwrite f _ (by simp [EngineFile.names]) b

/-- Patching keeps what writing the engine's files and their backups keeps. -/
theorem keeps_patch_of : Keeps (c.Lasting J) (Build.patch c) := by
  refine keeps_iff.2 (Build.meets_patch_of (fun _ _ _ hs => hs) (fun _ _ hs => hs) fun starter => ?_)
  refine Ledger.meets_patchEngine_of (fun f => keeps_iff.1 ?_) _
  exact Ledger.keeps_patchFile_of (mem_enginePaths.2 ⟨f, rfl⟩) (c.backupOf_engineFile f)
    (keeps_writeSource hwrite f) (keeps_writeBackup hwrite f) _

end

section
variable (hwrite : ∀ (f : EngineFile) (b : Bytes), Keeps J (FileSystem.write (c.engineFile f) b))
  (hunlink : ∀ f : EngineFile, Keeps J (FileSystem.unlink (c.engineBackup f)))
include hwrite hunlink

theorem keeps_restoreFile {f : EngineFile} {record : PatchRecord} (hsource : record.source = c.engineFile f)
    (hbackup : record.backup = c.engineBackup f) : Keeps J (Ledger.restoreFile record) := by
  unfold Ledger.restoreFile
  rw [hsource, hbackup]
  exact (keeps_copyFile_of (hwrite f)).bind fun _ => hunlink f

/-- Restoring keeps what writing the engine's files and removing their backups keeps. -/
theorem meets_restore_of : Meets (c.Lasting J) Ledger.restore (fun _ s => J s.work.files)
    fun _ s => J s.work.files := by
  refine Meets.bind (M := fun entries s => Ledger.Covers entries c.enginePaths ∧ J s.work.files) ?_
    fun entries => Meets.assuming fun hcovers => keeps_iff.1 ?_
  · refine Meets.ask (fun entries s hs hentries => ?_) fun _ _ hs _ => hs.1
    rw [← Except.ok.inj hentries]
    exact ⟨hs.2, hs.1⟩
  · refine Ledger.keeps_restoreEach (I := Of fun fs _ => J fs) keeps_report fun e he =>
      Workspace.keeps_onFiles fun _ => ?_
    obtain ⟨hsource, hbackup⟩ := hcovers.sound e he
    obtain ⟨f, hf⟩ := mem_enginePaths.1 ((hcovers.keys e.1).1 (List.mem_map_of_mem he))
    rw [hf] at hsource hbackup
    rw [c.backupOf_engineFile] at hbackup
    exact keeps_restoreFile hwrite hunlink hsource (Except.ok.inj hbackup).symm

end

namespace Lasts

variable (h : c.Lasts J)
include h

theorem keeps_patch : Keeps (c.Lasting J) (Build.patch c) :=
  keeps_patch_of h.write

theorem meets_restore : Meets (c.Lasting J) Ledger.restore (fun _ s => J s.work.files)
    fun _ s => J s.work.files :=
  meets_restore_of (keeps_writeSource h.write) h.unlink

variable (hc : c.Sensible)
include hc

theorem meets_teardown : Meets (fun b => c.Lasting J b.patching) (Build.teardown c)
    (fun _ b => J b.patching.work.files) fun _ b => J b.patching.work.files := by
  have hcleanup : Meets (c.Lasting J) (PatchState.onWork (Build.cleanup c)) (fun _ => c.Lasting J)
      fun _ s => J s.work.files :=
    (PatchState.keeps_onWork (h.keeps_cleanup hc)).meets fun _ _ hs => hs.1
  exact Build.meets_teardown_of hcleanup h.meets_restore

variable (htools : tools.WritesOnlyOutput) (hnames : ∀ part ∈ c.root.parts, IsName part)
include htools hnames

theorem keeps_setup : Keeps (fun b => c.Lasting J b.patching)
    (Build.stages (Build.setup (Toolchain.ofConfig c tools))) := by
  refine Build.keeps_stages (fun message s hs => hs) fun e he => ?_
  simp only [Build.setup, List.mem_cons, List.not_mem_nil, or_false] at he
  obtain rfl | rfl | rfl := he
  · exact BuildState.keeps_onWork (h.keeps_clean hc)
  · exact fun b hb => h.keeps_patch b.patching hb
  · exact (h.buildable hc htools hnames).keeps_prepareHost

theorem keeps_forward : Keeps (fun b => c.Lasting J b.patching)
    (Build.forward (Toolchain.ofConfig c tools)) := by
  rw [Build.forward_eq]
  refine (h.keeps_setup hc htools hnames).bind fun ok => Keeps.ite ?_ (keeps_pure _)
  refine (h.buildable hc htools hnames).keeps_buildTargets.bind fun results => ?_
  exact Keeps.bind (fun _ hb => hb) fun _ _ hb => hb

/-- **What lasts** holds at the end of a run. -/
theorem run {w : Workspace} (hw : J w.files) (now : String) (write : Bool) :
    J ((Build.run (Toolchain.ofConfig c tools) now write).runOn w).2.files := by
  have hbegun : ∀ s : PatchState, s.work = w → s.ledger.Covers c.enginePaths → c.Lasting J s := by
    rintro s rfl hcovers
    exact ⟨hw, hcovers⟩
  refine Build.meets_run (Of fun fs _ => J fs) ?_ hbegun
  exact Build.meets_execute_of _ (keeps_iff.1 (h.keeps_forward hc htools hnames)) (h.meets_teardown hc)
    (Build.keeps_summary keeps_report) (h.keeps_writeReceipt hc)

/-- It holds whenever the run gets to a target. -/
theorem of_reaches {w wt : Workspace} (hw : J w.files) {now : String} {b : BuildState}
    (hstart : Build.start c now w = .ok b) {t : Target}
    (hreaches : Build.Reaches (Toolchain.ofConfig c tools) b t wt) : J wt.files := by
  obtain ⟨b₁, before, after, results, w₁, hsetup, htargets, hbuilt, hinfo⟩ := hreaches
  obtain ⟨s, hs, hwork, hcovers⟩ := Build.start_ok c now w
  obtain rfl := Except.ok.inj (hs.symm.trans hstart)
  have hb : c.Lasting J s.patching := ⟨by rwa [Workspace.Of, hwork], hcovers⟩
  have hb₁ := h.keeps_setup hc htools hnames s hb
  rw [hsetup] at hb₁
  have hsub : ∀ u ∈ before, u ∈ c.targets := by
    intro u hu
    rw [show c.targets = before ++ t :: after from htargets]
    exact List.mem_append_left _ hu
  have hw₁ := (h.buildable hc htools hnames).keeps_buildAll b₁.host hsub b₁.patching.work hb₁.1
  rw [hbuilt] at hw₁
  obtain ⟨-, rfl⟩ := Prod.mk.inj hinfo
  exact hw₁

end Lasts

end Config

end CrossBuild
