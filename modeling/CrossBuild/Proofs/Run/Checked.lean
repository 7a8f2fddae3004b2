import CrossBuild.Proofs.Run.Stages

/-!
# What the setup of a run checks

Before any tool runs, the stages look at the compiler, at the directory of the engine, at the modules'
files and at the precompiler that is given for this machine, and they read the files of the engine that
they patch. When they have passed, all of that is known: it is the one way through them.
-/

namespace CrossBuild

open FileSystem Workspace CrossBuild.Task

variable {c : Config} {fs fs' : FileSystem} {p q : Path}

/-! ## Files that are read and written again -/

namespace Ledger

variable {patches : List Patch} {l : Location} {content : Bytes} {text : SourceText}

/-- A file stays one, whichever file is patched. -/
theorem Rewritten.isFile (h : Rewritten p patches fs fs' l content text)
    (hq : fs.isFile q = .ok true) : fs'.isFile q = .ok true := by
  obtain ⟨m, b, x, hplace, hfile⟩ := isFile_eq_true_iff.1 hq
  obtain ⟨_, -, hr⟩ := h.refiled
  refine isFile_eq_true_iff.2 ?_
  by_cases hm : m = l
  · obtain ⟨y, hwritten⟩ := h.written
    exact ⟨m, text.toBytes, y, hr.place hplace, hm ▸ hwritten⟩
  · refine ⟨m, b, x, hr.place hplace, (hr.others m ?_).trans hfile⟩
    rintro (heq | ⟨hnone, -⟩)
    · exact hm heq
    · rw [hfile] at hnone
      cases hnone

theorem Rewritten.isFile_self (h : Rewritten p patches fs fs' l content text) :
    fs'.isFile p = .ok true := by
  obtain ⟨_, -, hr⟩ := h.refiled
  obtain ⟨x, hwritten⟩ := h.written
  exact isFile_eq_true_iff.2 ⟨l, text.toBytes, x, hr.place h.place, hwritten⟩

/-- What patching the engine brings about for any file that there is: it stays one, and each file that
patches are for is one. -/
theorem isFile_of_patchEngine {place : EngineFile → Path} {modules : List String}
    {starter : Option String} (files : List EngineFile) :
    ∀ s changed s', s.ledger.Sound →
      (patchEngine place modules starter files).runOn s = (.ok changed, s') →
      s'.work.files.workingDirectory = s.work.files.workingDirectory ∧
        (∀ q, s.work.files.isFile q = .ok true → s'.work.files.isFile q = .ok true) ∧
        ∀ f ∈ files, Patch.plan modules starter f ≠ [] → s'.work.files.isFile (place f) = .ok true := by
  induction files with
  | nil =>
    intro s changed s' _ hrun
    obtain ⟨-, rfl⟩ := Prod.mk.inj hrun
    exact ⟨rfl, fun _ hq => hq, fun f hf => by cases hf⟩
  | cons f files ih =>
    intro s changed s' hs hrun
    rw [patchEngine] at hrun
    split at hrun
    · next hempty =>
      obtain ⟨hdirectory, hkept, hplanned⟩ := ih s changed s' hs hrun
      refine ⟨hdirectory, hkept, List.forall_mem_cons.2 ⟨fun hne => ?_, hplanned⟩⟩
      exact absurd (List.isEmpty_iff.1 hempty) hne
    · obtain ⟨first, s₁, hfile, hrun⟩ := of_runOn_bind hrun
      obtain ⟨rest, s₂, hrest, hrun⟩ := of_runOn_bind hrun
      obtain ⟨-, rfl⟩ := Prod.mk.inj hrun
      obtain ⟨hs₁, l, content, text, hrewritten⟩ := patchFile_ok hs (Patch.solid_plan f) hfile
      obtain ⟨hdirectory, hkept, hplanned⟩ := ih s₁ rest s₂ hs₁ hrest
      obtain ⟨_, -, hr⟩ := hrewritten.refiled
      refine ⟨hdirectory.trans hr.workingDirectory, fun q hq => hkept q (hrewritten.isFile hq), ?_⟩
      exact List.forall_mem_cons.2 ⟨fun _ => hkept _ hrewritten.isFile_self, hplanned⟩

end Ledger

/-! ## The stage that patches -/

/-- What the second stage looks at is there. -/
structure Config.Found (c : Config) (fs : FileSystem) : Prop where
  compiler : fs.isPresent c.compiler = .ok true
  engine : fs.isDirectory c.engine = .ok true
  modules : ∀ m ∈ c.modules, fs.isFile m.source = .ok true

namespace Build

/-- Looking tells what the files say, and leaves them alone. -/
theorem meets_look_files {α : Type} (f : FileSystem → Except Failure α) :
    Meets (fun w => w.files = fs) (look f) (fun a w => f fs = .ok a ∧ w.files = fs)
      fun _ _ => True := by
  refine meets_of_runOn ?_ fun _ _ _ _ _ => trivial
  rintro w w' a rfl hrun
  obtain ⟨hvalue, rfl⟩ := Prod.mk.inj hrun
  exact ⟨hvalue, rfl⟩

theorem meets_checkModule (m : Module) :
    Meets (fun w => w.files = fs) (checkModule m)
      (fun _ w => fs.isFile m.source = .ok true ∧ w.files = fs) fun _ _ => True := by
  unfold checkModule
  refine (meets_look_files _).bind fun isFile => Meets.assuming fun hfile => ?_
  cases isFile with
  | false => exact Meets.throw fun _ _ => trivial
  | true => exact Meets.pure fun _ hs => ⟨hfile, hs⟩

/-- The second stage succeeds only if it finds all that it looks at. -/
theorem meets_patch_checks (c : Config) :
    Meets (fun s => s.work.files = fs) (patch c) (fun _ _ => c.Found fs) fun _ _ => True := by
  have hwork : ∀ {α : Type} {known : α → Prop} {task : Task Workspace α},
      Meets (fun w => w.files = fs) task (fun a w => known a ∧ w.files = fs) (fun _ _ => True) →
      Meets (fun s : PatchState => s.work.files = fs) (PatchState.onWork task)
        (fun a s => known a ∧ s.work.files = fs) fun _ _ => True := fun htask =>
    Meets.onPart htask (fun _ hs => hs) (fun _ _ _ _ hw => hw) fun _ _ _ _ hw => hw
  have hlook := fun f : FileSystem → Except Failure Bool => hwork (meets_look_files f)
  have hrest : ∀ {rest : Task PatchState Unit}, c.Found fs →
      Meets (fun s => s.work.files = fs) rest (fun _ _ => c.Found fs) fun _ _ => True := fun hfound =>
    meets_of_runOn (fun _ _ _ _ _ => hfound) fun _ _ _ _ _ => trivial
  unfold patch
  refine Meets.bind (M := fun _ s => s.work.files = fs) ?_ fun _ => ?_
  · exact Keeps.meets (fun _ hs => hs) fun _ _ _ => trivial
  refine (hlook _).bind fun isPresent => Meets.assuming fun hcompiler => ?_
  cases isPresent with
  | false => exact Meets.throw fun _ _ => trivial
  | true =>
    refine (hlook _).bind fun isDirectory => Meets.assuming fun hengine => ?_
    cases isDirectory with
    | false => exact Meets.throw fun _ _ => trivial
    | true =>
      refine Meets.bind (meets_forIn fun m _ => ?_) fun _ => Meets.assuming fun hmodules =>
        hrest ⟨hcompiler, hengine, hmodules⟩
      exact (hwork (meets_checkModule m)).bind fun _ => Meets.pure fun s hs => ⟨rfl, hs⟩

/-- The second stage leaves a file at each path that it has patches for, with the process starter that
it found. -/
theorem meets_patch_files (c : Config) :
    Meets (fun s => s.work.files = fs ∧ s.ledger.Sound) (patch c)
      (fun _ s => s.work.files.workingDirectory = fs.workingDirectory ∧
        ∃ starter, starterIn c fs = .ok starter ∧ ∀ f,
          Patch.plan (c.modules.map (·.name)) starter f ≠ [] →
            s.work.files.isFile (c.engineFile f) = .ok true) fun _ _ => True := by
  refine meets_patch_found (fun _ _ _ hs => hs) (fun _ _ _ => trivial) fun starter => ?_
  refine meets_of_runOn ?_ fun _ _ _ _ _ => trivial
  rintro s s' changed ⟨⟨rfl, hledger⟩, hstarter⟩ hrun
  obtain ⟨hdirectory, -, hplanned⟩ :=
    Ledger.isFile_of_patchEngine EngineFile.all s changed s' hledger hrun
  exact ⟨hdirectory, starter, hstarter, fun f => hplanned f f.mem_all⟩

/-! ## The stage that cleans -/

/-- Cleaning leaves the working directory where it is. -/
theorem keeps_clean_here (c : Config) (d : Location) :
    Keeps (fun w => w.files.workingDirectory = d) (clean c) := by
  have hfiles : ∀ {task : Task FileSystem Unit},
      Keeps (fun fs => fs.workingDirectory = d) task →
      Keeps (fun w : Workspace => w.files.workingDirectory = d) (liftM task) :=
    fun htask w hw => htask w.files hw
  have hremove : ∀ p, Keeps (fun fs => fs.workingDirectory = d) (removeTree p) := by
    intro p fs hfs
    show (removeTree p fs).2.workingDirectory = d
    unfold removeTree
    repeat' split
    all_goals exact hfs
  refine keeps_clean_of (fun _ _ _ hw => hw) (hfiles (hremove _)) (fun p _ => ?_) ?_
  · exact hfiles (keeps_makeDirectories_of fun q _ _ => keeps_makeDirectory_of fun _ _ h _ _ => h)
  · exact hfiles (keeps_write_of fun _ _ _ h _ _ => h)

end Build

/-! ## The whole setup -/

/-- **What is known when tools run.** The compiler, the engine and the modules' files were there when the
second stage began, each file that it patched is a file when it is over, and so is the precompiler that
is given for this machine. All of that was asked from one directory. -/
structure Config.Checked (c : Config) (d : Location) (fs fs' : FileSystem) : Prop where
  found : c.Found fs
  patched : ∃ starter, Build.starterIn c fs = .ok starter ∧ ∀ f,
    Patch.plan (c.modules.map (·.name)) starter f ≠ [] → fs'.isFile (c.engineFile f) = .ok true
  precompiler : ∀ p, c.hostPrecompiler = some p → fs'.isFile p = .ok true
  here : fs.workingDirectory = d ∧ fs'.workingDirectory = d

namespace Build

/-- The stages that clean and patch, run on a workspace, have passed. -/
structure Passed (c : Config) (w w₁ : Workspace) (s₂ : PatchState) : Prop where
  clean : (Build.clean c).runOn w = (.ok (), w₁)
  patch : ∃ s₁, s₁.work = w₁ ∧ s₁.ledger.Sound ∧ (Build.patch c).runOn s₁ = (.ok (), s₂)

variable {w w₁ : Workspace} {s₂ : PatchState}

/-- Nothing but the precompiler for this machine is left to check when the two stages have passed. -/
theorem Passed.checked (h : Passed c w w₁ s₂)
    (hprecompiler : ∀ p, c.hostPrecompiler = some p → s₂.work.files.isFile p = .ok true) :
    c.Checked w.files.workingDirectory w₁.files s₂.work.files := by
  obtain ⟨s₁, rfl, hledger, hpatch⟩ := h.patch
  have hfound : c.Found s₁.work.files := (meets_patch_checks c).of_ok rfl hpatch
  obtain ⟨hdirectory, hpatched⟩ := (meets_patch_files c).of_ok ⟨rfl, hledger⟩ hpatch
  have hclean : s₁.work.files.workingDirectory = w.files.workingDirectory :=
    (keeps_iff.1 (keeps_clean_here c w.files.workingDirectory)).of_ok rfl h.clean
  exact ⟨hfound, hpatched, hprecompiler, hclean, hdirectory.trans hclean⟩

end Build

end CrossBuild
