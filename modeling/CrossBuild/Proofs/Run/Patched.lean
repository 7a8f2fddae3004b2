import CrossBuild.Proofs.Patch.Engine
import CrossBuild.Proofs.Run.Cleaned
import CrossBuild.Proofs.Run.Engine
import CrossBuild.Proofs.Run.Stages

/-!
# A patched engine

When the second stage of a run succeeds, every file of the engine holds the texts of every module,
even if links make one file of several. Then it stays so while work goes on in the build trees and
tools leave the engine's files alone.
-/

namespace CrossBuild

open FileSystem SourceText Workspace CrossBuild.Task

variable {fs fs' fs₁ : FileSystem} {c : Config}

/-- A text is in the file that a path leads to. -/
def FileSystem.Holds (fs : FileSystem) (p : Path) (t : String) : Prop :=
  ∃ b, fs.content p = .ok b ∧ ofString t <:+: ofBytes b

/-! ## Patching -/

namespace Ledger.Rewritten

variable {p q : Path} {patches : List Patch} {l : Location} {content : Bytes} {text : SourceText}
  {t : String}

/-- What the patched text holds is in the file. -/
theorem holds (h : Rewritten p patches fs fs' l content text) (ht : ofString t <:+: text) :
    fs'.Holds p t := by
  obtain ⟨_, -, hr⟩ := h.refiled
  obtain ⟨x, hnew⟩ := h.written
  refine ⟨text.toBytes, content_eq_ok_iff.2 ⟨l, x, hr.place h.place, hnew⟩, ?_⟩
  rw [h.normal]
  exact ht

/-- What any file holds it still holds, if the patches spare it. -/
theorem holds_other (h : Rewritten p patches fs fs' l content text)
    (hspares : ∀ patch ∈ patches, patch.Spares ofString (ofString t)) (ht : fs.Holds q t) :
    fs'.Holds q t := by
  obtain ⟨b, hb, hin⟩ := ht
  obtain ⟨m, x, hplace, hfile⟩ := content_eq_ok_iff.1 hb
  obtain ⟨_, -, hr⟩ := h.refiled
  by_cases hm : m = l
  · -- the same file by another path
    subst hm
    obtain ⟨x', hread⟩ := h.read
    obtain ⟨rfl, -⟩ := Node.file.inj (Option.some.inj (hfile.symm.trans hread))
    obtain ⟨x'', hnew⟩ := h.written
    refine ⟨text.toBytes, content_eq_ok_iff.2 ⟨m, x'', hr.place hplace, hnew⟩, ?_⟩
    rw [h.normal]
    exact Patch.within_of_applyAll? hspares h.patched hin
  · have hsame : fs'.node? m = fs.node? m := by
      refine hr.others m ?_
      rintro (heq | ⟨hnone, -⟩)
      · exact hm heq
      · rw [hfile] at hnone
        cases hnone
    exact ⟨b, content_eq_ok_iff.2 ⟨m, x, hr.place hplace, hsame.trans hfile⟩, hin⟩

end Ledger.Rewritten

namespace Config

/-- Some files of the engine hold the texts of every module. -/
def Equipped (c : Config) (files : List EngineFile) (fs : FileSystem) : Prop :=
  ∀ f ∈ files, ∀ m ∈ c.modules, ∀ t ∈ Patch.texts m.name f, fs.Holds (c.engineFile f) t

/-- The directories and the links are as they were. -/
structure Alike (fs₁ fs : FileSystem) : Prop where
  sound : fs.Sound
  workingDirectory : fs.workingDirectory = fs₁.workingDirectory
  guides : ∀ l, fs.guide? l = fs₁.guide? l

/-- A file may be patched before another one: the other one's patches spare its texts. -/
def Before (f g : EngineFile) : Prop :=
  f = .library ∨ g ≠ .library

theorem pairwise_before : EngineFile.all.Pairwise Before := by
  unfold Before
  decide

variable {f : EngineFile} {files before : List EngineFile} {s s' : PatchState}
  {starter : Option String}

theorem Alike.rewritten {patches : List Patch} {l : Location} {content : Bytes} {text : SourceText}
    (h : Alike fs₁ fs) (hr : Ledger.Rewritten (c.engineFile f) patches fs fs' l content text) :
    Alike fs₁ fs' := by
  obtain ⟨q, hq, hrefiled⟩ := hr.refiled
  refine ⟨h.sound.refiled hrefiled ?_, hrefiled.workingDirectory.trans h.workingDirectory,
    fun m => (hrefiled.guides m).trans (h.guides m)⟩
  rintro m (rfl | ⟨hnone, hplace⟩) -
  · obtain ⟨x, hread⟩ := hr.read
    exact h.sound.isEntry hread (isSpot_of_file hread).ne_nil
  · rw [c.backupOf_engineFile f] at hq
    rw [← Except.ok.inj hq, c.engineBackup_eq] at hplace
    exact h.sound.isEntry_of_place_last
      (f.isName_of_mem_names _ (by simp [EngineFile.names])) hplace hnone

/-- The plan of a file is not empty if there are texts for it. -/
theorem plan_ne_nil {m : Module} {t : String} (hm : m ∈ c.modules) (ht : t ∈ Patch.texts m.name f) :
    Patch.plan (c.modules.map (·.name)) starter f ≠ [] := by
  obtain ⟨p, hp, -⟩ := Patch.exists_patch_of_text starter (List.mem_map_of_mem hm) ht
  exact List.ne_nil_of_mem hp

/-- **Patching** puts the texts of every module into the files, one file after the other. -/
theorem equipped_patchEngine
    (hnames : ∀ m ∈ c.modules, Module.isName m.name.toList = true) (files : List EngineFile) :
    ∀ before s changed s', (before ++ files).Pairwise Before → Alike fs₁ s.work.files →
      s.ledger.Sound → c.Equipped before s.work.files →
      (Ledger.patchEngine c.engineFile (c.modules.map (·.name)) starter files).runOn s =
        (.ok changed, s') →
      Alike fs₁ s'.work.files ∧ s'.ledger.Sound ∧ c.Equipped (before ++ files) s'.work.files := by
  induction files with
  | nil =>
    intro before s changed s' _ hs hledger hbefore hrun
    obtain ⟨-, rfl⟩ := Prod.mk.inj hrun
    rw [List.append_nil]
    exact ⟨hs, hledger, hbefore⟩
  | cons f files ih =>
    intro before s changed s' hpairwise hs hledger hbefore hrun
    have hearlier : ∀ g ∈ before, Before g f := fun g hg =>
      (List.pairwise_append.1 hpairwise).2.2 g hg f List.mem_cons_self
    rw [List.append_cons] at hpairwise ⊢
    rw [Ledger.patchEngine] at hrun
    split at hrun
    · next hempty =>
      refine ih (before ++ [f]) s changed s' hpairwise hs hledger ?_ hrun
      intro g hg m hm t ht
      rcases List.mem_append.1 hg with hg | hg
      · exact hbefore g hg m hm t ht
      · rw [List.mem_singleton.1 hg] at ht
        exact absurd (List.isEmpty_iff.1 hempty) (plan_ne_nil hm ht)
    · rw [runOn_bind] at hrun
      rcases hfile : (Ledger.patchFile (c.engineFile f)
        (Patch.plan (c.modules.map (·.name)) starter f)).runOn s with ⟨r, s₁⟩
      rw [hfile] at hrun
      rcases r with e | first
      · cases hrun
      dsimp only at hrun
      rw [runOn_bind] at hrun
      rcases hrest : (Ledger.patchEngine c.engineFile (c.modules.map (·.name)) starter
        files).runOn s₁ with ⟨r, s₂⟩
      rw [hrest] at hrun
      rcases r with e | rest
      · cases hrun
      obtain ⟨-, rfl⟩ := Prod.mk.inj hrun
      obtain ⟨hledger₁, l, content, text, hrewritten⟩ :=
        Ledger.patchFile_ok hledger (Patch.solid_plan f) hfile
      refine ih (before ++ [f]) s₁ rest s₂ hpairwise (hs.rewritten hrewritten) hledger₁ ?_ hrest
      intro g hg m hm t ht
      have hname : m.name ∈ c.modules.map (·.name) := List.mem_map_of_mem hm
      rcases List.mem_append.1 hg with hg | hg
      · exact hrewritten.holds_other
          (Patch.spares_texts (hnames m hm) ht (hearlier g hg)) (hbefore g hg m hm t ht)
      · rw [List.mem_singleton.1 hg] at ht ⊢
        exact hrewritten.holds (Patch.text_within (hnames m hm) hname ht hrewritten.patched)

/-- What the second stage of a run brings about: no directory and no link where the build trees go,
and patched files. -/
structure Patched (c : Config) (fs : FileSystem) : Prop where
  sound : fs.Sound
  real : fs.IsReal c.trees.root
  empty : ∀ l, c.trees.Within l → fs.guide? l = none
  equipped : c.Equipped EngineFile.all fs

theorem meets_patch (hnames : ∀ m ∈ c.modules, Module.isName m.name.toList = true) :
    Meets (fun s => c.Cleaned s.work.files ∧ s.ledger.Sound) (Build.patch c)
      (fun _ s => c.Patched s.work.files) fun _ _ => True := by
  refine Build.meets_patch_of (fun _ _ _ hs => hs) (fun _ _ _ => trivial) fun starter => ?_
  refine meets_of_runOn ?_ fun _ _ _ _ _ => trivial
  intro s s' changed hs hrun
  obtain ⟨hcleaned, hledger⟩ := hs
  have hstart : Alike s.work.files s.work.files := ⟨hcleaned.sound, rfl, fun _ => rfl⟩
  obtain ⟨halike, -, hequipped⟩ := equipped_patchEngine hnames EngineFile.all [] s changed s'
    pairwise_before hstart hledger (fun f hf => by cases hf) hrun
  refine ⟨halike.sound, hcleaned.real.congr fun m _ => halike.guides m, fun l hl => ?_, hequipped⟩
  rw [halike.guides l, guide?, hcleaned.empty l hl]
  rfl

/-! ## What follows -/

/-- While work goes on in the build trees, files of the engine stay as they were. -/
structure Standing (c : Config) (fs₁ fs : FileSystem) : Prop where
  held : c.trees.Held fs₁ fs
  files : ∀ f l b x, fs₁.place true (c.engineFile f) = .ok l → fs₁.node? l = some (.file b x) →
    fs.node? l = some (.file b x)

theorem Patched.standing (h : c.Patched fs) : c.Standing fs fs where
  held := by
    refine ⟨h.sound, h.real, fun l hl target ht => ?_, rfl, fun _ _ => rfl⟩
    have := h.empty l hl
    rw [guide?_eq_link_iff.2 ht] at this
    cases this
  files _ _ _ _ _ hb := hb

/-- A file in the build trees is at the top, where no build goes in place of it. -/
theorem Patched.base (h : c.Patched fs) {l : Location} {b : Bytes} {x : Bool}
    (hl : c.trees.Within l) (hfile : fs.node? l = some (.file b x)) :
    ∃ n ∈ c.trees.names, l = c.trees.root ++ [n] := by
  obtain ⟨n, hn, xs, rfl⟩ := hl
  refine ⟨n, hn, ?_⟩
  rcases List.eq_nil_or_concat xs with rfl | ⟨ys, k, rfl⟩
  · rw [List.append_nil]
  · -- the directory of the file would be in the build trees
    rw [List.concat_eq_append, ← List.append_assoc] at hfile
    have hdir := isDirectoryAt_iff.1 (h.sound.parents _ k _ hfile)
    have := h.empty _ ⟨n, hn, ys, rfl⟩
    rw [guide?_eq_directory_iff.2 hdir] at this
    cases this

theorem Standing.place (h : c.Patched fs₁) (hs : c.Standing fs₁ fs) {l : Location} {b : Bytes}
    {x : Bool} (hplace : fs₁.place true (c.engineFile f) = .ok l)
    (hfile : fs₁.node? l = some (.file b x)) : fs.place true (c.engineFile f) = .ok l := by
  refine place_stable hs.held.workingDirectory hplace (fun m hm => ?_) ?_
  · by_cases hwithin : c.trees.Within m
    · exact absurd (h.empty m hwithin) hm
    · exact hs.held.guides m hwithin
  · exact guide?_of_node?_eq ((hs.files f l b x hplace hfile).trans hfile.symm)

theorem Standing.equipped (h : c.Patched fs₁) (hs : c.Standing fs₁ fs) :
    c.Equipped EngineFile.all fs := by
  intro f hf m hm t ht
  obtain ⟨b, hb, hin⟩ := h.equipped f hf m hm t ht
  obtain ⟨l, x, hplace, hfile⟩ := content_eq_ok_iff.1 hb
  exact ⟨b, content_eq_ok_iff.2 ⟨l, x, hs.place h hplace hfile, hs.files f l b x hplace hfile⟩, hin⟩

theorem Standing.work (h : c.Patched fs₁) (hs : c.Standing fs₁ fs) (hk : c.trees.Kept fs fs') :
    c.Standing fs₁ fs' where
  held := hs.held.kept hk
  files f l b x hplace hfile := by
    have hnow := hs.files f l b x hplace hfile
    by_cases hwithin : c.trees.Within l
    · obtain ⟨n, hn, rfl⟩ := h.base hwithin hfile
      exact hk.files n hn b x hnow
    · exact (hk.outside l hwithin).trans hnow

/-- The tools write to no file of the engine. -/
def Unharmed (c : Config) (tools : Tools) : Prop :=
  ∀ earlier command fs f l, fs.place true (c.engineFile f) = .ok l →
    (tools.run earlier command fs).2.node? l = fs.node? l

theorem Standing.tool {tools : Tools} {earlier : List Invocation} {command : Command} {p : Path}
    (h : c.Patched fs₁) (hs : c.Standing fs₁ fs) (htools : tools.WritesOnlyOutput)
    (hunharmed : c.Unharmed tools) (hp : c.IsOutput p) (hout : command.output? = some p) :
    c.Standing fs₁ (tools.run earlier command fs).2 where
  held := by
    have hr := htools earlier command fs
    simp only [hout, Option.some.injEq, exists_eq_left'] at hr
    have hroot : ∀ part ∈ c.root.parts, IsName part := fun part hpart =>
      h.real.names part (List.mem_append_left _ hpart)
    have hne : p.parts ≠ [] := by
      obtain ⟨d, n, -, -, -, rfl⟩ := hp
      simp
    refine hs.held.refiled hr fun l hl hspot => ?_
    exact hs.held.sound.isEntry_of_place_file (hp.proper hroot) hne hl
      (Yard.not_isDirectoryAt_of_isSpot hspot)
  files f l b x hplace hfile := by
    rw [hunharmed earlier command fs f l (hs.place h hplace hfile)]
    exact hs.files f l b x hplace hfile

end Config

end CrossBuild
