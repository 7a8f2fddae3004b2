import CrossBuild.Proofs.FileSystem.Held
import CrossBuild.Proofs.Run.Lasting
import CrossBuild.Proofs.Run.Project
import CrossBuild.Proofs.SourceTree.Located

/-!
# What a run leaves of the sources

Beside its yard a run writes where the paths of the engine's files and of their backups lead, and
removes the backups. A path leads where it is resolved to, unless it ends at a link; and no link is made
or turned into something else, though one that is a backup may be removed. So a file of the sources
that is none of the engine stays as it is.
-/

namespace CrossBuild

open FileSystem CrossBuild.Task

variable {c : Config} {tools : Tools} {fs₀ fs fs' : FileSystem} {l : Location} {p : Path} {n : String}

namespace Config

/-- A file of the engine, or the backup of one, is what stands at a location. -/
def IsEngineSpot (c : Config) (fs : FileSystem) (l : Location) : Prop :=
  ∃ f, ∃ n ∈ EngineFile.names f,
    fs.resolve ⟨c.engine.anchor, c.engine.parts ++ [n]⟩ = .ok (pathOf l)

/-- Outside of its yard a run touches what is at the engine's places, and removes a link at most. A
file where the yard begins stays. -/
structure Untouched (c : Config) (fs₀ fs : FileSystem) : Prop where
  sound : fs.Sound
  real : fs.IsReal c.root.parts
  noLink : ∀ l, c.yard.Within l → ∀ target, fs.node? l ≠ some (.link target)
  workingDirectory : fs.workingDirectory = fs₀.workingDirectory
  guides : ∀ l, ¬ c.yard.Within l → fs.guide? l = fs₀.guide? l ∨
    (fs.guide? l = none ∧ ∃ target, fs₀.node? l = some (.link target))
  same : ∀ l, ¬ c.yard.Within l → ¬ c.IsEngineSpot fs₀ l →
    (∀ target, fs₀.node? l ≠ some (.link target)) → fs.node? l = fs₀.node? l
  files : ∀ n ∈ c.yard.names, ¬ c.IsEngineSpot fs₀ (c.root.parts ++ [n]) → ∀ b x,
    fs₀.node? (c.root.parts ++ [n]) = some (.file b x) →
      fs.node? (c.root.parts ++ [n]) = some (.file b x)

namespace Untouched

theorem start (h : c.yard.Ready fs₀) : c.Untouched fs₀ fs₀ where
  sound := h.sound
  real := h.real
  noLink := h.noLink
  workingDirectory := rfl
  guides _ _ := .inl rfl
  same _ _ _ _ := rfl
  files _ _ _ _ _ hfile := hfile

theorem ready (h : c.Untouched fs₀ fs) : c.yard.Ready fs :=
  Yard.ready_of h.sound h.real h.noLink

theorem kept (h : c.Untouched fs₀ fs) (hk : c.yard.Kept fs fs') : c.Untouched fs₀ fs' where
  sound := hk.sound
  real := hk.real
  noLink := hk.noLink
  workingDirectory := hk.workingDirectory.trans h.workingDirectory
  guides l hl := by
    rw [hk.guide?_outside hl]
    exact h.guides l hl
  same l hl hspot hlink := (hk.outside l hl).trans (h.same l hl hspot hlink)
  files n hn hspot b x hfile := hk.files n hn b x (h.files n hn hspot b x hfile)

/-- Files that come and go where the engine's are, or where links were. -/
theorem refiled {places : Location → Prop} (h : c.Untouched fs₀ fs) (hr : Refiled places fs fs')
    (hsound : fs'.Sound)
    (hplaces : ∀ l, places l → c.IsEngineSpot fs₀ l ∨ ∃ target, fs₀.node? l = some (.link target)) :
    c.Untouched fs₀ fs' where
  sound := hsound
  real := h.real.congr fun m _ => hr.guides m
  noLink l hl target ht := by
    have hguide := hr.guides l
    rw [guide?_eq_link_iff.2 ht] at hguide
    exact h.noLink l hl target (guide?_eq_link_iff.1 hguide.symm)
  workingDirectory := hr.workingDirectory.trans h.workingDirectory
  guides l hl := by
    rw [hr.guides l]
    exact h.guides l hl
  same l hl hspot hlink := by
    rw [hr.others l fun hl' => (hplaces l hl').elim hspot fun ⟨target, ht⟩ => hlink target ht]
    exact h.same l hl hspot hlink
  files n hn hspot b x hfile := by
    rw [hr.others _ fun hl' => (hplaces _ hl').elim hspot fun ⟨target, ht⟩ => by
      rw [hfile] at ht
      cases ht]
    exact h.files n hn hspot b x hfile

/-- The links are those of the beginning, where they have not been removed. -/
theorem sameLinks (h₀ : c.yard.Ready fs₀) (h : c.Untouched fs₀ fs) : SameLinks fs fs₀ := by
  intro l hguide target
  by_cases hl : c.yard.Within l
  · exact iff_of_false (h₀.noLink l hl target) (h.noLink l hl target)
  · rcases h.guides l hl with hsame | ⟨hnone, -⟩
    · rw [← guide?_eq_link_iff, ← guide?_eq_link_iff, hsame]
    · exact absurd hnone hguide

/-- A link may be removed. -/
theorem removeLink (h : c.Untouched fs₀ fs) {target : String} (hlink : fs.node? l = some (.link target)) :
    c.Untouched fs₀ (fs.remove l) := by
  have hne : l ≠ [] := ne_nil_of_node? _ (by rw [hlink]; simp)
  have hdir : fs.isDirectoryAt l = false := by simp [isDirectoryAt, hlink]
  have hgone : (fs.remove l).node? l = none := by
    rw [node?_remove fs l hne, if_pos rfl]
  -- the link was there at the beginning
  have hlink₀ : fs₀.node? l = some (.link target) := by
    rcases h.guides l fun hl => h.noLink l hl target hlink with hsame | ⟨hnone, -⟩
    · rw [← guide?_eq_link_iff, ← hsame, guide?_eq_link_iff]
      exact hlink
    · rw [guide?_eq_link_iff.2 hlink] at hnone
      cases hnone
  refine ⟨h.sound.remove hdir, h.real.remove hdir,
    fun m hm text ht => h.noLink m hm text (node?_of_remove ht), h.workingDirectory, fun m hm => ?_,
    fun m hm hspot htext => ?_, fun n hn hspot b x hfile => ?_⟩
  · by_cases hml : m = l
    · subst hml
      exact .inr ⟨isSpot_of_none hgone, target, hlink₀⟩
    · rw [guide?_of_node?_eq (node?_remove_of_ne hml)]
      exact h.guides m hm
  · by_cases hml : m = l
    · subst hml
      exact absurd hlink₀ (htext target)
    · exact (node?_remove_of_ne hml).trans (h.same m hm hspot htext)
  · rw [node?_remove_of_ne, h.files n hn hspot b x hfile]
    rintro rfl
    rw [hfile] at hlink₀
    cases hlink₀

section
variable (h₀ : c.yard.Ready fs₀) (h : c.Untouched fs₀ fs) {f : EngineFile} (hn : n ∈ f.names)
include h₀ h hn

/-- A path of the engine that leads to no link was resolved to there at the beginning, unless a link was
there. -/
theorem resolve_of_place (hp : fs.place true ⟨c.engine.anchor, c.engine.parts ++ [n]⟩ = .ok l)
    (hspot : fs.IsSpot l) (hlink : ∀ target, fs₀.node? l ≠ some (.link target)) :
    fs₀.resolve ⟨c.engine.anchor, c.engine.parts ++ [n]⟩ = .ok (pathOf l) := by
  have hentry := h.sound.isEntry_of_place_spot (f.isName_of_mem_names n hn) hp hspot
  exact resolve_of_place_entry h.workingDirectory.symm (h.sameLinks h₀) h.sound hp hentry hlink

/-- Where a path of the engine leads to no link, there is a place of the engine, or a link was. -/
theorem isEngineSpot (hp : fs.place true ⟨c.engine.anchor, c.engine.parts ++ [n]⟩ = .ok l)
    (hspot : fs.IsSpot l) : c.IsEngineSpot fs₀ l ∨ ∃ target, fs₀.node? l = some (.link target) := by
  by_cases hlink : ∃ target, fs₀.node? l = some (.link target)
  · exact .inr hlink
  · exact .inl ⟨f, n, hn, h.resolve_of_place h₀ hn hp hspot fun target ht => hlink ⟨target, ht⟩⟩

theorem put (hp : fs.place true ⟨c.engine.anchor, c.engine.parts ++ [n]⟩ = .ok l)
    (hspot : fs.IsSpot l) (b : Bytes) (x : Bool) : c.Untouched fs₀ (fs.put l (.file b x)) := by
  have hentry := h.sound.isEntry_of_place_spot (f.isName_of_mem_names n hn) hp hspot
  refine h.refiled (refiled_put hspot b x) ?_ ?_
  · exact h.sound.put hentry (.inr (Yard.not_isDirectoryAt_of_isSpot hspot)) fun _ ht => by cases ht
  · rintro l rfl
    exact h.isEngineSpot h₀ hn hp hspot

theorem remove (hp : fs.place false ⟨c.engine.anchor, c.engine.parts ++ [n]⟩ = .ok l)
    (hdir : fs.isDirectoryAt l = false) : c.Untouched fs₀ (fs.remove l) := by
  by_cases hlink : ∃ target, fs.node? l = some (.link target)
  · obtain ⟨target, hlink⟩ := hlink
    exact h.removeLink hlink
  have hspot : fs.IsSpot l := by
    refine guide?_eq_none_iff.2 fun node hnode => ?_
    cases node with
    | file b x => exact ⟨b, x, rfl⟩
    | directory =>
      rw [isDirectoryAt_iff.2 hnode] at hdir
      cases hdir
    | link target => exact absurd ⟨target, hnode⟩ hlink
  refine h.refiled (refiled_remove hspot) (h.sound.remove hdir) ?_
  rintro l rfl
  exact h.isEngineSpot h₀ hn (place_true_of_false hp fun target ht => hlink ⟨target, ht⟩) hspot

end

/-- **What is beside the yard and the engine** lasts through a run. -/
theorem lasts (h₀ : c.yard.Ready fs₀) : c.Lasts (c.Untouched fs₀) where
  ready _ h := h.ready
  work _ _ h hk := h.kept hk
  write _ _ hn b := keeps_write_of fun _ _ x h hp hspot => h.put h₀ hn hp hspot b x
  unlink f := by
    rw [engineBackup_eq]
    exact keeps_unlink_of fun _ _ h hp hdir => h.remove h₀ (f := f) (by simp [EngineFile.names]) hp hdir

end Untouched

/-- What a scan meets on its way down from outside of the yard is outside as well, or a file where the
yard begins. -/
theorem outside_of_visited {dirs : List String} (hdirs : ¬ c.yard.Within dirs) {way : List String}
    (hroot : c.root.anchor = .root) (hvisited : ¬ SourceTree.LeftOut c.excluded dirs way) :
    ¬ c.yard.Within (dirs ++ (way ++ [n])) ∨
      ∃ k ∈ c.yard.names, dirs ++ (way ++ [n]) = c.root.parts ++ [k] := by
  by_cases hwithin : c.yard.Within (dirs ++ (way ++ [n]))
  · right
    obtain ⟨k, hk, hle⟩ := hwithin
    refine ⟨k, hk, ?_⟩
    rcases List.prefix_or_prefix_of_prefix hle (List.prefix_append dirs (way ++ [n])) with hin | hin
    · exact absurd ⟨k, hk, hin⟩ hdirs
    obtain ⟨front, hfront⟩ := hin
    rw [← hfront, List.prefix_append_right_inj] at hle
    rcases List.prefix_concat_iff.1 hle with rfl | hle
    · exact hfront
    -- otherwise the yard begins at a directory on the way
    refine absurd ⟨front, ?_, hle, ?_⟩ hvisited
    · rintro rfl
      rw [List.append_nil] at hfront
      exact hdirs ⟨k, hk, hfront ▸ List.prefix_refl _⟩
    · rw [hfront]
      refine mem_excluded.2 ⟨k, ?_, by rw [hroot]; rfl⟩
      exact List.mem_append_left ["node_modules"] hk
  · exact .inl hwithin

end Config

/-- **The sources are only read.** Say a project has no links, and its entry script is outside of the
directories that a run writes to. Whatever the settings are and the tools do, and wherever the run
fails, every file that a scan from the entry script's directory meets has the same content at the end
of the run, unless it is one of the engine's files or a backup of one. -/
theorem sources_unchanged {w : Workspace} (hs : w.files.Sound) (hshort : w.files.Short)
    (hmade : c.IsMade w.files)
    (hlinks : ∀ l, c.root.parts <+: l → ∀ target, w.files.node? l ≠ some (.link target))
    (htools : tools.WritesOnlyOutput) (hentry : ¬ c.yard.Within c.entryDirectory.parts)
    {way : List String} {b : Bytes} {x : Bool}
    (hvisited : ¬ SourceTree.LeftOut c.excluded c.entryDirectory.parts way)
    (hfile : w.files.node? (c.entryDirectory.parts ++ (way ++ [n])) = some (.file b x))
    (hengine : ¬ c.IsEngineSpot w.files (c.entryDirectory.parts ++ (way ++ [n])))
    (now : String) (write : Bool) :
    ((Build.run (.ofConfig c tools) now write).runOn w).2.files.node?
      (c.entryDirectory.parts ++ (way ++ [n])) = some (.file b x) := by
  have hc := hmade.sensible hs
  have hreal := hmade.real hs hshort
  have hready : c.yard.Ready w.files := by
    refine Yard.ready_of hs hreal ?_
    rintro l ⟨k, -, hle⟩
    exact hlinks l ((List.prefix_append _ _).trans hle)
  have hend := (Config.Untouched.lasts hready).run hc htools hreal.names (.start hready) now write
  rcases Config.outside_of_visited hentry hc.root hvisited with hout | ⟨k, hk, heq⟩
  · rw [hend.same _ hout hengine fun target ht => by rw [hfile] at ht; cases ht]
    exact hfile
  · rw [heq] at hfile hengine ⊢
    exact hend.files k hk hengine b x hfile

/-- The entry script of a small project, after a run that fails. -/
theorem sources_unchanged_small :
    (Config.filesAt ["app"]).node? ["p", "app", "index.mjs"] = some (.file [] false) ∧
      ((Build.run (.ofConfig (.smallAt ["app"]) .failing) "now" true).runOn
        (.ofFiles (Config.filesAt ["app"]))).2.files.node? ["p", "app", "index.mjs"] =
          some (.file [] false) := by
  have hfile : (Config.filesAt ["app"]).node? ["p", "app", "index.mjs"] = some (.file [] false) := by
    decide
  have hentry : ¬ (Config.smallAt ["app"]).yard.Within (Config.smallAt ["app"]).entryDirectory.parts := by
    rintro ⟨n, hn, hle⟩
    have hout : ∀ n ∈ (Config.smallAt ["app"]).yard.names, ¬ (Config.smallAt ["app"]).yard.root ++ [n] <+:
        (Config.smallAt ["app"]).entryDirectory.parts := by
      decide
    exact hout n hn hle
  have hengine : ¬ (Config.smallAt ["app"]).IsEngineSpot (Config.filesAt ["app"])
      ["p", "app", "index.mjs"] := by
    rintro ⟨f, n, hn, hresolve⟩
    have hnames : ∀ part ∈ ["q", n], IsName part := by
      simpa using ⟨(by decide : IsName "q"), f.isName_of_mem_names n hn⟩
    have hself := (Config.unlinked_filesAt ["app"]).resolve_self (p := ⟨.root, ["q", n]⟩) rfl hnames
    have hparts := congrArg Path.parts (Except.ok.inj (hself.symm.trans hresolve))
    simp [pathOf] at hparts
  have hvisited : ¬ SourceTree.LeftOut (Config.smallAt ["app"]).excluded
      (Config.smallAt ["app"]).entryDirectory.parts [] := by
    rintro ⟨front, hne, hle, -⟩
    exact hne (List.prefix_nil.1 hle)
  exact ⟨hfile, sources_unchanged (w := .ofFiles (Config.filesAt ["app"]))
    (Config.sound_filesAt _ (by decide)) (Config.short_filesAt _ (by decide))
    (Config.isMade_smallAt _ (by decide)) (fun l _ target => Config.unlinked_filesAt _ l target)
    Tools.writesOnlyOutput_failing hentry hvisited hfile hengine "now" true⟩

/-- A project may have its entry script in the directory for builds. Then a run removes it. -/
theorem build_is_removed :
    (Config.smallAt ["build"]).IsMade (Config.filesAt ["build"]) ∧ (Config.filesAt ["build"]).Unlinked ∧
      (Config.smallAt ["build"]).entryDirectory.parts = ["p", "build"] ∧
      (Config.filesAt ["build"]).node? ["p", "build", "index.mjs"] = some (.file [] false) ∧
      ((Build.run (.ofConfig (.smallAt ["build"]) .failing) "now" true).runOn
        (.ofFiles (Config.filesAt ["build"]))).2.files.node? ["p", "build", "index.mjs"] = none := by
  refine ⟨Config.isMade_smallAt _ (by decide), Config.unlinked_filesAt _, by decide, by decide, ?_⟩
  decide +kernel

end CrossBuild
