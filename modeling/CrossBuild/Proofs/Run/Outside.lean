import CrossBuild.Proofs.Run.Lasting
import CrossBuild.Proofs.Run.Restores

/-!
# What a run leaves outside of its yard

Outside of its yard a run writes to the engine's files and makes their backups, and nothing else. A file
that it writes to keeps its place and whether it can be run. So once the engine is put back, everything
outside is as it was before, if the engine had no backups then.
-/

namespace CrossBuild

open FileSystem Workspace CrossBuild.Task

variable {c : Config} {tools : Tools} {fs₀ fs fs' : FileSystem} {l : Location} {n : String}
  {f : EngineFile}

namespace Config

/-- The path of a file of the engine, or of a backup, leads to a location. -/
def IsEnginePlace (c : Config) (fs : FileSystem) (l : Location) : Prop :=
  ∃ f, ∃ n ∈ EngineFile.names f, fs.place true ⟨c.engine.anchor, c.engine.parts ++ [n]⟩ = .ok l

/-- Outside of its yard a run changes no more than what is at the engine's places, and no file goes or
changes whether it can be run. -/
structure Confined (c : Config) (fs₀ fs : FileSystem) : Prop where
  held : c.yard.Held fs₀ fs
  others : ∀ l, ¬ c.yard.Within l → ¬ c.IsEnginePlace fs₀ l → fs.node? l = fs₀.node? l
  files : ∀ l b x, ¬ c.yard.Within l → fs₀.node? l = some (.file b x) →
    ∃ b', fs.node? l = some (.file b' x)

section
variable (h : c.Restorable fs₀) (hc : c.Sensible)

include h in
/-- Where the engine's paths lead stays the same, and it is a place for a file outside of the yard. -/
theorem Restorable.at_place (hheld : c.yard.Held fs₀ fs) (hn : n ∈ f.names) {follow : Bool}
    (hp : fs.place follow ⟨c.engine.anchor, c.engine.parts ++ [n]⟩ = .ok l) :
    ¬ c.yard.Within l ∧ ∀ fs', c.yard.Held fs₀ fs' → fs'.IsEntry l ∧ fs'.IsSpot l ∧
      ∀ follow, fs'.place follow ⟨c.engine.anchor, c.engine.parts ++ [n]⟩ = .ok l := by
  rcases h.engine_cases with ⟨m, hm⟩ | hlost
  · obtain ⟨hout, hplaces⟩ := hm f n hn
    obtain ⟨-, -, hplace⟩ := hplaces fs hheld
    obtain rfl := Except.ok.inj ((hplace follow).symm.trans hp)
    exact ⟨hout, hplaces⟩
  · obtain ⟨e, he, -⟩ := hlost fs hheld f n hn follow
    rw [he] at hp
    cases hp

namespace Confined

theorem kept (hf : c.Confined fs₀ fs) (hk : c.yard.Kept fs fs') : c.Confined fs₀ fs' where
  held := hf.held.kept hk
  others l hl hplace := (hk.outside l hl).trans (hf.others l hl hplace)
  files l b x hl hfile := by
    rw [hk.outside l hl]
    exact hf.files l b x hl hfile

include h hc

theorem start : c.Confined fs₀ fs₀ where
  held := h.held hc
  others _ _ _ := rfl
  files _ b _ _ hfile := ⟨b, hfile⟩

/-- A change of what is at one of the engine's places, where no file goes or changes whether it can be
run. -/
theorem refiled (hf : c.Confined fs₀ fs) (hn : n ∈ f.names) {follow : Bool}
    (hp : fs.place follow ⟨c.engine.anchor, c.engine.parts ++ [n]⟩ = .ok l)
    (hr : Refiled (· = l) fs fs')
    (hfile : ∀ b x, fs₀.node? l = some (.file b x) → ∃ b', fs'.node? l = some (.file b' x)) :
    c.Confined fs₀ fs' := by
  obtain ⟨-, hplaces⟩ := h.at_place hf.held hn hp
  refine ⟨?_, fun m hm hplace => ?_, fun m b x hm hfile₀ => ?_⟩
  · refine hf.held.refiled hr ?_
    rintro l rfl -
    exact (hplaces fs hf.held).1
  · rw [hr.others m]
    · exact hf.others m hm hplace
    · rintro rfl
      exact hplace ⟨f, n, hn, (hplaces fs₀ (h.held hc)).2.2 true⟩
  · by_cases heq : m = l
    · subst heq
      exact hfile b x hfile₀
    · rw [hr.others m heq]
      exact hf.files m b x hm hfile₀

/-- **What is outside of the yard** lasts through a run, if the engine has no backups. -/
theorem lasts (hbackup : ∀ f, fs₀.IsAbsent (c.engineBackup f)) : c.Lasts (c.Confined fs₀) where
  ready _ hf := hf.held.ready
  work _ _ hf hk := hf.kept hk
  write f n hn b := by
    refine keeps_rewrite_of fun fs l x hf hp hspot hsame => ?_
    refine hf.refiled h hc hn hp (refiled_put hspot b x) fun b₀ x₀ hfile₀ => ?_
    obtain ⟨b', hfile⟩ := hf.files l b₀ x₀ (h.at_place hf.held hn hp).1 hfile₀
    rw [node?_put fs hspot.ne_nil, if_pos rfl, hsame b' x₀ hfile]
    exact ⟨b, rfl⟩
  unlink f := by
    have hn : f.name ++ ".bak" ∈ f.names := by simp [EngineFile.names]
    rw [engineBackup_eq]
    refine keeps_unlink_of fun fs l hf hp _ => ?_
    obtain ⟨-, hplaces⟩ := h.at_place hf.held hn hp
    refine hf.refiled h hc hn hp (refiled_remove (hplaces fs hf.held).2.1) fun b x hfile₀ => ?_
    -- there was no backup at the beginning
    have habsent := hbackup f
    rw [engineBackup_eq] at habsent
    rw [habsent.node? ((hplaces fs₀ (h.held hc)).2.2 false)] at hfile₀
    cases hfile₀

end Confined

/-! ## The end of a run -/

include h hc

/-- Once the engine is restored, everything outside of the yard is as it was. -/
theorem Confined.node?_eq (hf : c.Confined fs₀ fs) (hr : c.Restored fs₀ fs)
    (hbackup : ∀ f, fs₀.IsAbsent (c.engineBackup f)) (hl : ¬ c.yard.Within l) :
    fs.node? l = fs₀.node? l := by
  by_cases hplace : c.IsEnginePlace fs₀ l
  swap
  · exact hf.others l hl hplace
  obtain ⟨f, n, hn, hp₀⟩ := hplace
  obtain ⟨-, hplaces⟩ := h.at_place (h.held hc) hn hp₀
  obtain ⟨-, hspot₀, -⟩ := hplaces fs₀ (h.held hc)
  obtain ⟨-, hspot, hp⟩ := hplaces fs hf.held
  obtain ⟨hcontent, -, habsent⟩ := content_of_restored h hc hr f
  have hbackup₀ : ∀ m, fs₀.place true (c.engineBackup f) = .ok m → fs₀.node? m = none := by
    intro m hm
    rw [engineBackup_eq] at hm
    obtain ⟨-, hplaces⟩ := h.at_place (f := f) (h.held hc) (by simp [EngineFile.names]) hm
    have hfalse := (hplaces fs₀ (h.held hc)).2.2 false
    rw [← engineBackup_eq] at hfalse
    exact (hbackup f).node? hfalse
  rcases List.mem_pair.1 hn with rfl | rfl
  · rw [← engineFile_eq] at hp hp₀
    have hnone : (fs₀.content (c.engineBackup f)).toOption = none := by
      rcases hb : fs₀.content (c.engineBackup f) with e | b
      · rfl
      · obtain ⟨m, x, hm, hfile⟩ := content_eq_ok_iff.1 hb
        rw [hbackup₀ m hm] at hfile
        cases hfile
    rw [hnone] at hcontent
    rcases Deposit.content_of_spot hp₀ hspot₀ with ⟨hnode₀, hnone₀⟩ | ⟨b, x, hfile₀, hb₀⟩
    · rcases Deposit.content_of_spot (hp true) hspot with ⟨hnode, -⟩ | ⟨b, x, -, hb⟩
      · rw [hnode, hnode₀]
      · rw [hb, hnone₀] at hcontent
        cases hcontent
    · obtain ⟨b', hfile⟩ := hf.files l b x hl hfile₀
      rw [content_eq_ok_iff.2 ⟨l, x, hp true, hfile⟩, hb₀] at hcontent
      obtain rfl : b' = b := Option.some.inj hcontent
      rw [hfile, hfile₀]
  · rw [← engineBackup_eq] at hp hp₀
    rw [habsent.node? (hp false), hbackup₀ l hp₀]

end

/-- However a run ends, it leaves everything outside of its yard as it was. -/
theorem Restorable.outside_run {w : Workspace} (h : c.Restorable w.files) (hc : c.Sensible)
    (hbackup : ∀ f, w.files.IsAbsent (c.engineBackup f)) (htools : tools.WritesOnlyOutput)
    (now : String) (write : Bool) (hl : ¬ c.yard.Within l) :
    ((Build.run (.ofConfig c tools) now write).runOn w).2.files.node? l = w.files.node? l := by
  have hbegun : ∀ s : PatchState, s.work = w → s.ledger.Covers c.enginePaths →
      c.During w.files s := by
    rintro s rfl hcovers
    exact ⟨intact_start h hc, hcovers⟩
  have hrestored : c.Restored w.files ((Build.run (.ofConfig c tools) now write).runOn w).2.files :=
    Build.meets_run (fun w' => c.Restored w.files w'.files) (meets_execute h hc htools now write) hbegun
  have hconfined := (Confined.lasts h hc hbackup).run hc htools (h.real hc).names
    (Confined.start h hc) now write
  exact Confined.node?_eq h hc hconfined hrestored hbackup hl

end Config

end CrossBuild
