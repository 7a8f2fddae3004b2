import CrossBuild.Proofs.FileSystem.Yard
import CrossBuild.Proofs.Toolchain
import CrossBuild.Proofs.Workspace

/-!
# A clean build directory

When the first stage of a run succeeds, the build directory is a directory, and nothing is where the
build trees of the targets go. A build directory that cannot be emptied ends the stage.
-/

namespace CrossBuild

open FileSystem Workspace CrossBuild.Task

namespace FileSystem

variable {fs : FileSystem} {l : Location} {n : String} {p : Path}

/-- A path into a real directory leads where it says, unless it cannot be handed to the system. -/
theorem place_false_in (hreal : fs.IsReal l) (habs : p.isAbsolute = true)
    (hparts : p.parts = l ++ [n]) (hname : IsName n) :
    fs.place false p = .ok (l ++ [n]) ∨
      ∃ f, fs.place false p = .error f ∧ isNoEntry f = false := by
  by_cases hnul : hasNul p = true
  · refine .inr ⟨.nulInPath, ?_, rfl⟩
    unfold place
    rw [if_pos hnul]
  rw [Bool.not_eq_true] at hnul
  by_cases hlimit : p.toString.utf8ByteSize < pathByteLimit
  · by_cases hshort : n.utf8ByteSize ≤ maxNameBytes
    · exact .inl (place_in hreal habs hparts hname hshort hnul hlimit fun _ _ => rfl)
    · exact .inr ⟨_, place_of_long hreal habs hparts hname (Nat.lt_of_not_le hshort) hnul hlimit, rfl⟩
  · exact .inr ⟨_, place_of_limit hnul hlimit, rfl⟩

/-- Creating a directory in a real one creates that directory alone, if anything. -/
theorem runOn_makeDirectories_in (hreal : fs.IsReal l) (habs : p.isAbsolute = true)
    (hparts : p.parts = l ++ [n]) (hname : IsName n) :
    (∃ r, (makeDirectories p).runOn fs = (r, fs) ∧ (r = .ok () → fs.isDirectory p = .ok true)) ∨
      (fs.node? (l ++ [n]) = none ∧
        (makeDirectories p).runOn fs = (.ok (), fs.put (l ++ [n]) .directory)) := by
  have hunless : ∀ f, ∃ r, (unlessDirectory p f).runOn fs = (r, fs) ∧
      (r = .ok () → fs.isDirectory p = .ok true) := by
    intro f
    unfold unlessDirectory
    rw [runOn_bind, runOn_ask]
    rcases hd : fs.isDirectory p with e | b
    · exact ⟨_, rfl, fun h => by cases h⟩
    · cases b with
      | false => exact ⟨_, rfl, fun h => by cases h⟩
      | true => exact ⟨_, rfl, fun _ => rfl⟩
  have hfailed : ∀ f, (makeDirectory p).runOn fs = (.error f, fs) → isNoEntry f = false →
      ∃ r, (makeDirectories p).runOn fs = (r, fs) ∧ (r = .ok () → fs.isDirectory p = .ok true) := by
    intro f hmake hentry
    rw [makeDirectories, runOn_bind, runOn_attempt, hmake]
    dsimp only
    rw [if_neg (by simp [hentry])]
    split
    · exact hunless f
    · exact ⟨_, rfl, fun h => by cases h⟩
  rcases place_false_in hreal habs hparts hname with hp | ⟨f, hp, hentry⟩
  · rcases hnode : fs.node? (l ++ [n]) with _ | node
    · refine .inr ⟨rfl, ?_⟩
      rw [makeDirectories, runOn_bind, runOn_attempt]
      unfold makeDirectory
      rw [runOn_change, hp]
      dsimp only
      rw [hnode]
      rfl
    · refine .inl (hfailed (faultAt .exists p) ?_ rfl)
      unfold makeDirectory
      rw [runOn_change, hp]
      dsimp only
      rw [hnode]
  · refine .inl (hfailed f ?_ hentry)
    unfold makeDirectory
    rw [runOn_change, hp]

/-- What is removed as a tree from a real directory was a directory. -/
theorem runOn_removeTree_in (hreal : fs.IsReal l) (habs : p.isAbsolute = true)
    (hparts : p.parts = l ++ [n]) (hname : IsName n) {u : Unit} {fs' : FileSystem}
    (h : (removeTree p).runOn fs = (.ok u, fs')) : fs' = fs.removeBelow (l ++ [n]) := by
  change removeTree p fs = _ at h
  unfold removeTree at h
  rcases hlookup : fs.lookup false p with e | ⟨m, node⟩ <;> rw [hlookup] at h
  · cases h
  cases node with
  | file b x => cases h
  | link target =>
    dsimp only at h
    split at h <;> cases h
  | directory =>
    dsimp only at h
    rw [Yard.removalFault?_of_name l hname hparts] at h
    obtain ⟨hp, -⟩ := lookup_eq_ok_iff.1 hlookup
    rcases place_false_in hreal habs hparts hname with hp' | ⟨f, hf, -⟩
    · rw [hp] at hp'
      rw [← Except.ok.inj hp']
      exact (Prod.mk.inj h).2.symm
    · rw [hp] at hf
      cases hf

theorem isDirectory_of_not_present (h : fs.isPresent p = .ok false) :
    fs.isDirectory p = .ok false := by
  rcases test_cases h with ⟨_, _, _, _, htrue⟩ | ⟨-, l, hp, hnone⟩ | ⟨-, f, hf, habsent⟩
  · cases htrue
  · exact test_of_none hp hnone
  · exact test_of_absent hf habsent

end FileSystem

namespace Config

variable {c : Config} {fs fs' : FileSystem}

/-- Where the build trees of the targets go. -/
def trees (c : Config) : Yard where
  root := c.root.parts ++ ["build"]
  names := Target.all.map (·.id)
  proper n hn := by
    obtain ⟨t, ht, rfl⟩ := List.mem_map.1 hn
    exact (Target.isName_of_mem_all t ht).1

/-- The project's root is a directory, where its path says. -/
structure Rooted (c : Config) (fs : FileSystem) : Prop where
  sound : fs.Sound
  real : fs.IsReal c.root.parts

/-- The build directory is there, and nothing is where the build trees go. -/
structure Cleaned (c : Config) (fs : FileSystem) : Prop where
  sound : fs.Sound
  real : fs.IsReal c.trees.root
  empty : ∀ l, c.trees.Within l → fs.node? l = none

/-- The build directory is there and empty. -/
structure Emptied (c : Config) (fs : FileSystem) : Prop where
  sound : fs.Sound
  real : fs.IsReal c.trees.root
  empty : ∀ l, c.trees.root <+: l → l ≠ c.trees.root → fs.node? l = none

theorem Rooted.isEntry (h : c.Rooted fs) {n : String} (hn : IsName n) :
    fs.IsEntry (c.root.parts ++ [n]) :=
  ⟨_, n, rfl, hn, h.real.directories _ (List.prefix_refl _)⟩

/-- A directory in the root that is made after the build directory leaves that as it is. -/
theorem Emptied.put (h : c.Emptied fs) {n : String} (hn : IsName n) (hne : n ≠ "build") :
    c.Emptied (fs.put (c.root.parts ++ [n]) .directory) := by
  have hput := node?_put fs (show c.root.parts ++ [n] ≠ [] by simp) .directory
  have hother : ∀ l, l <+: c.trees.root ∨ c.trees.root <+: l → c.root.parts ++ [n] ≠ l := by
    rintro l hl rfl
    rcases hl with hl | hl
    · rcases List.prefix_concat_iff.1 hl with heq | hl
      · exact hne (List.cons.inj (List.append_cancel_left heq)).1
      · have := hl.length_le
        rw [List.length_append, List.length_singleton] at this
        omega
    · have heq : c.root.parts ++ ["build"] = c.root.parts ++ [n] := hl.eq_of_length (by simp [trees])
      exact hne (List.cons.inj (List.append_cancel_left heq)).1.symm
  refine ⟨?_, ?_, ?_⟩
  · refine h.sound.put ⟨_, n, rfl, hn, ?_⟩ (.inl rfl) (fun t ht => by cases ht)
    exact h.real.directories _ (List.prefix_append _ _)
  · refine h.real.congr fun m hm => guide?_of_node?_eq ?_
    rw [hput, if_neg (hother m (.inl hm))]
  · intro l hl hlne
    rw [hput, if_neg (hother l (.inr hl))]
    exact h.empty l hl hlne

/-! ## The stage -/

theorem Rooted.removeBelow (h : c.Rooted fs) {n : String} :
    c.Rooted (fs.removeBelow (c.root.parts ++ [n])) := by
  refine ⟨h.sound.removeBelow, h.real.congr fun m hm => ?_⟩
  refine guide?_of_node?_eq (node?_removeBelow_outside fun hle => ?_)
  have := (hle.trans hm).length_le
  rw [List.length_append, List.length_singleton] at this
  omega

/-- A directory in the project's root. -/
theorem Sensible.div_root (hc : c.Sensible) {n : String} (hn : IsName n) :
    (c.root / n).isAbsolute = true ∧ (c.root / n).parts = c.root.parts ++ [n] := by
  rw [Path.div_name _ hn]
  refine ⟨?_, rfl⟩
  unfold Path.isAbsolute
  rw [hc.root]
  rfl

theorem Sensible.buildDirectory (hc : c.Sensible) : c.buildDirectory.isAbsolute = true ∧
    c.buildDirectory.parts = c.root.parts ++ ["build"] :=
  hc.div_root (by decide)

section
variable (hc : c.Sensible)
include hc

theorem meets_removeBuild :
    Meets (fun fs => c.Rooted fs) (removeTree c.buildDirectory)
      (fun _ fs => c.Rooted fs ∧ (fs.node? c.trees.root = none ∨
        fs.isDirectory c.buildDirectory = .ok false)) fun _ _ => True := by
  refine meets_of_runOn ?_ fun _ _ _ _ _ => trivial
  intro fs fs' u hfs hrun
  obtain ⟨habs, hparts⟩ := hc.buildDirectory
  obtain rfl := runOn_removeTree_in hfs.real habs hparts (by decide) hrun
  refine ⟨hfs.removeBelow, .inl ?_⟩
  exact node?_removeBelow_below (List.prefix_refl _) (by simp)

theorem meets_makeBuild :
    Meets (fun fs => c.Rooted fs ∧ (fs.node? c.trees.root = none ∨
        fs.isDirectory c.buildDirectory = .ok false)) (makeDirectories c.buildDirectory)
      (fun _ fs => c.Emptied fs) fun _ _ => True := by
  refine meets_of_runOn ?_ fun _ _ _ _ _ => trivial
  intro fs fs' u hfs hrun
  obtain ⟨habs, hparts⟩ := hc.buildDirectory
  rcases runOn_makeDirectories_in hfs.1.real habs hparts (by decide) with
    ⟨r, hr, hdirectory⟩ | ⟨hnone, hmade⟩
  · -- it cannot have been there already
    rw [hrun] at hr
    obtain ⟨rfl, -⟩ := Prod.mk.inj hr
    have hd := hdirectory rfl
    rcases hfs.2 with hnone | hfalse
    · rcases test_cases hd with ⟨l, node, hp, hnode, -⟩ | ⟨hfalse, -⟩ | ⟨hfalse, -⟩
      · have hl : l = c.root.parts ++ ["build"] := by
          refine place_below hfs.1.real habs hparts (by decide) ?_ hp
          intro ys hne hys target ht
          rcases List.prefix_cons_iff.1 hys with rfl | ⟨zs, rfl, hzs⟩
          · exact hne rfl
          · rw [List.prefix_nil.1 hzs] at ht
            rw [show c.trees.root = c.root.parts ++ ["build"] from rfl, ht] at hnone
            cases hnone
        rw [show c.trees.root = l from hl.symm, hnode] at hnone
        cases hnone
      · cases hfalse
      · cases hfalse
    · rw [hd] at hfalse
      cases hfalse
  · rw [hrun] at hmade
    obtain ⟨-, rfl⟩ := Prod.mk.inj hmade
    have hput := node?_put fs (show c.root.parts ++ ["build"] ≠ [] by simp) .directory
    refine ⟨?_, ?_, ?_⟩
    · exact hfs.1.sound.put (hfs.1.isEntry (by decide)) (.inl rfl) fun t ht => by cases ht
    · refine ⟨fun m hm => ?_, ?_, ?_⟩
      · rcases List.prefix_concat_iff.1 hm with rfl | hm
        · rw [isDirectoryAt_iff, hput, if_pos rfl]
        · rw [isDirectoryAt_iff, hput, if_neg]
          · exact isDirectoryAt_iff.1 (hfs.1.real.directories m hm)
          · rintro rfl
            have := hm.length_le
            rw [List.length_append, List.length_singleton] at this
            omega
      · intro n hn
        rcases List.mem_append.1 hn with hn | hn
        · exact hfs.1.real.names n hn
        · rw [List.mem_singleton.1 hn]
          decide
      · intro n hn
        rcases List.mem_append.1 hn with hn | hn
        · exact hfs.1.real.short n hn
        · rw [List.mem_singleton.1 hn]
          decide
    · intro l hl hlne
      rw [hput, if_neg (fun heq => hlne heq.symm)]
      exact hfs.1.sound.node?_below hnone hl

theorem meets_makeBeside {n : String} (hn : IsName n) (hne : n ≠ "build") :
    Meets (fun fs => c.Emptied fs) (makeDirectories (c.root / n)) (fun _ fs => c.Emptied fs)
      fun _ _ => True := by
  refine meets_of_runOn ?_ fun _ _ _ _ _ => trivial
  intro fs fs' u hfs hrun
  obtain ⟨habs, hparts⟩ := hc.div_root hn
  rcases runOn_makeDirectories_in (hfs.real.above (List.prefix_append _ _)) habs hparts hn with
    ⟨r, hr, -⟩ | ⟨-, hmade⟩
  · rw [hrun] at hr
    obtain ⟨-, rfl⟩ := Prod.mk.inj hr
    exact hfs
  · rw [hrun] at hmade
    obtain ⟨-, rfl⟩ := Prod.mk.inj hmade
    exact hfs.put hn hne

theorem stub_eq : (TargetBuild.stub c).isAbsolute = true ∧
    (TargetBuild.stub c).parts = c.trees.root ++ ["repl_stub.c"] := by
  obtain ⟨habs, hparts⟩ := hc.buildDirectory
  unfold TargetBuild.stub
  rw [Path.div_name _ (by decide)]
  exact ⟨habs, by rw [hparts]; rfl⟩

theorem meets_writeStub :
    Meets (fun fs => c.Emptied fs) (writeText (TargetBuild.stub c) consoleStub)
      (fun _ fs => c.Cleaned fs) fun _ _ => True := by
  refine meets_of_runOn ?_ fun _ _ _ _ _ => trivial
  intro fs fs' u hfs hrun
  obtain ⟨habs, hparts⟩ := stub_eq hc
  have hnone : fs.node? (c.trees.root ++ ["repl_stub.c"]) = none :=
    hfs.empty _ (List.prefix_append _ _) (by simp)
  unfold writeText FileSystem.write at hrun
  rw [runOn_change] at hrun
  rcases hp : fs.place true (TargetBuild.stub c) with f | l <;> rw [hp] at hrun
  · cases hrun
  have hl : l = c.trees.root ++ ["repl_stub.c"] := by
    refine place_below hfs.real habs hparts (by decide) ?_ hp
    intro ys hne hys target ht
    rw [hfs.empty _ (List.prefix_append _ _) (by simpa using hne)] at ht
    cases ht
  subst hl
  dsimp only at hrun
  rw [hnone] at hrun
  obtain ⟨-, rfl⟩ := Prod.mk.inj hrun
  have hdir : fs.isDirectoryAt c.trees.root = true := hfs.real.directories _ (List.prefix_refl _)
  have hput := node?_put fs (show c.trees.root ++ ["repl_stub.c"] ≠ [] by simp)
    (.file (.ofString consoleStub) false)
  refine ⟨?_, ?_, ?_⟩
  · refine hfs.sound.put ⟨_, _, rfl, by decide, hdir⟩ (.inr ?_) (fun t ht => by cases ht)
    simp [isDirectoryAt, hnone]
  · refine hfs.real.congr fun m hm => guide?_of_node?_eq ?_
    rw [hput, if_neg]
    rintro rfl
    have := hm.length_le
    rw [List.length_append, List.length_singleton] at this
    omega
  · rintro l ⟨n, hn, hl⟩
    rw [hput, if_neg]
    · refine hfs.empty l ((List.prefix_append _ _).trans hl) ?_
      rintro rfl
      have := hl.length_le
      rw [List.length_append, List.length_singleton] at this
      omega
    · -- no target is called like the stand-in
      rintro rfl
      have heq := List.append_cancel_left (hl.eq_of_length (by simp))
      have hid : "repl_stub.c" ∈ Target.all.map (·.id) := (List.cons.inj heq).1 ▸ hn
      exact absurd hid (by decide)

/-- **Cleaning.** If the stage succeeds, the build trees can be made. -/
theorem meets_clean :
    Meets (fun w : Workspace => c.Rooted w.files) (Build.clean c) (fun _ w => c.Cleaned w.files)
      fun _ _ => True := by
  have hlook : Meets (fun w : Workspace => c.Rooted w.files) (look (·.isPresent c.buildDirectory))
      (fun b w => c.Rooted w.files ∧ w.files.isPresent c.buildDirectory = .ok b) fun _ _ => True :=
    Meets.ask (fun b w hw hb => ⟨hw, hb⟩) fun _ _ _ _ => trivial
  have hinfo : Meets (fun w : Workspace => c.Rooted w.files) (info "=== CLEAN ===")
      (fun _ w => c.Rooted w.files) fun _ _ => True := fun w hw => hw
  unfold Build.clean
  refine Meets.bind hinfo fun _ => ?_
  refine Meets.bind hlook fun isPresent => ?_
  refine Meets.when (M := fun w => c.Rooted w.files ∧ (w.files.node? c.trees.root = none ∨
    w.files.isDirectory c.buildDirectory = .ok false)) (fun _ => ?_) (fun hp w hw => ?_) ?_
  · exact (meets_liftM (meets_removeBuild hc)).weaken (fun _ hw => hw.1) (fun _ _ hw => hw)
      fun _ _ h => h
  · -- what is not seen to be there is no directory
    rw [Bool.not_eq_true] at hp
    exact ⟨hw.1, .inr (isDirectory_of_not_present (hp ▸ hw.2))⟩
  · refine Meets.bind (meets_liftM (meets_makeBuild hc)) fun _ => ?_
    refine Meets.bind (meets_liftM (meets_makeBeside hc (by decide) (by decide))) fun _ => ?_
    refine Meets.bind (meets_liftM (meets_makeBeside hc (by decide) (by decide))) fun _ => ?_
    exact meets_liftM (meets_writeStub hc)

end

end Config

end CrossBuild
