import CrossBuild.Proofs.Run.Patched
import CrossBuild.Proofs.Run.Receipt
import CrossBuild.Proofs.Run.SameTarget

/-!
# What is there once a run is set up

No stage of the setup makes a link, and none makes or changes a script outside of the yard. When the
setup is over the directory of the build trees is there, so the targets can be built; and what
scripts import still lies outside of the yard.
-/

namespace CrossBuild

open FileSystem Workspace CrossBuild.Task

namespace FileSystem

variable {fs : FileSystem} {follow : Bool} {n : String} {l m : Location} {p : Path}

/-- An advance along names arrives only through directories, and no name on the way is too long. -/
theorem Unlinked.way_of_advance (hu : fs.Unlinked) (hn : IsName n) (xs : List String) :
    ∀ here, (∀ x ∈ xs, IsName x) → fs.advance follow here (xs ++ [n]) = .arrived m →
      (∀ ys, ys <+: xs → fs.isDirectoryAt (here ++ ys) = true) ∧
        ∀ x ∈ xs ++ [n], x.utf8ByteSize ≤ maxNameBytes := by
  have hstep : ∀ (x : String) rest here, IsName x → fs.advance follow here (x :: rest) = .arrived m →
      fs.isDirectoryAt here = true ∧ x.utf8ByteSize ≤ maxNameBytes ∧
        (rest = [] ∨ fs.advance follow (here ++ [x]) rest = .arrived m) := by
    intro x rest here hx hrun
    by_cases hd : fs.isDirectoryAt here = true
    swap
    · rw [advance, if_pos (by simpa using hd)] at hrun
      cases hrun
    by_cases hshort : x.utf8ByteSize ≤ maxNameBytes
    swap
    · rw [advance, if_neg (by simp [hd]), if_neg hx.2.1, if_neg hx.2.2,
        if_pos (Nat.lt_of_not_le hshort)] at hrun
      cases hrun
    refine ⟨hd, hshort, ?_⟩
    rw [advance_name hd hx hshort] at hrun
    rcases hnode : fs.node? (here ++ [x]) with _ | ⟨b, e⟩ | _ | target <;> rw [hnode] at hrun
    · cases rest with
      | nil => exact .inl rfl
      | cons y rest => cases hrun
    · exact .inr hrun
    · exact .inr hrun
    · exact absurd hnode (hu _ target)
  induction xs with
  | nil =>
    intro here _ hrun
    obtain ⟨hd, hshort, -⟩ := hstep n [] here hn hrun
    refine ⟨fun ys hys => ?_, by simpa using hshort⟩
    rw [List.prefix_nil.1 hys, List.append_nil]
    exact hd
  | cons x xs ih =>
    intro here hxs hrun
    obtain ⟨hd, hshort, hrest⟩ := hstep x (xs ++ [n]) here (hxs x (by simp)) hrun
    obtain ⟨hdirectories, hshorts⟩ := ih (here ++ [x]) (fun y hy => hxs y (by simp [hy]))
      (hrest.resolve_left (by simp))
    refine ⟨fun ys hys => ?_, ?_⟩
    · rcases List.prefix_cons_iff.1 hys with rfl | ⟨zs, rfl, hzs⟩
      · rwa [List.append_nil]
      · rw [List.append_cons]
        exact hdirectories zs hzs
    · intro y hy
      rcases List.mem_cons.1 hy with rfl | hy
      · exact hshort
      · exact hshorts y hy

/-- A path that leads anywhere leads through a real directory. -/
theorem Unlinked.isReal_of_place (hu : fs.Unlinked) (habs : p.isAbsolute = true)
    (hparts : p.parts = l ++ [n]) (hnames : ∀ x ∈ p.parts, IsName x)
    (hp : fs.place follow p = .ok m) : fs.IsReal l ∧ n.utf8ByteSize ≤ maxNameBytes := by
  rw [hparts] at hnames
  have hl : ∀ x ∈ l, IsName x := fun x hx => hnames x (List.mem_append_left _ hx)
  obtain ⟨-, -, hwalk⟩ := place_eq_ok_iff.1 hp
  rw [origin_of_isAbsolute habs, hparts, walk] at hwalk
  rcases hu.advance_cases follow (l ++ [n]) [] with ha | ⟨e, ha, -⟩
  · obtain ⟨hdirectories, hshort⟩ := hu.way_of_advance (hnames n (by simp)) l [] hl ha
    refine ⟨⟨fun k hk => ?_, hl, fun x hx => hshort x (List.mem_append_left _ hx)⟩, hshort n (by simp)⟩
    simpa using hdirectories k hk
  · rw [ha] at hwalk
    cases hwalk

end FileSystem

namespace Config

variable {c : Config} {tools : Tools} {fs₀ fs fs' : FileSystem}

/-! ## What the stages keep -/

/-- No link was made, and no script outside of the yard is another one than at first. -/
structure SetUp (c : Config) (fs₀ fs : FileSystem) : Prop where
  sound : fs.Sound
  unlinked : fs.Unlinked
  workingDirectory : fs.workingDirectory = fs₀.workingDirectory
  scripts : ∀ l name b x, ScriptName.isScript name = true → ¬ c.yard.Within (l ++ [name]) →
    fs.node? (l ++ [name]) = some (.file b x) → fs₀.node? (l ++ [name]) = some (.file b x)

namespace SetUp

theorem refl (hs : fs.Sound) (hu : fs.Unlinked) : c.SetUp fs fs :=
  ⟨hs, hu, rfl, fun _ _ _ _ _ _ h => h⟩

/-- What scripts import, the scripts at first did. -/
theorem importsOutside (hp : c.Placed) (hs : fs₀.Sound) (hu : fs₀.Unlinked) (h : c.SetUp fs₀ fs)
    (himports : c.ImportsOutside fs₀) : c.ImportsOutside fs := by
  refine ImportsOutside.of_text himports fun dirs name text hdirs hname hscript htext => ?_
  have hinside := hp.inside_of_script hdirs hname hscript
  have hparts : (c.entryDirectory.below (dirs ++ [name])).parts =
      c.entryDirectory.parts ++ dirs ++ [name] := (List.append_assoc _ _ _).symm
  have hnames : ∀ x ∈ (c.entryDirectory.below (dirs ++ [name])).parts, IsName x := by
    rw [hparts]
    intro x hx
    rcases List.mem_append.1 hx with hx | hx
    · exact hp.names_below hdirs.1 x hx
    · rwa [List.mem_singleton.1 hx]
  have hcontent : ∀ b, fs.content (c.entryDirectory.below (dirs ++ [name])) = .ok b →
      fs₀.content (c.entryDirectory.below (dirs ++ [name])) = .ok b := by
    intro b hb
    obtain ⟨l, x, hplace, hfile⟩ := content_eq_ok_iff.1 hb
    have hl := h.unlinked.place_eq hplace
    rw [tread_of_isAbsolute hinside.absolute hinside.plain, hparts] at hl
    subst hl
    have houtside := hinside.inside
    rw [hparts] at houtside
    have hfile₀ := h.scripts _ name b x hscript houtside hfile
    obtain ⟨hreal, hshort⟩ := h.unlinked.isReal_of_place hinside.absolute hparts hnames hplace
    obtain ⟨hnul, hlimit, -⟩ := place_eq_ok_iff.1 hplace
    have hreal₀ : fs₀.IsReal (c.entryDirectory.parts ++ dirs) :=
      ⟨hs.isDirectoryAt_above (hs.parents _ _ _ hfile₀), hreal.names, hreal.short⟩
    refine content_eq_ok_iff.2 ⟨_, x, ?_, hfile₀⟩
    exact place_in hreal₀ hinside.absolute hparts hname hshort hnul hlimit
      fun target ht => absurd ht (hu _ target)
  unfold FileSystem.text at htext ⊢
  rcases hread : fs.content (c.entryDirectory.below (dirs ++ [name])) with f | b
  · rw [hread] at htext
    cases htext
  · rw [hread] at htext
    rw [hcontent b hread]
    exact htext

theorem removeBelow (h : c.SetUp fs₀ fs) (l : Location) : c.SetUp fs₀ (fs.removeBelow l) where
  sound := h.sound.removeBelow
  unlinked := h.unlinked.removeBelow l
  workingDirectory := h.workingDirectory
  scripts k name b x hscript hout hfile :=
    h.scripts k name b x hscript hout (node?_of_removeBelow hfile)

theorem put (h : c.SetUp fs₀ fs) {l : Location} {node : Node} (hentry : fs.IsEntry l)
    (hkind : node = .directory ∨ fs.isDirectoryAt l = false) (hnode : ∀ target, node ≠ .link target)
    (hin : node = .directory ∨ c.yard.Within l) : c.SetUp fs₀ (fs.put l node) := by
  have hne : l ≠ [] := by
    obtain ⟨m, n, rfl, -⟩ := hentry
    simp
  refine ⟨h.sound.put hentry hkind fun target ht => absurd ht (hnode target), h.unlinked.put hne hnode,
    h.workingDirectory, fun k name b x hscript hout hfile => ?_⟩
  rw [node?_put fs hne] at hfile
  split at hfile
  · next heq =>
    rcases hin with rfl | hwithin
    · cases hfile
    · exact absurd (heq ▸ hwithin) hout
  · exact h.scripts k name b x hscript hout hfile

end SetUp

theorem keeps_setUp_removeTree {p : Path} (hremovable : removalFault? p = none) :
    Keeps (c.SetUp fs₀) (removeTree p) :=
  keeps_removeTree_of hremovable fun _ l h _ _ => h.removeBelow l

theorem keeps_setUp_makeDirectories {p : Path} (habs : p.isAbsolute = true)
    (hnames : ∀ part ∈ p.parts, IsName part) : Keeps (c.SetUp fs₀) (makeDirectories p) := by
  refine keeps_makeDirectories_of fun q hanchor hq => keeps_makeDirectory_of fun fs l h hplace hnode => ?_
  have hproper : q.Proper := fun part hpart =>
    ⟨(hnames part (hq.subset hpart)).1.1, (hnames part (hq.subset hpart)).1.2.1⟩
  have hne : q.parts ≠ [] := by
    -- the path of the root alone leads to a directory
    intro hnil
    have habs' : q.isAbsolute = true := by
      unfold Path.isAbsolute at habs ⊢
      rwa [hanchor]
    rw [h.unlinked.place_eq hplace, hnil, origin_of_isAbsolute habs'] at hnode
    cases hnode
  exact h.put (h.sound.isEntry_of_place hproper hne hplace hnode) (.inl rfl)
    (fun _ ht => by cases ht) (.inl rfl)

/-! ## Cleaning -/

/-- The directory of the build trees is there as well. -/
structure Based (c : Config) (fs₀ fs : FileSystem) : Prop extends c.SetUp fs₀ fs where
  real : fs.IsReal c.trees.root

theorem meets_writeStub_based (hp : c.Placed) :
    Meets (c.SetUp fs₀) (writeText (TargetBuild.stub c) consoleStub) (fun _ fs => c.Based fs₀ fs)
      fun _ _ => True := by
  refine meets_of_runOn ?_ fun _ _ _ _ _ => trivial
  intro fs fs' u h hrun
  obtain ⟨habs, hparts⟩ := stub_eq hp.sensible
  have hnames : ∀ x ∈ (TargetBuild.stub c).parts, IsName x := by
    rw [hparts]
    intro x hx
    simp only [trees, List.mem_append, List.mem_singleton] at hx
    obtain (hroot | rfl) | rfl := hx
    · exact hp.rootNames x hroot
    · decide
    · decide
  unfold writeText FileSystem.write at hrun
  rw [runOn_change] at hrun
  rcases hplace : fs.place true (TargetBuild.stub c) with f | l <;> rw [hplace] at hrun
  · cases hrun
  dsimp only at hrun
  obtain ⟨hreal, -⟩ := h.unlinked.isReal_of_place habs hparts hnames hplace
  have hl := h.unlinked.place_eq hplace
  rw [tread_of_isAbsolute habs fun part hpart => (hnames part hpart).2, hparts] at hl
  have hput : ∀ x, fs.isDirectoryAt l = false → c.Based fs₀ (fs.put l (.file (.ofString consoleStub) x)) := by
    intro x hdir
    refine ⟨?_, hreal.congr fun m hm => guide?_of_node?_eq ?_⟩
    · refine h.put ?_ (.inr hdir) (fun _ ht => by cases ht) (.inr ?_)
      · rw [hl]
        exact ⟨_, _, rfl, by decide, hreal.directories _ (List.prefix_refl _)⟩
      · rw [hl]
        exact ⟨"build", by simp [yard], by simp [trees, yard]⟩
    · rw [node?_put fs (by rw [hl]; simp), if_neg]
      rintro rfl
      rw [hl] at hm
      have := hm.length_le
      rw [List.length_append, List.length_singleton] at this
      omega
  rcases hnode : fs.node? l with _ | ⟨b, x⟩ | _ | target <;> rw [hnode] at hrun
  · obtain ⟨-, rfl⟩ := Prod.mk.inj hrun
    exact hput false (by simp [isDirectoryAt, hnode])
  · obtain ⟨-, rfl⟩ := Prod.mk.inj hrun
    exact hput x (by simp [isDirectoryAt, hnode])
  · cases hrun
  · cases hrun

/-- **Cleaning** keeps the scripts, and makes the directory of the build trees. -/
theorem meets_clean_based (hp : c.Placed) :
    Meets (fun w : Workspace => c.SetUp fs₀ w.files) (Build.clean c) (fun _ w => c.Based fs₀ w.files)
      fun _ _ => True := by
  have hkeeps : ∀ {α : Type} {task : Task FileSystem α}, Keeps (c.SetUp fs₀) task →
      Meets (fun w : Workspace => c.SetUp fs₀ w.files) (liftM task) (fun _ w => c.SetUp fs₀ w.files)
        fun _ _ => True := fun hk => meets_liftM (hk.meets fun _ _ _ => trivial)
  have hmake : ∀ n, IsName n → Meets (fun w : Workspace => c.SetUp fs₀ w.files)
      (liftM (makeDirectories (c.root / n))) (fun _ w => c.SetUp fs₀ w.files) fun _ _ => True := by
    intro n hn
    obtain ⟨habs, hparts⟩ := hp.sensible.div_root hn
    refine hkeeps (keeps_setUp_makeDirectories habs fun part hpart => ?_)
    rw [hparts] at hpart
    rcases List.mem_append.1 hpart with hpart | hpart
    · exact hp.rootNames part hpart
    · rwa [List.mem_singleton.1 hpart]
  have hremovable : removalFault? c.buildDirectory = none :=
    Yard.removalFault?_of_name c.root.parts (by decide) hp.sensible.buildDirectory.2
  have hinfo : Meets (fun w : Workspace => c.SetUp fs₀ w.files) (info "=== CLEAN ===")
      (fun _ w => c.SetUp fs₀ w.files) fun _ _ => True := fun w hw => hw
  unfold Build.clean
  refine Meets.bind hinfo fun _ => ?_
  refine Meets.bind (M := fun _ w => c.SetUp fs₀ w.files) ((keeps_look _).meets fun _ _ _ => trivial)
    fun isPresent => ?_
  refine Meets.when (fun _ => hkeeps (keeps_setUp_removeTree hremovable)) (fun _ _ hw => hw) ?_
  refine Meets.bind (hmake "build" (by decide)) fun _ => ?_
  refine Meets.bind (hmake "bin" (by decide)) fun _ => ?_
  refine Meets.bind (hmake "dist" (by decide)) fun _ => ?_
  exact meets_liftM (meets_writeStub_based hp)

/-! ## Patching -/

/-- Where the engine is, if it is anywhere. -/
def engineAt (c : Config) (fs : FileSystem) : Location :=
  c.engine.parts.foldl tread (fs.origin c.engine)

/-- A file of the engine is directly in it. -/
theorem tread_engine (f : EngineFile) {n : String} (hn : n ∈ f.names) (fs : FileSystem) :
    (c.engine.parts ++ [n]).foldl tread (fs.origin ⟨c.engine.anchor, c.engine.parts ++ [n]⟩) =
      c.engineAt fs ++ [n] := by
  obtain ⟨-, hdot, hdots⟩ := f.isName_of_mem_names n hn
  rw [List.foldl_append, List.foldl_cons, List.foldl_nil, tread, if_neg hdot, if_neg hdots]
  rfl

theorem Based.rewritten {f : EngineFile} {patches : List Patch} {l : Location} {content : Bytes}
    {text : SourceText} (h : c.Based fs₀ fs)
    (hr : Ledger.Rewritten (c.engineFile f) patches fs fs' l content text) : c.Based fs₀ fs' := by
  have halike : Alike fs fs' := Alike.rewritten ⟨h.sound, rfl, fun _ => rfl⟩ hr
  obtain ⟨q, hq, hrefiled⟩ := hr.refiled
  refine ⟨⟨halike.sound, h.unlinked.refiled hrefiled, hrefiled.workingDirectory.trans h.workingDirectory,
    ?_⟩, h.real.congr fun m _ => halike.guides m⟩
  have hnames : ∀ f : EngineFile, ∀ n ∈ f.names, ScriptName.isScript n = false := by
    intro f
    cases f <;> decide
  have hplace : ∀ n ∈ f.names, ∀ k name, ScriptName.isScript name = true →
      fs.place true ⟨c.engine.anchor, c.engine.parts ++ [n]⟩ = .ok (k ++ [name]) → False := by
    intro n hn k name hscript hplace
    have hlast := h.unlinked.place_eq hplace
    rw [tread_engine f hn] at hlast
    obtain ⟨-, hname⟩ := List.append_inj' hlast rfl
    rw [(List.cons.inj hname).1, hnames f n hn] at hscript
    cases hscript
  intro k name b x hscript hout hfile
  refine h.scripts k name b x hscript hout ?_
  rw [← hfile]
  refine (hrefiled.others _ ?_).symm
  rintro (rfl | ⟨-, hbackup⟩)
  · have hsource := hr.place
    rw [c.engineFile_eq] at hsource
    exact hplace _ List.mem_cons_self k name hscript hsource
  · rw [c.backupOf_engineFile] at hq
    rw [← Except.ok.inj hq, c.engineBackup_eq] at hbackup
    exact hplace _ (by simp [EngineFile.names]) k name hscript hbackup

/-- **Patching** keeps the scripts and the directory of the build trees. -/
theorem meets_patch_based :
    Meets (fun s => c.Based fs₀ s.work.files ∧ s.ledger.Covers c.enginePaths) (Build.patch c)
      (fun _ s => c.Based fs₀ s.work.files ∧ s.ledger.Covers c.enginePaths) fun _ _ => True := by
  refine Build.meets_patch_of (fun _ _ _ hs => hs) (fun _ _ _ => trivial) fun starter => ?_
  refine Ledger.meets_patchEngine_of (fun f => meets_of_runOn ?_ fun _ _ _ _ _ => trivial) _
  intro s s' changed hs hrun
  have hcovers := Ledger.keeps_patchFile_of (J := fun _ => True) (Config.mem_enginePaths.2 ⟨f, rfl⟩)
    (c.backupOf_engineFile f) (fun _ _ _ => trivial) (fun _ _ _ => trivial)
    (Patch.plan (c.modules.map (·.name)) starter f) s ⟨trivial, hs.2⟩
  obtain ⟨-, l, content, text, hrewritten⟩ :=
    Ledger.patchFile_ok hs.2.sound (Patch.solid_plan f) hrun
  rw [hrun] at hcovers
  exact ⟨hs.1.rewritten hrewritten, hcovers.2⟩

/-! ## The tools of the host -/

theorem Based.building (h : c.Based fs₀ fs) : c.Building fs fs :=
  ⟨h.sound, h.real, .refl h.unlinked⟩

theorem Based.of_building (h : c.Based fs₀ fs) (hb : c.Building fs fs') : c.Based fs₀ fs' where
  sound := hb.sound
  unlinked := hb.outside.unlinked'
  workingDirectory := hb.outside.workingDirectory.trans h.workingDirectory
  scripts l name b x hscript hout hfile := by
    rw [hb.outside.same _ hout] at hfile
    exact h.scripts l name b x hscript hout hfile
  real := hb.real

theorem keeps_prepareHost_based (hp : c.Placed) (htools : tools.WritesOnlyOutput) :
    Keeps (fun b => c.Based fs₀ b.patching.work.files ∧ b.patching.ledger.Covers c.enginePaths)
      (Build.prepareHost (Toolchain.ofConfig c tools)) := by
  intro b hb
  have hworks : c.WorksIn tools c.host (c.treeOf c.host hp.sensible.host)
      fun fs _ => c.Building b.patching.work.files fs ∧ True :=
    worksIn hp htools hp.sensible.host (fun _ _ _ _ _ => trivial) fun _ _ _ _ _ _ _ => trivial
  obtain ⟨⟨hbuilding, -⟩, hledger⟩ := Build.keeps_prepareHost
    (L := fun ledger => ledger.Covers c.enginePaths) (hworks.keeps_buildHelpers _) b
    ⟨⟨hb.1.building, trivial⟩, hb.2⟩
  exact ⟨hb.1.of_building hbuilding, hledger⟩

/-! ## The setup -/

/-- **A setup that succeeds** leaves the scripts as they were, and a place for the build trees. -/
theorem meets_setup (hp : c.Placed) (htools : tools.WritesOnlyOutput) :
    Meets (fun b : BuildState => c.SetUp fs₀ b.patching.work.files ∧
        b.patching.ledger.Covers c.enginePaths)
      (Build.stages (Build.setup (Toolchain.ofConfig c tools)))
      (fun ok b => ok = true → c.Based fs₀ b.patching.work.files ∧
        b.patching.ledger.Covers c.enginePaths) fun _ _ => True := by
  let before (s : PatchState) : Prop := c.SetUp fs₀ s.work.files ∧ s.ledger.Covers c.enginePaths
  let after (s : PatchState) : Prop := c.Based fs₀ s.work.files ∧ s.ledger.Covers c.enginePaths
  have hnext : ∀ {A B : PatchState → Prop} {s : Stage} {task : Task BuildState Unit} {rest},
      Meets (fun b => A b.patching) task (fun _ b => B b.patching) (fun _ _ => True) →
      Meets (fun b => B b.patching) (Build.stages rest) (fun ok b => ok = true → after b.patching)
        (fun _ _ => True) →
      Meets (fun b => A b.patching) (Build.stages ((s, task) :: rest))
        (fun ok b => ok = true → after b.patching) fun _ _ => True := by
    intro A B s task rest htask hrest
    rw [Build.stages]
    have hreport : ∀ message, Keeps (fun _ => True) (PatchState.onWork (error message)) :=
      fun _ _ _ => trivial
    refine Meets.bind (Build.meets_stage hreport s htask) fun ok => ?_
    cases ok with
    | false => exact Meets.pure fun b _ h => by cases h
    | true => exact hrest
  have hclean : Meets before (PatchState.onWork (Build.clean c)) (fun _ => after) fun _ _ => True :=
    (PatchState.meets_onWork (L := fun ledger => ledger.Covers c.enginePaths)
      (meets_clean_based hp)).weaken (fun _ hs => hs) (fun _ _ hs => hs) fun _ _ _ => trivial
  have hpatch : Meets after (Build.patch c) (fun _ => after) fun _ _ => True := meets_patch_based
  have hhost : Meets (fun b : BuildState => after b.patching)
      (Build.prepareHost (Toolchain.ofConfig c tools)) (fun _ b => after b.patching) fun _ _ => True :=
    (keeps_prepareHost_based hp htools).meets fun _ _ _ => trivial
  refine hnext (A := before) (B := after) (BuildState.meets_onPatching hclean) ?_
  refine hnext (A := after) (B := after) (BuildState.meets_onPatching hpatch) ?_
  exact hnext (A := after) (B := after) hhost (Meets.pure fun b hb _ => hb)

end Config

end CrossBuild
