import CrossBuild.Proofs.Run.Apart

/-!
# Building other targets

While targets are built, everything outside of the yard stays as it was. A target works in its own
build tree and its tools write its own outputs, so what another target has in view stays as well.
-/

namespace CrossBuild

open FileSystem Workspace CrossBuild.Task

namespace FileSystem

variable {fs fs' : FileSystem}

theorem Unlinked.refiled {places : Location → Prop} (h : fs.Unlinked) (hr : Refiled places fs fs') :
    fs'.Unlinked := by
  intro l target hlink
  have hguide := hr.guides l
  rw [guide?_eq_link_iff.2 hlink] at hguide
  exact h l target (guide?_eq_link_iff.1 hguide.symm)

theorem Unlinked.kept {y : Yard} (h : fs.Unlinked) (hk : y.Kept fs fs') : fs'.Unlinked := by
  intro l target hlink
  by_cases hwithin : y.Within l
  · exact hk.noLink l hwithin target hlink
  · rw [hk.outside l hwithin] at hlink
    exact h l target hlink

end FileSystem

namespace Config

variable {c : Config} {tools : Tools} {t u : Target} {fs fs' fs₀ view : FileSystem}

/-! ## What holds while targets are built -/

/-- The yard of one target's build tree. -/
def treeOf (c : Config) (t : Target) (ht : t ∈ Target.all) : Yard where
  root := c.trees.root
  names := [t.id]
  proper := by simpa using (Target.isName_of_mem_all t ht).1

/-- The directory of the build trees is there, and outside of the yard everything is as it was. -/
structure Building (c : Config) (fs₀ fs : FileSystem) : Prop where
  sound : fs.Sound
  real : fs.IsReal c.trees.root
  outside : Agree (fun l => ¬ c.yard.Within l) fs₀ fs

theorem within_of_treeOf {ht : t ∈ Target.all} {l : Location} (h : (c.treeOf t ht).Within l) :
    c.yard.Within l := by
  obtain ⟨n, -, hn⟩ := h
  exact ⟨"build", by simp [yard], (List.prefix_append _ _).trans hn⟩

theorem not_inView_of_treeOf {hu : u ∈ Target.all} (ht : t ∈ Target.all) (hne : u ≠ t) {l : Location}
    (h : (c.treeOf u hu).Within l) : ¬ c.InView t l := by
  have hids : ∀ t ∈ Target.all, ∀ u ∈ Target.all, t.id = u.id → t = u := by decide
  obtain ⟨n, hn, rest, rfl⟩ := h
  rw [List.mem_singleton.1 hn]
  have hl : (c.treeOf u hu).root ++ [u.id] ++ rest = c.root.parts ++ "build" :: u.id :: rest := by
    simp [treeOf, trees]
  rw [hl, inView_cons_iff (by simp [yard])]
  rintro (⟨-, hid⟩ | ⟨hd, -⟩)
  · exact hne (hids u hu t ht hid)
  · exact absurd hd (by decide)

namespace Building

theorem ready (h : c.Building fs₀ fs) (ht : t ∈ Target.all) : (c.treeOf t ht).Ready fs :=
  Yard.ready_of h.sound h.real fun l _ => h.outside.unlinked' l

theorem work (h : c.Building fs₀ fs) {ht : t ∈ Target.all} (hk : (c.treeOf t ht).Kept fs fs') :
    c.Building fs₀ fs' where
  sound := hk.sound
  real := hk.real
  outside := h.outside.elsewhere (h.outside.unlinked'.kept hk) hk.workingDirectory fun l hl =>
    hk.outside l fun hwithin => hl (within_of_treeOf hwithin)

end Building

/-! ## What tools do to files without links -/

/-- Where an output is. -/
theorem IsOutput.plain {p : Path} (hp : c.Placed) (h : c.IsOutput p) :
    p.isAbsolute = true ∧ (∀ part ∈ p.parts, part ≠ "." ∧ part ≠ "..") ∧
      ∃ d ∈ c.yard.names, ∃ n, d ≠ "build" ∧ p.parts = c.root.parts ++ [d, n] := by
  obtain ⟨d, n, hd, ⟨-, -, hdot⟩, hdots, rfl⟩ := h
  have hmem : d ∈ c.yard.names ∧ d ≠ "build" ∧ d ≠ "." ∧ d ≠ ".." := by
    rcases hd with rfl | rfl <;> exact ⟨by simp [yard], by decide, by decide, by decide⟩
  refine ⟨rfl, fun part hpart => ?_, d, hmem.1, n, hmem.2.1, rfl⟩
  rcases List.mem_append.1 hpart with hpart | hpart
  · exact (hp.rootNames part hpart).2
  · rcases List.mem_cons.1 hpart with rfl | hpart
    · exact hmem.2.2
    · rw [List.mem_singleton.1 hpart]
      exact ⟨hdot, hdots⟩

/-- A tool changes no more than the file where its output is. -/
theorem refiled_tool (hp : c.Placed) (htools : tools.WritesOnlyOutput) (hunlinked : fs.Unlinked)
    {p : Path} (hout : c.IsOutput p) {command : Command} (hcommand : command.output? = some p)
    (earlier : List Invocation) : Refiled (· = p.parts) fs (tools.run earlier command fs).2 := by
  obtain ⟨habs, hplain, -⟩ := hout.plain hp
  refine (htools earlier command fs).mono ?_
  rintro l ⟨q, hq, hplace⟩
  rw [hcommand] at hq
  obtain rfl := Option.some.inj hq
  rw [hunlinked.place_eq hplace, tread_of_isAbsolute habs hplain]

theorem Building.tool (hp : c.Placed) (h : c.Building fs₀ fs) (htools : tools.WritesOnlyOutput)
    {p : Path} (hout : c.IsOutput p) {command : Command} (hcommand : command.output? = some p)
    (earlier : List Invocation) : c.Building fs₀ (tools.run earlier command fs).2 := by
  have hr := refiled_tool hp htools h.outside.unlinked' hout hcommand earlier
  obtain ⟨-, -, d, hd, n, -, hparts⟩ := hout.plain hp
  refine ⟨?_, h.real.congr fun m _ => hr.guides m, ?_⟩
  · have hr' := htools earlier command fs
    refine h.sound.refiled hr' ?_
    rintro l ⟨q, hq, hplace⟩ hspot
    rw [hcommand] at hq
    obtain rfl := Option.some.inj hq
    exact h.sound.isEntry_of_place_file (hout.proper hp.rootNames) (by rw [hparts]; simp) hplace
      (Yard.not_isDirectoryAt_of_isSpot hspot)
  · refine h.outside.elsewhere (h.outside.unlinked'.refiled hr) hr.workingDirectory fun l hl => ?_
    refine hr.others l ?_
    rintro rfl
    rw [hparts] at hl
    exact hl (Yard.within_cons hd [n])

/-- The output of another target is not in view. -/
theorem not_inView_of_outputs (hp : c.Placed) (ht : t ∈ Target.all) (hu : u ∈ Target.all)
    (hne : u ≠ t) {p : Path} (hmem : p ∈ c.outputs u) : ¬ c.InView t p.parts := by
  have hsuffixes : ∀ t ∈ Target.all, ∀ u ∈ Target.all, t.suffix = u.suffix → t = u := by decide
  obtain ⟨-, hinterpreter, hprecompiler, hintermediate⟩ := Target.isName_of_mem_all u hu
  have htools : ∀ n, IsName n → ¬ c.InView t (c.toolsDirectory / n).parts := by
    intro n hn
    rw [Path.div_name _ hn, toolsDirectory, hp.div_root (by decide)]
    show ¬ c.InView t (c.root.parts ++ ["bin"] ++ [n])
    rw [← List.append_cons, inView_cons_iff (by simp [yard])]
    rintro (⟨hd, -⟩ | ⟨hd, -⟩) <;> exact absurd hd (by decide)
  simp only [outputs, List.mem_cons, List.not_mem_nil, or_false] at hmem
  obtain rfl | rfl | rfl | rfl := hmem
  · exact htools _ hinterpreter
  · exact htools _ hprecompiler
  · exact htools _ hintermediate
  · obtain ⟨hpart, -⟩ := Target.isPart_applicationName hu hp.sensible.application
    unfold applicationPath
    rw [Path.div_part _ hpart, distDirectory, hp.div_root (by decide)]
    show ¬ c.InView t (c.root.parts ++ ["dist"] ++ [u.applicationName c.application])
    rw [← List.append_cons, inView_cons_iff (by simp [yard])]
    rintro (⟨hd, -⟩ | ⟨-, hname⟩)
    · exact absurd hd (by decide)
    · have hlist := congrArg String.toList hname
      unfold Target.applicationName at hlist
      rw [String.toList_append, String.toList_append] at hlist
      exact hne (hsuffixes u hu t ht (String.toList_injective (List.append_cancel_left hlist)))

/-! ## Another target -/

theorem leads_treeOf (hp : c.Placed) (ht : t ∈ Target.all) :
    (c.treeOf t ht).Leads (c.buildTree t) t.id [] where
  absolute := by
    rw [hp.buildTree_eq ht]
    rfl
  parts := by
    rw [hp.buildTree_eq ht]
    simp [treeOf, trees]
  base := by simp [treeOf]
  names x hx := by cases hx

/-- What is kept while a target is built, if work in the target's tree keeps it and so do tools that
write an output for it. -/
theorem worksIn (hp : c.Placed) (htools : tools.WritesOnlyOutput) (hu : u ∈ Target.all)
    {J : FileSystem → Prop}
    (hwork : ∀ fs fs', c.Building fs₀ fs → J fs → (c.treeOf u hu).Kept fs fs' → J fs')
    (htool : ∀ fs fs' p, c.Building fs₀ fs → J fs → p ∈ c.outputs u →
      Refiled (· = p.parts) fs fs' → J fs') :
    c.WorksIn tools u (c.treeOf u hu) fun fs _ => c.Building fs₀ fs ∧ J fs where
  sensible := hp.sensible
  rootNames := hp.rootNames
  mem := hu
  ready fs _ h := h.1.ready hu
  work fs fs' _ h hk := ⟨h.1.work hk, hwork fs fs' h.1 h.2 hk⟩
  tool fs inv command p h hcommand hmem := by
    have hout := isOutput_of_mem_outputs hp.sensible hu p hmem
    refine ⟨h.1.tool hp htools hout hcommand inv, htool fs _ p h.1 h.2 hmem ?_⟩
    exact refiled_tool hp htools h.1.outside.unlinked' hout hcommand inv

/-- **Building another target** leaves what a target has in view as it is. -/
theorem keeps_view (hp : c.Placed) (htools : tools.WritesOnlyOutput) (ht : t ∈ Target.all)
    (hu : u ∈ Target.all) (hne : u ≠ t) (host : HostTools) :
    Keeps (Of fun fs _ => c.Building fs₀ fs ∧ Agree (c.InView t) view fs)
      (TargetBuild.build (Toolchain.ofConfig c tools) host u) := by
  refine (worksIn hp htools hu ?_ ?_).keeps_build (leads_treeOf hp hu) host
  · intro fs fs' h hview hk
    refine hview.elsewhere (hview.unlinked'.kept hk) hk.workingDirectory fun l hl => ?_
    exact hk.outside l fun hwithin => not_inView_of_treeOf ht hne hwithin hl
  · intro fs fs' p h hview hmem hr
    refine hview.elsewhere (hview.unlinked'.refiled hr) hr.workingDirectory fun l hl => ?_
    refine hr.others l ?_
    rintro rfl
    exact not_inView_of_outputs hp ht hu hne hmem hl

end Config

end CrossBuild
