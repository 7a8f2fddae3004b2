import CrossBuild.Proofs.Run.Stages

/-!
# Work in the yard

A run makes what it makes in its yard, and to the yard a tool that writes an output of the run is one
that works in it. So a property that work in the yard keeps is kept by cleaning, by building, by
removing what is temporary and by writing the receipt.
-/

namespace CrossBuild

open FileSystem Workspace CrossBuild.Task

variable {c : Config} {tools : Tools} {fs fs' : FileSystem} {J : FileSystem → Prop}

/-! ## The yard of a run -/

theorem Config.leads_yard (hc : c.Sensible) {n : String} (hn : n ∈ c.yard.names) {xs : List String}
    (hxs : ∀ x ∈ xs, IsName x) : c.yard.Leads ⟨c.root.anchor, c.root.parts ++ n :: xs⟩ n xs where
  absolute := by
    unfold Path.isAbsolute
    rw [hc.root]
    rfl
  parts := rfl
  base := hn
  names := hxs

theorem Config.leads_build (hc : c.Sensible) : c.yard.Leads c.buildDirectory "build" [] := by
  unfold buildDirectory
  rw [Path.div_name _ (by decide)]
  exact leads_yard hc List.mem_cons_self (fun x hx => by cases hx)

theorem Config.leads_tools (hc : c.Sensible) : c.yard.Leads c.toolsDirectory "bin" [] := by
  unfold toolsDirectory
  rw [Path.div_name _ (by decide)]
  exact leads_yard hc (by simp [yard]) (fun x hx => by cases hx)

theorem Config.leads_dist (hc : c.Sensible) : c.yard.Leads c.distDirectory "dist" [] := by
  unfold distDirectory
  rw [Path.div_name _ (by decide)]
  exact leads_yard hc (by simp [yard]) (fun x hx => by cases hx)

theorem Config.leads_buildTree (hc : c.Sensible) {t : Target} (ht : t ∈ Target.all) :
    c.yard.Leads (c.buildTree t) "build" [t.id] := by
  obtain ⟨hname, -⟩ := Target.isName_of_mem_all t ht
  unfold buildTree
  rw [Path.div_name _ hname]
  exact (leads_build hc).below hname

theorem Config.leads_stub (hc : c.Sensible) :
    c.yard.Leads (TargetBuild.stub c) "build" ["repl_stub.c"] := by
  unfold TargetBuild.stub
  rw [Path.div_name _ (by decide)]
  exact (leads_build hc).below (by decide)

theorem Config.mem_excluded {p : Path} : p ∈ c.excluded ↔ ∃ n ∈ ["build", "bin", "dist", "node_modules"],
    p = ⟨c.root.anchor, c.root.parts ++ [n]⟩ := by
  unfold excluded buildDirectory toolsDirectory distDirectory
  rw [Path.div_name _ (by decide), Path.div_name _ (by decide), Path.div_name _ (by decide),
    Path.div_name _ (by decide)]
  simp

/-- An output of the run that can be found at all is in the yard. -/
theorem Config.IsOutput.leads {p : Path} {l : Location} (hc : c.Sensible) (hp : c.IsOutput p)
    (hl : fs.place true p = .ok l) : ∃ n x, c.yard.Leads p n [x] := by
  obtain ⟨d, n, hd, ⟨hempty, hslash, hdot⟩, hdots, rfl⟩ := hp
  have hnul : '\x00' ∉ n.toList := by
    intro hmem
    have := (Path.hasNul_iff ⟨.root, c.root.parts ++ [d, n]⟩).2 ⟨n, by simp, hmem⟩
    rw [hasNul_of_place hl] at this
    cases this
  have hbase : d ∈ c.yard.names := by
    rcases hd with rfl | rfl <;> simp [yard]
  refine ⟨d, n, ?_⟩
  rw [← hc.root]
  refine leads_yard hc hbase fun x hx => ?_
  rw [List.mem_singleton.1 hx]
  exact ⟨⟨hempty, hslash, hnul⟩, hdot, hdots⟩

/-- To the yard, a tool that writes an output of the run is one that works in it. -/
theorem Config.kept_of_output {p : Path} (hc : c.Sensible) (hready : c.yard.Ready fs)
    (hp : c.IsOutput p) (hr : Refiled (fun l => fs.place true p = .ok l) fs fs') :
    c.yard.Kept fs fs' := by
  have hplace : ∀ l, fs.place true p = .ok l →
      ∃ n x, n ∈ c.yard.names ∧ l = c.root.parts ++ [n, x] ∧ (fs.IsSpot l → fs.IsEntry l) := by
    intro l hl
    obtain ⟨n, x, hleads⟩ := hp.leads hc hl
    refine ⟨n, x, hleads.base, hleads.place hready hl, fun hspot => ?_⟩
    exact hleads.isEntry hready hl (Yard.not_isDirectoryAt_of_isSpot hspot)
  refine hready.change ?_ hr.workingDirectory ?_ ?_ ?_
  · refine hready.sound.refiled hr fun l hl hspot => ?_
    obtain ⟨-, -, -, -, hentry⟩ := hplace l hl
    exact hentry hspot
  · intro l hl target ht
    have hguide := hr.guides l
    rw [guide?_eq_link_iff.2 ht] at hguide
    exact hready.noLink l hl target (guide?_eq_link_iff.1 hguide.symm)
  · intro l hl
    refine hr.others l fun hl' => hl ?_
    obtain ⟨n, x, hn, rfl, -⟩ := hplace l hl'
    exact Yard.within_cons hn [x]
  · intro k hk b x hb
    rw [hr.others _ fun hl => ?_]
    · exact hb
    · obtain ⟨n, x, hn, heq, -⟩ := hplace _ hl
      have := congrArg List.length (List.append_cancel_left heq)
      simp at this

/-! ## What work in the yard keeps -/

/-- A property of the files that work in the yard keeps. -/
structure Config.Aside (c : Config) (J : FileSystem → Prop) : Prop where
  ready : ∀ fs, J fs → c.yard.Ready fs
  work : ∀ fs fs', J fs → c.yard.Kept fs fs' → J fs'

namespace Config.Aside

variable (h : c.Aside J) (hc : c.Sensible)
include h

theorem keeps_onFiles {α : Type} {t : Task FileSystem α} (ht : c.yard.Minds t) :
    Keeps (Of fun fs _ => J fs) (onFiles t) :=
  Workspace.keeps_onFiles fun _ fs hfs => h.work fs _ hfs (ht fs fs (h.ready fs hfs))

theorem keeps_liftM {α : Type} {t : Task FileSystem α} (ht : c.yard.Minds t) :
    Keeps (Of fun fs _ => J fs) (liftM t : Task Workspace α) :=
  h.keeps_onFiles ht

include hc

theorem stable (htools : tools.WritesOnlyOutput) :
    (Toolchain.ofConfig c tools).Stable c.yard fun fs _ => J fs where
  ready fs _ hfs := h.ready fs hfs
  work fs fs' _ hfs hk := h.work fs fs' hfs hk
  tool fs inv command p hfs hout hp := by
    have hr := htools inv command fs
    simp only [hout, Option.some.injEq, exists_eq_left'] at hr
    exact h.work fs _ hfs (kept_of_output hc (h.ready fs hfs) hp hr)

theorem buildable (htools : tools.WritesOnlyOutput) (hnames : ∀ part ∈ c.root.parts, IsName part) :
    c.Buildable tools c.yard fun fs _ => J fs where
  sensible := hc
  rootNames := hnames
  trees target ht := ⟨_, _, leads_buildTree hc (hc.targets target ht)⟩
  stable := h.stable hc htools

theorem keeps_clean : Keeps (Of fun fs _ => J fs) (Build.clean c) := by
  refine Build.keeps_clean_of keeps_report ?_ ?_ ?_
  · exact h.keeps_liftM (Yard.minds_removeTree (leads_build hc))
  · intro p hp
    rcases List.mem_cons.1 hp with rfl | hp
    · exact h.keeps_liftM (Yard.minds_makeDirectories (leads_build hc))
    rcases List.mem_pair.1 hp with rfl | rfl
    · exact h.keeps_liftM (Yard.minds_makeDirectories (leads_tools hc))
    · exact h.keeps_liftM (Yard.minds_makeDirectories (leads_dist hc))
  · exact h.keeps_liftM (Yard.minds_write (leads_stub hc) (by simp) _)

theorem keeps_removeTemporary {name : String} (hname : IsName name) : Keeps (Of fun fs _ => J fs)
    (onFiles (unlink ⟨c.toolsDirectory.anchor, c.toolsDirectory.parts ++ [name]⟩)) :=
  h.keeps_onFiles (Yard.minds_unlink ((leads_tools hc).below hname) (by simp))

theorem keeps_removeStub :
    Keeps (Of fun fs _ => J fs) (onFiles (unlinkIfPresent (TargetBuild.stub c))) :=
  h.keeps_onFiles (Yard.minds_unlinkIfPresent (leads_stub hc) (by simp))

theorem keeps_cleanup : Keeps (Of fun fs _ => J fs) (Build.cleanup c) := by
  refine Build.keeps_cleanup_of (P := IsName) keeps_report (fun w found hw hfound n hn _ => ?_)
    (fun name hname => h.keeps_removeTemporary hc hname) (h.keeps_removeStub hc)
  exact (h.ready _ hw).sound.isName_of_mem_names hfound n hn

theorem keeps_writeReceipt (r : Receipt) :
    Keeps (Of fun fs _ => J fs) (Build.writeReceipt c r) := by
  refine Build.keeps_writeReceipt_of keeps_report (h.keeps_onFiles fun fs₀ => ?_)
  unfold Receipt.write
  rw [Path.div_name _ (by decide : IsName Receipt.fileName)]
  refine (Yard.minds_makeDirectories (leads_build hc) fs₀).bind fun _ => ?_
  refine (Yard.minds_write ((leads_build hc).below (by decide)) (by simp) _ fs₀).bind ?_
  exact fun _ => keeps_pure _

end Config.Aside

end CrossBuild
