import CrossBuild.Proofs.FileSystem.Emptied
import CrossBuild.Proofs.Run.Outside
import CrossBuild.Proofs.Run.Project
import CrossBuild.Proofs.Run.Watched

/-!
# What a run leaves of its temporary files

The C files of the targets and the console's stand-in are removed at the end of a run, wherever it
fails. The stand-in can be removed unless a directory is in its place: cleaning leaves none there, and
no later stage makes one. A file whose path is too long for the system is beyond the reach of a run.
-/

namespace CrossBuild

open FileSystem Workspace CrossBuild.Task

/-! ## Removing from a yard -/

namespace FileSystem.Yard

variable {y : Yard} {fs₀ fs : FileSystem} {p : Path} {n : String} {xs : List String} {l : Location}
  {follow : Bool}

/-- What is removed by a path that the system takes is gone, unless it is a directory. -/
theorem meets_unlink (h : y.Leads p n xs) : Meets (fun fs => y.Ready fs) (unlink p)
    (fun _ fs => Fits p → fs.node? (y.root ++ n :: xs) = none ∨ fs.isDirectoryAt (y.root ++ n :: xs) = true)
    fun _ fs => Fits p → fs.node? (y.root ++ n :: xs) = none ∨
      fs.isDirectoryAt (y.root ++ n :: xs) = true := by
  have hfound : ∀ {fs l node}, y.Ready fs → fs.lookup false p = .ok (l, node) → l = y.root ++ n :: xs :=
    fun hready hlookup => h.place hready (lookup_eq_ok_iff.1 hlookup).1
  have hgone : ∀ {fs : FileSystem} {l}, l = y.root ++ n :: xs → (fs.remove l).node? (y.root ++ n :: xs) = none := by
    rintro fs l rfl
    rw [node?_remove fs _ (by simp), if_pos rfl]
  intro fs hready
  unfold unlink
  rw [runOn_change]
  rcases hlookup : fs.lookup false p with f | ⟨l, b | _ | target⟩
  · intro hfits
    rcases hnode : fs.node? (y.root ++ n :: xs) with _ | node
    · exact .inl rfl
    · rw [lookup_eq_ok_iff.2 ⟨h.place_of_node hready hfits hnode false, hnode⟩] at hlookup
      cases hlookup
  · exact fun _ => .inl (hgone (hfound hready hlookup))
  · refine fun _ => .inr ?_
    rw [← hfound hready hlookup, isDirectoryAt_iff]
    exact (lookup_eq_ok_iff.1 hlookup).2
  · exact fun _ => .inl (hgone (hfound hready hlookup))

end FileSystem.Yard

/-! ## What has to be gone -/

variable {c : Config} {tools : Tools} {fs₀ fs fs' : FileSystem} {l : Location} {n : String}

namespace Config

/-- Where a temporary file is, by its name. -/
def temporaryFile (c : Config) (name : String) : Path :=
  ⟨c.toolsDirectory.anchor, c.toolsDirectory.parts ++ [name]⟩

/-- No file of a name is among the tools, if the system takes the path. -/
def Gone (c : Config) (name : String) (fs : FileSystem) : Prop :=
  Fits (c.temporaryFile name) → ¬ fs.IsFileAt (c.root.parts ++ ["bin", name])

/-- No directory is in the place of the console's stand-in, if the system takes the path. -/
def Stubless (c : Config) (fs : FileSystem) : Prop :=
  Fits (TargetBuild.stub c) → fs.isDirectoryAt (c.root.parts ++ ["build", "repl_stub.c"]) = false

/-- No temporary file is left that the system can be asked for. -/
structure Tidy (c : Config) (fs₀ fs : FileSystem) : Prop where
  held : c.yard.Held fs₀ fs
  temporary : ∀ n, Build.isTemporary n = true → c.Gone n fs
  stub : Fits (TargetBuild.stub c) → fs.node? (c.root.parts ++ ["build", "repl_stub.c"]) = none

theorem leads_temporary (hc : c.Sensible) (hn : IsName n) : c.yard.Leads (c.temporaryFile n) "bin" [n] :=
  (leads_tools hc).below hn

/-- A file that is gone is not found. -/
theorem Tidy.isFile_ne (h : c.Tidy fs₀ fs) (hc : c.Sensible) (hn : IsName n)
    (htemporary : Build.isTemporary n = true) : fs.isFile (c.toolsDirectory / n) ≠ .ok true := by
  rw [Path.div_name _ hn]
  intro hfile
  have hleads := leads_temporary hc hn
  obtain ⟨l, node, hplace, hnode, hisFile⟩ := (test_cases hfile).resolve_right (by simp)
  refine h.temporary n htemporary (hleads.fits h.held.ready hplace) ?_
  rw [show c.root.parts ++ ["bin", n] = l from (hleads.place h.held.ready hplace).symm]
  cases node with
  | file b x => exact ⟨b, x, hnode⟩
  | directory => cases hisFile
  | link target => cases hisFile

theorem Tidy.isPresent_ne (h : c.Tidy fs₀ fs) (hc : c.Sensible) :
    fs.isPresent (TargetBuild.stub c) ≠ .ok true := by
  intro hpresent
  have hleads := leads_stub hc
  obtain ⟨l, node, hplace, hnode, -⟩ := (test_cases hpresent).resolve_right (by simp)
  have hnone := h.stub (hleads.fits h.held.ready hplace)
  rw [show c.root.parts ++ ["build", "repl_stub.c"] = l from (hleads.place h.held.ready hplace).symm,
    hnode] at hnone
  cases hnone

/-! ## Removing the temporary files -/

/-- Before the temporary files are removed. -/
def Littered (c : Config) (fs₀ fs : FileSystem) : Prop :=
  c.yard.Held fs₀ fs ∧ c.Stubless fs

theorem keeps_unlink_gone {p : Path} : Keeps (fun fs => c.Gone n fs) (unlink p) :=
  keeps_unlink_of fun _ _ hgone _ _ hfits ⟨b, x, hfile⟩ => hgone hfits ⟨b, x, node?_of_remove hfile⟩

theorem keeps_unlink_stubless {p : Path} : Keeps (fun fs => c.Stubless fs) (unlink p) := by
  refine keeps_unlink_of fun fs l hstub _ _ hfits => ?_
  have hnot := hstub hfits
  rw [Bool.eq_false_iff, Ne, isDirectoryAt_iff] at hnot ⊢
  exact fun hdir => hnot (node?_of_remove hdir)

theorem keeps_unlink_littered {p : Path} {k : String} {xs : List String} (hleads : c.yard.Leads p k xs)
    (hxs : xs ≠ []) : Keeps (c.Littered fs₀) (unlink p) := fun fs hfs =>
  ⟨hfs.1.kept (Yard.minds_unlink hleads hxs fs fs hfs.1.ready), keeps_unlink_stubless fs hfs.2⟩

section
variable (hc : c.Sensible)
include hc

/-- Removing a temporary file. -/
theorem meets_removeTemporary (hn : IsName n) : Meets (c.Littered fs₀) (unlink (c.temporaryFile n))
    (fun _ fs => c.Gone n fs) fun _ fs => c.Gone n fs := by
  have hgone : ∀ {fs : FileSystem}, (Fits (c.temporaryFile n) →
      fs.node? (c.root.parts ++ ["bin", n]) = none ∨
        fs.isDirectoryAt (c.root.parts ++ ["bin", n]) = true) → c.Gone n fs := by
    rintro fs h hfits ⟨b, x, hfile⟩
    rcases h hfits with hnone | hdir
    · rw [hfile] at hnone
      cases hnone
    · rw [isDirectoryAt_iff, hfile] at hdir
      cases hdir
  exact (Yard.meets_unlink (leads_temporary hc hn)).weaken (fun _ hfs => hfs.1.ready)
    (fun _ _ => hgone) fun _ _ => hgone

/-- Before the temporary files with some names are removed: all others are gone. -/
def Left (c : Config) (fs₀ : FileSystem) (names : List String) (fs : FileSystem) : Prop :=
  c.Littered fs₀ fs ∧ ∀ n, Build.isTemporary n = true → n ∉ names → c.Gone n fs

theorem meets_removeNext {name : String} {names : List String} (hname : IsName name) :
    Meets (c.Left fs₀ (name :: names)) (unlink (c.temporaryFile name)) (fun _ => c.Left fs₀ names)
      fun _ => c.Left fs₀ names := by
  have hkeeps : Keeps (c.Left fs₀ (name :: names)) (unlink (c.temporaryFile name)) := fun fs hfs =>
    ⟨keeps_unlink_littered (leads_temporary hc hname) (by simp) fs hfs.1,
      fun n hn hnot => keeps_unlink_gone fs (hfs.2 n hn hnot)⟩
  have hnext : ∀ fs, c.Gone name fs ∧ c.Left fs₀ (name :: names) fs → c.Left fs₀ names fs := by
    rintro fs ⟨hgone, hlittered, hleft⟩
    refine ⟨hlittered, fun n hn hnot => ?_⟩
    by_cases heq : n = name
    · exact heq ▸ hgone
    · exact hleft n hn (by simp [heq, hnot])
  exact ((meets_removeTemporary hc hname).keeping hkeeps).weaken (fun _ hfs => ⟨hfs.1, hfs⟩)
    (fun _ => hnext) fun _ => hnext

/-- **Removing the temporary files**, one after the other. -/
theorem meets_removeTemporaries {names : List String} (hnames : ∀ n ∈ names, IsName n) :
    Meets (Of fun fs _ => c.Left fs₀ names fs)
      (forIn names PUnit.unit fun name _ => do
        Build.orWarn (c.temporaryFile name) (unlink (c.temporaryFile name))
          (some s!"Removed temporary source: {name}")
        pure (ForInStep.yield PUnit.unit))
      (fun _ => Of fun fs _ => c.Left fs₀ [] fs) fun _ _ => True := by
  induction names with
  | nil => exact Meets.pure fun _ hw => hw
  | cons name names ih =>
    obtain ⟨hname, hnames⟩ := List.forall_mem_cons.1 hnames
    have hremove : Meets (Of fun fs _ => c.Left fs₀ (name :: names) fs)
        (Build.orWarn (c.temporaryFile name) (unlink (c.temporaryFile name))
          (some s!"Removed temporary source: {name}"))
        (fun _ => Of fun fs _ => c.Left fs₀ names fs) fun _ _ => True :=
      (Build.meets_orWarn keeps_report (meets_liftM (meets_removeNext hc hname))).weaken
        (fun _ hw => hw) (fun _ _ hw => hw) fun _ _ _ => trivial
    rw [List.forIn_cons]
    refine Meets.bind (M := fun step w => step = ForInStep.yield PUnit.unit ∧
      Of (fun fs _ => c.Left fs₀ names fs) w) ?_ fun step => Meets.assuming ?_
    · exact hremove.bind fun _ => Meets.pure fun _ hw => ⟨rfl, hw⟩
    · rintro rfl
      exact ih hnames

/-- Removing the console's stand-in. -/
theorem meets_removeStub : Meets (c.Left fs₀ []) (unlinkIfPresent (TargetBuild.stub c))
    (fun _ => c.Tidy fs₀) fun _ => c.Tidy fs₀ := by
  have hleads := leads_stub hc
  have hkeeps : Keeps (c.Left fs₀ []) (unlink (TargetBuild.stub c)) := fun fs hfs =>
    ⟨keeps_unlink_littered hleads (by simp) fs hfs.1,
      fun n hn hnot => keeps_unlink_gone fs (hfs.2 n hn hnot)⟩
  have htidy : ∀ fs, (Fits (TargetBuild.stub c) →
      fs.node? (c.yard.root ++ ["build", "repl_stub.c"]) = none ∨
        fs.isDirectoryAt (c.yard.root ++ ["build", "repl_stub.c"]) = true) ∧ c.Left fs₀ [] fs →
      c.Tidy fs₀ fs := by
    rintro fs ⟨hstub, ⟨hheld, hstubless⟩, hleft⟩
    refine ⟨hheld, fun n hn => hleft n hn (by simp), fun hfits => ?_⟩
    rcases hstub hfits with hnone | hdir
    · exact hnone
    · rw [show fs.isDirectoryAt (c.yard.root ++ ["build", "repl_stub.c"]) = false from
        hstubless hfits] at hdir
      cases hdir
  have hunlink : Meets (c.Left fs₀ []) (unlink (TargetBuild.stub c)) (fun _ => c.Tidy fs₀)
      fun _ => c.Tidy fs₀ :=
    ((Yard.meets_unlink hleads).keeping hkeeps).weaken (fun _ hfs => ⟨hfs.1.1.ready, hfs⟩)
      (fun _ => htidy) fun _ => htidy
  have hattempt : Meets (c.Left fs₀ []) (Task.attempt (unlink (TargetBuild.stub c)))
      (fun _ => c.Tidy fs₀) fun _ => c.Tidy fs₀ := Meets.attempt hunlink
  unfold unlinkIfPresent
  refine hattempt.bind fun r => keeps_iff.1 ?_
  rcases r with f | u
  · exact Keeps.ite (keeps_pure _) (keeps_throw f)
  · exact keeps_pure _

/-- **The cleanup** removes every temporary file that the system can be asked for. -/
theorem meets_cleanup (h : c.Restorable fs₀) : Meets (Of fun fs _ => c.Littered fs₀ fs)
    (Build.cleanup c) (fun _ => Of fun fs _ => c.Tidy fs₀ fs) fun _ _ => True := by
  have hstub : Meets (Of fun fs _ => c.Left fs₀ [] fs)
      (Build.orWarn (TargetBuild.stub c) (unlinkIfPresent (TargetBuild.stub c)) none)
      (fun _ => Of fun fs _ => c.Tidy fs₀ fs) fun _ _ => True :=
    (Build.meets_orWarn keeps_report (meets_liftM (meets_removeStub hc))).weaken
      (fun _ hw => hw) (fun _ _ hw => hw) fun _ _ _ => trivial
  have hlook : Meets (Of fun fs _ => c.Littered fs₀ fs) (look (·.isDirectory c.toolsDirectory))
      (fun b w => w.files.isDirectory c.toolsDirectory = .ok b ∧ c.Littered fs₀ w.files)
      fun _ _ => True := Meets.ask (fun b w hw hb => ⟨hb, hw⟩) fun _ _ _ _ => trivial
  have hnames : Meets (fun w : Workspace => w.files.isDirectory c.toolsDirectory = .ok true ∧
        c.Littered fs₀ w.files) (look (·.names c.toolsDirectory))
      (fun found w => (∀ n ∈ found, IsName n) ∧
        c.Left fs₀ (found.filter Build.isTemporary) w.files) fun _ _ => True := by
    refine Meets.ask (fun found w hw hfound => ?_) fun _ _ _ _ => trivial
    refine ⟨hw.2.1.sound.isName_of_mem_names hfound, hw.2, fun n hn hnot _ hfile => hnot ?_⟩
    obtain ⟨l, hlookup, rfl⟩ := names_eq_ok_iff.1 hfound
    have hl := (leads_tools hc).place hw.2.1.ready (lookup_eq_ok_iff.1 hlookup).1
    refine List.mem_filter.2 ⟨mem_childNames.2 ?_, hn⟩
    obtain ⟨b, x, hfile⟩ := hfile
    rw [hl, List.append_assoc]
    exact fun hnone => by cases hnone.symm.trans hfile
  unfold Build.cleanup
  refine Meets.bind (M := fun _ => Of fun fs _ => c.Littered fs₀ fs) ?_ fun _ => hlook.bind fun b => ?_
  · exact (keeps_info _).meets fun _ _ _ => trivial
  cases b with
  | false =>
    dsimp only
    rw [if_neg Bool.false_ne_true]
    refine hstub.weaken (fun w hw => ⟨hw.2, fun n hn _ _ hfile => ?_⟩) (fun _ _ hw => hw) fun _ _ hw => hw
    -- the directory of a file would be seen
    obtain ⟨b, x, hfile⟩ := hfile
    rw [List.append_cons] at hfile
    have hdir := hw.2.1.sound.parents _ n _ hfile
    have hseen := hw.1
    rw [isDirectory, test_of_node (place_tools h hc hw.2.1.ready) (isDirectoryAt_iff.1 hdir)] at hseen
    cases hseen
  | true =>
    refine hnames.bind fun found => Meets.assuming fun hfound => ?_
    refine (meets_removeTemporaries hc fun n hn => hfound n (List.mem_filter.1 hn).1).bind fun _ => ?_
    exact hstub

end

/-! ## What keeps the run tidy -/

/-- What changes outside of the yard alone leaves it tidy. -/
theorem Tidy.refiled {places : Location → Prop} (ht : c.Tidy fs₀ fs) (hr : Refiled places fs fs')
    (hplaces : ∀ l, places l → ¬ c.yard.Within l ∧ fs.IsEntry l) : c.Tidy fs₀ fs' where
  held := ht.held.refiled hr fun l hl _ => (hplaces l hl).2
  temporary n hn hfits := by
    rintro ⟨b, x, hfile⟩
    have hsame := hr.others (c.root.parts ++ ["bin", n]) fun hl =>
      (hplaces _ hl).1 (Yard.within_cons (n := "bin") (by simp [yard]) [n])
    exact ht.temporary n hn hfits ⟨b, x, hsame.symm.trans hfile⟩
  stub hfits := by
    have hsame := hr.others (c.root.parts ++ ["build", "repl_stub.c"]) fun hl =>
      (hplaces _ hl).1 (Yard.within_cons (n := "build") (by simp [yard]) ["repl_stub.c"])
    exact hsame.trans (ht.stub hfits)

/-- What is put into the build directory leaves the run tidy, unless it is put in the place of the
console's stand-in. -/
theorem Tidy.put (ht : c.Tidy fs₀ fs) {node : Node} {xs : List String} (hxs : xs ≠ ["repl_stub.c"])
    (hk : c.yard.Kept fs (fs.put (c.root.parts ++ "build" :: xs) node)) :
    c.Tidy fs₀ (fs.put (c.root.parts ++ "build" :: xs) node) := by
  have hput := node?_put fs (show c.root.parts ++ "build" :: xs ≠ [] by simp) node
  refine ⟨ht.held.kept hk, fun n hn hfits => ?_, fun hfits => ?_⟩
  · rintro ⟨b, x, hfile⟩
    rw [hput, if_neg] at hfile
    · exact ht.temporary n hn hfits ⟨b, x, hfile⟩
    · intro heq
      exact absurd (List.cons.inj (List.append_cancel_left heq)).1 (by decide)
  · rw [hput, if_neg]
    · exact ht.stub hfits
    · intro heq
      exact hxs (List.cons.inj (List.append_cancel_left heq)).2

section
variable (h : c.Restorable fs₀) (hc : c.Sensible)

include h in
theorem Tidy.keeps_writeEngine {f : EngineFile} (hn : n ∈ f.names) (b : Bytes) :
    Keeps (c.Tidy fs₀) (write ⟨c.engine.anchor, c.engine.parts ++ [n]⟩ b) := by
  refine keeps_write_of fun fs l x ht hp hspot => ht.refiled (refiled_put hspot b x) ?_
  rintro l rfl
  obtain ⟨hout, hplaces⟩ := h.at_place ht.held hn hp
  exact ⟨hout, (hplaces fs ht.held).1⟩

include h in
theorem Tidy.keeps_unlinkBackup (f : EngineFile) : Keeps (c.Tidy fs₀) (unlink (c.engineBackup f)) := by
  have hn : f.name ++ ".bak" ∈ f.names := by simp [EngineFile.names]
  rw [engineBackup_eq]
  refine keeps_unlink_of fun fs l ht hp _ => ?_
  obtain ⟨hout, hplaces⟩ := h.at_place ht.held hn hp
  refine ht.refiled (refiled_remove (hplaces fs ht.held).2.1) ?_
  rintro l rfl
  exact ⟨hout, (hplaces fs ht.held).1⟩

include hc in
theorem Tidy.keeps_writeReceipt (r : Receipt) :
    Keeps (Of fun fs _ => c.Tidy fs₀ fs) (Build.writeReceipt c r) := by
  have hname : IsName Receipt.fileName := by decide
  have hmake : Keeps (c.Tidy fs₀) (makeDirectories c.buildDirectory) := by
    refine (leads_build hc).keeps_makeDirectories (fun _ ht => ht.held.ready) fun q ys hys hq => ?_
    obtain rfl := List.prefix_nil.1 hys
    refine keeps_makeDirectory_of fun fs l ht hl hnone => ?_
    have hk := hq.put_directory ht.held.ready hl hnone
    obtain rfl := hq.place ht.held.ready hl
    exact ht.put (by simp) hk
  have hwrite : ∀ b, Keeps (c.Tidy fs₀) (write ⟨c.buildDirectory.anchor,
      c.buildDirectory.parts ++ [Receipt.fileName]⟩ b) := fun b => by
    have hleads := (leads_build hc).below hname
    refine keeps_write_of fun fs l x ht hl hspot => ?_
    have hk := hleads.put_file (by simp) ht.held.ready hl hspot b x
    obtain rfl := hleads.place ht.held.ready hl
    exact ht.put (by decide) hk
  refine Build.keeps_writeReceipt_of keeps_report (Workspace.keeps_onFiles fun _ => ?_)
  unfold Receipt.write
  rw [Path.div_name _ hname]
  exact hmake.bind fun _ => (hwrite _).bind fun _ => keeps_pure _

end

/-! ## No directory in the place of the stand-in -/

theorem Rooted.put (h : c.Rooted fs) (hn : IsName n) :
    c.Rooted (fs.put (c.root.parts ++ [n]) .directory) where
  sound := h.sound.put (h.isEntry hn) (.inl rfl) fun t ht => by cases ht
  real := by
    refine h.real.congr fun m hm => guide?_of_node?_eq ?_
    rw [node?_put fs (by simp), if_neg]
    rintro rfl
    have := hm.length_le
    rw [List.length_append, List.length_singleton] at this
    omega

/-- Without a build directory there is no directory in it. -/
theorem Rooted.not_isDirectoryAt_stub (h : c.Rooted fs)
    (hbuild : fs.isDirectoryAt (c.root.parts ++ ["build"]) = false) :
    fs.isDirectoryAt (c.root.parts ++ ["build", "repl_stub.c"]) = false := by
  rw [Bool.eq_false_iff, Ne, isDirectoryAt_iff] at hbuild ⊢
  intro hdir
  rw [List.append_cons] at hdir
  exact hbuild (isDirectoryAt_iff.1 (h.sound.parents _ _ _ hdir))

theorem keeps_write_stubless {p : Path} {b : Bytes} : Keeps (fun fs => c.Stubless fs) (write p b) :=
  keeps_write_of fun _ _ x h _ hspot hfits =>
    (isDirectoryAt_congr ((refiled_put hspot _ x).guides _)).trans (h hfits)

section
variable (hc : c.Sensible)
include hc

theorem fits_build (hstub : Fits (TargetBuild.stub c)) : Fits c.buildDirectory := by
  have hbuild : c.buildDirectory = ⟨.root, c.root.parts ++ ["build"]⟩ := by
    unfold buildDirectory
    rw [Path.div_name _ (by decide), hc.root]
  have hparts : TargetBuild.stub c = ⟨.root, c.root.parts ++ ["build", "repl_stub.c"]⟩ := by
    unfold TargetBuild.stub
    rw [hbuild, Path.div_name _ (by decide), List.append_assoc]
    rfl
  rw [hparts] at hstub
  rw [hbuild]
  exact hstub.above ⟨["repl_stub.c"], by simp⟩

/-- A build directory that the system can be asked for is seen and removed. -/
theorem Rooted.removed (h : c.Rooted fs) (hfits : Fits (TargetBuild.stub c))
    (hbuild : fs.isDirectoryAt (c.root.parts ++ ["build"]) = true) :
    fs.isPresent c.buildDirectory = .ok true ∧
      (removeTree c.buildDirectory).runOn fs = (.ok (), fs.removeBelow (c.root.parts ++ ["build"])) := by
  obtain ⟨habs, hparts⟩ := hc.buildDirectory
  have hnode := isDirectoryAt_iff.1 hbuild
  have hplace : ∀ follow, fs.place follow c.buildDirectory = .ok (c.root.parts ++ ["build"]) := by
    intro follow
    refine place_in h.real habs hparts (by decide) (by decide) ?_ (fits_build hc hfits).1 fun t ht => ?_
    · refine Path.hasNul_of_names fun part hpart => ?_
      rw [hparts] at hpart
      rcases List.mem_append.1 hpart with hpart | hpart
      · exact h.real.names part hpart
      · rw [List.mem_singleton.1 hpart]
        decide
    · rw [hnode] at ht
      cases ht
  refine ⟨test_of_node (hplace true) hnode, ?_⟩
  show removeTree c.buildDirectory fs = _
  unfold removeTree
  rw [lookup_eq_ok_iff.2 ⟨hplace false, hnode⟩]
  dsimp only
  rw [Yard.removalFault?_of_name _ (by decide) hparts]

/-- Creating one of the directories of the run puts no directory in the place of the stand-in. -/
theorem keeps_makeDirectory_stubless (hn : IsName n) :
    Keeps (fun fs => c.Rooted fs ∧ c.Stubless fs) (makeDirectories (c.root / n)) := by
  intro fs hfs
  obtain ⟨habs, hparts⟩ := hc.div_root hn
  rcases runOn_makeDirectories_in hfs.1.real habs hparts hn with ⟨r, hr, -⟩ | ⟨-, hmade⟩
  · rw [hr]
    exact hfs
  · rw [hmade]
    refine ⟨hfs.1.put hn, fun hfits => (isDirectoryAt_congr (guide?_of_node?_eq ?_)).trans (hfs.2 hfits)⟩
    rw [node?_put fs (by simp), if_neg]
    intro heq
    have := congrArg List.length heq
    simp at this

/-- **Cleaning** leaves no directory in the place of the console's stand-in, wherever it fails. -/
theorem meets_clean_stubless : Meets (fun w : Workspace => c.Rooted w.files) (Build.clean c)
    (fun _ w => c.Stubless w.files) fun _ w => c.Stubless w.files := by
  have hlook : Meets (fun w : Workspace => c.Rooted w.files) (look (·.isPresent c.buildDirectory))
      (fun b w => c.Rooted w.files ∧ (b = false → c.Stubless w.files)) fun _ w => c.Stubless w.files := by
    refine Meets.ask (fun b w hw hb => ⟨hw, ?_⟩) fun f w hw hf hfits => hw.not_isDirectoryAt_stub ?_
    · rintro rfl hfits
      refine hw.not_isDirectoryAt_stub (Bool.eq_false_iff.2 fun hbuild => ?_)
      cases (hw.removed hc hfits hbuild).1.symm.trans hb
    · refine Bool.eq_false_iff.2 fun hbuild => ?_
      cases (hw.removed hc hfits hbuild).1.symm.trans hf
  have hremove : Meets (fun fs => c.Rooted fs) (removeTree c.buildDirectory)
      (fun _ fs => c.Rooted fs ∧ c.Stubless fs) fun _ fs => c.Stubless fs := by
    obtain ⟨habs, hparts⟩ := hc.buildDirectory
    refine meets_of_runOn (fun fs fs' u hfs hrun => ?_) fun fs fs' f hfs hrun hfits => ?_
    · obtain rfl := runOn_removeTree_in hfs.real habs hparts (by decide) hrun
      refine ⟨hfs.removeBelow, fun _ => ?_⟩
      rw [Bool.eq_false_iff, Ne, isDirectoryAt_iff,
        node?_removeBelow_below ⟨["repl_stub.c"], by simp⟩ (by simp)]
      simp
    · obtain rfl := runOn_removeTree_error (Yard.removalFault?_of_name _ (by decide) hparts) hrun
      refine hfs.not_isDirectoryAt_stub (Bool.eq_false_iff.2 fun hbuild => ?_)
      rw [(hfs.removed hc hfits hbuild).2] at hrun
      cases (Prod.mk.inj hrun).1
  have hmake : ∀ {n}, IsName n → Meets (fun w : Workspace => c.Rooted w.files ∧ c.Stubless w.files)
      (liftM (makeDirectories (c.root / n)))
      (fun _ w => c.Rooted w.files ∧ c.Stubless w.files) fun _ w => c.Stubless w.files := fun hn =>
    (meets_liftM (keeps_iff.1 (keeps_makeDirectory_stubless hc hn))).weaken (fun _ hw => hw)
      (fun _ _ hw => hw) fun _ _ hw => hw.2
  have hinfo : Meets (fun w : Workspace => c.Rooted w.files) (info "=== CLEAN ===")
      (fun _ w => c.Rooted w.files) fun _ w => c.Stubless w.files := fun _ hw => hw
  unfold Build.clean
  refine hinfo.bind fun _ => hlook.bind fun b => ?_
  refine Meets.when (M := fun w => c.Rooted w.files ∧ c.Stubless w.files) (fun _ => ?_)
    (fun hb w hw => ⟨hw.1, hw.2 (Bool.not_eq_true _ ▸ hb)⟩) ?_
  · exact (meets_liftM hremove).weaken (fun _ hw => hw.1) (fun _ _ hw => hw) fun _ _ hw => hw
  · refine Meets.bind (hmake (by decide)) fun _ => Meets.bind (hmake (by decide)) fun _ => ?_
    refine Meets.bind (hmake (by decide)) fun _ => ?_
    exact (meets_liftM (keeps_iff.1 keeps_write_stubless)).weaken (fun _ hw => hw.2)
      (fun _ _ hw => hw) fun _ _ hw => hw

end

/-- The build trees can be made, and no directory is in the place of the console's stand-in. -/
structure Furnished (c : Config) (fs : FileSystem) : Prop where
  ready : c.trees.Ready fs
  stubless : c.Stubless fs

theorem Cleaned.furnished (h : c.Cleaned fs) (hstub : c.Stubless fs) : c.Furnished fs where
  ready := Yard.ready_of h.sound h.real fun l hl target ht => by
    rw [h.empty l hl] at ht
    cases ht
  stubless := hstub

namespace Furnished

theorem refiled {places : Location → Prop} (h : c.Furnished fs) (hr : Refiled places fs fs')
    (hentry : ∀ l, places l → fs.IsSpot l → fs.IsEntry l) : c.Furnished fs' where
  ready := by
    refine Yard.ready_of (h.ready.sound.refiled hr hentry) (h.ready.real.congr fun m _ => hr.guides m) ?_
    intro l hl target ht
    have hguide := hr.guides l
    rw [guide?_eq_link_iff.2 ht] at hguide
    exact h.ready.noLink l hl target (guide?_eq_link_iff.1 hguide.symm)
  stubless hfits := (isDirectoryAt_congr (hr.guides _)).trans (h.stubless hfits)

theorem work (h : c.Furnished fs) (hk : c.trees.Kept fs fs') : c.Furnished fs' where
  ready := hk.ready
  stubless hfits := by
    rw [isDirectoryAt_congr (hk.guide?_outside _)]
    · exact h.stubless hfits
    · -- no target is called like the stand-in
      rintro ⟨k, hk, hle⟩
      rw [show c.root.parts ++ ["build", "repl_stub.c"] = c.trees.root ++ ["repl_stub.c"] by simp [trees],
        List.prefix_append_right_inj] at hle
      have hid : "repl_stub.c" ∈ Target.all.map (·.id) := by
        rwa [← (List.cons.inj (hle.eq_of_length rfl)).1]
      exact absurd hid (by decide)

/-- To the build trees, a tool that writes an output of the run is one that works elsewhere. -/
theorem tool {p : Path} (h : c.Furnished fs) (hroot : ∀ part ∈ c.root.parts, IsName part)
    (hp : c.IsOutput p) (hr : Refiled (fun l => fs.place true p = .ok l) fs fs') :
    c.Furnished fs' := by
  have hne : p.parts ≠ [] := by
    obtain ⟨d, n, -, -, -, rfl⟩ := hp
    simp
  refine h.refiled hr fun l hl hspot => ?_
  exact h.ready.sound.isEntry_of_place_file (hp.proper hroot) hne hl
    (Yard.not_isDirectoryAt_of_isSpot hspot)

theorem keeps_writeEngine {f : EngineFile} (hn : n ∈ f.names) (b : Bytes) :
    Keeps (fun fs => c.Furnished fs) (write ⟨c.engine.anchor, c.engine.parts ++ [n]⟩ b) := by
  refine keeps_write_of fun fs l x h hl hspot => h.refiled (refiled_put hspot b x) ?_
  rintro l rfl -
  exact h.ready.sound.isEntry_of_place_spot (f.isName_of_mem_names n hn) hl hspot

theorem buildable (hc : c.Sensible) (hroot : ∀ part ∈ c.root.parts, IsName part)
    (htools : tools.WritesOnlyOutput) : c.Buildable tools c.trees fun fs _ => c.Furnished fs where
  sensible := hc
  rootNames := hroot
  trees target ht := ⟨target.id, [], leads_trees hc (hc.targets target ht)⟩
  stable :=
    { ready := fun _ _ h => h.ready
      work := fun _ _ _ h hk => h.work hk
      tool := fun fs inv command p h hout hp => by
        have hr := htools inv command fs
        simp only [hout, Option.some.injEq, exists_eq_left'] at hr
        exact h.tool hroot hp hr }

end Furnished

/-! ## The whole run -/

/-- Wherever the stages end, no directory is in the place of the console's stand-in. -/
theorem stubless_forward (hc : c.Sensible) (hroot : ∀ part ∈ c.root.parts, IsName part)
    (htools : tools.WritesOnlyOutput) :
    Meets (fun s => c.Lasting (fun fs => c.Rooted fs) s.patching)
      (Build.forward (Toolchain.ofConfig c tools))
      (fun _ s => c.Stubless s.patching.work.files) fun _ s => c.Stubless s.patching.work.files := by
  have hb := Furnished.buildable hc hroot htools
  have hclean : Meets (c.Lasting fun fs => c.Rooted fs) (PatchState.onWork (Build.clean c))
      (fun _ => c.Lasting fun fs => c.Furnished fs) fun _ s => c.Stubless s.work.files := by
    have hwork := (meets_clean hc).and (meets_clean_stubless hc)
    exact (PatchState.meets_onWork (L := fun ledger => ledger.Covers c.enginePaths) hwork).weaken
      (fun _ hs => hs) (fun _ _ hs => ⟨hs.1.1.furnished hs.1.2, hs.2⟩) fun _ _ hs => hs.1.2
  have hpatch := keeps_patch_of (J := fun fs => c.Furnished fs) fun f n hn b =>
    Furnished.keeps_writeEngine hn b
  refine Build.meets_forward (t := Toolchain.ofConfig c tools) (fun _ _ hs => hs) hclean (hpatch.meets fun _ _ hs => hs.1.stubless) ?_ ?_
  · exact hb.keeps_prepareHost.meets fun _ _ hs => hs.1.stubless
  · exact (keeps_iff.1 hb.keeps_buildTargets).weaken (fun _ hs => hs) (fun _ _ hs => hs.1.stubless)
      fun _ _ hs => hs.1.stubless

/-- Before the teardown: the engine can be put back, and the temporary files can be removed. -/
def Forwarded (c : Config) (fs₀ : FileSystem) (s : PatchState) : Prop :=
  c.During fs₀ s ∧ c.Stubless s.work.files

/-- The cleanup does not fail, and removes every temporary file that the system can be asked for. -/
theorem tidy_cleanup (h : c.Restorable fs₀) (hc : c.Sensible) :
    Meets (Of fun fs _ => c.Intact fs₀ fs ∧ c.Stubless fs) (Build.cleanup c)
      (fun _ => Of fun fs _ => c.Tidy fs₀ fs) fun _ _ => False := by
  have hpre : ∀ w, Of (fun fs _ => c.Intact fs₀ fs ∧ c.Stubless fs) w →
      Of (fun fs _ => c.Intact fs₀ fs) w ∧ Of (fun fs _ => c.Littered fs₀ fs) w :=
    fun _ hw => ⟨hw.1, hw.1.held, hw.2⟩
  have hsucceeds : Meets (Of fun fs _ => c.Intact fs₀ fs ∧ c.Stubless fs) (Build.cleanup c)
      (fun _ _ => True) fun _ _ => False :=
    Meets.weaken (succeeds_cleanup h hc) (fun w hw => (hpre w hw).1) (fun _ _ _ => trivial)
      fun _ _ hfalse => hfalse
  have htidy : Meets (Of fun fs _ => c.Intact fs₀ fs ∧ c.Stubless fs) (Build.cleanup c)
      (fun _ => Of fun fs _ => c.Tidy fs₀ fs) fun _ _ => True :=
    (meets_cleanup hc h).weaken (fun w hw => (hpre w hw).2) (fun _ _ hw => hw) fun _ _ hw => hw
  exact (hsucceeds.and htidy).weaken (fun _ hw => hw) (fun _ _ hw => hw.2) fun _ _ hw => hw.1

theorem tidy_teardown (h : c.Restorable fs₀) (hc : c.Sensible) :
    Meets (fun s => c.Forwarded fs₀ s.patching) (Build.teardown c)
      (fun _ s => c.Tidy fs₀ s.patching.work.files) fun _ s => c.Tidy fs₀ s.patching.work.files := by
  have hwork := PatchState.meets_onWork (L := fun ledger => ledger.Covers c.enginePaths) (tidy_cleanup h hc)
  have hcleanup : Meets (c.Forwarded fs₀) (PatchState.onWork (Build.cleanup c))
      (fun _ => c.Lasting (c.Tidy fs₀)) fun _ s => c.Tidy fs₀ s.work.files := by
    refine hwork.weaken ?_ (fun _ _ hs => hs) fun _ _ hs => hs.1.elim
    rintro s ⟨⟨hintact, hcovers⟩, hstubless⟩
    exact ⟨⟨hintact, hstubless⟩, hcovers⟩
  have hrestore := meets_restore_of (J := c.Tidy fs₀)
    (keeps_writeSource fun f n hn b => Tidy.keeps_writeEngine h hn b) (Tidy.keeps_unlinkBackup h)
  exact Build.meets_teardown_of hcleanup hrestore

/-- How a run begins: nothing is out of its place. -/
def Fresh (c : Config) (fs₀ : FileSystem) (s : PatchState) : Prop :=
  c.During fs₀ s ∧ c.Rooted s.work.files

/-- However a run ends, it is tidy. -/
theorem tidy_run {w : Workspace} (hc : c.Sensible) (h : c.Restorable w.files)
    (htools : tools.WritesOnlyOutput) (now : String) (write : Bool) :
    c.Tidy w.files ((Build.run (.ofConfig c tools) now write).runOn w).2.files := by
  have hreal := h.real hc
  have hforward : Meets (fun s => c.Fresh w.files s.patching) (Build.forward (.ofConfig c tools))
      (fun _ s => c.Forwarded w.files s.patching) fun _ s => c.Forwarded w.files s.patching := by
    have hduring : Meets (fun s => c.Fresh w.files s.patching) (Build.forward (.ofConfig c tools))
        (fun _ s => c.During w.files s.patching) fun _ s => c.During w.files s.patching :=
      (keeps_iff.1 (keeps_forward h hc htools)).weaken (fun _ hs => hs.1) (fun _ _ hs => hs)
        fun _ _ hs => hs
    have hstubless : Meets (fun s => c.Fresh w.files s.patching) (Build.forward (.ofConfig c tools))
        (fun _ s => c.Stubless s.patching.work.files) fun _ s => c.Stubless s.patching.work.files :=
      (stubless_forward hc hreal.names htools).weaken (fun _ hs => ⟨hs.2, hs.1.2⟩) (fun _ _ hs => hs)
        fun _ _ hs => hs
    exact hduring.and hstubless
  have hbegun : ∀ s : PatchState, s.work = w → s.ledger.Covers c.enginePaths → c.Fresh w.files s := by
    rintro s rfl hcovers
    exact ⟨⟨intact_start h hc, hcovers⟩, h.sound, hreal⟩
  refine Build.meets_run (Of fun fs _ => c.Tidy w.files fs) ?_ hbegun
  exact Build.meets_execute_of _ hforward (tidy_teardown h hc) (Build.keeps_summary keeps_report)
    (Tidy.keeps_writeReceipt hc)

end Config

/-- **A run leaves no trace** but in the directories for builds, tools and applications. Say no link
lies in them, the engine is outside, and its files are ordinary files or absent and without backups.
Whatever the tools do and wherever the run fails, everything outside of these directories is at the end
what it was before; among the tools no file is found that has the name of a temporary one, and the
console's stand-in is not found either. -/
theorem run_leaves_no_trace {w : Workspace} (hs : w.files.Sound) (hshort : w.files.Short)
    (hmade : c.IsMade w.files)
    (hlinks : ∀ l, c.yard.Within l → ∀ target, w.files.node? l ≠ some (.link target))
    (houtside : c.yard.Outside w.files c.engine) (hengine : ∀ f, w.files.IsFileOrAbsent (c.engineFile f))
    (hbackups : ∀ f, w.files.IsAbsent (c.engineBackup f))
    (hlimit : c.toolsDirectory.toString.utf8ByteSize < pathByteLimit)
    (htools : tools.WritesOnlyOutput) (now : String) (write : Bool) :
    let fs := ((Build.run (.ofConfig c tools) now write).runOn w).2.files
    (∀ l, ¬ c.yard.Within l → fs.node? l = w.files.node? l) ∧
      (∀ n, IsName n → Build.isTemporary n = true → fs.isFile (c.toolsDirectory / n) ≠ .ok true) ∧
      fs.isPresent (TargetBuild.stub c) ≠ .ok true := by
  intro fs
  have hc := hmade.sensible hs
  have h := hmade.restorable hs hshort hlinks houtside hengine
    (fun f => (hbackups f).isFileOrAbsent) hlimit
  have htidy := Config.tidy_run hc h htools now write
  exact ⟨fun l hl => h.outside_run hc hbackups htools now write hl,
    fun n hn htemporary => htidy.isFile_ne hc hn htemporary, htidy.isPresent_ne hc⟩

/-- A small project, in a run whose tools fail. -/
theorem run_leaves_no_trace_small :
    let fs := ((Build.run (.ofConfig (.smallAt ["app"]) .failing) "now" true).runOn
      (.ofFiles (Config.filesAt ["app"]))).2.files
    (∀ l, ¬ (Config.smallAt ["app"]).yard.Within l → fs.node? l = (Config.filesAt ["app"]).node? l) ∧
      (∀ n, IsName n → Build.isTemporary n = true →
        fs.isFile ((Config.smallAt ["app"]).toolsDirectory / n) ≠ .ok true) ∧
      fs.isPresent (TargetBuild.stub (.smallAt ["app"])) ≠ .ok true := by
  have houtside : (Config.smallAt ["app"]).yard.Outside (Config.filesAt ["app"])
      (Config.smallAt ["app"]).engine := by
    have hway : ∀ l ∈ (Config.filesAt ["app"]).origin (Config.smallAt ["app"]).engine ::
        (Config.filesAt ["app"]).way true (Config.smallAt ["app"]).engine,
        ∀ n ∈ (Config.smallAt ["app"]).yard.names, ¬ (Config.smallAt ["app"]).yard.root ++ [n] <+: l := by
      decide
    rintro l hl ⟨n, hn, hle⟩
    exact hway l hl n hn hle
  have hengine : ∀ f, (Config.filesAt ["app"]).IsFileOrAbsent ((Config.smallAt ["app"]).engineFile f) := by
    intro f
    cases f
    all_goals exact .inl ⟨_, _, _, by rfl⟩
  have hbackups : ∀ f, (Config.filesAt ["app"]).IsAbsent ((Config.smallAt ["app"]).engineBackup f) := by
    intro f
    cases f
    all_goals
      unfold IsAbsent
      rfl
  exact run_leaves_no_trace (w := .ofFiles (Config.filesAt ["app"]))
    (Config.sound_filesAt _ (by decide)) (Config.short_filesAt _ (by decide))
    (Config.isMade_smallAt _ (by decide)) (fun l _ target => Config.unlinked_filesAt _ l target)
    houtside hengine hbackups (by decide) Tools.writesOnlyOutput_failing "now" true

end CrossBuild
