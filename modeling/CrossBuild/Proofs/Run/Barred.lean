import CrossBuild.Proofs.BuildTree.Mirror
import CrossBuild.Proofs.Run.Lasting
import CrossBuild.Proofs.Run.Project

/-!
# What never enters a build tree

What a run writes goes into directories of the project's root, and these directories are left out when
the tree of a target is read, with the one that holds packages. In a project without links a scan meets
such a directory on its way down or not at all, so nothing in it enters the tree, whatever the run has
put there by then. The directory that a scan begins in it does not ask about.
-/

namespace CrossBuild

open FileSystem Workspace CrossBuild.Task

/-- A real directory is not taken for missing. -/
theorem FileSystem.IsReal.isPresent_ne {fs : FileSystem} {p : Path} (hreal : fs.IsReal p.parts)
    (habs : p.isAbsolute = true) : fs.isPresent p ≠ .ok false := by
  intro h
  by_cases hlimit : p.toString.utf8ByteSize < pathByteLimit
  · have hnode := isDirectoryAt_iff.1 (hreal.directories _ (List.prefix_refl _))
    rw [isPresent, test_of_node (hreal.place habs hlimit) hnode] at h
    cases h
  · unfold isPresent test at h
    rw [lookup_of_error (place_of_limit (Path.hasNul_of_names hreal.names) hlimit)] at h
    cases h

namespace Config

variable {c : Config} {t : Target} {fs₀ fs fs' : FileSystem} {l : Location}

/-- A place in one of the directories that never enter a build tree, or such a directory. -/
def Barred (c : Config) (l : Location) : Prop :=
  ∃ p ∈ c.excluded, p.parts <+: l

theorem Barred.below {m : Location} (h : c.Barred l) (hle : l <+: m) : c.Barred m := by
  obtain ⟨p, hp, hpl⟩ := h
  exact ⟨p, hp, hpl.trans hle⟩

/-! ## Projects without links -/

/-- The project's root is a real directory, and no link is in it. -/
structure Straight (c : Config) (fs : FileSystem) : Prop where
  sound : fs.Sound
  real : fs.IsReal c.root.parts
  noLink : ∀ l, c.root.parts <+: l → ∀ target, fs.node? l ≠ some (.link target)

namespace Straight

theorem ready (h : c.Straight fs) : c.yard.Ready fs := by
  refine Yard.ready_of h.sound h.real ?_
  rintro l ⟨n, -, hle⟩
  exact h.noLink l ((List.prefix_append _ _).trans hle)

theorem kept (h : c.Straight fs) (hk : c.yard.Kept fs fs') : c.Straight fs' where
  sound := hk.sound
  real := hk.real
  noLink l hl target ht := by
    by_cases hwithin : c.yard.Within l
    · exact hk.noLink l hwithin target ht
    · rw [hk.outside l hwithin] at ht
      exact h.noLink l hl target ht

theorem put (h : c.Straight fs) (hentry : fs.IsEntry l) (hspot : fs.IsSpot l) (b : Bytes) (x : Bool) :
    c.Straight (fs.put l (.file b x)) where
  sound := h.sound.put hentry (.inr (Yard.not_isDirectoryAt_of_isSpot hspot)) fun _ ht => by cases ht
  real := h.real.congr fun m _ => (refiled_put hspot b x).guides m
  noLink m hm target ht := by
    have hguide := (refiled_put hspot b x).guides m
    rw [guide?_eq_link_iff.2 ht] at hguide
    exact h.noLink m hm target (guide?_eq_link_iff.1 hguide.symm)

theorem remove (h : c.Straight fs) (hdir : fs.isDirectoryAt l = false) : c.Straight (fs.remove l) := by
  exact ⟨h.sound.remove hdir, h.real.remove hdir, fun m hm target ht =>
    h.noLink m hm target (node?_of_remove ht)⟩

/-- A run makes no link. -/
theorem lasts : c.Lasts c.Straight where
  ready _ h := h.ready
  work _ _ h hk := h.kept hk
  write f n hn b := keeps_write_of fun _ _ x h hl hspot =>
    h.put (h.sound.isEntry_of_place_spot (f.isName_of_mem_names n hn) hl hspot) hspot b x
  unlink _ := keeps_unlink_of fun _ _ h _ hdir => h.remove hdir

end Straight

/-! ## What is scanned -/

/-- The places in a target's tree where a place in an output directory would be mirrored. -/
def BarredIn (c : Config) (t : Target) (l : Location) : Prop :=
  ∃ way n, c.Barred (c.entryDirectory.parts ++ way) ∧ l = (c.buildTree t).parts ++ (way ++ [n])

/-- While a tree is made nothing outside of the yard changes, and nothing is where a place in an
output directory would be mirrored. -/
structure Spares (c : Config) (t : Target) (fs₀ fs : FileSystem) : Prop where
  kept : c.yard.Kept fs₀ fs
  clear : ∀ l, c.BarredIn t l → fs.node? l = none

/-- An output directory that is there is among the directories that a scan steps over. -/
def StepsOver (c : Config) (t : Target) (fs₀ : FileSystem) (skip : List Path) : Prop :=
  ∀ fs, c.Spares t fs₀ fs → ∀ p ∈ c.excluded, fs.isDirectory p = .ok true → p ∈ skip

section
variable (hc : c.Sensible) (h₀ : c.Straight fs₀)
include hc h₀

/-- An output directory that is there is resolved to itself, while the tree is made. -/
theorem Spares.resolve (h : c.Spares t fs₀ fs) (h' : c.Spares t fs₀ fs') {p : Path}
    (hp : p ∈ c.excluded) (hd : fs.isDirectory p = .ok true) : fs'.resolve p = .ok p := by
  obtain ⟨n, hn, rfl⟩ := mem_excluded.1 hp
  have hname : ∀ n ∈ ["build", "bin", "dist", "node_modules"], IsName n := by decide
  have hstraight := h₀.kept h.kept
  obtain ⟨l, node, hplace, hnode, hnode'⟩ := (test_cases hd).resolve_right (by simp)
  have hl : l = c.root.parts ++ [n] := by
    refine place_below hstraight.real ?_ rfl (by simpa using hname n hn) ?_ hplace
    · unfold Path.isAbsolute
      rw [hc.root]
      rfl
    · exact fun ys _ _ target => hstraight.noLink _ (List.prefix_append _ _) target
  have hdir : fs.isDirectoryAt l = true := by
    cases node with
    | directory => exact isDirectoryAt_iff.2 hnode
    | file b x => cases hnode'
    | link target => cases hnode'
  have hlinks : ∀ l target, fs'.node? l = some (.link target) ↔ fs.node? l = some (.link target) := by
    intro l target
    by_cases hwithin : c.yard.Within l
    · exact iff_of_false (h'.kept.noLink l hwithin target) (h.kept.noLink l hwithin target)
    · rw [h'.kept.outside l hwithin, h.kept.outside l hwithin]
  have hresolve := resolve_of_place
    (h'.kept.workingDirectory.trans h.kept.workingDirectory.symm) (fun l _ => hlinks l) h.kept.sound
    hplace hdir
  rw [hl] at hresolve
  rw [hresolve, pathOf, hc.root]

theorem Spares.stepsOver (h : c.Spares t fs₀ fs) {skip : List Path} {target : Path}
    (hskip : (c.excluded ++ [target]).mapM fs.resolve = .ok skip) : c.StepsOver t fs₀ skip := by
  intro fs' h' p hp hd
  exact (mem_of_mapM hskip p).2 ⟨p, List.mem_append_left _ hp, h'.resolve hc h₀ h hp hd⟩

/-- **A scan stays out** of the output directories, unless it begins in one. -/
theorem Spares.stays (hroot : c.entry.anchor = .root) (h : c.Spares t fs₀ fs) {skip : List Path}
    (hskip : c.StepsOver t fs₀ skip) :
    SourceTree.Stays fs skip c.entryDirectory fun dirs =>
      (∀ n ∈ dirs, IsName n) ∧ ¬ c.Barred (c.entryDirectory.parts ++ dirs) := by
  rintro dirs name r ⟨hdirs, hbarred⟩ hname hd hresolve hout
  refine ⟨?_, ?_⟩
  · intro n hn
    rcases List.mem_append.1 hn with hn | hn
    · exact hdirs n hn
    · rwa [List.mem_singleton.1 hn]
  · rintro ⟨p, hp, hle⟩
    rw [← List.append_assoc] at hle
    rcases List.prefix_concat_iff.1 hle with heq | hle
    · -- the scan meets the output directory itself
      have hpath : c.entryDirectory.below (dirs ++ [name]) = p := by
        obtain ⟨n, -, rfl⟩ := mem_excluded.1 hp
        rw [Path.below, ← List.append_assoc, ← heq, hc.root]
        exact congrArg (fun anchor => (⟨anchor, _⟩ : Path)) hroot
      rw [hpath] at hd hresolve
      obtain rfl := Except.ok.inj (hresolve.symm.trans (h.resolve hc h₀ h hp hd))
      exact hout (hskip fs h r hp hd)
    · exact hbarred ⟨p, hp, hle⟩

/-- What is read for a target lies outside of the output directories. -/
theorem Spares.every (hroot : c.entry.anchor = .root)
    (hentry : ¬ c.Barred c.entryDirectory.parts) (h : c.Spares t fs₀ fs) {skip : List Path}
    (hskip : c.StepsOver t fs₀ skip) {family : OsFamily} {r : SourceTree.Resolution}
    (hresolved : BuildTree.resolved fs c.entryDirectory family skip = .ok r) :
    SourceTree.Every (fun dirs name _ => (∀ n ∈ dirs ++ [name], IsName n) ∧
      ¬ c.Barred (c.entryDirectory.parts ++ dirs)) [] r.tree := by
  obtain ⟨tree, hscan, hresolve⟩ := of_bind_eq_ok hresolved
  refine SourceTree.every_resolveIn (fun _ _ _ _ hout => hout) (fun _ _ _ _ hout => hout) ?_ hresolve
  refine SourceTree.every_scanTo h.kept.sound (h.stays hc h₀ hroot hskip) ?_ [] tree
    ⟨by simp, by simpa using hentry⟩ (by rwa [Path.below_nil])
  rintro dirs name entry ⟨hdirs, hbarred⟩ hname -
  refine ⟨fun n hn => ?_, hbarred⟩
  rcases List.mem_append.1 hn with hn | hn
  · exact hdirs n hn
  · rwa [List.mem_singleton.1 hn]

end

/-! ## What is written -/

section
variable (hc : c.Sensible) (ht : t ∈ Target.all)
include hc ht

theorem barredIn_iff : c.BarredIn t l ↔ ∃ way n, c.Barred (c.entryDirectory.parts ++ way) ∧
    l = c.root.parts ++ "build" :: t.id :: (way ++ [n]) := by
  have hparts : ∀ ys, (c.buildTree t).parts ++ ys = c.root.parts ++ "build" :: t.id :: ys := by
    intro ys
    rw [(leads_buildTree hc ht).parts]
    simp [yard]
  unfold BarredIn
  simp only [hparts]

/-- On the way down to what was read from outside the output directories, no place is one of theirs. -/
theorem not_barredIn {dirs ys : List String} {name : String}
    (hbarred : ¬ c.Barred (c.entryDirectory.parts ++ dirs)) (hys : ys <+: t.id :: (dirs ++ [name])) :
    ¬ c.BarredIn t (c.root.parts ++ "build" :: ys) := by
  rw [barredIn_iff hc ht]
  rintro ⟨way, n, hway, heq⟩
  rw [(List.cons.inj (List.append_cancel_left heq)).2, List.cons_prefix_cons] at hys
  have hle : way <+: dirs := by
    rcases List.prefix_concat_iff.1 hys.2 with heq | hle
    · obtain ⟨rfl, -⟩ := List.append_inj' heq rfl
      exact List.prefix_refl _
    · exact (List.prefix_append _ _).trans hle
  exact hbarred (hway.below ((List.prefix_append_right_inj _).2 hle))

theorem Spares.keeps_write {p : Path} {dirs : List String} {name : String}
    (hp : c.yard.Leads p "build" (t.id :: (dirs ++ [name])))
    (hbarred : ¬ c.Barred (c.entryDirectory.parts ++ dirs)) (b : Bytes) :
    Keeps (c.Spares t fs₀) (write p b) := by
  refine keeps_write_of fun fs l x h hl hspot => ⟨hp.put_file (by simp) h.kept hl hspot b x, ?_⟩
  obtain rfl := hp.place h.kept hl
  intro m hm
  rw [node?_put fs hspot.ne_nil, if_neg]
  · exact h.clear m hm
  · rintro rfl
    exact not_barredIn hc ht hbarred (List.prefix_refl _) hm

theorem Spares.keeps_makeDirectories {p : Path} {dirs ys : List String} {name : String}
    (hp : c.yard.Leads p "build" ys) (hys : ys <+: t.id :: (dirs ++ [name]))
    (hbarred : ¬ c.Barred (c.entryDirectory.parts ++ dirs)) :
    Keeps (c.Spares t fs₀) (makeDirectories p) := by
  refine hp.keeps_makeDirectories (fun fs h => h.kept.ready) fun q zs hzs hq => ?_
  refine keeps_makeDirectory_of fun fs l h hl hnone => ⟨hq.put_directory h.kept hl hnone, ?_⟩
  obtain rfl := hq.place h.kept hl
  intro m hm
  rw [node?_put fs (isSpot_of_none hnone).ne_nil, if_neg]
  · exact h.clear m hm
  · rintro rfl
    exact not_barredIn hc ht hbarred (hzs.trans hys) hm

/-- Writing a tree whose scripts and directories were read from outside of the output directories. -/
theorem Spares.keeps_writeTree {tree : SourceTree} (hentry : ¬ c.Barred c.entryDirectory.parts)
    (h : SourceTree.Every (fun dirs name _ => (∀ n ∈ dirs ++ [name], IsName n) ∧
      ¬ c.Barred (c.entryDirectory.parts ++ dirs)) [] tree) :
    Keeps (c.Spares t fs₀) (tree.write (c.buildTree t)) := by
  have hleads := leads_buildTree hc ht
  have htarget : Keeps (c.Spares t fs₀) (makeDirectories (c.buildTree t)) :=
    @keeps_makeDirectories c t fs₀ hc ht _ [] _ "" hleads (by simp) (by simpa using hentry)
  refine htarget.bind fun _ => ?_
  rw [← (c.buildTree t).below_nil]
  refine keeps_iff_respects.2 (SourceTree.respects_writeInto (h.mono fun dirs name entry h => ?_))
  obtain ⟨hnames, hbarred⟩ := h
  have hp : c.yard.Leads ((c.buildTree t).below (dirs ++ [name])) "build" (t.id :: (dirs ++ [name])) :=
    hleads.belowAll hnames
  refine ⟨hnames name (by simp), keeps_iff_respects.1 ?_⟩
  rcases entry with text | source | children
  · unfold SourceTree.Entry.putAt writeText
    exact keeps_write hc ht hp hbarred _
  · rcases source with _ | source
    · exact keeps_throw _
    · exact keeps_copyFile_of (keeps_write hc ht hp hbarred)
  · exact keeps_makeDirectories hc ht hp (List.prefix_refl _) hbarred

/-- When a tree is emptied, or found to be missing, nothing of an output directory is in it. -/
theorem Straight.cleared (h₀ : c.Straight fs₀) (hgone : fs₀.isPresent (c.buildTree t) = .ok false)
    (hl : c.BarredIn t l) : fs₀.node? l = none := by
  have hleads := leads_buildTree hc ht
  obtain ⟨way, n, -, rfl⟩ := hl
  by_contra hnode
  obtain ⟨node, hnode⟩ := Option.ne_none_iff_exists'.1 hnode
  rw [← List.append_assoc] at hnode
  have hdirectories := h₀.sound.isDirectoryAt_above (h₀.sound.parents _ _ _ hnode)
  refine IsReal.isPresent_ne ⟨fun m hm => ?_, fun part hpart => ?_, fun part hpart => ?_⟩
    hleads.absolute hgone
  · exact hdirectories m (hm.trans (List.prefix_append _ _))
  · exact h₀.sound.names _ _ hnode part (by simp [hpart])
  · have hshort : ∀ t ∈ Target.all, t.id.utf8ByteSize ≤ maxNameBytes := by decide
    rw [hleads.parts, List.mem_append, List.mem_cons, List.mem_singleton] at hpart
    rcases hpart with hpart | rfl | rfl
    · exact h₀.real.short part hpart
    · decide
    · exact hshort t ht

/-- When the old tree is removed, nothing is left where a place in an output directory would be
mirrored. -/
theorem Straight.spares_removeTree (h₀ : c.Straight fs₀)
    (hrun : (removeTree (c.buildTree t)).runOn fs₀ = (.ok (), fs)) : c.Spares t fs₀ fs := by
  have hleads := leads_buildTree hc ht
  have hkept := Yard.minds_removeTree hleads fs₀ fs₀ h₀.ready
  rw [hrun] at hkept
  obtain ⟨l, hl, -, -, rfl⟩ := runOn_removeTree_ok hrun
  obtain rfl := hleads.place h₀.ready hl
  refine ⟨hkept, fun m hm => ?_⟩
  obtain ⟨way, n, -, rfl⟩ := (barredIn_iff hc ht).1 hm
  exact node?_removeBelow_below ⟨way ++ [n], by simp [yard]⟩ (by simp)

/-- **Making a tree** puts nothing where a place in an output directory would be mirrored, however
far it comes; and if it succeeds, nothing is there. -/
theorem meets_buildTree (h₀ : c.Straight fs₀) (hroot : c.entry.anchor = .root)
    (hentry : ¬ c.Barred c.entryDirectory.parts) :
    Meets (fun w => w.files = fs₀)
      (BuildTree.build c.entryDirectory (c.buildTree t) t.family c.excluded)
      (fun _ w => ∀ l, c.BarredIn t l → w.files.node? l = none)
      fun _ w => ∀ l, c.BarredIn t l → w.files.node? l = none ∨ w.files.node? l = fs₀.node? l := by
  have hbuild : Meets (fun w => w.files = fs₀)
      (BuildTree.build c.entryDirectory (c.buildTree t) t.family c.excluded)
      (fun _ => Of fun fs _ => c.Spares t fs₀ fs)
      fun _ w => ∀ l, c.BarredIn t l → w.files.node? l = none ∨ w.files.node? l = fs₀.node? l := by
    refine BuildTree.meets_build (fun _ w hw l _ => .inr (by rw [hw]))
      (fun _ w hw l hl => .inl (hw.clear l hl)) keeps_info ?_ ?_ ?_
      (fun w skip hw hskip => hw.stepsOver hc h₀ hskip) fun w skip r hw hskip hr => ?_
    · rintro w fs rfl hrun
      exact h₀.spares_removeTree hc ht hrun
    · -- a removal that fails changes nothing
      rintro w fs f rfl hrun l -
      rw [runOn_removeTree_error (leads_buildTree hc ht).removalFault? hrun]
      exact .inr rfl
    · rintro w rfl hgone
      exact ⟨h₀.ready, fun l hl => h₀.cleared hc ht hgone hl⟩
    · exact keeps_liftM fun _ =>
        Spares.keeps_writeTree hc ht hentry (hw.every hc h₀ hroot hentry hskip hr)
  exact hbuild.weaken (fun _ hw => hw) (fun _ _ hw => hw.clear) fun _ _ hw => hw

end

end Config

/-- **Output directories never enter a build tree.** Say a project has no links, and its entry script
is not in one of the directories that are left out. Whenever a run gets to a target, making its tree
leaves nothing where a place in such a directory would be mirrored, though there may be what was there
before if it fails. -/
theorem outputs_never_mirrored {c : Config} {tools : Tools} {w wt : Workspace} {t : Target}
    {now : String} {b : BuildState} (hs : w.files.Sound) (hshort : w.files.Short)
    (hmade : c.IsMade w.files)
    (hlinks : ∀ l, c.root.parts <+: l → ∀ target, w.files.node? l ≠ some (.link target))
    (htools : tools.WritesOnlyOutput) (hentry : ¬ c.Barred c.entryDirectory.parts)
    (hstart : Build.start c now w = .ok b)
    (hreaches : Build.Reaches (.ofConfig c tools) b t wt) :
    let made := (BuildTree.build c.entryDirectory (c.buildTree t) t.family c.excluded).runOn wt
    ∀ way n, c.Barred (c.entryDirectory.parts ++ way) →
      made.2.files.node? ((c.buildTree t).parts ++ (way ++ [n])) = none ∨
        (∃ f, made.1 = .error f) ∧ made.2.files.node? ((c.buildTree t).parts ++ (way ++ [n])) =
          wt.files.node? ((c.buildTree t).parts ++ (way ++ [n])) := by
  intro made way n hway
  have hc := hmade.sensible hs
  have hstraight : c.Straight w.files := ⟨hs, hmade.real hs hshort, hlinks⟩
  have hwt : c.Straight wt.files :=
    Config.Straight.lasts.of_reaches hc htools hstraight.real.names hstraight hstart hreaches
  have ht : t ∈ Target.all := by
    obtain ⟨_, before, after, _, _, -, htargets, -⟩ := hreaches
    refine hc.targets t ?_
    rw [show c.targets = before ++ t :: after from htargets]
    simp
  have hmeets := Config.meets_buildTree hc ht hwt (hmade.entry hs).1 hentry
  rcases hmade : made with ⟨f | r, w'⟩
  · rcases hmeets.of_error rfl hmade _ ⟨way, n, hway, rfl⟩ with hnone | hsame
    · exact .inl hnone
    · exact .inr ⟨⟨f, rfl⟩, hsame⟩
  · exact .inl (hmeets.of_ok rfl hmade _ ⟨way, n, hway, rfl⟩)

namespace Config

/-- The small project with a precompiler for this machine at hand. -/
def readyAt (way : List String) : Config :=
  { smallAt way with hostPrecompiler := some (.ofString "/zig") }

theorem isMade_readyAt : ∀ way ∈ [[], ["app"], ["build"], ["dist"]],
    (readyAt way).IsMade (filesAt way) :=
  fun way hway => (isMade_smallAt way hway).with_precompiler (by decide)

/-- The files of that project when the setup of a run is over. -/
def setUpAt (way : List String) : Option FileSystem :=
  (Build.start (readyAt way) "now" (.ofFiles (filesAt way))).toOption.map fun b =>
    ((Build.stages (Build.setup (.ofConfig (readyAt way) .failing))).runOn b).2.patching.work.files

/-- A run of that project gets to its target. -/
theorem exists_reaches_readyAt : ∀ way ∈ [[], ["dist"]],
    ∃ b w, Build.start (readyAt way) "now" (.ofFiles (filesAt way)) = .ok b ∧
      Build.Reaches (.ofConfig (readyAt way) .failing) b .linux64 w ∧ w.files ∈ setUpAt way := by
  have hsetup : ∀ way ∈ [[], ["dist"]],
      (Build.start (readyAt way) "now" (.ofFiles (filesAt way))).toOption.map (fun b =>
        ((Build.stages (Build.setup (.ofConfig (readyAt way) .failing))).runOn b).1.toOption) =
          some (some true) := by
    decide +kernel
  intro way hway
  obtain ⟨b, hb, -, -⟩ := Build.start_ok (readyAt way) "now" (.ofFiles (filesAt way))
  have hpassed := hsetup way hway
  rw [hb] at hpassed
  obtain ⟨w, hreaches, hfiles⟩ :=
    Build.exists_reaches (eq_ok_of_toOption (Option.some.inj hpassed)) rfl
  refine ⟨b, w, hb, hreaches, ?_⟩
  rw [setUpAt, hb, hfiles]
  rfl

end Config

/-- The console's stand-in is below the entry script's directory, and does not enter the tree. -/
theorem outputs_never_mirrored_root :
    ∃ b wt, Build.start (.readyAt []) "now" (.ofFiles (Config.filesAt [])) = .ok b ∧
      Build.Reaches (.ofConfig (.readyAt []) .failing) b .linux64 wt ∧
      let made := (BuildTree.build ⟨.root, ["p"]⟩ ⟨.root, ["p", "build", "x86_64-linux-gnu"]⟩ .linux
        (Config.readyAt []).excluded).runOn wt
      made.2.files.node? ["p", "build", "x86_64-linux-gnu", "build", "repl_stub.c"] = none ∨
        (∃ f, made.1 = .error f) ∧
          made.2.files.node? ["p", "build", "x86_64-linux-gnu", "build", "repl_stub.c"] =
            wt.files.node? ["p", "build", "x86_64-linux-gnu", "build", "repl_stub.c"] := by
  obtain ⟨b, wt, hb, hreaches, -⟩ := Config.exists_reaches_readyAt [] (by decide)
  refine ⟨b, wt, hb, hreaches, ?_⟩
  have hentry : ¬ (Config.readyAt []).Barred (Config.readyAt []).entryDirectory.parts := by
    unfold Config.Barred
    decide
  exact @outputs_never_mirrored (.readyAt []) .failing (.ofFiles (Config.filesAt [])) wt .linux64 "now" b
    (Config.sound_filesAt [] (by decide)) (Config.short_filesAt [] (by decide))
    (Config.isMade_readyAt [] (by decide)) (fun l _ target => Config.unlinked_filesAt [] l target)
    Tools.writesOnlyOutput_failing hentry hb hreaches ["build"] "repl_stub.c"
    ⟨(Config.readyAt []).buildDirectory, by simp [Config.excluded], by decide⟩

/-- A project may have its entry script in the directory where applications go. Then that directory is
what its tree is read from. -/
theorem dist_is_mirrored :
    ∃ b wt, (Config.readyAt ["dist"]).IsMade (Config.filesAt ["dist"]) ∧
      (Config.filesAt ["dist"]).Unlinked ∧
      Build.start (.readyAt ["dist"]) "now" (.ofFiles (Config.filesAt ["dist"])) = .ok b ∧
      Build.Reaches (.ofConfig (.readyAt ["dist"]) .failing) b .linux64 wt ∧
      (Config.readyAt ["dist"]).distDirectory.parts = ["p", "dist"] ∧
      wt.files.node? ["p", "dist", "index.mjs"] = some (.file [] false) ∧
      ((BuildTree.build (Config.readyAt ["dist"]).entryDirectory
          ((Config.readyAt ["dist"]).buildTree .linux64) .linux
          (Config.readyAt ["dist"]).excluded).runOn wt).2.files.node?
        ["p", "build", "x86_64-linux-gnu", "index.mjs"] = some (.file [] false) := by
  obtain ⟨b, wt, hb, hreaches, hwt⟩ := Config.exists_reaches_readyAt ["dist"] (by decide)
  have hfacts : ∀ fs ∈ Config.setUpAt ["dist"],
      (∀ e ∈ fs.nodes, e.2.isLink = false) ∧
        fs.node? ["p", "dist", "index.mjs"] = some (.file [] false) ∧
        fs.isDirectory (Config.readyAt ["dist"]).entryDirectory = .ok true ∧
        fs.isPresent ((Config.readyAt ["dist"]).buildTree .linux64) = .ok false ∧
        BuildTree.resolved fs (Config.readyAt ["dist"]).entryDirectory .linux
          ((Config.readyAt ["dist"]).excluded ++ [(Config.readyAt ["dist"]).buildTree .linux64]) =
            .ok ⟨.script "index.mjs" (some "") .nil, [], []⟩ ∧
        (((SourceTree.script "index.mjs" (some "") .nil).write
          ((Config.readyAt ["dist"]).buildTree .linux64)).runOn fs).1 = .ok 1 ∧
        (((SourceTree.script "index.mjs" (some "") .nil).write
            ((Config.readyAt ["dist"]).buildTree .linux64)).runOn fs).2.node?
          ["p", "build", "x86_64-linux-gnu", "index.mjs"] = some (.file [] false) := by
    decide +kernel
  obtain ⟨hnodes, hscript, hsource, hpresent, hresolved, hwrite, hmirrored⟩ := hfacts _ hwt
  have hunlinked : wt.files.Unlinked := unlinked_of_nodes fun e he target htarget => by
    have hnode := hnodes e he
    rw [htarget] at hnode
    cases hnode
  have hskip : ((Config.readyAt ["dist"]).excluded ++ [(Config.readyAt ["dist"]).buildTree .linux64]).mapM
      wt.files.resolve =
        .ok ((Config.readyAt ["dist"]).excluded ++ [(Config.readyAt ["dist"]).buildTree .linux64]) := by
    have hplain : ∀ p ∈ (Config.readyAt ["dist"]).excluded ++
        [(Config.readyAt ["dist"]).buildTree .linux64], p.anchor = .root ∧ ∀ part ∈ p.parts, IsName part := by
      decide
    exact mapM_eq_self fun p hp => hunlinked.resolve_self (hplain p hp).1 (hplain p hp).2
  refine ⟨b, wt, Config.isMade_readyAt _ (by decide), Config.unlinked_filesAt _, hb, hreaches, by decide,
    hscript, ?_⟩
  rw [BuildTree.runOn_build_of_steps hsource hpresent rfl hskip hresolved rfl (Prod.ext hwrite rfl)]
  exact hmirrored

end CrossBuild
