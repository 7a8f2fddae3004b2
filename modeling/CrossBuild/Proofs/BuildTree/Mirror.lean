import CrossBuild.Proofs.FileSystem.Emptied
import CrossBuild.Proofs.FileSystem.Unlinked
import CrossBuild.Proofs.SourceTree.Dropped
import CrossBuild.Proofs.SourceTree.Located
import CrossBuild.Proofs.SourceTree.Written
import CrossBuild.Proofs.Workspace
import Mathlib.Data.String.Basic

/-!
# A build tree mirrors its source

A build removes what is at its target, reads the source, resolves what it read and writes the outcome
to the target. The target may stand in the source, and it may be reached over links, so that what was
removed and what is made need not be at one location: the target led to `l` and leads to `d`. Removing
it is what may stop an excluded path from leading anywhere; a directory is excluded if such a path
leads to it afterwards.

`build_mirrors` says which files there are after a build that succeeds. It asks that the parts of the
target's path are names: what `..` stands behind may be missing, so that the target is not there at
first, is not emptied, and leads to an old directory once the missing one is made
(`old_file_stays`).

Proof. `Built` keeps what is known of each step of a build: the target is `Renewed`, the tree `Lies` at
the source, it `Resolves`, and the outcome `Adds` to the target. So a file of the source is one of the
tree unless it is left out (`taken_iff`); a file of the tree stays or is a script that is gone; and the
files at the target are those that stay (`isFileAt_iff`). An asset is copied when the target was emptied
already, but what is left then was there before, and no step changes it (`asset`).
-/

namespace CrossBuild

open FileSystem SourceTree Workspace CrossBuild.Task

/-- What is made of elements in turn is what is made of one of them. -/
theorem mem_of_mapM {ε α β : Type} {f : α → Except ε β} {l : List α} :
    ∀ {r : List β}, l.mapM f = .ok r → ∀ b, b ∈ r ↔ ∃ a ∈ l, f a = .ok b := by
  induction l with
  | nil =>
    intro r h b
    rw [List.mapM_nil] at h
    rw [← Except.ok.inj h]
    simp
  | cons a l ih =>
    intro r h b
    rw [List.mapM_cons] at h
    obtain ⟨c, hc, h⟩ := of_bind_eq_ok h
    obtain ⟨r', hr', h⟩ := of_bind_eq_ok h
    rw [← Except.ok.inj h, List.mem_cons, ih hr' b]
    constructor
    · rintro (rfl | ⟨a', ha', hb⟩)
      · exact ⟨a, List.mem_cons_self, hc⟩
      · exact ⟨a', List.mem_cons_of_mem a ha', hb⟩
    · rintro ⟨a', ha', hb⟩
      rcases List.mem_cons.1 ha' with rfl | ha'
      · exact .inl (Except.ok.inj (hb.symm.trans hc))
      · exact .inr ⟨a', ha', hb⟩

namespace BuildTree

variable {w w' : Workspace} {source target : Path} {family : OsFamily} {exclude : List Path}
  {r : Resolution} {s : Location}

/-- What is removed, read and written when a tree is built. -/
theorem exists_steps_of_build (h : (build source target family exclude).runOn w = (.ok r, w')) :
    ∃ isPresent cleared skip made count, w.files.isPresent target = .ok isPresent ∧
      (if isPresent then (removeTree target).runOn w.files = (.ok (), cleared)
        else cleared = w.files) ∧
      (exclude ++ [target]).mapM cleared.resolve = .ok skip ∧
      resolved cleared source family skip = .ok r ∧
      (makeDirectories target).runOn cleared = (.ok (), made) ∧
      (writeInto target r.tree).runOn made = (.ok count, w'.files) := by
  obtain ⟨isDirectory, w₁, hlook, h⟩ := Outcome.task.of_bind h
  obtain ⟨-, rfl⟩ := Prod.mk.inj hlook
  split at h
  · cases h
  obtain ⟨isPresent, w₁, hlook, h⟩ := Outcome.task.of_bind h
  obtain ⟨hpresent, rfl⟩ := Prod.mk.inj hlook
  have hrest : ∀ w₂ : Workspace, (do
      let skip ← look fun fs => (exclude ++ [target]).mapM fs.resolve
      let r ← look fun fs => resolved fs source family skip
      let _ ← r.tree.write target
      for s in r.rebindings do
        info s!"[{family.word}] {s.file}: swapping import {s.swap.old} -> {s.swap.new}"
      return r : Task Workspace Resolution).runOn w₂ = (.ok r, w') →
      ∃ skip made count, (exclude ++ [target]).mapM w₂.files.resolve = .ok skip ∧
        resolved w₂.files source family skip = .ok r ∧
        (makeDirectories target).runOn w₂.files = (.ok (), made) ∧
        (writeInto target r.tree).runOn made = (.ok count, w'.files) := by
    intro w₂ h
    obtain ⟨skip, w₃, hlook, h⟩ := Outcome.task.of_bind h
    obtain ⟨hskip, rfl⟩ := Prod.mk.inj hlook
    obtain ⟨r', w₃, hlook, h⟩ := Outcome.task.of_bind h
    obtain ⟨hr, rfl⟩ := Prod.mk.inj hlook
    obtain ⟨count, w₃, hwrite, h⟩ := Outcome.task.of_bind h
    obtain ⟨⟨⟩, w₄, hlog, h⟩ := Outcome.task.of_bind h
    obtain ⟨hr', rfl⟩ := Prod.mk.inj h
    obtain rfl := Except.ok.inj hr'
    -- the log is not among the files
    have hrun : Task.runOn _ w₃ = (Except.ok PUnit.unit, w₄) := hlog
    have hkept : Of (fun fs _ => fs = w₃.files) (Except.ok (ε := Failure) PUnit.unit, w₄).2 := by
      rw [← hrun]
      exact keeps_forIn (fun _ _ _ => (keeps_info _).bind fun _ => keeps_pure _) w₃ rfl
    have hfiles : w₄.files = w₃.files := hkept
    obtain ⟨hcount, hw₃⟩ := Prod.mk.inj hwrite
    have hwritten : (r'.tree.write target).runOn w₂.files = (.ok count, w₃.files) :=
      Prod.ext hcount (congrArg Workspace.files hw₃)
    obtain ⟨⟨⟩, made, hmade, hinto⟩ := Outcome.task.of_bind hwritten
    exact ⟨skip, made, count, hskip, hr, hmade, hfiles ▸ hinto⟩
  cases isPresent with
  | true =>
    rw [if_pos rfl] at h
    obtain ⟨⟨⟩, w₁, hremove, h⟩ := Outcome.task.of_bind h
    obtain ⟨hok, rfl⟩ := Prod.mk.inj hremove
    obtain ⟨skip, made, count, hsteps⟩ := hrest _ h
    exact ⟨true, _, skip, made, count, hpresent, Prod.ext hok rfl, hsteps⟩
  | false =>
    rw [if_neg (by simp)] at h
    obtain ⟨skip, made, count, hsteps⟩ := hrest _ h
    exact ⟨false, _, skip, made, count, hpresent, rfl, hsteps⟩

/-- The steps of a build, put together: what is left to do is to tell of the rebindings. -/
theorem runOn_build_eq_of_steps {isPresent : Bool} {cleared fs : FileSystem}
    {skip : List Path} {count : Nat}
    (hsource : w.files.isDirectory source = .ok true)
    (hpresent : w.files.isPresent target = .ok isPresent)
    (hclear : if isPresent then (removeTree target).runOn w.files = (.ok (), cleared)
      else cleared = w.files)
    (hskip : (exclude ++ [target]).mapM cleared.resolve = .ok skip)
    (hresolved : resolved cleared source family skip = .ok r)
    (hwrite : (r.tree.write target).runOn cleared = (.ok count, fs)) :
    (build source target family exclude).runOn w = (do
      for s in r.rebindings do
        info s!"[{family.word}] {s.file}: swapping import {s.swap.old} -> {s.swap.new}"
      return r : Task Workspace Resolution).runOn { w with files := fs } := by
  unfold build
  rw [runOn_bind, runOn_look, hsource]
  cases isPresent with
  | true =>
    have hremove : (removeTree target).runOn w.files = (.ok (), cleared) := hclear
    simp only [Bool.not_true, Bool.false_eq_true, if_false, if_true, runOn_bind, runOn_look,
      Workspace.runOn_liftM, hpresent, hremove, hskip, hresolved, hwrite]
  | false =>
    obtain rfl : cleared = w.files := hclear
    simp only [Bool.not_true, Bool.false_eq_true, if_false, runOn_bind, runOn_look,
      Workspace.runOn_liftM, hpresent, hskip, hresolved, hwrite]

/-- The steps of a build without rebindings, put together. -/
theorem runOn_build_of_steps {isPresent : Bool} {cleared fs : FileSystem}
    {skip : List Path} {count : Nat}
    (hsource : w.files.isDirectory source = .ok true)
    (hpresent : w.files.isPresent target = .ok isPresent)
    (hclear : if isPresent then (removeTree target).runOn w.files = (.ok (), cleared)
      else cleared = w.files)
    (hskip : (exclude ++ [target]).mapM cleared.resolve = .ok skip)
    (hresolved : resolved cleared source family skip = .ok r) (hrebindings : r.rebindings = [])
    (hwrite : (r.tree.write target).runOn cleared = (.ok count, fs)) :
    (build source target family exclude).runOn w = (.ok r, { w with files := fs }) := by
  rw [runOn_build_eq_of_steps hsource hpresent hclear hskip hresolved hwrite, hrebindings]
  rfl

/-! ## What a build passes through -/

variable {before made after : FileSystem} {skip : List Path} {told : String → Bool → Prop}
  {t : SourceTree} {l d : Location} {way : List String} {n : String} {b : Bytes} {x : Bool}

/-- What a look from a source finds. -/
def Looks (fs : FileSystem) (source : Path) (path : String) (found : Bool) : Prop :=
  fs.isFile (source / path) = .ok found

/-- The tree of a source is read when the target was removed, and resolved by looks from the source and
written to the target that is made again. -/
theorem exists_looks_of_build (hs : w.files.Sound)
    (hcwd : w.files.isDirectoryAt w.files.workingDirectory = true)
    (htarget : ∀ part ∈ target.parts, IsPart part ∧ part ≠ "..")
    (h : (build source target family exclude).runOn w = (.ok r, w')) :
    ∃ made skip t l d, Renewed target w.files made l d ∧
      (exclude ++ [target]).mapM (w.files.removeBelow l).resolve = .ok skip ∧
      scan (w.files.removeBelow l) skip source = .ok t ∧
      Resolves family t (Looks (w.files.removeBelow l) source) [] t.names t r ∧
      Adds made w'.files d r.tree ∧
      ∀ n entry, r.tree.child? n = some entry → entry.isFile = true →
        w'.files.place true (target.below [n]) = .ok (d ++ [n]) := by
  obtain ⟨isPresent, cleared, skip, made, count, hpresent, hclear, hskip, hresolved, hmake, hwrite⟩ :=
    exists_steps_of_build h
  obtain ⟨l, d, rfl, hrenewed⟩ :=
    renewed_of_makeDirectories hs hcwd htarget hpresent hclear hmake
  obtain ⟨t, hscan, hresolve⟩ := of_bind_eq_ok hresolved
  have htells : Outcome.except.TellsOf (fun _ => Looks (w.files.removeBelow l) source)
      (some fun path => (w.files.removeBelow l).isFile (source / path)) :=
    fun _ _ _ _ hlook => ⟨hlook, .refl _⟩
  have hgives : Outcome.except.Gives (t.resolve family (some _)) () r () := hresolve
  have hresolves := (htells.resolveIn hgives).1
  have hroom : Room made target d :=
    ⟨hrenewed.makesWay.sound, htarget, hrenewed.makesWay.place, hrenewed.makesWay.directory⟩
  have hnames : Every (fun _ name _ => IsName name) [] r.tree :=
    (named_resolved hs.removeBelow hresolved).mono fun _ _ _ hnamed => hnamed _ (by simp)
  have hdistinct := hresolves.distinct (distinct_scanTo hscan)
  have hfree : ∀ n ∈ r.tree.names, made.node? (d ++ [n]) = none :=
    fun n _ => hrenewed.empty hs (List.cons_ne_nil n [])
  exact ⟨made, skip, t, l, d, hrenewed, hskip, hscan, hresolves,
    adds_of_writeInto hroom hnames hdistinct hfree hwrite,
    fun n entry => place_of_writeInto hroom hnames hdistinct hfree hwrite⟩

theorem exists_scan_of_build (hs : w.files.Sound)
    (hcwd : w.files.isDirectoryAt w.files.workingDirectory = true)
    (htarget : ∀ part ∈ target.parts, IsPart part ∧ part ≠ "..")
    (h : (build source target family exclude).runOn w = (.ok r, w')) :
    ∃ made skip told t l d, Renewed target w.files made l d ∧
      (exclude ++ [target]).mapM (w.files.removeBelow l).resolve = .ok skip ∧
      scan (w.files.removeBelow l) skip source = .ok t ∧
      Resolves family t told [] t.names t r ∧ Adds made w'.files d r.tree := by
  obtain ⟨made, skip, t, l, d, hrenewed, hskip, hscan, hresolves, hadds, -⟩ :=
    exists_looks_of_build hs hcwd htarget h
  exact ⟨made, skip, _, t, l, d, hrenewed, hskip, hscan, hresolves, hadds⟩

/-- A tree `t` was read at a source after the removal of a target, and written to the target when it
was resolved. -/
structure Built (before made after : FileSystem) (source target : Path) (family : OsFamily)
    (exclude skip : List Path) (told : String → Bool → Prop) (t : SourceTree) (r : Resolution)
    (s l d : Location) : Prop where
  sound : before.Sound
  renewed : Renewed target before made l d
  skips : (exclude ++ [target]).mapM (before.removeBelow l).resolve = .ok skip
  lies : Lies (before.removeBelow l) skip source s t
  noLink : (before.removeBelow l).NoLinkBelow s
  distinct : t.Distinct
  named : t.Named
  resolves : Resolves family t told [] t.names t r
  adds : Adds made after d r.tree

theorem exists_built_looks (hs : w.files.Sound)
    (hcwd : w.files.isDirectoryAt w.files.workingDirectory = true)
    (hsource : w.files.place true source = .ok s)
    (hlinks : ∀ m, s <+: m → (∀ l, w.files.place true target = .ok l → ¬ l <+: m) →
      ∀ text, w.files.node? m ≠ some (.link text))
    (htarget : ∀ part ∈ target.parts, IsPart part ∧ part ≠ "..")
    (h : (build source target family exclude).runOn w = (.ok r, w')) :
    ∃ made skip t l d,
      Built w.files made w'.files source target family exclude skip
        (Looks (w.files.removeBelow l) source) t r s l d ∧
      ∀ n entry, r.tree.child? n = some entry → entry.isFile = true →
        w'.files.place true (target.below [n]) = .ok (d ++ [n]) := by
  obtain ⟨made, skip, t, l, d, hrenewed, hskip, hscan, hresolves, hadds, hfiles⟩ :=
    exists_looks_of_build hs hcwd htarget h
  have hgains := Gains.removeBelow w.files l
  -- the source is where it was
  obtain ⟨s', hlies⟩ := exists_lies hscan
  have hplace := hgains.place_of_node hlies.place (isDirectoryAt_iff.1 hlies.directory)
  obtain rfl := Except.ok.inj (hsource.symm.trans hplace)
  have hnoLink : (w.files.removeBelow l).NoLinkBelow s := by
    intro m hm text hlink
    have hout : ¬ l <+: m := by
      intro hbelow
      rw [node?_removeBelow_below hbelow hrenewed.ne_nil] at hlink
      cases hlink
    exact hlinks m hm (fun l' hl' => hrenewed.place l' hl' ▸ hout) text (hgains.kept m _ hlink)
  exact ⟨made, skip, t, l, d, ⟨hs, hrenewed, hskip, hlies, hnoLink, distinct_scanTo hscan,
    named_scanTo hs.removeBelow hscan, hresolves, hadds⟩, hfiles⟩

theorem exists_built (hs : w.files.Sound)
    (hcwd : w.files.isDirectoryAt w.files.workingDirectory = true)
    (hsource : w.files.place true source = .ok s)
    (hlinks : ∀ m, s <+: m → (∀ l, w.files.place true target = .ok l → ¬ l <+: m) →
      ∀ text, w.files.node? m ≠ some (.link text))
    (htarget : ∀ part ∈ target.parts, IsPart part ∧ part ≠ "..")
    (h : (build source target family exclude).runOn w = (.ok r, w')) :
    ∃ made skip told t l d,
      Built w.files made w'.files source target family exclude skip told t r s l d := by
  obtain ⟨made, skip, t, l, d, hbuilt, -⟩ := exists_built_looks hs hcwd hsource hlinks htarget h
  exact ⟨made, skip, _, t, l, d, hbuilt⟩

/-! ## The mirror -/

/-- A directory on a way from a location is what one of the paths resolves to. -/
def Excluded (fs : FileSystem) (exclude : List Path) (s : Location) (way : List String) : Prop :=
  ∃ front, front ≠ [] ∧ front <+: way ∧ ∃ e ∈ exclude, fs.resolve e = .ok (pathOf (s ++ front))

/-- The files below a location `s` that are taken into a tree: those that are not where the target was,
and in no excluded directory. -/
def Taken (fs : FileSystem) (exclude : List Path) (s l : Location) (way : List String) : Prop :=
  fs.IsFileAt (s ++ way) ∧ ¬ l <+: s ++ way ∧
    ¬ Excluded (fs.removeBelow l) exclude s way.dropLast

/-- How the files at a target `d` are those at a source `s`, where the target led to `l` before and the
ways to the scripts that are left out are `gone`. A file that is taken is at the target or gone, not
both, and no other file is at the target; assets keep their content. Where the target was there are no
files but at the target now, and everywhere else the files are the ones from before. -/
structure Mirrors (before after : FileSystem) (exclude : List Path) (s l d : Location)
    (gone : List Location) : Prop where
  files : ∀ way, Taken before exclude s l way ↔ after.IsFileAt (d ++ way) ∨ way ∈ gone
  notBoth : ∀ way ∈ gone, ¬ after.IsFileAt (d ++ way)
  assets : ∀ way n b x, Taken before exclude s l (way ++ [n]) → ScriptName.isScript n = false →
    before.node? (s ++ (way ++ [n])) = some (.file b x) →
      after.node? (d ++ (way ++ [n])) = some (.file b false)
  inside : ∀ m, l <+: m → after.IsFileAt m → d <+: m
  outside : ∀ m b x, ¬ l <+: m →
    (after.node? m = some (.file b x) ↔ before.node? m = some (.file b x))

namespace Built

/-- On the way to a directory that is there, a scan leaves out what is excluded. -/
theorem leftOut_iff (h : Built before made after source target family exclude skip told t r s l d)
    (hdir : (before.removeBelow l).isDirectoryAt (s ++ way) = true) :
    LeftOut skip s way ↔ Excluded (before.removeBelow l) exclude s way := by
  refine exists_congr fun front => and_congr_right fun _ => and_congr_right fun hfront => ?_
  rw [mem_of_mapM h.skips]
  constructor
  · rintro ⟨e, he, hresolve⟩
    rcases List.mem_append.1 he with he | he
    · exact ⟨e, he, hresolve⟩
    · -- where the target is going to be nothing is
      rw [List.mem_singleton.1 he, h.renewed.resolve] at hresolve
      have hd : d = s ++ front := (Path.mk.inj (Except.ok.inj hresolve)).2
      have hfound := h.sound.removeBelow.isDirectoryAt_above hdir (s ++ front)
        ((List.prefix_append_right_inj s).2 hfront)
      rw [← hd, isDirectoryAt_iff, h.renewed.node?_eq_none] at hfound
      cases hfound
  · rintro ⟨e, he, hresolve⟩
    exact ⟨e, List.mem_append_left _ he, hresolve⟩

/-- The files that are taken are those of the tree. -/
theorem taken_iff (h : Built before made after source target family exclude skip told t r s l d) :
    Taken before exclude s l way ↔ ∃ entry, t.get? way = some entry ∧ entry.isFile = true := by
  have hs := h.sound.removeBelow (l := l)
  rw [h.lies.isFile_iff hs h.noLink, isFileAt_removeBelow_iff, and_assoc]
  refine and_congr_right fun ⟨b, x, hnode⟩ => and_congr_right fun hout => not_congr ?_
  refine (h.leftOut_iff ?_).symm
  -- what a file is in is a directory
  rcases List.eq_nil_or_concat way with rfl | ⟨front, n, rfl⟩
  · rw [List.dropLast_nil, List.append_nil]
    exact h.lies.directory
  · rw [List.concat_eq_append, List.dropLast_concat]
    rw [List.concat_eq_append, ← List.append_assoc] at hnode hout
    exact hs.parents _ n _ (node?_removeBelow_eq_file_iff.2 ⟨hnode, hout⟩)

/-- The files at the target are those of the resolved tree. -/
theorem isFileAt_iff (h : Built before made after source target family exclude skip told t r s l d) :
    after.IsFileAt (d ++ way) ↔ ∃ entry, r.tree.get? way = some entry ∧ entry.isFile = true :=
  h.adds.isFileAt_iff h.renewed.makesWay.directory fun _ => h.renewed.empty h.sound

theorem asset (h : Built before made after source target family exclude skip told t r s l d)
    (htaken : Taken before exclude s l (way ++ [n])) (hn : ScriptName.isScript n = false)
    (hnode : before.node? (s ++ (way ++ [n])) = some (.file b x)) :
    after.node? (d ++ (way ++ [n])) = some (.file b false) := by
  obtain ⟨entry, hentry, hfile⟩ := h.taken_iff.1 htaken
  obtain ⟨rfl, hplace⟩ := h.lies.asset h.sound.removeBelow h.noLink hentry hfile hn
  have hafter := h.resolves.leaves h.distinct (way ++ [n])
  rw [hentry] at hafter
  generalize hleft : r.tree.get? (way ++ [n]) = left at hafter
  cases hafter
  obtain ⟨src, b', hsrc, hcontent', hnode'⟩ := h.adds.holds _ _ (by simp) hleft
  obtain rfl := Option.some.inj hsrc
  -- the content was there before, and still is
  have hcontent : (before.removeBelow l).content (source.below (way ++ [n])) = .ok b :=
    content_eq_ok_iff.2 ⟨_, x, hplace, node?_removeBelow_eq_file_iff.2 ⟨hnode, htaken.2.1⟩⟩
  have hkept := (h.renewed.makesWay.gains.trans h.adds.gains).content hcontent
  rwa [Except.ok.inj (hkept.symm.trans hcontent')]

/-- A file that was not at the target is there after the build as it was before, and no other one. -/
theorem outside (h : Built before made after source target family exclude skip told t r s l d)
    {m : Location} (hm : ¬ d <+: m) :
    after.node? m = some (.file b x) ↔ before.node? m = some (.file b x) ∧ ¬ l <+: m := by
  rw [← h.renewed.file_iff]
  rcases h.adds.others m with hsame | ⟨way, -, -, rfl⟩
  · rw [hsame]
  · exact absurd (List.prefix_append d way) hm

/-- The scripts that were dropped are listed once, by the texts of the ways to what is gone. -/
theorem exists_gone
    (h : Built before made after source target family exclude skip told t r s l d) :
    ∃ gone : List Location, r.dropped = gone.map (String.intercalate "/") ∧ r.dropped.Nodup ∧
      ∀ way, way ∈ gone ↔ Gone t r.tree way := by
  obtain ⟨gone, hdropped, hnodup, hgone⟩ := h.resolves.exists_gone h.distinct
  have hne : ∀ way ∈ gone, way ≠ [] := fun way hway hnil => not_gone_nil (hnil ▸ (hgone way).1 hway)
  have hparts : ∀ way ∈ gone, ∀ n ∈ way, IsPart n := by
    intro way hway n hn
    obtain ⟨⟨text, htext⟩, -⟩ := (hgone way).1 hway
    have hnames : Every (fun _ name _ => IsName name) [] t :=
      h.named.mono fun _ _ _ hnamed => hnamed _ (by simp)
    exact (hnames.of_get? htext n hn).isPart
  have hways : r.dropped = gone.map (String.intercalate "/") := by
    rw [hdropped]
    exact List.map_congr_left fun way hway => Lexical.ofList_joinAll (hparts way hway)
  refine ⟨gone, hways, ?_, hgone⟩
  rw [hways]
  exact hnodup.map_on fun first hfirst second hsecond => Lexical.eq_of_intercalate
    (hne first hfirst) (hne second hsecond) (hparts first hfirst) (hparts second hsecond)

theorem mirrors (h : Built before made after source target family exclude skip told t r s l d)
    {gone : List Location} (hgone : ∀ way, way ∈ gone ↔ Gone t r.tree way) :
    Mirrors before after exclude s l d gone where
  files way := by
    rw [h.taken_iff, h.resolves.isFile_iff h.distinct, hgone, h.isFileAt_iff]
  notBoth way hway := by
    rw [h.isFileAt_iff, ((hgone way).1 hway).2]
    rintro ⟨entry, hentry, -⟩
    cases hentry
  assets _ _ _ _ := h.asset
  inside m hm hfile := by
    obtain ⟨b, x, hnode⟩ := hfile
    by_contra hout
    exact ((h.outside hout).1 hnode).2 hm
  outside m b x hm := by
    rw [h.outside fun hd => hm (h.renewed.below.trans hd)]
    exact and_iff_left hm

end Built

/-- After a build the target holds the files of the source, those where the target was and in excluded
directories aside, without the scripts that were dropped, each listed once. Files other than scripts
kept their content, and what is outside the target is as before. -/
theorem build_mirrors (hs : w.files.Sound)
    (hcwd : w.files.isDirectoryAt w.files.workingDirectory = true)
    (hsource : w.files.place true source = .ok s)
    (hlinks : ∀ m, s <+: m → (∀ l, w.files.place true target = .ok l → ¬ l <+: m) →
      ∀ text, w.files.node? m ≠ some (.link text))
    (htarget : ∀ part ∈ target.parts, IsPart part ∧ part ≠ "..")
    (h : (build source target family exclude).runOn w = (.ok r, w')) :
    ∃ l d gone, (∀ m, w.files.place true target = .ok m → m = l) ∧
      w'.files.place true target = .ok d ∧ l <+: d ∧
      r.dropped = gone.map (String.intercalate "/") ∧ r.dropped.Nodup ∧
      Mirrors w.files w'.files exclude s l d gone := by
  obtain ⟨made, skip, told, t, l, d, hbuilt⟩ := exists_built hs hcwd hsource hlinks htarget h
  obtain ⟨gone, hdropped, hnodup, hgone⟩ := hbuilt.exists_gone
  have hplace : w'.files.place true target = .ok d :=
    hbuilt.adds.gains.place_of_node hbuilt.renewed.makesWay.place
      (isDirectoryAt_iff.1 hbuilt.renewed.makesWay.directory)
  exact ⟨l, d, gone, hbuilt.renewed.place, hplace, hbuilt.renewed.below, hdropped, hnodup,
    hbuilt.mirrors hgone⟩

/-- A source with a script, its variant and an asset. -/
def sourceFiles : FileSystem where
  nodes := [(["app"], .directory), (["app", "a.linux.mjs"], .file [65] false),
    (["app", "a.mjs"], .file [66] false), (["app", "b.txt"], .file [255] true)]
  workingDirectory := []

/-- The source with a target in it that holds something. -/
def nestedFiles : FileSystem where
  nodes := sourceFiles.nodes ++
    [(["app", "out"], .directory), (["app", "out", "old"], .file [] false)]
  workingDirectory := []

/-- What is left of the source for a family. -/
def leftTree : SourceTree :=
  .script "a.linux.mjs" (some "A") (.asset "b.txt" (some ⟨.root, ["app", "b.txt"]⟩) .nil)

/-- The source with what is left of it in the target. -/
def mirroredFiles : FileSystem :=
  ((leftTree.write ⟨.root, ["app", "out"]⟩).runOn sourceFiles).2

theorem build_nestedFiles :
    (build ⟨.root, ["app"]⟩ ⟨.root, ["app", "out"]⟩ .linux []).runOn (ofFiles nestedFiles) =
      (.ok ⟨leftTree, ["a.mjs"], []⟩, ofFiles mirroredFiles) := by
  have hnames : sourceFiles.names ⟨.root, ["app"]⟩ = .ok ["a.linux.mjs", "a.mjs", "b.txt"] := by
    refine names_eq_ok_iff.2 ⟨["app"], by rfl, ?_⟩
    simp [-String.lt_iff_ltb, childNames, sourceFiles, childName?, List.eraseDups_cons,
      List.mergeSort, List.MergeSort.Internal.splitInTwo]
  have hresolve : sourceFiles.resolve ⟨.root, ["app", "out"]⟩ = .ok ⟨.root, ["app", "out"]⟩ :=
    Unlinked.resolve_self (unlinked_of_nodes (by simp [sourceFiles])) rfl (by decide)
  have hresolved : resolved sourceFiles ⟨.root, ["app"]⟩ .linux [⟨.root, ["app", "out"]⟩] =
      .ok ⟨leftTree, ["a.mjs"], []⟩ := by
    change (scanTo sourceFiles _ (4095 + 1) ⟨.root, ["app"]⟩ >>= _) = _
    rw [scanTo, hnames]
    decide +kernel
  have hpresent : nestedFiles.isPresent ⟨.root, ["app", "out"]⟩ = .ok true := by rfl
  have hwrite : ((leftTree.write ⟨.root, ["app", "out"]⟩).runOn sourceFiles).1 = .ok 2 := by
    decide +kernel
  exact runOn_build_of_steps (by rfl) hpresent (by rfl) (by simp [hresolve]) hresolved rfl
    (Prod.ext hwrite rfl)

theorem build_mirrors_nested :
    (build ⟨.root, ["app"]⟩ ⟨.root, ["app", "out"]⟩ .linux []).runOn (ofFiles nestedFiles) =
        (.ok ⟨leftTree, ["a.mjs"], []⟩, ofFiles mirroredFiles) ∧
      mirroredFiles.IsFileAt ["app", "out", "a.linux.mjs"] ∧
      mirroredFiles.node? ["app", "out", "b.txt"] = some (.file [255] false) ∧
      ¬ mirroredFiles.IsFileAt ["app", "out", "old"] ∧
      mirroredFiles.node? ["app", "a.mjs"] = some (.file [66] false) := by
  have hsound : nestedFiles.Sound := sound_of_nodes (by decide)
  have hunlinked : nestedFiles.Unlinked := unlinked_of_nodes (by simp [nestedFiles, sourceFiles])
  have hsource : nestedFiles.place true ⟨.root, ["app"]⟩ = .ok ["app"] := by rfl
  have hplace : mirroredFiles.place true ⟨.root, ["app", "out"]⟩ = .ok ["app", "out"] := by
    decide +kernel
  obtain ⟨l, d, gone, hl, hd, -, hdropped, -, hmirrors⟩ :=
    build_mirrors hsound rfl hsource (fun m _ _ text => hunlinked m text)
      (by simp [IsPart]) build_nestedFiles
  obtain rfl := hl ["app", "out"] (by rfl)
  obtain rfl : ["app", "out"] = d := Except.ok.inj (hplace.symm.trans hd)
  have hexcluded : ∀ way, ¬ Excluded (nestedFiles.removeBelow ["app", "out"]) [] ["app"] way := by
    rintro way ⟨front, -, -, e, he, -⟩
    cases he
  have htaken : ∀ n b x, nestedFiles.node? ["app", n] = some (.file b x) → "out" ≠ n →
      Taken nestedFiles [] ["app"] ["app", "out"] [n] := fun n b x hnode hn =>
    ⟨⟨b, x, hnode⟩, by simpa using hn, hexcluded _⟩
  have hscript := htaken "a.linux.mjs" [65] false (by rfl) (by decide)
  have hasset := htaken "b.txt" [255] true (by rfl) (by decide)
  have hvariant : ["a.linux.mjs"] ∉ gone := by
    intro hgone
    have hmem := List.mem_map_of_mem (f := String.intercalate "/") hgone
    rw [← hdropped] at hmem
    revert hmem
    decide
  refine ⟨build_nestedFiles, ?_, ?_, ?_, ?_⟩
  · exact ((hmirrors.files ["a.linux.mjs"]).1 hscript).resolve_right hvariant
  · exact hmirrors.assets [] "b.txt" [255] true hasset (by rfl) (by rfl)
  · intro hold
    obtain ⟨⟨b, x, hnode⟩, -, -⟩ := (hmirrors.files ["old"]).2 (.inl hold)
    have hnone : nestedFiles.node? ["app", "old"] = none := by rfl
    cases hnone.symm.trans hnode
  · exact (hmirrors.outside ["app", "a.mjs"] [66] false (by decide)).2 (by rfl)

/-- A file to be copied, and one that is where the copy goes. -/
def oldFiles : FileSystem where
  nodes := [(["app"], .directory), (["app", "b.txt"], .file [65] false), (["out"], .directory),
    (["out", "old"], .file [66] false)]
  workingDirectory := []

/-- A target that is reached by way of a directory that is missing is not emptied: it is not there until
that directory is made. -/
theorem old_file_stays :
    ∃ r w, (build ⟨.root, ["app"]⟩ ⟨.root, ["out", "none", ".."]⟩ .linux []).runOn
          (ofFiles oldFiles) = (.ok r, w) ∧
      w.files.place true ⟨.root, ["out", "none", ".."]⟩ = .ok ["out"] ∧
      w.files.IsFileAt ["out", "old"] ∧
      ∀ l gone, ¬ Mirrors oldFiles w.files [] ["app"] l ["out"] gone := by
  let copied : SourceTree := .asset "b.txt" (some ⟨.root, ["app", "b.txt"]⟩) .nil
  let after := ((copied.write ⟨.root, ["out", "none", ".."]⟩).runOn oldFiles).2
  have hpresent : oldFiles.isPresent ⟨.root, ["out", "none", ".."]⟩ = .ok false := by rfl
  have hunlinked : oldFiles.Unlinked := unlinked_of_nodes (by simp [oldFiles])
  have hresolve : oldFiles.resolve ⟨.root, ["out", "none", ".."]⟩ = .ok ⟨.root, ["out"]⟩ :=
    hunlinked.resolve_eq (by decide)
  have hresolved : resolved oldFiles ⟨.root, ["app"]⟩ .linux [⟨.root, ["out"]⟩] =
      .ok ⟨copied, [], []⟩ := by
    decide +kernel
  have hwrite : ((copied.write ⟨.root, ["out", "none", ".."]⟩).runOn oldFiles).1 = .ok 1 := by
    decide +kernel
  have hold : after.node? ["out", "old"] = some (.file [66] false) := by decide +kernel
  refine ⟨⟨copied, [], []⟩, { ofFiles oldFiles with files := after }, ?_, by decide +kernel,
    ⟨_, _, hold⟩, fun l gone hmirrors => ?_⟩
  · exact runOn_build_of_steps (by rfl) hpresent (by rfl) (by simp [hresolve]) hresolved
      rfl (Prod.ext hwrite rfl)
  · obtain ⟨⟨b, x, hnode⟩, -, -⟩ := (hmirrors.files ["old"]).2 (.inl ⟨_, _, hold⟩)
    have hnone : oldFiles.node? ["app", "old"] = none := by rfl
    cases hnone.symm.trans hnode

end BuildTree

end CrossBuild
