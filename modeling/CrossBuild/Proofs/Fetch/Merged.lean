import CrossBuild.Fetch
import CrossBuild.Proofs.FileSystem.DeadEnds
import CrossBuild.Proofs.FileSystem.Moved
import CrossBuild.Proofs.FileSystem.Routes
import CrossBuild.Proofs.Outcome

/-!
# Merging into a directory

What has the name of an entry in the target is cleared, and the entry is moved there (`runOn_replaceWith`).
So after some rounds of the loop these entries stand in the target as they stood where they were unpacked,
and nothing else has changed (`Merged`). That a round succeeds shows that nothing was cleared on the way to
what is still to be moved.
-/

namespace CrossBuild

open FileSystem CrossBuild.Task

namespace FileSystem

variable {fs fs' : FileSystem} {p q : Path} {l m : Location} {n : String} {anchor : Path.Anchor}
  {init : List String}

/-- A name that was found in a directory by a path is found by that path in any directory. -/
theorem place_child_again (h : fs.place false (p.below [n]) = .ok m) (hn : IsName n)
    (hl : fs'.isDirectoryAt l = true) (hp : fs'.place true p = .ok l) :
    fs'.place false (p.below [n]) = .ok (l ++ [n]) := by
  obtain ⟨links, d, hd, hplace, hlast⟩ := place_last hn.2.1 hn.2.2 h
  obtain ⟨hnul, hlimit, hwalk⟩ := place_eq_ok_iff.1 hplace
  have hshort := ((walk_name_iff hd hn.2.1 hn.2.2).1 ((hlast false n).symm.trans hwalk)).1
  obtain ⟨links', hwalk'⟩ := exists_walk_of_place_below hl hp (List.cons_ne_nil n [])
  rw [hwalk' false hnul hlimit, (walk_name_iff hl hn.2.1 hn.2.2).2 ⟨hshort, rfl⟩]
  rfl

/-- Where something is found through links, something stands. -/
theorem exists_node?_of_place_true {node : Node} (hn : IsName n)
    (h : fs.place true ⟨anchor, init ++ [n]⟩ = .ok l) (hl : fs.node? l = some node) :
    ∃ m node, fs.place false ⟨anchor, init ++ [n]⟩ = .ok m ∧ fs.node? m = some node := by
  obtain ⟨links, d, hd, hplace, hlast⟩ := place_last hn.2.1 hn.2.2 h
  rcases hnode : fs.node? (d ++ [n]) with _ | found
  · obtain ⟨-, -, hwalk⟩ := place_eq_ok_iff.1 h
    obtain ⟨-, -, hwalk'⟩ := place_eq_ok_iff.1 hplace
    rw [hlast] at hwalk hwalk'
    rcases walk_last hd hn.2.1 hn.2.2 links with hlong | ⟨-, hspot⟩
    · rw [hlong] at hwalk'
      cases hwalk'
    · rw [hspot (isSpot_of_none hnode) true] at hwalk
      rw [← Except.ok.inj hwalk, hnode] at hl
      cases hl
  · exact ⟨d ++ [n], found, hplace, hnode⟩

end FileSystem

namespace Fetch

variable {fs fs₀ fs₁ fs' : FileSystem} {target q : Path} {d m r l : Location} {n : String}
  {anchor : Path.Anchor} {init dir done names tail : List String}

/-! ## One entry -/

theorem runOn_unlink_ok (hq : fs.place false q = .ok m) (hrun : (unlink q).runOn fs = (.ok (), fs')) :
    fs.isDirectoryAt m = false ∧ fs' = fs.remove m := by
  unfold unlink at hrun
  rw [runOn_change] at hrun
  rcases hlookup : fs.lookup false q with f | ⟨l, node⟩ <;> rw [hlookup] at hrun
  · cases hrun
  obtain ⟨hl, hnode⟩ := lookup_eq_ok_iff.1 hlookup
  obtain rfl := Except.ok.inj (hq.symm.trans hl)
  cases node with
  | directory => cases hrun
  | file _ _ | link _ => exact ⟨by simp [isDirectoryAt, hnode], (Prod.mk.inj hrun).2.symm⟩

/-- Where a path leads to a place, relocating to it is to move. -/
theorem runOn_relocate (hn : IsName n) (hq : fs.place false q = .ok m)
    (hrun : (relocate ⟨anchor, init ++ [n]⟩ q).runOn fs = (.ok (), fs')) :
    ∃ l node, fs.place false ⟨anchor, init ++ [n]⟩ = .ok l ∧ fs.node? l = some node ∧
      fs' = fs.moveBelow l m := by
  unfold relocate at hrun
  rw [runOn_bind, runOn_attempt, move, runOn_change, hq] at hrun
  rcases hlookup : fs.lookup false ⟨anchor, init ++ [n]⟩ with f | ⟨l, node⟩ <;> rw [hlookup] at hrun
  · -- nothing is there to be moved, so it is no directory either
    dsimp only at hrun
    obtain ⟨directory, fs₁, hask, hrun⟩ := Outcome.task.of_bind hrun
    obtain ⟨hdirectory, rfl⟩ := Prod.mk.inj hask
    obtain rfl := Except.ok.inj hdirectory
    rcases hdir : fs.isDirectory ⟨anchor, init ++ [n]⟩ with f' | _ | _
    case ok.true =>
      obtain ⟨l, node, hl, hnode, -⟩ := (test_cases hdir).resolve_right (by simp)
      obtain ⟨m', node', hm', hnode'⟩ := exists_node?_of_place_true hn hl hnode
      rw [lookup_eq_ok_iff.2 ⟨hm', hnode'⟩] at hlookup
      cases hlookup
    all_goals
      simp only [hdir, Except.toOption, Option.getD_some, Option.getD_none, Bool.false_eq_true,
        if_false] at hrun
      cases hrun
  · obtain ⟨hl, hnode⟩ := lookup_eq_ok_iff.1 hlookup
    exact ⟨l, node, hl, hnode, (Prod.mk.inj hrun).2.symm⟩

/-- What is to be replaced is looked for first, so its path leads to its name in the directory. -/
theorem place_of_replaceWith {item : Path} (hp : fs.place true target = .ok d)
    (hd : fs.isDirectoryAt d = true) (hn : IsName n)
    (hrun : (replaceWith item (target.below [n])).runOn fs = (.ok (), fs')) :
    fs.place false (target.below [n]) = .ok (d ++ [n]) := by
  refine (place_child hd hp hn fun _ _ => rfl).resolve_right fun herror => ?_
  unfold replaceWith at hrun
  obtain ⟨_, _, hask, hlater⟩ := Outcome.task.of_bind hrun
  obtain ⟨-, rfl⟩ := Prod.mk.inj hask
  obtain ⟨link, _, hask, -⟩ := Outcome.task.of_bind hlater
  obtain ⟨hlink, -⟩ := Prod.mk.inj hask
  dsimp only at hlink
  unfold isLink test at hlink
  rw [lookup_of_error herror] at hlink
  cases hlink

/-- What stands at a place is cleared, whatever it is, before something is relocated there. -/
theorem cleared_of_replaceWith {item : Path} (hs : fs.Sound) (hm : m ≠ []) (hq : fs.place false q = .ok m)
    (hrun : (replaceWith item q).runOn fs = (.ok (), fs')) :
    ∃ fs₁, Cleared m fs fs₁ ∧ (relocate item q).runOn fs₁ = (.ok (), fs') := by
  unfold replaceWith at hrun
  obtain ⟨directory, _, hask, hrun⟩ := Outcome.task.of_bind hrun
  obtain ⟨hdirectory, rfl⟩ := Prod.mk.inj hask
  obtain ⟨link, _, hask, hrun⟩ := Outcome.task.of_bind hrun
  obtain ⟨hlink, rfl⟩ := Prod.mk.inj hask
  dsimp only at hrun
  split at hrun
  · obtain ⟨_, fs₁, hremove, hrest⟩ := Outcome.task.of_bind hrun
    obtain ⟨l, hl, -, -, rfl⟩ := runOn_removeTree_ok hremove
    obtain rfl := Except.ok.inj (hq.symm.trans hl)
    exact ⟨_, cleared_removeBelow hs hm, hrest⟩
  obtain ⟨isPresent, _, hask, hlater⟩ := Outcome.task.of_bind hrun
  obtain ⟨hpresent, rfl⟩ := Prod.mk.inj hask
  split at hlater
  · obtain ⟨_, fs₁, hunlink, hrest⟩ := Outcome.task.of_bind hlater
    obtain ⟨hfile, rfl⟩ := runOn_unlink_ok hq hunlink
    exact ⟨_, cleared_remove hs hfile, hrest⟩
  · next hnothing =>
    obtain ⟨rfl, rfl⟩ : link = false ∧ isPresent = false := by simpa using hnothing
    refine ⟨fs, cleared_of_none hs ?_, hlater⟩
    by_contra hsome
    obtain ⟨node, hnode⟩ := Option.ne_none_iff_exists'.1 hsome
    have hnolink : ∀ t, fs.node? m ≠ some (.link t) := by
      intro t ht
      have : fs.isLink q = .ok true := test_of_node hq ht
      cases this.symm.trans hlink
    have : fs.isPresent q = .ok true := test_of_node (place_true_of_false hq hnolink) hnode
    cases this.symm.trans hpresent

/-- **What has a name in a directory is cleared**, and something is moved to it. -/
theorem runOn_replaceWith {k : String} (hs : fs.Sound) (hp : fs.place true target = .ok d)
    (hd : fs.isDirectoryAt d = true) (hn : IsName n) (hk : IsName k)
    (hstill : ∀ fs', Cleared (d ++ [n]) fs fs' → fs'.place true target = .ok d)
    (hrun : (replaceWith ⟨anchor, init ++ [k]⟩ (target / n)).runOn fs = (.ok (), fs')) :
    ∃ fs₁ l node, Cleared (d ++ [n]) fs fs₁ ∧ fs₁.place false ⟨anchor, init ++ [k]⟩ = .ok l ∧
      fs₁.node? l = some node ∧ fs' = fs₁.moveBelow l (d ++ [n]) := by
  rw [show target / n = target.below [n] from target.div_name hn] at hrun
  have hplace := place_of_replaceWith hp hd hn hrun
  obtain ⟨fs₁, hcleared, hrelocate⟩ := cleared_of_replaceWith hs (by simp) hplace hrun
  have hd₁ : fs₁.isDirectoryAt d = true := by
    rw [isDirectoryAt_iff, hcleared.others d (fun h => ?_), isDirectoryAt_iff.1 hd]
    exact Nat.not_succ_le_self d.length (by simpa using h.length_le)
  have hplace₁ := place_child_again hplace hn hd₁ (hstill fs₁ hcleared)
  obtain ⟨l, node, hl, hnode, hfs'⟩ := runOn_relocate hk hplace₁ hrelocate
  exact ⟨fs₁, l, node, hcleared, hl, hnode, hfs'⟩

/-! ## Entry after entry -/

/-- Some entries of the directory `r` stand in the directory `d`, and nothing else has changed. -/
structure Merged (d r : Location) (done : List String) (fs₀ fs : FileSystem) : Prop where
  sound : fs.Sound
  workingDirectory : fs.workingDirectory = fs₀.workingDirectory
  apart : ∀ n ∈ done, ∀ l, d ++ [n] <+: l → ¬ r <+: l
  there : ∀ n ∈ done, ∀ rest, fs.node? (d ++ n :: rest) = fs₀.node? (r ++ n :: rest)
  others : ∀ l, (∀ n ∈ done, ¬ d ++ [n] <+: l ∧ ¬ r ++ [n] <+: l) → fs.node? l = fs₀.node? l

theorem merged_nil (hs : fs₀.Sound) : Merged d r [] fs₀ fs₀ :=
  ⟨hs, rfl, nofun, nofun, fun _ _ => rfl⟩

/-- Two places in a directory that have something below in common are the same. -/
theorem eq_of_prefix_concat {k : String} (h : d ++ [n] <+: l) (h' : d ++ [k] <+: l) : n = k := by
  rcases List.prefix_or_prefix_of_prefix h h' with h | h
  · simpa using h.eq_of_length (by simp)
  · simpa using (h.eq_of_length (by simp)).symm

/-- What is outside a directory has nothing below in common with it, unless one is in the other. -/
theorem apart_of_not_prefix (hrd : ¬ r <+: d) (h : ¬ d ++ [n] <+: r) (hl : d ++ [n] <+: l) : ¬ r <+: l := by
  intro hrl
  rcases List.prefix_or_prefix_of_prefix hl hrl with hle | hle
  · exact h hle
  · rcases List.prefix_concat_iff.1 hle with rfl | hle
    · exact h (List.prefix_refl _)
    · exact hrd hle

namespace Merged

/-- An entry that is still to be moved stands where it stood, and so does all above. -/
theorem left (h : Merged d r done fs₀ fs) (hn : n ∉ done) (hl : l <+: r ++ [n] ∨ r ++ [n] <+: l) :
    fs.node? l = fs₀.node? l := by
  have hr : r <+: r ++ [n] := List.prefix_append r [n]
  refine h.others l fun k hk => ⟨fun hle => ?_, fun hle => hn ?_⟩
  · rcases hl with hl | hl
    · exact h.apart k hk _ (hle.trans hl) hr
    · exact h.apart k hk _ hle (hr.trans hl)
  · rcases hl with hl | hl
    · exact eq_of_prefix_concat (hle.trans hl) (List.prefix_refl _) ▸ hk
    · exact eq_of_prefix_concat hle hl ▸ hk

/-- Moving one more entry to a cleared place. -/
theorem add {node : Node} (h : Merged d r done fs₀ fs) (hrd : ¬ r <+: d) (hd : fs.isDirectoryAt d = true)
    (hn : IsName n) (hnew : n ∉ done) (hcleared : Cleared (d ++ [n]) fs fs₁)
    (hnode : fs₁.node? (r ++ [n]) = some node) :
    Merged d r (done ++ [n]) fs₀ (fs₁.moveBelow (r ++ [n]) (d ++ [n])) := by
  have hshorter : ¬ d ++ [n] <+: d := fun h => Nat.not_succ_le_self d.length (by simpa using h.length_le)
  have hd₁ : fs₁.isDirectoryAt d = true := by
    rw [isDirectoryAt_iff, hcleared.others d hshorter, isDirectoryAt_iff.1 hd]
  -- what is there to be moved was not cleared
  have hout : ¬ d ++ [n] <+: r ++ [n] := fun hle => by
    rw [hcleared.below _ hle] at hnode
    cases hnode
  have hapart : ∀ l, d ++ [n] <+: l → ¬ r <+: l := fun l =>
    apart_of_not_prefix hrd fun hle => hout (hle.trans (List.prefix_append r [n]))
  have hr : r <+: r ++ [n] := List.prefix_append r [n]
  obtain ⟨hat, -, hothers⟩ := node?_moveBelow (show r ++ [n] ≠ [] by simp) (by simp) hcleared.below
  have hsame : ∀ l, ¬ r ++ [n] <+: l → ¬ d ++ [n] <+: l →
      (fs₁.moveBelow (r ++ [n]) (d ++ [n])).node? l = fs.node? l := fun l hl hl' =>
    (hothers l hl hl').trans (hcleared.others l hl')
  refine ⟨hcleared.sound.moveBelow hd₁ hn (by simp) hcleared.below fun hle => hrd (hr.trans hle),
    hcleared.workingDirectory.trans h.workingDirectory, fun k hk => ?_, fun k hk rest => ?_, fun l hl => ?_⟩
  · rcases List.mem_append.1 hk with hk | hk
    · exact h.apart k hk
    · exact List.mem_singleton.1 hk ▸ hapart
  · rcases List.mem_append.1 hk with hk | hk
    · have hbelow : d ++ [k] <+: d ++ k :: rest := ⟨rest, by simp⟩
      rw [hsame, h.there k hk]
      · exact fun hle => h.apart k hk _ hbelow (hr.trans hle)
      · exact fun hle => hnew (eq_of_prefix_concat hle hbelow ▸ hk)
    · obtain rfl := List.mem_singleton.1 hk
      have hbelow : r ++ [k] <+: r ++ k :: rest := ⟨rest, by simp⟩
      have := hat rest
      rw [List.append_assoc, List.append_assoc, List.singleton_append, hcleared.others] at this
      · rw [this, h.left hnew (.inr hbelow)]
      · exact fun hle => hapart _ hle (hr.trans hbelow)
  · obtain ⟨hdl, hrl⟩ := hl n (by simp)
    rw [hsame l hrl hdl, h.others l fun k hk => hl k (List.mem_append_left _ hk)]

end Merged

/-! ## The way to what is to be moved -/

/-- The path of a directory leads there, and has nothing to do with a name. -/
structure Aside (t : String) (dir m : Location) (fs : FileSystem) : Prop where
  place : fs.place true ⟨.root, dir⟩ = .ok m
  directory : fs.isDirectoryAt m = true
  unmentioned : Unmentioned t fs ⟨.root, dir⟩

/-- If what is to be moved is found after the clearing, its directory is where it was. -/
theorem Aside.cleared {t : String} {x source : Location} {node : Node} (h : Aside t dir m fs)
    (htail : tail ≠ []) (hcleared : Cleared x fs fs₁)
    (hplace : fs₁.place false (Path.below ⟨.root, dir⟩ tail) = .ok source)
    (hnode : fs₁.node? source = some node) :
    Aside t dir m fs₁ ∧ fs.place false (Path.below ⟨.root, dir⟩ tail) = .ok source := by
  obtain ⟨m', hm', hdir⟩ := exists_place_above htail hplace
  have hback := hcleared.gains.place_of_node hdir (isDirectoryAt_iff.1 hm')
  obtain rfl := Except.ok.inj (h.place.symm.trans hback)
  refine ⟨⟨hdir, hm', h.unmentioned.of_links hcleared.workingDirectory fun l link hlink => ?_⟩, ?_⟩
  · exact hcleared.gains.kept l _ hlink
  · exact hcleared.gains.place_of_node hplace hnode

/-- A move of what has the name in its path does not change the way to the directory. -/
theorem Aside.moved {t : String} {x source : Location} (h : Aside t dir m fs) (ht : t ∈ source) (hx : x ≠ [])
    (hfree : ∀ l, x <+: l → fs.node? l = none) : Aside t dir m (fs.moveBelow source x) := by
  have hsource : source ≠ [] := List.ne_nil_of_mem ht
  obtain ⟨hat, hgone, hothers⟩ := node?_moveBelow hsource hx hfree
  have hsame : ∀ l, t ∉ l → fs.guide? l ≠ none → (fs.moveBelow source x).node? l = fs.node? l := by
    intro l hl hguide
    refine hothers l (fun hle => hl (hle.subset ht)) fun hle => hguide ?_
    rw [guide?, hfree l hle]
    rfl
  have hm : fs.guide? m ≠ none := by
    rw [guide?_eq_directory_iff.2 (isDirectoryAt_iff.1 h.directory)]
    simp
  have hway := h.unmentioned.not_mem true
  have hroute : Route (fun l => t ∉ l ∧ fs.guide? l ≠ none) fs ⟨.root, dir⟩ m := by
    refine route_of_way h.place fun l hl => ⟨hway.1 l hl, ?_⟩
    rcases guide?_of_mem_walkWay _ _ (place_eq_ok_iff.1 h.place).2.2 hl with hguide | rfl
    · exact hguide
    · exact hm
  refine ⟨hroute _ rfl fun l hl => hsame l hl.1 hl.2, ?_, h.unmentioned.parts, h.unmentioned.workingDirectory,
    fun l link hlink => ?_⟩
  · rw [isDirectoryAt_iff, hsame m (hway.2 m h.place) hm]
    exact isDirectoryAt_iff.1 h.directory
  · by_cases hx : x <+: l
    · obtain ⟨rest, rfl⟩ := hx
      exact h.unmentioned.links _ link (hat rest ▸ hlink)
    by_cases hl : source <+: l
    · rw [hgone l hl hx] at hlink
      cases hlink
    · exact h.unmentioned.links l link (hothers l hl hx ▸ hlink)

/-! ## All entries -/

/-- What is to be merged: entries of a directory, which is reached through another one by names that no
path mentions, and a target that a path leads to wherever the entries are moved from or to. -/
structure Ready (t : String) (dir m : Location) (tail : List String) (target : Path) (d : Location)
    (names : List String) (fs : FileSystem) : Prop where
  mem : t ∈ tail
  isName : ∀ n ∈ tail ++ names, IsName n
  nodup : names.Nodup
  noLink : ∀ n ∈ names, fs.NoLinkOn m (tail ++ [n])
  directory : fs.isDirectoryAt d = true
  apart : ¬ m ++ tail <+: d
  route : Route (fun l => (∀ n ∈ names, ¬ d ++ [n] <+: l) ∧ t ∉ l) fs target d

/-- **One round** of the loop moves one entry more. -/
theorem Merged.round {t : String} (hready : Ready t dir m tail target d names fs₀)
    (h : Merged d (m ++ tail) done fs₀ fs) (haside : Aside t dir m fs) (hdone : ∀ k ∈ done, k ∈ names)
    (hn : n ∈ names) (hnew : n ∉ done)
    (hrun : (replaceWith ⟨.root, dir ++ tail ++ [n]⟩ (target / n)).runOn fs = (.ok (), fs')) :
    Merged d (m ++ tail) (done ++ [n]) fs₀ fs' ∧ Aside t dir m fs' := by
  have hname : IsName n := hready.isName n (List.mem_append_right _ hn)
  have hshorter : ∀ k, ¬ d ++ [k] <+: d := fun k h =>
    Nat.not_succ_le_self d.length (by simpa using h.length_le)
  have htail : ∀ k, ¬ m ++ tail ++ [k] <+: d := fun k h => hready.apart ((List.prefix_append _ [k]).trans h)
  -- what the target's path passes is as it was at the beginning
  have hkept : ∀ l, (∀ n ∈ names, ¬ d ++ [n] <+: l) ∧ t ∉ l → fs.node? l = fs₀.node? l :=
    fun l hl => h.others l fun k hk =>
      ⟨hl.1 k (hdone k hk), fun hle => hl.2 (hle.subset (by simp [hready.mem]))⟩
  have hd : fs.isDirectoryAt d = true := by
    rw [isDirectoryAt_iff, h.others d fun k _ => ⟨hshorter k, htail k⟩]
    exact isDirectoryAt_iff.1 hready.directory
  have hplace := hready.route fs h.workingDirectory hkept
  have hstill : ∀ fs', Cleared (d ++ [n]) fs fs' → fs'.place true target = .ok d := fun fs' hcleared =>
    hready.route fs' (hcleared.workingDirectory.trans h.workingDirectory) fun l hl =>
      (hcleared.others l (hl.1 n hn)).trans (hkept l hl)
  obtain ⟨fs₁, source, node, hcleared, hsource, hnode, rfl⟩ :=
    runOn_replaceWith h.sound hplace hd hname hname hstill hrun
  have hpath : (⟨.root, dir ++ tail ++ [n]⟩ : Path) = Path.below ⟨.root, dir⟩ (tail ++ [n]) := by
    simp [Path.below]
  rw [hpath] at hsource
  obtain ⟨haside₁, hbefore⟩ := haside.cleared (by simp) hcleared hsource hnode
  -- no link is on the way down to the entry
  have hlinks : fs.NoLinkOn m (tail ++ [n]) := by
    intro ys hne hle link
    have hle' : m ++ ys <+: m ++ tail ++ [n] := by
      rw [List.append_assoc]
      exact (List.prefix_append_right_inj m).2 hle
    rw [h.left hnew (.inl hle')]
    exact hready.noLink n hn ys hne hle link
  have hnames : ∀ k ∈ tail ++ [n], IsName k := by
    intro k hk
    rcases List.mem_append.1 hk with hk | hk
    · exact hready.isName k (List.mem_append_left _ hk)
    · exact List.mem_singleton.1 hk ▸ hname
  obtain rfl := eq_of_place_below haside.place haside.directory (by simp) hnames hlinks hbefore
  rw [← List.append_assoc] at hnode ⊢
  have ht : t ∈ m ++ tail ++ [n] := by simp [hready.mem]
  exact ⟨h.add hready.apart hd hname hnew hcleared hnode, haside₁.moved ht (by simp) hcleared.below⟩

theorem merged_of_forIn {t : String} (hready : Ready t dir m tail target d names fs₀) {rest : List String} :
    ∀ done fs, done ++ rest = names → Merged d (m ++ tail) done fs₀ fs → Aside t dir m fs →
      (forIn rest PUnit.unit fun (name : String) _ => do
        replaceWith ⟨.root, dir ++ tail ++ [name]⟩ (target / name)
        pure (ForInStep.yield PUnit.unit) : Task FileSystem PUnit).runOn fs = (.ok (), fs') →
      Merged d (m ++ tail) names fs₀ fs' ∧ Aside t dir m fs' := by
  induction rest with
  | nil =>
    intro done fs hsplit h haside hrun
    obtain ⟨-, rfl⟩ := Outcome.task.of_pure hrun
    rw [List.append_nil] at hsplit
    exact ⟨hsplit ▸ h, haside⟩
  | cons n rest ih =>
    intro done fs hsplit h haside hrun
    rw [List.forIn_cons] at hrun
    obtain ⟨step, fs₁, hround, hrest⟩ := Outcome.task.of_bind hrun
    obtain ⟨_, fs₂, hreplace, hyield⟩ := Outcome.task.of_bind hround
    obtain ⟨rfl, rfl⟩ := Outcome.task.of_pure hyield
    have hnew : n ∉ done := by
      have := hready.nodup
      rw [← hsplit, List.nodup_append] at this
      exact fun hn => this.2.2 n hn n (by simp) rfl
    obtain ⟨h', haside'⟩ :=
      h.round hready haside (fun k hk => by simp [← hsplit, hk]) (by simp [← hsplit]) hnew hreplace
    exact ih (done ++ [n]) _ (by simpa using hsplit) h' haside' hrest

end Fetch
end CrossBuild
