import CrossBuild.Proofs.FileSystem.Gains
import CrossBuild.Proofs.FileSystem.Listing
import CrossBuild.Proofs.FileSystem.Trail

/-!
# A directory emptied and made again

What is at a path is removed, and a directory is created at the path with the parents that it lacks.
The path can lead to another directory then, if it passed through what was removed: but only to one
where that was.
-/

namespace CrossBuild.FileSystem

open CrossBuild.Task

variable {fs fs' : FileSystem} {follow : Bool} {p : Path} {l m d : Location}

theorem removeBelow_of_none (hs : fs.Sound) (hne : l ≠ []) (hnone : fs.node? l = none) :
    fs.removeBelow l = fs := by
  have hkeep : fs.nodes.filter (fun entry => !l.isPrefixOf entry.1) = fs.nodes := by
    refine List.filter_eq_self.2 fun entry hentry => ?_
    rw [Bool.not_eq_true', Bool.eq_false_iff, Ne, List.isPrefixOf_iff_prefix]
    intro hle
    obtain ⟨node, hnode⟩ := exists_valueOf?_of_mem hentry
    have hbelow := hs.node?_below hnone hle
    unfold node? at hbelow
    rw [if_neg (hle.ne_nil hne), hnode] at hbelow
    cases hbelow
  unfold removeBelow
  rw [hkeep]

theorem node?_removeBelow_eq_file_iff {b : Bytes} {x : Bool} :
    (fs.removeBelow l).node? m = some (.file b x) ↔ fs.node? m = some (.file b x) ∧ ¬ l <+: m := by
  by_cases hm : m = []
  · subst hm
    simp [node?_nil]
  · rw [node?_removeBelow fs l hm]
    split <;> simp [*]

theorem isFileAt_removeBelow_iff :
    (fs.removeBelow l).IsFileAt m ↔ fs.IsFileAt m ∧ ¬ l <+: m := by
  simp [IsFileAt, node?_removeBelow_eq_file_iff]

theorem runOn_removeTree_ok (h : (removeTree p).runOn fs = (.ok (), fs')) :
    ∃ l, fs.place false p = .ok l ∧ fs.node? l = some .directory ∧ removalFault? p = none ∧
      fs' = fs.removeBelow l := by
  change removeTree p fs = _ at h
  unfold removeTree at h
  rcases hlookup : fs.lookup false p with f | ⟨l, node⟩ <;> rw [hlookup] at h
  · cases h
  obtain ⟨hplace, hnode⟩ := lookup_eq_ok_iff.1 hlookup
  cases node with
  | file b x => cases h
  | directory =>
    dsimp only at h
    split at h
    · next hfault => exact ⟨l, hplace, hnode, hfault, (Prod.mk.inj h).2.symm⟩
    · cases h
  | link target =>
    dsimp only at h
    split at h <;> cases h

/-- A removal that fails has changed nothing, if the path ends in the directory's name. -/
theorem runOn_removeTree_error {f : Failure} (hfault : removalFault? p = none)
    (h : (removeTree p).runOn fs = (.error f, fs')) : fs' = fs := by
  change removeTree p fs = _ at h
  unfold removeTree at h
  rcases hlookup : fs.lookup false p with f | ⟨l, node⟩ <;> rw [hlookup] at h
  · exact (Prod.mk.inj h).2.symm
  cases node with
  | file b x => exact (Prod.mk.inj h).2.symm
  | directory =>
    dsimp only at h
    rw [hfault] at h
    cases h
  | link target =>
    dsimp only at h
    split at h <;> exact (Prod.mk.inj h).2.symm

/-- A path that ends in a name does not lead to the root. -/
theorem ne_nil_of_place {init : List String} {n : String} {anchor : Path.Anchor} (hdot : n ≠ ".")
    (hdots : n ≠ "..") (hp : fs.place false ⟨anchor, init ++ [n]⟩ = .ok l) : l ≠ [] := by
  obtain ⟨-, -, hwalk⟩ := place_eq_ok_iff.1 hp
  rcases walk_concat maxLinks (fs.origin ⟨anchor, init ++ [n]⟩) init with ⟨links, m, hm, hlast⟩ | ⟨e, he⟩
  · rw [hlast] at hwalk
    rcases walk_last hm hdot hdots links with hlong | ⟨hend, -⟩
    · rw [hlong] at hwalk
      cases hwalk
    · rw [hend] at hwalk
      rw [← Except.ok.inj hwalk]
      simp
  · rw [he] at hwalk
    cases hwalk

/-! ## Where the path leads -/

/-- A directory that is made where another one was removed is made below that one: the trail of a path
that stays outside was the same before. -/
theorem MakesWay.below_removed (hp : fs.place true p = .ok l) (hl : fs.node? l = some .directory)
    (hne : l ≠ []) (h : MakesWay p (fs.removeBelow l) fs' d) : l <+: d := by
  by_contra hout
  have hempty : ∀ m, l <+: m → fs'.node? m = none := by
    intro m hm
    rcases h.others m with hsame | ⟨habove, -⟩
    · rw [hsame, node?_removeBelow_below hm hne]
    · exact absurd (hm.trans habove) hout
  have hsame : SameLinks fs' fs := by
    intro m hm target
    have houtside : ¬ l <+: m := fun hbelow => hm (isSpot_of_none (hempty m hbelow))
    rw [← node?_removeBelow_outside houtside]
    exact h.link_iff m target
  have hcwd : fs.workingDirectory = fs'.workingDirectory := h.gains.workingDirectory.symm
  obtain ⟨i, htrail⟩ := exists_trail_of_place hcwd hsame (hsame.noLink h.directory) h.place
  obtain ⟨j, htrail'⟩ := exists_trail_of_place rfl (.refl fs) (by simp [hl]) hp
  exact hout ((htrail'.unique htrail).2 ▸ List.prefix_refl l)

/-- A path led to a directory, or to nothing, and leads to a new directory where that was. -/
structure Renewed (p : Path) (fs fs' : FileSystem) (l d : Location) : Prop where
  ne_nil : l ≠ []
  place : ∀ m, fs.place true p = .ok m → m = l
  below : l <+: d
  makesWay : MakesWay p (fs.removeBelow l) fs' d

namespace Renewed

/-- Where the new directory is made there was nothing after the removal. -/
theorem node?_eq_none (h : Renewed p fs fs' l d) : (fs.removeBelow l).node? d = none :=
  node?_removeBelow_below h.below h.ne_nil

theorem empty (h : Renewed p fs fs' l d) (hs : fs.Sound) {way : List String} (hway : way ≠ []) :
    fs'.node? (d ++ way) = none :=
  h.makesWay.empty hs.removeBelow h.node?_eq_none hway

/-- After the removal the path is resolved to where the new directory is going to be. -/
theorem resolve (h : Renewed p fs fs' l d) : (fs.removeBelow l).resolve p = .ok (pathOf d) :=
  resolve_of_place h.makesWay.gains.workingDirectory.symm (fun m _ => h.makesWay.link_iff m) h.makesWay.sound
    h.makesWay.place h.makesWay.directory

/-- No file is made, and none is removed but from where the path led. -/
theorem file_iff (h : Renewed p fs fs' l d) {b : Bytes} {x : Bool} :
    fs'.node? m = some (.file b x) ↔ fs.node? m = some (.file b x) ∧ ¬ l <+: m := by
  rw [← node?_removeBelow_eq_file_iff]
  constructor
  · intro hfile
    rcases h.makesWay.others m with hsame | ⟨-, hdir⟩
    · exact hsame ▸ hfile
    · rw [hdir] at hfile
      cases hfile
  · exact h.makesWay.gains.kept m _

end Renewed

/-- **Removing** what is at a path, if it is there, and creating a directory at the path. -/
theorem renewed_of_makeDirectories {cleared : FileSystem} {isPresent : Bool} (hs : fs.Sound)
    (hcwd : fs.isDirectoryAt fs.workingDirectory = true)
    (hparts : ∀ part ∈ p.parts, IsPart part ∧ part ≠ "..") (hpresent : fs.isPresent p = .ok isPresent)
    (hclear : if isPresent then (removeTree p).runOn fs = (.ok (), cleared) else cleared = fs)
    (hmake : (makeDirectories p).runOn cleared = (.ok (), fs')) :
    ∃ l d, cleared = fs.removeBelow l ∧ Renewed p fs fs' l d := by
  cases isPresent with
  | true =>
    obtain ⟨l, hplace, hnode, hfault, rfl⟩ := runOn_removeTree_ok hclear
    have hfollowed : fs.place true p = .ok l :=
      place_true_of_false hplace fun target ht => by rw [hnode] at ht; cases ht
    have hparts_ne : p.parts ≠ [] := by
      intro hnil
      unfold removalFault? at hfault
      rw [hnil] at hfault
      cases hfault
    have hne : l ≠ [] := by
      obtain ⟨anchor, parts⟩ := p
      obtain ⟨init, n, rfl⟩ := (List.eq_nil_or_concat' parts).resolve_left hparts_ne
      have hn := hparts n (by simp)
      exact ne_nil_of_place hn.1.2.2 hn.2 hplace
    obtain ⟨d, hd⟩ := makesWay_of_makeDirectories hs.removeBelow (fun hnil => absurd hnil hparts_ne)
      hparts hmake
    refine ⟨l, d, rfl, hne, fun m hm => ?_, hd.below_removed hfollowed hnode hne, hd⟩
    exact Except.ok.inj (hm.symm.trans hfollowed)
  | false =>
    obtain rfl : cleared = fs := hclear
    have horigin : p.parts = [] → cleared.isDirectoryAt (cleared.origin p) = true := by
      intro _
      unfold origin
      split
      · rfl
      · exact hcwd
    obtain ⟨d, hd⟩ := makesWay_of_makeDirectories hs horigin hparts hmake
    have hnone : cleared.node? d = none := by
      rcases hd.fresh with rfl | hnone
      · have hthere : isPresent _ p = .ok true :=
          test_of_node hd.place (isDirectoryAt_iff.1 hd.directory)
        cases hthere.symm.trans hpresent
      · exact hnone
    have hne : d ≠ [] := by
      rintro rfl
      cases hnone
    refine ⟨d, d, (removeBelow_of_none hs hne hnone).symm, hne, fun m hm => ?_, List.prefix_refl d, ?_⟩
    · have hmade := hd.gains.place hm fun hgone target hlink => by
        rw [(hd.link_iff m target).2 hlink] at hgone
        cases hgone
      exact Except.ok.inj (hmade.symm.trans hd.place)
    · rwa [removeBelow_of_none hs hne hnone]

end CrossBuild.FileSystem
