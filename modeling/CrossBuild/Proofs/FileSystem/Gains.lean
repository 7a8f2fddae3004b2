import CrossBuild.Proofs.FileSystem.Below
import CrossBuild.Proofs.FileSystem.Siblings

/-!
# File systems that grow

Where nothing is removed or changed, a path to something leads there still. To create a directory with
the parents that it lacks is such a change: all that is new are directories on the way to it.
-/

namespace CrossBuild.FileSystem

open CrossBuild.Task

variable {fs fs' fs'' : FileSystem} {follow : Bool} {p : Path} {l d m : Location} {n : String}

/-- Everything stays as it is. -/
structure Gains (fs fs' : FileSystem) : Prop where
  workingDirectory : fs'.workingDirectory = fs.workingDirectory
  kept : ∀ l node, fs.node? l = some node → fs'.node? l = some node

namespace Gains

theorem refl (fs : FileSystem) : Gains fs fs := ⟨rfl, fun _ _ h => h⟩

theorem trans (h : Gains fs fs') (h' : Gains fs' fs'') : Gains fs fs'' where
  workingDirectory := h'.workingDirectory.trans h.workingDirectory
  kept l node hnode := h'.kept l node (h.kept l node hnode)

theorem put (hl : l ≠ []) (hnone : fs.node? l = none) (node : Node) : Gains fs (fs.put l node) where
  workingDirectory := rfl
  kept m found hfound := by
    rw [node?_put fs hl, if_neg, hfound]
    rintro rfl
    rw [hnone] at hfound
    cases hfound

theorem removeBelow (fs : FileSystem) (l : Location) : Gains (fs.removeBelow l) fs where
  workingDirectory := rfl
  kept _ _ hnode := node?_of_removeBelow hnode

theorem isDirectoryAt (h : Gains fs fs') (hl : fs.isDirectoryAt l = true) :
    fs'.isDirectoryAt l = true :=
  isDirectoryAt_iff.2 (h.kept l _ (isDirectoryAt_iff.1 hl))

theorem node?_eq_none (h : Gains fs fs') (hl : fs'.node? l = none) : fs.node? l = none := by
  by_contra hsome
  obtain ⟨node, hnode⟩ := Option.ne_none_iff_exists'.1 hsome
  rw [h.kept l node hnode] at hl
  cases hl

/-- An advance goes where it went, unless it ends where nothing was and a link is. -/
theorem advance (h : Gains fs fs') (follow : Bool) {parts : List String} :
    ∀ here, (∀ l, fs.advance follow here parts = .arrived l →
        (fs.node? l = none → ∀ target, fs'.node? l ≠ some (.link target)) →
          fs'.advance follow here parts = .arrived l) ∧
      ∀ m target rest, fs.advance follow here parts = .link m target rest →
        fs'.advance follow here parts = .link m target rest := by
  induction parts with
  | nil => exact fun here => ⟨fun _ h _ => h, fun _ _ _ h => h⟩
  | cons part rest ih =>
    intro here
    by_cases hd : fs.isDirectoryAt here = true
    swap
    · rw [FileSystem.advance, if_pos (by simp [hd])]
      exact ⟨fun _ h => (by cases h), fun _ _ _ h => by cases h⟩
    have hd' := h.isDirectoryAt hd
    by_cases hdot : part = "."
    · simpa [FileSystem.advance, hd, hd', hdot] using ih here
    by_cases hdots : part = ".."
    · simpa [FileSystem.advance, hd, hd', hdots] using ih here.dropLast
    by_cases hlong : part.utf8ByteSize > maxNameBytes
    · simp [FileSystem.advance, hd, hdot, hdots, hlong]
    simp only [FileSystem.advance, hd, hd', hdot, hdots, hlong, Bool.not_true, Bool.false_eq_true,
      if_false]
    rcases hnode : fs.node? (here ++ [part]) with _ | node
    · -- something new can be at the end
      cases rest with
      | cons _ _ => exact ⟨fun _ h => (by cases h), fun _ _ _ h => by cases h⟩
      | nil =>
        refine ⟨fun l hl hend => ?_, fun _ _ _ h => by cases h⟩
        obtain rfl := Progress.arrived.inj hl
        rcases hnode' : fs'.node? (here ++ [part]) with _ | _ | _ | target
        · rfl
        · rfl
        · rfl
        · exact absurd hnode' (hend hnode target)
    · rw [h.kept _ _ hnode]
      cases node with
      | file _ _ => exact ih _
      | directory => exact ih _
      | link target => exact ⟨fun _ h _ => h, fun _ _ _ h => h⟩

/-- **A path leads where it led**, unless a link came up where nothing was. -/
theorem place (h : Gains fs fs') (hp : fs.place follow p = .ok l)
    (hend : fs.node? l = none → ∀ target, fs'.node? l ≠ some (.link target)) :
    fs'.place follow p = .ok l := by
  obtain ⟨hnul, hlimit, hwalk⟩ := place_eq_ok_iff.1 hp
  have horigin : fs'.origin p = fs.origin p := by
    unfold origin
    rw [h.workingDirectory]
  refine place_eq_ok_iff.2 ⟨hnul, hlimit, horigin ▸ ?_⟩
  revert hwalk
  refine walk_induction (P := fun links here parts => fs'.walk follow links here parts = .ok l)
    (fun links here parts ha => ?_) (fun links here parts m target rest ha ih => ?_) _ _
  · rw [walk, (h.advance follow here).1 l ha hend]
  · rw [walk, (h.advance follow here).2 m target rest ha]
    exact ih

theorem place_of_node (h : Gains fs fs') (hp : fs.place follow p = .ok l) {node : Node}
    (hl : fs.node? l = some node) : fs'.place follow p = .ok l :=
  h.place hp fun hnone => by rw [hl] at hnone; cases hnone

theorem content (h : Gains fs fs') {b : Bytes} (hp : fs.content p = .ok b) :
    fs'.content p = .ok b := by
  obtain ⟨l, x, hl, hnode⟩ := content_eq_ok_iff.1 hp
  exact content_eq_ok_iff.2 ⟨l, x, h.place_of_node hl hnode, h.kept _ _ hnode⟩

end Gains

/-! ## Creating directories -/

/-- A path leads to a directory after a change that made it, if it was not there, and directories on
the way to it. -/
structure MakesWay (p : Path) (fs fs' : FileSystem) (d : Location) : Prop where
  sound : fs'.Sound
  gains : Gains fs fs'
  place : fs'.place true p = .ok d
  directory : fs'.isDirectoryAt d = true
  fresh : fs' = fs ∨ fs.node? d = none
  others : ∀ l, fs'.node? l = fs.node? l ∨ (l <+: d ∧ fs'.node? l = some .directory)

/-- A directory is made where nothing was. -/
theorem MakesWay.of_put (hs : fs.Sound) (hentry : fs.IsEntry l) (hp : fs.place false p = .ok l)
    (hnone : fs.node? l = none) : MakesWay p fs (fs.put l .directory) l := by
  have hl : l ≠ [] := by
    rintro rfl
    cases hnone
  have hnode : (fs.put l .directory).node? l = some .directory := by
    rw [node?_put fs hl, if_pos rfl]
  have hgains : Gains fs (fs.put l .directory) := .put hl hnone _
  have hplace : (fs.put l .directory).place false p = .ok l :=
    hgains.place hp fun _ target ht => by rw [hnode] at ht; cases ht
  refine ⟨hs.put hentry (.inl rfl) (by simp), hgains, ?_, isDirectoryAt_iff.2 hnode, .inr hnone,
    fun m => ?_⟩
  · exact place_true_of_false hplace fun target ht => by rw [hnode] at ht; cases ht
  · rw [node?_put fs hl]
    split
    · next heq => exact .inr ⟨heq ▸ List.prefix_refl l, rfl⟩
    · exact .inl rfl

theorem MakesWay.of_isDirectory (hs : fs.Sound) (h : fs.isDirectory p = .ok true) :
    ∃ d, MakesWay p fs fs d := by
  rcases test_cases h with ⟨d, node, hplace, hnode, hdir⟩ | ⟨hfalse, -⟩ | ⟨hfalse, -⟩
  · cases node with
    | directory =>
      exact ⟨d, hs, .refl fs, hplace, isDirectoryAt_iff.2 hnode, .inl rfl, fun _ => .inl rfl⟩
    | file _ _ => cases hdir
    | link _ => cases hdir
  · cases hfalse
  · cases hfalse

/-- To make a directory makes and removes no link. -/
theorem MakesWay.link_iff (h : MakesWay p fs fs' d) (l : Location) (target : String) :
    fs.node? l = some (.link target) ↔ fs'.node? l = some (.link target) := by
  constructor
  · exact h.gains.kept l _
  · intro hlink
    rcases h.others l with hsame | ⟨-, hdir⟩
    · exact hsame ▸ hlink
    · rw [hdir] at hlink
      cases hlink

/-- A directory is made in one that may have been made before. -/
theorem MakesWay.child (h : MakesWay p fs fs' d) (hn : IsName n)
    (hp : fs'.place false (p.below [n]) = .ok m) (hnone : fs'.node? m = none) :
    MakesWay (p.below [n]) fs (fs'.put m .directory) m := by
  obtain rfl : m = d ++ [n] := by
    rcases place_child h.directory h.place hn (fun _ _ => rfl) with hplace | herror
    · exact Except.ok.inj (hp.symm.trans hplace)
    · rw [hp] at herror
      cases herror
  have hlast := MakesWay.of_put h.sound ⟨d, n, rfl, hn, h.directory⟩ hp hnone
  refine ⟨hlast.sound, h.gains.trans hlast.gains, hlast.place, hlast.directory,
    .inr (h.gains.node?_eq_none hnone), fun l => ?_⟩
  rcases hlast.others l with hsame | hnew
  · rw [hsame]
    exact (h.others l).imp_right fun ⟨hd, hnode⟩ => ⟨hd.trans (List.prefix_append d [n]), hnode⟩
  · exact .inr hnew

/-- In a directory that was made there is nothing. -/
theorem MakesWay.empty (hs : fs.Sound) (h : MakesWay p fs fs' d) (hnone : fs.node? d = none)
    {xs : List String} (hxs : xs ≠ []) : fs'.node? (d ++ xs) = none := by
  rcases h.others (d ++ xs) with hsame | ⟨habove, -⟩
  · rw [hsame]
    exact hs.node?_below hnone (List.prefix_append d xs)
  · have hlength := habove.length_le
    have := List.length_pos_iff.2 hxs
    rw [List.length_append] at hlength
    omega

/-- A directory that is in another one was there before, or neither was made. -/
theorem MakesWay.child_of_isDirectory (hs : fs.Sound) (h : MakesWay p fs fs' d) (hn : IsName n)
    (hdir : fs'.isDirectory (p.below [n]) = .ok true) : ∃ m, MakesWay (p.below [n]) fs fs' m := by
  obtain ⟨m, hm⟩ := MakesWay.of_isDirectory h.sound hdir
  rcases h.fresh with heq | hnone
  · exact ⟨m, heq ▸ hm⟩
  · have hchild : fs'.node? (d ++ [n]) = none := h.empty hs hnone (List.cons_ne_nil n [])
    rcases isDirectory_child h.directory h.place hn (by simp [hchild]) hdir with ⟨-, hdirectory⟩
    rw [isDirectoryAt_iff, hchild] at hdirectory
    cases hdirectory

/-! ### Runs -/

theorem runOn_makeDirectory_cases {r : Except Failure Unit}
    (h : (makeDirectory p).runOn fs = (r, fs')) :
    (r = .ok () ∧ ∃ l, fs.place false p = .ok l ∧ fs.node? l = none ∧ fs' = fs.put l .directory) ∨
      (fs' = fs ∧ ∃ f, r = .error f ∧ (isNoEntry f = true → fs.place false p = .error f)) := by
  unfold makeDirectory at h
  rw [runOn_change] at h
  rcases hp : fs.place false p with f | l <;> rw [hp] at h
  · obtain ⟨rfl, rfl⟩ := Prod.mk.inj h
    exact .inr ⟨rfl, f, rfl, fun _ => rfl⟩
  dsimp only at h
  rcases hnode : fs.node? l with _ | node <;> rw [hnode] at h
  · obtain ⟨rfl, rfl⟩ := Prod.mk.inj h
    exact .inl ⟨rfl, l, rfl, hnode, rfl⟩
  · obtain ⟨rfl, rfl⟩ := Prod.mk.inj h
    exact .inr ⟨rfl, _, rfl, fun hno => by cases hno⟩

theorem runOn_unlessDirectory_ok {f : Failure}
    (h : (unlessDirectory p f).runOn fs = (.ok (), fs')) : fs.isDirectory p = .ok true ∧ fs' = fs := by
  unfold unlessDirectory at h
  rw [runOn_bind, runOn_ask] at h
  rcases hdir : fs.isDirectory p with f' | b <;> rw [hdir] at h
  · cases h
  cases b with
  | true => exact ⟨rfl, (Prod.mk.inj h).2.symm⟩
  | false => cases h

theorem runOn_ensureDirectory_cases (h : (ensureDirectory p).runOn fs = (.ok (), fs')) :
    (∃ l, fs.place false p = .ok l ∧ fs.node? l = none ∧ fs' = fs.put l .directory) ∨
      (fs' = fs ∧ fs.isDirectory p = .ok true) := by
  unfold ensureDirectory at h
  rw [runOn_bind, runOn_attempt] at h
  rcases hmake : (makeDirectory p).runOn fs with ⟨r, fs₁⟩
  rw [hmake] at h
  rcases runOn_makeDirectory_cases hmake with ⟨rfl, hput⟩ | ⟨rfl, f, rfl, -⟩
  · exact .inl ((Prod.mk.inj h).2 ▸ hput)
  · dsimp only at h
    split at h
    · obtain ⟨hdir, rfl⟩ := runOn_unlessDirectory_ok h
      exact .inr ⟨rfl, hdir⟩
    · cases h

theorem hasNul_of_noEntry {f : Failure} (h : fs.place follow p = .error f)
    (hf : isNoEntry f = true) : hasNul p = false := by
  refine Bool.eq_false_iff.2 fun hnul => ?_
  unfold FileSystem.place at h
  rw [if_pos hnul] at h
  rw [← Except.error.inj h] at hf
  cases hf

/-- Where a path has no parent directory there is a directory to start at. -/
theorem isDirectoryAt_origin_of_noEntry {f : Failure} (h : fs.place follow p = .error f)
    (hf : isNoEntry f = true) (hne : p.parts ≠ []) : fs.isDirectoryAt (fs.origin p) = true := by
  by_contra hd
  obtain ⟨part, rest, hparts⟩ := List.exists_cons_of_ne_nil hne
  unfold FileSystem.place locate at h
  split at h
  · rw [← Except.error.inj h] at hf
    cases hf
  split at h
  · cases h
  · next e he =>
    split at he
    · rw [← Except.error.inj h, ← Except.error.inj he] at hf
      cases hf
    · rw [hparts, walk, FileSystem.advance, if_pos (by simp [hd])] at he
      rw [← Except.error.inj h, ← Except.error.inj he] at hf
      cases hf

/-- Where a path starts there is a directory already. -/
theorem makesWay_of_start (hs : fs.Sound) (horigin : fs.isDirectoryAt (fs.origin p) = true)
    (hp : p.parts = []) (h : (makeDirectories p).runOn fs = (.ok (), fs')) :
    ∃ d, MakesWay p fs fs' d := by
  rw [makeDirectories, runOn_bind, runOn_attempt] at h
  rcases hmake : (makeDirectory p).runOn fs with ⟨r, fs₁⟩
  rw [hmake] at h
  rcases runOn_makeDirectory_cases hmake with ⟨rfl, l, hplace, hnone, -⟩ | ⟨rfl, f, rfl, -⟩
  · obtain ⟨-, -, hwalk⟩ := place_eq_ok_iff.1 hplace
    rw [hp] at hwalk
    rw [← Except.ok.inj hwalk, isDirectoryAt_iff.1 horigin] at hnone
    cases hnone
  · dsimp only at h
    rw [dif_pos hp] at h
    split at h
    · cases h
    split at h
    · obtain ⟨hdir, rfl⟩ := runOn_unlessDirectory_ok h
      exact MakesWay.of_isDirectory hs hdir
    · cases h

/-- **To create a directory** with the parents that it lacks makes way for its path. -/
theorem makesWay_of_makeDirectories (hs : fs.Sound)
    (horigin : p.parts = [] → fs.isDirectoryAt (fs.origin p) = true)
    (hparts : ∀ part ∈ p.parts, IsPart part ∧ part ≠ "..")
    (h : (makeDirectories p).runOn fs = (.ok (), fs')) : ∃ d, MakesWay p fs fs' d := by
  obtain ⟨anchor, parts⟩ := p
  induction parts using List.reverseRecOn generalizing fs' with
  | nil => exact makesWay_of_start hs (horigin rfl) rfl h
  | append_singleton init n ih =>
    have hname : hasNul ⟨anchor, init ++ [n]⟩ = false → IsName n := fun hnul =>
      Path.isName_of_mem_parts hnul (by simp) (hparts n (by simp))
    rw [makeDirectories, runOn_bind, runOn_attempt] at h
    rcases hmake : (makeDirectory ⟨anchor, init ++ [n]⟩).runOn fs with ⟨r, fs₁⟩
    rw [hmake] at h
    rcases runOn_makeDirectory_cases hmake with ⟨rfl, l, hp, hnone, rfl⟩ | ⟨rfl, f, rfl, hnoEntry⟩
    · obtain ⟨-, rfl⟩ := Prod.mk.inj h
      have hentry := hs.isEntry_of_place_last (hname (hasNul_of_place hp)) hp hnone
      exact ⟨l, .of_put hs hentry hp hnone⟩
    dsimp only at h
    split at h
    · -- the parent is created first
      next hno =>
      have hplace := hnoEntry hno
      have hn := hname (hasNul_of_noEntry hplace hno)
      have hstart := isDirectoryAt_origin_of_noEntry hplace hno (by simp)
      have hparent : Path.parent ⟨anchor, init ++ [n]⟩ = ⟨anchor, init⟩ := by
        simp [Path.parent]
      rw [dif_neg (by simp), runOn_bind, hparent] at h
      rcases hinit : (makeDirectories ⟨anchor, init⟩).runOn fs₁ with ⟨_ | _, fs₂⟩ <;> rw [hinit] at h
      · cases h
      obtain ⟨d, hd⟩ := ih (fun _ => hstart) (fun part hp => hparts part (by simp [hp])) hinit
      rcases runOn_ensureDirectory_cases h with ⟨l, hp, hnone, rfl⟩ | ⟨rfl, hdir⟩
      · exact ⟨l, hd.child hn hp hnone⟩
      · exact hd.child_of_isDirectory hs hn hdir
    split at h
    · obtain ⟨hdir, rfl⟩ := runOn_unlessDirectory_ok h
      exact MakesWay.of_isDirectory hs hdir
    · cases h

end CrossBuild.FileSystem
