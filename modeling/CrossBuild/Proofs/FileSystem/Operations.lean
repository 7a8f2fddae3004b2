import CrossBuild.Proofs.FileSystem.Walk
import CrossBuild.Proofs.Task

/-!
# What operations do to files

Operations on ordinary files, by where their paths lead. Writing a file where no directory or link
is, and removing one, leaves all directories and links as they are, so afterwards every path leads
where it led before.
-/

namespace CrossBuild.FileSystem

open CrossBuild.Task

variable {fs fs' fs'' : FileSystem} {follow : Bool} {p q : Path} {l m : Location}

theorem lookup_eq_ok_iff {node : Node} :
    fs.lookup follow p = .ok (l, node) ↔ fs.place follow p = .ok l ∧ fs.node? l = some node := by
  unfold lookup
  rcases fs.place follow p with f | k
  · simp
  · dsimp only
    rcases hnode : fs.node? k with _ | found
    · constructor
      · intro h
        cases h
      · rintro ⟨h, hl⟩
        rw [← Except.ok.inj h, hnode] at hl
        cases hl
    · constructor
      · intro h
        obtain ⟨rfl, rfl⟩ := Prod.mk.inj (Except.ok.inj h)
        exact ⟨rfl, hnode⟩
      · rintro ⟨h, hl⟩
        rw [← Except.ok.inj h, hnode] at hl
        rw [Option.some.inj hl, Except.ok.inj h]

theorem lookup_of_none (hp : fs.place follow p = .ok l) (hl : fs.node? l = none) :
    fs.lookup follow p = .error (faultAt .noEntry p) := by
  unfold lookup
  rw [hp]
  dsimp only
  rw [hl]

theorem lookup_of_error {f : Failure} (hp : fs.place follow p = .error f) :
    fs.lookup follow p = .error f := by
  unfold lookup
  rw [hp]

theorem test_of_node {property : Node → Bool} {node : Node} (hp : fs.place follow p = .ok l)
    (hl : fs.node? l = some node) : fs.test follow property p = .ok (property node) := by
  unfold test
  rw [lookup_eq_ok_iff.2 ⟨hp, hl⟩]

theorem test_of_none {property : Node → Bool} (hp : fs.place follow p = .ok l)
    (hl : fs.node? l = none) : fs.test follow property p = .ok false := by
  unfold test
  rw [lookup_of_none hp hl]
  rfl

theorem test_of_absent {property : Node → Bool} {f : Failure} (hp : fs.place follow p = .error f)
    (hf : meansAbsent f = true) : fs.test follow property p = .ok false := by
  unfold test
  rw [lookup_of_error hp]
  dsimp only
  rw [if_pos hf]

/-- Where a test that says no leads: to nothing, or to something without the property. -/
theorem test_cases {property : Node → Bool} {b : Bool} (h : fs.test follow property p = .ok b) :
    (∃ l node, fs.place follow p = .ok l ∧ fs.node? l = some node ∧ property node = b) ∨
      (b = false ∧ ∃ l, fs.place follow p = .ok l ∧ fs.node? l = none) ∨
      (b = false ∧ ∃ f, fs.place follow p = .error f ∧ meansAbsent f = true) := by
  unfold test at h
  rcases hp : fs.place follow p with f | l
  · rw [lookup_of_error hp] at h
    dsimp only at h
    split at h
    · next hf => exact .inr (.inr ⟨(Except.ok.inj h).symm, f, rfl, hf⟩)
    · cases h
  · rcases hl : fs.node? l with _ | node
    · rw [lookup_of_none hp hl] at h
      exact .inr (.inl ⟨(Except.ok.inj h).symm, l, rfl, hl⟩)
    · rw [lookup_eq_ok_iff.2 ⟨hp, hl⟩] at h
      exact .inl ⟨l, node, rfl, hl, Except.ok.inj h⟩

theorem content_eq_ok_iff {b : Bytes} :
    fs.content p = .ok b ↔ ∃ l x, fs.place true p = .ok l ∧ fs.node? l = some (.file b x) := by
  unfold content
  constructor
  · intro h
    rcases hlookup : fs.lookup true p with f | ⟨l, node⟩ <;> rw [hlookup] at h
    · cases h
    · obtain ⟨hp, hl⟩ := lookup_eq_ok_iff.1 hlookup
      rcases node with ⟨c, x⟩ | _ | _
      · rw [← Except.ok.inj h]
        exact ⟨l, x, hp, hl⟩
      · cases h
      · cases h
  · rintro ⟨l, x, hp, hl⟩
    rw [lookup_eq_ok_iff.2 ⟨hp, hl⟩]

theorem isFile_eq_true_iff :
    fs.isFile p = .ok true ↔ ∃ l b x, fs.place true p = .ok l ∧ fs.node? l = some (.file b x) := by
  constructor
  · intro h
    obtain ⟨l, node, hplace, hnode, hfile⟩ := (test_cases h).resolve_right (by simp)
    cases node with
    | file b x => exact ⟨l, b, x, hplace, hnode⟩
    | directory | link => cases hfile
  · rintro ⟨l, b, x, hplace, hnode⟩
    exact test_of_node hplace hnode

/-- A file stands at a location. -/
def IsFileAt (fs : FileSystem) (l : Location) : Prop :=
  ∃ b x, fs.node? l = some (.file b x)

theorem not_isFileAt_of_node {node : Node} (h : fs.node? l = some node)
    (hnode : ∀ b x, node ≠ .file b x) : ¬ fs.IsFileAt l := by
  rintro ⟨b, x, hfile⟩
  exact hnode b x (Option.some.inj (h.symm.trans hfile))

/-! ## Files come and go -/

/-- Only files at some locations changed, came or went. -/
structure Refiled (places : Location → Prop) (fs fs' : FileSystem) : Prop where
  workingDirectory : fs'.workingDirectory = fs.workingDirectory
  guides : ∀ l, fs'.guide? l = fs.guide? l
  others : ∀ l, ¬ places l → fs'.node? l = fs.node? l

namespace Refiled

variable {places : Location → Prop}

theorem refl (fs : FileSystem) : Refiled places fs fs := ⟨rfl, fun _ => rfl, fun _ _ => rfl⟩

theorem trans (h : Refiled places fs fs') (h' : Refiled places fs' fs'') : Refiled places fs fs'' where
  workingDirectory := h'.workingDirectory.trans h.workingDirectory
  guides l := (h'.guides l).trans (h.guides l)
  others l hl := (h'.others l hl).trans (h.others l hl)

theorem mono {places' : Location → Prop} (h : Refiled places fs fs') (hsub : ∀ l, places l → places' l) :
    Refiled places' fs fs' where
  workingDirectory := h.workingDirectory
  guides := h.guides
  others l hl := h.others l fun hl' => hl (hsub l hl')

/-- Every path leads where it led before. -/
theorem place_congr (h : Refiled places fs fs') (follow : Bool) (p : Path) :
    (fs'.place follow p).mapError Failure.coarse = (fs.place follow p).mapError Failure.coarse :=
  FileSystem.place_congr h.workingDirectory fun l _ => h.guides l

theorem place (h : Refiled places fs fs') (hp : fs.place follow p = .ok l) :
    fs'.place follow p = .ok l :=
  place_of_congr (h.place_congr follow p) hp

end Refiled

/-- Whether an ordinary file stands at a location, or nothing. -/
def IsSpot (fs : FileSystem) (l : Location) : Prop :=
  fs.guide? l = none

theorem isSpot_of_file {b : Bytes} {x : Bool} (h : fs.node? l = some (.file b x)) :
    fs.IsSpot l := by
  unfold IsSpot guide?
  rw [h]
  rfl

theorem isSpot_of_none (h : fs.node? l = none) : fs.IsSpot l := by
  unfold IsSpot guide?
  rw [h]
  rfl

theorem IsSpot.ne_nil (h : fs.IsSpot l) : l ≠ [] := by
  rintro rfl
  cases h

theorem IsSpot.cases (h : fs.IsSpot l) :
    fs.node? l = none ∨ ∃ b x, fs.node? l = some (.file b x) := by
  rcases hl : fs.node? l with _ | node
  · exact .inl rfl
  · obtain ⟨b, x, rfl⟩ := guide?_eq_none_iff.1 h node hl
    exact .inr ⟨b, x, rfl⟩

theorem refiled_put (h : fs.IsSpot l) (b : Bytes) (x : Bool) :
    Refiled (· = l) fs (fs.put l (.file b x)) := by
  have hput := node?_put fs h.ne_nil (.file b x)
  refine ⟨rfl, fun m => ?_, fun m hm => ?_⟩
  · by_cases hm : l = m
    · subst hm
      unfold guide?
      rw [hput l, if_pos rfl]
      exact h.symm
    · exact guide?_of_node?_eq ((hput m).trans (if_neg hm))
  · rw [hput m, if_neg fun he => hm he.symm]

theorem refiled_remove (h : fs.IsSpot l) : Refiled (· = l) fs (fs.remove l) := by
  refine ⟨rfl, fun m => ?_, fun m hm => node?_remove_of_ne hm⟩
  by_cases hm : m = l
  · subst hm
    unfold guide?
    rw [node?_remove fs m h.ne_nil, if_pos rfl]
    exact h.symm
  · exact guide?_of_node?_eq (node?_remove_of_ne hm)

theorem runOn_change (f : FileSystem → Except Failure FileSystem) (fs : FileSystem) :
    (change f).runOn fs =
      match f fs with
      | .ok fs' => (.ok (), fs')
      | .error e => (.error e, fs) := rfl

/-- Writing where a file is, or nothing. -/
theorem runOn_write (hp : fs.place true p = .ok l) (hl : fs.IsSpot l) (b : Bytes) :
    ∃ x, (write p b).runOn fs = (.ok (), fs.put l (.file b x)) := by
  rcases hl.cases with hnode | ⟨c, x, hnode⟩
  · refine ⟨false, ?_⟩
    unfold write
    rw [runOn_change, hp]
    dsimp only
    rw [hnode]
  · refine ⟨x, ?_⟩
    unfold write
    rw [runOn_change, hp]
    dsimp only
    rw [hnode]

theorem runOn_unlink {b : Bytes} {x : Bool} (hp : fs.place false p = .ok l)
    (hl : fs.node? l = some (.file b x)) : (unlink p).runOn fs = (.ok (), fs.remove l) := by
  unfold unlink
  rw [runOn_change, lookup_eq_ok_iff.2 ⟨hp, hl⟩]

/-- A path that can be handed to the system fails with a fault of the system. -/
theorem place_error_file (hnul : hasNul p = false) {f : Failure} (h : fs.place follow p = .error f) :
    ∃ e, f = .file e := by
  unfold place at h
  rw [if_neg (by simp [hnul])] at h
  rcases hl : fs.locate follow p with e | l <;> rw [hl] at h
  · exact ⟨_, (Except.error.inj h).symm⟩
  · cases h

theorem unlink_error_file (hnul : hasNul p = false) {f : Failure}
    (h : ((unlink p).runOn fs).1 = .error f) : ∃ e, f = .file e := by
  unfold unlink at h
  rw [runOn_change] at h
  rcases hlookup : fs.lookup false p with f' | ⟨l, node⟩ <;> rw [hlookup] at h
  · rw [← Except.error.inj h]
    unfold lookup at hlookup
    rcases hp : fs.place false p with f'' | l <;> rw [hp] at hlookup
    · obtain ⟨e, rfl⟩ := place_error_file hnul hp
      exact ⟨e, (Except.error.inj hlookup).symm⟩
    · dsimp only at hlookup
      split at hlookup
      · cases hlookup
      · exact ⟨_, (Except.error.inj hlookup).symm⟩
  · cases node with
    | file b x => cases h
    | directory => exact ⟨_, (Except.error.inj h).symm⟩
    | link target => cases h

theorem unlinkIfPresent_error_file (hnul : hasNul p = false) {f : Failure}
    (h : ((unlinkIfPresent p).runOn fs).1 = .error f) : ∃ e, f = .file e := by
  unfold unlinkIfPresent at h
  rw [runOn_bind, runOn_attempt] at h
  rcases hu : ((unlink p).runOn fs).1 with f' | u <;> rw [hu] at h
  · dsimp only at h
    split at h
    · cases h
    · rw [← Except.error.inj h]
      exact unlink_error_file hnul hu
  · cases h

theorem isSame_of_ne (hp : fs.place true p = .ok l) (hq : fs.place true q = .ok m) (hne : l ≠ m) :
    fs.isSame p q = .ok false := by
  unfold isSame
  rcases hl : fs.node? l with _ | node
  · rcases hm : fs.node? m with _ | node'
    · rw [lookup_of_none hp hl, lookup_of_none hq hm]
      rfl
    · rw [lookup_of_none hp hl, lookup_eq_ok_iff.2 ⟨hq, hm⟩]
      rfl
  · rcases hm : fs.node? m with _ | node'
    · rw [lookup_eq_ok_iff.2 ⟨hp, hl⟩, lookup_of_none hq hm]
      rfl
    · rw [lookup_eq_ok_iff.2 ⟨hp, hl⟩, lookup_eq_ok_iff.2 ⟨hq, hm⟩]
      simpa using hne

/-- Copying a file to another location where a file is, or nothing. -/
theorem runOn_copyFile {b : Bytes} {x : Bool} (hp : fs.place true p = .ok l)
    (hl : fs.node? l = some (.file b x)) (hq : fs.place true q = .ok m) (hm : fs.IsSpot m)
    (hne : l ≠ m) : ∃ x, (copyFile p q).runOn fs = (.ok (), fs.put m (.file b x)) := by
  obtain ⟨x', hwrite⟩ := runOn_write hq hm b
  refine ⟨x', ?_⟩
  unfold copyFile
  rw [runOn_bind, runOn_ask, isSame_of_ne hp hq hne]
  dsimp only
  rw [if_neg (by simp), runOn_bind, runOn_ask, content_eq_ok_iff.2 ⟨l, x, hp, hl⟩]
  exact hwrite

end CrossBuild.FileSystem
