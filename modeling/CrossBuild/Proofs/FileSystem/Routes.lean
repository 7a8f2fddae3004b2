import CrossBuild.Proofs.FileSystem.Emptied

/-!
# Routes

A path leads to a location as long as what it passes stays (`Route`). What it passes has no names but
those in the path itself, in links and in the working directory (`Unmentioned`), so what happens under a
name that none of them has does not matter to it. A path that leads anywhere leads through directories,
and below a directory it goes straight down if no link is there.
-/

namespace CrossBuild.FileSystem

variable {fs fs' : FileSystem} {follow : Bool} {p : Path} {l m d : Location} {n : String}
  {parts xs : List String} {V : Location → Prop}

/-- A path leads to a location, and does as long as all that stands in a region stays. -/
def Route (V : Location → Prop) (fs : FileSystem) (p : Path) (d : Location) : Prop :=
  ∀ fs' : FileSystem, fs'.workingDirectory = fs.workingDirectory →
    (∀ l, V l → fs'.node? l = fs.node? l) → fs'.place true p = .ok d

/-- All that a path passes matters to it, and no more than that. -/
theorem route_of_way (hp : fs.place true p = .ok d) (h : ∀ l ∈ fs.way true p, V l) : Route V fs p d :=
  fun _ hcwd hsame =>
    place_of_congr (place_congr hcwd fun l hl => guide?_of_node?_eq (hsame l (h l hl))) hp

theorem Route.place (h : Route V fs p d) : fs.place true p = .ok d :=
  h fs rfl fun _ _ => rfl

theorem Route.of_same (h : Route V fs p d) (hcwd : fs'.workingDirectory = fs.workingDirectory)
    (hsame : ∀ l, V l → fs'.node? l = fs.node? l) : Route V fs' p d :=
  fun fs'' hcwd' hsame' =>
    h fs'' (hcwd'.trans hcwd) fun l hl => (hsame' l hl).trans (hsame l hl)

/-! ## Names that are not mentioned -/

/-- A name that neither a path, nor a link, nor the working directory has in it. -/
structure Unmentioned (n : String) (fs : FileSystem) (p : Path) : Prop where
  parts : n ∉ p.parts
  workingDirectory : n ∉ fs.workingDirectory
  links : ∀ l target, fs.node? l = some (.link target) → n ∉ linkParts target

theorem advance_unmentioned (fs : FileSystem) (follow : Bool) {parts : List String} :
    ∀ here, n ∉ here → n ∉ parts →
      (∀ l ∈ fs.advanceWay here parts, n ∉ l) ∧
        (∀ l, fs.advance follow here parts = .arrived l → n ∉ l) ∧
        ∀ m target rest, fs.advance follow here parts = .link m target rest →
          n ∉ m ∧ n ∉ rest ∧ ∃ l, fs.node? l = some (.link target) := by
  induction parts with
  | nil =>
    intro here hhere _
    exact ⟨by simp [advanceWay], fun l hl => Progress.arrived.inj hl ▸ hhere, by simp [advance]⟩
  | cons part rest ih =>
    intro here hhere hparts
    obtain ⟨hpart, hrest⟩ := not_or.1 (mt List.mem_cons.2 hparts)
    have hnext : n ∉ here ++ [part] := by simp [hhere, hpart]
    by_cases hd : fs.isDirectoryAt here = true
    swap
    · simp [advanceWay, advance, hd, hhere]
    by_cases hdot : part = "."
    · simpa [advanceWay, advance, hd, hdot, hhere] using ih here hhere hrest
    by_cases hdots : part = ".."
    · have hup : n ∉ here.dropLast := fun h => hhere ((List.dropLast_subset here) h)
      simpa [advanceWay, advance, hd, hdots, hhere] using ih here.dropLast hup hrest
    by_cases hlong : part.utf8ByteSize > maxNameBytes
    · simp [advanceWay, advance, hd, hdot, hdots, hlong, hhere]
    have hgo := ih (here ++ [part]) hnext hrest
    rcases hnode : fs.node? (here ++ [part]) with _ | ⟨b, x⟩ | _ | target
    · cases rest <;>
        simp [advanceWay, advance, hd, hdot, hdots, hlong, hnode, hhere, hpart]
    · simpa [advanceWay, advance, hd, hdot, hdots, hlong, hnode, hhere, hpart] using hgo.2
    · simpa [advanceWay, advance, hd, hdot, hdots, hlong, hnode, hhere, hpart] using hgo
    · have hstands : ∃ l, fs.node? l = some (.link target) := ⟨_, hnode⟩
      rw [advance, if_neg (by simp [hd]), if_neg hdot, if_neg hdots, if_neg hlong, hnode]
      refine ⟨by simp [advanceWay, hd, hdot, hdots, hlong, hnode, hhere, hpart], ?_, ?_⟩
      · intro l hl
        dsimp only at hl
        split at hl
        · exact Progress.arrived.inj hl ▸ hnext
        · cases hl
      · intro m target' rest' hl
        dsimp only at hl
        split at hl
        · cases hl
        · obtain ⟨rfl, rfl, rfl⟩ := Progress.link.inj hl
          exact ⟨hhere, hrest, hstands⟩

theorem walk_unmentioned (follow : Bool)
    (hlinks : ∀ l target, fs.node? l = some (.link target) → n ∉ linkParts target)
    {links : Nat} : ∀ here parts, n ∉ here → n ∉ parts →
      (∀ l ∈ fs.walkWay follow links here parts, n ∉ l) ∧
        ∀ l, fs.walk follow links here parts = .ok l → n ∉ l := by
  induction links with
  | zero =>
    intro here parts hhere hparts
    obtain ⟨hway, harrived, -⟩ := advance_unmentioned fs follow here hhere hparts
    rw [walkWay, walk]
    rcases ha : fs.advance follow here parts with l | ⟨m, target, rest⟩ | e
    · exact ⟨by simpa using hway, fun l' hl' => harrived l' (ha.trans (congrArg _ (Except.ok.inj hl')))⟩
    · exact ⟨by simpa using hway, by simp⟩
    · exact ⟨by simpa using hway, by simp⟩
  | succ links ih =>
    intro here parts hhere hparts
    obtain ⟨hway, harrived, hlink⟩ := advance_unmentioned fs follow here hhere hparts
    rw [walkWay, walk]
    rcases ha : fs.advance follow here parts with l | ⟨m, target, rest⟩ | e
    · exact ⟨by simpa using hway, fun l' hl' => harrived l' (ha.trans (congrArg _ (Except.ok.inj hl')))⟩
    · obtain ⟨hm, hrest, l, hl⟩ := hlink m target rest ha
      have hstart : n ∉ (if target.startsWith "/" then [] else m) := by
        split
        · exact List.not_mem_nil
        · exact hm
      have hparts' : n ∉ linkParts target ++ rest := by simp [hlinks l target hl, hrest]
      obtain ⟨hway', hend⟩ := ih _ _ hstart hparts'
      exact ⟨fun l hl => (List.mem_append.1 hl).elim (hway l) (hway' l), hend⟩
    · exact ⟨by simpa using hway, by simp⟩

/-- A name that is not mentioned stands nowhere on the way of the path. -/
theorem Unmentioned.not_mem (h : Unmentioned n fs p) (follow : Bool) :
    (∀ l ∈ fs.way follow p, n ∉ l) ∧ ∀ l, fs.place follow p = .ok l → n ∉ l := by
  have horigin : n ∉ fs.origin p := by
    unfold origin
    split
    · exact List.not_mem_nil
    · exact h.workingDirectory
  obtain ⟨hway, hend⟩ := walk_unmentioned follow h.links (fs.origin p) p.parts horigin h.parts
  exact ⟨hway, fun l hl => hend l (place_eq_ok_iff.1 hl).2.2⟩

theorem Unmentioned.of_links (h : Unmentioned n fs p) (hcwd : fs'.workingDirectory = fs.workingDirectory)
    (hlinks : ∀ l target, fs'.node? l = some (.link target) → fs.node? l = some (.link target)) :
    Unmentioned n fs' p where
  parts := h.parts
  workingDirectory := hcwd ▸ h.workingDirectory
  links l target hl := h.links l target (hlinks l target hl)

/-! ## What a path passes -/

/-- An advance with more parts to go comes to a directory first, or to the same link. -/
theorem advance_above (hxs : xs ≠ []) {parts : List String} :
    ∀ here, (∀ e, fs.advance follow here (parts ++ xs) ≠ .fault e) →
      (∃ d, fs.isDirectoryAt d = true ∧ fs.advance true here parts = .arrived d) ∨
        ∃ m target rest, fs.advance true here parts = .link m target rest ∧
          fs.advance follow here (parts ++ xs) = .link m target (rest ++ xs) := by
  induction parts with
  | nil =>
    intro here h
    obtain ⟨x, xs, rfl⟩ := List.exists_cons_of_ne_nil hxs
    refine .inl ⟨here, by_contra fun hd => h .notDirectory ?_, rfl⟩
    rw [List.nil_append, advance, if_pos (by simp [hd])]
  | cons part rest ih =>
    intro here h
    have hne : (rest ++ xs).isEmpty = false := by simp [hxs]
    rw [List.cons_append, advance] at h
    rw [List.cons_append, advance, advance]
    split
    · next hd => exact absurd rfl (by rw [if_pos hd] at h; exact h .notDirectory)
    next hd =>
    rw [if_neg hd] at h
    split
    · next hdot => exact ih here (by rwa [if_pos hdot] at h)
    next hdot =>
    rw [if_neg hdot] at h
    split
    · next hdots => exact ih here.dropLast (by rwa [if_pos hdots] at h)
    next hdots =>
    rw [if_neg hdots] at h
    split
    · next hlong => exact absurd rfl (by rw [if_pos hlong] at h; exact h .nameTooLong)
    next hlong =>
    rw [if_neg hlong] at h
    rcases hnode : fs.node? (here ++ [part]) with _ | ⟨b, x⟩ | _ | target <;> rw [hnode] at h
    · dsimp only at h
      rw [hne] at h
      exact absurd rfl (h .noEntry)
    · exact ih (here ++ [part]) h
    · exact ih (here ++ [part]) h
    · refine .inr ⟨here, target, rest, ?_, ?_⟩
      · simp
      · simp [hne]

/-- A walk with more parts to go comes to a directory first. -/
theorem walk_above (hxs : xs ≠ []) {links : Nat} :
    ∀ here parts, fs.walk follow links here (parts ++ xs) = .ok l →
      ∃ d, fs.isDirectoryAt d = true ∧ fs.walk true links here parts = .ok d := by
  intro here parts h
  refine walk_induction (P := fun links here all => ∀ parts, all = parts ++ xs →
      ∃ d, fs.isDirectoryAt d = true ∧ fs.walk true links here parts = .ok d)
    (fun links here all ha => ?_) (fun links here all m target rest ha ih => ?_) here _ h parts rfl
  · rintro parts rfl
    rcases advance_above hxs here fun e he => (by cases ha.symm.trans he) with
      ⟨d, hd, hparts⟩ | ⟨m, target, rest, -, hlink⟩
    · exact ⟨d, hd, by rw [walk, hparts]⟩
    · cases ha.symm.trans hlink
  · rintro parts rfl
    rcases advance_above hxs here fun e he => (by cases ha.symm.trans he) with
      ⟨d, hd, hparts⟩ | ⟨m', target', rest', hparts, hlink⟩
    · exact ⟨d, hd, by rw [walk, hparts]⟩
    · obtain ⟨rfl, rfl, rfl⟩ := Progress.link.inj (ha.symm.trans hlink)
      obtain ⟨d, hd, hwalk⟩ := ih (linkParts target ++ rest') (by rw [List.append_assoc])
      exact ⟨d, hd, by rw [walk, hparts]; exact hwalk⟩

/-- A path from the root that leads anywhere below another one leads through a directory there. -/
theorem exists_place_above {parts : List String} (hxs : xs ≠ [])
    (h : fs.place follow (Path.below ⟨.root, parts⟩ xs) = .ok l) :
    ∃ d, fs.isDirectoryAt d = true ∧ fs.place true ⟨.root, parts⟩ = .ok d := by
  obtain ⟨hnul, hlimit, hwalk⟩ := place_eq_ok_iff.1 h
  obtain ⟨d, hd, hplace⟩ := walk_above hxs _ _ hwalk
  refine ⟨d, hd, place_eq_ok_iff.2 ⟨?_, ?_, hplace⟩⟩
  · refine Bool.eq_false_iff.2 fun hc => ?_
    obtain ⟨part, hpart, hmem⟩ := (Path.hasNul_iff _).1 hc
    refine Bool.eq_false_iff.1 hnul ((Path.hasNul_iff _).2 ⟨part, ?_, hmem⟩)
    exact List.mem_append_left xs hpart
  · exact Nat.lt_of_le_of_lt (Path.utf8ByteSize_toString_le (List.prefix_append parts xs)) hlimit

/-- To leave the last link alone does not stop an advance. -/
theorem advance_unfollowed {parts : List String} :
    ∀ here, (∀ l, fs.advance true here parts = .arrived l → fs.advance false here parts = .arrived l) ∧
      ∀ m target rest, fs.advance true here parts = .link m target rest →
        fs.advance false here parts = .link m target rest ∨
          ∃ l, fs.advance false here parts = .arrived l := by
  induction parts with
  | nil => exact fun here => ⟨fun _ h => h, by simp [advance]⟩
  | cons part rest ih =>
    intro here
    rw [advance, advance]
    split
    · exact ⟨by simp, by simp⟩
    split
    · exact ih here
    split
    · exact ih here.dropLast
    split
    · exact ⟨by simp, by simp⟩
    rcases hnode : fs.node? (here ++ [part]) with _ | ⟨b, x⟩ | _ | target
    · exact ⟨fun _ h => h, fun _ _ _ h => .inl h⟩
    · exact ih _
    · exact ih _
    · cases rest with
      | nil => exact ⟨by simp, fun _ _ _ _ => .inr ⟨_, rfl⟩⟩
      | cons next rest => exact ⟨by simp, fun _ _ _ h => .inl h⟩

/-- A path that leads anywhere leads somewhere if its last link is left alone. -/
theorem exists_place_false (h : fs.place true p = .ok l) : ∃ m, fs.place false p = .ok m := by
  obtain ⟨hnul, hlimit, hwalk⟩ := place_eq_ok_iff.1 h
  have hend : ∃ m, fs.walk false maxLinks (fs.origin p) p.parts = .ok m := by
    revert hwalk
    refine walk_induction (P := fun links here parts => ∃ m, fs.walk false links here parts = .ok m)
      (fun links here parts ha => ?_) (fun links here parts m target rest ha ih => ?_) _ _
    · exact ⟨l, by rw [walk, (advance_unfollowed here).1 l ha]⟩
    · rcases (advance_unfollowed here).2 m target rest ha with hlink | ⟨z, harrived⟩
      · exact ih.imp fun z hz => by rw [walk, hlink]; exact hz
      · exact ⟨z, by rw [walk, harrived]⟩
  exact hend.imp fun m hm => place_eq_ok_iff.2 ⟨hnul, hlimit, hm⟩

/-! ## Straight down from a directory -/

theorem eq_of_place_child (hl : fs.isDirectoryAt l = true) (hp : fs.place true p = .ok l) (hn : IsName n)
    (hlink : ∀ target, fs.node? (l ++ [n]) = some (.link target) → follow = false)
    (h : fs.place follow (p.below [n]) = .ok m) : m = l ++ [n] := by
  rcases place_child hl hp hn hlink with hchild | herror
  · exact Except.ok.inj (h.symm.trans hchild)
  · cases h.symm.trans herror

/-- Below a directory a path leads straight down, if it passes no link and leads anywhere. -/
theorem eq_of_place_below (hp : fs.place true p = .ok l) (hl : fs.isDirectoryAt l = true)
    (hxs : xs ≠ []) (hnames : ∀ n ∈ xs, IsName n) (hlinks : fs.NoLinkOn l xs)
    (h : fs.place follow (p.below xs) = .ok m) : m = l ++ xs := by
  obtain ⟨links, hwalk⟩ := exists_walk_of_place_below hl hp hxs
  obtain ⟨hnul, hlimit, -⟩ := place_eq_ok_iff.1 h
  rw [hwalk follow hnul hlimit, walk] at h
  rcases advance_straight follow l hnames hlinks with ha | ⟨e, he⟩
  · rw [ha] at h
    exact (Except.ok.inj h).symm
  · rw [he] at h
    cases h

end CrossBuild.FileSystem
