import CrossBuild.Proofs.FileSystem.Operations
import CrossBuild.Proofs.FileSystem.Sound

/-!
# Paths below a directory

A path that leads to a directory can be gone on from: with more parts it leads where these lead from
the directory. Along names and past no link this is straight down, wherever the directory is.
-/

namespace CrossBuild.FileSystem

variable {fs : FileSystem} {follow : Bool} {p : Path} {l m : Location} {parts xs : List String}
  {n : String}

/-- An advance that comes to a directory goes on from there, and one that comes to a link has more
parts to go after it. -/
theorem advance_append (hl : fs.isDirectoryAt l = true) (hxs : xs ≠ []) (follow : Bool) :
    ∀ here, (fs.advance true here parts = .arrived l →
        fs.advance follow here (parts ++ xs) = fs.advance follow l xs) ∧
      ∀ m target rest, fs.advance true here parts = .link m target rest →
        fs.advance follow here (parts ++ xs) = .link m target (rest ++ xs) := by
  induction parts with
  | nil =>
    intro here
    exact ⟨fun h => by rw [Progress.arrived.inj h, List.nil_append], fun _ _ _ h => by cases h⟩
  | cons part rest ih =>
    intro here
    have hne : (rest ++ xs).isEmpty = false := by simp [hxs]
    rw [List.cons_append, advance, advance]
    split
    · exact ⟨fun h => (by cases h), fun _ _ _ h => by cases h⟩
    split
    · exact ih here
    split
    · exact ih here.dropLast
    split
    · exact ⟨fun h => (by cases h), fun _ _ _ h => by cases h⟩
    rcases hnode : fs.node? (here ++ [part]) with _ | ⟨b, x⟩ | _ | target
    · -- nothing is there, and so no directory
      refine ⟨fun h => ?_, fun _ _ _ h => ?_⟩
      · cases rest with
        | nil =>
          rw [isDirectoryAt_iff, ← Progress.arrived.inj h, hnode] at hl
          cases hl
        | cons _ _ => cases h
      · cases rest <;> cases h
    · exact ih (here ++ [part])
    · exact ih (here ++ [part])
    · simp only [Bool.not_true, Bool.and_false, hne, Bool.false_and]
      refine ⟨fun h => (by cases h), fun _ _ _ h => ?_⟩
      obtain ⟨rfl, rfl, rfl⟩ := Progress.link.inj h
      rfl

/-- A walk that leads to a directory goes on from there. -/
theorem walk_append (hl : fs.isDirectoryAt l = true) {links : Nat} :
    ∀ here parts, fs.walk true links here parts = .ok l →
      ∃ links', ∀ follow xs, xs ≠ [] →
        fs.walk follow links here (parts ++ xs) = fs.walk follow links' l xs := by
  refine walk_induction
    (P := fun links here parts => ∃ links', ∀ follow xs, xs ≠ [] →
      fs.walk follow links here (parts ++ xs) = fs.walk follow links' l xs)
    (fun links here parts ha => ?_) (fun links here parts m target rest ha ih => ?_)
  · refine ⟨links, fun follow xs hxs => ?_⟩
    rw [walk, walk, (advance_append hl hxs follow here).1 ha]
  · obtain ⟨links', hlinks⟩ := ih
    refine ⟨links', fun follow xs hxs => ?_⟩
    rw [← hlinks follow xs hxs, walk, (advance_append hl hxs follow here).2 _ _ _ ha,
      List.append_assoc]

/-- What a path below a directory leads to is walked to from there. -/
theorem exists_walk_of_place_below (hl : fs.isDirectoryAt l = true) (hp : fs.place true p = .ok l)
    (hxs : xs ≠ []) :
    ∃ links, ∀ follow, hasNul (p.below xs) = false →
      (p.below xs).toString.utf8ByteSize < pathByteLimit →
      fs.place follow (p.below xs) =
        (fs.walk follow links l xs).mapError fun e => faultAt e (p.below xs) := by
  obtain ⟨-, -, hwalk⟩ := place_eq_ok_iff.1 hp
  obtain ⟨links, hlinks⟩ := walk_append hl _ _ hwalk
  refine ⟨links, fun follow hnul hlimit => ?_⟩
  rw [place_eq_walk hnul hlimit, ← hlinks follow xs hxs]
  rfl

theorem hasNul_below (hp : hasNul p = false) (hxs : ∀ n ∈ xs, IsName n) :
    hasNul (p.below xs) = false := by
  by_contra hnul
  rw [Bool.not_eq_false, Path.hasNul_iff] at hnul
  obtain ⟨part, hpart, hmem⟩ := hnul
  rcases List.mem_append.1 hpart with hpart | hpart
  · have : hasNul p = true := (Path.hasNul_iff p).2 ⟨part, hpart, hmem⟩
    rw [hp] at this
    cases this
  · exact (hxs part hpart).1.2.2 hmem

/-- A name in a directory leads to what has it, unless that is a link to follow or the path is too
long. -/
theorem place_child (hl : fs.isDirectoryAt l = true) (hp : fs.place true p = .ok l) (hn : IsName n)
    (hlink : ∀ target, fs.node? (l ++ [n]) = some (.link target) → follow = false) :
    fs.place follow (p.below [n]) = .ok (l ++ [n]) ∨
      fs.place follow (p.below [n]) = .error (faultAt .nameTooLong (p.below [n])) := by
  have hnul : hasNul (p.below [n]) = false := hasNul_below (hasNul_of_place hp) (by simpa using hn)
  by_cases hlimit : (p.below [n]).toString.utf8ByteSize ≥ pathByteLimit
  · right
    unfold place locate
    rw [if_neg (by simp [hnul]), if_pos hlimit]
  obtain ⟨links, hwalk⟩ := exists_walk_of_place_below hl hp (List.cons_ne_nil n [])
  rw [hwalk follow hnul (Nat.lt_of_not_ge hlimit), walk]
  by_cases hlong : n.utf8ByteSize > maxNameBytes
  · right
    rw [advance, if_neg (by simp [hl]), if_neg hn.2.1, if_neg hn.2.2, if_pos hlong]
    rfl
  · left
    rw [advance_name hl hn (Nat.le_of_not_lt hlong)]
    rcases hnode : fs.node? (l ++ [n]) with _ | ⟨b, x⟩ | _ | target
    · rfl
    · rfl
    · rfl
    · rw [hlink target hnode]
      rfl

/-- Asking whether a directory has a name in another one looks at what has the name. -/
theorem isDirectory_child (hl : fs.isDirectoryAt l = true) (hp : fs.place true p = .ok l)
    (hn : IsName n) (hlink : ∀ target, fs.node? (l ++ [n]) ≠ some (.link target)) {b : Bool}
    (h : fs.isDirectory (p.below [n]) = .ok b) :
    fs.place true (p.below [n]) = .ok (l ++ [n]) ∧ fs.isDirectoryAt (l ++ [n]) = b := by
  have hplace : fs.place true (p.below [n]) = .ok (l ++ [n]) := by
    rcases place_child hl hp hn fun target ht => absurd ht (hlink target) with hplace | herror
    · exact hplace
    · unfold isDirectory test at h
      rw [lookup_of_error herror] at h
      cases h
  refine ⟨hplace, ?_⟩
  rcases test_cases h with ⟨m, node, hm, hnode, rfl⟩ | ⟨rfl, m, hm, hnone⟩ | ⟨-, f, hf, -⟩
  · obtain rfl := Except.ok.inj (hplace.symm.trans hm)
    unfold isDirectoryAt
    rw [hnode]
    cases node <;> rfl
  · obtain rfl := Except.ok.inj (hplace.symm.trans hm)
    unfold isDirectoryAt
    rw [hnone]
    rfl
  · rw [hplace] at hf
    cases hf

/-- Asking whether a file has a name in a directory looks at what has the name. -/
theorem isFile_child (hl : fs.isDirectoryAt l = true) (hp : fs.place true p = .ok l)
    (hn : IsName n) (hlink : ∀ target, fs.node? (l ++ [n]) ≠ some (.link target))
    (h : fs.isFile (p / n) = .ok true) : fs.IsFileAt (l ++ [n]) := by
  obtain ⟨m, b, x, hplace, hnode⟩ := isFile_eq_true_iff.1 h
  rw [p.div_name hn] at hplace
  rcases place_child hl hp hn fun target ht => absurd ht (hlink target) with hm | herror
  · obtain rfl := Except.ok.inj (hm.symm.trans hplace)
    exact ⟨b, x, hnode⟩
  · cases herror.symm.trans hplace

end CrossBuild.FileSystem
