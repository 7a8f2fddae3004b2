import CrossBuild.Proofs.FileSystem.Operations
import CrossBuild.Proofs.FileSystem.Sound

/-!
# Files in one directory

Paths that differ in their last name alone lead into one directory, or all of them lead nowhere.
-/

namespace CrossBuild

open FileSystem

namespace FileSystem

variable {fs fs' : FileSystem} {p : Path}

/-- A path that leads nowhere. -/
def Lost (fs : FileSystem) (p : Path) : Prop :=
  ∀ follow, ∃ f, fs.place follow p = .error f ∧ meansAbsent f = true

theorem Lost.refiled {places : Location → Prop} (h : fs.Lost p) (hr : Refiled places fs fs') :
    fs'.Lost p := by
  intro follow
  obtain ⟨f, hf, habsent⟩ := h follow
  obtain ⟨f', hf', hmeans⟩ := place_error_of_congr (hr.place_congr follow p) hf
  exact ⟨f', hf', hmeans.trans habsent⟩

/-- An ordinary file stands at the path, or nothing. -/
def IsFileOrAbsent (fs : FileSystem) (p : Path) : Prop :=
  (∃ l b x, fs.lookup false p = .ok (l, .file b x)) ∨
    ∃ f, fs.lookup false p = .error f ∧ meansAbsent f = true

theorem isFileOrAbsent_cases (h : fs.IsFileOrAbsent p) :
    (∃ l, fs.place false p = .ok l ∧ fs.IsSpot l) ∨
      ∃ f, fs.place false p = .error f ∧ meansAbsent f = true := by
  rcases h with ⟨l, b, x, h⟩ | ⟨f, h, habsent⟩
  · obtain ⟨hp, hl⟩ := lookup_eq_ok_iff.1 h
    exact .inl ⟨l, hp, isSpot_of_file hl⟩
  · rcases hp : fs.place false p with f' | l
    · rw [lookup_of_error hp] at h
      exact .inr ⟨f', rfl, Except.error.inj h ▸ habsent⟩
    · rcases hl : fs.node? l with _ | node
      · exact .inl ⟨l, rfl, isSpot_of_none hl⟩
      · rw [lookup_eq_ok_iff.2 ⟨hp, hl⟩] at h
        cases h

theorem IsFileOrAbsent.ne_nameTooLong (h : fs.IsFileOrAbsent p) :
    fs.place false p ≠ .error (faultAt .nameTooLong p) := by
  intro herror
  rcases isFileOrAbsent_cases h with ⟨l, hl, -⟩ | ⟨f, hf, habsent⟩
  · rw [herror] at hl
    cases hl
  · rw [herror] at hf
    rw [← Except.error.inj hf] at habsent
    cases habsent

theorem IsFileOrAbsent.within_limit (h : fs.IsFileOrAbsent p) (hnul : hasNul p = false) :
    p.toString.utf8ByteSize < pathByteLimit := by
  by_contra hlong
  refine h.ne_nameTooLong ?_
  unfold place locate
  rw [if_neg (by simp [hnul]), if_pos (Nat.le_of_not_lt hlong)]

/-- A walk's last step, to a name in a directory. -/
theorem walk_last {m : Location} {n : String} (hm : fs.isDirectoryAt m = true) (hdot : n ≠ ".")
    (hdots : n ≠ "..") (links : Nat) :
    (fs.walk false links m [n] = .error .nameTooLong) ∨
      (fs.walk false links m [n] = .ok (m ++ [n]) ∧ (fs.IsSpot (m ++ [n]) →
        ∀ follow, fs.walk follow links m [n] = .ok (m ++ [n]))) := by
  by_cases hlong : n.utf8ByteSize > maxNameBytes
  · left
    rw [walk, advance, if_neg (by simp [hm]), if_neg hdot, if_neg hdots, if_pos hlong]
  · right
    constructor
    · rw [walk, advance, if_neg (by simp [hm]), if_neg hdot, if_neg hdots, if_neg hlong]
      rcases fs.node? (m ++ [n]) with _ | ⟨_ | _ | _⟩ <;> rfl
    · intro hspot follow
      rw [walk, advance, if_neg (by simp [hm]), if_neg hdot, if_neg hdots, if_neg hlong]
      rcases hspot.cases with hnode | ⟨b, x, hnode⟩ <;> rw [hnode] <;> rfl

/-- **Files beside each other** are found in one directory, or none of them is anywhere. -/
theorem siblings_cases {anchor : Path.Anchor} {init : List String} {names : List String}
    (hnames : ∀ n ∈ names, n ≠ "." ∧ n ≠ ".." ∧ '\x00' ∉ n.toList)
    (h : ∀ n ∈ names, fs.IsFileOrAbsent ⟨anchor, init ++ [n]⟩) :
    (∃ m, fs.isDirectoryAt m = true ∧ ∀ n ∈ names, fs.IsSpot (m ++ [n]) ∧
        ∀ follow, fs.place follow ⟨anchor, init ++ [n]⟩ = .ok (m ++ [n])) ∨
      ∀ n ∈ names, fs.Lost ⟨anchor, init ++ [n]⟩ := by
  by_cases hnul : ∃ part ∈ init, '\x00' ∈ part.toList
  · refine .inr fun n _ follow => ⟨.nulInPath, ?_, rfl⟩
    obtain ⟨part, hpart, hmem⟩ := hnul
    have hpath : hasNul ⟨anchor, init ++ [n]⟩ = true :=
      (Path.hasNul_iff _).2 ⟨part, List.mem_append_left _ hpart, hmem⟩
    unfold place
    rw [if_pos hpath]
  have hclean : ∀ n ∈ names, hasNul ⟨anchor, init ++ [n]⟩ = false := by
    intro n hn
    by_contra hc
    rw [Bool.not_eq_false, Path.hasNul_iff] at hc
    obtain ⟨part, hpart, hmem⟩ := hc
    rcases List.mem_append.1 hpart with hpart | hpart
    · exact hnul ⟨part, hpart, hmem⟩
    · rw [List.mem_singleton.1 hpart] at hmem
      exact (hnames n hn).2.2 hmem
  have hplace : ∀ n ∈ names, ∀ follow, fs.place follow ⟨anchor, init ++ [n]⟩ =
      (fs.walk follow maxLinks (fs.origin ⟨anchor, init⟩) (init ++ [n])).mapError
        fun e => faultAt e ⟨anchor, init ++ [n]⟩ := fun n hn follow =>
    place_eq_walk (hclean n hn) ((h n hn).within_limit (hclean n hn)) follow
  rcases walk_concat maxLinks (fs.origin ⟨anchor, init⟩) init with ⟨links, m, hm, hwalk⟩ | ⟨e, he⟩
  · refine .inl ⟨m, hm, fun n hn => ?_⟩
    obtain ⟨hdot, hdots, -⟩ := hnames n hn
    rcases walk_last hm hdot hdots links with hlong | ⟨hfalse, hany⟩
    · refine absurd ?_ (h n hn).ne_nameTooLong
      rw [hplace n hn, hwalk, hlong]
      rfl
    have hplaceFalse : fs.place false ⟨anchor, init ++ [n]⟩ = .ok (m ++ [n]) := by
      rw [hplace n hn, hwalk, hfalse]
      rfl
    have hspot : fs.IsSpot (m ++ [n]) := by
      rcases isFileOrAbsent_cases (h n hn) with ⟨l, hl, hspot⟩ | ⟨f, hf, -⟩
      · rw [hplaceFalse] at hl
        rw [Except.ok.inj hl]
        exact hspot
      · rw [hplaceFalse] at hf
        cases hf
    refine ⟨hspot, fun follow => ?_⟩
    rw [hplace n hn, hwalk, hany hspot]
    rfl
  · refine .inr fun n hn follow => ?_
    have herror : ∀ follow, fs.place follow ⟨anchor, init ++ [n]⟩ =
        .error (faultAt e ⟨anchor, init ++ [n]⟩) := by
      intro follow
      rw [hplace n hn, he]
      rfl
    refine ⟨_, herror follow, ?_⟩
    rcases isFileOrAbsent_cases (h n hn) with ⟨l, hl, -⟩ | ⟨f, hf, habsent⟩
    · rw [herror] at hl
      cases hl
    · rw [herror] at hf
      rw [Except.error.inj hf]
      exact habsent

/-- A path that ends in dots leads to a directory, if anywhere. -/
theorem Sound.isDirectoryAt_of_dots (hs : fs.Sound) {anchor : Path.Anchor} {init : List String}
    {n : String} (hn : n = "." ∨ n = "..") {follow : Bool} {l : Location}
    (h : fs.place follow ⟨anchor, init ++ [n]⟩ = .ok l) : fs.isDirectoryAt l = true := by
  obtain ⟨-, -, hwalk⟩ := place_eq_ok_iff.1 h
  dsimp only at hwalk
  rcases walk_concat maxLinks (fs.origin ⟨anchor, init ++ [n]⟩) init with
    ⟨links, m, hm, hlast⟩ | ⟨e, he⟩
  · rw [hlast] at hwalk
    rcases hn with rfl | rfl
    · have : fs.walk follow links m ["."] = .ok m := by
        rw [walk, advance, if_neg (by simp [hm]), if_pos rfl]
        rfl
      rw [this] at hwalk
      rw [← Except.ok.inj hwalk]
      exact hm
    · have : fs.walk follow links m [".."] = .ok m.dropLast := by
        rw [walk, advance, if_neg (by simp [hm]), if_neg (by decide), if_pos rfl]
        rfl
      rw [this] at hwalk
      rw [← Except.ok.inj hwalk]
      exact hs.isDirectoryAt_above hm _ (List.dropLast_prefix m)
  · rw [he] at hwalk
    cases hwalk

/-- What a path with a name at its end leads to could be created. -/
theorem Sound.isEntry_of_place_last (hs : fs.Sound) {anchor : Path.Anchor} {init : List String}
    {n : String} (hn : IsName n) {follow : Bool} {l : Location}
    (h : fs.place follow ⟨anchor, init ++ [n]⟩ = .ok l) (hnone : fs.node? l = none) :
    fs.IsEntry l := by
  obtain ⟨-, -, hwalk⟩ := place_eq_ok_iff.1 h
  rcases walk_concat maxLinks (fs.origin ⟨anchor, init ++ [n]⟩) init with ⟨links, m, -, hm⟩ | ⟨e, he⟩
  · rw [hm] at hwalk
    refine hs.isEntry_of_walk m [n] hwalk (fun part hpart => ?_) (.inl (by simp)) hnone
    rw [List.mem_singleton.1 hpart]
    exact hn.1
  · rw [he] at hwalk
    cases hwalk

/-- Where a path with a name at its end leads to a file or to nothing, a file can be put. -/
theorem Sound.isEntry_of_place_spot (hs : fs.Sound) {anchor : Path.Anchor} {init : List String}
    {n : String} (hn : IsName n) {follow : Bool} {l : Location}
    (h : fs.place follow ⟨anchor, init ++ [n]⟩ = .ok l) (hspot : fs.IsSpot l) : fs.IsEntry l := by
  rcases hspot.cases with hnone | ⟨b, x, hfile⟩
  · exact hs.isEntry_of_place_last hn h hnone
  · exact hs.isEntry hfile hspot.ne_nil

/-- Nothing stands at a path, not even a link. -/
def IsAbsent (fs : FileSystem) (p : Path) : Prop :=
  fs.test false (fun _ => true) p = .ok false

theorem IsAbsent.isFileOrAbsent (h : fs.IsAbsent p) : fs.IsFileOrAbsent p := by
  rcases test_cases h with ⟨l, node, -, -, hb⟩ | ⟨-, l, hp, hl⟩ | ⟨-, f, hf, habsent⟩
  · cases hb
  · exact .inr ⟨_, lookup_of_none hp hl, rfl⟩
  · exact .inr ⟨f, lookup_of_error hf, habsent⟩

theorem IsAbsent.node? {l : Location} (h : fs.IsAbsent p) (hp : fs.place false p = .ok l) :
    fs.node? l = none := by
  rcases test_cases h with ⟨l', node, -, -, hb⟩ | ⟨-, l', hp', hl⟩ | ⟨-, f, hf, -⟩
  · cases hb
  · rw [hp] at hp'
    rw [Except.ok.inj hp']
    exact hl
  · rw [hp] at hf
    cases hf

end FileSystem

end CrossBuild
