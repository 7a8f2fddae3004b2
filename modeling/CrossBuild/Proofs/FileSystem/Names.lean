import CrossBuild.Proofs.FileSystem.Walk

/-!
# Names, and walks along them

A name says where to go by itself: it is no dot and holds no slash. From a directory whose way from
the root passes no link, a path of names leads straight down, unless a link lies on it. In a sound
file system everything lies in directories and has a name, and so does what a path leads to.
-/

namespace CrossBuild

open FileSystem Text

theorem Text.intercalate_eq_joinWith (sep : Char) (parts : List (List Char)) :
    [sep].intercalate parts = joinWith sep parts := by
  induction parts with
  | nil => rfl
  | cons a parts ih =>
    cases parts with
    | nil => simp [joinWith]
    | cons b parts =>
      rw [joinWith_cons_cons, ← ih]
      simp

/-- Whether a text can stand between slashes. -/
def IsPiece (s : String) : Prop :=
  s ≠ "" ∧ '/' ∉ s.toList ∧ '\x00' ∉ s.toList

/-- Whether a text names something in a directory. -/
def IsName (s : String) : Prop :=
  IsPiece s ∧ s ≠ "." ∧ s ≠ ".."

/-- Whether a text stands for itself when it is read as a part of a path. -/
def IsPart (s : String) : Prop :=
  s ≠ "" ∧ '/' ∉ s.toList ∧ s ≠ "."

theorem IsName.isPart {s : String} (h : IsName s) : IsPart s :=
  ⟨h.1.1, h.1.2.1, h.2.1⟩

/-- A longer text than two dots stands for itself. -/
theorem isPart_of_length {s : String} (hslash : '/' ∉ s.toList) (h : 2 < s.toList.length) :
    IsPart s ∧ s ≠ ".." := by
  have hne : ∀ short : String, short.toList.length ≤ 2 → s ≠ short := by
    rintro short hshort rfl
    omega
  exact ⟨⟨hne "" (by decide), hslash, hne "." (by decide)⟩, hne ".." (by decide)⟩

instance : DecidablePred IsPiece := fun _ => inferInstanceAs (Decidable (_ ∧ _))

instance : DecidablePred IsName := fun _ => inferInstanceAs (Decidable (_ ∧ _))

/-- The characters of a part are characters of the text. -/
theorem Text.mem_of_mem_splitAt {sep c : Char} {s part : List Char} (h : part ∈ splitAt sep s)
    (hc : c ∈ part) : c ∈ s := by
  induction s generalizing part with
  | nil =>
    rw [splitAt, List.mem_singleton] at h
    subst h
    cases hc
  | cons a s ih =>
    rw [splitAt] at h
    split at h
    · rcases List.mem_cons.1 h with rfl | h
      · cases hc
      · exact List.mem_cons_of_mem a (ih h hc)
    · split at h
      · rw [List.mem_singleton.1 h, List.mem_singleton] at hc
        simp [hc]
      · next first parts hs =>
        rcases List.mem_cons.1 h with rfl | h
        · rcases List.mem_cons.1 hc with rfl | hc
          · simp
          · exact List.mem_cons_of_mem a (ih (by rw [hs]; simp) hc)
        · exact List.mem_cons_of_mem a (ih (by rw [hs]; simp [h]) hc)

namespace Path

/-- Whether the parts are those that a text can mean. -/
def Proper (p : Path) : Prop :=
  ∀ part ∈ p.parts, part ≠ "" ∧ '/' ∉ part.toList

variable {p : Path} {name : String}

theorem ofText_of_head {s : List Char} (h : s.head? ≠ some '/') : Anchor.ofText s = .relative := by
  unfold Anchor.ofText
  split
  · simp at h
  · simp at h
  · simp at h
  · rfl

theorem ofString_part (h : IsPart name) : ofString name = ⟨.relative, [name]⟩ := by
  obtain ⟨hempty, hslash, hdot⟩ := h
  have hanchor : Anchor.ofText name.toList = .relative := by
    refine ofText_of_head fun hhead => hslash ?_
    exact List.mem_of_mem_head? hhead
  have hsplit : Text.splitString '/' name = [name] := by
    unfold Text.splitString
    rw [Text.splitAt_eq_singleton '/' hslash]
    simp
  unfold ofString
  rw [hanchor, hsplit]
  simp [isVoid, hempty, hdot]

/-- A path seen one part further. -/
theorem div_part (p : Path) (h : IsPart name) : p / name = ⟨p.anchor, p.parts ++ [name]⟩ := by
  show p.append (ofString name) = _
  rw [ofString_part h, append_of_relative rfl]

theorem div_name (p : Path) (h : IsName name) : p / name = ⟨p.anchor, p.parts ++ [name]⟩ :=
  p.div_part h.isPart

/-- What lies below a path along some names. -/
def below (p : Path) (names : List String) : Path := ⟨p.anchor, p.parts ++ names⟩

@[simp] theorem below_nil (p : Path) : p.below [] = p := by
  simp [below]

@[simp] theorem below_below (p : Path) (names more : List String) :
    (p.below names).below more = p.below (names ++ more) := by
  simp [below]

theorem div_below (p : Path) (names : List String) {name : String} (h : IsName name) :
    p.below names / name = p.below (names ++ [name]) := by
  rw [div_name _ h]
  exact p.below_below names [name]

theorem toList_toString (hp : p.anchor ≠ .relative ∨ p.parts ≠ []) :
    p.toString.toList = p.anchor.text.toList ++ joinWith '/' (p.parts.map String.toList) := by
  have h : p.toString = p.anchor.text ++ String.intercalate "/" p.parts := by
    unfold Path.toString
    rw [if_neg]
    rintro ⟨hanchor, hparts⟩
    exact hp.elim (· hanchor) (· hparts)
  rw [h, String.toList_append, String.toList_intercalate, ← intercalate_eq_joinWith]
  rfl

theorem toList_toString_root (parts : List String) :
    (Path.toString ⟨.root, parts⟩).toList = '/' :: joinWith '/' (parts.map String.toList) := by
  rw [toList_toString (.inl (by simp)), show Anchor.root.text.toList = ['/'] by decide]
  rfl

theorem joinWith_prefix {sep : Char} {front parts : List (List Char)} (h : front <+: parts) :
    joinWith sep front <+: joinWith sep parts := by
  obtain ⟨back, rfl⟩ := h
  induction front with
  | nil => exact List.nil_prefix
  | cons a front ih =>
    cases front with
    | nil =>
      cases back with
      | nil => exact List.prefix_refl _
      | cons b back => exact List.prefix_append _ _
    | cons b front =>
      show a ++ sep :: joinWith sep (b :: front) <+: a ++ sep :: joinWith sep (b :: front ++ back)
      rw [List.prefix_append_right_inj, List.cons_prefix_cons]
      exact ⟨rfl, ih⟩

/-- A path is no shorter than one above it. -/
theorem utf8ByteSize_toString_le {front parts : List String} (h : front <+: parts) :
    (Path.toString ⟨.root, front⟩).utf8ByteSize ≤ (Path.toString ⟨.root, parts⟩).utf8ByteSize := by
  obtain ⟨back, hback⟩ : (Path.toString ⟨.root, front⟩).toList <+: (Path.toString ⟨.root, parts⟩).toList := by
    rw [toList_toString_root, toList_toString_root, List.cons_prefix_cons]
    exact ⟨rfl, joinWith_prefix (h.map _)⟩
  have hsplit : Path.toString ⟨.root, parts⟩ = Path.toString ⟨.root, front⟩ ++ String.ofList back := by
    rw [← String.toList_inj, String.toList_append, String.toList_ofList, hback]
  rw [hsplit, String.utf8ByteSize_append]
  exact Nat.le_add_right _ _

theorem head_joinWith_ne {parts : List (List Char)} (h : ∀ part ∈ parts, part ≠ [] ∧ '/' ∉ part) :
    (joinWith '/' parts).head? ≠ some '/' := by
  cases parts with
  | nil => simp [joinWith]
  | cons part parts =>
    obtain ⟨hne, hslash⟩ := h part (by simp)
    cases part with
    | nil => exact absurd rfl hne
    | cons c part =>
      have hc : c ≠ '/' := by
        rintro rfl
        simp at hslash
      cases parts <;> simp [joinWith, hc]

theorem ofText_root {s : List Char} (h : s.head? ≠ some '/') : Anchor.ofText ('/' :: s) = .root := by
  cases s with
  | nil => rfl
  | cons c s =>
    have hc : c ≠ '/' := by
      rintro rfl
      simp at h
    unfold Anchor.ofText
    split <;> simp_all

theorem ofText_doubleRoot {s : List Char} (h : s.head? ≠ some '/') :
    Anchor.ofText ('/' :: '/' :: s) = .doubleRoot := by
  cases s with
  | nil => rfl
  | cons c s =>
    have hc : c ≠ '/' := by
      rintro rfl
      simp at h
    unfold Anchor.ofText
    split
    · simp_all
    · rfl
    · next hnone heq => exact absurd (List.cons.inj heq).2.symm (hnone _)
    · simp_all

/-- The parts that are read from joined parts are those parts. -/
theorem filter_splitAt_joinWith {parts : List String} (h : ∀ part ∈ parts, IsPart part) :
    ((splitAt '/' (joinWith '/' (parts.map String.toList))).map String.ofList).filter (!isVoid ·) =
      parts := by
  have hparts : ∀ part ∈ parts.map String.toList, '/' ∉ part := by
    intro part hpart
    obtain ⟨s, hs, rfl⟩ := List.mem_map.1 hpart
    exact (h s hs).2.1
  cases parts with
  | nil => rfl
  | cons part parts =>
    have hmap : ((part :: parts).map String.toList).map String.ofList = part :: parts := by
      simp [Function.comp_def]
    rw [splitAt_joinWith '/' (by simp) hparts, hmap]
    refine List.filter_eq_self.2 fun part hpart => ?_
    obtain ⟨hempty, -, hdot⟩ := h part hpart
    simp [isVoid, hempty, hdot]

/-- The text of a path names the path. -/
theorem ofString_toString_of_parts (h : ∀ part ∈ p.parts, IsPart part) : ofString p.toString = p := by
  obtain ⟨anchor, parts⟩ := p
  have hhead : (joinWith '/' (parts.map String.toList)).head? ≠ some '/' := by
    refine head_joinWith_ne fun part hpart => ?_
    obtain ⟨s, hs, rfl⟩ := List.mem_map.1 hpart
    exact ⟨by simpa using (h s hs).1, (h s hs).2.1⟩
  have hread := filter_splitAt_joinWith h
  have hslash : ∀ s, splitAt '/' ('/' :: s) = [] :: splitAt '/' s := by
    intro s
    rw [splitAt, if_pos rfl]
  unfold ofString splitString
  cases anchor with
  | relative =>
    by_cases hparts : parts = []
    · subst hparts
      decide
    · rw [toList_toString (.inr hparts)]
      show (⟨.ofText (joinWith '/' (parts.map String.toList)), _⟩ : Path) = _
      rw [ofText_of_head hhead]
      exact congrArg _ hread
  | root =>
    rw [toList_toString (.inl (by simp)), show Anchor.root.text.toList = ['/'] by decide]
    show (⟨.ofText ('/' :: joinWith '/' (parts.map String.toList)),
      ((splitAt '/' ('/' :: joinWith '/' (parts.map String.toList))).map String.ofList).filter
        (!isVoid ·)⟩ : Path) = _
    rw [ofText_root hhead, hslash, List.map_cons, List.filter_cons_of_neg (by simp [isVoid]), hread]
  | doubleRoot =>
    rw [toList_toString (.inl (by simp)), show Anchor.doubleRoot.text.toList = ['/', '/'] by decide]
    show (⟨.ofText ('/' :: '/' :: joinWith '/' (parts.map String.toList)),
      ((splitAt '/' ('/' :: '/' :: joinWith '/' (parts.map String.toList))).map String.ofList).filter
        (!isVoid ·)⟩ : Path) = _
    rw [ofText_doubleRoot hhead, hslash, hslash, List.map_cons, List.map_cons,
      List.filter_cons_of_neg (by simp [isVoid]), List.filter_cons_of_neg (by simp [isVoid]), hread]

theorem ofString_toString {parts : List String} (h : ∀ part ∈ parts, IsPart part) :
    ofString (Path.toString ⟨.root, parts⟩) = ⟨.root, parts⟩ :=
  ofString_toString_of_parts h

theorem isPart_ofString (s : String) : ∀ part ∈ (ofString s).parts, IsPart part := by
  intro part hpart
  obtain ⟨hmem, hvoid⟩ := List.mem_filter.1 hpart
  obtain ⟨cs, hcs, rfl⟩ := List.mem_map.1 hmem
  have hslash : '/' ∉ (String.ofList cs).toList := by
    rw [String.toList_ofList]
    exact not_mem_of_mem_splitAt hcs
  refine ⟨?_, hslash, ?_⟩
  all_goals
    intro h
    simp [isVoid, h] at hvoid

theorem isPart_div (hparts : ∀ part ∈ p.parts, IsPart part) (hn : IsName name) :
    ∀ part ∈ (p / name).parts, IsPart part := by
  rw [div_name _ hn]
  intro part hpart
  rcases List.mem_append.1 hpart with hpart | hpart
  · exact hparts part hpart
  · rw [List.mem_singleton.1 hpart]
    exact hn.isPart

theorem proper_ofString (s : String) : (ofString s).Proper := fun part hpart =>
  have hpart := isPart_ofString s part hpart
  ⟨hpart.1, hpart.2.1⟩

theorem mem_toString_of_mem_parts {part : String} (h : part ∈ p.parts) {c : Char}
    (hc : c ∈ part.toList) : c ∈ p.toString.toList := by
  have hne : ¬ (p.anchor = .relative ∧ p.parts = []) := by
    rintro ⟨-, hnil⟩
    rw [hnil] at h
    cases h
  have hjoin : ∀ parts : List (List Char), part.toList ∈ parts → c ∈ joinWith '/' parts := by
    intro parts
    induction parts with
    | nil => intro h; cases h
    | cons a parts ih =>
      intro h
      cases parts with
      | nil =>
        rw [List.mem_singleton.1 h] at hc
        exact hc
      | cons b parts =>
        rw [joinWith_cons_cons]
        rcases List.mem_cons.1 h with rfl | h
        · exact List.mem_append_left _ hc
        · exact List.mem_append_right _ (List.mem_cons_of_mem _ (ih h))
  unfold Path.toString
  rw [if_neg hne, String.toList_append, String.toList_intercalate]
  refine List.mem_append_right _ ?_
  show c ∈ ['/'].intercalate _
  rw [intercalate_eq_joinWith]
  exact hjoin _ (List.mem_map_of_mem h)

theorem hasNul_iff (p : Path) :
    hasNul p = true ↔ ∃ part ∈ p.parts, '\x00' ∈ part.toList := by
  constructor
  · intro h
    have hmem : '\x00' ∈ p.toString.toList := by
      unfold hasNul at h
      simpa using h
    unfold Path.toString at hmem
    split at hmem
    · exact absurd hmem (by decide)
    rw [String.toList_append, List.mem_append] at hmem
    rcases hmem with hmem | hmem
    · cases hanchor : p.anchor <;> rw [hanchor] at hmem <;> exact absurd hmem (by decide)
    rw [String.toList_intercalate] at hmem
    have hjoin : ∀ parts : List (List Char), '\x00' ∈ Text.joinWith '/' parts →
        ∃ part ∈ parts, '\x00' ∈ part := by
      intro parts
      induction parts with
      | nil => intro h; cases h
      | cons a parts ih =>
        intro h
        cases parts with
        | nil => exact ⟨a, by simp, h⟩
        | cons b parts =>
          rw [Text.joinWith_cons_cons, List.mem_append] at h
          rcases h with h | h
          · exact ⟨a, by simp, h⟩
          · rcases List.mem_cons.1 h with h | h
            · cases h
            · obtain ⟨part, hpart, hnul⟩ := ih h
              exact ⟨part, List.mem_cons_of_mem a hpart, hnul⟩
    rw [show ("/" : String).toList = ['/'] from rfl, Text.intercalate_eq_joinWith] at hmem
    obtain ⟨part, hpart, hnul⟩ := hjoin _ hmem
    obtain ⟨s, hs, rfl⟩ := List.mem_map.1 hpart
    exact ⟨s, hs, hnul⟩
  · rintro ⟨part, hpart, hnul⟩
    have := mem_toString_of_mem_parts hpart hnul
    unfold hasNul
    simpa using this

theorem hasNul_of_names (h : ∀ part ∈ p.parts, IsName part) : hasNul p = false := by
  rw [Bool.eq_false_iff, Ne, hasNul_iff]
  rintro ⟨part, hpart, hnul⟩
  exact (h part hpart).1.2.2 hnul

theorem Proper.isPiece (hp : p.Proper) (hnul : hasNul p = false) :
    ∀ part ∈ p.parts, IsPiece part := by
  intro part hpart
  obtain ⟨hempty, hslash⟩ := hp part hpart
  refine ⟨hempty, hslash, fun hc => ?_⟩
  have := mem_toString_of_mem_parts hpart hc
  unfold hasNul at hnul
  simp_all

/-- A part that stands for itself is a name if the path can be handed to the system. -/
theorem isName_of_mem_parts {n : String} (hnul : hasNul p = false) (hmem : n ∈ p.parts)
    (hn : IsPart n ∧ n ≠ "..") : IsName n := by
  refine ⟨⟨hn.1.1, hn.1.2.1, fun hc => ?_⟩, hn.1.2.2, hn.2⟩
  have := (hasNul_iff p).2 ⟨n, hmem, hc⟩
  rw [hnul] at this
  cases this

end Path

end CrossBuild
