/-!
# Splitting at a separator

Splitting at every separator character and joining again are inverse to each other.
-/

namespace CrossBuild.Text

/-- The parts between the separators; there is one more part than separators. -/
def splitAt (sep : Char) : List Char → List (List Char)
  | [] => [[]]
  | c :: s =>
    if c = sep then [] :: splitAt sep s
    else
      match splitAt sep s with
      | [] => [[c]]
      | part :: parts => (c :: part) :: parts

/-- The parts with the separator between them. -/
def joinWith (sep : Char) : List (List Char) → List Char
  | [] => []
  | [part] => part
  | part :: parts => part ++ sep :: joinWith sep parts

theorem splitAt_nil (sep : Char) : splitAt sep [] = [[]] := rfl

theorem splitAt_cons_sep (sep : Char) (s : List Char) :
    splitAt sep (sep :: s) = [] :: splitAt sep s :=
  if_pos rfl

/-- What is no separator goes to the first part. -/
theorem splitAt_cons_of_ne {sep c : Char} (hc : c ≠ sep) {s part : List Char} {parts : List (List Char)}
    (hs : splitAt sep s = part :: parts) : splitAt sep (c :: s) = (c :: part) :: parts := by
  change (if c = sep then _ else _) = _
  rw [if_neg hc, hs]

theorem splitAt_ne_nil (sep : Char) (s : List Char) : splitAt sep s ≠ [] := by
  induction s with
  | nil => exact List.cons_ne_nil _ _
  | cons c s ih =>
    obtain ⟨part, parts, hs⟩ := List.exists_cons_of_ne_nil ih
    by_cases hc : c = sep
    · rw [hc, splitAt_cons_sep]
      exact List.cons_ne_nil _ _
    · rw [splitAt_cons_of_ne hc hs]
      exact List.cons_ne_nil _ _

@[simp] theorem joinWith_cons_cons (sep : Char) (a b : List Char) (parts : List (List Char)) :
    joinWith sep (a :: b :: parts) = a ++ sep :: joinWith sep (b :: parts) := rfl

theorem joinWith_cons_head (sep c : Char) (part : List Char) (parts : List (List Char)) :
    joinWith sep ((c :: part) :: parts) = c :: joinWith sep (part :: parts) := by
  cases parts <;> rfl

/-- Joining what was split gives the text back. -/
theorem joinWith_splitAt (sep : Char) (s : List Char) : joinWith sep (splitAt sep s) = s := by
  induction s with
  | nil => rfl
  | cons c s ih =>
    obtain ⟨part, parts, hs⟩ := List.exists_cons_of_ne_nil (splitAt_ne_nil sep s)
    rw [hs] at ih
    by_cases hc : c = sep
    · rw [hc, splitAt_cons_sep, hs, joinWith_cons_cons, ih]
      rfl
    · rw [splitAt_cons_of_ne hc hs, joinWith_cons_head, ih]

theorem splitAt_append (sep : Char) {part : List Char} (h : sep ∉ part) (s : List Char) :
    splitAt sep (part ++ sep :: s) = part :: splitAt sep s := by
  induction part with
  | nil => exact splitAt_cons_sep sep s
  | cons c part ih =>
    rw [List.mem_cons, not_or] at h
    exact splitAt_cons_of_ne (Ne.symm h.1) (ih h.2)

theorem splitAt_eq_singleton (sep : Char) {part : List Char} (h : sep ∉ part) :
    splitAt sep part = [part] := by
  induction part with
  | nil => rfl
  | cons c part ih =>
    rw [List.mem_cons, not_or] at h
    exact splitAt_cons_of_ne (Ne.symm h.1) (ih h.2)

/-- Splitting what was joined gives the parts back, if no part holds the separator. -/
theorem splitAt_joinWith (sep : Char) {parts : List (List Char)} (hne : parts ≠ [])
    (h : ∀ part ∈ parts, sep ∉ part) : splitAt sep (joinWith sep parts) = parts := by
  induction parts with
  | nil => exact absurd rfl hne
  | cons part parts ih =>
    cases parts with
    | nil => exact splitAt_eq_singleton sep (h part (by simp))
    | cons b parts =>
      rw [joinWith_cons_cons, splitAt_append sep (h part (by simp)),
        ih (by simp) fun p hp => h p (List.mem_cons_of_mem _ hp)]

/-- No part holds the separator. -/
theorem not_mem_of_mem_splitAt {sep : Char} {s part : List Char} (h : part ∈ splitAt sep s) :
    sep ∉ part := by
  induction s generalizing part with
  | nil =>
    rw [splitAt_nil, List.mem_singleton] at h
    exact h ▸ List.not_mem_nil
  | cons c s ih =>
    obtain ⟨first, parts, hs⟩ := List.exists_cons_of_ne_nil (splitAt_ne_nil sep s)
    by_cases hc : c = sep
    · rw [hc, splitAt_cons_sep] at h
      rcases List.mem_cons.1 h with rfl | h
      · exact List.not_mem_nil
      · exact ih h
    · rw [splitAt_cons_of_ne hc hs] at h
      rcases List.mem_cons.1 h with rfl | h
      · rw [List.mem_cons, not_or]
        exact ⟨Ne.symm hc, ih (hs ▸ List.mem_cons_self)⟩
      · exact ih (hs ▸ List.mem_cons_of_mem first h)

/-- The parts of a string. -/
def splitString (sep : Char) (s : String) : List String :=
  (splitAt sep s.toList).map String.ofList

end CrossBuild.Text
