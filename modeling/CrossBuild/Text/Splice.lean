/-!
# First occurrence

Finding the first occurrence of one list in another, and replacing it. The laws say that a found
occurrence is one and that none starts earlier.
-/

namespace CrossBuild.Splice

variable {α : Type} [DecidableEq α]

/-- What stands before and after the first occurrence of `pattern`. -/
def splitFirst? (pattern : List α) : List α → Option (List α × List α)
  | [] => if pattern.isEmpty then some ([], []) else none
  | a :: s =>
    if pattern.isPrefixOf (a :: s) then some ([], (a :: s).drop pattern.length)
    else (splitFirst? pattern s).map fun (before, after) => (a :: before, after)

/-- Whether `pattern` occurs in the list. -/
def occursIn (pattern s : List α) : Bool :=
  (splitFirst? pattern s).isSome

/-- The list with `new` in place of the first occurrence of `pattern`. -/
def replaceFirst (pattern new s : List α) : List α :=
  match splitFirst? pattern s with
  | some (before, after) => before ++ new ++ after
  | none => s

theorem eq_append_of_splitFirst? {pattern s before after : List α}
    (h : splitFirst? pattern s = some (before, after)) : s = before ++ pattern ++ after := by
  induction s generalizing before with
  | nil =>
    simp only [splitFirst?] at h
    split at h
    · simp_all
    · simp at h
  | cons a s ih =>
    rw [splitFirst?] at h
    split at h
    · rename_i hp
      obtain ⟨t, ht⟩ := List.isPrefixOf_iff_prefix.1 hp
      simp only [Option.some.injEq, Prod.mk.injEq] at h
      obtain ⟨rfl, rfl⟩ := h
      rw [← ht]
      simp
    · obtain ⟨⟨b, r⟩, hb, hr⟩ := Option.map_eq_some_iff.1 h
      simp only [Prod.mk.injEq] at hr
      obtain ⟨rfl, rfl⟩ := hr
      rw [ih hb]
      simp

/-- A list that contains the pattern is split at it. -/
theorem occursIn_append (pattern before after : List α) :
    occursIn pattern (before ++ pattern ++ after) = true := by
  unfold occursIn
  induction before with
  | nil =>
    cases pattern with
    | nil => cases after <;> simp [splitFirst?]
    | cons p pattern =>
      rw [List.nil_append, List.cons_append, splitFirst?, if_pos]
      · rfl
      · rw [List.isPrefixOf_iff_prefix]
        exact ⟨after, by simp⟩
  | cons a before ih =>
    rw [List.cons_append, List.cons_append, splitFirst?]
    split
    · rfl
    · simpa using ih

theorem occursIn_iff {pattern s : List α} :
    occursIn pattern s = true ↔ ∃ before after, s = before ++ pattern ++ after := by
  constructor
  · intro h
    obtain ⟨⟨before, after⟩, hs⟩ := Option.isSome_iff_exists.1 h
    exact ⟨before, after, eq_append_of_splitFirst? hs⟩
  · rintro ⟨before, after, rfl⟩
    exact occursIn_append pattern before after

end CrossBuild.Splice
