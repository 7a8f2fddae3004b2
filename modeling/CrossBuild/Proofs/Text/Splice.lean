import CrossBuild.Text.Splice
import Mathlib.Data.List.Basic

/-!
# The first occurrence

A list is split at the one occurrence of a pattern that no other one starts before.
-/

namespace CrossBuild.Splice

variable {α : Type} [DecidableEq α] {pattern s before after : List α}

/-- What stands before the first occurrence is not longer than what stands before another one. -/
theorem length_le_of_splitFirst? (h : splitFirst? pattern s = some (before, after))
    {before' after' : List α} (hs : s = before' ++ pattern ++ after') :
    before.length ≤ before'.length := by
  induction s generalizing before before' with
  | nil =>
    obtain ⟨hb, -⟩ := List.append_eq_nil_iff.1 (eq_append_of_splitFirst? h).symm
    rw [(List.append_eq_nil_iff.1 hb).1]
    exact Nat.zero_le _
  | cons a s ih =>
    rw [splitFirst?] at h
    split at h
    · rw [← (Prod.mk.inj (Option.some.inj h)).1]
      exact Nat.zero_le _
    · next hnot =>
      obtain ⟨⟨b, r⟩, hb, hr⟩ := Option.map_eq_some_iff.1 h
      obtain ⟨rfl, rfl⟩ := Prod.mk.inj hr
      cases before' with
      | nil =>
        refine absurd (List.isPrefixOf_iff_prefix.2 ⟨after', ?_⟩) hnot
        rw [hs, List.nil_append]
      | cons a' before' =>
        rw [List.cons_append, List.cons_append] at hs
        exact Nat.succ_le_succ (ih hb (List.cons.inj hs).2)

/-- **The split is at the first occurrence**, and the first occurrence is where it splits. -/
theorem splitFirst?_eq_some_iff :
    splitFirst? pattern s = some (before, after) ↔
      s = before ++ pattern ++ after ∧
        ∀ before' after', s = before' ++ pattern ++ after' → before.length ≤ before'.length := by
  constructor
  · exact fun h => ⟨eq_append_of_splitFirst? h, fun _ _ hs => length_le_of_splitFirst? h hs⟩
  · rintro ⟨hs, hfirst⟩
    obtain ⟨⟨b, r⟩, hsplit⟩ := Option.isSome_iff_exists.1 (occursIn_iff.2 ⟨before, after, hs⟩)
    have hother := eq_append_of_splitFirst? hsplit
    have hlength : b.length = before.length :=
      Nat.le_antisymm (length_le_of_splitFirst? hsplit hs) (hfirst b r hother)
    rw [hother, List.append_assoc, List.append_assoc] at hs
    obtain ⟨rfl, hrest⟩ := List.append_inj hs hlength
    rw [hsplit, List.append_cancel_left hrest]

theorem splitFirst?_eq_none_iff :
    splitFirst? pattern s = none ↔ ∀ before after, s ≠ before ++ pattern ++ after := by
  constructor
  · intro h before after hs
    have := occursIn_iff.2 ⟨before, after, hs⟩
    unfold occursIn at this
    rw [h] at this
    cases this
  · intro h
    rw [← Option.not_isSome_iff_eq_none]
    intro hsome
    obtain ⟨before, after, hs⟩ := occursIn_iff.1 hsome
    exact h before after hs

@[simp] theorem splitFirst?_nil (s : List α) : splitFirst? [] s = some ([], s) :=
  splitFirst?_eq_some_iff.2 ⟨rfl, fun _ _ _ => Nat.zero_le _⟩

end CrossBuild.Splice
