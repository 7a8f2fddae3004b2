import CrossBuild.Patch.Basic
import Mathlib.Tactic.Common

/-!
# Seams

A patch cuts a text at one edge of its anchor, or at both, and puts its insertion between. A marker
survives the cut unless it stands across it, and whether it can stand across the edge of an anchor
depends on the two of them alone, not on the text around.
-/

namespace CrossBuild

variable {α : Type}

namespace Splice

/-- No beginning of `marker` ends a text that ends in `anchor`. -/
def ClearAfter (anchor marker : List α) : Prop :=
  ∀ x y, marker = x ++ y → x ≠ [] → y ≠ [] → ∀ before, ¬ x <:+ before ++ anchor

/-- No end of `marker` begins a text that begins with `anchor`. -/
def ClearBefore (anchor marker : List α) : Prop :=
  ∀ x y, marker = x ++ y → x ≠ [] → y ≠ [] → ∀ after, ¬ y <+: anchor ++ after

/-- What stands in a text of two parts stands in one of them or across the seam. -/
theorem within_append_cases {m l r : List α} (h : m <:+: l ++ r) :
    m <:+: l ∨ m <:+: r ∨ ∃ x y, m = x ++ y ∧ x ≠ [] ∧ y ≠ [] ∧ x <:+ l ∧ y <+: r := by
  obtain ⟨s, t, h⟩ := h
  rw [List.append_assoc] at h
  rcases List.append_eq_append_iff.1 h with ⟨u, rfl, hu⟩ | ⟨u, rfl, hu⟩
  · rcases List.append_eq_append_iff.1 hu with ⟨v, rfl, -⟩ | ⟨v, rfl, rfl⟩
    · exact .inl ⟨s, v, by simp⟩
    · by_cases hx : u = []
      · subst hx
        exact .inr (.inl ⟨[], t, by simp⟩)
      · by_cases hy : v = []
        · subst hy
          exact .inl ⟨s, [], by simp⟩
        · exact .inr (.inr ⟨u, v, rfl, hx, hy, ⟨s, rfl⟩, ⟨t, rfl⟩⟩)
  · exact .inr (.inl ⟨u, t, by rw [hu, List.append_assoc]⟩)

/-- Something put in at a seam that a marker is not across leaves the marker in the text. -/
theorem within_insert {m l r new : List α} (h : m <:+: l ++ r)
    (hclear : ∀ x y, m = x ++ y → x ≠ [] → y ≠ [] → ¬ (x <:+ l ∧ y <+: r)) :
    m <:+: l ++ new ++ r := by
  rcases within_append_cases h with hl | hr | ⟨x, y, hm, hx, hy, hxl, hyr⟩
  · rw [List.append_assoc]
    exact hl.trans (List.prefix_append l (new ++ r)).isInfix
  · exact hr.trans (List.suffix_append (l ++ new) r).isInfix
  · exact absurd ⟨hxl, hyr⟩ (hclear x y hm hx hy)

theorem ClearAfter.within {anchor m before after : List α} (hc : ClearAfter anchor m)
    (new : List α)
    (h : m <:+: before ++ anchor ++ after) : m <:+: before ++ anchor ++ new ++ after :=
  within_insert h fun x y hm hx hy hxy => hc x y hm hx hy before hxy.1

theorem ClearBefore.within {anchor m before after : List α} (hc : ClearBefore anchor m)
    (new : List α)
    (h : m <:+: before ++ anchor ++ after) : m <:+: before ++ new ++ anchor ++ after := by
  rw [List.append_assoc] at h ⊢
  exact within_insert h fun x y hm hx hy hxy => hc x y hm hx hy after hxy.2

/-- A mark at the end of the anchor that no proper beginning of the marker holds keeps the marker
off the edge: a longer beginning would hold the mark, a shorter one would begin inside it. -/
theorem clearAfter_of_mark {anchor m : List α} (mark : List α) (c : α) (hmark : mark <:+ anchor)
    (hhead : ∀ a ∈ m.head?, a ∉ mark) (hc : c ∈ mark) (hm : c ∉ m.dropLast) :
    ClearAfter anchor m := by
  rintro x y rfl hx hy before hsuffix
  have hmark' : mark <:+ before ++ anchor := hmark.trans (List.suffix_append before anchor)
  rcases List.suffix_or_suffix_of_suffix hsuffix hmark' with hxm | hmx
  · obtain ⟨a, x, rfl⟩ := List.exists_cons_of_ne_nil hx
    exact hhead a (by simp) (hxm.subset (by simp))
  · refine hm ?_
    rw [List.dropLast_append_of_ne_nil hy]
    exact List.mem_append_left _ (hmx.subset hc)

/-- Nothing whose first character it holds once reaches over its own end. -/
theorem clearAfter_self {m : List α} (h : ∀ a ∈ m.head?, a ∉ m.tail) :
    ClearAfter m m := by
  rintro x y rfl hx hy before hsuffix
  have hlength : x.length < (x ++ y).length := by
    rw [List.length_append]
    exact Nat.lt_add_of_pos_right (List.length_pos_iff.2 hy)
  obtain ⟨z, hz⟩ := List.suffix_of_suffix_length_le hsuffix (List.suffix_append before _)
    (Nat.le_of_lt hlength)
  obtain ⟨a, x, rfl⟩ := List.exists_cons_of_ne_nil hx
  have hz' : z ≠ [] := by
    rintro rfl
    rw [← hz] at hlength
    exact absurd hlength (Nat.lt_irrefl _)
  refine h a rfl ?_
  rw [← hz, List.tail_append_of_ne_nil hz']
  exact List.mem_append_right _ List.mem_cons_self

/-- A mark at the beginning of the anchor that no proper end of the marker holds keeps the marker
off the edge. -/
theorem clearBefore_of_mark {anchor m : List α} (mark : List α) (c : α) (hmark : mark <+: anchor)
    (hlast : ∀ a ∈ m.getLast?, a ∉ mark) (hc : c ∈ mark) (hm : c ∉ m.tail) :
    ClearBefore anchor m := by
  rintro x y rfl hx hy after hprefix
  have hmark' : mark <+: anchor ++ after := hmark.trans (List.prefix_append anchor after)
  rcases List.prefix_or_prefix_of_prefix hprefix hmark' with hym | hmy
  · obtain ⟨y', a, rfl⟩ : ∃ y' a, y = y' ++ [a] :=
      ⟨y.dropLast, y.getLast hy, (List.dropLast_concat_getLast hy).symm⟩
    exact hlast a (by simp [← List.append_assoc]) (hym.subset (by simp))
  · refine hm ?_
    rw [List.tail_append_of_ne_nil hx]
    exact List.mem_append_right _ (hmy.subset hc)

variable [DecidableEq α]

theorem occursIn_iff_within {pattern s : List α} : occursIn pattern s = true ↔ pattern <:+: s := by
  rw [occursIn_iff]
  constructor
  · rintro ⟨before, after, rfl⟩
    exact ⟨before, after, rfl⟩
  · rintro ⟨before, after, rfl⟩
    exact ⟨before, after, rfl⟩

theorem replaceFirst_eq {pattern s : List α} (h : occursIn pattern s = true) (new : List α) :
    ∃ before after, s = before ++ pattern ++ after ∧
      replaceFirst pattern new s = before ++ new ++ after := by
  obtain ⟨⟨before, after⟩, hs⟩ := Option.isSome_iff_exists.1 h
  refine ⟨before, after, eq_append_of_splitFirst? hs, ?_⟩
  unfold replaceFirst
  rw [hs]

end Splice

namespace Patch

open Splice

variable [DecidableEq α] {spell : String → List α} {p : Patch} {m text changed : List α}

/-- The patch never cuts the marker `m`, whatever the text. -/
def Spares (spell : String → List α) (p : Patch) (m : List α) : Prop :=
  ∀ anchor, p.anchor = some anchor →
    match p.position with
    | .front => True
    | .before => ClearBefore (spell anchor) m
    | .after => ClearAfter (spell anchor) m
    | .replace => ClearBefore (spell anchor) m ∧ ClearAfter (spell anchor) m ∧
        ∃ before after, spell p.insertion = before ++ spell anchor ++ after

/-- What a patch that changes a text makes of it. -/
theorem done_cases (h : p.apply spell text = .done changed) :
    (p.position = .front ∧ changed = spell p.insertion ++ text) ∨
      ∃ anchor before after, p.anchor = some anchor ∧ p.position ≠ .front ∧
        text = before ++ spell anchor ++ after ∧
        changed = before ++ p.replacement spell (spell anchor) ++ after := by
  unfold apply at h
  by_cases hmarker : occursIn (spell p.marker) text = true
  · rw [if_pos hmarker] at h
    cases h
  rw [if_neg hmarker] at h
  by_cases hfront : p.position = .front
  · rw [if_pos hfront] at h
    exact .inl ⟨hfront, (Outcome.done.inj h).symm⟩
  rw [if_neg hfront] at h
  rcases hanchor : p.anchor with _ | anchor
  · rw [hanchor] at h
    dsimp only at h
    split at h <;> cases h
  · rw [hanchor] at h
    dsimp only at h
    by_cases hoccurs : occursIn (spell anchor) text = true
    · rw [if_pos hoccurs] at h
      obtain ⟨before, after, htext, hnew⟩ :=
        replaceFirst_eq hoccurs (p.replacement spell (spell anchor))
      exact .inr ⟨anchor, before, after, rfl, hfront, htext, (Outcome.done.inj h).symm.trans hnew⟩
    · rw [if_neg hoccurs] at h
      split at h <;> cases h

/-- A marker that a patch spares stays in the text. -/
theorem Spares.within (hspares : p.Spares spell m) (h : p.apply spell text = .done changed)
    (hm : m <:+: text) : m <:+: changed := by
  rcases done_cases h with ⟨-, rfl⟩ | ⟨anchor, before, after, hanchor, hfront, rfl, rfl⟩
  · exact hm.trans (List.suffix_append _ text).isInfix
  · have hs := hspares anchor hanchor
    unfold replacement
    rcases hposition : p.position with _ | _ | _ | _ <;> rw [hposition] at hs <;> dsimp only at hs ⊢
    · rw [← List.append_assoc]
      exact hs.within _ hm
    · rw [← List.append_assoc]
      exact hs.within _ hm
    · -- the insertion holds the anchor: something is put in before it, and something after it
      obtain ⟨hbefore, hafter, first, last, hinsertion⟩ := hs
      rw [hinsertion]
      have := hafter.within last (hbefore.within first hm)
      simpa only [List.append_assoc] using this
    · exact absurd hposition hfront

end Patch

end CrossBuild
