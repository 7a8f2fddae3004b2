import CrossBuild.Proofs.Patch.Seam
import CrossBuild.Proofs.Text.SourceText
import Mathlib.Data.List.Basic
import Mathlib.Tactic.SplitIfs

/-!
# Applying a list of patches

Patches that are applied one after the other are steady when none of them cuts the marker of an
earlier one and only the last may be left out. Then the text that comes out holds every marker, and
applying the patches to it again changes nothing.
-/

namespace CrossBuild.Patch

open Splice

variable {α : Type} [DecidableEq α] {spell : String → List α} {p q : Patch} {patches : List Patch}
  {m text changed final : List α}

/-- The text after patches one after the other; nothing if one lacks its anchor. -/
def applyAll? (spell : String → List α) : List Patch → List α → Option (List α)
  | [], text => some text
  | p :: rest, text =>
    match p.apply spell text with
    | .present | .skipped => applyAll? spell rest text
    | .done changed => applyAll? spell rest changed
    | .anchorMissing => none

/-- Whether a patch leaves a text as it is, because it is applied or may be left out. -/
def Idle (spell : String → List α) (text : List α) (p : Patch) : Prop :=
  p.apply spell text = .present ∨ p.apply spell text = .skipped

/-- Whether a patch inserts its own marker. -/
def Marked (spell : String → List α) (p : Patch) : Prop :=
  spell p.marker <:+: spell p.insertion

/-- Whether patches can follow one another without undoing what was done. -/
structure Steady (spell : String → List α) (patches : List Patch) : Prop where
  marked : ∀ p ∈ patches, p.Marked spell
  ordered : patches.Pairwise fun p q => p.required = true ∧ q.Spares spell (spell p.marker)

theorem apply_of_marker (h : spell p.marker <:+: text) : p.apply spell text = .present := by
  unfold apply
  rw [if_pos (occursIn_iff_within.2 h)]

theorem within_of_present (h : p.apply spell text = .present) : spell p.marker <:+: text := by
  rw [← occursIn_iff_within]
  by_contra hmarker
  unfold apply at h
  rw [if_neg hmarker] at h
  rcases hanchor : p.anchor with _ | anchor <;> rw [hanchor] at h <;> dsimp only at h <;>
    split_ifs at h

theorem required_of_skipped (h : p.apply spell text = .skipped) : p.required = false := by
  by_contra hrequired
  rw [Bool.not_eq_false] at hrequired
  unfold apply at h
  rcases hanchor : p.anchor with _ | anchor <;> rw [hanchor] at h <;> dsimp only at h <;>
    split_ifs at h

/-- A patch that changed a text put its insertion in. -/
theorem insertion_within (h : p.apply spell text = .done changed) :
    spell p.insertion <:+: changed := by
  rcases done_cases h with ⟨-, rfl⟩ | ⟨anchor, before, after, -, -, -, rfl⟩
  · exact (List.prefix_append _ text).isInfix
  · have hin : spell p.insertion <:+: p.replacement spell (spell anchor) := by
      unfold replacement
      rcases p.position with _ | _ | _ | _
      · exact (List.prefix_append _ _).isInfix
      · exact (List.suffix_append _ _).isInfix
      · exact List.infix_refl _
      · exact List.infix_refl _
    exact hin.trans (List.infix_append _ _ _)

/-- A marker that all patches spare stays through all of them. -/
theorem within_of_applyAll? (hspares : ∀ p ∈ patches, p.Spares spell m)
    (h : applyAll? spell patches text = some final) (hm : m <:+: text) : m <:+: final := by
  induction patches generalizing text with
  | nil =>
    rw [applyAll?] at h
    rw [← Option.some.inj h]
    exact hm
  | cons p rest ih =>
    have hrest : ∀ q ∈ rest, q.Spares spell m := fun q hq => hspares q (by simp [hq])
    rw [applyAll?] at h
    rcases hp : p.apply spell text with _ | changed | _ | _ <;> rw [hp] at h
    · exact ih hrest h hm
    · exact ih hrest h ((hspares p (by simp)).within hp hm)
    · exact ih hrest h hm
    · cases h

/-- **Patching twice is patching once**: every patch finds its marker in the text that comes out, or
is left out as before. -/
theorem Steady.idle (hs : Steady spell patches) (h : applyAll? spell patches text = some final) :
    ∀ p ∈ patches, Idle spell final p := by
  induction patches generalizing text with
  | nil => intro p hp; cases hp
  | cons p rest ih =>
    obtain ⟨hmarked, hordered⟩ := hs
    obtain ⟨hfirst, hordered⟩ := List.pairwise_cons.1 hordered
    have hrest : Steady spell rest := ⟨fun q hq => hmarked q (by simp [hq]), hordered⟩
    have hspares : ∀ q ∈ rest, q.Spares spell (spell p.marker) := fun q hq => (hfirst q hq).2
    rw [applyAll?] at h
    intro q hq
    rcases hp : p.apply spell text with _ | changed | _ | _ <;> rw [hp] at h
    · rcases List.mem_cons.1 hq with rfl | hq
      · exact .inl (apply_of_marker (within_of_applyAll? hspares h (within_of_present hp)))
      · exact ih hrest h q hq
    · rcases List.mem_cons.1 hq with rfl | hq
      · have hm : spell q.marker <:+: changed :=
          (hmarked q (by simp)).trans (insertion_within hp)
        exact .inl (apply_of_marker (within_of_applyAll? hspares h hm))
      · exact ih hrest h q hq
    · -- a patch that is left out is the last one, so the text is the one it was left out of
      have hlast : rest = [] := by
        cases rest with
        | nil => rfl
        | cons r rest =>
          have hrequired := (hfirst r (by simp)).1
          rw [required_of_skipped hp] at hrequired
          cases hrequired
      subst hlast
      rw [List.mem_singleton.1 hq]
      rw [applyAll?] at h
      rw [← Option.some.inj h]
      exact .inr hp
    · cases h

/-- The text that comes out holds the marker of a patch that has to be applied, if all patches
spare it. -/
theorem marker_within (hp : p ∈ patches) (hmarked : p.Marked spell) (hrequired : p.required = true)
    (hspares : ∀ q ∈ patches, q.Spares spell (spell p.marker))
    (h : applyAll? spell patches text = some final) : spell p.marker <:+: final := by
  induction patches generalizing text with
  | nil => cases hp
  | cons q rest ih =>
    have hrest : ∀ r ∈ rest, r.Spares spell (spell p.marker) := fun r hr => hspares r (by simp [hr])
    rw [applyAll?] at h
    rcases hq : q.apply spell text with _ | changed | _ | _ <;> rw [hq] at h
    · rcases List.mem_cons.1 hp with rfl | hp
      · exact within_of_applyAll? hrest h (within_of_present hq)
      · exact ih hp hrest h
    · rcases List.mem_cons.1 hp with rfl | hp
      · exact within_of_applyAll? hrest h (hmarked.trans (insertion_within hq))
      · exact ih hp hrest h
    · rcases List.mem_cons.1 hp with rfl | hp
      · rw [required_of_skipped hq] at hrequired
        cases hrequired
      · exact ih hp hrest h
    · cases h

theorem applyAll?_of_idle (h : ∀ p ∈ patches, Idle spell text p) :
    applyAll? spell patches text = some text := by
  induction patches with
  | nil => rfl
  | cons p rest ih =>
    rw [applyAll?]
    rcases h p (by simp) with hp | hp <;> rw [hp] <;> exact ih fun q hq => h q (by simp [hq])

/-! ## Patching that was broken off -/

theorem applyAll?_append (first rest : List Patch) (text : List α) :
    applyAll? spell (first ++ rest) text =
      (applyAll? spell first text).bind (applyAll? spell rest) := by
  induction first generalizing text with
  | nil => rfl
  | cons p first ih =>
    rw [List.cons_append, applyAll?, applyAll?]
    rcases p.apply spell text with _ | changed | _ | _
    · exact ih text
    · exact ih changed
    · exact ih text
    · rfl

/-- **Patching can be taken up again**: where the first patches were applied before, applying all of
them makes the text that it makes of the one at first. -/
theorem Steady.applyAll?_resumed {first rest : List Patch} {halfway : List α}
    (hs : Steady spell (first ++ rest)) (h : applyAll? spell first text = some halfway) :
    applyAll? spell (first ++ rest) halfway = applyAll? spell (first ++ rest) text := by
  have hfirst : Steady spell first :=
    ⟨fun p hp => hs.marked p (List.mem_append_left rest hp), (List.pairwise_append.1 hs.ordered).1⟩
  rw [applyAll?_append, applyAll?_append, h, applyAll?_of_idle (hfirst.idle h)]

/-! ## Normal texts -/

/-- Whether a patch inserts a text, at an anchor with a text if at any. -/
def Solid (p : Patch) : Prop :=
  p.insertion ≠ "" ∧ p.anchor ≠ some ""

open SourceText in
theorem normal_of_done {t u : SourceText} (hp : p.Solid) (ht : t.Normal)
    (h : p.apply ofString t = .done u) : u.Normal := by
  obtain ⟨hinsertion, hanchor⟩ := hp
  rcases done_cases h with ⟨-, rfl⟩ | ⟨anchor, before, after, ha, -, rfl, rfl⟩
  · have hnil : SourceText.Normal [] := by
      unfold SourceText.Normal
      rw [toBytes_nil, ofBytes_nil]
    exact hnil.join ht hinsertion
  · have hne : anchor ≠ "" := by
      rintro rfl
      exact hanchor ha
    obtain ⟨hbefore, hafter⟩ := ht.sides hne
    unfold replacement
    rcases p.position with _ | _ | _ | _ <;> dsimp only
    · rw [← ofString_append]
      exact hbefore.join hafter (by simp [hne])
    · rw [← ofString_append]
      exact hbefore.join hafter (by simp [hne])
    · exact hbefore.join hafter hinsertion
    · exact hbefore.join hafter hinsertion

/-- Patches keep a text normal. -/
theorem normal_of_applyAll? {t u : SourceText} (hp : ∀ p ∈ patches, p.Solid) (ht : t.Normal)
    (h : applyAll? SourceText.ofString patches t = some u) : u.Normal := by
  induction patches generalizing t with
  | nil =>
    rw [applyAll?] at h
    rw [← Option.some.inj h]
    exact ht
  | cons p rest ih =>
    have hrest : ∀ q ∈ rest, q.Solid := fun q hq => hp q (by simp [hq])
    rw [applyAll?] at h
    rcases ha : p.apply SourceText.ofString t with _ | changed | _ | _ <;> rw [ha] at h
    · exact ih hrest ht h
    · exact ih hrest (normal_of_done (hp p (by simp)) ht ha) h
    · exact ih hrest ht h
    · cases h

end CrossBuild.Patch
