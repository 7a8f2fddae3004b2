import CrossBuild.Proofs.Patch.Apply
import CrossBuild.Proofs.Text.Weave

/-!
# Patches that keep out of each other's way

A patch that puts a text at the front, or after its anchor, moves the places of the others and does
nothing else to them if it neither makes nor breaks what they look for. Then applying patches one
after the other comes to weaving their insertions into the text at the places where their anchors
end in it at first, in reverse order and each of them once.
-/

namespace CrossBuild.Patch

open Splice

variable {α : Type} [DecidableEq α] {spell : String → List α} {p q : Patch}
  {patches rest : List Patch} {m l r text final : List α}

/-- Where a patch puts its insertion. -/
def site? (spell : String → List α) (p : Patch) (text : List α) : Option Nat :=
  if p.position = .front then some 0
  else p.anchor.bind fun anchor => endOfFirst? (spell anchor) text

/-- The texts that a patch looks for. -/
def Seeks (spell : String → List α) (p : Patch) (m : List α) : Prop :=
  m = spell p.marker ∨ ∃ anchor, p.anchor = some anchor ∧ m = spell anchor

/-- A patch that puts something in front, or after its anchor, and is not left out. -/
structure Additive (spell : String → List α) (p : Patch) : Prop where
  required : p.required = true
  position : p.position = .after ∨ (p.position = .front ∧ p.anchor = none)
  inserts : spell p.insertion ≠ []

/-- Wherever a patch is applied, no occurrence of `m` is cut or comes about at the edges of the
insertion. -/
structure Passes (spell : String → List α) (p : Patch) (m : List α) : Prop where
  spares : p.Spares spell m
  head : ∀ a ∈ (spell p.insertion).head?, a ∉ m.tail
  last : ∀ a ∈ (spell p.insertion).getLast?, a ∉ m.dropLast

/-- Patches that each make their own marker, and neither make nor break anything else that one of
them looks for. A patch whose anchor is its marker is never applied, whatever it would insert. -/
structure Independent (spell : String → List α) (patches : List Patch) : Prop where
  additive : ∀ p ∈ patches, p.Additive spell
  passes : ∀ p ∈ patches, ∀ q ∈ patches, ∀ m, q.Seeks spell m → m ≠ [] ∧ p.Passes spell m
  markers : ∀ p ∈ patches, ∀ q ∈ patches,
    occurrences (spell q.marker) (spell p.insertion) = if p = q then 1 else 0
  anchors : ∀ p ∈ patches, p.anchor ≠ some p.marker → ∀ q ∈ patches, ∀ anchor,
    q.anchor = some anchor → ¬ occursIn (spell anchor) (spell p.insertion) = true

/-! ## One patch -/

/-- The patch puts its insertion between `l` and `r`. -/
structure PutAt (spell : String → List α) (p : Patch) (l r : List α) : Prop where
  fresh : occursIn (spell p.marker) (l ++ r) = false
  site : p.site? spell (l ++ r) = some l.length
  cut : ∀ m, p.Spares spell m → NotAcross m l r

theorem Additive.apply_cases (hp : p.Additive spell) (text : List α) :
    (occursIn (spell p.marker) text = true ∧ p.apply spell text = .present) ∨
    (occursIn (spell p.marker) text = false ∧ p.site? spell text = none ∧
      p.apply spell text = .anchorMissing) ∨
    ∃ l r, p.PutAt spell l r ∧ text = l ++ r ∧
      p.apply spell text = .done (l ++ spell p.insertion ++ r) := by
  unfold apply
  rcases hmarker : occursIn (spell p.marker) text with _ | _
  · refine .inr ?_
    rw [if_neg Bool.false_ne_true]
    rcases hp.position with hposition | ⟨hposition, -⟩
    · have hfront : ¬ p.position = .front := by rw [hposition]; decide
      rw [if_neg hfront]
      rcases hanchor : p.anchor with _ | anchor
      · refine .inl ⟨rfl, ?_, if_pos hp.required⟩
        rw [site?, if_neg hfront, hanchor, Option.bind_none]
      · have hsite : p.site? spell text = endOfFirst? (spell anchor) text := by
          rw [site?, if_neg hfront, hanchor, Option.bind_some]
        rcases hend : endOfFirst? (spell anchor) text with _ | k
        · have hno : ¬ occursIn (spell anchor) text = true := by
            rw [← isSome_endOfFirst?, hend]
            exact Bool.false_ne_true
          refine .inl ⟨rfl, hsite.trans hend, ?_⟩
          dsimp only
          rw [if_neg hno, if_pos hp.required]
        · obtain ⟨before, after, hsplit, rfl, rfl⟩ := exists_of_endOfFirst? hend
          refine .inr ⟨before ++ spell anchor, after, ⟨hmarker, hsite.trans hend, ?_⟩, rfl, ?_⟩
          · intro m hm x y hxy hx hy hxl _
            have hclear := hm anchor hanchor
            rw [hposition] at hclear
            exact hclear x y hxy hx hy before hxl
          · dsimp only
            rw [if_pos (occursIn_append _ _ _), replaceFirst, hsplit, replacement, hposition]
            simp only [List.append_assoc]
    · refine .inr ⟨[], text, ⟨hmarker, if_pos hposition, fun m _ => notAcross_nil m _⟩, rfl, ?_⟩
      rw [if_pos hposition, List.nil_append]
  · exact .inl ⟨rfl, if_pos rfl⟩

/-- A patch whose anchor is its marker finds the marker where it finds the anchor. -/
theorem PutAt.anchor_ne (hput : p.PutAt spell l r) (hp : p.Additive spell) :
    p.anchor ≠ some p.marker := by
  intro hanchor
  have hfront : ¬ p.position = .front := by
    rintro hfront
    rcases hp.position with h | ⟨-, h⟩
    · rw [h] at hfront
      cases hfront
    · rw [h] at hanchor
      cases hanchor
  have hsite := hput.site
  rw [site?, if_neg hfront, hanchor, Option.bind_some] at hsite
  have hoccurs := hput.fresh
  rw [← isSome_endOfFirst?, hsite] at hoccurs
  cases hoccurs

section
variable (h : Independent spell patches) (hp : p ∈ patches) (hq : q ∈ patches)
  (hput : p.PutAt spell l r)
include h hp hq hput

theorem Independent.clear (hm : q.Seeks spell m) : Clear m l (spell p.insertion) r := by
  obtain ⟨-, hspares, hhead, hlast⟩ := h.passes p hp q hq m hm
  refine ⟨hput.cut m hspares, notAcross_of_head ?_, notAcross_of_getLast hlast⟩
  rw [List.head?_append_of_ne_nil _ (h.additive p hp).inserts]
  exact hhead

/-- A patch makes its own marker, once, and no other one. -/
theorem Independent.occurrences_put :
    occurrences (spell q.marker) (l ++ spell p.insertion ++ r) =
      occurrences (spell q.marker) (l ++ r) + if p = q then 1 else 0 := by
  have hm : q.Seeks spell (spell q.marker) := .inl rfl
  rw [occurrences_insert (h.passes p hp q hq _ hm).1 (h.clear hp hq hput hm), h.markers p hp q hq]

theorem Independent.occursIn_put :
    occursIn (spell q.marker) (l ++ spell p.insertion ++ r) = true ↔
      occursIn (spell q.marker) (l ++ r) = true ∨ p = q := by
  rw [occursIn_iff_occurrences, occursIn_iff_occurrences, h.occurrences_put hp hq hput]
  split
  · next heq => exact iff_of_true (Nat.succ_pos _) (.inr heq)
  · next hne => rw [Nat.add_zero, or_iff_left hne]

/-- A patch moves the places of all. -/
theorem Independent.site?_put : q.site? spell (l ++ spell p.insertion ++ r) =
    (q.site? spell (l ++ r)).map (moved l.length (spell p.insertion).length) := by
  unfold site?
  split
  · exact congrArg some (if_pos (Nat.zero_le _)).symm
  · rcases hanchor : q.anchor with _ | anchor
    · rfl
    · have hm : q.Seeks spell (spell anchor) := .inr ⟨anchor, hanchor, rfl⟩
      rw [Option.bind_some, Option.bind_some]
      exact endOfFirst?_insert (h.passes p hp q hq _ hm).1 (h.clear hp hq hput hm)
        (h.anchors p hp (hput.anchor_ne (h.additive p hp)) q hq anchor hanchor)

end

/-! ## All patches -/

/-- Whether a patch puts its insertion at a place of a text. -/
def waits (spell : String → List α) (text : List α) (i : Nat) (p : Patch) : Bool :=
  !occursIn (spell p.marker) text && decide (p.site? spell text = some i)

/-- The patches that put their insertions at a place of a text, each of them once, in order of first
appearance. -/
def pending (spell : String → List α) (patches : List Patch) (text : List α) (i : Nat) :
    List Patch :=
  (patches.filter (waits spell text i)).eraseDups

/-- What patches put in at a place of a text. -/
def putIn (spell : String → List α) (patches : List Patch) (text : List α) (i : Nat) : List α :=
  (pending spell patches text i).reverse.flatMap fun p => spell p.insertion

/-- Whether a patch can be applied to a text, or was. -/
def Applicable (spell : String → List α) (text : List α) (p : Patch) : Prop :=
  occursIn (spell p.marker) text = true ∨ (p.site? spell text).isSome = true

theorem Independent.tail (h : Independent spell (p :: rest)) : Independent spell rest :=
  ⟨fun a ha => h.additive a (List.mem_cons_of_mem p ha),
    fun a ha b hb => h.passes a (List.mem_cons_of_mem p ha) b (List.mem_cons_of_mem p hb),
    fun a ha b hb => h.markers a (List.mem_cons_of_mem p ha) b (List.mem_cons_of_mem p hb),
    fun a ha hne b hb => h.anchors a (List.mem_cons_of_mem p ha) hne b (List.mem_cons_of_mem p hb)⟩

section
variable (h : Independent spell (p :: rest)) (hput : p.PutAt spell l r)
include h hput

theorem Independent.applicable_put :
    (∀ q ∈ rest, Applicable spell (l ++ spell p.insertion ++ r) q) ↔
      ∀ q ∈ p :: rest, Applicable spell (l ++ r) q := by
  have hp : p.site? spell (l ++ r) = some l.length := hput.site
  have hstep : ∀ q ∈ rest, (Applicable spell (l ++ spell p.insertion ++ r) q ↔
      Applicable spell (l ++ r) q) := by
    intro q hq
    have hq' : q ∈ p :: rest := List.mem_cons_of_mem p hq
    unfold Applicable
    rw [h.occursIn_put List.mem_cons_self hq' hput, h.site?_put List.mem_cons_self hq' hput,
      Option.isSome_map]
    constructor
    · rintro ((hoccurs | rfl) | hsite)
      · exact .inl hoccurs
      · exact .inr (by rw [hp]; rfl)
      · exact .inr hsite
    · rintro (hoccurs | hsite)
      · exact .inl (.inl hoccurs)
      · exact .inr hsite
  rw [List.forall_mem_cons]
  constructor
  · exact fun hall => ⟨.inr (by rw [hp]; rfl), fun q hq => (hstep q hq).1 (hall q hq)⟩
  · exact fun hall q hq => (hstep q hq).2 (hall.2 q hq)

/-- Which later patches put their insertions at a place is known beforehand. -/
theorem Independent.waits_put {i j : Nat} (hq : q ∈ rest)
    (hij : ∀ k, moved l.length (spell p.insertion).length k = j ↔ k = i) :
    waits spell (l ++ spell p.insertion ++ r) j q =
      (!(q == p) && waits spell (l ++ r) i q) := by
  have hq' : q ∈ p :: rest := List.mem_cons_of_mem p hq
  have hoccurs := h.occursIn_put List.mem_cons_self hq' hput
  have hsite := h.site?_put List.mem_cons_self hq' hput
  unfold waits
  by_cases heq : q = p
  · rw [hoccurs.2 (.inr heq.symm), heq, beq_self_eq_true]
    rfl
  · rw [or_iff_left (Ne.symm heq), ← Bool.eq_iff_iff] at hoccurs
    rw [hoccurs, hsite, beq_false_of_ne heq, Bool.not_false, Bool.true_and]
    refine congrArg _ (decide_eq_decide.2 ?_)
    rw [Option.map_eq_some_iff]
    simp only [hij, exists_eq_right]

/-- **One step of the weaving.** -/
theorem Independent.weave_put :
    weave (putIn spell rest (l ++ spell p.insertion ++ r)) (l ++ spell p.insertion ++ r) =
      weave (putIn spell (p :: rest) (l ++ r)) (l ++ r) := by
  have hwaits : ∀ i, waits spell (l ++ r) i p = true ↔ i = l.length := by
    intro i
    unfold waits
    rw [hput.fresh, hput.site, Bool.not_false, Bool.true_and, decide_eq_true_eq, Option.some.injEq,
      eq_comm]
  refine weave_insert ?_ ?_ ?_
  · -- elsewhere nothing of the patch goes in
    intro i hi
    have hp : ¬ waits spell (l ++ r) i p = true := (hwaits i).not.2 hi
    unfold putIn pending
    rw [List.filter_cons_of_neg hp,
      List.filter_congr fun q hq => h.waits_put hput hq fun k => moved_eq_iff]
    refine congrArg (fun qs : List Patch => qs.eraseDups.reverse.flatMap _) ?_
    refine List.filter_congr fun q hq => ?_
    by_cases heq : q = p
    · rw [heq, eq_false_of_ne_true hp, Bool.and_false]
    · rw [beq_false_of_ne heq, Bool.not_false, Bool.true_and]
  · -- at the place of the patch its insertion comes after the later ones
    have hat : ∀ k, moved l.length (spell p.insertion).length k = l.length ↔ k = l.length := by
      intro k
      unfold moved
      split <;> omega
    unfold putIn pending
    rw [List.filter_cons_of_pos ((hwaits _).2 rfl), List.eraseDups_cons, List.filter_filter,
      List.filter_congr fun q hq => h.waits_put hput hq hat, List.reverse_cons,
      List.flatMap_append, List.flatMap_singleton]
  · -- nobody's place is inside of the insertion
    intro i hi hle
    unfold putIn pending
    rw [List.filter_eq_nil_iff.2]
    · rfl
    · intro q hq
      unfold waits
      rw [h.site?_put List.mem_cons_self (List.mem_cons_of_mem p hq) hput, Bool.and_eq_true,
        decide_eq_true_eq, Option.map_eq_some_iff]
      rintro ⟨-, k, -, hk⟩
      exact not_moved hi hle k hk

end

/-- **The closed form of independent patches.** They can be applied one after the other exactly if
each of them can be applied to the text as it is or was applied to it; then the text that comes out
is the one as it is with their insertions woven in. -/
theorem Independent.applyAll?_iff (h : Independent spell patches) :
    applyAll? spell patches text = some final ↔
      (∀ p ∈ patches, Applicable spell text p) ∧
        final = weave (putIn spell patches text) text := by
  induction patches generalizing text with
  | nil =>
    have hweave : weave (putIn spell [] text) text = text := weave_of_nil fun _ => rfl
    rw [applyAll?, hweave, Option.some.injEq, eq_comm]
    exact (and_iff_right fun p hp => absurd hp List.not_mem_nil).symm
  | cons p rest ih =>
    rw [applyAll?]
    rcases (h.additive p List.mem_cons_self).apply_cases text with
      ⟨hoccurs, hp⟩ | ⟨hoccurs, hsite, hp⟩ | ⟨l, r, hput, rfl, hp⟩ <;> rw [hp] <;> dsimp only
    · have hputIn : putIn spell (p :: rest) text = putIn spell rest text := by
        funext i
        unfold putIn pending
        rw [List.filter_cons_of_neg (by simp [waits, hoccurs])]
      have happlicable : Applicable spell text p := .inl hoccurs
      rw [ih h.tail, hputIn, List.forall_mem_cons, and_iff_right happlicable]
    · refine iff_of_false (fun hnone => by cases hnone) fun hall => ?_
      rcases hall.1 p List.mem_cons_self with h' | h'
      · rw [hoccurs] at h'
        cases h'
      · rw [hsite] at h'
        cases h'
    · rw [ih h.tail, h.applicable_put hput, h.weave_put hput]

/-- What a marker comes to: it is there once more if a patch had to make it. -/
theorem Independent.occurrences_applyAll? (h : Independent spell patches) (hrest : rest ⊆ patches)
    (hq : q ∈ patches) (happly : applyAll? spell rest text = some final) :
    occurrences (spell q.marker) final = occurrences (spell q.marker) text +
      if q ∈ rest ∧ occursIn (spell q.marker) text = false then 1 else 0 := by
  induction rest generalizing text with
  | nil =>
    obtain rfl := Option.some.inj happly
    simp
  | cons p rest ih =>
    have hp : p ∈ patches := hrest List.mem_cons_self
    rw [applyAll?] at happly
    rcases (h.additive p hp).apply_cases text with
      ⟨hoccurs, hpresent⟩ | ⟨-, -, hmissing⟩ | ⟨l, r, hput, rfl, hdone⟩
    · rw [hpresent] at happly
      rw [ih (fun a ha => hrest (List.mem_cons_of_mem p ha)) happly]
      by_cases heq : q = p
      · subst heq
        simp [hoccurs]
      · simp [heq]
    · rw [hmissing] at happly
      cases happly
    · rw [hdone] at happly
      rw [ih (fun a ha => hrest (List.mem_cons_of_mem p ha)) happly,
        h.occurrences_put hp hq hput]
      have hafter := h.occursIn_put hp hq hput
      by_cases heq : p = q
      · subst heq
        rw [hafter.2 (.inr rfl), hput.fresh]
        simp
      · rw [or_iff_left heq, ← Bool.eq_iff_iff] at hafter
        simp only [hafter, if_neg heq, List.mem_cons, or_iff_right (Ne.symm heq), Nat.add_zero]

end CrossBuild.Patch
