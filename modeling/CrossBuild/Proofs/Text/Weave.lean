import CrossBuild.Text.Splice
import Mathlib.Data.List.Basic

/-!
# Putting texts into a text

Texts are woven into a list at places that are counted in the list as it was. Texts that are put in
one after the other come to the same as long as none of them makes or breaks an occurrence of what
the places of the others go by: then every such place moves by what was put in before it, and
nothing else happens to it.
-/

namespace CrossBuild.Splice

variable {α : Type} {m s l r new : List α} {k n i : Nat}

/-! ## Seams -/

/-- `m` does not stand across the seam of `l` and `r`, with something of it on either side. -/
def NotAcross (m l r : List α) : Prop :=
  ∀ x y, m = x ++ y → x ≠ [] → y ≠ [] → x <:+ l → ¬ y <+: r

theorem notAcross_nil (m r : List α) : NotAcross m [] r :=
  fun _ _ _ hx _ hxl => absurd (List.suffix_nil.1 hxl) hx

/-- What begins with something that `m` has at its front alone is not reached by `m`. -/
theorem notAcross_of_head (h : ∀ a ∈ r.head?, a ∉ m.tail) : NotAcross m l r := by
  rintro x y rfl hx hy - hyr
  obtain ⟨a, y, rfl⟩ := List.exists_cons_of_ne_nil hy
  obtain ⟨t, rfl⟩ := hyr
  refine h a rfl ?_
  rw [List.tail_append_of_ne_nil hx]
  exact List.mem_append_right _ List.mem_cons_self

/-- What ends in something that `m` has at its end alone is not left by `m`. -/
theorem notAcross_of_getLast (h : ∀ a ∈ l.getLast?, a ∉ m.dropLast) : NotAcross m l r := by
  rintro x y rfl hx hy hxl -
  refine h (x.getLast hx) ?_ ?_
  · obtain ⟨t, rfl⟩ := hxl
    rw [List.getLast?_append_of_ne_nil t hx, List.getLast?_eq_some_getLast hx]
    rfl
  · rw [List.dropLast_append_of_ne_nil hy]
    exact List.mem_append_left _ (List.getLast_mem hx)

theorem NotAcross.tail {a : α} (h : NotAcross m (a :: l) r) : NotAcross m l r :=
  fun x y hm hx hy hxl => h x y hm hx hy (hxl.trans (List.suffix_cons a l))

theorem NotAcross.prefix_iff {a : α} (h : NotAcross m (a :: l) r) :
    m <+: a :: (l ++ r) ↔ m <+: a :: l := by
  constructor
  · rintro ⟨t, ht⟩
    rcases List.append_eq_append_iff.1 (ht.trans List.cons_append.symm) with
      ⟨u, hu, -⟩ | ⟨u, hu, hr⟩
    · exact ⟨u, hu.symm⟩
    · by_cases hnil : u = []
      · have hm : m = a :: l := by rw [hu, hnil, List.append_nil]
        exact ⟨[], by rw [hm, List.append_nil]⟩
      · exact absurd ⟨t, hr.symm⟩ (h _ u hu (List.cons_ne_nil a l) hnil (List.suffix_refl _))
  · rintro ⟨t, ht⟩
    exact ⟨t ++ r, by rw [← List.append_assoc, ht, List.cons_append]⟩

/-- Putting `new` between `l` and `r` neither makes nor breaks an occurrence of `m`, unless inside
of `new`. -/
structure Clear (m l new r : List α) : Prop where
  cut : NotAcross m l r
  front : NotAcross m l (new ++ r)
  back : NotAcross m new r

variable [DecidableEq α]

/-! ## Occurrences -/

/-- How often `pattern` occurs. -/
def occurrences (pattern : List α) : List α → Nat
  | [] => if pattern.isEmpty then 1 else 0
  | a :: s => (if pattern.isPrefixOf (a :: s) then 1 else 0) + occurrences pattern s

theorem occurrences_append (hm : m ≠ []) (h : NotAcross m l r) :
    occurrences m (l ++ r) = occurrences m l + occurrences m r := by
  induction l with
  | nil => simp [occurrences, hm]
  | cons a l ih =>
    have hprefix := h.prefix_iff
    rw [← List.isPrefixOf_iff_prefix, ← List.isPrefixOf_iff_prefix, ← Bool.eq_iff_iff] at hprefix
    rw [List.cons_append, occurrences, occurrences, ih h.tail, hprefix, Nat.add_assoc]

theorem occurrences_insert (hm : m ≠ []) (h : Clear m l new r) :
    occurrences m (l ++ new ++ r) = occurrences m (l ++ r) + occurrences m new := by
  rw [List.append_assoc, occurrences_append hm h.front, occurrences_append hm h.back,
    occurrences_append hm h.cut]
  omega

theorem occursIn_iff_occurrences : occursIn m s = true ↔ 0 < occurrences m s := by
  unfold occursIn
  induction s with
  | nil => cases m <;> simp [splitFirst?, occurrences]
  | cons a s ih =>
    rw [splitFirst?, occurrences]
    split
    · exact iff_of_true rfl (Nat.add_pos_left Nat.zero_lt_one _)
    · rw [Option.isSome_map, ih, Nat.zero_add]

theorem occurrences_eq_zero (h : ¬ occursIn m s = true) : occurrences m s = 0 := by
  rw [occursIn_iff_occurrences] at h
  omega

/-- Nothing occurs twice in itself. -/
theorem occurrences_self (hm : m ≠ []) : occurrences m m = 1 := by
  have hshort : ∀ s : List α, s.length < m.length → occurrences m s = 0 := by
    refine fun s hs => occurrences_eq_zero fun h => ?_
    obtain ⟨before, after, rfl⟩ := occursIn_iff.1 h
    simp only [List.length_append] at hs
    omega
  obtain ⟨a, t, rfl⟩ := List.exists_cons_of_ne_nil hm
  rw [occurrences, if_pos (List.isPrefixOf_iff_prefix.2 (List.prefix_refl _)),
    hshort t (Nat.lt_succ_self _)]

/-- What stands in front of a list and does not hold the first element of `m` has nothing to do with
the occurrences of `m`. -/
theorem occurrences_lead {c : α} (hm : m.head? = some c) (hc : c ∉ l) :
    occurrences m (l ++ s) = occurrences m s := by
  obtain ⟨t, rfl⟩ : ∃ t, m = c :: t := List.head?_eq_some_iff.1 hm
  have hacross : NotAcross (c :: t) l s := by
    rintro x y hxy hx - hxl -
    obtain ⟨a, x, rfl⟩ := List.exists_cons_of_ne_nil hx
    rw [(List.cons.inj hxy).1] at hc
    exact hc (hxl.subset List.mem_cons_self)
  have hzero : occurrences (c :: t) l = 0 := by
    refine occurrences_eq_zero fun h => hc ?_
    obtain ⟨before, after, rfl⟩ := occursIn_iff.1 h
    simp
  rw [occurrences_append (List.cons_ne_nil c t) hacross, hzero, Nat.zero_add]

/-! ## The first occurrence -/

/-- Where the first occurrence of `pattern` ends. -/
def endOfFirst? (pattern s : List α) : Option Nat :=
  (splitFirst? pattern s).map fun e => e.1.length + pattern.length

/-- Where a place is after `n` elements were put in at `k`; the place `k` itself is in front of
them. -/
def moved (k n i : Nat) : Nat :=
  if i ≤ k then i else i + n

theorem moved_succ : moved (k + 1) n (i + 1) = moved k n i + 1 := by
  unfold moved
  split <;> split <;> omega

theorem moved_eq_iff {j : Nat} : moved k n i = moved k n j ↔ i = j := by
  unfold moved
  split <;> split <;> omega

theorem not_moved (h : k < i) (hn : i ≤ k + n) (j : Nat) : moved k n j ≠ i := by
  unfold moved
  split <;> omega

theorem isSome_endOfFirst? : (endOfFirst? m s).isSome = occursIn m s :=
  Option.isSome_map

theorem endOfFirst?_cons (a : α) : endOfFirst? m (a :: s) =
    if m.isPrefixOf (a :: s) then some m.length else (endOfFirst? m s).map (· + 1) := by
  unfold endOfFirst?
  rw [splitFirst?]
  split
  · exact congrArg some (Nat.zero_add _)
  · rw [Option.map_map, Option.map_map]
    refine congrArg (Option.map · _) (funext fun e => ?_)
    exact Nat.add_right_comm _ 1 _

/-- The list is cut at the place: what stands before it ends in the pattern. -/
theorem exists_of_endOfFirst? (h : endOfFirst? m s = some k) : ∃ before after,
    splitFirst? m s = some (before, after) ∧ s = before ++ m ++ after ∧
      k = (before ++ m).length := by
  obtain ⟨⟨before, after⟩, hsplit, rfl⟩ := Option.map_eq_some_iff.1 h
  exact ⟨before, after, hsplit, eq_append_of_splitFirst? hsplit, List.length_append.symm⟩

/-- What ends at one place ends in one element. -/
theorem getLast?_of_endOfFirst? {m' : List α} (h : endOfFirst? m s = some i)
    (h' : endOfFirst? m' s = some i) (hm : m ≠ []) (hm' : m' ≠ []) :
    m.getLast? = m'.getLast? := by
  obtain ⟨before, after, -, hs, hi⟩ := exists_of_endOfFirst? h
  obtain ⟨before', after', -, hs', hi'⟩ := exists_of_endOfFirst? h'
  rw [hs] at hs'
  have hfronts := (List.append_inj hs' (hi.symm.trans hi')).1
  rw [← List.getLast?_append_of_ne_nil before hm, hfronts,
    List.getLast?_append_of_ne_nil before' hm']

theorem endOfFirst?_append (hm : m ≠ []) (h : NotAcross m l r) :
    endOfFirst? m (l ++ r) =
      (endOfFirst? m l).or ((endOfFirst? m r).map (l.length + ·)) := by
  induction l with
  | nil =>
    have hnil : endOfFirst? m ([] : List α) = none := by simp [endOfFirst?, splitFirst?, hm]
    rw [hnil, Option.none_or, List.nil_append, List.length_nil]
    simp
  | cons a l ih =>
    have hprefix := h.prefix_iff
    rw [← List.isPrefixOf_iff_prefix, ← List.isPrefixOf_iff_prefix, ← Bool.eq_iff_iff] at hprefix
    rw [List.cons_append, endOfFirst?_cons, endOfFirst?_cons, ih h.tail, hprefix]
    split
    · rfl
    · rw [Option.map_or, Option.map_map]
      refine congrArg (fun e => Option.or _ (Option.map e _)) (funext fun j => ?_)
      exact Nat.add_right_comm _ j 1

/-- A place moves by what is put in before it. -/
theorem endOfFirst?_insert (hm : m ≠ []) (h : Clear m l new r) (hnew : ¬ occursIn m new = true) :
    endOfFirst? m (l ++ new ++ r) =
      (endOfFirst? m (l ++ r)).map (moved l.length new.length) := by
  have hnone : endOfFirst? m new = none := by
    rw [← isSome_endOfFirst?] at hnew
    exact Option.not_isSome_iff_eq_none.1 hnew
  rw [List.append_assoc, endOfFirst?_append hm h.front, endOfFirst?_append hm h.back, hnone,
    endOfFirst?_append hm h.cut, Option.none_or, Option.map_or, Option.map_map, Option.map_map]
  rcases hl : endOfFirst? m l with _ | k
  · rcases hr : endOfFirst? m r with _ | k
    · rfl
    · obtain ⟨before, after, -, -, rfl⟩ := exists_of_endOfFirst? hr
      have hlength := List.length_pos_iff.2 hm
      simp only [Option.map_some, Option.map_none, Option.none_or, Function.comp_apply, moved,
        List.length_append, Option.some.injEq]
      split <;> omega
  · obtain ⟨before, after, -, rfl, rfl⟩ := exists_of_endOfFirst? hl
    have hle : (before ++ m).length ≤ (before ++ m ++ after).length :=
      (List.prefix_append (before ++ m) after).length_le
    simp only [Option.map_some, Option.some_or, moved, if_pos hle]

/-! ## Weaving -/

omit [DecidableEq α]

/-- The list with `putIn i` in front of its `i`-th element, and at its end for the length. -/
def weave (putIn : Nat → List α) : List α → List α
  | [] => putIn 0
  | a :: s => putIn 0 ++ a :: weave (fun i => putIn (i + 1)) s

variable {putIn later : Nat → List α}

theorem weave_congr (h : ∀ i, putIn i = later i) : weave putIn s = weave later s := by
  rw [funext h]

theorem weave_of_nil (h : ∀ i, putIn i = []) : weave putIn s = s := by
  induction s generalizing putIn with
  | nil => exact h 0
  | cons a s ih => rw [weave, h 0, ih fun i => h (i + 1), List.nil_append]

/-- What is put in at the very front. -/
theorem weave_eq_append (h : ∀ i, later (i + 1) = putIn (i + 1)) (hfront : later 0 = []) :
    weave putIn s = putIn 0 ++ weave later s := by
  cases s with
  | nil => rw [weave, weave, hfront, List.append_nil]
  | cons a s => rw [weave, weave, hfront, List.nil_append, weave_congr h]

/-- A front into which nothing is put. -/
theorem weave_append (h : ∀ i < l.length, putIn i = []) :
    weave putIn (l ++ s) = l ++ weave (fun i => putIn (l.length + i)) s := by
  induction l generalizing putIn with
  | nil => exact weave_congr fun i => congrArg putIn (Nat.zero_add i).symm
  | cons a l ih =>
    rw [List.cons_append, weave, h 0 (Nat.zero_lt_succ _), List.nil_append,
      ih fun i hi => h (i + 1) (Nat.succ_lt_succ hi), List.cons_append]
    refine congrArg (fun t => a :: (l ++ t)) (weave_congr fun i => congrArg putIn ?_)
    exact Nat.add_right_comm _ i 1

/-- Something put in at the very front. -/
theorem weave_insert_front (hother : ∀ i, i ≠ 0 → later (new.length + i) = putIn i)
    (hplace : putIn 0 = later 0 ++ new)
    (hnew : ∀ i, 0 < i → i ≤ new.length → later i = []) :
    weave later (new ++ s) = weave putIn s := by
  let quiet : Nat → List α := fun i => if i = 0 then [] else later i
  have hquiet : ∀ i ≤ new.length, quiet i = [] := by
    intro i hi
    dsimp only [quiet]
    split
    · rfl
    · next h => exact hnew i (Nat.pos_of_ne_zero h) hi
  have hrest : ∀ i, quiet (new.length + (i + 1)) = putIn (i + 1) := by
    intro i
    rw [← hother (i + 1) (Nat.succ_ne_zero i)]
    exact if_neg (Nat.succ_ne_zero _)
  calc weave later (new ++ s) = later 0 ++ weave quiet (new ++ s) :=
        weave_eq_append (fun i => if_neg (Nat.succ_ne_zero i)) (if_pos rfl)
    _ = later 0 ++ (new ++ weave (fun i => quiet (new.length + i)) s) := by
        rw [weave_append fun i hi => hquiet i (Nat.le_of_lt hi)]
    _ = putIn 0 ++ weave (fun i => quiet (new.length + i)) s := by
        rw [hplace, List.append_assoc]
    _ = weave putIn s := by
        refine (weave_eq_append hrest ?_).symm
        exact hquiet _ (Nat.le_refl _)

/-- **Weaving after something was put in** comes to weaving it in as well, behind what is put in
later at the same place. -/
theorem weave_insert (hother : ∀ i, i ≠ l.length → later (moved l.length new.length i) = putIn i)
    (hplace : putIn l.length = later l.length ++ new)
    (hnew : ∀ i, l.length < i → i ≤ l.length + new.length → later i = []) :
    weave later (l ++ new ++ r) = weave putIn (l ++ r) := by
  induction l generalizing putIn later with
  | nil =>
    refine weave_insert_front (fun i hi => ?_) hplace fun i hi hle => hnew i hi (by simpa using hle)
    rw [← hother i hi, moved, List.length_nil, if_neg (by omega), Nat.add_comm]
    rfl
  | cons a l ih =>
    rw [List.length_cons] at hother hplace hnew
    rw [List.cons_append, List.cons_append, List.cons_append, weave, weave]
    have hzero : later 0 = putIn 0 := hother 0 (Nat.succ_ne_zero _).symm
    rw [hzero, ih]
    · intro i hi
      rw [← hother (i + 1) (by omega), moved_succ]
    · exact hplace
    · exact fun i hi hle => hnew (i + 1) (by omega) (by omega)

end CrossBuild.Splice
