import CrossBuild.Path.Lexical
import CrossBuild.Proofs.FileSystem.Names
import Mathlib.Data.List.TakeWhile

/-!
# Where shortened paths lead

A shortened path goes up first and down after that. Texts that differ in their ending alone, such as
an import and its variant for a family, are shortened to paths that differ in their last part alone;
or to the same path, if a null character comes before the ending.
-/

namespace CrossBuild

open Text

namespace Text

variable {sep : Char} {p : Char → Bool}

/-- An ending without separators becomes a part of the last part. -/
theorem splitAt_append_ending (sep : Char) (s : List Char) :
    ∃ front last, ∀ t, sep ∉ t → splitAt sep (s ++ t) = front ++ [last ++ t] := by
  induction s with
  | nil => exact ⟨[], [], fun t ht => splitAt_eq_singleton sep ht⟩
  | cons c s ih =>
    obtain ⟨front, last, h⟩ := ih
    by_cases hc : c = sep
    · refine ⟨[] :: front, last, fun t ht => ?_⟩
      rw [List.cons_append, splitAt, if_pos hc, h t ht, List.cons_append]
    · cases front with
      | nil =>
        refine ⟨[], c :: last, fun t ht => ?_⟩
        rw [List.cons_append, splitAt, if_neg hc, h t ht]
        rfl
      | cons part front =>
        refine ⟨(c :: part) :: front, last, fun t ht => ?_⟩
        rw [List.cons_append, splitAt, if_neg hc, h t ht]
        rfl

theorem joinWith_cons {parts : List (List Char)} (h : parts ≠ []) (part : List Char) :
    joinWith sep (part :: parts) = part ++ sep :: joinWith sep parts := by
  cases parts with
  | nil => exact absurd rfl h
  | cons b parts => rfl

theorem joinWith_append_ending (front : List (List Char)) (last t : List Char) :
    joinWith sep (front ++ [last ++ t]) = joinWith sep (front ++ [last]) ++ t := by
  induction front with
  | nil => rfl
  | cons part front ih =>
    rw [List.cons_append, List.cons_append, joinWith_cons (by simp), joinWith_cons (by simp), ih]
    simp

/-- What is taken of joined parts is some first parts and the beginning of the next one. -/
theorem takeWhile_joinWith (hsep : p sep = true) {parts : List (List Char)} (hne : parts ≠ []) :
    ∃ front last, front ++ [last] <+: parts ∧
      (joinWith sep parts).takeWhile p = joinWith sep (front ++ [last.takeWhile p]) := by
  induction parts with
  | nil => exact absurd rfl hne
  | cons part parts ih =>
    by_cases hall : ∀ c ∈ part, p c = true
    · by_cases hnil : parts = []
      · subst hnil
        exact ⟨[], part, List.prefix_refl _, rfl⟩
      · obtain ⟨front, last, hfirst, htake⟩ := ih hnil
        refine ⟨part :: front, last, List.cons_prefix_cons.2 ⟨rfl, hfirst⟩, ?_⟩
        rw [joinWith_cons hnil, List.takeWhile_append_of_pos hall, List.takeWhile_cons, if_pos hsep, htake,
          List.cons_append, joinWith_cons (by simp)]
    · refine ⟨[], part, List.cons_prefix_cons.2 ⟨rfl, List.nil_prefix⟩, ?_⟩
      have htake : ∀ rest, (part ++ rest).takeWhile p = part.takeWhile p := by
        intro rest
        rw [List.takeWhile_append, if_neg]
        intro hlength
        exact hall (List.takeWhile_eq_self_iff.1 ((List.takeWhile_prefix p).eq_of_length hlength))
      by_cases hnil : parts = []
      · rw [hnil]
        rfl
      · rw [joinWith_cons hnil, htake]
        rfl

theorem mem_joinWith {c : Char} {parts : List (List Char)} (h : c ∈ joinWith sep parts) :
    c = sep ∨ ∃ part ∈ parts, c ∈ part := by
  induction parts with
  | nil => cases h
  | cons part parts ih =>
    by_cases hnil : parts = []
    · subst hnil
      exact .inr ⟨part, by simp, h⟩
    · rw [joinWith_cons hnil, List.mem_append, List.mem_cons] at h
      rcases h with h | rfl | h
      · exact .inr ⟨part, by simp, h⟩
      · exact .inl rfl
      · obtain hsep | ⟨part', hpart', hc⟩ := ih h
        · exact .inl hsep
        · exact .inr ⟨part', by simp [hpart'], hc⟩

theorem head?_joinWith_ne {parts : List (List Char)} (hsep : ∀ part ∈ parts, sep ∉ part)
    (hne : ∀ part ∈ parts.dropLast, part ≠ []) : (joinWith sep parts).head? ≠ some sep := by
  have hpart : ∀ part : List Char, sep ∉ part → part.head? ≠ some sep := fun part h heq =>
    h (List.mem_of_mem_head? heq)
  match parts with
  | [] => simp [joinWith]
  | [part] => exact hpart part (hsep part (by simp))
  | part :: b :: parts =>
    have hfirst := hne part (by simp)
    rw [joinWith_cons_cons]
    rw [List.head?_append, List.head?_eq_some_head hfirst, Option.some_or, ← List.head?_eq_some_head hfirst]
    exact hpart part (hsep part (by simp))

end Text

namespace Lexical

variable {absolute : Bool} {done parts : List (List Char)} {part : List Char}

/-! ## Up and down -/

/-- Parts that go up first and down after that; from the root they go down alone. -/
def Climbs (absolute : Bool) (parts : List (List Char)) : Prop :=
  ∃ up down, parts = List.replicate up ['.', '.'] ++ down ∧ (absolute = true → up = 0) ∧
    ∀ part ∈ down, part ≠ [] ∧ part ≠ ['.'] ∧ part ≠ ['.', '.']

theorem climbs_step (h : Climbs absolute done.reverse) (part : List Char) :
    Climbs absolute (step absolute done part).reverse := by
  unfold step
  split
  · exact h
  · next hvoid =>
    obtain ⟨up, down, hdone, habsolute, hdown⟩ := h
    rw [not_or] at hvoid
    split
    · next hdots =>
      subst hdots
      cases done with
      | nil =>
        cases absolute with
        | true => exact ⟨0, [], rfl, fun _ => rfl, fun part hpart => by cases hpart⟩
        | false => exact ⟨1, [], rfl, fun h => (by cases h), fun part hpart => by cases hpart⟩
      | cons last before =>
        rw [List.reverse_cons] at hdone
        rcases List.eq_nil_or_concat down with rfl | ⟨init, x, rfl⟩
        · -- it goes up still, and goes up once more
          rw [List.append_nil] at hdone
          cases up with
          | zero => simp at hdone
          | succ up =>
            have hlast : last = ['.', '.'] := by
              rw [List.replicate_succ'] at hdone
              exact (List.cons.inj (List.append_inj' hdone rfl).2).1
            dsimp only
            rw [if_pos hlast, List.reverse_cons, List.reverse_cons, hdone]
            refine ⟨up + 2, [], ?_, fun h => ?_, fun part hpart => by cases hpart⟩
            · rw [List.append_nil, List.replicate_succ' (n := up + 1)]
            · cases habsolute h
        · rw [List.concat_eq_append, ← List.append_assoc] at hdone
          obtain ⟨hbefore, hlast⟩ := List.append_inj' hdone rfl
          obtain rfl := (List.cons.inj hlast).1
          dsimp only
          rw [if_neg (hdown last (by simp)).2.2]
          refine ⟨up, init, hbefore, habsolute, fun part hpart => hdown part (by simp [hpart])⟩
    · next hdots =>
      rw [List.reverse_cons, hdone, List.append_assoc]
      refine ⟨up, down ++ [part], rfl, habsolute, fun x hx => ?_⟩
      rcases List.mem_append.1 hx with hx | hx
      · exact hdown x hx
      · rw [List.mem_singleton.1 hx]
        exact ⟨hvoid.1, hvoid.2, hdots⟩

theorem climbs_foldl (parts : List (List Char)) (h : Climbs absolute done.reverse) :
    Climbs absolute (parts.foldl (step absolute) done).reverse := by
  induction parts generalizing done with
  | nil => exact h
  | cons part parts ih => exact ih (climbs_step h part)

theorem mem_step {x : List Char} (h : x ∈ step absolute done part) : x ∈ done ∨ x = part := by
  unfold step at h
  split at h
  · exact .inl h
  split at h
  · cases done with
    | nil =>
      cases absolute with
      | true => cases h
      | false => exact .inr (List.mem_singleton.1 h)
    | cons last before =>
      dsimp only at h
      split at h
      · exact (List.mem_cons.1 h).symm
      · exact .inl (List.mem_cons_of_mem _ h)
  · exact (List.mem_cons.1 h).symm

theorem mem_foldl_step {x : List Char} (h : x ∈ parts.foldl (step absolute) done) :
    x ∈ done ∨ x ∈ parts := by
  induction parts generalizing done with
  | nil => exact .inl h
  | cons part parts ih =>
    rcases ih h with h | h
    · rcases mem_step h with h | rfl
      · exact .inl h
      · exact .inr List.mem_cons_self
    · exact .inr (List.mem_cons_of_mem _ h)

theorem Climbs.of_prefix {parts' : List (List Char)} (h : Climbs absolute parts)
    (hfirst : parts' <+: parts) : Climbs absolute parts' := by
  obtain ⟨up, down, rfl, habsolute, hdown⟩ := h
  rw [List.prefix_iff_eq_take.1 hfirst, List.take_append, List.take_replicate]
  refine ⟨_, _, rfl, fun h => ?_, fun part hpart => hdown part (List.mem_of_mem_take hpart)⟩
  rw [habsolute h, Nat.min_zero]

theorem Climbs.ne_void (h : Climbs absolute parts) :
    ∀ part ∈ parts, part ≠ [] ∧ Path.isVoid (String.ofList part) = false := by
  obtain ⟨up, down, rfl, -, hdown⟩ := h
  intro part hpart
  have hvoid : part ≠ [] → part ≠ ['.'] → Path.isVoid (String.ofList part) = false := by
    intro hnil hdot
    unfold Path.isVoid
    rw [Bool.or_eq_false_iff, beq_eq_false_iff_ne, beq_eq_false_iff_ne]
    exact ⟨fun h => hnil (String.ofList_injective h), fun h => hdot (String.ofList_injective h)⟩
  rcases List.mem_append.1 hpart with hpart | hpart
  · rw [List.eq_of_mem_replicate hpart]
    exact ⟨by simp, by rfl⟩
  · obtain ⟨hnil, hdot, -⟩ := hdown part hpart
    exact ⟨hnil, hvoid hnil hdot⟩

/-! ## Reading a shortened path -/

/-- How a path begins is seen from where its first slashes are. -/
theorem leading_eq (s : List Char) : leading s =
    if s[0]? = some '/' then if s[1]? = some '/' ∧ s[2]? ≠ some '/' then ['/', '/'] else ['/']
    else [] := by
  match s with
  | [] => rfl
  | [a] => by_cases ha : a = '/' <;> simp [leading, ha]
  | [a, b] => by_cases ha : a = '/' <;> by_cases hb : b = '/' <;> simp [leading, ha, hb]
  | a :: b :: c :: s =>
    by_cases ha : a = '/' <;> by_cases hb : b = '/' <;> by_cases hc : c = '/' <;>
      simp [leading, ha, hb, hc]

/-- An ending without slashes changes nothing of how a path begins. -/
theorem leading_append {s t : List Char} (h : '/' ∉ t) : leading (s ++ t) = leading s := by
  have hget : ∀ i : Nat, (s ++ t)[i]? = some '/' ↔ s[i]? = some '/' := by
    intro i
    rw [List.getElem?_append]
    split
    · exact Iff.rfl
    · next hi =>
      rw [List.getElem?_eq_none (Nat.le_of_not_lt hi)]
      exact ⟨fun heq => absurd (List.mem_of_getElem? heq) h, fun heq => by cases heq⟩
  simp only [leading_eq, hget, ne_eq]

theorem leading_cases (s : List Char) : leading s = [] ∨ leading s = ['/'] ∨ leading s = ['/', '/'] := by
  unfold leading
  split <;> simp

/-- The path that is read from joined parts after the slashes that a text begins with. -/
theorem ofString_joinWith (s : List Char) {parts : List (List Char)} (hne : parts ≠ [])
    (hslash : ∀ part ∈ parts, '/' ∉ part) (hvoid : ∀ part ∈ parts.dropLast, part ≠ []) :
    Path.ofString (String.ofList (leading s ++ joinWith '/' parts)) =
      ⟨Path.Anchor.ofText (leading s), (parts.map String.ofList).filter (!Path.isVoid ·)⟩ := by
  have hhead := head?_joinWith_ne hslash hvoid
  have hsplit := splitAt_joinWith '/' hne hslash
  unfold Path.ofString splitString
  rw [String.toList_ofList]
  rcases leading_cases s with h | h | h <;> rw [h]
  · rw [List.nil_append, Path.ofText_of_head hhead, hsplit]
    rfl
  · rw [List.singleton_append, Path.ofText_root hhead, splitAt, if_pos rfl, hsplit]
    rfl
  · have htext : Path.Anchor.ofText ('/' :: '/' :: joinWith '/' parts) = .doubleRoot := by
      cases hjoin : joinWith '/' parts with
      | nil => rfl
      | cons c rest =>
        have hc : c ≠ '/' := by
          rintro rfl
          rw [hjoin] at hhead
          exact hhead rfl
        simp [Path.Anchor.ofText, hc]
    rw [List.cons_append, List.cons_append, List.nil_append, htext, splitAt, if_pos rfl, splitAt,
      if_pos rfl, hsplit]
    rfl

/-- A text that does not say by itself where to go: it ends the last part of a path. -/
def IsEnding (t : List Char) : Prop :=
  '/' ∉ t ∧ '\x00' ∉ t ∧ 2 < t.length

end Lexical

/-- A path that goes up first and down after that; from the root it goes down alone. -/
def Path.Climbs (p : Path) : Prop :=
  ∃ up down, p.parts = List.replicate up ".." ++ down ∧ (p.isAbsolute = true → up = 0) ∧
    ∀ part ∈ down, part ≠ "." ∧ part ≠ ".."

namespace Lexical

theorem climbs_path {s : List Char} {parts : List (List Char)}
    (h : Climbs (!(leading s).isEmpty) parts) :
    Path.Climbs ⟨.ofText (leading s), parts.map String.ofList⟩ := by
  obtain ⟨up, down, rfl, habsolute, hdown⟩ := h
  refine ⟨up, down.map String.ofList, ?_, fun h => habsolute ?_, fun part hpart => ?_⟩
  · rw [List.map_append, List.map_replicate]
  · rcases leading_cases s with hs | hs | hs <;> rw [hs] at h ⊢
    · cases h
    · rfl
    · rfl
  · obtain ⟨cs, hcs, rfl⟩ := List.mem_map.1 hpart
    obtain ⟨-, hdot, hdots⟩ := hdown cs hcs
    exact ⟨fun h => hdot (String.ofList_injective h), fun h => hdots (String.ofList_injective h)⟩

/-- The path of joined parts that climb, and of one that may say nothing. -/
theorem ofString_climbs {s last : List Char} {front : List (List Char)}
    (hfront : Climbs (!(leading s).isEmpty) front) (hslash : ∀ part ∈ front ++ [last], '/' ∉ part) :
    Path.ofString (String.ofList (leading s ++ joinWith '/' (front ++ [last]))) =
      Path.below ⟨.ofText (leading s), front.map String.ofList⟩
        (if Path.isVoid (String.ofList last) then [] else [String.ofList last]) := by
  have hvoid : ∀ part ∈ (front ++ [last]).dropLast, part ≠ [] := by
    rw [List.dropLast_concat]
    exact fun part hpart => (hfront.ne_void part hpart).1
  have hkeep : (front.map String.ofList).filter (!Path.isVoid ·) = front.map String.ofList := by
    refine List.filter_eq_self.2 fun part hpart => ?_
    obtain ⟨cs, hcs, rfl⟩ := List.mem_map.1 hpart
    rw [(hfront.ne_void cs hcs).2]
    rfl
  rw [ofString_joinWith s (by simp) hslash hvoid, List.map_append, List.filter_append, hkeep]
  unfold Path.below
  congr 2
  by_cases h : Path.isVoid (String.ofList last) = true <;> simp [h]

/-- With an ending the parts of a path differ in their last one alone, and that one is longer than
double dots. -/
theorem exists_parts_append_ending (s : List Char) :
    ∃ done last, Climbs (!(leading s).isEmpty) done ∧ (∀ part ∈ done ++ [last], '/' ∉ part) ∧
      ∀ t, IsEnding t → parts (!(leading s).isEmpty) (s ++ t) = done ++ [last ++ t] := by
  obtain ⟨front, last, hsplit⟩ := splitAt_append_ending '/' s
  refine ⟨(front.foldl (step (!(leading s).isEmpty)) []).reverse, last, ?_, fun part hpart => ?_, ?_⟩
  · exact climbs_foldl front ⟨0, [], rfl, fun _ => rfl, fun part hpart => by cases hpart⟩
  · have hall : ∀ part ∈ front ++ [last], '/' ∉ part := by
      intro part hpart
      refine not_mem_of_mem_splitAt (s := s) ?_
      have := hsplit [] (by simp)
      rw [List.append_nil, List.append_nil] at this
      rwa [this]
    rcases List.mem_append.1 hpart with hpart | hpart
    · rcases mem_foldl_step (List.mem_reverse.1 hpart) with hpart | hpart
      · cases hpart
      · exact hall part (List.mem_append_left _ hpart)
    · exact hall part (List.mem_append_right _ hpart)
  · rintro t ⟨hslash, -, hlength⟩
    have hlast : 2 < (last ++ t).length := by
      rw [List.length_append]
      omega
    have hstep : ∀ done, step (!(leading s).isEmpty) done (last ++ t) = (last ++ t) :: done := by
      intro done
      unfold step
      rw [if_neg, if_neg]
      · intro h
        rw [h] at hlast
        simp at hlast
      · rintro (h | h) <;> rw [h] at hlast <;> simp at hlast
    unfold parts
    rw [hsplit t hslash, List.foldl_append, List.foldl_cons, List.foldl_nil, hstep, List.reverse_cons]

/-- **Shortened paths**: with endings of the same text they are read as the same path, or as paths
that differ in their last part alone. -/
theorem ofString_shorten (s : List Char) :
    ∃ p : Path, p.Climbs ∧
      ((∃ rest : Option String, ∀ t, IsEnding t →
          Path.ofString (String.ofList (shorten (s ++ t))) = p.below rest.toList) ∨
        ∀ t, IsEnding t → ∃ last, last ≠ "." ∧ last ≠ ".." ∧
          Path.ofString (String.ofList (shorten (s ++ t))) = p.below [last]) := by
  obtain ⟨done, last, hdone, hslash, hparts⟩ := exists_parts_append_ending s
  -- the text before the ending, with all of the path's slashes
  let short := leading s ++ joinWith '/' (done ++ [last])
  have hshorten : ∀ t, IsEnding t → Path.ofString (String.ofList (shorten (s ++ t))) =
      Path.ofString (String.ofList ((short ++ t).takeWhile (· != '\x00'))) := by
    intro t ht
    have hdot : Path.ofString (String.ofList ['.']) = Path.ofString (String.ofList []) := by decide
    have htext : leading (s ++ t) ++ joinWith '/' (parts (!(leading (s ++ t)).isEmpty) (s ++ t)) =
        short ++ t := by
      rw [leading_append ht.1, hparts t ht, joinWith_append_ending, ← List.append_assoc]
    unfold shorten
    dsimp only
    rw [htext]
    split
    · next hempty => rw [hdot, List.isEmpty_iff.1 hempty]
    · rfl
  by_cases hnul : ∀ c ∈ short, (c != '\x00') = true
  · refine ⟨⟨.ofText (leading s), done.map String.ofList⟩, climbs_path hdone, .inr fun t ht => ?_⟩
    have hlast : 2 < (last ++ t).length := by
      have := ht.2.2
      rw [List.length_append]
      omega
    have hne : ∀ part : String, part.toList.length ≤ 2 → String.ofList (last ++ t) ≠ part := by
      rintro part hpart rfl
      rw [String.toList_ofList] at hpart
      omega
    refine ⟨String.ofList (last ++ t), hne "." (by decide), hne ".." (by decide), ?_⟩
    have htake : (short ++ t).takeWhile (· != '\x00') = short ++ t := by
      refine List.takeWhile_eq_self_iff.2 fun c hc => ?_
      rcases List.mem_append.1 hc with hc | hc
      · exact hnul c hc
      · simp only [bne_iff_ne, ne_eq]
        rintro rfl
        exact ht.2.1 hc
    have hvoid : Path.isVoid (String.ofList (last ++ t)) = false := by
      unfold Path.isVoid
      rw [Bool.or_eq_false_iff, beq_eq_false_iff_ne, beq_eq_false_iff_ne]
      exact ⟨hne "" (by decide), hne "." (by decide)⟩
    rw [hshorten t ht, htake, List.append_assoc, ← joinWith_append_ending, ofString_climbs hdone, hvoid]
    · rfl
    · intro part hpart
      rcases List.mem_append.1 hpart with hpart | hpart
      · exact hslash part (List.mem_append_left _ hpart)
      · rw [List.mem_singleton.1 hpart, List.mem_append, not_or]
        exact ⟨hslash last (by simp), ht.1⟩
  · -- the path ends at the null character, which comes before the ending
    obtain ⟨front', last', hfirst, htake⟩ :=
      @takeWhile_joinWith '/' (· != '\x00') (by decide) (done ++ [last]) (by simp)
    have hfront : Climbs (!(leading s).isEmpty) front' := by
      rcases List.prefix_concat_iff.1 hfirst with heq | hfirst
      · rw [(List.append_inj' heq rfl).1]
        exact hdone
      · exact hdone.of_prefix ((List.prefix_append _ _).trans hfirst)
    have hslash' : ∀ part ∈ front' ++ [last'.takeWhile (· != '\x00')], '/' ∉ part := by
      intro part hpart
      rcases List.mem_append.1 hpart with hpart | hpart
      · exact hslash part (hfirst.subset (List.mem_append_left _ hpart))
      · rw [List.mem_singleton.1 hpart]
        intro hmem
        exact hslash last' (hfirst.subset (by simp)) ((List.takeWhile_prefix _).subset hmem)
    have hleading : ∀ c ∈ leading s, (c != '\x00') = true := by
      rcases leading_cases s with h | h | h <;> simp [h]
    refine ⟨⟨.ofText (leading s), front'.map String.ofList⟩, climbs_path hfront, .inl
      ⟨if Path.isVoid (String.ofList (last'.takeWhile (· != '\x00'))) then none
        else some (String.ofList (last'.takeWhile (· != '\x00'))), fun t ht => ?_⟩⟩
    have hcut : (short ++ t).takeWhile (· != '\x00') = short.takeWhile (· != '\x00') := by
      rw [List.takeWhile_append, if_neg]
      intro hlength
      exact hnul (List.takeWhile_eq_self_iff.1 ((List.takeWhile_prefix _).eq_of_length hlength))
    rw [hshorten t ht, hcut, List.takeWhile_append_of_pos hleading, htake, ofString_climbs hfront hslash']
    split <;> rfl

/-- An ending is joined to a path as it is. -/
theorem joinAll_append_ending (dirs : List String) (base : List Char) :
    ∃ s, ∀ t, '/' ∉ t → joinAll (dirs ++ [String.ofList (base ++ t)]) = s ++ t := by
  have hjoin : ∀ a, ∃ s, ∀ t, '/' ∉ t → join a (base ++ t) = s ++ t := by
    intro a
    have hhead : ∀ t, '/' ∉ t → ((base ++ t).head? = some '/' ↔ base.head? = some '/') := by
      intro t ht
      cases base with
      | nil => exact ⟨fun h => absurd (List.mem_of_mem_head? h) ht, fun h => by cases h⟩
      | cons c base => exact Iff.rfl
    by_cases hbase : base.head? = some '/'
    · refine ⟨base, fun t ht => ?_⟩
      unfold join
      rw [if_pos ((hhead t ht).2 hbase)]
    by_cases ha : (a.isEmpty || a.getLast? == some '/') = true
    · refine ⟨a ++ base, fun t ht => ?_⟩
      unfold join
      rw [if_neg (mt (hhead t ht).1 hbase), if_pos ha, List.append_assoc]
    · refine ⟨a ++ '/' :: base, fun t ht => ?_⟩
      unfold join
      rw [if_neg (mt (hhead t ht).1 hbase), if_neg ha, List.append_assoc, List.cons_append]
  cases dirs with
  | nil => exact ⟨base, fun t _ => String.toList_ofList⟩
  | cons first rest =>
    obtain ⟨s, hs⟩ := hjoin (joinAll (first :: rest))
    refine ⟨s, fun t ht => ?_⟩
    rw [← hs t ht, List.cons_append, joinAll, List.foldl_append, List.foldl_cons, List.foldl_nil,
      String.toList_ofList]
    rfl

/-! ## Names -/

/-- Without a null character nothing is cut from a path with an ending. -/
theorem shorten_append_ending {s t : List Char} (ht : IsEnding t) (hnul : '\x00' ∉ s ++ t) :
    shorten (s ++ t) = leading s ++ joinWith '/' (parts (!(leading s).isEmpty) (s ++ t)) := by
  have htake : ∀ c ∈ leading s ++ joinWith '/' (parts (!(leading s).isEmpty) (s ++ t)),
      (c != '\x00') = true := by
    intro c hc
    rw [bne_iff_ne]
    rintro rfl
    rcases List.mem_append.1 hc with hc | hc
    · rcases leading_cases s with h | h | h <;> rw [h] at hc <;> simp at hc
    · obtain hsep | ⟨part, hpart, hc⟩ := mem_joinWith hc
      · cases hsep
      · rcases mem_foldl_step (List.mem_reverse.1 hpart) with hpart | hpart
        · cases hpart
        · exact hnul (mem_of_mem_splitAt hpart hc)
  obtain ⟨done, last, -, -, hparts⟩ := exists_parts_append_ending s
  have hne : (leading s ++ joinWith '/' (parts (!(leading s).isEmpty) (s ++ t))).isEmpty = false := by
    have hlength := ht.2.2
    rw [hparts t ht, joinWith_append_ending, List.isEmpty_eq_false_iff]
    intro hnil
    simp only [List.append_eq_nil_iff] at hnil
    rw [hnil.2.2] at hlength
    simp at hlength
  unfold shorten
  dsimp only
  rw [leading_append ht.1, List.takeWhile_eq_self_iff.2 htake, if_neg (by simp [hne])]

/-- **The names of a path with an ending** that does not leave: the last one has the ending. -/
theorem exists_names_shorten {s t : List Char} (ht : IsEnding t) (hnul : '\x00' ∉ s ++ t)
    (hleaves : leaves (shorten (s ++ t)) = false) :
    ∃ dirs last, names (shorten (s ++ t)) = dirs ++ [String.ofList (last ++ t)] := by
  obtain ⟨done, last, hdone, hslash, hparts⟩ := exists_parts_append_ending s
  have hshort := shorten_append_ending ht hnul
  have hleading : leading s = [] := by
    rcases leading_cases s with h | h | h
    · exact h
    all_goals
      rw [hshort, h] at hleaves
      simp [leaves] at hleaves
  refine ⟨done.map String.ofList, last, ?_⟩
  have hlast : 2 < (last ++ t).length := by
    have := ht.2.2
    rw [List.length_append]
    omega
  have hsplit : splitAt '/' (joinWith '/' (done ++ [last ++ t])) = done ++ [last ++ t] := by
    refine splitAt_joinWith '/' (by simp) fun part hpart => ?_
    rcases List.mem_append.1 hpart with hpart | hpart
    · exact hslash part (List.mem_append_left _ hpart)
    · rw [List.mem_singleton.1 hpart, List.mem_append, not_or]
      exact ⟨hslash last (by simp), ht.1⟩
  have hkeep : (done ++ [last ++ t]).filter (fun part => part != [] && part != ['.']) =
      done ++ [last ++ t] := by
    refine List.filter_eq_self.2 fun part hpart => ?_
    rcases List.mem_append.1 hpart with hpart | hpart
    · obtain ⟨up, down, rfl, -, hdown⟩ := hdone
      rcases List.mem_append.1 hpart with hpart | hpart
      · rw [List.eq_of_mem_replicate hpart]
        rfl
      · obtain ⟨hnil, hdot, -⟩ := hdown part hpart
        simp [hnil, hdot]
    · rw [List.mem_singleton.1 hpart, Bool.and_eq_true, bne_iff_ne, bne_iff_ne]
      constructor <;> intro h <;> rw [h] at hlast <;> simp at hlast
  unfold names
  rw [hshort, hparts t ht, hleading, List.nil_append, hsplit, hkeep, List.map_append]
  rfl

/-- A path that can be gone on from with a slash. -/
def Continues (path : List Char) : Prop :=
  path ≠ [] ∧ path.getLast? ≠ some '/'

theorem continues_append_part (path : List Char) {name : String} (h : IsPart name) :
    Continues (path ++ name.toList) := by
  have hne : name.toList ≠ [] := fun hnil => h.1 (String.toList_eq_nil_iff.1 hnil)
  refine ⟨List.append_ne_nil_of_right_ne_nil _ hne, ?_⟩
  rw [List.getLast?_append, List.getLast?_eq_some_getLast hne, Option.some_or]
  exact fun hlast => h.2.1 (Option.some.inj hlast ▸ List.getLast_mem hne)

theorem foldl_join_parts {path : List Char} (hpath : Continues path) {names : List String}
    (h : ∀ n ∈ names, IsPart n) :
    names.foldl (fun path name => join path name.toList) path =
      joinWith '/' (path :: names.map String.toList) := by
  induction names generalizing path with
  | nil => rfl
  | cons name names ih =>
    have hname := h name (by simp)
    have hhead : name.toList.head? ≠ some '/' := fun hhead =>
      hname.2.1 (List.mem_of_mem_head? hhead)
    have hjoin : join path name.toList = path ++ '/' :: name.toList := by
      unfold join
      rw [if_neg hhead, if_neg (by simp [hpath.1, hpath.2])]
    have hagain : Continues (path ++ '/' :: name.toList) := by
      simpa using continues_append_part (path ++ ['/']) hname
    rw [List.foldl_cons, hjoin, ih hagain fun n hn => h n (by simp [hn]), List.map_cons,
      joinWith_cons_cons]
    cases names <;> simp [joinWith]

/-- A path along names that stand for themselves has slashes between them. -/
theorem joinAll_of_parts {names : List String} (h : ∀ n ∈ names, IsPart n) :
    joinAll names = joinWith '/' (names.map String.toList) := by
  cases names with
  | nil => rfl
  | cons first rest =>
    have hfirst : Continues first.toList := by
      simpa using continues_append_part [] (h first (by simp))
    exact foldl_join_parts hfirst fun n hn => h n (by simp [hn])

/-- The names of a path along names that stand for themselves. -/
theorem names_joinAll {path : List String} (hne : path ≠ []) (h : ∀ n ∈ path, IsPart n) :
    names (joinAll path) = path := by
  have hparts : ∀ part ∈ path.map String.toList, '/' ∉ part ∧ (part != [] && part != ['.']) = true := by
    intro part hpart
    obtain ⟨n, hn, rfl⟩ := List.mem_map.1 hpart
    obtain ⟨hempty, hslash, hdot⟩ := h n hn
    refine ⟨hslash, ?_⟩
    rw [Bool.and_eq_true, bne_iff_ne, bne_iff_ne]
    refine ⟨fun hnil => hempty (String.toList_eq_nil_iff.1 hnil), fun hone => hdot ?_⟩
    rw [← String.toList_inj, hone]
    rfl
  unfold names
  rw [joinAll_of_parts h, splitAt_joinWith '/' (by simpa using hne) fun part hpart => (hparts part hpart).1,
    List.filter_eq_self.2 fun part hpart => (hparts part hpart).2, List.map_map]
  simp

theorem ofList_joinAll {names : List String} (h : ∀ n ∈ names, IsPart n) :
    String.ofList (joinAll names) = "/".intercalate names := by
  rw [← String.toList_inj, String.toList_ofList, joinAll_of_parts h, String.toList_intercalate,
    ← intercalate_eq_joinWith]
  rfl

/-- No two ways of parts are written alike. -/
theorem eq_of_intercalate {xs ys : List String} (hxs : xs ≠ []) (hys : ys ≠ [])
    (hx : ∀ n ∈ xs, IsPart n) (hy : ∀ n ∈ ys, IsPart n)
    (h : "/".intercalate xs = "/".intercalate ys) : xs = ys := by
  rw [← ofList_joinAll hx, ← ofList_joinAll hy] at h
  rw [← names_joinAll hxs hx, String.ofList_injective h, names_joinAll hys hy]

/-- The path of something beside a script. -/
theorem shorten_sibling {name : String} (h : IsName name) : shorten ("./" ++ name).toList = name.toList := by
  obtain ⟨⟨hempty, hslash, hnul⟩, hdot, hdots⟩ := h
  have hne : name.toList ≠ [] := fun hnil => hempty (String.toList_eq_nil_iff.1 hnil)
  have hword : ∀ s : String, name ≠ s → name.toList ≠ s.toList := fun s hs heq => hs (String.toList_inj.1 heq)
  have hparts : splitAt '/' ("./" ++ name).toList = [['.'], name.toList] := by
    rw [String.toList_append]
    show splitAt '/' ('.' :: '/' :: name.toList) = _
    simp [splitAt, splitAt_eq_singleton '/' hslash]
  have hleading : leading ("./" ++ name).toList = [] := by
    rw [String.toList_append]
    rfl
  have hstep : step false [] name.toList = [name.toList] := by
    unfold step
    rw [if_neg (by simpa [hne] using hword "." hdot), if_neg (by simpa using hword ".." hdots)]
  have hdotStep : step false [] ['.'] = [] := rfl
  have htake : name.toList.takeWhile (· != '\x00') = name.toList := by
    refine List.takeWhile_eq_self_iff.2 fun c hc => ?_
    rw [bne_iff_ne]
    rintro rfl
    exact hnul hc
  unfold shorten parts
  dsimp only
  rw [hleading, hparts]
  simp only [List.isEmpty_nil, Bool.not_true, List.foldl_cons, List.foldl_nil, hdotStep, hstep,
    List.reverse_singleton, joinWith, List.nil_append, htake]
  rw [if_neg (by simpa using hempty)]

end Lexical

end CrossBuild
