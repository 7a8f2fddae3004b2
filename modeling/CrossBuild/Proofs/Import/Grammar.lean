import CrossBuild.Proofs.Import.Edits
import Mathlib.Data.List.Basic

/-!
# The grammar of imports

An import is told by what stands in it and where it stands (`Statement.IsImport`, `StartsAt`), and a text
is read from left to right: an import where one starts, and any other character for itself (`Reads`). No
quote and no semicolon comes before the opening quote of an import, and no quote is in its path. So an import
ends with the second quote behind the word that it starts with, wherever its blanks are taken to be
(`statement?_eq_some_iff`), and a text has one reading, the one that `scan` finds (`reads_iff`).

`rebind_by_grammar` says what rebinding does with that reading: the question is asked once for each import
in order, an import whose variant is there gets the variant's path, and putting the old paths back gives the
text from before.
-/

namespace CrossBuild

namespace Text

variable {p : Char → Bool} {s t : List Char} {c : Char}

theorem exists_dropEndWhile (p : Char → Bool) (s : List Char) :
    ∃ t, s = dropEndWhile p s ++ t ∧ ∀ c ∈ t, p c = true := by
  refine ⟨(s.reverse.takeWhile p).reverse, ?_, fun c hc => ?_⟩
  · unfold dropEndWhile
    rw [← List.reverse_append, List.takeWhile_append_dropWhile, List.reverse_reverse]
  · exact List.mem_takeWhile_imp (List.mem_reverse.1 hc)

theorem dropEndWhile_append_of_pos (h : ∀ c ∈ t, p c = true) :
    dropEndWhile p (s ++ t) = dropEndWhile p s := by
  unfold dropEndWhile
  rw [List.reverse_append, List.dropWhile_append_of_pos fun c hc => h c (List.mem_reverse.1 hc)]

theorem dropEndWhile_concat (h : p c = false) : dropEndWhile p (s ++ [c]) = s ++ [c] := by
  simp [dropEndWhile, h]

end Text

namespace Import

open Text

variable {s t rest opening : List Char} {st st' : Statement} {c : Char}

/-! ## Imports -/

/-- White space, maybe none. -/
def Blanks (s : List Char) : Prop :=
  ∀ c ∈ s, isBlank c = true

/-- What stands between the word `import` and the quote: white space, a binding of at least one
character, white space, the word `from` and maybe white space. -/
def Clause (s : List Char) : Prop :=
  ∃ gap binding gap' gap'', s = gap ++ binding ++ gap' ++ fromWord ++ gap'' ∧
    (gap ≠ [] ∧ Blanks gap) ∧ (binding ≠ [] ∧ ∀ c ∈ binding, c ∉ [';', '\'', '"']) ∧
    (gap' ≠ [] ∧ Blanks gap') ∧ Blanks gap''

/-- An import: the word `import`, a clause, a quote, a path that is not empty and has no quotes, its
extension, and the same quote. -/
structure Statement.IsImport (st : Statement) : Prop where
  opening : ∃ clause, st.opening = importWord ++ clause ∧ Clause clause
  quote : st.quote ∈ ['\'', '"']
  path : st.path ≠ [] ∧ ∀ c ∈ st.path, c ∉ ['\'', '"']

theorem isStop_iff : isStop c = true ↔ c ∈ [';', '\'', '"'] := by
  simp [isStop, or_assoc]

theorem isQuote_iff : isQuote c = true ↔ c ∈ ['\'', '"'] := by
  simp [isQuote]

theorem isStop_of_isQuote (h : isQuote c = true) : isStop c = true := by
  rw [isStop_iff, List.mem_cons]
  exact .inr (isQuote_iff.1 h)

theorem isStop_of_isBlank (h : isBlank c = true) : isStop c = false := by
  rw [← Bool.not_eq_true, isStop_iff]
  intro hstop
  simp only [List.mem_cons, List.not_mem_nil, or_false] at hstop
  rcases hstop with rfl | rfl | rfl <;> revert h <;> decide

theorem isQuote_extension (e : Extension) : ∀ c ∈ e.text, isQuote c = false := by
  cases e <;> simp [Extension.text, isQuote]

/-- There is no quote and no semicolon before the quote of an import. -/
theorem Clause.not_isStop (h : Clause s) : ∀ c ∈ s, isStop c = false := by
  obtain ⟨gap, binding, gap', gap'', rfl, ⟨-, hgap⟩, ⟨-, hbinding⟩, ⟨-, hgap'⟩, hgap''⟩ := h
  intro c hc
  simp only [List.mem_append] at hc
  rcases hc with (((hc | hc) | hc) | hc) | hc
  · exact isStop_of_isBlank (hgap c hc)
  · rw [← Bool.not_eq_true, isStop_iff]
    exact hbinding c hc
  · exact isStop_of_isBlank (hgap' c hc)
  · have hword : ∀ c ∈ fromWord, isStop c = false := by simp [fromWord, isStop]
    exact hword c hc
  · exact isStop_of_isBlank (hgap'' c hc)

theorem isClause_of_clause (h : Clause s) : isClause s = true := by
  obtain ⟨gap, binding, gap', gap'', rfl, ⟨hne, hgap⟩, ⟨hbinding, -⟩, ⟨hne', hgap'⟩, hgap''⟩ := h
  obtain ⟨x, gap, rfl⟩ := List.exists_cons_of_ne_nil hne
  obtain ⟨gap', y, rfl⟩ := (List.eq_nil_or_concat' gap').resolve_left hne'
  have hword : dropEndWhile isBlank (x :: gap ++ binding ++ (gap' ++ [y]) ++ fromWord) =
      x :: gap ++ binding ++ (gap' ++ [y]) ++ fromWord := by
    have hconcat := @dropEndWhile_concat isBlank (x :: gap ++ binding ++ (gap' ++ [y]) ++ ['f', 'r', 'o']) 'm'
      (by decide)
    simpa [fromWord] using hconcat
  have hlength : 3 ≤ (x :: gap ++ binding ++ (gap' ++ [y])).length := by
    have := List.length_pos_iff.2 hbinding
    simp only [List.length_append, List.length_cons]
    omega
  unfold isClause
  rw [dropEndWhile_append_of_pos hgap'', hword]
  dsimp only
  rw [List.length_append, Nat.add_sub_cancel, List.take_left]
  simp only [Bool.and_eq_true, List.isSuffixOf_iff_suffix, decide_eq_true_eq]
  refine ⟨⟨⟨List.suffix_append _ _, hlength⟩, ?_⟩, ?_⟩
  · simpa using hgap x (by simp)
  · rw [← List.append_assoc, List.getLast?_concat]
    simpa using hgap' y (by simp)

theorem clause_of_isClause (h : isClause s = true) (hstop : ∀ c ∈ s, isStop c = false) : Clause s := by
  obtain ⟨gap'', hs, hgap''⟩ := exists_dropEndWhile isBlank s
  unfold isClause at h
  generalize dropEndWhile isBlank s = front at hs h
  simp only [Bool.and_eq_true, List.isSuffixOf_iff_suffix, decide_eq_true_eq] at h
  obtain ⟨⟨⟨⟨b, rfl⟩, hlength⟩, hfirst⟩, hlast⟩ := h
  rw [List.length_append, Nat.add_sub_cancel, List.take_left] at hlength hfirst hlast
  -- the first and the last character are the white space around the binding
  obtain ⟨x, b, rfl⟩ := List.exists_cons_of_length_pos (show 0 < b.length by omega)
  obtain ⟨binding, y, rfl⟩ := (List.eq_nil_or_concat' b).resolve_left (by rintro rfl; simp at hlength)
  refine ⟨[x], binding, [y], gap'', by simpa using hs, ⟨by simp, ?_⟩, ⟨?_, fun c hc => ?_⟩, ⟨by simp, ?_⟩,
    hgap''⟩
  · simpa [Blanks] using hfirst
  · rintro rfl
    simp at hlength
  · rw [← isStop_iff, Bool.not_eq_true]
    exact hstop c (by simp [hs, hc])
  · rw [← List.cons_append, List.getLast?_concat] at hlast
    simpa [Blanks] using hlast

/-! ## Reading an import -/

theorem splitExtension?_eq_some_iff {literal path : List Char} {e : Extension} :
    splitExtension? literal = some (path, e) ↔ path ≠ [] ∧ literal = path ++ e.text := by
  constructor
  · intro h
    refine ⟨?_, eq_append_of_splitExtension? h⟩
    obtain ⟨e', -, he⟩ := List.exists_of_findSome?_eq_some h
    dsimp only at he
    split at he
    · next hsplit =>
      obtain ⟨rfl, rfl⟩ := Prod.mk.inj (Option.some.inj he)
      rw [Bool.and_eq_true, Bool.not_eq_true', List.isEmpty_eq_false_iff] at hsplit
      exact hsplit.2
    · cases he
  · rintro ⟨hne, rfl⟩
    have hpath : ∀ e : Extension, e.text.isSuffixOf (path ++ e.text) = true ∧
        (path ++ e.text).take ((path ++ e.text).length - e.text.length) = path := by
      intro e
      rw [List.length_append, Nat.add_sub_cancel, List.take_left, List.isSuffixOf_iff_suffix]
      exact ⟨List.suffix_append _ _, rfl⟩
    have hisEmpty : path.isEmpty = false := List.isEmpty_eq_false_iff.2 hne
    unfold splitExtension?
    cases e with
    | mjs => simp only [List.findSome?_cons, hpath, hisEmpty, Bool.not_false, Bool.and_self, if_true]
    | js =>
      have hother : Extension.mjs.text.isSuffixOf (path ++ Extension.js.text) = false := by
        rw [← Bool.not_eq_true, List.isSuffixOf_iff_suffix]
        intro hsuffix
        have := List.suffix_of_suffix_length_le (List.suffix_append path Extension.js.text) hsuffix
          (by decide)
        revert this
        decide
      simp only [List.findSome?_cons, hother, Bool.false_and, Bool.false_eq_true, if_false, hpath, hisEmpty,
        Bool.not_false, Bool.and_self, if_true]

theorem isImport_of_statement? (h : statement? s = some (st, rest)) : st.IsImport := by
  unfold statement? at h
  split at h
  swap
  · cases h
  next hword =>
  obtain ⟨t, rfl⟩ := List.isPrefixOf_iff_prefix.1 hword
  rw [List.drop_left] at h
  dsimp only at h
  split at h
  · cases h
  next quote u hclause =>
  split at h
  swap
  · cases h
  next closing r path extension hliteral hsplit =>
  split at h
  swap
  · cases h
  next hquotes =>
  obtain ⟨rfl, rfl⟩ := Prod.mk.inj (Option.some.inj h)
  simp only [Bool.and_eq_true, beq_iff_eq] at hquotes
  obtain ⟨⟨hquote, rfl⟩, hisClause⟩ := hquotes
  obtain ⟨hne, hpath⟩ := splitExtension?_eq_some_iff.1 hsplit
  refine ⟨⟨_, rfl, clause_of_isClause hisClause fun c hc => ?_⟩, isQuote_iff.1 hquote, hne, fun c hc => ?_⟩
  · simpa using List.mem_takeWhile_imp hc
  · rw [← isQuote_iff, Bool.not_eq_true]
    have hmem : c ∈ u.takeWhile (!isQuote ·) := by
      rw [hpath]
      exact List.mem_append_left _ hc
    simpa using List.mem_takeWhile_imp hmem

/-- An import is read at the front of a text, whatever stands behind it. -/
theorem Statement.IsImport.statement?_append (h : st.IsImport) (rest : List Char) :
    statement? (st.text ++ rest) = some (st, rest) := by
  obtain ⟨⟨clause, hopening, hclause⟩, hquote, hne, hpath⟩ := h
  have hisQuote := isQuote_iff.2 hquote
  have hliteral : ∀ c ∈ st.path ++ st.extension.text, (!isQuote c) = true := by
    intro c hc
    rw [Bool.not_eq_true']
    rcases List.mem_append.1 hc with hc | hc
    · rw [← Bool.not_eq_true, isQuote_iff]
      exact hpath c hc
    · exact isQuote_extension _ c hc
  have hstop : ∀ c ∈ clause, (!isStop c) = true := by
    intro c hc
    rw [hclause.not_isStop c hc]
    rfl
  have htext : st.text ++ rest = importWord ++ (clause ++ st.quote ::
      ((st.path ++ st.extension.text) ++ st.quote :: rest)) := by
    simp [Statement.text, Statement.withPath, Statement.imported, hopening]
  have hend : isStop st.quote = true := isStop_of_isQuote hisQuote
  unfold statement?
  rw [htext, if_pos (List.isPrefixOf_iff_prefix.2 (List.prefix_append _ _)), List.drop_left]
  simp only [List.takeWhile_append_of_pos hstop, List.dropWhile_append_of_pos hstop, List.takeWhile_cons,
    List.dropWhile_cons, hend, Bool.not_true, Bool.false_eq_true, if_false, List.append_nil,
    List.takeWhile_append_of_pos hliteral, List.dropWhile_append_of_pos hliteral, hisQuote,
    splitExtension?_eq_some_iff.2 ⟨hne, rfl⟩, isClause_of_clause hclause, beq_self_eq_true, Bool.and_self,
    if_true]
  rw [← hopening]

theorem statement?_eq_some_iff : statement? s = some (st, rest) ↔ st.IsImport ∧ s = st.text ++ rest := by
  constructor
  · exact fun h => ⟨isImport_of_statement? h, eq_append_of_statement? h⟩
  · rintro ⟨himport, rfl⟩
    exact himport.statement?_append rest

/-! ## Reading a script -/

/-- Between two texts is a word boundary if a word character is on one side only. -/
def WordBoundary (before after : List Char) : Prop :=
  before.getLast?.any isWordChar ≠ after.head?.any isWordChar

/-- Behind the text `before`, an import is at the front of `s`. -/
def StartsAt (before s : List Char) (st : Statement) : Prop :=
  WordBoundary before s ∧ st.IsImport ∧ st.text <+: s

/-- The text `s` behind the text `before` is read from left to right: where an import starts it is
taken, and reading goes on behind it; any other character stands for itself. -/
inductive Reads : List Char → List Piece → List Char → Prop
  | nil {before : List Char} : Reads before [] []
  | statement {before s : List Char} {st : Statement} {pieces : List Piece}
      (starts : StartsAt before (st.text ++ s) st) (rest : Reads (before ++ st.text) pieces s) :
      Reads before (.statement st :: pieces) (st.text ++ s)
  | plain {before s : List Char} {c : Char} {pieces : List Piece}
      (none : ∀ st, ¬ StartsAt before (c :: s) st) (rest : Reads (before ++ [c]) pieces s) :
      Reads before (.plain c :: pieces) (c :: s)

variable {before : List Char} {ps : List Piece} {inWord : Bool}

theorem Statement.IsImport.wordBoundary_iff (h : st.IsImport) :
    WordBoundary before (st.text ++ s) ↔ before.getLast?.any isWordChar = false := by
  obtain ⟨clause, hopening, -⟩ := h.opening
  have hhead : (st.text ++ s).head? = some 'i' := by
    simp [Statement.text, Statement.withPath, hopening, importWord]
  have hword : isWordChar 'i' = true := by decide
  rw [WordBoundary, hhead, Option.any_some, hword, ne_eq, Bool.not_eq_true]

theorem Statement.IsImport.getLast?_append_text (h : st.IsImport) (before : List Char) :
    (before ++ st.text).getLast?.any isWordChar = false := by
  have hlast : (before ++ st.text).getLast? = some st.quote := by
    rw [Statement.text, Statement.withPath, ← List.append_assoc, List.getLast?_concat]
  rw [hlast, Option.any_some]
  have := h.quote
  simp only [List.mem_cons, List.not_mem_nil, or_false] at this
  rcases this with hquote | hquote <;> rw [hquote] <;> decide

theorem startsAt_iff : StartsAt before s st ↔
    ∃ rest, (if before.getLast?.any isWordChar then none else statement? s) = some (st, rest) := by
  constructor
  · rintro ⟨hboundary, himport, rest, rfl⟩
    rw [himport.wordBoundary_iff] at hboundary
    rw [hboundary]
    exact ⟨rest, statement?_eq_some_iff.2 ⟨himport, rfl⟩⟩
  · rintro ⟨rest, h⟩
    obtain ⟨himport, rfl⟩ := statement?_eq_some_iff.1 (statement?_of_unlessWord h)
    refine ⟨himport.wordBoundary_iff.2 ?_, himport, List.prefix_append _ _⟩
    split at h
    · cases h
    · next hword => exact Bool.eq_false_iff.2 hword

theorem scan_of_some (h : (if inWord then none else statement? s) = some (st, rest)) :
    scan inWord s = .statement st :: scan false rest := by
  rw [scan]
  split
  · next heq =>
    obtain ⟨rfl, rfl⟩ := Prod.mk.inj (Option.some.inj (heq.symm.trans h))
    rfl
  · next heq => cases heq.symm.trans h

theorem scan_of_none (h : (if inWord then none else statement? (c :: s)) = none) :
    scan inWord (c :: s) = .plain c :: scan (isWordChar c) s := by
  rw [scan]
  split
  · next heq => cases h.symm.trans heq
  · rfl

theorem reads_scan (before s : List Char) : Reads before (scan (before.getLast?.any isWordChar) s) s := by
  generalize hword : before.getLast?.any isWordChar = inWord
  fun_induction scan inWord s generalizing before with
  | case1 inWord s st rest h _ ih =>
    obtain ⟨himport, rfl⟩ := statement?_eq_some_iff.1 (statement?_of_unlessWord h)
    subst hword
    exact .statement (startsAt_iff.2 ⟨rest, h⟩) (ih _ (himport.getLast?_append_text before))
  | case2 inWord h => exact .nil
  | case3 inWord c s h ih =>
    subst hword
    refine .plain (fun st hst => ?_) (ih _ (by simp))
    obtain ⟨rest, hrest⟩ := startsAt_iff.1 hst
    cases h.symm.trans hrest

/-- **There is one reading** of a text. -/
theorem reads_iff : Reads before ps s ↔ ps = scan (before.getLast?.any isWordChar) s := by
  constructor
  · intro h
    induction h with
    | nil =>
      rw [scan]
      split
      · next heq => cases statement?_of_unlessWord heq
      · rfl
    | @statement before s st pieces starts _ ih =>
      obtain ⟨rest, hrest⟩ := startsAt_iff.1 starts
      obtain ⟨himport, hs⟩ := statement?_eq_some_iff.1 (statement?_of_unlessWord hrest)
      rw [scan_of_some hrest, ih, himport.getLast?_append_text, List.append_cancel_left hs]
    | @plain before s c pieces none _ ih =>
      have hnone : (if before.getLast?.any isWordChar then Option.none else statement? (c :: s)) = .none :=
        Option.eq_none_iff_forall_not_mem.2 fun found hfound =>
          none found.1 (startsAt_iff.2 ⟨found.2, hfound⟩)
      rw [scan_of_none hnone, ih, List.getLast?_concat, Option.any_some]
  · rintro rfl
    exact reads_scan before s

/-! ## Asking and answering -/

section

variable {m : Type → Type} [Monad m]

/-- Asks for the variant of a piece if it is an import. -/
def ask (family : List Char) (present : String → m Bool) : Piece → m (Piece × Bool)
  | .plain c => return (.plain c, false)
  | .statement st => do return (.statement st, ← present (String.ofList (st.specific family)))

/-- The text of a piece: an import whose variant is there has the variant's path. -/
def reboundText (family : List Char) : Piece × Bool → List Char
  | (.statement st, true) => st.withPath (st.specific family)
  | (piece, _) => piece.text

/-- The swap of the paths in a piece: an import whose variant is there has one. -/
def swap? (family : List Char) : Piece × Bool → Option Swap
  | (.statement st, true) => some ⟨String.ofList st.imported, String.ofList (st.specific family)⟩
  | _ => none

theorem rebindPieces_eq [LawfulMonad m] (family : List Char) (present : String → m Bool) (ps : List Piece) :
    rebindPieces family present ps = do
      let answered ← ps.mapM (ask family present)
      return (answered.flatMap (reboundText family), answered.filterMap (swap? family)) := by
  induction ps with
  | nil => simp [rebindPieces]
  | cons piece ps ih =>
    cases piece with
    | plain c => simp [rebindPieces, ask, ih, reboundText, swap?, Piece.text, List.filterMap_cons]
    | statement st =>
      simp only [rebindPieces, ask, ih, List.mapM_cons, bind_assoc, pure_bind]
      refine bind_congr fun answer => bind_congr fun answered => ?_
      cases answer <;> simp [reboundText, swap?, Piece.text, List.filterMap_cons]

end

/-! ## Undoing -/

/-- Texts put between others, which are one more. -/
def fill : List (List Char) → List String → List Char
  | gap :: gaps, filling :: fillings => gap ++ filling.toList ++ fill gaps fillings
  | gaps, _ => gaps.flatten

theorem fill_cons_append (s gap : List Char) (gaps : List (List Char)) (fillings : List String) :
    fill ((s ++ gap) :: gaps) fillings = s ++ fill (gap :: gaps) fillings := by
  cases fillings <;> simp [fill]

/-- **Swaps can be undone**: with the old paths in place of the new ones the text is that from before. -/
theorem exists_gaps (family : List Char) (answered : List (Piece × Bool)) :
    let swaps := answered.filterMap (swap? family)
    ∃ gaps : List (List Char), gaps.length = swaps.length + 1 ∧
      fill gaps (swaps.map Swap.old) = (answered.map Prod.fst).flatMap Piece.text ∧
      fill gaps (swaps.map Swap.new) = answered.flatMap (reboundText family) := by
  induction answered with
  | nil => exact ⟨[[]], rfl, rfl, rfl⟩
  | cons first answered ih =>
    obtain ⟨gaps, hlength, hold, hnew⟩ := ih
    obtain ⟨gap, gaps, rfl⟩ := List.exists_cons_of_length_pos (l := gaps) (by omega)
    have hsame : swap? family first = none → reboundText family first = first.1.text →
        ∃ gaps : List (List Char), gaps.length = ((first :: answered).filterMap (swap? family)).length + 1 ∧
          fill gaps (((first :: answered).filterMap (swap? family)).map Swap.old) =
            ((first :: answered).map Prod.fst).flatMap Piece.text ∧
          fill gaps (((first :: answered).filterMap (swap? family)).map Swap.new) =
            (first :: answered).flatMap (reboundText family) := by
      intro hswap htext
      refine ⟨(first.1.text ++ gap) :: gaps, ?_, ?_, ?_⟩
      · simpa [hswap] using hlength
      · simp [hswap, fill_cons_append, hold]
      · simp [hswap, htext, fill_cons_append, hnew]
    match first with
    | (.plain c, _) | (.statement st, false) => exact hsame rfl rfl
    | (.statement st, true) =>
      have hswap : swap? family (.statement st, true) =
        some ⟨String.ofList st.imported, String.ofList (st.specific family)⟩ := rfl
      refine ⟨(st.opening ++ [st.quote]) :: ([st.quote] ++ gap) :: gaps, ?_, ?_, ?_⟩
      · simpa [List.filterMap_cons_some hswap] using hlength
      · rw [List.filterMap_cons_some hswap, List.map_cons, fill, fill_cons_append, hold]
        simp [Piece.text, Statement.text, Statement.withPath]
      · rw [List.filterMap_cons_some hswap, List.map_cons, fill, fill_cons_append, hnew]
        simp [reboundText, Statement.withPath]

/-- **Rebinding follows the grammar**: a script has one reading, the imports in it are asked for in order and
those whose variant is there are rebound to it, and nothing else is changed. What was put in place of the old
paths stands between the same texts as they did, so the swaps can be undone. -/
theorem rebind_by_grammar {m : Type → Type} [Monad m] [LawfulMonad m] (family : String)
    (present : String → m Bool) (script : String) :
    ∃ ps, Reads [] ps script.toList ∧ (∀ ps', Reads [] ps' script.toList → ps' = ps) ∧
      (rebind family present script = do
        let answered ← ps.mapM (ask family.toList present)
        return (String.ofList (answered.flatMap (reboundText family.toList)),
          answered.filterMap (swap? family.toList))) ∧
      ∀ answered : List (Piece × Bool), answered.map Prod.fst = ps →
        let swaps := answered.filterMap (swap? family.toList)
        ∃ gaps : List (List Char), gaps.length = swaps.length + 1 ∧
          fill gaps (swaps.map Swap.old) = script.toList ∧
          fill gaps (swaps.map Swap.new) = answered.flatMap (reboundText family.toList) := by
  refine ⟨pieces script.toList, reads_iff.2 rfl, fun ps' h => reads_iff.1 h, ?_, ?_⟩
  · simp [rebind, rebindPieces_eq]
  · rintro answered hanswered
    have := exists_gaps family.toList answered
    rwa [hanswered, flatMap_pieces] at this

/-- Notes a path and says whether it is one of some. -/
def noteAndFind (there : List String) (path : String) : StateM (List String) Bool := do
  modify (· ++ [path])
  return there.contains path

/-- Of two imports, one has a variant. -/
theorem rebind_by_grammar_noted :
    let script := "import x from './a.mjs';import y from \"./b.js\""
    let rebound := "import x from './a.linux.mjs';import y from \"./b.js\""
    LawfulMonad (StateM (List String)) ∧
      ((rebind "linux" (noteAndFind ["./a.linux.mjs"]) script).run []).run =
        ((rebound, [⟨"./a.mjs", "./a.linux.mjs"⟩]), ["./a.linux.mjs", "./b.linux.js"]) ∧
      ∃ gaps : List (List Char), gaps.length = 2 ∧ fill gaps ["./a.mjs"] = script.toList ∧
        fill gaps ["./a.linux.mjs"] = rebound.toList := by
  intro script rebound
  obtain ⟨ps, hreads, -, hrebind, hundo⟩ :=
    rebind_by_grammar "linux" (noteAndFind ["./a.linux.mjs"]) script
  obtain rfl : ps = pieces script.toList := reads_iff.1 hreads
  refine ⟨inferInstance, ?_, ?_⟩
  · rw [hrebind]
    decide +kernel
  · let answered : List (Piece × Bool) := (pieces script.toList).map fun
      | .statement st => (.statement st, st.extension == .mjs)
      | piece => (piece, false)
    have hgaps := hundo answered (by decide +kernel)
    have hswaps : answered.filterMap (swap? "linux".toList) = [⟨"./a.mjs", "./a.linux.mjs"⟩] := by
      decide +kernel
    have hrebound : answered.flatMap (reboundText "linux".toList) = rebound.toList := by
      decide +kernel
    rw [hswaps, hrebound] at hgaps
    exact hgaps

end Import

end CrossBuild
