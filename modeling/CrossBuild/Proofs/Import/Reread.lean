import CrossBuild.Proofs.Import.Grammar

/-!
# Reading a rebound script

A rebound script has its imports where they were, those that were rebound with the variant's path
(`Rebinds.exists_reads`). A path that has grown could make an import start where none did before: the
keyword might stand in a path. But an import that starts before the path of another one is at an end before
that path or has it as its own path, so that with the old path an import starts there too
(`exists_import_of_path`).
-/

namespace CrossBuild.Import

open Text

variable {family : List Char} {told : String → Bool → Prop} {s text before : List Char}
  {st st' : Statement} {ps : List Piece} {swaps : List Swap}

/-! ## Variants -/

/-- The import with the path of its variant. -/
def Statement.variant (st : Statement) (family : List Char) : Statement :=
  { st with path := st.path ++ '.' :: family }

theorem Statement.text_variant (st : Statement) (family : List Char) :
    (st.variant family).text = st.withPath (st.specific family) := by
  simp [variant, Statement.text, withPath, imported, specific]

theorem isEnding_variants (family : OsFamily) (e : Extension) :
    Lexical.IsEnding ('.' :: family.word.toList ++ '.' :: family.word.toList ++ e.text) := by
  unfold Lexical.IsEnding
  cases family <;> cases e <;> decide

theorem Statement.IsImport.variant (h : st.IsImport) (hfamily : ∀ c ∈ family, isQuote c = false) :
    (st.variant family).IsImport where
  opening := h.opening
  quote := h.quote
  path := by
    refine ⟨by simp [Statement.variant], fun c hc => ?_⟩
    rw [← isQuote_iff, Bool.not_eq_true]
    simp only [Statement.variant, List.mem_append, List.mem_cons] at hc
    rcases hc with hc | rfl | hc
    · rw [← Bool.not_eq_true, isQuote_iff]
      exact h.path.2 c hc
    · decide
    · exact hfamily c hc

/-! ## Other imports -/

theorem Statement.IsImport.isQuote_opening (h : st.IsImport) : ∀ c ∈ st.opening, isQuote c = false := by
  obtain ⟨clause, hopening, hclause⟩ := h.opening
  rw [hopening]
  have hword : ∀ c ∈ importWord, isQuote c = false := by simp [importWord, isQuote]
  intro c hc
  rcases List.mem_append.1 hc with hc | hc
  · exact hword c hc
  · rw [← Bool.not_eq_true]
    intro hquote
    cases (hclause.not_isStop c hc).symm.trans (isStop_of_isQuote hquote)

theorem Statement.IsImport.isQuote_imported (h : st.IsImport) : ∀ c ∈ st.imported, isQuote c = false := by
  intro c hc
  rcases List.mem_append.1 hc with hc | hc
  · rw [← Bool.not_eq_true, isQuote_iff]
    exact h.path.2 c hc
  · exact isQuote_extension _ c hc

/-- A quote between texts of which the one has no quote before it and the other one no quote behind it. -/
theorem append_quote_inj {a b c d : List Char} {x y : Char} (hx : isQuote x = true)
    (hb : ∀ c ∈ b, isQuote c = false) (hd : ∀ c ∈ d, isQuote c = false)
    (h : a ++ x :: c = b ++ y :: d) : a = b ∧ x = y ∧ c = d := by
  rcases List.append_eq_append_iff.1 h with ⟨e, rfl, he⟩ | ⟨e, rfl, he⟩
  · cases e with
    | nil =>
      obtain ⟨rfl, rfl⟩ := List.cons.inj he
      exact ⟨(List.append_nil a).symm, rfl, rfl⟩
    | cons z e =>
      obtain ⟨rfl, -⟩ := List.cons.inj he
      cases (hb x (by simp)).symm.trans hx
  · cases e with
    | nil =>
      obtain ⟨rfl, rfl⟩ := List.cons.inj he
      exact ⟨List.append_nil b, rfl, rfl⟩
    | cons z e =>
      obtain ⟨rfl, rfl⟩ := List.cons.inj he
      cases (hd x (by simp)).symm.trans hx

/-- Whether a text begins with an import does not hang on the path of an import in it: one that begins
the text ends before that path, or with it. -/
theorem exists_import_of_path {front back : List Char} {first : Statement}
    (h : st.IsImport) (h' : st'.IsImport) (hopening : st'.opening = st.opening)
    (hquote : st'.quote = st.quote) (hfirst : first.IsImport)
    (hfront : first.text <+: front ++ st.text ++ back) (back' : List Char) :
    ∃ first' : Statement, first'.IsImport ∧ first'.text <+: front ++ st'.text ++ back' := by
  have htext : front ++ st.text ++ back =
      front ++ st.opening ++ [st.quote] ++ (st.imported ++ [st.quote] ++ back) := by
    simp [Statement.text, Statement.withPath]
  have htext' : front ++ st'.text ++ back' =
      front ++ st.opening ++ [st.quote] ++ (st'.imported ++ [st.quote] ++ back') := by
    simp [Statement.text, Statement.withPath, hopening, hquote]
  have hends : first.text = first.opening ++ first.quote :: first.imported ++ [first.quote] := rfl
  rw [htext] at hfront
  rcases List.prefix_or_prefix_of_prefix hfront (List.prefix_append _ _) with hfront | ⟨w, hw⟩
  · exact ⟨first, hfirst, htext' ▸ hfront.trans (List.prefix_append _ _)⟩
  rcases List.eq_nil_or_concat' w with rfl | ⟨w, z, rfl⟩
  · rw [List.append_nil] at hw
    exact ⟨first, hfirst, htext' ▸ hw ▸ List.prefix_append _ _⟩
  -- the import goes on behind the quote, so this is its own one
  rw [hends, ← List.append_assoc] at hw
  have hinit := (List.append_inj' hw rfl).1
  rw [List.append_assoc, List.singleton_append] at hinit
  obtain ⟨hopen, hquotes, -⟩ := append_quote_inj (isQuote_iff.2 h.quote) hfirst.isQuote_opening
    hfirst.isQuote_imported hinit
  refine ⟨{ first with path := st'.path, extension := st'.extension },
    ⟨hfirst.opening, hfirst.quote, h'.path⟩, back', ?_⟩
  simp [Statement.text, Statement.withPath, Statement.imported, ← hopen, ← hquotes, hopening, hquote]

/-! ## The reading of a rebound script -/

theorem Reads.isImport (h : Reads before ps s) : ∀ st, Piece.statement st ∈ ps → st.IsImport := by
  induction h with
  | nil => exact fun st hst => by cases hst
  | statement starts _ ih =>
    rintro st hst
    rcases List.mem_cons.1 hst with heq | hst
    · exact Piece.statement.inj heq ▸ starts.2.1
    · exact ih st hst
  | plain _ _ ih =>
    rintro st hst
    rcases List.mem_cons.1 hst with heq | hst
    · cases heq
    · exact ih st hst

theorem Reads.flatMap_text (h : Reads before ps s) : ps.flatMap Piece.text = s := by
  rw [reads_iff.1 h, flatMap_scan]

/-- Of the text before it, a reading heeds the last character. -/
theorem Reads.congr {before' : List Char} (h : Reads before ps s)
    (hlast : before'.getLast?.any isWordChar = before.getLast?.any isWordChar) : Reads before' ps s :=
  reads_iff.2 (hlast ▸ reads_iff.1 h)

/-- If a rebound text begins with an import behind some text, the text from before it was rebound does. -/
theorem Rebinds.exists_import (h : Rebinds family told ps text swaps)
    (hps : ∀ st, Piece.statement st ∈ ps → st.IsImport) (hfamily : ∀ c ∈ family, isQuote c = false)
    {front : List Char} {first : Statement} (hfirst : first.IsImport)
    (hfront : first.text <+: front ++ text) :
    ∃ first' : Statement, first'.IsImport ∧ first'.text <+: front ++ ps.flatMap Piece.text := by
  induction h generalizing front with
  | nil => exact ⟨first, hfirst, hfront⟩
  | plain c _ ih =>
    rw [List.append_cons] at hfront
    simpa [Piece.text] using ih (fun st hst => hps st (List.mem_cons_of_mem _ hst)) hfront
  | stays _ _ ih =>
    rw [← List.append_assoc] at hfront
    simpa [Piece.text] using ih (fun st hst => hps st (List.mem_cons_of_mem _ hst)) hfront
  | @moves ps _ _ st _ _ _ =>
    have hst := hps st List.mem_cons_self
    rw [← Statement.text_variant, ← List.append_assoc] at hfront
    obtain ⟨first', hfirst', hfront'⟩ := exists_import_of_path (hst.variant hfamily) hst rfl rfl hfirst hfront
      (ps.flatMap Piece.text)
    exact ⟨first', hfirst', by simpa [Piece.text] using hfront'⟩

/-- **A rebound script is read** as the script was, with variants for the imports that were rebound. -/
theorem Rebinds.exists_reads (h : Rebinds family told ps text swaps)
    (hfamily : ∀ c ∈ family, isQuote c = false) (hreads : Reads before ps s) :
    ∃ ps', Reads before ps' text ∧ ∀ st, Piece.statement st ∈ ps' →
      told (String.ofList (st.specific family)) false ∨
        ∃ st' : Statement, st = st'.variant family ∧
          ⟨String.ofList st'.imported, String.ofList (st'.specific family)⟩ ∈ swaps := by
  induction h generalizing before s with
  | nil =>
    cases hreads
    exact ⟨[], .nil, fun st hst => by cases hst⟩
  | @plain ps text swaps c hrebinds ih =>
    cases hreads with
    | @plain _ s _ _ none rest =>
      obtain ⟨ps', hps', hanswers⟩ := ih rest
      refine ⟨.plain c :: ps', .plain (fun first hstarts => ?_) hps', fun st hst => ?_⟩
      · obtain ⟨hboundary, hfirst, hfront⟩ := hstarts
        rw [← List.singleton_append] at hfront
        obtain ⟨first', hfirst', hfront'⟩ := hrebinds.exists_import rest.isImport hfamily hfirst hfront
        rw [rest.flatMap_text] at hfront'
        exact none first' ⟨hboundary, hfirst', hfront'⟩
      · exact hanswers st ((List.mem_cons.1 hst).resolve_left (by simp))
  | @stays ps text swaps st answer hrebinds ih =>
    cases hreads with
    | @statement _ s _ _ starts rest =>
      obtain ⟨ps', hps', hanswers⟩ := ih rest
      obtain ⟨hboundary, himport, -⟩ := starts
      rw [himport.wordBoundary_iff, ← himport.wordBoundary_iff (s := text)] at hboundary
      refine ⟨.statement st :: ps', .statement ⟨hboundary, himport, List.prefix_append _ _⟩ hps',
        fun st' hst' => ?_⟩
      rcases List.mem_cons.1 hst' with heq | hst'
      · obtain rfl := Piece.statement.inj heq
        exact .inl answer
      · exact hanswers st' hst'
  | @moves ps text swaps st _ hrebinds ih =>
    cases hreads with
    | @statement _ s _ _ starts rest =>
      obtain ⟨ps', hps', hanswers⟩ := ih rest
      obtain ⟨hboundary, himport, -⟩ := starts
      have hvariant := himport.variant hfamily
      rw [himport.wordBoundary_iff, ← hvariant.wordBoundary_iff (s := text)] at hboundary
      rw [← Statement.text_variant]
      refine ⟨.statement (st.variant family) :: ps',
        .statement ⟨hboundary, hvariant, List.prefix_append _ _⟩ (hps'.congr ?_), fun st' hst' => ?_⟩
      · rw [himport.getLast?_append_text, hvariant.getLast?_append_text]
      rcases List.mem_cons.1 hst' with heq | hst'
      · exact .inr ⟨st, Piece.statement.inj heq, List.mem_cons_self⟩
      · refine (hanswers st' hst').imp_right ?_
        rintro ⟨st'', heq, hswap⟩
        exact ⟨st'', heq, List.mem_cons_of_mem _ hswap⟩

/-- Without variants a script stays as it is. -/
theorem rebind_of_absent {m : Type → Type} [Monad m] [LawfulMonad m] {word script : String}
    {present : String → m Bool}
    (h : ∀ st, Piece.statement st ∈ pieces script.toList →
      present (String.ofList (st.specific word.toList)) = pure false) :
    rebind word present script = pure (script, []) := by
  have hpieces : ∀ ps : List Piece, (∀ st, Piece.statement st ∈ ps →
      present (String.ofList (st.specific word.toList)) = pure false) →
      rebindPieces word.toList present ps = pure (ps.flatMap Piece.text, []) := by
    intro ps hps
    induction ps with
    | nil => rfl
    | cons piece ps ih =>
      have hrest := ih fun st hst => hps st (List.mem_cons_of_mem _ hst)
      cases piece with
      | plain c => simp [rebindPieces, hrest, Piece.text]
      | statement st => simp [rebindPieces, hrest, hps st List.mem_cons_self, Piece.text]
  simp [rebind, hpieces _ h, flatMap_pieces]

end CrossBuild.Import
