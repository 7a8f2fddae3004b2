import CrossBuild.Proofs.Import.Reread
import CrossBuild.Proofs.SourceTree.Dropped
import CrossBuild.Proofs.SourceTree.Rebindings

/-!
# Resolving twice

A tree is settled if all of its scripts stay and no import in it has a variant; such a tree is resolved to
itself (`resolveIn_of_settled`). What a tree is resolved to on its own is settled: fewer things stand beside a
script that stays, an import that found no file finds none in what is left, and an import that was rebound
would have to find a variant of a variant (`Resolves.settled`).

The last of these goes wrong if the path of a rebound import has a null character, for then it is cut before
any ending and leads to the same file each time (`resolve_not_idempotent`).
-/

namespace CrossBuild

/-- A program that does nothing but compute gives its value. -/
def Outcome.pure : Outcome Id Unit where
  Gives x _ a _ := Id.run x = a
  of_pure h := ⟨h.symm, rfl⟩
  of_bind h := ⟨_, (), rfl, h⟩

namespace SourceTree

variable {family : OsFamily} {root root' t : SourceTree} {dirs siblings siblings' : List String}
  {r : Resolution} {name path : String} {answer : Bool}

/-! ## Resolving without an outside -/

/-- Resolves a tree on its own: there is no outside to ask. -/
def alone (family : OsFamily) (t : SourceTree) : Resolution :=
  Id.run (t.resolve family none)

/-- What is told of an outside that is not there. -/
def Nowhere (_ : String) (answer : Bool) : Prop :=
  answer = false

theorem resolves_alone (family : OsFamily) (t : SourceTree) :
    Resolves family t Nowhere [] t.names t (t.alone family) := by
  have htells : Outcome.pure.TellsOf (fun _ => Nowhere) none := fun _ _ => rfl
  have hgives : Outcome.pure.Gives (t.resolve family none) () (t.alone family) () := rfl
  exact (htells.resolveIn hgives).1

theorem importFound_of_answers {m : Type → Type} [Monad m] (h : Answers root Nowhere dirs path answer) :
    importFound root (none : Option (String → m Bool)) dirs path = pure answer := by
  unfold importFound
  dsimp only
  rcases h with ⟨hleaves, entry, hentry, rfl⟩ | ⟨hleaves, rfl⟩
  · rw [hleaves, hentry]
    rfl
  · rcases hleaves with hleaves | hnone
    · rw [if_pos hleaves]
    · rw [hnone]
      exact ite_self _

/-- An import that finds no file on its own: it leaves the tree, or no file is where it leads. -/
theorem answers_false_iff : Answers root Nowhere dirs path false ↔
    let short := Lexical.shorten (Lexical.joinAll (dirs ++ [path]))
    Lexical.leaves short = false →
      ∀ entry, root.get? (Lexical.names short) = some entry → entry.isFile = false := by
  unfold Answers Nowhere
  dsimp only
  constructor
  · rintro (⟨-, entry, hentry, hfile⟩ | ⟨hleaves | hnone, -⟩) hstays other hother
    · rwa [← Option.some.inj (hentry.symm.trans hother)]
    · rw [hleaves] at hstays
      cases hstays
    · rw [hnone] at hother
      cases hother
  · intro h
    rcases hleaves : Lexical.leaves (Lexical.shorten (Lexical.joinAll (dirs ++ [path]))) with _ | _
    · rcases hentry : root.get? (Lexical.names (Lexical.shorten (Lexical.joinAll (dirs ++ [path]))))
        with _ | entry
      · exact .inr ⟨.inr rfl, rfl⟩
      · exact .inl ⟨rfl, entry, rfl, h hleaves entry hentry⟩
    · exact .inr ⟨.inl rfl, rfl⟩

/-! ## Settled trees -/

/-- Nothing is left to do for a family: every script stays and has its text, and no import of it has a
variant in the tree `root`. -/
def Settled (family : OsFamily) (root : SourceTree) : List String → List String → SourceTree → Prop
  | _, _, .nil => True
  | dirs, siblings, .script name text rest =>
    (keeps family siblings name = true ∧ ∃ script, text = some script ∧
      ∀ st, Import.Piece.statement st ∈ Import.pieces script.toList →
        Answers root Nowhere dirs (String.ofList (st.specific family.word.toList)) false) ∧
      Settled family root dirs siblings rest
  | dirs, siblings, .asset _ _ rest => Settled family root dirs siblings rest
  | dirs, siblings, .directory name children rest =>
    Settled family root (dirs ++ [name]) children.names children ∧ Settled family root dirs siblings rest

/-- **A settled tree** is resolved to itself. -/
theorem resolveIn_of_settled {m : Type → Type} [Monad m] [LawfulMonad m]
    (h : Settled family root dirs siblings t) :
    resolveIn family root (none : Option (String → m Bool)) dirs siblings t = pure ⟨t, [], []⟩ := by
  induction t generalizing dirs siblings with
  | nil => rfl
  | script name text rest ih =>
    obtain ⟨⟨hkeeps, script, rfl, himports⟩, hrest⟩ := h
    have hrebind :
        Import.rebind family.word (importFound root (none : Option (String → m Bool)) dirs) script =
          pure (script, []) :=
      Import.rebind_of_absent fun st hst => importFound_of_answers (himports st hst)
    simp [resolveIn, hkeeps, hrebind, ih hrest]
  | asset name source rest ih => simp [resolveIn, ih h]
  | directory name children rest ihc ih => simp [resolveIn, ihc h.1, ih h.2]

/-! ## Resolved trees are settled -/

theorem keeps_of_subset (h : siblings' ⊆ siblings) (hkeeps : keeps family siblings name = true) :
    keeps family siblings' name = true := by
  unfold keeps at hkeeps ⊢
  split at hkeeps
  · exact hkeeps
  · rw [Bool.not_eq_true', List.contains_eq_mem, decide_eq_false_iff_not] at hkeeps ⊢
    exact fun hmem => hkeeps (h hmem)

/-- An import that found no file finds none in what is left of the tree. -/
theorem Resolves.answers_false (h : Resolves family t Nowhere [] t.names t r) (ht : t.Distinct)
    (hanswers : Answers t Nowhere dirs path false) : Answers r.tree Nowhere dirs path false := by
  rw [answers_false_iff] at hanswers ⊢
  intro short hleaves entry hentry
  have hleft := h.leaves ht (Lexical.names short)
  rw [hentry] at hleft
  generalize hbefore : t.get? _ = before at hleft
  cases hleft with
  | asset | kept => cases hanswers hleaves _ hbefore
  | directory => rfl

/-- An import of a variant finds no variant of it, if no name is one of such a variant. -/
theorem Resolves.answers_variant (h : Resolves family t Nowhere [] t.names t r) (ht : t.Distinct)
    (hvariants : Every (fun _ name _ => ∀ e : Import.Extension,
      ¬ ('.' :: family.word.toList ++ '.' :: family.word.toList ++ e.text) <:+ name.toList) [] t)
    {st : Import.Statement}
    (hnul : '\x00' ∉ Lexical.joinAll (dirs ++ [String.ofList (st.specific family.word.toList)])) :
    Answers r.tree Nowhere dirs
      (String.ofList ((st.variant family.word.toList).specific family.word.toList)) false := by
  have hending := Import.isEnding_variants family st.extension
  obtain ⟨joined, hjoined⟩ := Lexical.joinAll_append_ending dirs st.path
  rw [st.specific_eq, hjoined _ (Import.isEnding_variant family st.extension).1] at hnul
  rw [answers_false_iff]
  intro short
  have hshort : short = Lexical.shorten (joined ++
      ('.' :: family.word.toList ++ '.' :: family.word.toList ++ st.extension.text)) := by
    rw [← hjoined _ hending.1]
    simp [short, Import.Statement.variant, Import.Statement.specific]
  intro hleaves entry hentry
  have hnul' : '\x00' ∉ joined ++
      ('.' :: family.word.toList ++ '.' :: family.word.toList ++ st.extension.text) := by
    rw [List.mem_append, not_or] at hnul ⊢
    exact ⟨hnul.1, hending.2.1⟩
  obtain ⟨front, last, hnames⟩ := Lexical.exists_names_shorten hending hnul' (hshort ▸ hleaves)
  rw [← hshort] at hnames
  have hleft := h.leaves ht (Lexical.names short)
  obtain ⟨before, hbefore⟩ : ∃ before, t.get? (Lexical.names short) = some before := by
    rw [hentry] at hleft
    rcases hbefore : t.get? (Lexical.names short) with _ | before
    · rw [hbefore] at hleft
      cases hleft
    · exact ⟨before, rfl⟩
  rw [hnames] at hbefore
  have hnone := hvariants.of_get? hbefore _ (List.mem_append_right _ List.mem_cons_self) st.extension
  rw [String.toList_ofList] at hnone
  exact absurd (List.suffix_append _ _) hnone

/-- **What is resolved is settled**, in a tree in which imports that found no file find none and those
of variants find no variants. -/
theorem Resolves.settled (h : Resolves family root Nowhere dirs siblings t r)
    (hnames : Every (fun _ name _ => IsPart name) dirs t) (hdirs : ∀ n ∈ dirs, IsPart n)
    (hsiblings : siblings' ⊆ siblings)
    (hfalse : ∀ dirs path, Answers root Nowhere dirs path false → Answers root' Nowhere dirs path false)
    (hvariant : ∀ (dirs : List String) (st : Import.Statement),
      '\x00' ∉ Lexical.joinAll (dirs ++ [String.ofList (st.specific family.word.toList)]) →
      Answers root' Nowhere dirs
        (String.ofList ((st.variant family.word.toList).specific family.word.toList)) false)
    (hnul : ∀ b ∈ r.rebindings,
      '\x00' ∉ Lexical.joinAll ((Lexical.names b.file.toList).dropLast ++ [b.swap.new])) :
    Settled family root' dirs siblings' r.tree := by
  induction h generalizing siblings' with
  | nil => trivial
  | @directory dirs siblings name children rest inner r inside _ ihc ih =>
    obtain ⟨hname, hchildren, hrest⟩ := hnames
    refine ⟨ihc hchildren (fun n hn => ?_) inside.names_sublist.subset fun b hb => ?_,
      ih hrest hdirs hsiblings fun b hb => ?_⟩
    · rcases List.mem_append.1 hn with hn | hn
      · exact hdirs n hn
      · exact List.mem_singleton.1 hn ▸ hname
    · exact hnul b (List.mem_append_left _ hb)
    · exact hnul b (List.mem_append_right _ hb)
  | asset _ ih => exact ih hnames.2 hdirs hsiblings hnul
  | @kept dirs siblings name text text' swaps rest r keeps rebinds _ ih =>
    have hfamily : ∀ c ∈ family.word.toList, Import.isQuote c = false := by
      cases family <;> simp [OsFamily.word, Import.isQuote]
    refine ⟨⟨keeps_of_subset hsiblings keeps, text', rfl, fun st hst => ?_⟩,
      ih hnames.2 hdirs hsiblings fun b hb => hnul b (List.mem_append_right _ hb)⟩
    have hread : Import.Reads [] (Import.pieces (text.getD "").toList) (text.getD "").toList :=
      Import.reads_iff.2 rfl
    obtain ⟨ps, hreads, himports⟩ := rebinds.exists_reads hfamily hread
    obtain rfl : ps = Import.pieces text'.toList := Import.reads_iff.1 hreads
    rcases himports st hst with hanswer | ⟨st', rfl, hswap⟩
    · exact hfalse dirs _ hanswer
    · refine hvariant dirs st' ?_
      have hfree := hnul ⟨_, _⟩ (List.mem_append_left _ (List.mem_map.2 ⟨_, hswap, rfl⟩))
      have hway : ∀ n ∈ dirs ++ [name], IsPart n := fun n hn =>
        (List.mem_append.1 hn).elim (hdirs n) fun hn => List.mem_singleton.1 hn ▸ hnames.1
      rwa [String.toList_ofList, Lexical.names_joinAll (by simp) hway, List.dropLast_concat] at hfree
  | dropped _ _ ih => exact ih hnames.2 hdirs hsiblings hnul

/-- A script that imports another one, which has a variant in a directory. -/
def importingBelow : SourceTree :=
  .directory "sub" (.script "a.linux.mjs" none (.script "a.mjs" none .nil))
    (.script "main.mjs" (some "import x from './sub/a.mjs'") .nil)

end SourceTree

end CrossBuild
