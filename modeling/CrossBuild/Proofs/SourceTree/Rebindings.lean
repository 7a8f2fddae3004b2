import CrossBuild.Proofs.SourceTree.Scanned

/-!
# Where rebound imports lead

An import is rebound to a variant that was found: in the tree, or outside of it by a yes to the
question. A variant in the tree is for the family and so it stays, whatever else is dropped. The path
must have no null character, which would cut it before the ending of the variant.
-/

namespace CrossBuild.SourceTree

open CrossBuild.Task

variable {family : OsFamily} {root : SourceTree} {told : String → Bool → Prop}
  {dirs siblings path : List String} {t d rest : SourceTree} {r : Resolution} {n name : String}
  {entry : Entry}

/-! ## Ways of names -/

/-- What is behind the first thing of a directory is found as without it. -/
theorem get?_of_rest (hname : name ∉ rest.names)
    (hchild : ∀ m, name ≠ m → t.child? m = rest.child? m) (hpath : path ≠ [])
    (h : rest.get? path = some entry) : t.get? path = some entry := by
  cases path with
  | nil => exact absurd rfl hpath
  | cons m path =>
    have hne : name ≠ m := by
      rintro rfl
      obtain ⟨entry, hentry⟩ := exists_child?_of_get? h
      exact hname (mem_names_of_child? hentry)
    rw [get?_cons_congr (hchild m hne), h]

/-! ## Rebindings -/

/-- A rebinding is of a script that stays, and its variant was found. -/
theorem Resolves.of_mem_rebindings (h : Resolves family root told dirs siblings t r)
    (ht : t.Distinct) {b : Rebinding} (hb : b ∈ r.rebindings) :
    ∃ path name before after, t.get? (path ++ [name]) = some (.script before) ∧
      r.tree.get? (path ++ [name]) = some (.script after) ∧
      b.file = String.ofList (Lexical.joinAll (dirs ++ path ++ [name])) ∧
      ∃ s : Import.Statement, b.swap.new = String.ofList (s.specific family.word.toList) ∧
        Answers root told (dirs ++ path) b.swap.new true := by
  induction h with
  | nil => cases hb
  | @directory dirs siblings name children rest inner r _ hrest ihc ih =>
    obtain ⟨hname, hchildren, hdistinct⟩ := ht
    rcases List.mem_append.1 hb with hb | hb
    · obtain ⟨path, n, before, after, hbefore, hafter, hfile, hfound⟩ := ihc hchildren hb
      refine ⟨name :: path, n, before, after, ?_, ?_, ?_, ?_⟩
      · rwa [List.cons_append, get?_cons_of_directory (c := children) (by simp)]
      · rwa [List.cons_append, get?_cons_of_directory (c := inner.tree) (by simp)]
      · simpa using hfile
      · simpa using hfound
    · obtain ⟨path, n, before, after, hbefore, hafter, hfound⟩ := ih hdistinct hb
      refine ⟨path, n, before, after, ?_, ?_, hfound⟩
      · exact get?_of_rest hname (fun m hm => if_neg hm) (by simp) hbefore
      · exact get?_of_rest (fun hmem => hname (hrest.names_sublist.subset hmem))
          (fun m hm => if_neg hm) (by simp) hafter
  | @asset dirs siblings name source rest r hrest ih =>
    obtain ⟨path, n, before, after, hbefore, hafter, hfound⟩ := ih ht.2 hb
    refine ⟨path, n, before, after, ?_, ?_, hfound⟩
    · exact get?_of_rest ht.1 (fun m hm => if_neg hm) (by simp) hbefore
    · exact get?_of_rest (fun hmem => ht.1 (hrest.names_sublist.subset hmem))
        (fun m hm => if_neg hm) (by simp) hafter
  | @kept dirs siblings name text text' swaps rest r _ hrebinds hrest ih =>
    rcases List.mem_append.1 hb with hb | hb
    · obtain ⟨swap, hswap, rfl⟩ := List.mem_map.1 hb
      obtain ⟨s, -, -, hnew, hfound⟩ := hrebinds.of_mem hswap
      refine ⟨[], name, text, some text', ?_, ?_, ?_, s, hnew, ?_⟩
      · rw [List.nil_append, get?_singleton]
        exact if_pos rfl
      · rw [List.nil_append, get?_singleton]
        exact if_pos rfl
      · rw [List.append_nil]
      · rwa [List.append_nil]
    · obtain ⟨path, n, before, after, hbefore, hafter, hfound⟩ := ih ht.2 hb
      refine ⟨path, n, before, after, ?_, ?_, hfound⟩
      · exact get?_of_rest ht.1 (fun m hm => if_neg hm) (by simp) hbefore
      · exact get?_of_rest (fun hmem => ht.1 (hrest.names_sublist.subset hmem))
          (fun m hm => if_neg hm) (by simp) hafter
  | @dropped dirs siblings name text rest r _ hrest ih =>
    obtain ⟨path, n, before, after, hbefore, hafter, hfound⟩ := ih ht.2 hb
    exact ⟨path, n, before, after,
      get?_of_rest ht.1 (fun m hm => if_neg hm) (by simp) hbefore, hafter, hfound⟩

/-- A file whose name is one of the family stays. -/
theorem Resolves.isFile_of_family (h : Resolves family root told dirs t.names t r) (ht : t.Distinct)
    (hn : (ScriptName.ofString n).family = some family)
    (hget : t.get? (path ++ [n]) = some entry) (hfile : entry.isFile = true) :
    ∃ after, r.tree.get? (path ++ [n]) = some after ∧ after.isFile = true := by
  obtain ⟨d, hd, hchild⟩ := get?_concat_eq_some_iff.1 hget
  obtain ⟨hdistinct, inner, hinner, hafter⟩ := h.get?_directory ht hd
  have hbecomes := hinner.becomes hdistinct.nodup n
  rw [hchild] at hbecomes
  cases entry with
  | directory c => cases hfile
  | asset source => exact ⟨_, get?_concat_eq_some_iff.2 ⟨_, hafter, hbecomes⟩, rfl⟩
  | script text =>
    have hkeeps : keeps family d.names n = true := by
      unfold keeps
      rw [hn]
      exact beq_self_eq_true family
    rw [Becomes, if_pos hkeeps] at hbecomes
    obtain ⟨text', htext⟩ := hbecomes
    exact ⟨_, get?_concat_eq_some_iff.2 ⟨_, hafter, htext⟩, rfl⟩

/-- A variant that was found in the tree stays there, unless a null character cuts its path. -/
theorem Resolves.lands (h : Resolves family t told [] t.names t r) (ht : t.Distinct)
    (s : Import.Statement) {path : String} (hpath : path = String.ofList (s.specific family.word.toList))
    (hnul : '\x00' ∉ Lexical.joinAll (dirs ++ [path])) (hfound : Answers t told dirs path true) :
    let short := Lexical.shorten (Lexical.joinAll (dirs ++ [path]))
    (Lexical.leaves short = false ∧
        ∃ after, r.tree.get? (Lexical.names short) = some after ∧ after.isFile = true) ∨
      told (String.ofList short) true := by
  subst hpath
  intro short
  rcases hfound with ⟨hleaves, entry, hentry, hfile⟩ | ⟨-, htold⟩
  · refine .inl ⟨hleaves, ?_⟩
    obtain ⟨joined, hjoined⟩ := Lexical.joinAll_append_ending dirs s.path
    have hending := Import.isEnding_variant family s.extension
    have hshort : short = Lexical.shorten (joined ++ ('.' :: family.word.toList ++ s.extension.text)) := by
      rw [← hjoined _ hending.1, ← s.specific_eq]
    rw [s.specific_eq, hjoined _ hending.1] at hnul
    obtain ⟨front, last, hnames⟩ := Lexical.exists_names_shorten hending hnul (hshort ▸ hleaves)
    rw [← hshort] at hnames
    rw [hnames] at hentry ⊢
    exact h.isFile_of_family ht (Import.family_of_variant last family s.extension) hentry hfile
  · exact .inr htold

variable {σ : Type}

/-- A script beside a script and its variant. -/
def importing (script : String) : SourceTree :=
  .script "a.linux.mjs" none (.script "a.mjs" none (.script "main.mjs" (some script) .nil))

theorem every_importing (script : String) :
    Every (fun _ name _ => IsPart name) [] (importing script) := by
  refine ⟨?_, ?_, ?_, True.intro⟩
  all_goals exact ⟨by decide, by decide, by decide⟩

theorem distinct_importing (script : String) : (importing script).Distinct := by
  refine ⟨?_, ?_, ?_, True.intro⟩
  all_goals simp [names]

end CrossBuild.SourceTree
