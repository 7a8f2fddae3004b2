import CrossBuild.Proofs.Import.Edits
import CrossBuild.Proofs.SourceTree.Rebindings
import CrossBuild.Proofs.Text.Utf8

/-!
# The texts of a resolved tree

A script that stays in a tree has the text that was read at its path, rebound. The rebindings that name
it are the swaps of that text, in order: no other script has its way of names.
-/

namespace CrossBuild

open FileSystem

namespace SourceTree

variable {family : OsFamily} {root : SourceTree} {told : String → Bool → Prop}
  {dirs dirs' siblings way : List String} {t rest : SourceTree} {r : Resolution} {n name file : String}
  {new : Option String}

/-! ## The swaps of a file -/

/-- The swaps that are noted for a file, in order. -/
def swapsOf (file : String) (rebindings : List Rebinding) : List Import.Swap :=
  (rebindings.filter (·.file == file)).map Rebinding.swap

theorem swapsOf_append (file : String) (bs bs' : List Rebinding) :
    swapsOf file (bs ++ bs') = swapsOf file bs ++ swapsOf file bs' := by
  simp [swapsOf]

theorem swapsOf_own (file : String) (swaps : List Import.Swap) :
    swapsOf file (swaps.map (⟨file, ·⟩)) = swaps := by
  simp [swapsOf, List.filter_map, Function.comp_def]

theorem swapsOf_eq_nil {bs : List Rebinding} (h : ∀ b ∈ bs, b.file ≠ file) : swapsOf file bs = [] := by
  rw [swapsOf, List.filter_eq_nil_iff.2 (by simpa using h), List.map_nil]

/-- A rebinding names a way to a thing in the directory. -/
theorem Resolves.file_of_mem_rebindings (h : Resolves family root told dirs siblings t r)
    (ht : t.Distinct) (hnames : Every (fun _ name _ => IsPart name) dirs' t)
    (hdirs : ∀ n ∈ dirs, IsPart n) {b : Rebinding} (hb : b ∈ r.rebindings) :
    ∃ n more, n ∈ t.names ∧ (∀ m ∈ n :: more, IsPart m) ∧
      b.file = "/".intercalate (dirs ++ n :: more) := by
  obtain ⟨path, name, before, -, hget, -, hfile, -⟩ := h.of_mem_rebindings ht hb
  have hparts := hnames.of_get? hget
  have hne : path ++ [name] ≠ [] := by simp
  rw [List.append_assoc] at hfile
  generalize path ++ [name] = way at hget hparts hfile hne
  obtain ⟨n, more, rfl⟩ := List.exists_cons_of_ne_nil hne
  obtain ⟨first, hfirst⟩ := exists_child?_of_get? hget
  refine ⟨n, more, mem_names_of_child? hfirst, hparts, ?_⟩
  rw [hfile, Lexical.ofList_joinAll fun m hm => ?_]
  exact (List.mem_append.1 hm).elim (hdirs m) (hparts m)

/-- The rebindings of other things in a directory have no swaps for a file. -/
theorem swapsOf_of_not_mem {bs : List Rebinding} {more : List String} {P : String → Prop}
    (hdirs : ∀ n ∈ dirs, IsPart n) (hway : ∀ m ∈ n :: more, IsPart m) (hn : ¬ P n)
    (h : ∀ b ∈ bs, ∃ m more', P m ∧ (∀ k ∈ m :: more', IsPart k) ∧
      b.file = "/".intercalate (dirs ++ m :: more')) :
    swapsOf ("/".intercalate (dirs ++ n :: more)) bs = [] := by
  refine swapsOf_eq_nil fun b hb heq => ?_
  obtain ⟨m, more', hm, hparts, hfile⟩ := h b hb
  have hall : ∀ {k} {ks : List String}, (∀ j ∈ k :: ks, IsPart j) → ∀ j ∈ dirs ++ k :: ks, IsPart j :=
    fun hks j hj => (List.mem_append.1 hj).elim (hdirs j) (hks j)
  have hways := Lexical.eq_of_intercalate (by simp) (by simp) (hall hparts) (hall hway)
    (hfile.symm.trans heq)
  obtain ⟨rfl, -⟩ := List.cons.inj (List.append_cancel_left hways)
  exact hn hm

/-! ## Scripts that stay -/

/-- **A script that stays** is rebound by the swaps that are noted for it, as the questions from its
directory are answered. -/
theorem Resolves.rebinds_answers (h : Resolves family root told dirs siblings t r) (ht : t.Distinct)
    (hnames : Every (fun _ name _ => IsPart name) dirs' t) (hdirs : ∀ n ∈ dirs, IsPart n)
    (hget : r.tree.get? way = some (.script new)) :
    ∃ text text', t.get? way = some (.script text) ∧ new = some text' ∧
      Import.Rebinds family.word.toList (Answers root told (dirs ++ way.dropLast))
        (Import.pieces (text.getD "").toList) text'.toList
        (swapsOf ("/".intercalate (dirs ++ way)) r.rebindings) := by
  induction h generalizing way dirs' with
  | nil => cases way <;> cases hget
  | @directory dirs siblings name children rest inner r inside after ihc ih =>
    obtain ⟨hname, hchildren, hrest⟩ := ht
    obtain ⟨hn, hnamesc, hnamesr⟩ := hnames
    have hdirs' : ∀ n ∈ dirs ++ [name], IsPart n := fun n hmem =>
      (List.mem_append.1 hmem).elim (hdirs n) fun hmem => List.mem_singleton.1 hmem ▸ hn
    cases way with
    | nil => cases hget
    | cons m more =>
      by_cases hm : name = m
      · subst hm
        rw [get?_cons_of_directory (c := inner.tree) (by simp)] at hget
        obtain ⟨text, text', htext, rfl, hrebinds⟩ := ihc hchildren hnamesc hdirs' hget
        refine ⟨text, text', ?_, rfl, ?_⟩
        · rwa [get?_cons_of_directory (c := children) (by simp)]
        · have hway : ∀ k ∈ name :: more, IsPart k :=
            List.forall_mem_cons.2 ⟨hn, hnamesc.of_get? htext⟩
          rw [swapsOf_append, swapsOf_of_not_mem hdirs hway hname fun b hb =>
            after.file_of_mem_rebindings hrest hnamesr hdirs hb, List.append_nil]
          -- the script is below the directory
          have hmore : more ≠ [] := by
            rintro rfl
            cases htext
          rw [List.dropLast_cons_of_ne_nil hmore]
          simpa using hrebinds
      · have hother : ∀ {c rest : SourceTree},
            (SourceTree.directory name c rest).get? (m :: more) = rest.get? (m :: more) :=
          get?_cons_congr (by simp [hm]) more
        rw [hother] at hget
        obtain ⟨text, text', htext, rfl, hrebinds⟩ := ih hrest hnamesr hdirs hget
        refine ⟨text, text', by rwa [hother], rfl, ?_⟩
        rw [swapsOf_append, swapsOf_of_not_mem hdirs (hnamesr.of_get? htext) (P := (· = name))
          (Ne.symm hm) fun b hb => ?_, List.nil_append]
        · exact hrebinds
        · obtain ⟨k, more', -, hparts, hfile⟩ :=
            inside.file_of_mem_rebindings hchildren hnamesc hdirs' hb
          exact ⟨name, k :: more', rfl, List.forall_mem_cons.2 ⟨hn, hparts⟩, by simpa using hfile⟩
  | @asset dirs siblings name source rest r after ih =>
    cases way with
    | nil => cases hget
    | cons m more =>
      by_cases hm : name = m
      · subst hm
        cases more <;> simp [get?] at hget
      · have hother : ∀ {rest : SourceTree},
            (SourceTree.asset name source rest).get? (m :: more) = rest.get? (m :: more) :=
          get?_cons_congr (by simp [hm]) more
        rw [hother] at hget ⊢
        exact ih ht.2 hnames.2 hdirs hget
  | @kept dirs siblings name text text' swaps rest r keeps rebinds after ih =>
    have hfile : String.ofList (Lexical.joinAll (dirs ++ [name])) = "/".intercalate (dirs ++ [name]) :=
      Lexical.ofList_joinAll fun n hmem =>
        (List.mem_append.1 hmem).elim (hdirs n) fun hmem => List.mem_singleton.1 hmem ▸ hnames.1
    cases way with
    | nil => cases hget
    | cons m more =>
      by_cases hm : name = m
      · subst hm
        obtain rfl : more = [] := by
          cases more with
          | nil => rfl
          | cons _ _ => simp [get?] at hget
        rw [get?_singleton, child?_script, if_pos rfl] at hget
        obtain rfl := Entry.script.inj (Option.some.inj hget)
        refine ⟨text, text', by simp [get?_singleton], rfl, ?_⟩
        rw [hfile, swapsOf_append, swapsOf_own, swapsOf_of_not_mem hdirs (by simpa using hnames.1) ht.1
          fun b hb => after.file_of_mem_rebindings ht.2 hnames.2 hdirs hb, List.append_nil]
        simpa using rebinds
      · have hother : ∀ {text : Option String} {rest : SourceTree},
            (SourceTree.script name text rest).get? (m :: more) = rest.get? (m :: more) :=
          get?_cons_congr (by simp [hm]) more
        rw [hother] at hget
        obtain ⟨before, text'', htext, rfl, hrebinds⟩ := ih ht.2 hnames.2 hdirs hget
        refine ⟨before, text'', by rwa [hother], rfl, ?_⟩
        rw [hfile, swapsOf_append, swapsOf_of_not_mem hdirs (hnames.2.of_get? htext)
          (P := (· = name)) (Ne.symm hm) fun b hb => ?_, List.nil_append]
        · exact hrebinds
        · obtain ⟨swap, -, rfl⟩ := List.mem_map.1 hb
          exact ⟨name, [], rfl, by simpa using hnames.1, rfl⟩
  | @dropped dirs siblings name text rest r keeps after ih =>
    obtain ⟨before, text', htext, rfl, hrebinds⟩ := ih ht.2 hnames.2 hdirs hget
    have hne : way ≠ [] := by
      rintro rfl
      cases htext
    exact ⟨before, text', get?_of_rest ht.1 (fun m hm => if_neg hm) hne htext, rfl, hrebinds⟩

theorem Resolves.rebinds (h : Resolves family root told dirs siblings t r) (ht : t.Distinct)
    (hnames : Every (fun _ name _ => IsPart name) dirs' t) (hdirs : ∀ n ∈ dirs, IsPart n)
    (hget : r.tree.get? way = some (.script new)) :
    ∃ text text' told', t.get? way = some (.script text) ∧ new = some text' ∧
      Import.Rebinds family.word.toList told' (Import.pieces (text.getD "").toList) text'.toList
        (swapsOf ("/".intercalate (dirs ++ way)) r.rebindings) := by
  obtain ⟨text, text', htext, hnew, hrebinds⟩ := h.rebinds_answers ht hnames hdirs hget
  exact ⟨text, text', _, htext, hnew, hrebinds⟩

/-! ## Scripts that were read -/

variable {fs : FileSystem} {exclude : List Path} {depth : Nat} {p : Path} {entry : Entry}

/-- A file with the name of a script is a script, and its text was read at its path. -/
theorem text_of_scanTo (h : scanTo fs exclude depth p = .ok t)
    (hget : t.get? (way ++ [n]) = some entry) (hfile : entry.isFile = true)
    (hn : ScriptName.isScript n = true) :
    ∃ text, entry = .script (some text) ∧ fs.text (p.below (way ++ [n])) = .ok text := by
  obtain ⟨d, hd, hchild⟩ := get?_concat_eq_some_iff.1 hget
  obtain ⟨depth', hscan⟩ := scanTo_of_get? h hd
  cases reads_of_child? hscan hchild with
  | directory => cases hfile
  | @script text _ _ read => exact ⟨text, rfl, by rwa [Path.below_below] at read⟩
  | asset _ isScript =>
    rw [hn] at isScript
    cases isScript

end SourceTree

/-- A text is read from its UTF-8 form, with its line ends as line feeds. -/
theorem FileSystem.text_eq_ok_iff {fs : FileSystem} {p : Path} {text : String} :
    fs.text p = .ok text ↔ ∃ b cs, fs.content p = .ok b ∧ Utf8.decode b = .ok cs ∧
      text = String.ofList (Text.unifyNewlines cs) := by
  unfold FileSystem.text
  constructor
  · intro h
    rcases hcontent : fs.content p with f | b <;> rw [hcontent] at h
    · cases h
    dsimp only at h
    rcases hdecode : Utf8.decode b with u | cs <;> rw [hdecode] at h
    · cases h
    · exact ⟨b, cs, rfl, hdecode, (Except.ok.inj h).symm⟩
  · rintro ⟨b, cs, hcontent, hdecode, rfl⟩
    rw [hcontent]
    dsimp only
    rw [hdecode]

end CrossBuild
