import CrossBuild.Proofs.BuildTree.Texts
import CrossBuild.Proofs.Import.Reread

/-!
# Imports of what is beside a script

A script at the top of a source may import another one from beside it. Whether the import has a variant is
looked up in the tree that was read, and else at the source, which has nothing for it then: what a look finds
beside the script was read into the tree (`Built.found_iff`). So the variant is found exactly if it is a
file of the build tree.
-/

namespace CrossBuild

open FileSystem SourceTree

namespace Import

variable {name : String} {family : OsFamily}

/-- The name of a script and that of its variant. -/
theorem exists_stem (hscript : ScriptName.isScript name = true)
    (hgeneral : (ScriptName.ofString name).family = none) (family : OsFamily) :
    ∃ stem, ∃ e : Extension, name.toList = stem ++ e.text ∧
      (ScriptName.specific name family).toList = stem ++ ('.' :: family.word.toList ++ e.text) := by
  obtain ⟨e, extension, htext, hpoint, stem, hname⟩ : ∃ e : Extension, ∃ extension,
      e.text = '.' :: extension ∧ '.' ∉ extension ∧ e.text <:+ name.toList := by
    obtain ⟨ending, hmem, hsuffix⟩ := List.any_eq_true.1 hscript
    rw [List.isSuffixOf_iff_suffix] at hsuffix
    simp only [ScriptName.extensions, List.mem_cons, List.not_mem_nil, or_false] at hmem
    obtain rfl | rfl := hmem
    · exact ⟨.mjs, _, rfl, by decide, hsuffix⟩
    · exact ⟨.js, _, rfl, by decide, hsuffix⟩
  refine ⟨stem, e, hname.symm, ?_⟩
  obtain rfl : String.ofList (stem ++ '.' :: extension) = name := by
    rw [← htext, hname, String.ofList_toList]
  unfold ScriptName.specific ScriptName.specificWord
  dsimp only
  rw [ScriptName.ofString_general stem hpoint hgeneral, htext]
  simp

/-- The variant of a name can stand in a directory. -/
theorem isName_specific (hname : IsName name) (hscript : ScriptName.isScript name = true)
    (hgeneral : (ScriptName.ofString name).family = none) : IsName (ScriptName.specific name family) := by
  obtain ⟨stem, e, hstem, hspecific⟩ := exists_stem hscript hgeneral family
  obtain ⟨hslash, hnul, hlength⟩ := isEnding_variant family e
  obtain ⟨⟨-, hnameSlash, hnameNul⟩, -, -⟩ := hname
  rw [hstem, List.mem_append, not_or] at hnameSlash hnameNul
  have hfree : '/' ∉ (ScriptName.specific name family).toList := by
    rw [hspecific, List.mem_append, not_or]
    exact ⟨hnameSlash.1, hslash⟩
  have hlong : 2 < (ScriptName.specific name family).toList.length := by
    rw [hspecific, List.length_append]
    omega
  obtain ⟨hpart, hdots⟩ := isPart_of_length hfree hlong
  refine ⟨⟨hpart.1, hfree, ?_⟩, hpart.2.2, hdots⟩
  rw [hspecific, List.mem_append, not_or]
  exact ⟨hnameNul.1, hnul⟩

/-- The variant's path of an import of a name beside the script. -/
theorem specific_of_imported {st : Statement} (hst : st.path ≠ [])
    (hscript : ScriptName.isScript name = true) (hgeneral : (ScriptName.ofString name).family = none)
    (himported : st.imported = ("./" ++ name).toList) :
    st.specific family.word.toList = ("./" ++ ScriptName.specific name family).toList := by
  obtain ⟨stem, e, hstem, hspecific⟩ := exists_stem hscript hgeneral family
  rw [String.toList_append, hstem, ← List.append_assoc] at himported
  -- a path is divided in one way
  have hdivided : splitExtension? st.imported = some (st.path, st.extension) :=
    splitExtension?_eq_some_iff.2 ⟨hst, rfl⟩
  rw [splitExtension?_eq_some_iff.2 ⟨by simp, himported⟩] at hdivided
  obtain ⟨hpath, hextension⟩ := Prod.mk.inj (Option.some.inj hdivided)
  rw [st.specific_eq, ← hpath, ← hextension, String.toList_append, hspecific, List.append_assoc]

variable {told : String → Bool → Prop} {front back : List Piece} {st : Statement} {text : List Char}
  {swaps : List Swap} {word : List Char}

/-- A script is rebound before an import, at it and behind it. -/
theorem Rebinds.of_append (h : Rebinds word told (front ++ .statement st :: back) text swaps) :
    ∃ found textFront swapsFront textBack swapsBack,
      told (String.ofList (st.specific word)) found ∧
      Rebinds word told front textFront swapsFront ∧ Rebinds word told back textBack swapsBack ∧
      text = textFront ++ reboundText word (.statement st, found) ++ textBack ∧
      swaps = swapsFront ++ (swap? word (.statement st, found)).toList ++ swapsBack := by
  induction front generalizing text swaps with
  | nil =>
    cases h with
    | stays answer rest => exact ⟨false, [], [], _, _, answer, .nil, rest, rfl, rfl⟩
    | moves answer rest => exact ⟨true, [], [], _, _, answer, .nil, rest, rfl, rfl⟩
  | cons piece front ih =>
    cases h with
    | plain c rest =>
      obtain ⟨found, textFront, swapsFront, textBack, swapsBack, hfound, hfront, hback, rfl, rfl⟩ := ih rest
      exact ⟨found, _, _, _, _, hfound, .plain c hfront, hback, rfl, rfl⟩
    | stays answer rest =>
      obtain ⟨found, textFront, swapsFront, textBack, swapsBack, hfound, hfront, hback, rfl, rfl⟩ := ih rest
      exact ⟨found, _, _, _, _, hfound, .stays answer hfront, hback, by simp, rfl⟩
    | moves answer rest =>
      obtain ⟨found, textFront, swapsFront, textBack, swapsBack, hfound, hfront, hback, rfl, rfl⟩ := ih rest
      exact ⟨found, _, _, _, _, hfound, .moves answer hfront, hback, by simp, rfl⟩

end Import

namespace SourceTree

variable {t : SourceTree} {told : String → Bool → Prop} {n : String} {found : Bool}

/-- What the question for an import from beside a script at the top of a tree is answered. -/
theorem Answers.sibling (h : Answers t told [] ("./" ++ n) found) (hn : IsName n) :
    (∃ entry, t.get? [n] = some entry ∧ entry.isFile = found) ∨ (t.get? [n] = none ∧ told n found) := by
  have hshort : Lexical.shorten (Lexical.joinAll ([] ++ ["./" ++ n])) = n.toList := Lexical.shorten_sibling hn
  have hleaves : Lexical.leaves n.toList = false := by
    obtain ⟨⟨-, hslash, -⟩, -, hdots⟩ := hn
    unfold Lexical.leaves
    rw [Bool.or_eq_false_iff, Bool.or_eq_false_iff, beq_eq_false_iff_ne, beq_eq_false_iff_ne,
      ← Bool.not_eq_true, List.isPrefixOf_iff_prefix]
    refine ⟨⟨fun heq => hdots (String.toList_inj.1 heq), ?_⟩,
      fun hhead => hslash (List.mem_of_mem_head? hhead)⟩
    rintro ⟨rest, hrest⟩
    exact hslash (hrest ▸ by simp)
  have hnames : Lexical.names n.toList = [n] := by
    have hpart : ∀ n' ∈ [n], IsPart n' := by simpa using hn.isPart
    simpa [Lexical.joinAll] using Lexical.names_joinAll (by simp) hpart
  unfold Answers at h
  dsimp only at h
  rw [hshort, hleaves, hnames, String.ofList_toList] at h
  simpa using h

end SourceTree

namespace BuildTree.Built

variable {before made after : FileSystem} {source target : Path} {family : OsFamily}
  {exclude skip : List Path} {told : String → Bool → Prop} {t : SourceTree} {r : Resolution}
  {s l d : Location} {n : String} {found : Bool}

/-- Of what is beside a script at the top of the source, a file for the family is found exactly if it is in
the build tree. -/
theorem found_iff (h : Built before made after source target family exclude skip
      (Looks (before.removeBelow l) source) t r s l d)
    (hn : IsName n) (hfamily : (ScriptName.ofString n).family = some family)
    (hanswer : Answers t (Looks (before.removeBelow l) source) [] ("./" ++ n) found) :
    found = true ↔ after.IsFileAt (d ++ [n]) := by
  have hstays : (∃ entry, t.get? [n] = some entry ∧ entry.isFile = true) ↔ after.IsFileAt (d ++ [n]) := by
    rw [h.isFileAt_iff]
    constructor
    · rintro ⟨entry, hentry, hfile⟩
      rw [← List.nil_append [n]] at hentry
      exact h.resolves.isFile_of_family h.distinct hfamily hentry hfile
    · exact fun hfile => (h.resolves.isFile_iff h.distinct).2 (.inl hfile)
  rw [← hstays]
  rcases hanswer.sibling hn with ⟨entry, hentry, rfl⟩ | ⟨hnone, hlook⟩
  · exact ⟨fun hfile => ⟨entry, hentry, hfile⟩, fun ⟨_, hother, hfile⟩ =>
      Option.some.inj (hentry.symm.trans hother) ▸ hfile⟩
  · refine iff_of_false ?_ ?_
    · rintro rfl
      -- what the look found was read into the tree
      have hlink := h.noLink _ (List.prefix_append s [n])
      obtain ⟨b, x, hnode⟩ := isFile_child h.lies.directory h.lies.place hn hlink hlook
      have hshows := h.lies.shows h.sound.removeBelow h.noLink n
      rw [hnode, ← get?_singleton, hnone] at hshows
      cases hshows
    · rintro ⟨entry, hentry, -⟩
      cases hnone.symm.trans hentry

theorem not_link (h : Built before made after source target family exclude skip told t r s l d)
    (text : String) : after.node? (d ++ [n]) ≠ some (.link text) := by
  intro hlink
  rcases h.adds.others (d ++ [n]) with hsame | ⟨way, -, hget, heq⟩
  · rw [hsame, h.renewed.empty h.sound (List.cons_ne_nil n [])] at hlink
    cases hlink
  · obtain rfl := List.append_cancel_left heq
    obtain ⟨entry, hentry⟩ := Option.ne_none_iff_exists'.1 hget
    have hheld := h.adds.holds _ _ (by simp) hentry
    cases entry with
    | script _ | directory _ => cases hheld.symm.trans hlink
    | asset _ =>
      obtain ⟨_, _, _, _, hnode⟩ := hheld
      cases hnode.symm.trans hlink

/-- A script at the top of a resolved tree was read at the top of the source and rebound. -/
theorem exists_text (h : Built before made after source target family exclude skip told t r s l d)
    {new : Option String} (hget : r.tree.get? [n] = some (.script new)) :
    ∃ text text', new = some text' ∧ before.text (source / n) = .ok text ∧
      Import.Rebinds family.word.toList (Answers t told []) (Import.pieces text.toList) text'.toList
        (swapsOf n r.rebindings) := by
  have hnames : Every (fun _ name _ => IsName name) [] t :=
    h.named.mono fun _ _ _ hnamed => hnamed _ (by simp)
  obtain ⟨text, text', hbefore, rfl, hrebinds⟩ := h.resolves.rebinds_answers h.distinct
    (hnames.mono fun _ _ _ hname => hname.isPart) (fun _ hn => by cases hn) hget
  have hscript : ScriptName.isScript n = true := by
    have hshows := h.lies.shows h.sound.removeBelow h.noLink n
    rw [← get?_singleton, hbefore] at hshows
    generalize (before.removeBelow l).node? (s ++ [n]) = node at hshows
    cases hshows with
    | script isScript => exact isScript
  obtain ⟨depth, hscan⟩ := h.lies.scan
  have hway : t.get? ([] ++ [n]) = some (.script text) := hbefore
  obtain ⟨read, heq, hread⟩ := text_of_scanTo hscan hway rfl hscript
  obtain rfl := Entry.script.inj heq
  obtain ⟨b, cs, hcontent, hdecode, rfl⟩ := text_eq_ok_iff.1 hread
  refine ⟨_, text', rfl, text_eq_ok_iff.2 ⟨b, cs, ?_, hdecode, rfl⟩, ?_⟩
  · rw [source.div_name (hnames.of_get? hbefore n List.mem_cons_self)]
    exact (Gains.removeBelow before l).content hcontent
  · simpa using hrebinds

/-- A file of the build tree is found there. -/
theorem isFile_target_iff (h : Built before made after source target family exclude skip told t r s l d)
    (hfiles : ∀ n entry, r.tree.child? n = some entry → entry.isFile = true →
      after.place true (target.below [n]) = .ok (d ++ [n]))
    (hn : IsName n) : after.isFile (target / n) = .ok true ↔ after.IsFileAt (d ++ [n]) := by
  have hdirectory := h.renewed.makesWay.directory
  constructor
  · refine isFile_child (h.adds.gains.isDirectoryAt hdirectory) ?_ hn h.not_link
    exact h.adds.gains.place_of_node h.renewed.makesWay.place (isDirectoryAt_iff.1 hdirectory)
  · rintro hfile
    obtain ⟨entry, hentry, hisFile⟩ := h.isFileAt_iff.1 hfile
    obtain ⟨b, x, hnode⟩ := hfile
    rw [get?_singleton] at hentry
    rw [target.div_name hn]
    exact isFile_eq_true_iff.2 ⟨_, b, x, hfiles n entry hentry hisFile, hnode⟩

end BuildTree.Built

end CrossBuild
