import CrossBuild.ScriptName

/-!
# Taking script names apart

The last part of a name is its extension. A word of a family before it, with a part in front, makes the
name one of a variant; so the variant of a name is taken apart into the stem of the name, the family and
the extension of the name.
-/

namespace CrossBuild

namespace Text

/-- Text on both sides of a separator is split on its own. -/
theorem splitAt_append_sep (sep : Char) (s t : List Char) :
    splitAt sep (s ++ sep :: t) = splitAt sep s ++ splitAt sep t := by
  induction s with
  | nil => simp [splitAt]
  | cons c s ih =>
    rw [List.cons_append, splitAt, splitAt, ih]
    split
    · rfl
    · obtain ⟨part, parts, hs⟩ := List.exists_cons_of_ne_nil (splitAt_ne_nil sep s)
      rw [hs]
      rfl

end Text

namespace ScriptName

open Text

variable {name : String} {family : OsFamily}

/-- A word of a family and an extension at the end of a name make it one of a variant. -/
theorem ofString_variant (stem : List Char) (family : OsFamily) {extension : List Char}
    (h : '.' ∉ extension) :
    ofString (String.ofList (stem ++ '.' :: (family.word.toList ++ '.' :: extension))) =
      ⟨String.ofList stem, some family, String.ofList ('.' :: extension)⟩ := by
  have hword : '.' ∉ family.word.toList := by cases family <;> decide
  have hparts : splitAt '.' (stem ++ '.' :: (family.word.toList ++ '.' :: extension)) =
      splitAt '.' stem ++ [family.word.toList] ++ [extension] := by
    rw [splitAt_append_sep, splitAt_append '.' hword, splitAt_eq_singleton '.' h, List.append_assoc]
    rfl
  have hlong : (splitAt '.' stem ++ [family.word.toList]).length > 1 := by
    have := List.length_pos_iff.2 (splitAt_ne_nil '.' stem)
    rw [List.length_append, List.length_singleton]
    omega
  unfold ofString
  rw [String.toList_ofList, hparts]
  simp only [List.dropLast_concat, List.getLastD_concat, if_pos hlong, String.ofList_toList,
    OsFamily.ofWord?_word, Option.isSome_some, if_true, joinPoints, joinWith_splitAt]

/-- The parts of a name that is not that of a variant. -/
theorem ofString_general (stem : List Char) {extension : List Char} (h : '.' ∉ extension)
    (hgeneral : (ofString (String.ofList (stem ++ '.' :: extension))).family = none) :
    ofString (String.ofList (stem ++ '.' :: extension)) =
      ⟨String.ofList stem, none, String.ofList ('.' :: extension)⟩ := by
  have hparts : splitAt '.' (stem ++ '.' :: extension) = splitAt '.' stem ++ [extension] := by
    rw [splitAt_append_sep, splitAt_eq_singleton '.' h]
  unfold ofString at hgeneral ⊢
  rw [String.toList_ofList, hparts] at hgeneral ⊢
  simp only [List.dropLast_concat, List.getLastD_concat] at hgeneral ⊢
  rw [hgeneral]
  simp [joinPoints, joinWith_splitAt]

/-- The extension is a point and what has no point. -/
theorem exists_extension (name : String) :
    ∃ last, '.' ∉ last ∧ (ofString name).extension = String.ofList ('.' :: last) := by
  obtain ⟨before, last, hparts⟩ : ∃ before last, splitAt '.' name.toList = before ++ [last] :=
    ⟨_, _, (List.dropLast_concat_getLast (splitAt_ne_nil '.' name.toList)).symm⟩
  refine ⟨last, not_mem_of_mem_splitAt (s := name.toList) (by rw [hparts]; simp), ?_⟩
  unfold ofString
  rw [hparts]
  dsimp only
  rw [List.getLastD_concat]

/-- A script has one of the extensions of scripts. -/
theorem extension_mem_of_isScript (h : isScript name = true) :
    (ofString name).extension ∈ extensions := by
  have hmem : ∀ (base extension : List Char), '.' ∉ extension → name.toList = base ++ '.' :: extension →
      (ofString name).extension = String.ofList ('.' :: extension) := by
    intro base extension hpoint hname
    unfold ofString
    rw [hname, splitAt_append_sep, splitAt_eq_singleton '.' hpoint]
    dsimp only
    rw [List.getLastD_concat]
  obtain ⟨e, he, hsuffix⟩ := List.any_eq_true.1 h
  obtain ⟨base, hname⟩ := List.isSuffixOf_iff_suffix.1 hsuffix
  simp only [extensions, List.mem_cons, List.not_mem_nil, or_false] at he
  obtain rfl | rfl := he
  · rw [hmem base ['m', 'j', 's'] (by decide) hname.symm]
    decide
  · rw [hmem base ['j', 's'] (by decide) hname.symm]
    decide

theorem isScript_specific (h : isScript name = true) (family : OsFamily) :
    isScript (specific name family) = true := by
  refine List.any_eq_true.2 ⟨_, extension_mem_of_isScript h, List.isSuffixOf_iff_suffix.2 ?_⟩
  unfold specific specificWord
  rw [String.toList_append]
  exact List.suffix_append _ _

/-- **The variant of a name** has the stem and the extension of the name. -/
theorem ofString_specific (name : String) (family : OsFamily) :
    ofString (specific name family) = ⟨(ofString name).stem, some family, (ofString name).extension⟩ := by
  obtain ⟨last, hlast, hextension⟩ := exists_extension name
  have htext : specific name family = String.ofList ((ofString name).stem.toList ++
      '.' :: (family.word.toList ++ '.' :: last)) := by
    unfold specific specificWord
    dsimp only
    rw [hextension, ← String.toList_inj]
    simp
  rw [htext, ofString_variant _ family hlast, String.ofList_toList, hextension]

end ScriptName

end CrossBuild
