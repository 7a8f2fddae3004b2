import CrossBuild.Manifest
import CrossBuild.Patch.Plan
import CrossBuild.Proofs.Patch.Apply

/-!
# What patches spare

For all module names that are admitted, no patch of the plan cuts the marker of an earlier one. Each
anchor has a mark at the edge where something goes in that no marker before it could reach over.
-/

namespace CrossBuild.Patch

open Splice SourceText

theorem not_mem_identifier {s : List Char} (hs : Module.isIdentifier s = true) {c : Char}
    (hc : Module.isIdentifierChar c = false) : c ∉ s := by
  intro hmem
  cases s with
  | nil => cases hmem
  | cons a s =>
    obtain ⟨hstart, hrest⟩ := Bool.and_eq_true_iff.1 hs
    rcases List.mem_cons.1 hmem with rfl | hmem
    · simp [Module.isIdentifierChar, hstart] at hc
    · rw [List.all_eq_true.1 hrest c hmem] at hc
      cases hc

/-- What a name does not hold: everything that is in no identifier and no line feed. -/
theorem not_mem_name {name : String} (hn : Module.isName name.toList = true) {c : Char}
    (hc : Module.isIdentifierChar c = false) (hfeed : c ≠ '\n') : c ∉ name.toList := by
  intro hmem
  rcases Bool.or_eq_true_iff.1 hn with h | h
  · exact not_mem_identifier h hc hmem
  · obtain ⟨hlast, h⟩ := Bool.and_eq_true_iff.1 h
    obtain ⟨s, hsplit⟩ : ∃ s, name.toList = s ++ ['\n'] :=
      List.getLast?_eq_some_iff.1 (by simpa using hlast)
    rw [hsplit, List.dropLast_concat] at h
    rw [hsplit, List.mem_append, List.mem_singleton] at hmem
    rcases hmem with hmem | rfl
    · exact not_mem_identifier h hc hmem
    · exact hfeed rfl

/-! ## Edges of anchors -/

theorem char_mem_map {s : List Char} {c : Char} : SourceChar.char c ∈ s.map .char ↔ c ∈ s :=
  List.mem_map_of_injective fun _ _ => SourceChar.char.inj

theorem char_not_mem_ofString {c : Char} {s : String} (h : c ∉ s.toList) :
    SourceChar.char c ∉ ofString s :=
  fun hmem => h (char_mem_map.1 hmem)

theorem clearAfter_ofString {anchor marker : String} (mark : String) (c : Char)
    (hmark : mark.toList <:+ anchor.toList)
    (hhead : mark.toList.all (marker.toList.head? != some ·) = true)
    (hc : c ∈ mark.toList) (hm : c ∉ marker.toList.dropLast) :
    ClearAfter (ofString anchor) (ofString marker) := by
  refine clearAfter_of_mark (ofString mark) (.char c) (hmark.map _) ?_ (char_mem_map.2 hc) ?_
  · intro a ha
    unfold ofString at ha ⊢
    rw [List.head?_map] at ha
    obtain ⟨b, hb, rfl⟩ := Option.map_eq_some_iff.1 ha
    rw [char_mem_map]
    exact fun hmem => bne_iff_ne.1 (List.all_eq_true.1 hhead b hmem) hb
  · unfold ofString
    rw [← List.map_dropLast, char_mem_map]
    exact hm

theorem clearBefore_ofString {anchor marker : String} (mark : String) (c : Char)
    (hmark : mark.toList <+: anchor.toList)
    (hlast : mark.toList.all (marker.toList.getLast? != some ·) = true)
    (hc : c ∈ mark.toList) (hm : c ∉ marker.toList.tail) :
    ClearBefore (ofString anchor) (ofString marker) := by
  refine clearBefore_of_mark (ofString mark) (.char c) (hmark.map _) ?_ (char_mem_map.2 hc) ?_
  · intro a ha
    unfold ofString at ha ⊢
    rw [List.getLast?_map] at ha
    obtain ⟨b, hb, rfl⟩ := Option.map_eq_some_iff.1 ha
    rw [char_mem_map]
    exact fun hmem => bne_iff_ne.1 (List.all_eq_true.1 hlast b hmem) hb
  · unfold ofString
    rw [← List.map_tail, char_mem_map]
    exact hm

theorem within_ofString {a b : String} (h : a.toList <:+: b.toList) : ofString a <:+: ofString b :=
  h.map _

theorem within_of_ofString {a b : String} (h : ofString a <:+: ofString b) :
    a.toList <:+: b.toList := by
  obtain ⟨x, y, h⟩ := h
  obtain ⟨u, v, hb, hu, -⟩ := List.map_eq_append_iff.1 h.symm
  obtain ⟨w, z, rfl, -, hz⟩ := List.map_eq_append_iff.1 hu
  rw [hb, List.map_injective_iff.2 (fun _ _ => SourceChar.char.inj) hz]
  exact ⟨w, v, rfl⟩

/-! ## The texts around a name -/

theorem toList_declarationText (name : String) : (declarationText name).toList =
    "JSModuleDef *js_init_module_".toList ++ name.toList ++
      "(JSContext *ctx, const char *module_name);".toList := by
  unfold declarationText
  rw [String.toList_append, String.toList_append]
  rfl

theorem toList_setupText (name : String) : (setupText name).toList =
    "js_init_module_".toList ++ name.toList ++ "(ctx, \"".toList ++ name.toList ++
      "\");".toList := by
  unfold setupText
  rw [String.toList_append, String.toList_append, String.toList_append, String.toList_append]
  rfl

theorem toList_listingText (name : String) : (listingText name).toList =
    "namelist_add(&cmodule_list, \"".toList ++ name.toList ++ "\", \"".toList ++ name.toList ++
      "\", 0);".toList := by
  unfold listingText
  rw [String.toList_append, String.toList_append, String.toList_append, String.toList_append]
  rfl

theorem not_mem_dropLast_append {c : Char} {front back : List Char} (hfront : c ∉ front)
    (hback : c ∉ back.dropLast) (hne : back ≠ []) : c ∉ (front ++ back).dropLast := by
  rw [List.dropLast_append_of_ne_nil hne, List.mem_append]
  rintro (h | h)
  · exact hfront h
  · exact hback h

theorem head?_declarationText (name : String) :
    (declarationText name).toList.head? = some 'J' := by
  rw [toList_declarationText]
  rfl

theorem head?_setupText (name : String) : (setupText name).toList.head? = some 'j' := by
  rw [toList_setupText]
  rfl

theorem head?_listingText (name : String) : (listingText name).toList.head? = some 'n' := by
  rw [toList_listingText]
  rfl

theorem getLast?_declarationText (name : String) :
    (declarationText name).toList.getLast? = some ';' := by
  rw [toList_declarationText, List.getLast?_append]
  rfl

section
variable {name : String} (hn : Module.isName name.toList = true)
include hn

theorem quote_not_mem_declarationText : '"' ∉ (declarationText name).toList := by
  rw [toList_declarationText, List.mem_append, List.mem_append]
  rintro ((h | h) | h)
  · exact absurd h (by decide)
  · exact not_mem_name hn (by decide) (by decide) h
  · exact absurd h (by decide)

theorem brace_not_mem_declarationText : '\x7b' ∉ (declarationText name).toList := by
  have hname : '\x7b' ∉ name.toList := not_mem_name hn (by decide) (by decide)
  rw [toList_declarationText]
  simp only [List.mem_append, hname, or_false]
  decide

theorem dot_not_mem_setupText : '.' ∉ (setupText name).toList := by
  have hname : '.' ∉ name.toList := not_mem_name hn (by decide) (by decide)
  rw [toList_setupText]
  simp only [List.mem_append, hname, or_false]
  decide

theorem dot_not_mem_listingText : '.' ∉ (listingText name).toList := by
  have hname : '.' ∉ name.toList := not_mem_name hn (by decide) (by decide)
  rw [toList_listingText]
  simp only [List.mem_append, hname, or_false]
  decide

theorem semicolon_declarationText : ';' ∉ (declarationText name).toList.dropLast := by
  have hname : ';' ∉ name.toList := not_mem_name hn (by decide) (by decide)
  rw [toList_declarationText]
  refine not_mem_dropLast_append ?_ (by decide) (by decide)
  simp only [List.mem_append, hname, or_false]
  decide

theorem semicolon_setupText : ';' ∉ (setupText name).toList.dropLast := by
  have hname : ';' ∉ name.toList := not_mem_name hn (by decide) (by decide)
  rw [toList_setupText]
  refine not_mem_dropLast_append ?_ (by decide) (by decide)
  simp only [List.mem_append, hname, or_false]
  decide

theorem semicolon_listingText : ';' ∉ (listingText name).toList.dropLast := by
  have hname : ';' ∉ name.toList := not_mem_name hn (by decide) (by decide)
  rw [toList_listingText]
  refine not_mem_dropLast_append ?_ (by decide) (by decide)
  simp only [List.mem_append, hname, or_false]
  decide

end

/-! ## Which patches spare which markers -/

/-- Nothing that has a semicolon at its end alone reaches over a semicolon. -/
theorem clearAfter_semicolon {anchor : String} (marker : String) (hanchor : [';'] <:+ anchor.toList)
    (hhead : marker.toList.head? ≠ some ';') (hm : ';' ∉ marker.toList.dropLast) :
    ClearAfter (ofString anchor) (ofString marker) := by
  refine clearAfter_ofString ";" ';' hanchor ?_ (by decide) hm
  rw [show (";" : String).toList = [';'] from rfl]
  simpa using hhead

section
variable {name : String} (hn : Module.isName name.toList = true)
include hn

theorem clearAfter_header_declaration :
    ClearAfter (ofString Anchor.libraryHeader) (ofString (declarationText name)) := by
  refine clearAfter_ofString "\"" '"' (by decide) ?_ (by decide) ?_
  · rw [head?_declarationText]
    decide
  · exact fun h => quote_not_mem_declarationText hn ((List.dropLast_sublist _).subset h)

theorem clearAfter_header_setup :
    ClearAfter (ofString Anchor.libraryHeader) (ofString (setupText name)) := by
  refine clearAfter_ofString ".h\"" '.' (by decide) ?_ (by decide) ?_
  · rw [head?_setupText]
    decide
  · exact fun h => dot_not_mem_setupText hn ((List.dropLast_sublist _).subset h)

theorem clearAfter_header_listing :
    ClearAfter (ofString Anchor.libraryHeader) (ofString (listingText name)) := by
  refine clearAfter_ofString ".h\"" '.' (by decide) ?_ (by decide) ?_
  · rw [head?_listingText]
    decide
  · exact fun h => dot_not_mem_listingText hn ((List.dropLast_sublist _).subset h)

end

theorem clearAfter_header_process :
    ClearAfter (ofString Anchor.libraryHeader) (ofString processHeader.marker) :=
  clearAfter_ofString "\"" '"' (by decide) (by decide) (by decide) (by decide)

theorem declaration_spares {m : SourceText} (h : ClearAfter (ofString Anchor.libraryHeader) m)
    (name : String) : (declaration name).Spares ofString m := by
  intro anchor hanchor
  cases hanchor
  exact h

theorem setup_spares {m : SourceText} (h : ClearAfter (ofString Anchor.osSetup) m)
    (name : String) : (setup name).Spares ofString m := by
  intro anchor hanchor
  cases hanchor
  exact h

theorem listing_spares {m : SourceText} (h : ClearAfter (ofString Anchor.osListing) m)
    (name : String) : (listing name).Spares ofString m := by
  intro anchor hanchor
  cases hanchor
  exact h

theorem processHeader_spares (m : SourceText) : processHeader.Spares ofString m := by
  intro anchor hanchor
  cases hanchor

theorem starterText_spares {m : SourceText} (h : ClearBefore (ofString Anchor.workerClass) m)
    (text : String) : (starterText text).Spares ofString m := by
  intro anchor hanchor
  cases hanchor
  exact h

theorem starterTable_spares {m : SourceText} (hbefore : ClearBefore (ofString Anchor.execEntry) m)
    (hafter : ClearAfter (ofString Anchor.execEntry) m) : starterTable.Spares ofString m := by
  intro anchor hanchor
  cases hanchor
  refine ⟨hbefore, hafter, ofString ("#if defined(_WIN32)\n" ++ starterEntry ++ "\n#else\n"),
    ofString "\n#endif", ?_⟩
  simp [starterTable, ofString]

/-- The markers that stand in the library before the process starter is put in. -/
theorem starter_spares {m : String} (hhead : m.toList.head? = some 'J' ∨ m.toList.head? = some '#')
    (hlast : m.toList.getLast? = some ';' ∨ m.toList.getLast? = some '>')
    (hquote : '"' ∉ m.toList) (hbrace : '\x7b' ∉ m.toList) (text : String) :
    (starterText text).Spares ofString (ofString m) ∧ starterTable.Spares ofString (ofString m) := by
  have hquote' : '"' ∉ m.toList.tail := fun h => hquote (List.mem_of_mem_tail h)
  refine ⟨starterText_spares ?_ text, starterTable_spares ?_ ?_⟩
  · refine clearBefore_ofString Anchor.workerClass '\x7b' (List.prefix_refl _) ?_
      (by decide) fun h => hbrace (List.mem_of_mem_tail h)
    rcases hlast with h | h <;> rw [h] <;> decide
  · refine clearBefore_ofString Anchor.execEntry '"' (List.prefix_refl _) ?_
      (by decide) hquote'
    rcases hlast with h | h <;> rw [h] <;> decide
  · refine clearAfter_ofString "\", 1, js_os_exec )," '"' (by decide) ?_ (by decide)
      fun h => hquote ((List.dropLast_sublist _).subset h)
    rcases hhead with h | h <;> rw [h] <;> decide

theorem starterTable_spares_starter : starterTable.Spares ofString (ofString (starterName ++ "(")) := by
  refine starterTable_spares ?_ ?_
  · exact clearBefore_ofString "    JS" 'J' (by decide) (by decide) (by decide)
      (by decide)
  · exact clearAfter_ofString "," ',' (by decide) (by decide) (by decide)
      (by decide)

/-! ## The texts of a module -/

/-- What a patched file of the engine has to hold of a module. -/
def texts (name : String) : EngineFile → List String
  | .library => [declarationText name]
  | .interpreter => [declarationText name, setupText name]
  | .precompiler => [declarationText name, listingText name]

theorem texts_cases {name t : String} {f : EngineFile} (h : t ∈ texts name f) :
    t = declarationText name ∨ (f ≠ .library ∧ (t = setupText name ∨ t = listingText name)) := by
  cases f with
  | library => exact .inl (List.mem_singleton.1 h)
  | interpreter =>
    rcases List.mem_pair.1 h with rfl | rfl
    · exact .inl rfl
    · exact .inr ⟨by decide, .inl rfl⟩
  | precompiler =>
    rcases List.mem_pair.1 h with rfl | rfl
    · exact .inl rfl
    · exact .inr ⟨by decide, .inr rfl⟩

variable {modules : List String} {starter : Option String}

/-- The patches of a file other than the library, each with the module it is for. -/
theorem plan_cases {g : EngineFile} (hg : g ≠ .library) {q : Patch}
    (hq : q ∈ plan modules starter g) : ∃ n ∈ modules, q.marker ∈ texts n g ∧
      (q = declaration n ∨ q = setup n ∨ q = listing n) := by
  cases g with
  | library => exact absurd rfl hg
  | interpreter =>
    obtain ⟨n, hn, hq⟩ := List.mem_flatMap.1 hq
    rcases List.mem_pair.1 hq with rfl | rfl
    · exact ⟨n, hn, List.mem_pair.2 (.inl rfl), .inl rfl⟩
    · exact ⟨n, hn, List.mem_pair.2 (.inr rfl), .inr (.inl rfl)⟩
  | precompiler =>
    obtain ⟨n, hn, hq⟩ := List.mem_flatMap.1 hq
    rcases List.mem_pair.1 hq with rfl | rfl
    · exact ⟨n, hn, List.mem_pair.2 (.inl rfl), .inl rfl⟩
    · exact ⟨n, hn, List.mem_pair.2 (.inr rfl), .inr (.inr rfl)⟩

/-- The patches of the library. -/
theorem plan_library_cases {q : Patch} (hq : q ∈ plan modules starter .library) :
    q = processHeader ∨ (∃ n ∈ modules, q = declaration n) ∨
      ∃ text, starter = some text ∧ (q = starterText text ∨ q = starterTable) := by
  rcases List.mem_append.1 hq with hq | hq
  · rcases List.mem_cons.1 hq with rfl | hq
    · exact .inl rfl
    · obtain ⟨n, hn, rfl⟩ := List.mem_map.1 hq
      exact .inr (.inl ⟨n, hn, rfl⟩)
  · rcases starter with _ | text
    · cases hq
    · exact .inr (.inr ⟨text, rfl, List.mem_pair.1 hq⟩)

theorem clear_texts {name t : String} {f : EngineFile} (hn : Module.isName name.toList = true)
    (ht : t ∈ texts name f) : ClearAfter (ofString Anchor.libraryHeader) (ofString t) ∧
      t.toList.head? ≠ some ';' ∧ ';' ∉ t.toList.dropLast := by
  rcases texts_cases ht with rfl | ⟨-, rfl | rfl⟩
  · refine ⟨clearAfter_header_declaration hn, ?_, semicolon_declarationText hn⟩
    rw [head?_declarationText]
    decide
  · refine ⟨clearAfter_header_setup hn, ?_, semicolon_setupText hn⟩
    rw [head?_setupText]
    decide
  · refine ⟨clearAfter_header_listing hn, ?_, semicolon_listingText hn⟩
    rw [head?_listingText]
    decide

/-- **The texts of a module are spared** by all patches of the same file and of the files after it,
whatever the process starter is. -/
theorem spares_texts {name t : String} {f g : EngineFile} (hn : Module.isName name.toList = true)
    (ht : t ∈ texts name f) (hfg : f = .library ∨ g ≠ .library) :
    ∀ q ∈ plan modules starter g, q.Spares ofString (ofString t) := by
  intro q hq
  obtain ⟨hheader, hhead, hsemicolon⟩ := clear_texts hn ht
  by_cases hg : g = .library
  · subst hg
    have hdeclaration : t = declarationText name := by
      rcases texts_cases ht with h | ⟨hf, -⟩
      · exact h
      · exact absurd rfl (hfg.elim (fun h => absurd h hf) id)
    subst hdeclaration
    rcases plan_library_cases hq with rfl | ⟨n, -, rfl⟩ | ⟨text, -, hq⟩
    · exact processHeader_spares _
    · exact declaration_spares hheader n
    · obtain ⟨htext, htable⟩ := starter_spares (.inl (head?_declarationText name))
        (.inl (getLast?_declarationText name)) (quote_not_mem_declarationText hn)
        (brace_not_mem_declarationText hn) text
      rcases hq with rfl | rfl
      · exact htext
      · exact htable
  · obtain ⟨n, -, -, rfl | rfl | rfl⟩ := plan_cases hg hq
    · exact declaration_spares hheader n
    · exact setup_spares (clearAfter_semicolon t (by decide) hhead hsemicolon) n
    · exact listing_spares (clearAfter_semicolon t (by decide) hhead hsemicolon) n

end CrossBuild.Patch
