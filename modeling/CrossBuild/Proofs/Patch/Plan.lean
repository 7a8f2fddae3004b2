import CrossBuild.Proofs.Patch.Spares

/-!
# The patch plan is steady

For all module names that are admitted, and for every text of the process starter that defines it,
the patches of each file follow one another without undoing what was done.
-/

namespace CrossBuild.Patch

open Splice SourceText

/-- What the plan needs of a starter's text: it defines the process starter. -/
def DefinesStarter (text : String) : Prop :=
  (starterName ++ "(").toList <:+: text.toList

theorem marked_of_suffix {p : Patch} (s : String) (h : p.insertion = s ++ p.marker) :
    p.Marked ofString := by
  refine within_ofString ?_
  rw [h, String.toList_append]
  exact (List.suffix_append _ _).isInfix

theorem marked_declaration (name : String) : (declaration name).Marked ofString :=
  marked_of_suffix "\n\n" rfl

theorem marked_setup (name : String) : (setup name).Marked ofString :=
  marked_of_suffix "\n    " rfl

theorem marked_listing (name : String) : (listing name).Marked ofString :=
  marked_of_suffix "\n    " rfl

theorem marked_processHeader : processHeader.Marked ofString :=
  within_ofString ⟨"#if defined(_WIN32)\n".toList, "\n#endif\n".toList, by decide⟩

theorem marked_starterText {text : String} (h : DefinesStarter text) :
    (starterText text).Marked ofString := by
  refine within_ofString (h.trans ?_)
  show text.toList <:+: (text ++ "\n").toList
  rw [String.toList_append]
  exact (List.prefix_append _ _).isInfix

theorem marked_starterTable : starterTable.Marked ofString := by
  refine within_ofString ⟨"#if defined(_WIN32)\n".toList,
    ("\n#else\n" ++ Anchor.execEntry ++ "\n#endif").toList, ?_⟩
  simp only [starterTable, String.toList_append, List.append_assoc]

theorem pairwise_of_forall {R : Patch → Patch → Prop} {l : List Patch}
    (h : ∀ p ∈ l, ∀ q ∈ l, R p q) : l.Pairwise R := by
  induction l with
  | nil => exact List.Pairwise.nil
  | cons a l ih =>
    refine List.pairwise_cons.2 ⟨fun b hb => h a (by simp) b (by simp [hb]), ih ?_⟩
    exact fun p hp q hq => h p (by simp [hp]) q (by simp [hq])

variable {modules : List String} {starter : Option String}

/-- A file other than the library gets two texts of each module. -/
theorem steady_pairs (hnames : ∀ n ∈ modules, Module.isName n.toList = true) {f : EngineFile}
    (hf : f ≠ .library) : Steady ofString (plan modules starter f) := by
  refine ⟨?_, pairwise_of_forall ?_⟩
  · intro p hp
    obtain ⟨n, -, -, rfl | rfl | rfl⟩ := plan_cases hf hp
    · exact marked_declaration n
    · exact marked_setup n
    · exact marked_listing n
  · intro p hp q hq
    obtain ⟨n, hn, htext, hcases⟩ := plan_cases hf hp
    refine ⟨?_, spares_texts (hnames n hn) htext (.inr hf) q hq⟩
    rcases hcases with rfl | rfl | rfl <;> rfl

theorem steady_library (hnames : ∀ n ∈ modules, Module.isName n.toList = true)
    (hstarter : ∀ text, starter = some text → DefinesStarter text) :
    Steady ofString (plan modules starter .library) := by
  have hcases : ∀ p ∈ processHeader :: modules.map declaration,
      p = processHeader ∨ ∃ n ∈ modules, p = declaration n := by
    intro p hp
    rcases List.mem_cons.1 hp with rfl | hp
    · exact .inl rfl
    · obtain ⟨n, hn, rfl⟩ := List.mem_map.1 hp
      exact .inr ⟨n, hn, rfl⟩
  have hmarked : ∀ p ∈ processHeader :: modules.map declaration, p.Marked ofString := by
    intro p hp
    rcases hcases p hp with rfl | ⟨n, -, rfl⟩
    · exact marked_processHeader
    · exact marked_declaration n
  have hordered : (processHeader :: modules.map declaration).Pairwise fun p q =>
      p.required = true ∧ q.Spares ofString (ofString p.marker) := by
    refine pairwise_of_forall fun p hp q hq => ?_
    rcases hcases q hq with rfl | ⟨n', -, rfl⟩
    · refine ⟨?_, processHeader_spares _⟩
      rcases hcases p hp with rfl | ⟨n, -, rfl⟩ <;> rfl
    · rcases hcases p hp with rfl | ⟨n, hn, rfl⟩
      · exact ⟨rfl, declaration_spares clearAfter_header_process n'⟩
      · exact ⟨rfl, declaration_spares (clearAfter_header_declaration (hnames n hn)) n'⟩
  rcases starter with _ | text
  · show Steady ofString (processHeader :: modules.map declaration ++ [])
    rw [List.append_nil]
    exact ⟨hmarked, hordered⟩
  · have hfirst : ∀ p ∈ processHeader :: modules.map declaration, p.required = true ∧
        (starterText text).Spares ofString (ofString p.marker) ∧
          starterTable.Spares ofString (ofString p.marker) := by
      intro p hp
      rcases hcases p hp with rfl | ⟨n, hn, rfl⟩
      · exact ⟨rfl, starter_spares (by decide) (by decide) (by decide) (by decide) text⟩
      · exact ⟨rfl, starter_spares (.inl (head?_declarationText n))
          (.inl (getLast?_declarationText n)) (quote_not_mem_declarationText (hnames n hn))
          (brace_not_mem_declarationText (hnames n hn)) text⟩
    refine ⟨?_, List.pairwise_append.2 ⟨hordered, ?_, ?_⟩⟩
    · intro p hp
      rcases List.mem_append.1 hp with hp | hp
      · exact hmarked p hp
      · rcases List.mem_pair.1 hp with rfl | rfl
        · exact marked_starterText (hstarter text rfl)
        · exact marked_starterTable
    · exact List.pairwise_pair.2 ⟨rfl, starterTable_spares_starter⟩
    · intro p hp q hq
      obtain ⟨hrequired, htext, htable⟩ := hfirst p hp
      rcases List.mem_pair.1 hq with rfl | rfl
      · exact ⟨hrequired, htext⟩
      · exact ⟨hrequired, htable⟩

/-- **The plan is steady** for every list of names that are admitted. -/
theorem steady_plan (hnames : ∀ n ∈ modules, Module.isName n.toList = true)
    (hstarter : ∀ text, starter = some text → DefinesStarter text) (f : EngineFile) :
    Steady ofString (plan modules starter f) := by
  by_cases hf : f = .library
  · rw [hf]
    exact steady_library hnames hstarter
  · exact steady_pairs hnames hf

theorem solid_plan (f : EngineFile) : ∀ p ∈ plan modules starter f, p.Solid := by
  have hdeclaration : ∀ n, (declaration n).Solid := fun n =>
    ⟨by simp [declaration], by simp [declaration, Anchor.libraryHeader]⟩
  have hsetup : ∀ n, (setup n).Solid := fun n =>
    ⟨by simp [setup], by simp [setup, Anchor.osSetup]⟩
  have hlisting : ∀ n, (listing n).Solid := fun n =>
    ⟨by simp [listing], by simp [listing, Anchor.osListing]⟩
  intro p hp
  by_cases hf : f = .library
  · subst hf
    rcases plan_library_cases hp with rfl | ⟨n, -, rfl⟩ | ⟨text, -, rfl | rfl⟩
    · exact ⟨by simp [processHeader], by simp [processHeader]⟩
    · exact hdeclaration n
    · exact ⟨by simp [starterText], by simp [starterText, Anchor.workerClass]⟩
    · exact ⟨by simp [starterTable], by simp [starterTable, Anchor.execEntry]⟩
  · obtain ⟨n, -, -, rfl | rfl | rfl⟩ := plan_cases hf hp
    · exact hdeclaration n
    · exact hsetup n
    · exact hlisting n

/-! ## The texts of a module in the patched files -/

theorem exists_patch_of_text (starter : Option String) {name t : String} {f : EngineFile}
    (hn : name ∈ modules) (ht : t ∈ texts name f) : ∃ p ∈ plan modules starter f, p.marker = t ∧ p.required = true ∧
      p.Marked ofString := by
  cases f with
  | library =>
    obtain rfl := List.mem_singleton.1 ht
    refine ⟨declaration name, ?_, rfl, rfl, marked_declaration name⟩
    exact List.mem_append_left _ (List.mem_cons_of_mem _ (List.mem_map_of_mem hn))
  | interpreter =>
    rcases List.mem_pair.1 ht with rfl | rfl
    · exact ⟨declaration name, List.mem_flatMap.2 ⟨name, hn, List.mem_pair.2 (.inl rfl)⟩, rfl, rfl,
        marked_declaration name⟩
    · exact ⟨setup name, List.mem_flatMap.2 ⟨name, hn, List.mem_pair.2 (.inr rfl)⟩, rfl, rfl,
        marked_setup name⟩
  | precompiler =>
    rcases List.mem_pair.1 ht with rfl | rfl
    · exact ⟨declaration name, List.mem_flatMap.2 ⟨name, hn, List.mem_pair.2 (.inl rfl)⟩, rfl, rfl,
        marked_declaration name⟩
    · exact ⟨listing name, List.mem_flatMap.2 ⟨name, hn, List.mem_pair.2 (.inr rfl)⟩, rfl, rfl,
        marked_listing name⟩

/-- Whatever a file held, once the plan was applied it holds the texts of every module. -/
theorem text_within {name t : String} {f : EngineFile} {text final : SourceText}
    (hname : Module.isName name.toList = true) (hn : name ∈ modules) (ht : t ∈ texts name f)
    (h : applyAll? ofString (plan modules starter f) text = some final) :
    ofString t <:+: final := by
  obtain ⟨p, hp, rfl, hrequired, hmarked⟩ := exists_patch_of_text starter hn ht
  have hspares : ∀ q ∈ plan modules starter f, q.Spares ofString (ofString p.marker) :=
    spares_texts hname ht (by cases f <;> decide)
  exact marker_within hp hmarked hrequired hspares h

end CrossBuild.Patch
