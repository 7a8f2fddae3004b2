import CrossBuild.Proofs.Patch.Independent
import CrossBuild.Proofs.Patch.Spares

/-!
# What the plan adds for a module

Every file of the engine gets certain texts for each module. For identifiers as names, none of these
texts stands in another one, and none of them nor an anchor can stand across an edge of what is
inserted: insertions begin with a line feed and end in a semicolon. So the patches of a file keep
out of each other's way.
-/

namespace CrossBuild.Patch

open Splice SourceText

/-- What a file of the engine can get for a module. -/
inductive Addition
  | declaration
  | setup
  | listing
  deriving DecidableEq

namespace Addition

/-- What it goes after. -/
def anchor : Addition → String
  | .declaration => Anchor.libraryHeader
  | .setup => Anchor.osSetup
  | .listing => Anchor.osListing

/-- What it is set off by. -/
def lead : Addition → String
  | .declaration => "\n\n"
  | .setup | .listing => "\n    "

def text : Addition → String → String
  | .declaration => declarationText
  | .setup => setupText
  | .listing => listingText

def patch : Addition → String → Patch
  | .declaration => Patch.declaration
  | .setup => Patch.setup
  | .listing => Patch.listing

@[simp] theorem marker_patch (a : Addition) (n : String) : (a.patch n).marker = a.text n := by
  cases a <;> rfl

@[simp] theorem insertion_patch (a : Addition) (n : String) :
    (a.patch n).insertion = a.lead ++ a.text n := by
  cases a <;> rfl

@[simp] theorem anchor_patch (a : Addition) (n : String) :
    (a.patch n).anchor = some a.anchor := by
  cases a <;> rfl

@[simp] theorem position_patch (a : Addition) (n : String) : (a.patch n).position = .after := by
  cases a <;> rfl

theorem patch_injective (a : Addition) : Function.Injective a.patch := by
  intro n k h
  have hdescription := congrArg Patch.description h
  cases a <;> exact (String.append_right_inj _).1 hdescription

theorem patch_ne_processHeader (a : Addition) (n : String) : a.patch n ≠ processHeader := by
  intro h
  have hanchor := congrArg Patch.anchor h
  rw [a.anchor_patch] at hanchor
  cases hanchor

theorem patch_inj {a b : Addition} {n k : String} :
    a.patch n = b.patch k ↔ a = b ∧ n = k := by
  constructor
  · intro h
    have hanchor := congrArg Patch.anchor h
    rw [anchor_patch, anchor_patch] at hanchor
    have hkind : a = b := by
      revert hanchor
      cases a <;> cases b <;> decide
    subst hkind
    exact ⟨rfl, a.patch_injective h⟩
  · rintro ⟨rfl, rfl⟩
    rfl

end Addition

/-- What a file gets for each module, in this order. -/
def additions : EngineFile → List Addition
  | .library => [.declaration]
  | .interpreter => [.declaration, .setup]
  | .precompiler => [.declaration, .listing]

/-- What a file gets once, whatever the modules are. -/
def guards : EngineFile → List Patch
  | .library => [processHeader]
  | .interpreter | .precompiler => []

theorem plan_eq (names : List String) (f : EngineFile) : plan names none f =
    guards f ++ names.flatMap fun n => (additions f).map fun a => a.patch n := by
  cases f with
  | library =>
    show processHeader :: names.map declaration ++ [] =
      processHeader :: names.flatMap fun n => [declaration n]
    rw [List.append_nil, ← List.map_eq_flatMap]
  | interpreter => rfl
  | precompiler => rfl

theorem mem_plan {names : List String} {f : EngineFile} {p : Patch} (hp : p ∈ plan names none f) :
    p = processHeader ∨ ∃ n ∈ names, ∃ a, p = Addition.patch a n := by
  rw [plan_eq, List.mem_append, List.mem_flatMap] at hp
  rcases hp with hp | ⟨n, hn, hp⟩
  · cases f <;> simp_all [guards]
  · obtain ⟨a, -, rfl⟩ := List.mem_map.1 hp
    exact .inr ⟨n, hn, a, rfl⟩

/-! ## The texts apart -/

/-- What ends in a character that the text has at its end alone stands at the end. -/
theorem suffix_of_within {c : Char} {m s : List Char} (h : m <:+: s) (hm : m.getLast? = some c)
    (hc : c ∉ s.dropLast) : m <:+ s := by
  obtain ⟨x, y, rfl⟩ := h
  by_cases hy : y = []
  · rw [hy, List.append_nil]
    exact List.suffix_append x m
  · refine absurd ?_ hc
    rw [List.dropLast_append_of_ne_nil hy]
    exact List.mem_append_left _ (List.mem_append_right x (List.mem_of_getLast? hm))

/-- What follows the last mark is the same if one text ends in the other. -/
theorem eq_of_mark {c : Char} {x y u v : List Char} (h : u ++ c :: x <:+ v ++ c :: y) (hx : c ∉ x)
    (hy : c ∉ y) : x = y := by
  have hlonger : ∀ x y z : List Char, c ∉ x → c :: x = z ++ c :: y → x = y := by
    intro x y z hx h
    cases z with
    | nil => exact (List.cons.inj h).2
    | cons b z =>
      rw [(List.cons.inj h).2] at hx
      exact absurd (List.mem_append_right z List.mem_cons_self) hx
  obtain ⟨w, h⟩ := h
  rw [← List.append_assoc] at h
  rcases List.append_eq_append_iff.1 h with ⟨z, -, hz⟩ | ⟨z, -, hz⟩
  · exact hlonger x y z hx hz
  · exact (hlonger y x z hy hz).symm

namespace Addition

/-- The last character of the text before the name that is in no name. -/
def mark : Addition → Char
  | .declaration => '*'
  | .setup | .listing => '"'

/-- What stands between the mark and the name. -/
def stem : Addition → String
  | .declaration => "js_init_module_"
  | .setup | .listing => ""

/-- What stands behind the name. -/
def back : Addition → String
  | .declaration => "(JSContext *ctx, const char *module_name);"
  | .setup => "\");"
  | .listing => "\", 0);"

theorem exists_front (a : Addition) (n : String) : ∃ front, (a.text n).toList =
    front ++ a.mark :: (a.stem.toList ++ n.toList) ++ a.back.toList := by
  cases a with
  | declaration => exact ⟨"JSModuleDef ".toList, toList_declarationText n⟩
  | setup =>
    refine ⟨"js_init_module_".toList ++ n.toList ++ "(ctx, ".toList, ?_⟩
    refine (toList_setupText n).trans ?_
    simp [mark, stem, back]
  | listing =>
    refine ⟨"namelist_add(&cmodule_list, \"".toList ++ n.toList ++ "\", ".toList, ?_⟩
    refine (toList_listingText n).trans ?_
    simp [mark, stem, back]

/-- A text holds what is in the name and what is in every text of its kind. -/
theorem mem_text {a : Addition} {n : String} {c : Char} (h : c ∈ (a.text n).toList) :
    c ∈ n.toList ∨ c ∈ (a.text "").toList := by
  cases a with
  | declaration =>
    rw [text, toList_declarationText] at h ⊢
    simp only [List.mem_append] at h ⊢
    tauto
  | setup =>
    rw [text, toList_setupText] at h ⊢
    simp only [List.mem_append] at h ⊢
    tauto
  | listing =>
    rw [text, toList_listingText] at h ⊢
    simp only [List.mem_append] at h ⊢
    tauto

theorem getLast?_text (a : Addition) (n : String) : (a.text n).toList.getLast? = some ';' := by
  obtain ⟨front, h⟩ := a.exists_front n
  rw [h, List.getLast?_append]
  cases a <;> rfl

theorem head?_text (a : Addition) (n : String) :
    ∃ c, (a.text n).toList.head? = some c ∧ c ∉ ";\n #".toList := by
  cases a with
  | declaration => exact ⟨'J', head?_declarationText n, by decide⟩
  | setup => exact ⟨'j', head?_setupText n, by decide⟩
  | listing => exact ⟨'n', head?_listingText n, by decide⟩

theorem mem_texts (a : Addition) (n : String) : ∃ f, a.text n ∈ texts n f := by
  cases a with
  | declaration => exact ⟨.library, List.mem_cons_self⟩
  | setup => exact ⟨.interpreter, List.mem_cons_of_mem _ List.mem_cons_self⟩
  | listing => exact ⟨.precompiler, List.mem_cons_of_mem _ List.mem_cons_self⟩

variable {a b : Addition} {n k : String} (hn : Module.isIdentifier n.toList = true)
include hn

theorem not_mem_text {c : Char} (hc : Module.isIdentifierChar c = false)
    (hfixed : c ∉ (a.text "").toList) : c ∉ (a.text n).toList :=
  fun h => (mem_text h).elim (not_mem_identifier hn hc) hfixed

theorem semicolon_text : ';' ∉ (a.text n).toList.dropLast := by
  obtain ⟨f, hf⟩ := a.mem_texts n
  exact (clear_texts (Bool.or_eq_true_iff.2 (.inl hn)) hf).2.2

/-- **No text stands in another one.** -/
theorem eq_of_within (hk : Module.isIdentifier k.toList = true)
    (h : (b.text k).toList <:+: (a.text n).toList) : a = b ∧ n = k := by
  have hsuffix := suffix_of_within h (b.getLast?_text k) (semicolon_text hn)
  obtain ⟨front, ha⟩ := a.exists_front n
  obtain ⟨front', hb⟩ := b.exists_front k
  rw [ha, hb] at hsuffix
  -- the kinds can be told by how the texts end
  have hkind : a = b := by
    have hbacks := List.suffix_or_suffix_of_suffix
      ((List.suffix_append _ b.back.toList).trans hsuffix) (List.suffix_append _ a.back.toList)
    revert hbacks
    cases a <;> cases b <;> decide
  subst hkind
  refine ⟨rfl, ?_⟩
  have hmark : ∀ s : List Char, Module.isIdentifier s = true → a.mark ∉ a.stem.toList ++ s := by
    intro s hs
    rw [List.mem_append, not_or]
    cases a <;> exact ⟨by decide, not_mem_identifier hs (by decide)⟩
  have hfronts := ((List.suffix_append_inj_of_length_eq rfl).1 hsuffix).1
  have hcore := eq_of_mark hfronts (hmark _ hk) (hmark _ hn)
  exact String.toList_injective (List.append_cancel_left hcore).symm

end Addition

/-! ## Texts that go by the line and the statement -/

/-- What no insertion of the plan cuts or completes at its edges: it holds no line feed, a semicolon
at its end at most, and a number sign at its front at most. -/
structure Plain (m : String) : Prop where
  solid : m ≠ ""
  feed : '\n' ∉ m.toList
  hash : '#' ∉ m.toList.tail
  head : m.toList.head? ≠ some ';'
  semicolon : ';' ∉ m.toList.dropLast
  header : ClearAfter (ofString Anchor.libraryHeader) (ofString m)

theorem plain_header : Plain Anchor.libraryHeader where
  solid := by decide
  feed := by decide
  hash := by decide
  head := by decide
  semicolon := by decide
  header := clearAfter_self (by decide)

theorem plain_processHeader : Plain processHeader.marker where
  solid := by decide
  feed := by decide
  hash := by decide
  head := by decide
  semicolon := by decide
  header := clearAfter_header_process

theorem Addition.plain_text (a : Addition) {n : String} (hn : Module.isIdentifier n.toList = true) :
    Plain (a.text n) := by
  obtain ⟨f, hf⟩ := a.mem_texts n
  obtain ⟨hheader, hhead, hsemicolon⟩ := clear_texts (Bool.or_eq_true_iff.2 (.inl hn)) hf
  refine ⟨?_, ?_, ?_, hhead, hsemicolon, hheader⟩
  · intro hempty
    have hlast := a.getLast?_text n
    rw [hempty] at hlast
    cases hlast
  · exact not_mem_text hn (by decide) (by cases a <;> decide)
  · exact fun h => not_mem_text hn (by decide) (by cases a <;> decide) (List.mem_of_mem_tail h)

theorem Addition.plain_anchor (a : Addition) : Plain a.anchor := by
  cases a with
  | declaration => exact plain_header
  | setup => exact Addition.setup.plain_text (n := "os") (by decide)
  | listing => exact Addition.listing.plain_text (n := "os") (by decide)

theorem Plain.ofString_ne_nil {m : String} (h : Plain m) : ofString m ≠ [] :=
  fun hnil => h.solid (String.toList_eq_nil_iff.1 (List.map_eq_nil_iff.1 hnil))

variable {names : List String} {f : EngineFile} {m : String} {p q : Patch}

theorem passes_processHeader (h : Plain m) : processHeader.Passes ofString (ofString m) where
  spares := processHeader_spares _
  head := by
    intro a ha
    cases ha
    unfold ofString
    rw [← List.map_tail, char_mem_map]
    exact h.hash
  last := by
    intro a ha
    cases ha
    exact fun hmem => char_not_mem_ofString h.feed ((List.dropLast_sublist _).subset hmem)

theorem Addition.passes_patch (a : Addition) (n : String) (h : Plain m) :
    (a.patch n).Passes ofString (ofString m) where
  spares := by
    cases a with
    | declaration => exact declaration_spares h.header n
    | setup => exact setup_spares (clearAfter_semicolon m (by decide) h.head h.semicolon) n
    | listing => exact listing_spares (clearAfter_semicolon m (by decide) h.head h.semicolon) n
  head := by
    intro c hc
    have hlead : (a.lead.toList ++ (a.text n).toList).head? = some '\n' := by
      cases a <;> rfl
    rw [insertion_patch, ofString, String.toList_append, List.head?_map, hlead] at hc
    cases hc
    exact fun hmem => char_not_mem_ofString h.feed (List.mem_of_mem_tail hmem)
  last := by
    intro c hc
    rw [insertion_patch, ofString, String.toList_append, List.getLast?_map, List.getLast?_append,
      a.getLast?_text n] at hc
    cases hc
    unfold ofString
    rw [← List.map_dropLast, char_mem_map]
    exact h.semicolon

/-! ## Markers and anchors in insertions -/

theorem occurrences_of_not_mem {m s : String} {c : Char} (hc : c ∈ m.toList) (hs : c ∉ s.toList) :
    occurrences (ofString m) (ofString s) = 0 :=
  occurrences_eq_zero fun h =>
    hs ((within_of_ofString (occursIn_iff_within.1 h)).subset hc)

/-- **A text is inserted with itself only.** -/
theorem Addition.occurrences_text (a b : Addition) {n k : String}
    (hn : Module.isIdentifier n.toList = true) (hk : Module.isIdentifier k.toList = true) :
    occurrences (ofString (b.text k)) (ofString (a.lead ++ a.text n)) =
      if a = b ∧ n = k then 1 else 0 := by
  obtain ⟨c, hhead, hc⟩ := b.head?_text k
  have hlead : c ∉ a.lead.toList := by
    intro h
    cases a <;> exact hc (List.mem_of_mem_tail (by simp_all [lead]))
  rw [ofString_append, occurrences_lead (c := .char c) (by simp [ofString, hhead])
    (char_not_mem_ofString hlead)]
  split
  · next h =>
    rw [h.1, h.2]
    exact occurrences_self (b.plain_text hk).ofString_ne_nil
  · next h =>
    refine occurrences_eq_zero fun hoccurs => h ?_
    exact eq_of_within hn hk (within_of_ofString (occursIn_iff_within.1 hoccurs))

/-- Nothing inserted for a module holds a number sign. -/
theorem Addition.hash_not_mem_insertion (a : Addition) {n : String}
    (hn : Module.isIdentifier n.toList = true) : '#' ∉ (a.lead ++ a.text n).toList := by
  rw [String.toList_append, List.mem_append, not_or]
  exact ⟨by cases a <;> decide, not_mem_text hn (by decide) (by cases a <;> decide)⟩

theorem Addition.semicolon_mem_text (a : Addition) (n : String) : ';' ∈ (a.text n).toList :=
  List.mem_of_getLast? (a.getLast?_text n)

/-- Each insertion makes its own marker and no other one. -/
theorem occurrences_marker (hnames : ∀ n ∈ names, Module.isIdentifier n.toList = true)
    (hp : p ∈ plan names none f) (hq : q ∈ plan names none f) :
    occurrences (ofString q.marker) (ofString p.insertion) = if p = q then 1 else 0 := by
  rcases mem_plan hp with rfl | ⟨n, hn, a, rfl⟩
  · rcases mem_plan hq with rfl | ⟨k, -, b, rfl⟩
    · rfl
    · rw [if_neg (b.patch_ne_processHeader k).symm, b.marker_patch]
      exact occurrences_of_not_mem (b.semicolon_mem_text k) (by decide)
  · rcases mem_plan hq with rfl | ⟨k, hk, b, rfl⟩
    · rw [if_neg (a.patch_ne_processHeader n), a.insertion_patch]
      exact occurrences_of_not_mem (c := '#') (by decide) (a.hash_not_mem_insertion (hnames n hn))
    · rw [a.insertion_patch, b.marker_patch, a.occurrences_text b (hnames n hn) (hnames k hk)]
      simp only [Addition.patch_inj]

/-- No insertion makes an anchor, but for the module that is the anchor itself: its text is there
where its anchor is, and is not inserted again. -/
theorem anchor_not_within (hnames : ∀ n ∈ names, Module.isIdentifier n.toList = true)
    (hp : p ∈ plan names none f) (hne : p.anchor ≠ some p.marker) (a : Addition) :
    ¬ occursIn (ofString a.anchor) (ofString p.insertion) = true := by
  have hos : ∀ b : Addition, b.anchor = b.text "os" →
      ¬ occursIn (ofString b.anchor) (ofString p.insertion) = true := by
    intro b hb
    rw [occursIn_iff_occurrences, hb]
    rcases mem_plan hp with rfl | ⟨n, hn, c, rfl⟩
    · rw [occurrences_of_not_mem (b.semicolon_mem_text "os") (by decide)]
      exact Nat.lt_irrefl 0
    · rw [c.insertion_patch, c.occurrences_text b (hnames n hn) (by decide)]
      split
      · next h =>
        obtain ⟨rfl, rfl⟩ := h
        rw [c.anchor_patch, c.marker_patch, hb] at hne
        exact absurd rfl hne
      · exact Nat.lt_irrefl 0
  cases a with
  | declaration =>
    rcases mem_plan hp with rfl | ⟨n, hn, c, rfl⟩
    · decide
    · rw [c.insertion_patch, occursIn_iff_occurrences,
        occurrences_of_not_mem (c := '#') (by decide) (c.hash_not_mem_insertion (hnames n hn))]
      exact Nat.lt_irrefl 0
  | setup => exact hos .setup rfl
  | listing => exact hos .listing rfl

/-- **The plan's patches keep out of each other's way** for identifiers as names. -/
theorem independent_plan (hnames : ∀ n ∈ names, Module.isIdentifier n.toList = true)
    (f : EngineFile) : Independent ofString (plan names none f) := by
  refine ⟨?_, ?_, ?_, ?_⟩
  · intro p hp
    rcases mem_plan hp with rfl | ⟨n, hn, a, rfl⟩
    · exact ⟨rfl, .inr ⟨rfl, rfl⟩, by decide⟩
    · refine ⟨by cases a <;> rfl, .inl (a.position_patch n), ?_⟩
      rw [a.insertion_patch, ofString_append]
      exact List.append_ne_nil_of_right_ne_nil _ (a.plain_text (hnames n hn)).ofString_ne_nil
  · intro p hp q hq m hm
    have hplain : ∃ s, m = ofString s ∧ Plain s := by
      rcases mem_plan hq with rfl | ⟨n, hn, a, rfl⟩
      · rcases hm with rfl | ⟨anchor, hanchor, -⟩
        · exact ⟨_, rfl, plain_processHeader⟩
        · cases hanchor
      · rcases hm with rfl | ⟨anchor, hanchor, rfl⟩
        · rw [a.marker_patch]
          exact ⟨_, rfl, a.plain_text (hnames n hn)⟩
        · rw [a.anchor_patch] at hanchor
          exact ⟨_, rfl, Option.some.inj hanchor ▸ a.plain_anchor⟩
    obtain ⟨s, rfl, hs⟩ := hplain
    refine ⟨hs.ofString_ne_nil, ?_⟩
    rcases mem_plan hp with rfl | ⟨n, -, a, rfl⟩
    · exact passes_processHeader hs
    · exact a.passes_patch n hs
  · exact fun p hp q hq => occurrences_marker hnames hp hq
  · intro p hp hne q hq anchor hanchor
    rcases mem_plan hq with rfl | ⟨n, -, a, rfl⟩
    · cases hanchor
    · rw [a.anchor_patch] at hanchor
      obtain rfl := Option.some.inj hanchor
      exact anchor_not_within hnames hp hne a

end CrossBuild.Patch
