import CrossBuild.Proofs.Patch.Additions
import CrossBuild.Proofs.Patch.Fold

/-!
# The patch plan in closed form

What the plan makes of a text is told from the text alone: which modules have their texts in it, and
where the anchors end in it. It does not matter that patches are applied one after the other.
-/

namespace CrossBuild

open CrossBuild.Task

namespace Patch

open Splice SourceText

/-- The names whose texts of a kind do not occur, each once, in order of first appearance. -/
def Addition.missing (a : Addition) (names : List String) (text : SourceText) : List String :=
  (names.filter fun n => !occursIn (ofString (a.text n)) text).eraseDups

/-- Whether the first occurrence of the anchor ends at a place. -/
def Addition.endsAt (text : SourceText) (i : Nat) (a : Addition) : Bool :=
  decide (endOfFirst? (ofString a.anchor) text = some i)

/-- What the plan puts in at a place of a text: at the very front of the library the header of the
process functions, and where the first occurrence of an anchor ends what goes after the anchor, in
reverse order. -/
def planned (names : List String) (f : EngineFile) (text : SourceText) (i : Nat) : SourceText :=
  (if f = .library ∧ i = 0 ∧ occursIn (ofString processHeader.marker) text = false then
    ofString processHeader.insertion else []) ++
  ((additions f).filter (Addition.endsAt text i)).flatMap fun a =>
    (a.missing names text).reverse.flatMap fun n => ofString (a.lead ++ a.text n)

variable {names : List String} {f : EngineFile} {text : SourceText} {i : Nat}

theorem eraseDups_map {α β : Type} [DecidableEq α] [DecidableEq β] {g : α → β}
    (hg : Function.Injective g) (l : List α) : (l.map g).eraseDups = l.eraseDups.map g := by
  induction hlength : l.length using Nat.strongRecOn generalizing l with
  | _ n ih =>
    cases l with
    | nil => rfl
    | cons a l =>
      subst hlength
      have hshorter : (l.filter fun b => !b == a).length < (a :: l).length :=
        Nat.lt_succ_of_le (List.length_filter_le _ l)
      rw [List.map_cons, List.eraseDups_cons, List.eraseDups_cons, List.map_cons, List.filter_map,
        ← ih _ hshorter _ rfl]
      refine congrArg (fun bs => g a :: (bs.map g).eraseDups) (List.filter_congr fun b _ => ?_)
      simp [hg.eq_iff]

/-! ## One place -/

theorem site?_patch (a : Addition) (n : String) (text : SourceText) :
    (a.patch n).site? ofString text = endOfFirst? (ofString a.anchor) text := by
  rw [site?, if_neg (by rw [a.position_patch]; decide), a.anchor_patch, Option.bind_some]

theorem Addition.endsAt_iff {a : Addition} :
    a.endsAt text i = true ↔ endOfFirst? (ofString a.anchor) text = some i :=
  decide_eq_true_iff

theorem Addition.endsAt_pos {a : Addition} (h : a.endsAt text i = true) : i ≠ 0 := by
  obtain ⟨before, after, -, -, rfl⟩ := exists_of_endOfFirst? (endsAt_iff.1 h)
  rw [List.length_append]
  have := List.length_pos_iff.2 a.plain_anchor.ofString_ne_nil
  omega

/-- Beside the library's header no other anchor ends. -/
theorem Addition.endsAt_apart {a b : Addition} (h : a.endsAt text i = true)
    (h' : b.endsAt text i = true) : a = .declaration ↔ b = .declaration := by
  have hlast := getLast?_of_endOfFirst? (endsAt_iff.1 h) (endsAt_iff.1 h')
    a.plain_anchor.ofString_ne_nil b.plain_anchor.ofString_ne_nil
  revert hlast
  cases a <;> cases b <;> decide

/-- At most one anchor of a file ends at a place. -/
theorem additions_at (f : EngineFile) (text : SourceText) (i : Nat) :
    (additions f).filter (Addition.endsAt text i) = [] ∨
      ∃ a, (additions f).filter (Addition.endsAt text i) = [a] ∧ a.endsAt text i = true := by
  have hpair : ∀ b : Addition, b ≠ .declaration →
      [Addition.declaration, b].filter (Addition.endsAt text i) = [] ∨
      ∃ a, [Addition.declaration, b].filter (Addition.endsAt text i) = [a] ∧
        a.endsAt text i = true := by
    intro b hb
    rcases hd : Addition.declaration.endsAt text i with _ | _
    · rcases hi : b.endsAt text i with _ | _
      · exact .inl (by simp [hd, hi])
      · exact .inr ⟨b, by simp [hd, hi], hi⟩
    · refine .inr ⟨.declaration, ?_, hd⟩
      have hother : ¬ b.endsAt text i = true := fun hi => hb ((Addition.endsAt_apart hd hi).1 rfl)
      simp [hd, hother]
  cases f with
  | library =>
    rcases hd : Addition.declaration.endsAt text i with _ | _
    · exact .inl (by simp [additions, hd])
    · exact .inr ⟨.declaration, by simp [additions, hd], hd⟩
  | interpreter => exact hpair .setup (by decide)
  | precompiler => exact hpair .listing (by decide)

/-- The patches that wait at a place, of all modules. -/
theorem filter_waits (names : List String) (f : EngineFile) (text : SourceText) (i : Nat) :
    (names.flatMap fun n => (additions f).map fun a => a.patch n).filter
        (waits ofString text i) =
      names.flatMap fun n => (((additions f).filter (Addition.endsAt text i)).filter fun a =>
        !occursIn (ofString (a.text n)) text).map fun a => a.patch n := by
  rw [List.filter_flatMap]
  refine congrArg (List.flatMap · names) (funext fun n => ?_)
  rw [List.filter_map, List.filter_filter]
  refine congrArg _ (List.filter_congr fun a _ => ?_)
  rw [Function.comp_apply, waits, a.marker_patch, site?_patch, Addition.endsAt]

theorem flatMap_filter_singleton {α β γ : Type} (c : β → α → Bool) (g : β → α → γ) (b : β)
    (l : List α) : (l.flatMap fun x => ([b].filter fun b => c b x).map fun b => g b x) =
      (l.filter (c b)).map (g b) := by
  induction l with
  | nil => rfl
  | cons x l ih =>
    rw [List.flatMap_cons, ih, List.filter_singleton, List.filter_cons]
    cases c b x <;> rfl

theorem filter_guards (f : EngineFile) (text : SourceText) (i : Nat) :
    (guards f).filter (waits ofString text i) =
      if f = .library ∧ i = 0 ∧ occursIn (ofString processHeader.marker) text = false then
        [processHeader] else [] := by
  cases f with
  | library =>
    have hsite : processHeader.site? ofString text = some 0 := rfl
    rw [guards, List.filter_singleton, waits, hsite]
    by_cases hi : i = 0
    · subst hi
      cases occursIn (ofString processHeader.marker) text <;> rfl
    · simp [hi, Ne.symm hi]
  | interpreter => exact (if_neg (by simp)).symm
  | precompiler => exact (if_neg (by simp)).symm

/-- **The patches put in what is planned.** -/
theorem putIn_plan (names : List String) (f : EngineFile) (text : SourceText) (i : Nat) :
    putIn ofString (plan names none f) text i = planned names f text i := by
  unfold putIn pending planned
  rw [plan_eq, List.filter_append, filter_waits, filter_guards]
  rcases additions_at f text i with hnone | ⟨a, hone, ha⟩
  · -- nothing but what goes in front of all
    have hempty : ∀ l : List String, (l.flatMap fun _ => ([] : List Patch)) = [] := fun l =>
      List.flatMap_eq_nil_iff.2 fun _ _ => rfl
    rw [hnone, List.flatMap_nil, List.append_nil]
    simp only [List.filter_nil, List.map_nil, hempty, List.append_nil]
    split <;> rfl
  · have hfront : ¬ (f = .library ∧ i = 0 ∧
        occursIn (ofString processHeader.marker) text = false) :=
      fun h => Addition.endsAt_pos ha h.2.1
    have hmodules := flatMap_filter_singleton
      (fun (a : Addition) n => !occursIn (ofString (a.text n)) text) Addition.patch a names
    rw [hone, if_neg hfront, if_neg hfront, List.nil_append, List.nil_append,
      List.flatMap_singleton, hmodules, eraseDups_map a.patch_injective, ← List.map_reverse,
      List.flatMap_map]
    simp only [Addition.insertion_patch]
    rfl

/-- The plan can be applied if every text is there or has its anchor. -/
theorem applicable_plan (names : List String) (f : EngineFile) (text : SourceText) :
    (∀ p ∈ plan names none f, Applicable ofString text p) ↔
      ∀ n ∈ names, ∀ a ∈ additions f, occursIn (ofString (a.text n)) text = true ∨
        occursIn (ofString a.anchor) text = true := by
  have hpatch : ∀ (n : String) (a : Addition), Applicable ofString text (a.patch n) ↔
      occursIn (ofString (a.text n)) text = true ∨ occursIn (ofString a.anchor) text = true := by
    intro n a
    rw [Applicable, a.marker_patch, site?_patch, isSome_endOfFirst?]
  have hguards : ∀ p ∈ guards f, Applicable ofString text p := by
    intro p hp
    cases f with
    | library =>
      obtain rfl := List.mem_singleton.1 hp
      exact .inr rfl
    | interpreter => cases hp
    | precompiler => cases hp
  rw [plan_eq, List.forall_mem_append, and_iff_right hguards]
  simp only [List.forall_mem_flatMap, List.forall_mem_map, hpatch]

end Patch

namespace Ledger

open Patch Splice SourceText

theorem applyAll_ok_iff {p : Path} {patches : List Patch} {text final : SourceText}
    {s : PatchState} : ((applyAll p patches text).runOn s).1 = .ok final ↔
      applyAll? ofString patches text = some final := by
  rw [(runOn_applyAll_eq_fold p patches text s).1, applyAll?_eq_fold]
  cases (fold ofString patches text).2 <;> simp [Except.mapError, Except.toOption]

/-- **The plan has a closed form.** For all texts and all identifiers as names, the patches of a
file, but for those of a process starter, can be applied exactly if every text for every name occurs
at first or its anchor does. Then what comes out is the text with what is planned woven in, and each
text that did not occur before occurs once. -/
theorem plan_closed_form {names : List String}
    (hnames : ∀ n ∈ names, Module.isIdentifier n.toList = true) {f : EngineFile}
    {starter : Option String} (hstarter : f = .library → starter = none) (text : SourceText)
    (p : Path) (s : PatchState) :
    (∀ final, ((applyAll p (plan names starter f) text).runOn s).1 = .ok final ↔
      (∀ n ∈ names, ∀ a ∈ additions f, occursIn (ofString (a.text n)) text = true ∨
        occursIn (ofString a.anchor) text = true) ∧
      final = weave (planned names f text) text) ∧
    ∀ final, ((applyAll p (plan names starter f) text).runOn s).1 = .ok final →
      ∀ n ∈ names, ∀ a ∈ additions f, occursIn (ofString (a.text n)) text = false →
        occurrences (ofString (a.text n)) final = 1 := by
  have hplan : plan names starter f = plan names none f := by
    cases f with
    | library => rw [hstarter rfl]
    | interpreter => rfl
    | precompiler => rfl
  have hindependent := independent_plan hnames f
  rw [hplan]
  constructor
  · intro final
    rw [applyAll_ok_iff, hindependent.applyAll?_iff, applicable_plan,
      funext (putIn_plan names f text)]
  · intro final hfinal n hn a ha hmissing
    have hpatch : a.patch n ∈ plan names none f := by
      rw [plan_eq]
      exact List.mem_append_right _ (List.mem_flatMap.2 ⟨n, hn, List.mem_map_of_mem ha⟩)
    have hcount := hindependent.occurrences_applyAll? (List.Subset.refl _) hpatch
      (applyAll_ok_iff.1 hfinal)
    rw [a.marker_patch] at hcount
    rw [hcount, if_pos ⟨hpatch, hmissing⟩, occurrences_eq_zero (by simp [hmissing])]

/-- The anchors of the interpreter, each on a line of its own. -/
def bareInterpreter : SourceText :=
  ofString Anchor.libraryHeader ++ ofString "\n" ++ ofString Anchor.osSetup ++ ofString "\n"

theorem plan_closed_form_bareInterpreter :
    ((applyAll ⟨.root, ["qjs.c"]⟩ (plan ["a", "b", "a"] none .interpreter)
      bareInterpreter).runOn ⟨.ofFiles ⟨[], []⟩, []⟩).1 =
      .ok (ofString (Anchor.libraryHeader ++ "\n\n" ++ declarationText "b" ++ "\n\n" ++
        declarationText "a" ++ "\n" ++ Anchor.osSetup ++ "\n    " ++ setupText "b" ++ "\n    " ++
        setupText "a" ++ "\n")) := by
  refine ((plan_closed_form (by decide) (fun _ => rfl) bareInterpreter _ _).1 _).2 ⟨?_, ?_⟩
  · decide
  · simp only [ofString_append]
    decide +kernel

end Ledger

end CrossBuild
