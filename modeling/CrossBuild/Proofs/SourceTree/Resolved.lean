import CrossBuild.Proofs.ScriptName
import CrossBuild.Proofs.SourceTree.Resolves
import Mathlib.Tactic.Common

/-!
# What a resolved tree holds

What stands under a name of a resolved tree is known from what stood there: a directory becomes its
resolution, an asset stays, and a script stays or is gone. So the scripts of a resolved tree are all of
use to its family, and none is there next to its variant.
-/

namespace CrossBuild.SourceTree

variable {family : OsFamily} {root : SourceTree} {told : String → Bool → Prop}
  {dirs siblings : List String} {t c d : SourceTree} {r : Resolution} {n name : String} {entry : Entry}

/-! ## Looking into a tree -/

@[simp] theorem child?_nil : SourceTree.nil.child? n = none := rfl

@[simp] theorem child?_script (text : Option String) (rest : SourceTree) :
    (script name text rest).child? n = if name = n then some (.script text) else rest.child? n := rfl

@[simp] theorem child?_asset (source : Option Path) (rest : SourceTree) :
    (asset name source rest).child? n = if name = n then some (.asset source) else rest.child? n := rfl

@[simp] theorem child?_directory (children rest : SourceTree) :
    (directory name children rest).child? n =
      if name = n then some (.directory children) else rest.child? n := rfl

theorem child?_eq_none_iff : t.child? n = none ↔ n ∉ t.names := by
  induction t with
  | nil => simp [names]
  | script _ _ _ ih | asset _ _ _ ih | directory _ _ _ _ ih =>
    simp only [child?_script, child?_asset, child?_directory, names, List.mem_cons, not_or, ← ih]
    split
    · next h => simp [h]
    · next h => simp [Ne.symm h]

theorem mem_names_of_child? (h : t.child? n = some entry) : n ∈ t.names := by
  by_contra hnot
  rw [child?_eq_none_iff.2 hnot] at h
  cases h

theorem get?_nil : t.get? [] = some (.directory t) := by
  rw [get?]

theorem get?_cons (path : List String) : t.get? (n :: path) =
    match t.child? n, path with
    | some entry, [] => some entry
    | some (.directory children), path => children.get? path
    | _, _ => none :=
  (get?.eq_def t (n :: path)).trans rfl

theorem get?_cons_congr (h : t.child? n = d.child? n) (path : List String) :
    t.get? (n :: path) = d.get? (n :: path) := by
  rw [get?_cons, get?_cons, h]

theorem get?_cons_of_directory (h : t.child? n = some (.directory c)) (path : List String) :
    t.get? (n :: path) = c.get? path := by
  rw [get?_cons, h]
  cases path <;> rfl

theorem exists_child?_of_get? {path : List String} (h : t.get? (n :: path) = some entry) :
    ∃ first, t.child? n = some first := by
  rcases hchild : t.child? n with _ | first
  · rw [get?_cons, hchild] at h
    cases path <;> cases h
  · exact ⟨first, rfl⟩

theorem get?_singleton : t.get? [n] = t.child? n := by
  rw [get?_cons]
  rcases t.child? n with _ | _ | _ | _ <;> rfl

/-- A way that leads to a directory begins at a directory. -/
theorem exists_directory_of_get? {path : List String} (h : t.get? (n :: path) = some (.directory d)) :
    ∃ c, t.child? n = some (.directory c) ∧ c.get? path = some (.directory d) := by
  rcases hchild : t.child? n with _ | text | source | c
  case directory => exact ⟨c, rfl, by rwa [get?_cons_of_directory hchild] at h⟩
  all_goals
    rw [get?_cons, hchild] at h
    cases path <;> cases h

/-- What a way of names leads to stands in the directory that all but its last name lead to. -/
theorem get?_concat_eq_some_iff {path : List String} :
    t.get? (path ++ [n]) = some entry ↔
      ∃ d, t.get? path = some (.directory d) ∧ d.child? n = some entry := by
  induction path generalizing t with
  | nil =>
    rw [List.nil_append, get?_singleton, get?_nil]
    constructor
    · exact fun h => ⟨t, rfl, h⟩
    · rintro ⟨d, hd, h⟩
      cases hd
      exact h
  | cons m path ih =>
    rcases hchild : t.child? m with _ | text | source | children
    case directory =>
      rw [List.cons_append, get?_cons_of_directory hchild, get?_cons_of_directory hchild, ih]
    all_goals
      have hnone : t.get? (m :: path ++ [n]) = none := by
        cases path <;> simp [get?_cons, hchild]
      rw [hnone]
      refine ⟨fun h => (by cases h), fun ⟨d, hd, _⟩ => ?_⟩
      obtain ⟨c, hc, -⟩ := exists_directory_of_get? hd
      cases hchild.symm.trans hc

/-- Every name stands once in its directory. -/
def Distinct : SourceTree → Prop
  | .nil => True
  | .script name _ rest | .asset name _ rest => name ∉ rest.names ∧ Distinct rest
  | .directory name children rest => name ∉ rest.names ∧ Distinct children ∧ Distinct rest

theorem Distinct.nodup (h : t.Distinct) : t.names.Nodup := by
  induction t with
  | nil => exact List.nodup_nil
  | script _ _ _ ih | asset _ _ _ ih => exact List.nodup_cons.2 ⟨h.1, ih h.2⟩
  | directory _ _ _ _ ih => exact List.nodup_cons.2 ⟨h.1, ih h.2.2⟩

theorem Distinct.child (h : t.Distinct) (hc : t.child? n = some (.directory c)) : c.Distinct := by
  induction t with
  | nil => cases hc
  | script _ _ _ ih | asset _ _ _ ih =>
    simp only [child?_script, child?_asset] at hc
    split at hc
    · cases hc
    · exact ih h.2 hc
  | directory _ _ _ _ ih =>
    rw [child?_directory] at hc
    split at hc
    · cases hc
      exact h.2.1
    · exact ih h.2.2 hc

theorem distinct_of_child? (ht : t.names.Nodup)
    (hc : ∀ n c, t.child? n = some (.directory c) → c.Distinct) : t.Distinct := by
  -- what stands after the first name is not hidden by it
  have hafter : ∀ {rest : SourceTree} {name n : String} {c : SourceTree}, name ∉ rest.names →
      rest.child? n = some (.directory c) → name ≠ n := by
    rintro rest name n c hname hn rfl
    exact hname (mem_names_of_child? hn)
  induction t with
  | nil => trivial
  | script name text rest ih | asset name source rest ih =>
    obtain ⟨hname, hrest⟩ := List.nodup_cons.1 ht
    refine ⟨hname, ih hrest fun n c hn => hc n c ?_⟩
    simpa [hafter hname hn] using hn
  | directory name children rest _ ih =>
    obtain ⟨hname, hrest⟩ := List.nodup_cons.1 ht
    refine ⟨hname, hc name children (by simp), ih hrest fun n c hn => hc n c ?_⟩
    simpa [hafter hname hn] using hn

/-! ## Names and scripts of a resolved directory -/

theorem Resolves.names_sublist (h : Resolves family root told dirs siblings t r) :
    r.tree.names.Sublist t.names := by
  induction h with
  | nil => exact List.Sublist.refl _
  | directory _ _ _ ih | asset _ ih | kept _ _ _ ih => exact ih.cons_cons _
  | dropped _ _ ih => exact ih.cons _

theorem Resolves.keeps_of_mem (h : Resolves family root told dirs siblings t r) {text : Option String}
    (hn : (n, Entry.script text) ∈ r.tree.entries) : keeps family siblings n = true := by
  induction h with
  | nil => cases hn
  | directory _ _ _ ih | asset _ ih => exact ih ((List.mem_cons.1 hn).resolve_left (by simp))
  | kept hkeeps _ _ ih =>
    rcases List.mem_cons.1 hn with heq | hn
    · rw [(Prod.mk.inj heq).1]
      exact hkeeps
    · exact ih hn
  | dropped _ _ ih => exact ih hn

/-- A directory of a resolved directory is the resolution of a directory. -/
theorem Resolves.of_child? (h : Resolves family root told dirs siblings t r)
    (hd : r.tree.child? n = some (.directory d)) :
    ∃ c inner, Resolves family root told (dirs ++ [n]) c.names c inner ∧ inner.tree = d := by
  induction h with
  | nil => cases hd
  | @directory _ _ _ children _ inner _ inside _ _ ih =>
    rw [child?_directory] at hd
    split at hd
    · next hname =>
      subst hname
      exact ⟨children, inner, inside, Entry.directory.inj (Option.some.inj hd)⟩
    · exact ih hd
  | asset _ ih | kept _ _ _ ih =>
    simp only [child?_asset, child?_script] at hd
    split at hd
    · cases hd
    · exact ih hd
  | dropped _ _ ih => exact ih hd

/-- A directory of a resolved tree is the resolution of a directory. -/
theorem Resolves.of_get? (h : Resolves family root told dirs t.names t r) {path : List String}
    (hd : r.tree.get? path = some (.directory d)) :
    ∃ c inner, Resolves family root told (dirs ++ path) c.names c inner ∧ inner.tree = d := by
  induction path generalizing dirs t r with
  | nil =>
    rw [get?_nil] at hd
    exact ⟨t, r, by simpa using h, Entry.directory.inj (Option.some.inj hd)⟩
  | cons m path ih =>
    obtain ⟨children, hchild, hd⟩ := exists_directory_of_get? hd
    obtain ⟨c, inner, hinner, rfl⟩ := h.of_child? hchild
    obtain ⟨c', inner', hinner', heq⟩ := ih hinner hd
    exact ⟨c', inner', by simpa using hinner', heq⟩

/-! ## What becomes of the things in a directory -/

/-- What becomes of what stands under a name. -/
def Becomes (family : OsFamily) (root : SourceTree) (told : String → Bool → Prop)
    (dirs siblings : List String) (n : String) : Option Entry → Option Entry → Prop
  | none, after => after = none
  | some (.script _), after =>
    if keeps family siblings n then ∃ text, after = some (.script (some text)) else after = none
  | some (.asset source), after => after = some (.asset source)
  | some (.directory c), after =>
    ∃ inner, Resolves family root told (dirs ++ [n]) c.names c inner ∧
      after = some (.directory inner.tree)

/-- **Under each name** stands what became of what stood there. -/
theorem Resolves.becomes (h : Resolves family root told dirs siblings t r) (ht : t.names.Nodup)
    (n : String) : Becomes family root told dirs siblings n (t.child? n) (r.tree.child? n) := by
  induction h with
  | nil => rfl
  | @directory _ _ _ _ _ inner _ inside _ _ ih =>
    rw [child?_directory, child?_directory]
    split
    · next hname =>
      subst hname
      exact ⟨inner, inside, rfl⟩
    · exact ih (List.nodup_cons.1 ht).2
  | asset _ ih =>
    rw [child?_asset, child?_asset]
    split
    · rfl
    · exact ih (List.nodup_cons.1 ht).2
  | @kept _ _ _ _ text' _ _ _ hkeeps _ _ ih =>
    rw [child?_script, child?_script]
    split
    · next hname =>
      subst hname
      rw [Becomes, if_pos hkeeps]
      exact ⟨text', rfl⟩
    · exact ih (List.nodup_cons.1 ht).2
  | @dropped _ _ _ _ _ r' hkeeps hrest ih =>
    rw [child?_script]
    split
    · next hname =>
      subst hname
      rw [Becomes, if_neg (by simp [hkeeps])]
      exact child?_eq_none_iff.2 fun hmem =>
        (List.nodup_cons.1 ht).1 (hrest.names_sublist.subset hmem)
    · exact ih (List.nodup_cons.1 ht).2

/-- A directory of a tree is resolved where it is. -/
theorem Resolves.get?_directory (h : Resolves family root told dirs t.names t r) (ht : t.Distinct)
    {path : List String} (hd : t.get? path = some (.directory d)) :
    d.Distinct ∧ ∃ inner, Resolves family root told (dirs ++ path) d.names d inner ∧
      r.tree.get? path = some (.directory inner.tree) := by
  induction path generalizing dirs t r with
  | nil =>
    rw [get?_nil] at hd
    cases hd
    exact ⟨ht, r, by simpa using h, get?_nil⟩
  | cons m path ih =>
    have hbecomes := h.becomes ht.nodup m
    obtain ⟨children, hchild, hd⟩ := exists_directory_of_get? hd
    rw [hchild] at hbecomes
    obtain ⟨inner, hinner, hafter⟩ := hbecomes
    obtain ⟨hdistinct, inner', hinner', hget⟩ := ih hinner (ht.child hchild) hd
    exact ⟨hdistinct, inner', by simpa using hinner', by rw [get?_cons_of_directory hafter, hget]⟩

/-! ## Purity -/

variable {σ : Type} {outside : Option (String → Task σ Bool)} {s s' : σ}

/-- **A resolved tree is of one family**: in each of its directories the scripts are general or for
the family, and there is no general one with anything under the name of its variant. -/
theorem scripts_of_family (h : (t.resolve family outside).runOn s = (.ok r, s')) {path : List String}
    (hd : r.tree.get? path = some (.directory d)) {text : Option String}
    (hn : (n, Entry.script text) ∈ d.entries) :
    (∀ own, (ScriptName.ofString n).family = some own → own = family) ∧
      ((ScriptName.ofString n).family = none → ScriptName.specific n family ∉ d.names) := by
  obtain ⟨told, hresolves⟩ := Outcome.task.resolves h
  obtain ⟨c, inner, hinner, rfl⟩ := hresolves.of_get? hd
  have hkeeps := hinner.keeps_of_mem hn
  unfold keeps at hkeeps
  constructor
  · intro own hown
    rw [hown] at hkeeps
    exact eq_of_beq hkeeps
  · intro hnone hmem
    rw [hnone] at hkeeps
    have hsibling := hinner.names_sublist.subset hmem
    simp [hsibling] at hkeeps

/-- Of a script, its variants for two families and another script, two scripts are left. -/
theorem scripts_of_family_nested :
    let scripts := SourceTree.script "a.linux.mjs" none (.script "a.mjs" none
      (.script "a.win32.mjs" none (.script "b.mjs" none .nil)))
    let left := SourceTree.script "a.linux.mjs" (some "") (.script "b.mjs" (some "") .nil)
    ((SourceTree.directory "sub" scripts .nil).resolve .linux
        (some fun _ => (pure true : Task Unit Bool))).runOn () =
      (.ok ⟨.directory "sub" left .nil, ["sub/a.mjs", "sub/a.win32.mjs"], []⟩, ()) ∧
    (∀ own, (ScriptName.ofString "b.mjs").family = some own → own = .linux) ∧
    ((ScriptName.ofString "b.mjs").family = none → ScriptName.specific "b.mjs" .linux ∉ left.names) := by
  intro scripts left
  have hrun : ((SourceTree.directory "sub" scripts .nil).resolve .linux
      (some fun _ => (pure true : Task Unit Bool))).runOn () =
      (.ok ⟨.directory "sub" left .nil, ["sub/a.mjs", "sub/a.win32.mjs"], []⟩, ()) := by
    decide +kernel
  have hsub : (SourceTree.directory "sub" left .nil).get? ["sub"] = some (.directory left) := by
    rfl
  have hscript : ("b.mjs", Entry.script (some "")) ∈ left.entries := by decide
  exact ⟨hrun, scripts_of_family hrun hsub hscript⟩

end CrossBuild.SourceTree
