import CrossBuild.Proofs.SourceTree.Resolved
import Mathlib.Data.List.Nodup

/-!
# What is dropped from a tree

Resolving leaves everything where it is, but for the scripts that it drops. Each of these is listed
once, by its way of names.
-/

namespace CrossBuild.SourceTree

variable {family : OsFamily} {root : SourceTree} {told : String → Bool → Prop}
  {dirs siblings : List String} {t t' rest rest' c c' : SourceTree} {r : Resolution} {n name : String}
  {way : List String} {entry entry' : Entry}

/-- What is left of what a way leads to. -/
inductive Leaves : Option Entry → Option Entry → Prop
  | nothing : Leaves none none
  | asset {source : Option Path} : Leaves (some (.asset source)) (some (.asset source))
  | directory {c c' : SourceTree} : Leaves (some (.directory c)) (some (.directory c'))
  | kept {text text' : Option String} : Leaves (some (.script text)) (some (.script text'))
  | dropped {text : Option String} : Leaves (some (.script text)) none

/-- **Resolving leaves** everything where it is, but for scripts. -/
theorem Resolves.leaves (h : Resolves family root told dirs t.names t r) (ht : t.Distinct)
    (way : List String) : Leaves (t.get? way) (r.tree.get? way) := by
  induction way generalizing dirs t r with
  | nil =>
    rw [get?_nil, get?_nil]
    exact .directory
  | cons n way ih =>
    have hbecomes := h.becomes ht.nodup n
    rcases hchild : t.child? n with _ | text | source | children <;> rw [hchild] at hbecomes
    case directory =>
      obtain ⟨inner, hinner, hafter⟩ := hbecomes
      rw [get?_cons_of_directory hchild, get?_cons_of_directory hafter]
      exact ih hinner (ht.child hchild)
    case none =>
      have hafter : r.tree.child? n = none := hbecomes
      cases way <;> simpa [get?, hchild, hafter] using Leaves.nothing
    case script =>
      rw [Becomes] at hbecomes
      split at hbecomes
      · obtain ⟨text', hafter⟩ := hbecomes
        cases way with
        | nil => simpa [get?, hchild, hafter] using Leaves.kept
        | cons => simpa [get?, hchild, hafter] using Leaves.nothing
      · cases way with
        | nil => simpa [get?, hchild, hbecomes] using Leaves.dropped
        | cons => simpa [get?, hchild, hbecomes] using Leaves.nothing
    case asset =>
      have hafter : r.tree.child? n = some (.asset source) := hbecomes
      cases way with
      | nil => simpa [get?, hchild, hafter] using Leaves.asset
      | cons => simpa [get?, hchild, hafter] using Leaves.nothing

theorem Resolves.distinct (h : Resolves family root told dirs siblings t r) (ht : t.Distinct) :
    r.tree.Distinct := by
  induction h with
  | nil => trivial
  | directory _ after ihc ih =>
    exact ⟨fun hmem => ht.1 (after.names_sublist.subset hmem), ihc ht.2.1, ih ht.2.2⟩
  | asset after ih | kept _ _ after ih =>
    exact ⟨fun hmem => ht.1 (after.names_sublist.subset hmem), ih ht.2⟩
  | dropped _ _ ih => exact ih ht.2

/-! ## Ways to what is gone -/

/-- A way leads to a script in the first tree and to nothing in the second one. -/
def Gone (t t' : SourceTree) (way : List String) : Prop :=
  (∃ text, t.get? way = some (.script text)) ∧ t'.get? way = none

theorem not_gone_nil : ¬ Gone t t' [] := by
  rintro ⟨⟨text, htext⟩, -⟩
  rw [get?_nil] at htext
  cases htext

theorem Gone.mem_names (h : Gone t t' (n :: way)) : n ∈ t.names := by
  obtain ⟨⟨text, htext⟩, -⟩ := h
  obtain ⟨first, hfirst⟩ := exists_child?_of_get? htext
  exact mem_names_of_child? hfirst

theorem Gone.congr (ht : t.child? n = c.child? n) (ht' : t'.child? n = c'.child? n) :
    Gone t t' (n :: way) ↔ Gone c c' (n :: way) := by
  unfold Gone
  rw [get?_cons_congr ht, get?_cons_congr ht']

/-- Nothing is gone below the first name if it is left as it is. -/
theorem gone_iff_of_rest (hname : name ∉ rest.names)
    (ht : ∀ n, t.child? n = if name = n then some entry else rest.child? n)
    (ht' : ∀ n, t'.child? n = if name = n then some entry' else rest'.child? n)
    (hfirst : ∀ way, ¬ Gone t t' (name :: way)) : Gone t t' way ↔ Gone rest rest' way := by
  cases way with
  | nil => exact iff_of_false not_gone_nil not_gone_nil
  | cons n way =>
    by_cases h : name = n
    · subst h
      exact iff_of_false (hfirst way) fun hgone => hname hgone.mem_names
    · exact Gone.congr (by rw [ht, if_neg h]) (by rw [ht', if_neg h])

theorem gone_directory_iff (hname : name ∉ rest.names) :
    Gone (.directory name c rest) (.directory name c' rest') way ↔
      (∃ more, way = name :: more ∧ Gone c c' more) ∨ Gone rest rest' way := by
  cases way with
  | nil => exact iff_of_false not_gone_nil (by simp [not_gone_nil])
  | cons n way =>
    by_cases h : name = n
    · subst h
      have hrest : ¬ Gone rest rest' (name :: way) := fun hgone => hname hgone.mem_names
      unfold Gone at hrest ⊢
      rw [get?_cons_of_directory (by rw [child?_directory, if_pos rfl]),
        get?_cons_of_directory (by rw [child?_directory, if_pos rfl])]
      simp [hrest]
    · have hother : Gone (.directory name c rest) (.directory name c' rest') (n :: way) ↔
          Gone rest rest' (n :: way) := Gone.congr (by simp [h]) (by simp [h])
      rw [hother]
      simp [Ne.symm h]

theorem gone_dropped_iff {text : Option String} (hname : name ∉ rest.names)
    (hname' : name ∉ rest'.names) :
    Gone (.script name text rest) rest' way ↔ way = [name] ∨ Gone rest rest' way := by
  cases way with
  | nil => exact iff_of_false not_gone_nil (by simp [not_gone_nil])
  | cons n way =>
    by_cases h : name = n
    · subst h
      have hrest : ¬ Gone rest rest' (name :: way) := fun hgone => hname hgone.mem_names
      have hnone : rest'.child? name = none := child?_eq_none_iff.2 hname'
      cases way with
      | nil => simp [Gone, get?, hnone]
      | cons m way => simp [hrest]; simp [Gone, get?]
    · have hother : Gone (.script name text rest) rest' (n :: way) ↔ Gone rest rest' (n :: way) :=
        Gone.congr (by simp [h]) rfl
      rw [hother]
      simp [Ne.symm h]

/-- A file of a tree stays where it is, or it is a script that is gone. -/
theorem Resolves.isFile_iff (h : Resolves family root told dirs t.names t r) (ht : t.Distinct) :
    (∃ entry, t.get? way = some entry ∧ entry.isFile = true) ↔
      (∃ entry, r.tree.get? way = some entry ∧ entry.isFile = true) ∨ Gone t r.tree way := by
  have hleaves := h.leaves ht way
  unfold Gone
  generalize t.get? way = before at hleaves ⊢
  generalize r.tree.get? way = after at hleaves ⊢
  cases hleaves <;> simp [Entry.isFile]

/-- **The scripts that are dropped** are listed once, by the ways to what is gone. -/
theorem Resolves.exists_gone (h : Resolves family root told dirs siblings t r) (ht : t.Distinct) :
    ∃ gone : List (List String),
      r.dropped = gone.map (fun way => String.ofList (Lexical.joinAll (dirs ++ way))) ∧
        gone.Nodup ∧ ∀ way, way ∈ gone ↔ Gone t r.tree way := by
  induction h with
  | nil =>
    refine ⟨[], rfl, List.nodup_nil, fun way => iff_of_false (by simp) ?_⟩
    cases way with
    | nil => exact not_gone_nil
    | cons n way => exact fun hgone => by cases hgone.mem_names
  | @directory dirs siblings name children rest inner r _ _ ihc ih =>
    obtain ⟨first, hfirst, hfirstNodup, hfirstMem⟩ := ihc ht.2.1
    obtain ⟨later, hlater, hlaterNodup, hlaterMem⟩ := ih ht.2.2
    refine ⟨first.map (name :: ·) ++ later, ?_, ?_, fun way => ?_⟩
    · simp [hfirst, hlater, Function.comp_def]
    · refine List.nodup_append.2 ⟨hfirstNodup.map List.cons_injective, hlaterNodup, ?_⟩
      rintro way hway _ hway' rfl
      obtain ⟨more, -, rfl⟩ := List.mem_map.1 hway
      exact ht.1 ((hlaterMem _).1 hway').mem_names
    · rw [List.mem_append, List.mem_map, gone_directory_iff ht.1, hlaterMem]
      simp only [hfirstMem, and_comm, eq_comm]
  | @asset dirs siblings name source rest r _ ih =>
    obtain ⟨later, hlater, hnodup, hmem⟩ := ih ht.2
    refine ⟨later, hlater, hnodup, fun way => (hmem way).trans ?_⟩
    refine (gone_iff_of_rest ht.1 (fun _ => rfl) (fun _ => rfl) ?_).symm
    rintro way ⟨⟨text, htext⟩, -⟩
    cases way <;> simp [get?] at htext
  | @kept dirs siblings name text text' swaps rest r _ _ _ ih =>
    obtain ⟨later, hlater, hnodup, hmem⟩ := ih ht.2
    refine ⟨later, hlater, hnodup, fun way => (hmem way).trans ?_⟩
    refine (gone_iff_of_rest ht.1 (fun _ => rfl) (fun _ => rfl) ?_).symm
    rintro way ⟨⟨text, htext⟩, hnone⟩
    cases way <;> simp [get?] at htext hnone
  | @dropped dirs siblings name text rest r _ hrest ih =>
    obtain ⟨later, hlater, hnodup, hmem⟩ := ih ht.2
    have hname : name ∉ r.tree.names := fun hmem => ht.1 (hrest.names_sublist.subset hmem)
    refine ⟨[name] :: later, by simp [hlater], List.nodup_cons.2 ⟨fun hway => ?_, hnodup⟩, fun way => ?_⟩
    · exact ht.1 ((hmem _).1 hway).mem_names
    · rw [List.mem_cons, gone_dropped_iff ht.1 hname, hmem]

end CrossBuild.SourceTree
