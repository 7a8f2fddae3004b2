import CrossBuild.Proofs.FileSystem.Sound
import Mathlib.Data.List.Sort

/-!
# The names in a directory

A directory lists what stands directly in it, each name once and in order. So the list is known from
what stands where, however the file system came about.
-/

namespace CrossBuild

open FileSystem

theorem exists_valueOf?_of_mem {α β : Type} [DecidableEq α] {e : α × β} {pairs : List (α × β)}
    (h : e ∈ pairs) : ∃ value, valueOf? e.1 pairs = some value := by
  induction pairs with
  | nil => cases h
  | cons p pairs ih =>
    obtain ⟨key, value⟩ := p
    by_cases hkey : key = e.1
    · exact ⟨value, by rw [valueOf?, if_pos hkey]⟩
    · rcases List.mem_cons.1 h with rfl | h
      · exact absurd rfl hkey
      · obtain ⟨v, hv⟩ := ih h
        exact ⟨v, by rw [valueOf?, if_neg hkey, hv]⟩

theorem nodup_eraseDups {α : Type} [BEq α] [LawfulBEq α] (l : List α) : l.eraseDups.Nodup := by
  induction hn : l.length using Nat.strong_induction_on generalizing l with
  | _ n ih =>
    cases l with
    | nil => exact List.nodup_nil
    | cons a l =>
      rw [List.eraseDups_cons, List.nodup_cons]
      refine ⟨fun hmem => ?_, ih _ ?_ _ rfl⟩
      · have := (List.mem_filter.1 (List.mem_eraseDups.1 hmem)).2
        simp at this
      · have := List.length_filter_le (fun b => !b == a) l
        rw [List.length_cons] at hn
        omega

namespace FileSystem

variable {fs fs' : FileSystem} {l : Location} {n : String} {p : Path}

theorem childName?_eq_some_iff {other : Location} :
    childName? l other = some n ↔ other = l ++ [n] := by
  unfold childName?
  rcases List.eq_nil_or_concat other with rfl | ⟨init, last, rfl⟩
  · simp
  · rw [List.concat_eq_append, List.getLast?_concat, List.dropLast_concat]
    constructor
    · intro h
      dsimp only at h
      split at h
      · next hinit => rw [hinit, Option.some.inj h]
      · cases h
    · intro h
      obtain ⟨rfl, hlast⟩ := List.append_inj' h rfl
      rw [(List.cons.inj hlast).1]
      exact if_pos rfl

/-- A directory lists what stands directly in it. -/
theorem mem_childNames : n ∈ fs.childNames l ↔ fs.node? (l ++ [n]) ≠ none := by
  unfold childNames
  rw [List.mem_mergeSort, List.mem_eraseDups, List.mem_filterMap]
  have hne : l ++ [n] ≠ [] := by simp
  constructor
  · rintro ⟨e, he, hchild⟩
    rw [childName?_eq_some_iff] at hchild
    obtain ⟨node, hnode⟩ := exists_valueOf?_of_mem he
    unfold node?
    rw [if_neg hne, ← hchild, hnode]
    simp
  · intro h
    obtain ⟨node, hnode⟩ := Option.ne_none_iff_exists'.1 h
    exact ⟨_, mem_nodes hnode hne, childName?_eq_some_iff.2 rfl⟩

theorem nodup_childNames (fs : FileSystem) (l : Location) : (fs.childNames l).Nodup :=
  (List.mergeSort_perm _ _).nodup_iff.2 (nodup_eraseDups _)

/-- Directories with the same things in them list the same. -/
theorem childNames_congr (h : ∀ n, fs'.node? (l ++ [n]) = fs.node? (l ++ [n])) :
    fs'.childNames l = fs.childNames l := by
  have hordered : ∀ fs : FileSystem, (fs.childNames l).Pairwise fun a b => (!(b < a : Bool)) = true := by
    refine fun fs => List.pairwise_mergeSort (fun a b c hab hbc => ?_) (fun a b => ?_) _
    · simp only [Bool.not_eq_true', decide_eq_false_iff_not, String.not_lt] at hab hbc ⊢
      exact String.le_trans hab hbc
    · simp only [Bool.or_eq_true, Bool.not_eq_true', decide_eq_false_iff_not, String.not_lt]
      exact String.le_total a b
  refine List.Perm.eq_of_pairwise (fun a b _ _ hab hba => ?_) (hordered fs') (hordered fs) ?_
  · simp only [Bool.not_eq_true', decide_eq_false_iff_not, String.not_lt] at hab hba
    exact String.le_antisymm hab hba
  · rw [List.perm_ext_iff_of_nodup (fs'.nodup_childNames l) (fs.nodup_childNames l)]
    intro n
    rw [mem_childNames, mem_childNames, h]

theorem names_eq_ok_iff {found : List String} :
    fs.names p = .ok found ↔
      ∃ l, fs.lookup true p = .ok (l, .directory) ∧ fs.childNames l = found := by
  unfold names
  constructor
  · intro h
    rcases hlookup : fs.lookup true p with f | ⟨l, _ | _ | _⟩ <;> rw [hlookup] at h <;> cases h
    exact ⟨l, rfl, rfl⟩
  · rintro ⟨l, hlookup, rfl⟩
    rw [hlookup]

theorem Sound.isName_of_mem_names (hs : fs.Sound) {found : List String}
    (h : fs.names p = .ok found) : ∀ n ∈ found, IsName n := by
  obtain ⟨l, -, rfl⟩ := names_eq_ok_iff.1 h
  intro n hn
  obtain ⟨node, hnode⟩ := Option.ne_none_iff_exists'.1 (mem_childNames.1 hn)
  exact hs.names _ node hnode n (by simp)

end FileSystem

end CrossBuild
