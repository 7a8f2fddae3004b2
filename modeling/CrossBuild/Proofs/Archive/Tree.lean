import CrossBuild.Archive.Extract
import Mathlib.Data.List.Basic
import Mathlib.Tactic.Common

/-!
# The tree of an archive

What an archive has at each location, read off its directory: the last file that goes there, or else a
directory if anything goes below. A single directory at the top that holds everything wraps the rest
(`wrapper`), and what is left without it is the payload.
-/

namespace CrossBuild.Zip

open FileSystem

variable {bytes : Bytes} {all done : List Entry} {e : Entry} {l : Location} {n : String}

/-- The last file that goes to a location. -/
def fileAt? (all : List Entry) (l : Location) : Option Entry :=
  (all.filter fun e => !isDirectoryName e.name && cleanParts e.name == l).getLast?

/-- What an archive has at a location. -/
def holds (bytes : Bytes) (all : List Entry) (l : Location) : Option Node :=
  match fileAt? all l with
  | some e => (content bytes e).toOption.map fun b => .file b false
  | none => if all.any fun e => l.isPrefixOf (cleanParts e.name) then some .directory else none

/-- The names at the top, one for each entry that has any. -/
def tops (all : List Entry) : List String :=
  all.filterMap fun e => (cleanParts e.name).head?

/-- The directory that everything in an archive is in, if there is one. -/
def wrapper (bytes : Bytes) (all : List Entry) : Location :=
  match tops all with
  | [] => []
  | n :: rest =>
    if rest.all (· == n) && holds bytes all [n] == some .directory then [n] else []

/-- What an archive has at a location below its wrapping directory. -/
def payload (bytes : Bytes) (all : List Entry) (l : Location) : Option Node :=
  holds bytes all (wrapper bytes all ++ l)

/-- The content of every file can be read. -/
def Readable (bytes : Bytes) (all : List Entry) : Prop :=
  ∀ e ∈ all, isDirectoryName e.name = false → ∃ b, content bytes e = .ok b

/-! ## Looking up -/

theorem mem_of_fileAt? (h : fileAt? all l = some e) :
    e ∈ all ∧ isDirectoryName e.name = false ∧ cleanParts e.name = l := by
  obtain ⟨hmem, hkeep⟩ := List.mem_filter.1 (List.mem_of_getLast? h)
  rw [Bool.and_eq_true_iff, Bool.not_eq_true', beq_iff_eq] at hkeep
  exact ⟨hmem, hkeep⟩

theorem holds_cases (bytes : Bytes) (all : List Entry) (l : Location) :
    holds bytes all l = none ∨ holds bytes all l = some .directory ∨
      ∃ b, holds bytes all l = some (.file b false) := by
  unfold holds
  split
  · next e _ =>
    rcases content bytes e with f | b
    · exact .inl rfl
    · exact .inr (.inr ⟨b, rfl⟩)
  · split
    · exact .inr (.inl rfl)
    · exact .inl rfl

theorem holds_ne_link (bytes : Bytes) (all : List Entry) (l : Location) (target : String) :
    holds bytes all l ≠ some (.link target) := by
  rcases holds_cases bytes all l with h | h | ⟨b, h⟩ <;> rw [h] <;> simp

/-- Something is at a location exactly if an entry goes there or below. -/
theorem holds_ne_none_iff (hread : Readable bytes all) :
    holds bytes all l ≠ none ↔ ∃ e ∈ all, l <+: cleanParts e.name := by
  unfold holds
  rcases h : fileAt? all l with _ | e
  · simp [List.isPrefixOf_iff_prefix]
  · obtain ⟨hmem, hfile, hparts⟩ := mem_of_fileAt? h
    obtain ⟨b, hb⟩ := hread e hmem hfile
    simp only [hb]
    exact ⟨fun _ => ⟨e, hmem, hparts ▸ List.prefix_refl _⟩, fun _ => by simp [Except.toOption]⟩

/-! ### One more entry -/

theorem holds_append_file (hfile : isDirectoryName e.name = false) {b : Bytes}
    (hb : content bytes e = .ok b) :
    holds bytes (done ++ [e]) (cleanParts e.name) = some (.file b false) := by
  have hlast : fileAt? (done ++ [e]) (cleanParts e.name) = some e := by
    simp [fileAt?, List.filter_append, hfile]
  rw [holds, hlast]
  simp [hb, Except.toOption]

/-- Above an entry there are directories, where no file was. -/
theorem holds_append_above (hread : Readable bytes done) (hl : l <+: cleanParts e.name)
    (hne : isDirectoryName e.name = true ∨ l ≠ cleanParts e.name)
    (hdone : ∀ b, holds bytes done l ≠ some (.file b false)) :
    holds bytes (done ++ [e]) l = some .directory := by
  have hnone : fileAt? done l = none := by
    rcases h : fileAt? done l with _ | e'
    · rfl
    · obtain ⟨hmem, hfile, -⟩ := mem_of_fileAt? h
      obtain ⟨b, hb⟩ := hread e' hmem hfile
      exact absurd (by simp [holds, h, hb, Except.toOption]) (hdone b)
  have hother : (!isDirectoryName e.name && cleanParts e.name == l) = false := by
    rcases hne with hdir | hne
    · simp [hdir]
    · simp [Ne.symm hne]
  have hnone' : fileAt? (done ++ [e]) l = none := by
    rw [fileAt?, List.filter_append, List.filter_singleton, hother]
    simpa [fileAt?] using hnone
  rw [holds, hnone']
  simp [List.isPrefixOf_iff_prefix.2 hl]

theorem holds_append_elsewhere (hl : ¬ l <+: cleanParts e.name) :
    holds bytes (done ++ [e]) l = holds bytes done l := by
  have hother : (!isDirectoryName e.name && cleanParts e.name == l) = false := by
    have : cleanParts e.name ≠ l := fun h => hl (h ▸ List.prefix_refl l)
    simp [this]
  have hsame : fileAt? (done ++ [e]) l = fileAt? done l := by
    rw [fileAt?, List.filter_append, List.filter_singleton, hother]
    simp [fileAt?]
  have hnot : l.isPrefixOf (cleanParts e.name) = false :=
    Bool.eq_false_iff.2 (mt List.isPrefixOf_iff_prefix.1 hl)
  rw [holds, holds, hsame]
  simp [List.any_append, hnot]

/-! ## Entries of one name -/

/-- The last entry with the name of an entry. -/
def lastNamed (all : List Entry) (e : Entry) : Entry :=
  ((all.filter fun other => other.name == e.name).getLast?).getD e

theorem chosen_eq (all : List Entry) : chosen all = all.map (lastNamed all) := rfl

theorem name_lastNamed (all : List Entry) (e : Entry) : (lastNamed all e).name = e.name := by
  unfold lastNamed
  rcases h : (all.filter fun other => other.name == e.name).getLast? with _ | other
  · rw [h]
    rfl
  · rw [h]
    exact beq_iff_eq.1 (List.mem_filter.1 (List.mem_of_getLast? h)).2

/-- An entry that is the last one to go to its location is the last one of its name. -/
theorem lastNamed_of_fileAt? (h : fileAt? all l = some e) : lastNamed all e = e := by
  obtain ⟨-, hfile, hparts⟩ := mem_of_fileAt? h
  obtain ⟨front, hfront⟩ := List.getLast?_eq_some_iff.1 h
  have hsub : (all.filter fun other => other.name == e.name) =
      (all.filter fun e => !isDirectoryName e.name && cleanParts e.name == l).filter
        fun other => other.name == e.name := by
    rw [List.filter_filter]
    refine List.filter_congr fun other _ => ?_
    by_cases hname : other.name = e.name
    · simp [hname, hfile, hparts]
    · simp [hname]
  unfold lastNamed
  rw [hsub, hfront, List.filter_append, List.filter_singleton]
  simp

theorem fileAt?_chosen (all : List Entry) (l : Location) : fileAt? (chosen all) l = fileAt? all l := by
  have hfilter : (chosen all).filter (fun e => !isDirectoryName e.name && cleanParts e.name == l) =
      (all.filter fun e => !isDirectoryName e.name && cleanParts e.name == l).map (lastNamed all) := by
    rw [chosen_eq, List.filter_map]
    congr 1
    refine List.filter_congr fun e _ => ?_
    simp [name_lastNamed]
  rw [fileAt?, hfilter, List.getLast?_map]
  rcases h : fileAt? all l with _ | e
  · rw [fileAt?] at h
    rw [h]
    rfl
  · have hlast := lastNamed_of_fileAt? h
    rw [fileAt?] at h
    rw [h]
    exact congrArg some hlast

/-- The entries that are written hold what all of them hold. -/
theorem holds_chosen (bytes : Bytes) (all : List Entry) (l : Location) :
    holds bytes (chosen all) l = holds bytes all l := by
  have hany : ((chosen all).any fun e => l.isPrefixOf (cleanParts e.name)) =
      all.any fun e => l.isPrefixOf (cleanParts e.name) := by
    rw [chosen_eq, List.any_map]
    simp [Function.comp_def, name_lastNamed]
  rw [holds, holds, fileAt?_chosen, hany]

theorem mem_tops_iff : n ∈ tops all ↔ ∃ e ∈ all, [n] <+: cleanParts e.name := by
  unfold tops
  rw [List.mem_filterMap]
  refine exists_congr fun e => and_congr_right fun _ => ?_
  rcases cleanParts e.name with _ | ⟨x, xs⟩
  · simp
  · simp [List.cons_prefix_cons, eq_comm]

/-- What is at the top of what is written is what is at the top of the archive. -/
theorem holds_top_ne_none_iff (hread : Readable bytes (chosen all)) :
    holds bytes all [n] ≠ none ↔ n ∈ tops all := by
  rw [← holds_chosen, holds_ne_none_iff hread, mem_tops_iff, chosen_eq]
  simp [name_lastNamed]

/-! ## The wrapping directory -/

theorem wrapper_cases (bytes : Bytes) (all : List Entry) :
    wrapper bytes all = [] ∨ ∃ n, wrapper bytes all = [n] ∧ holds bytes all [n] = some .directory := by
  unfold wrapper
  split
  · exact .inl rfl
  · next n rest _ =>
    split
    · next h => exact .inr ⟨n, rfl, eq_of_beq (Bool.and_eq_true_iff.1 h).2⟩
    · exact .inl rfl

/-- A directory wraps an archive if it is all that the archive has at the top. -/
theorem wrapper_of_names (bytes : Bytes) {names : List String} (hnodup : names.Nodup)
    (hnames : ∀ n, n ∈ names ↔ n ∈ tops all) :
    (∀ n, names = [n] → wrapper bytes all = if holds bytes all [n] = some .directory then [n] else []) ∧
      ((∀ n, names ≠ [n]) → wrapper bytes all = []) := by
  rcases htops : tops all with _ | ⟨top, rest⟩
  · have hwrapper : wrapper bytes all = [] := by rw [wrapper, htops]
    refine ⟨fun n hn => ?_, fun _ => hwrapper⟩
    have hmem := (hnames n).1 (by simp [hn])
    rw [htops] at hmem
    cases hmem
  have hmem : ∀ n, n ∈ names ↔ n = top ∨ n ∈ rest := fun n => by rw [hnames, htops, List.mem_cons]
  rw [wrapper, htops]
  constructor
  · rintro n rfl
    obtain rfl : top = n := List.mem_singleton.1 ((hmem top).2 (.inl rfl))
    have hrest : rest.all (· == top) = true :=
      List.all_eq_true.2 fun k hk => beq_iff_eq.2 (List.mem_singleton.1 ((hmem k).2 (.inr hk)))
    simp [hrest]
  · intro hmore
    have hrest : rest.all (· == top) = false := by
      refine Bool.eq_false_iff.2 fun hall => hmore top ?_
      refine List.perm_singleton.1 ((List.perm_ext_iff_of_nodup hnodup (by simp)).2 ?_)
      intro n
      rw [hmem, List.mem_singleton]
      exact ⟨fun hn => hn.elim id fun hn => beq_iff_eq.1 (List.all_eq_true.1 hall n hn), .inl⟩
    simp [hrest]

end CrossBuild.Zip
