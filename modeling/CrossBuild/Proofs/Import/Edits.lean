import CrossBuild.Proofs.Import

/-!
# Where a rebound script differs

The pieces of a script put together are the script. So a script whose pieces were rebound is the one
from before, but for the paths of the statements that were swapped.
-/

namespace CrossBuild.Import

open Utf8

variable {family : List Char} {told : String → Bool → Prop} {s rest : List Char} {st : Statement}
  {swaps : List Swap} {b b' : Bytes}

/-! ## Pieces -/

theorem eq_append_of_splitExtension? {literal path : List Char} {e : Extension}
    (h : splitExtension? literal = some (path, e)) : literal = path ++ e.text := by
  obtain ⟨e', -, he⟩ := List.exists_of_findSome?_eq_some h
  dsimp only at he
  split at he
  · next hsuffix =>
    simp only [Bool.and_eq_true, List.isSuffixOf_iff_suffix] at hsuffix
    obtain ⟨⟨front, rfl⟩, -⟩ := hsuffix
    obtain ⟨rfl, rfl⟩ := Prod.mk.inj (Option.some.inj he)
    simp
  · cases he

/-- A statement stands at the front of what it is read from. -/
theorem eq_append_of_statement? (h : statement? s = some (st, rest)) : s = st.text ++ rest := by
  unfold statement? at h
  split at h
  swap
  · cases h
  next hword =>
  obtain ⟨t, rfl⟩ := List.isPrefixOf_iff_prefix.1 hword
  rw [List.drop_left] at h
  dsimp only at h
  split at h
  · cases h
  next quote u hclause =>
  split at h
  swap
  · cases h
  next closing r path extension hliteral hsplit =>
  split at h
  swap
  · cases h
  next hquotes =>
  obtain ⟨rfl, rfl⟩ := Prod.mk.inj (Option.some.inj h)
  simp only [Bool.and_eq_true, beq_iff_eq] at hquotes
  obtain ⟨⟨-, rfl⟩, -⟩ := hquotes
  have hpath := eq_append_of_splitExtension? hsplit
  calc importWord ++ t
      = importWord ++ (t.takeWhile (!isStop ·) ++ closing :: u) := by
        rw [← hclause, List.takeWhile_append_dropWhile]
    _ = importWord ++ (t.takeWhile (!isStop ·) ++ closing :: (path ++ extension.text ++ closing :: r)) := by
        rw [← hpath, ← hliteral, List.takeWhile_append_dropWhile]
    _ = _ := by simp [Statement.text, Statement.withPath, Statement.imported]

/-- A statement that is read from where it is written. -/
def Statement.IsRead (st : Statement) : Prop :=
  ∃ rest, statement? (st.text ++ rest) = some (st, rest)

theorem isRead_of_statement? (h : statement? s = some (st, rest)) : st.IsRead :=
  ⟨rest, eq_append_of_statement? h ▸ h⟩

theorem statement?_of_unlessWord {inWord : Bool}
    (h : (if inWord then none else statement? s) = some (st, rest)) :
    statement? s = some (st, rest) := by
  cases inWord with
  | true => cases h
  | false => exact h

theorem flatMap_scan (inWord : Bool) (s : List Char) : (scan inWord s).flatMap Piece.text = s := by
  fun_induction scan inWord s with
  | case1 inWord s st rest h _ ih =>
    rw [List.flatMap_cons, ih]
    exact (eq_append_of_statement? (statement?_of_unlessWord h)).symm
  | case2 inWord h => rfl
  | case3 inWord c s h ih =>
    rw [List.flatMap_cons, ih]
    rfl

/-- **The pieces** of a script spell it. -/
theorem flatMap_pieces (s : List Char) : (pieces s).flatMap Piece.text = s :=
  flatMap_scan false s

theorem isRead_of_mem_scan {inWord : Bool} (h : Piece.statement st ∈ scan inWord s) : st.IsRead := by
  fun_induction scan inWord s with
  | case1 inWord s st' rest hread _ ih =>
    rcases List.mem_cons.1 h with heq | h
    · obtain rfl := Piece.statement.inj heq
      exact isRead_of_statement? (statement?_of_unlessWord hread)
    · exact ih h
  | case2 => cases h
  | case3 inWord c s hread ih =>
    rcases List.mem_cons.1 h with heq | h
    · cases heq
    · exact ih h

/-! ## Edits -/

/-- Bytes that differ from others only in the paths of import statements, which have the variant for a
family in place of the path that stood there. The swaps are those of the statements in order. -/
inductive Edits (family : List Char) : List Swap → Bytes → Bytes → Prop
  | same (b : Bytes) : Edits family [] b b
  | path (front : Bytes) {st : Statement} {swaps : List Swap} {b b' : Bytes} (isRead : st.IsRead)
      (rest : Edits family swaps b b') :
      Edits family (⟨String.ofList st.imported, String.ofList (st.specific family)⟩ :: swaps)
        (front ++ encode st.text ++ b) (front ++ encode (st.withPath (st.specific family)) ++ b')

/-- Without swaps nothing differs. -/
theorem edits_nil_iff : Edits family [] b b' ↔ b' = b := by
  constructor
  · rintro ⟨⟩
    rfl
  · rintro rfl
    exact .same _

theorem Edits.append_left (h : Edits family swaps b b') (front : Bytes) :
    Edits family swaps (front ++ b) (front ++ b') := by
  cases h with
  | same => exact .same _
  | path front' isRead rest =>
    simp only [← List.append_assoc]
    exact .path (front ++ front') isRead rest

/-- **Rebinding** edits the script that the pieces spell. -/
theorem Rebinds.edits {pieces : List Piece} {text : List Char}
    (h : Rebinds family told pieces text swaps)
    (hread : ∀ st, Piece.statement st ∈ pieces → st.IsRead) :
    Edits family swaps (encode (pieces.flatMap Piece.text)) (encode text) := by
  induction h with
  | nil => exact .same _
  | plain c _ ih =>
    rw [List.flatMap_cons, encode_append, ← List.singleton_append, encode_append]
    exact (ih fun st hst => hread st (List.mem_cons_of_mem _ hst)).append_left _
  | stays _ _ ih =>
    rw [List.flatMap_cons, encode_append, encode_append]
    exact (ih fun st hst => hread st (List.mem_cons_of_mem _ hst)).append_left _
  | moves _ _ ih =>
    rw [List.flatMap_cons, encode_append, encode_append]
    exact .path [] (hread _ List.mem_cons_self)
      (ih fun st hst => hread st (List.mem_cons_of_mem _ hst))

theorem Rebinds.edits_script {text : List Char} (h : Rebinds family told (pieces s) text swaps) :
    Edits family swaps (encode s) (encode text) := by
  have hedits := h.edits fun _ => isRead_of_mem_scan
  rwa [flatMap_pieces] at hedits

end CrossBuild.Import
