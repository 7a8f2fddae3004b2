import CrossBuild.Import
import CrossBuild.Proofs.Outcome
import CrossBuild.Proofs.Path.Lexical
import CrossBuild.Proofs.ScriptName

/-!
# What rebinding does to a script

Rebinding goes through the pieces of a script and changes the statements whose variant is found. The
relation says so piece by piece, whatever program finds the variants.
-/

namespace CrossBuild

namespace Import

/-! ## Endings -/

theorem isEnding_extension (e : Extension) : Lexical.IsEnding e.text := by
  unfold Lexical.IsEnding
  cases e <;> decide

theorem isEnding_variant (family : OsFamily) (e : Extension) :
    Lexical.IsEnding ('.' :: family.word.toList ++ e.text) := by
  unfold Lexical.IsEnding
  cases family <;> cases e <;> decide

theorem Statement.specific_eq (s : Statement) (family : List Char) :
    s.specific family = s.path ++ ('.' :: family ++ s.extension.text) :=
  List.append_assoc _ _ _

/-- The name of a variant is one of its family. -/
theorem family_of_variant (stem : List Char) (family : OsFamily) (e : Extension) :
    (ScriptName.ofString
      (String.ofList (stem ++ ('.' :: family.word.toList ++ e.text)))).family = some family := by
  have hparts : ∀ extension, '.' ∉ extension → e.text = '.' :: extension →
      (ScriptName.ofString
        (String.ofList (stem ++ ('.' :: family.word.toList ++ e.text)))).family = some family := by
    intro extension hpoint htext
    rw [htext, List.cons_append, ScriptName.ofString_variant stem family hpoint]
  cases e with
  | mjs => exact hparts ['m', 'j', 's'] (by decide) rfl
  | js => exact hparts ['j', 's'] (by decide) rfl

/-! ## Piece by piece -/

variable {family : List Char} {told told' : String → Bool → Prop} {pieces : List Piece}
  {text : List Char} {swaps : List Swap}

/-- How the pieces of a script are rebound, by what is said of the variants: the text and the swaps
that come of it. -/
inductive Rebinds (family : List Char) (told : String → Bool → Prop) :
    List Piece → List Char → List Swap → Prop
  | nil : Rebinds family told [] [] []
  | plain {pieces : List Piece} {text : List Char} {swaps : List Swap} (c : Char)
      (rest : Rebinds family told pieces text swaps) :
      Rebinds family told (.plain c :: pieces) (c :: text) swaps
  | stays {pieces : List Piece} {text : List Char} {swaps : List Swap} {s : Statement}
      (answer : told (String.ofList (s.specific family)) false)
      (rest : Rebinds family told pieces text swaps) :
      Rebinds family told (.statement s :: pieces) (s.text ++ text) swaps
  | moves {pieces : List Piece} {text : List Char} {swaps : List Swap} {s : Statement}
      (answer : told (String.ofList (s.specific family)) true)
      (rest : Rebinds family told pieces text swaps) :
      Rebinds family told (.statement s :: pieces) (s.withPath (s.specific family) ++ text)
        (⟨String.ofList s.imported, String.ofList (s.specific family)⟩ :: swaps)

theorem Rebinds.mono (h : Rebinds family told pieces text swaps)
    (htold : ∀ path answer, told path answer → told' path answer) :
    Rebinds family told' pieces text swaps := by
  induction h with
  | nil => exact .nil
  | plain c _ ih => exact .plain c ih
  | stays answer _ ih => exact .stays (htold _ _ answer) ih
  | moves answer _ ih => exact .moves (htold _ _ answer) ih

/-- A swap leads from the import of a statement to its variant, which was found. -/
theorem Rebinds.of_mem (h : Rebinds family told pieces text swaps) {swap : Swap}
    (hswap : swap ∈ swaps) :
    ∃ s : Statement, Piece.statement s ∈ pieces ∧ swap.old = String.ofList s.imported ∧
      swap.new = String.ofList (s.specific family) ∧ told swap.new true := by
  induction h with
  | nil => cases hswap
  | plain _ _ ih | stays _ _ ih =>
    obtain ⟨s, hs, hswap⟩ := ih hswap
    exact ⟨s, List.mem_cons_of_mem _ hs, hswap⟩
  | @moves _ _ _ s answer _ ih =>
    rcases List.mem_cons.1 hswap with rfl | hswap
    · exact ⟨s, List.mem_cons_self, rfl, rfl, answer⟩
    · obtain ⟨s, hs, hswap⟩ := ih hswap
      exact ⟨s, List.mem_cons_of_mem _ hs, hswap⟩

end Import

namespace Outcome

open Import

variable {m : Type → Type} [Monad m] {σ : Type} {o : Outcome m σ} {Told Means : σ → String → Bool → Prop}
  {found : String → m Bool} {family : List Char} {s s' : σ}

theorem Tells.rebindPieces (ho : o.Tells Told Means found)
    (hmeans : ∀ {s s'}, Extends Told s s' → Extends Means s s') {pieces : List Piece} {text : List Char}
    {swaps : List Swap} (h : o.Gives (rebindPieces family found pieces) s (text, swaps) s') :
    Rebinds family (Means s') pieces text swaps ∧ Extends Told s s' := by
  induction pieces generalizing s s' text swaps with
  | nil =>
    obtain ⟨hgiven, rfl⟩ := o.of_pure h
    obtain ⟨rfl, rfl⟩ := Prod.mk.inj hgiven
    exact ⟨.nil, .refl _⟩
  | cons piece pieces ih =>
    cases piece with
    | plain c =>
      obtain ⟨⟨text', swaps'⟩, s₁, hrest, h⟩ := o.of_bind h
      obtain ⟨hrebinds, hextends⟩ := ih hrest
      obtain ⟨hgiven, rfl⟩ := o.of_pure h
      obtain ⟨rfl, rfl⟩ := Prod.mk.inj hgiven
      exact ⟨.plain c hrebinds, hextends⟩
    | statement st =>
      obtain ⟨answer, s₁, hasked, h⟩ := o.of_bind h
      obtain ⟨⟨text', swaps'⟩, s₂, hrest, h⟩ := o.of_bind h
      obtain ⟨hsaid, hfirst⟩ := ho _ _ _ _ hasked
      obtain ⟨hrebinds, hextends⟩ := ih hrest
      cases answer with
      | true =>
        obtain ⟨hgiven, rfl⟩ := o.of_pure h
        obtain ⟨rfl, rfl⟩ := Prod.mk.inj hgiven
        exact ⟨.moves (hmeans hextends _ _ hsaid) hrebinds, hfirst.trans hextends⟩
      | false =>
        obtain ⟨hgiven, rfl⟩ := o.of_pure h
        obtain ⟨rfl, rfl⟩ := Prod.mk.inj hgiven
        exact ⟨.stays (hmeans hextends _ _ hsaid) hrebinds, hfirst.trans hextends⟩

/-- **Rebinding a script** rebinds its pieces. -/
theorem Tells.rebind (ho : o.Tells Told Means found)
    (hmeans : ∀ {s s'}, Extends Told s s' → Extends Means s s') {word script text : String} {swaps : List Swap}
    (h : o.Gives (rebind word found script) s (text, swaps) s') :
    Rebinds word.toList (Means s') (pieces script.toList) text.toList swaps ∧ Extends Told s s' := by
  obtain ⟨⟨text', swaps'⟩, s₁, hpieces, h⟩ := o.of_bind h
  obtain ⟨hgiven, rfl⟩ := o.of_pure h
  obtain ⟨rfl, rfl⟩ := Prod.mk.inj hgiven
  rw [String.toList_ofList]
  exact ho.rebindPieces hmeans hpieces

end Outcome

namespace Task

open Import

variable {σ : Type} {found : String → Task σ Bool} {found' : String → Task (σ × List String) Bool}

theorem Noted.rebindPieces (hfound : ∀ path, Noted (found path) (found' path)) (family : List Char)
    (pieces : List Piece) : Noted (rebindPieces family found pieces) (rebindPieces family found' pieces) := by
  induction pieces with
  | nil => exact noted_pure _
  | cons piece pieces ih =>
    cases piece with
    | plain c => exact ih.bind fun _ => noted_pure _
    | statement s =>
      refine (hfound _).bind fun answer => ih.bind fun _ => ?_
      cases answer with
      | true => exact noted_pure _
      | false => exact noted_pure _

theorem Noted.rebind (hfound : ∀ path, Noted (found path) (found' path)) (word script : String) :
    Noted (Import.rebind word found script) (Import.rebind word found' script) :=
  (Noted.rebindPieces hfound _ _).bind fun _ => noted_pure _

theorem succeeds_rebindPieces (hfound : ∀ path, Succeeds (fun _ => True) (found path))
    (family : List Char) (pieces : List Piece) :
    Succeeds (fun _ => True) (rebindPieces family found pieces) := by
  induction pieces with
  | nil => exact succeeds_pure _
  | cons piece pieces ih =>
    cases piece with
    | plain c => exact ih.bind fun _ => succeeds_pure _
    | statement s =>
      refine (hfound _).bind fun answer => ih.bind fun _ => ?_
      exact Succeeds.ite (succeeds_pure _) (succeeds_pure _)

theorem succeeds_rebind (hfound : ∀ path, Succeeds (fun _ => True) (found path))
    (word script : String) : Succeeds (fun _ => True) (rebind word found script) :=
  (succeeds_rebindPieces hfound _ _).bind fun _ => succeeds_pure _

end Task

end CrossBuild
