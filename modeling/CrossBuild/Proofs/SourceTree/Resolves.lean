import CrossBuild.Proofs.Import
import CrossBuild.SourceTree.Resolve

/-!
# What resolving does to a tree

Resolving keeps the shape of a tree: directories and assets stay, and scripts stay or are dropped by
their names and those beside them. The relation says so for each thing in the tree, whatever program
answers the questions about imports that leave the tree.
-/

namespace CrossBuild

namespace SourceTree

variable {family : OsFamily} {root : SourceTree} {told told' : String → Bool → Prop}
  {dirs siblings : List String} {t : SourceTree} {r : Resolution}

/-- What the question for an import of `path` by a script in a directory is answered: from the tree,
or as is told of the outside. -/
def Answers (root : SourceTree) (told : String → Bool → Prop) (dirs : List String) (path : String)
    (answer : Bool) : Prop :=
  let short := Lexical.shorten (Lexical.joinAll (dirs ++ [path]))
  (Lexical.leaves short = false ∧
      ∃ entry, root.get? (Lexical.names short) = some entry ∧ entry.isFile = answer) ∨
    ((Lexical.leaves short = true ∨ root.get? (Lexical.names short) = none) ∧
      told (String.ofList short) answer)

/-- How a part of a directory is resolved, given the names of the whole directory and what is told
of the outside. -/
inductive Resolves (family : OsFamily) (root : SourceTree) (told : String → Bool → Prop) :
    List String → List String → SourceTree → Resolution → Prop
  | nil {dirs siblings : List String} : Resolves family root told dirs siblings .nil ⟨.nil, [], []⟩
  | directory {dirs siblings : List String} {name : String} {children rest : SourceTree}
      {inner r : Resolution}
      (inside : Resolves family root told (dirs ++ [name]) children.names children inner)
      (after : Resolves family root told dirs siblings rest r) :
      Resolves family root told dirs siblings (.directory name children rest)
        ⟨.directory name inner.tree r.tree, inner.dropped ++ r.dropped,
          inner.rebindings ++ r.rebindings⟩
  | asset {dirs siblings : List String} {name : String} {source : Option Path} {rest : SourceTree}
      {r : Resolution} (after : Resolves family root told dirs siblings rest r) :
      Resolves family root told dirs siblings (.asset name source rest)
        ⟨.asset name source r.tree, r.dropped, r.rebindings⟩
  | kept {dirs siblings : List String} {name : String} {text : Option String} {text' : String}
      {swaps : List Import.Swap} {rest : SourceTree} {r : Resolution}
      (keeps : keeps family siblings name = true)
      (rebinds : Import.Rebinds family.word.toList (Answers root told dirs)
        (Import.pieces (text.getD "").toList) text'.toList swaps)
      (after : Resolves family root told dirs siblings rest r) :
      Resolves family root told dirs siblings (.script name text rest)
        ⟨.script name (some text') r.tree, r.dropped,
          swaps.map (⟨String.ofList (Lexical.joinAll (dirs ++ [name])), ·⟩) ++ r.rebindings⟩
  | dropped {dirs siblings : List String} {name : String} {text : Option String} {rest : SourceTree}
      {r : Resolution} (keeps : keeps family siblings name = false)
      (after : Resolves family root told dirs siblings rest r) :
      Resolves family root told dirs siblings (.script name text rest)
        ⟨r.tree, String.ofList (Lexical.joinAll (dirs ++ [name])) :: r.dropped, r.rebindings⟩

theorem Answers.mono {path : String} {answer : Bool} (h : Answers root told dirs path answer)
    (htold : ∀ path answer, told path answer → told' path answer) :
    Answers root told' dirs path answer :=
  h.imp_right fun ⟨hleaves, hsaid⟩ => ⟨hleaves, htold _ _ hsaid⟩

theorem Resolves.mono (h : Resolves family root told dirs siblings t r)
    (htold : ∀ path answer, told path answer → told' path answer) :
    Resolves family root told' dirs siblings t r := by
  induction h with
  | nil => exact .nil
  | directory _ _ ihc ih => exact .directory ihc ih
  | asset _ ih => exact .asset ih
  | kept keeps rebinds _ ih =>
    exact .kept keeps (rebinds.mono fun _ _ h => h.mono htold) ih
  | dropped keeps _ ih => exact .dropped keeps ih

end SourceTree

/-! ## Resolving in any monad -/

namespace Outcome

open SourceTree

variable {m : Type → Type} [Monad m] {σ : Type} {o : Outcome m σ} {Told : σ → String → Bool → Prop}
  {family : OsFamily} {root : SourceTree} {outside : Option (String → m Bool)} {s s' : σ}

/-- The questions to the outside tell what is said of it; if none can be asked, no is said. -/
def TellsOf (o : Outcome m σ) (Told : σ → String → Bool → Prop)
    (outside : Option (String → m Bool)) : Prop :=
  match outside with
  | some question => o.Tells Told Told question
  | none => ∀ s path, Told s path false

theorem Extends.answers {dirs : List String} (h : Extends Told s s') :
    Extends (fun s => Answers root (Told s) dirs) s s' :=
  fun _ _ hanswers => hanswers.mono h

theorem TellsOf.importFound (ho : o.TellsOf Told outside) (dirs : List String) :
    o.Tells Told (fun s => Answers root (Told s) dirs) (importFound root outside dirs) := by
  intro path s answer s' h
  have hask : ∀ {short : List Char}, o.Gives (match outside with
      | some present => present (String.ofList short)
      | none => pure false) s answer s' →
      Told s' (String.ofList short) answer ∧ Extends Told s s' := by
    intro short hasked
    cases outside with
    | some question => exact ho _ _ _ _ hasked
    | none =>
      obtain ⟨rfl, rfl⟩ := o.of_pure hasked
      exact ⟨ho _ _, .refl _⟩
  unfold SourceTree.importFound at h
  dsimp only at h
  split at h
  · next hleaves =>
    obtain ⟨hsaid, hextends⟩ := hask h
    exact ⟨.inr ⟨.inl hleaves, hsaid⟩, hextends⟩
  · next hleaves =>
    split at h
    · next entry hentry =>
      obtain ⟨rfl, rfl⟩ := o.of_pure h
      exact ⟨.inl ⟨by simpa using hleaves, entry, hentry, rfl⟩, .refl _⟩
    · next hnone =>
      obtain ⟨hsaid, hextends⟩ := hask h
      exact ⟨.inr ⟨.inr hnone, hsaid⟩, hextends⟩

/-- **Resolving**, in whatever monad, resolves the things in the tree one by one. -/
theorem TellsOf.resolveIn (ho : o.TellsOf Told outside) {t : SourceTree} :
    ∀ {dirs siblings : List String} {r : Resolution} {s s' : σ},
      o.Gives (resolveIn family root outside dirs siblings t) s r s' →
      Resolves family root (Told s') dirs siblings t r ∧ Extends Told s s' := by
  induction t with
  | nil =>
    intro dirs siblings r s s' h
    obtain ⟨rfl, rfl⟩ := o.of_pure h
    exact ⟨.nil, .refl _⟩
  | script name text rest ih =>
    intro dirs siblings r s s' h
    rw [SourceTree.resolveIn] at h
    dsimp only at h
    split at h
    · next hkeeps =>
      obtain ⟨⟨text', swaps⟩, s₁, hrebind, h⟩ := o.of_bind h
      obtain ⟨r', s₂, hrest, h⟩ := o.of_bind h
      obtain ⟨rfl, rfl⟩ := o.of_pure h
      obtain ⟨hrebinds, hfirst⟩ := (ho.importFound dirs).rebind Extends.answers hrebind
      obtain ⟨hresolves, hextends⟩ := ih hrest
      exact ⟨.kept hkeeps (hrebinds.mono hextends.answers) hresolves, hfirst.trans hextends⟩
    · next hkeeps =>
      obtain ⟨r', s₁, hrest, h⟩ := o.of_bind h
      obtain ⟨rfl, rfl⟩ := o.of_pure h
      obtain ⟨hresolves, hextends⟩ := ih hrest
      exact ⟨.dropped (by simpa using hkeeps) hresolves, hextends⟩
  | asset name source rest ih =>
    intro dirs siblings r s s' h
    obtain ⟨r', s₁, hrest, h⟩ := o.of_bind h
    obtain ⟨rfl, rfl⟩ := o.of_pure h
    obtain ⟨hresolves, hextends⟩ := ih hrest
    exact ⟨.asset hresolves, hextends⟩
  | directory name children rest ihc ih =>
    intro dirs siblings r s s' h
    obtain ⟨inner, s₁, hinner, h⟩ := o.of_bind h
    obtain ⟨r', s₂, hrest, h⟩ := o.of_bind h
    obtain ⟨rfl, rfl⟩ := o.of_pure h
    obtain ⟨hinside, hfirst⟩ := ihc hinner
    obtain ⟨hafter, hextends⟩ := ih hrest
    exact ⟨.directory (hinside.mono hextends) hafter, hfirst.trans hextends⟩

/-- What is known of a tree that was resolved, if nothing is known of the answers. -/
theorem resolves {t : SourceTree} {r : Resolution} (h : o.Gives (t.resolve family outside) s r s') :
    ∃ told, Resolves family t told [] t.names t r := by
  have htells : o.TellsOf (fun _ _ _ => True) outside := by
    cases outside with
    | none => exact fun _ _ => trivial
    | some question => exact fun _ _ _ _ _ => ⟨trivial, fun _ _ _ => trivial⟩
  exact ⟨_, (htells.resolveIn h).1⟩

end Outcome

/-! ## Noting and answering -/

namespace Task

open SourceTree

variable {σ : Type} {family : OsFamily} {root : SourceTree}

theorem Noted.resolveIn (outside : Option (String → Task σ Bool)) (t : SourceTree) :
    ∀ dirs siblings, Noted (resolveIn family root outside dirs siblings t)
      (resolveIn family root (outside.map noting) dirs siblings t) := by
  have hfound : ∀ dirs path, Noted (importFound root outside dirs path)
      (importFound root (outside.map noting) dirs path) := by
    intro dirs path
    unfold importFound
    dsimp only
    cases outside with
    | none =>
      split
      · exact noted_pure false
      · split <;> exact noted_pure _
    | some question =>
      split
      · exact noted_noting question _
      · split
        · exact noted_pure _
        · exact noted_noting question _
  induction t with
  | nil => exact fun _ _ => noted_pure _
  | script name text rest ih =>
    intro dirs siblings
    rw [SourceTree.resolveIn, SourceTree.resolveIn]
    dsimp only
    split
    · exact (Noted.rebind (hfound dirs) _ _).bind fun _ => (ih _ _).bind fun _ => noted_pure _
    · exact (ih _ _).bind fun _ => noted_pure _
  | asset name source rest ih => exact fun _ _ => (ih _ _).bind fun _ => noted_pure _
  | directory name children rest ihc ih =>
    exact fun _ _ => (ihc _ _).bind fun _ => (ih _ _).bind fun _ => noted_pure _

/-- **Resolving ends** if the outside answers. -/
theorem succeeds_resolveIn {outside : Option (String → Task σ Bool)}
    (houtside : ∀ question ∈ outside, ∀ path, Succeeds (fun _ => True) (question path))
    (t : SourceTree) : ∀ dirs siblings,
      Succeeds (fun _ => True) (resolveIn family root outside dirs siblings t) := by
  have hfound : ∀ dirs path, Succeeds (fun _ => True) (importFound root outside dirs path) := by
    intro dirs path
    unfold importFound
    dsimp only
    cases outside with
    | none =>
      split
      · exact succeeds_pure false
      · split <;> exact succeeds_pure _
    | some question =>
      split
      · exact houtside question rfl _
      · split
        · exact succeeds_pure _
        · exact houtside question rfl _
  induction t with
  | nil => exact fun _ _ => succeeds_pure _
  | script name text rest ih =>
    intro dirs siblings
    rw [SourceTree.resolveIn]
    dsimp only
    split
    · exact (succeeds_rebind (hfound dirs) _ _).bind fun _ => (ih _ _).bind fun _ => succeeds_pure _
    · exact (ih _ _).bind fun _ => succeeds_pure _
  | asset name source rest ih => exact fun _ _ => (ih _ _).bind fun _ => succeeds_pure _
  | directory name children rest ihc ih =>
    exact fun _ _ => (ihc _ _).bind fun _ => (ih _ _).bind fun _ => succeeds_pure _

end Task

end CrossBuild
