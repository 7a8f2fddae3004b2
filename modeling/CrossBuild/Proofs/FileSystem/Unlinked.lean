import CrossBuild.FileSystem.Resolve
import CrossBuild.Proofs.FileSystem.Names

/-!
# File systems without links

Where no link stands, the text of a path alone says where a walk along it ends, if it does not
fail; and whether the last link is to be followed makes no difference.
-/

namespace CrossBuild

/-- Whether a node is a link. -/
def Node.isLink : Node → Bool
  | .link _ => true
  | .file .. | .directory => false

namespace FileSystem

/-- No link stands anywhere. -/
def Unlinked (fs : FileSystem) : Prop :=
  ∀ l target, fs.node? l ≠ some (.link target)

theorem unlinked_of_nodes {fs : FileSystem} (h : ∀ e ∈ fs.nodes, ∀ target, e.2 ≠ .link target) :
    fs.Unlinked := by
  intro l target hnode
  unfold node? at hnode
  split at hnode
  · cases hnode
  · exact h _ (mem_of_valueOf? hnode) target rfl

/-- The location that one more part leads to. -/
def tread (here : Location) (part : String) : Location :=
  if part = "." then here else if part = ".." then here.dropLast else here ++ [part]

theorem foldl_tread_of_names {parts : List String} (h : ∀ part ∈ parts, part ≠ "." ∧ part ≠ "..")
    (here : Location) : parts.foldl tread here = here ++ parts := by
  induction parts generalizing here with
  | nil => simp
  | cons part rest ih =>
    obtain ⟨hdot, hdots⟩ := h part List.mem_cons_self
    rw [List.foldl_cons, tread, if_neg hdot, if_neg hdots,
      ih (fun p hp => h p (List.mem_cons_of_mem _ hp)), List.append_assoc, List.singleton_append]

namespace Unlinked

variable {fs : FileSystem} {follow : Bool}

theorem follow_eq (h : fs.Unlinked) (nesting : Nat) (pending : List Location) (parts : List String) :
    ∀ here, fs.follow nesting pending here parts = (true, parts.foldl tread here) := by
  induction parts with
  | nil =>
    intro here
    rw [FileSystem.follow, List.foldl_nil]
  | cons part rest ih =>
    intro here
    rw [FileSystem.follow, List.foldl_cons, tread]
    split
    · exact ih here
    split
    · exact ih here.dropLast
    dsimp only
    split
    · next target hnode => exact absurd hnode (h _ target)
    · exact ih _

/-- An advance ends where the path says, or it fails. -/
theorem advance_cases (h : fs.Unlinked) (follow : Bool) (parts : List String) :
    ∀ here, fs.advance follow here parts = .arrived (parts.foldl tread here) ∨
      ∃ e, fs.advance follow here parts = .fault e ∧ e ≠ .linkLoop := by
  induction parts with
  | nil => exact fun here => .inl rfl
  | cons part rest ih =>
    intro here
    rw [advance, List.foldl_cons, tread]
    split
    · exact .inr ⟨_, rfl, by simp⟩
    split
    · exact ih here
    split
    · exact ih here.dropLast
    split
    · exact .inr ⟨_, rfl, by simp⟩
    rcases hnode : fs.node? (here ++ [part]) with _ | ⟨b, x⟩ | _ | target
    · cases rest with
      | nil => exact .inl rfl
      | cons next rest => exact .inr ⟨_, rfl, by simp⟩
    · exact ih _
    · exact ih _
    · exact absurd hnode (h _ target)

/-- A walk ends where the path says, or it fails. -/
theorem walk_cases (h : fs.Unlinked) (follow : Bool) (links : Nat) (here : Location)
    (parts : List String) :
    fs.walk follow links here parts = .ok (parts.foldl tread here) ∨
      ∃ e, fs.walk follow links here parts = .error e ∧ e ≠ .linkLoop := by
  rcases h.advance_cases follow parts here with ha | ⟨e, ha, he⟩
  · left
    cases links <;> rw [walk, ha]
  · right
    cases links <;> exact ⟨e, by rw [walk, ha], he⟩

/-- Where a path leads if it leads anywhere. -/
theorem place_eq (h : fs.Unlinked) {p : Path} {l : Location} (hp : fs.place follow p = .ok l) :
    l = p.parts.foldl tread (fs.origin p) := by
  obtain ⟨-, -, hwalk⟩ := place_eq_ok_iff.1 hp
  rcases h.walk_cases follow maxLinks (fs.origin p) p.parts with hw | ⟨e, hw, -⟩
  · exact Except.ok.inj (hwalk.symm.trans hw)
  · rw [hw] at hwalk
    cases hwalk

theorem resolve_eq (h : fs.Unlinked) {p : Path} (hnul : hasNul p = false) :
    fs.resolve p = .ok (pathOf (tidy (p.parts.foldl tread (fs.origin p)))) := by
  unfold resolve
  rw [if_neg (by simp [hnul]), h.follow_eq]
  dsimp only
  unfold locate
  split_ifs
  · rfl
  · rcases h.walk_cases true maxLinks (fs.origin (pathOf (tidy (p.parts.foldl tread (fs.origin p)))))
      (pathOf (tidy (p.parts.foldl tread (fs.origin p)))).parts with hw | ⟨e, hw, he⟩
    · rw [hw]
    · rw [hw]
      cases e <;> first | rfl | exact absurd rfl he

/-- An absolute path without dots is its own resolution. -/
theorem resolve_of_names (h : fs.Unlinked) {p : Path} (hanchor : p.anchor = .root)
    (hnul : hasNul p = false) (hnames : ∀ part ∈ p.parts, part ≠ "." ∧ part ≠ "..") :
    fs.resolve p = .ok p := by
  obtain ⟨anchor, parts⟩ := p
  dsimp only at hanchor hnames
  subst hanchor
  have horigin : fs.origin ⟨.root, parts⟩ = [] := rfl
  rw [h.resolve_eq hnul, horigin, foldl_tread_of_names hnames, List.nil_append]
  change Except.ok (pathOf (parts.foldl tread [])) = _
  rw [foldl_tread_of_names hnames, List.nil_append]
  rfl

theorem resolve_self (h : fs.Unlinked) {p : Path} (hanchor : p.anchor = .root)
    (hnames : ∀ part ∈ p.parts, IsName part) : fs.resolve p = .ok p := by
  refine h.resolve_of_names hanchor ?_ fun part hpart => (hnames part hpart).2
  by_contra hnul
  obtain ⟨part, hpart, hmem⟩ := (Path.hasNul_iff p).1 (by simpa using hnul)
  exact (hnames part hpart).1.2.2 hmem

/-! ## Changes that make no link -/

theorem change {fs' : FileSystem} (h : fs.Unlinked)
    (hnodes : ∀ l node, fs'.node? l = some node → fs.node? l = some node ∨ ∀ t, node ≠ .link t) :
    fs'.Unlinked := by
  intro l target hnode
  rcases hnodes l _ hnode with hold | hnew
  · exact h l target hold
  · exact hnew target rfl

theorem put (h : fs.Unlinked) {l : Location} {node : Node} (hl : l ≠ [])
    (hnode : ∀ target, node ≠ .link target) : (fs.put l node).Unlinked := by
  refine h.change fun m found hfound => ?_
  rw [node?_put fs hl] at hfound
  split at hfound
  · exact .inr (Option.some.inj hfound ▸ hnode)
  · exact .inl hfound

theorem remove (h : fs.Unlinked) (l : Location) : (fs.remove l).Unlinked :=
  h.change fun _ _ hfound => .inl (node?_of_remove hfound)

theorem removeBelow (h : fs.Unlinked) (l : Location) : (fs.removeBelow l).Unlinked :=
  h.change fun _ _ hfound => .inl (node?_of_removeBelow hfound)

end Unlinked

end FileSystem

end CrossBuild
