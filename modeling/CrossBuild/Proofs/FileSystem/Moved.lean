import CrossBuild.Proofs.FileSystem.Gains
import CrossBuild.Proofs.FileSystem.Listing

/-!
# Clearing a place and moving something there

What stands at a location is taken away with all that is below it (`Cleared`). What is moved to a location
where nothing is stands there as it stood where it was, and everything else stays (`node?_moveBelow`).
-/

namespace CrossBuild

open FileSystem

section
variable {α β : Type} [DecidableEq α] {key key' : α} {pairs : List (α × β)}

theorem valueOf?_eq_none_of_keys (h : ∀ e ∈ pairs, e.1 ≠ key) : valueOf? key pairs = none := by
  induction pairs with
  | nil => rfl
  | cons e pairs ih =>
    obtain ⟨hfirst, hrest⟩ := List.forall_mem_cons.1 h
    rw [valueOf?, if_neg hfirst, ih hrest]

/-- With other keys a value is found under the key that its own became. -/
theorem valueOf?_map_key {f : α → α} (h : ∀ e ∈ pairs, f e.1 = key ↔ e.1 = key') :
    valueOf? key (pairs.map fun e => (f e.1, e.2)) = valueOf? key' pairs := by
  induction pairs with
  | nil => rfl
  | cons e pairs ih =>
    obtain ⟨hfirst, hrest⟩ := List.forall_mem_cons.1 h
    rw [List.map_cons, valueOf?, valueOf?, ih hrest]
    by_cases he : e.1 = key'
    · rw [if_pos he, if_pos (hfirst.2 he)]
    · rw [if_neg he, if_neg (mt hfirst.1 he)]

end

namespace FileSystem

variable {fs fs' : FileSystem} {d l m source target : Location} {n : String}

/-! ## Clearing -/

/-- What stood at a location, and all below it, is gone; nothing else changed. -/
structure Cleared (x : Location) (fs fs' : FileSystem) : Prop where
  sound : fs'.Sound
  workingDirectory : fs'.workingDirectory = fs.workingDirectory
  below : ∀ l, x <+: l → fs'.node? l = none
  others : ∀ l, ¬ x <+: l → fs'.node? l = fs.node? l

theorem Cleared.gains (h : Cleared m fs fs') : Gains fs' fs where
  workingDirectory := h.workingDirectory.symm
  kept l node hnode := by
    by_cases hl : m <+: l
    · rw [h.below l hl] at hnode
      cases hnode
    · rw [← hnode, h.others l hl]

theorem cleared_of_none (hs : fs.Sound) (hnone : fs.node? m = none) : Cleared m fs fs where
  sound := hs
  workingDirectory := rfl
  below _ hl := hs.node?_below hnone hl
  others _ _ := rfl

theorem cleared_removeBelow (hs : fs.Sound) (hm : m ≠ []) : Cleared m fs (fs.removeBelow m) where
  sound := hs.removeBelow
  workingDirectory := rfl
  below _ hl := node?_removeBelow_below hl hm
  others _ hl := node?_removeBelow_outside hl

/-- Nothing is below a file or a link. -/
theorem Sound.node?_below_of_not_directory (hs : fs.Sound) (hm : fs.isDirectoryAt m = false)
    (hl : m <+: l) (hne : l ≠ m) : fs.node? l = none := by
  by_contra hsome
  obtain ⟨node, hnode⟩ := Option.ne_none_iff_exists'.1 hsome
  obtain ⟨init, k, rfl⟩ := (List.eq_nil_or_concat' l).resolve_left fun hnil => by
    subst hnil
    exact hne (List.prefix_nil.1 hl).symm
  have hinit := (List.prefix_concat_iff.1 hl).resolve_left fun h => hne h.symm
  have := hs.isDirectoryAt_above (hs.parents init k node hnode) m hinit
  rw [hm] at this
  cases this

theorem cleared_remove (hs : fs.Sound) (hm : fs.isDirectoryAt m = false) :
    Cleared m fs (fs.remove m) where
  sound := hs.remove hm
  workingDirectory := rfl
  below l hl := by
    have hne : m ≠ [] := by
      rintro rfl
      cases hm
    rw [node?_remove fs m (hl.ne_nil hne)]
    split
    · rfl
    · next h => exact hs.node?_below_of_not_directory hm hl h
  others l hl := node?_remove_of_ne fun h => hl (h ▸ List.prefix_refl m)

/-! ## Moving -/

/-- Where a location is after what stands at `source` was moved to `target`. -/
def moved (source target l : Location) : Location :=
  if source <+: l then target ++ l.drop source.length else l

theorem moveBelow_eq : fs.moveBelow source target =
    { fs with nodes := fs.nodes.map fun e => (moved source target e.1, e.2) } := by
  unfold moveBelow moved
  congr 2
  funext e
  simp only [List.isPrefixOf_iff_prefix]
  split <;> rfl

theorem moved_append (rest : Location) : moved source target (source ++ rest) = target ++ rest := by
  rw [moved, if_pos (List.prefix_append source rest), List.drop_left]

theorem moved_eq_append_iff {rest : Location} (h : ¬ target <+: l) :
    moved source target l = target ++ rest ↔ l = source ++ rest := by
  constructor
  · intro heq
    by_cases hle : source <+: l
    · obtain ⟨tail, rfl⟩ := hle
      rw [moved_append, List.append_cancel_left_eq] at heq
      rw [heq]
    · rw [moved, if_neg hle] at heq
      exact absurd ⟨rest, heq.symm⟩ h
  · rintro rfl
    exact moved_append rest

theorem moved_ne (hl : source <+: l) (hout : ¬ target <+: l) (other : Location) :
    moved source target other ≠ l := by
  rintro rfl
  rw [moved] at hl hout
  split at hl
  · next hle => exact hout (by rw [if_pos hle]; exact List.prefix_append _ _)
  · next hle => exact hle hl

theorem moved_eq_iff_of_outside (hl : ¬ source <+: l) (hout : ¬ target <+: l) (other : Location) :
    moved source target other = l ↔ other = l := by
  constructor
  · intro h
    rw [moved] at h
    split at h
    · exact absurd ⟨_, h⟩ hout
    · exact h
  · rintro rfl
    rw [moved, if_neg hl]

/-- Nothing that is listed is at a location where nothing stands, or below it. -/
theorem not_prefix_of_mem_nodes (htarget : target ≠ []) (hfree : ∀ l, target <+: l → fs.node? l = none)
    {e : Location × Node} (he : e ∈ fs.nodes) : ¬ target <+: e.1 := by
  intro hle
  obtain ⟨node, hnode⟩ := exists_valueOf?_of_mem he
  have hnone := hfree e.1 hle
  rw [node?, if_neg (hle.ne_nil htarget), hnode] at hnone
  cases hnone

/-- **What is moved** to where nothing is stands there, and no longer where it was. -/
theorem node?_moveBelow (hsource : source ≠ []) (htarget : target ≠ [])
    (hfree : ∀ l, target <+: l → fs.node? l = none) :
    (∀ rest, (fs.moveBelow source target).node? (target ++ rest) = fs.node? (source ++ rest)) ∧
      (∀ l, source <+: l → ¬ target <+: l → (fs.moveBelow source target).node? l = none) ∧
      ∀ l, ¬ source <+: l → ¬ target <+: l → (fs.moveBelow source target).node? l = fs.node? l := by
  rw [moveBelow_eq]
  refine ⟨fun rest => ?_, fun l hl hout => ?_, fun l hl hout => ?_⟩
  · rw [node?, if_neg (by simp [htarget]), node?, if_neg (by simp [hsource])]
    exact valueOf?_map_key fun e he => moved_eq_append_iff (not_prefix_of_mem_nodes htarget hfree he)
  · rw [node?, if_neg (hl.ne_nil hsource)]
    refine valueOf?_eq_none_of_keys fun e he => ?_
    obtain ⟨e, -, rfl⟩ := List.mem_map.1 he
    exact moved_ne hl hout e.1
  · by_cases hnil : l = []
    · rw [hnil]
      rfl
    rw [node?, if_neg hnil, node?, if_neg hnil]
    exact valueOf?_map_key fun e _ => moved_eq_iff_of_outside hl hout e.1

/-- What stands anywhere after a move was moved there, or stood there before. -/
theorem node?_of_moveBelow {node : Node} (hsource : source ≠ []) (htarget : target ≠ [])
    (hfree : ∀ l, target <+: l → fs.node? l = none)
    (hnode : (fs.moveBelow source target).node? l = some node) :
    (∃ rest, l = target ++ rest ∧ fs.node? (source ++ rest) = some node) ∨
      (¬ source <+: l ∧ ¬ target <+: l ∧ fs.node? l = some node) := by
  obtain ⟨hat, hgone, hothers⟩ := node?_moveBelow hsource htarget hfree
  by_cases hin : target <+: l
  · obtain ⟨rest, rfl⟩ := hin
    exact .inl ⟨rest, rfl, hat rest ▸ hnode⟩
  by_cases hle : source <+: l
  · rw [hgone l hle hin] at hnode
    cases hnode
  · exact .inr ⟨hle, hin, hothers l hle hin ▸ hnode⟩

/-- To move something into a directory, where nothing has its name, keeps a file system sound. -/
theorem Sound.moveBelow (hs : fs.Sound) (hd : fs.isDirectoryAt d = true) (hn : IsName n)
    (hsource : source ≠ []) (hfree : ∀ l, d ++ [n] <+: l → fs.node? l = none) (hout : ¬ source <+: d) :
    (fs.moveBelow source (d ++ [n])).Sound := by
  obtain ⟨hat, -, hothers⟩ := node?_moveBelow hsource (by simp) hfree
  have hdnames : ∀ x ∈ d, IsName x := hs.names d _ (isDirectoryAt_iff.1 hd)
  have hshorter : ¬ d ++ [n] <+: d := fun h => Nat.not_succ_le_self d.length (by simpa using h.length_le)
  refine ⟨fun l node hnode x hx => ?_, fun l k node hnode => ?_, fun l link hnode => ?_⟩
  · rcases node?_of_moveBelow hsource (by simp) hfree hnode with ⟨rest, rfl, hmoved⟩ | ⟨-, -, hsame⟩
    · rcases List.mem_append.1 hx with hx | hx
      · rcases List.mem_append.1 hx with hx | hx
        · exact hdnames x hx
        · exact List.mem_singleton.1 hx ▸ hn
      · exact hs.names _ node hmoved x (List.mem_append_right _ hx)
    · exact hs.names l node hsame x hx
  · rw [isDirectoryAt_iff]
    rcases node?_of_moveBelow hsource (by simp) hfree hnode with ⟨rest, heq, hmoved⟩ | ⟨hle, htarget, hsame⟩
    · rcases List.eq_nil_or_concat' rest with rfl | ⟨rest, y, rfl⟩
      · rw [List.append_nil] at heq
        rw [(List.append_inj' heq rfl).1, hothers d hout hshorter]
        exact isDirectoryAt_iff.1 hd
      · rw [← List.append_assoc] at heq hmoved
        rw [(List.append_inj' heq rfl).1, hat]
        exact isDirectoryAt_iff.1 (hs.parents _ y node hmoved)
    · have habove : l <+: l ++ [k] := List.prefix_append l [k]
      rw [hothers l (fun h => hle (h.trans habove)) fun h => htarget (h.trans habove)]
      exact isDirectoryAt_iff.1 (hs.parents l k node hsame)
  · rcases node?_of_moveBelow hsource (by simp) hfree hnode with ⟨rest, -, hmoved⟩ | ⟨-, -, hsame⟩
    · exact hs.links _ link hmoved
    · exact hs.links l link hsame

end FileSystem
end CrossBuild
