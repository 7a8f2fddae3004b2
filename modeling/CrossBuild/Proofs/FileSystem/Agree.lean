import CrossBuild.Proofs.FileSystem.Changes
import CrossBuild.Proofs.FileSystem.Listing
import CrossBuild.Proofs.FileSystem.Unlinked

/-!
# File systems that agree in a region

Where no link stands, a look at a path depends on what stands along it, and an operation changes
what stands at its end. So operations on paths in a region, on file systems that agree there, give
the same and leave file systems that agree there; and operations elsewhere leave the region as it
is.
-/

namespace CrossBuild.FileSystem

open CrossBuild.Task

variable {fs fs' : FileSystem} {follow : Bool} {p q : Path} {V : Location → Prop} {l : Location}

/-- Two file systems without links, the same in a region. -/
structure Agree (V : Location → Prop) (fs fs' : FileSystem) : Prop where
  unlinked : fs.Unlinked
  unlinked' : fs'.Unlinked
  workingDirectory : fs'.workingDirectory = fs.workingDirectory
  same : ∀ l, V l → fs'.node? l = fs.node? l

/-- All that a walk along the path looks at lies in the region. -/
def Along (V : Location → Prop) (fs : FileSystem) (p : Path) : Prop :=
  ∀ pre, pre <+: p.parts → V (pre.foldl tread (fs.origin p))

/-- The path does not lead into the region. -/
def Misses (V : Location → Prop) (fs : FileSystem) (p : Path) : Prop :=
  ¬ V (p.parts.foldl tread (fs.origin p))

theorem origin_of_isAbsolute (habs : p.isAbsolute = true) : fs.origin p = [] := by
  unfold origin
  rw [if_pos habs]

/-- A path from the root without dots leads, if anywhere, where its parts say. -/
theorem tread_of_isAbsolute (habs : p.isAbsolute = true)
    (hplain : ∀ part ∈ p.parts, part ≠ "." ∧ part ≠ "..") :
    p.parts.foldl tread (fs.origin p) = p.parts := by
  rw [origin_of_isAbsolute habs, foldl_tread_of_names hplain, List.nil_append]

/-- The way of a path from the root without dots is what stands above its end. -/
theorem along_of_plain (hV : ∀ {l m}, V l → m <+: l → V m) (habs : p.isAbsolute = true)
    (hplain : ∀ part ∈ p.parts, part ≠ "." ∧ part ≠ "..") (hl : V p.parts) : Along V fs p := by
  intro pre hpre
  rw [origin_of_isAbsolute habs, foldl_tread_of_names fun part hpart => hplain part (hpre.subset hpart),
    List.nil_append]
  exact hV hl hpre

/-! ## Looking -/

theorem advance_congr_of_same (follow : Bool) {parts : List String} :
    ∀ here, (∀ pre, pre <+: parts →
        fs'.node? (pre.foldl tread here) = fs.node? (pre.foldl tread here)) →
      fs'.advance follow here parts = fs.advance follow here parts := by
  induction parts with
  | nil => exact fun here _ => rfl
  | cons part rest ih =>
    intro here h
    have hhere : fs'.isDirectoryAt here = fs.isDirectoryAt here := by
      unfold isDirectoryAt
      rw [show fs'.node? here = fs.node? here from h [] List.nil_prefix]
    have hrest : ∀ pre, pre <+: rest →
        fs'.node? (pre.foldl tread (tread here part)) = fs.node? (pre.foldl tread (tread here part)) :=
      fun pre hpre => h (part :: pre) (List.cons_prefix_cons.2 ⟨rfl, hpre⟩)
    rw [advance, advance, hhere]
    split
    · rfl
    by_cases hdot : part = "."
    · rw [if_pos hdot, if_pos hdot]
      rw [tread, if_pos hdot] at hrest
      exact ih here hrest
    by_cases hdots : part = ".."
    · rw [if_neg hdot, if_neg hdot, if_pos hdots, if_pos hdots]
      rw [tread, if_neg hdot, if_pos hdots] at hrest
      exact ih here.dropLast hrest
    rw [if_neg hdot, if_neg hdot, if_neg hdots, if_neg hdots]
    rw [tread, if_neg hdot, if_neg hdots] at hrest
    have hnext : fs'.node? (here ++ [part]) = fs.node? (here ++ [part]) :=
      hrest [] List.nil_prefix
    rw [hnext]
    split
    · rfl
    split
    · rfl
    · rfl
    · exact ih _ hrest

namespace Agree

theorem trans {fs'' : FileSystem} (h : Agree V fs fs') (h' : Agree V fs' fs'') : Agree V fs fs'' :=
  ⟨h.unlinked, h'.unlinked', h'.workingDirectory.trans h.workingDirectory,
    fun l hl => (h'.same l hl).trans (h.same l hl)⟩

theorem refl (h : fs.Unlinked) : Agree V fs fs := ⟨h, h, rfl, fun _ _ => rfl⟩

theorem origin (h : Agree V fs fs') (p : Path) : fs'.origin p = fs.origin p := by
  unfold FileSystem.origin
  rw [h.workingDirectory]

theorem place (h : Agree V fs fs') (hp : Along V fs p) (follow : Bool) :
    fs'.place follow p = fs.place follow p := by
  have hadvance : fs'.advance follow (fs.origin p) p.parts = fs.advance follow (fs.origin p) p.parts :=
    advance_congr_of_same follow _ fun pre hpre => h.same _ (hp pre hpre)
  have hwalk : fs'.walk follow maxLinks (fs.origin p) p.parts =
      fs.walk follow maxLinks (fs.origin p) p.parts := by
    rw [walk, walk, hadvance]
    rcases h.unlinked.advance_cases follow p.parts (fs.origin p) with ha | ⟨e, ha, -⟩ <;> rw [ha]
  unfold FileSystem.place locate
  rw [h.origin, hwalk]

/-- A path in the region leads into it. -/
theorem at_place (h : Agree V fs fs') (hp : Along V fs p) (hl : fs.place follow p = .ok l) : V l := by
  rw [h.unlinked.place_eq hl]
  exact hp p.parts (List.prefix_refl _)

theorem lookup (h : Agree V fs fs') (hp : Along V fs p) (follow : Bool) :
    fs'.lookup follow p = fs.lookup follow p := by
  unfold FileSystem.lookup
  rw [h.place hp]
  rcases hl : fs.place follow p with f | l
  · rfl
  · dsimp only
    rw [h.same l (h.at_place hp hl)]

theorem test (h : Agree V fs fs') (hp : Along V fs p) (follow : Bool) (property : Node → Bool) :
    fs'.test follow property p = fs.test follow property p := by
  unfold FileSystem.test
  rw [h.lookup hp]

theorem content (h : Agree V fs fs') (hp : Along V fs p) : fs'.content p = fs.content p := by
  unfold FileSystem.content
  rw [h.lookup hp]

theorem text (h : Agree V fs fs') (hp : Along V fs p) : fs'.text p = fs.text p := by
  unfold FileSystem.text
  rw [h.content hp]

theorem isSame (h : Agree V fs fs') (hp : Along V fs p) (hq : Along V fs q) :
    fs'.isSame p q = fs.isSame p q := by
  unfold FileSystem.isSame
  rw [h.lookup hp, h.lookup hq]

/-- Directories list the same if all that lies directly in them is in the region. -/
theorem names (h : Agree V fs fs') (hp : Along V fs p)
    (hin : ∀ n, V (p.parts.foldl tread (fs.origin p) ++ [n])) : fs'.names p = fs.names p := by
  unfold FileSystem.names
  rw [h.lookup hp]
  rcases hlookup : fs.lookup true p with f | ⟨l, node⟩
  · rfl
  cases node with
  | file b x => rfl
  | link target => rfl
  | directory =>
    dsimp only
    rw [h.unlinked.place_eq (lookup_eq_ok_iff.1 hlookup).1, childNames_congr fun n => h.same _ (hin n)]

/-- Without links a resolution depends on the working directory alone. -/
theorem resolve (h : Agree V fs fs') (p : Path) : fs'.resolve p = fs.resolve p := by
  by_cases hnul : hasNul p = true
  · unfold FileSystem.resolve
    rw [if_pos hnul, if_pos hnul]
  · have hnul' : hasNul p = false := by simpa using hnul
    rw [h.unlinked.resolve_eq hnul', h.unlinked'.resolve_eq hnul', h.origin]

/-! ## Changing both -/

theorem put (h : Agree V fs fs') {node : Node} (hnode : ∀ target, node ≠ .link target)
    (hl : l ≠ []) : Agree V (fs.put l node) (fs'.put l node) where
  unlinked := h.unlinked.put hl hnode
  unlinked' := h.unlinked'.put hl hnode
  workingDirectory := h.workingDirectory
  same m hm := by
    rw [node?_put fs hl, node?_put fs' hl, h.same m hm]

theorem removeBelow (h : Agree V fs fs') (l : Location) :
    Agree V (fs.removeBelow l) (fs'.removeBelow l) where
  unlinked := h.unlinked.removeBelow l
  unlinked' := h.unlinked'.removeBelow l
  workingDirectory := h.workingDirectory
  same m hm := by
    by_cases hnil : m = []
    · rw [hnil]
      rfl
    · rw [node?_removeBelow fs l hnil, node?_removeBelow fs' l hnil, h.same m hm]

end Agree

/-! ## Operations in the region -/

/-- A path from the root without dots into the region. -/
structure Inside (V : Location → Prop) (p : Path) : Prop where
  absolute : p.isAbsolute = true
  plain : ∀ part ∈ p.parts, part ≠ "." ∧ part ≠ ".."
  inside : V p.parts

section
variable (hV : ∀ {l m}, V l → m <+: l → V m)
include hV

theorem Inside.along (hp : Inside V p) : Along V fs p :=
  along_of_plain hV hp.absolute hp.plain hp.inside

omit hV in
theorem respects_change {f : FileSystem → Except Failure FileSystem}
    (h : ∀ fs fs', Agree V fs fs' → (∃ e, f fs = .error e ∧ f fs' = .error e) ∨
      ∃ g g', f fs = .ok g ∧ f fs' = .ok g' ∧ Agree V g g') : Respects (Agree V) (change f) := by
  intro fs fs' hfs
  rw [runOn_change, runOn_change]
  rcases h fs fs' hfs with ⟨e, he, he'⟩ | ⟨g, g', hg, hg', hagree⟩
  · rw [he, he']
    exact ⟨rfl, hfs⟩
  · rw [hg, hg']
    exact ⟨rfl, hagree⟩

theorem respects_write (hp : Inside V p) (b : Bytes) : Respects (Agree V) (write p b) := by
  refine respects_change fun fs fs' h => ?_
  have halong : Along V fs p := hp.along hV
  rw [h.place halong]
  rcases hl : fs.place true p with f | l
  · exact .inl ⟨f, rfl, rfl⟩
  dsimp only
  rw [h.same l (h.at_place halong hl)]
  have hput : ∀ x, fs.node? l ≠ some .directory →
      Agree V (fs.put l (.file b x)) (fs'.put l (.file b x)) := fun x hne =>
    h.put (fun _ ht => by cases ht) (ne_nil_of_node? fs hne)
  rcases hnode : fs.node? l with _ | ⟨c, x⟩ | _ | _
  · exact .inr ⟨_, _, rfl, rfl, hput false (by simp [hnode])⟩
  · exact .inr ⟨_, _, rfl, rfl, hput x (by simp [hnode])⟩
  · exact .inl ⟨_, rfl, rfl⟩
  · exact .inl ⟨_, rfl, rfl⟩

theorem respects_makeDirectory (hp : Inside V p) : Respects (Agree V) (makeDirectory p) := by
  refine respects_change fun fs fs' h => ?_
  have halong : Along V fs p := hp.along hV
  rw [h.place halong]
  rcases hl : fs.place false p with f | l
  · exact .inl ⟨f, rfl, rfl⟩
  dsimp only
  rw [h.same l (h.at_place halong hl)]
  rcases hnode : fs.node? l with _ | node
  · refine .inr ⟨_, _, rfl, rfl, h.put (fun _ ht => by cases ht) (ne_nil_of_node? fs ?_)⟩
    simp [hnode]
  · exact .inl ⟨_, rfl, rfl⟩

theorem respects_makeDirectories (hp : Inside V p) : Respects (Agree V) (makeDirectories p) := by
  have habove : ∀ q : Path, q.anchor = p.anchor → q.parts <+: p.parts → Inside V q := by
    intro q hq hle
    refine ⟨?_, fun part hpart => hp.plain part (hle.subset hpart), hV hp.inside hle⟩
    have habs := hp.absolute
    unfold Path.isAbsolute at habs ⊢
    rwa [hq]
  refine respects_makeDirectories_of ?_ fun q hq hle => respects_makeDirectory hV (habove q hq hle)
  exact fun q hq hle fs fs' h => h.test ((habove q hq hle).along hV) true _

theorem respects_removeTree (hp : Inside V p) (hremovable : removalFault? p = none) :
    Respects (Agree V) (removeTree p) := by
  intro fs fs' h
  have halong : Along V fs p := hp.along hV
  show (removeTree p fs').1 = (removeTree p fs).1 ∧ Agree V (removeTree p fs).2 (removeTree p fs').2
  unfold removeTree
  rw [h.lookup halong]
  rcases hlookup : fs.lookup false p with f | ⟨l, node⟩
  · exact ⟨rfl, h⟩
  rcases node with ⟨b, x⟩ | _ | target
  · exact ⟨rfl, h⟩
  · dsimp only
    rw [hremovable]
    exact ⟨rfl, h.removeBelow l⟩
  · exact absurd (lookup_eq_ok_iff.1 hlookup).2 (h.unlinked l target)

theorem respects_copyFile (hp : Inside V p) (hq : Inside V q) :
    Respects (Agree V) (copyFile p q) := by
  have hcopy : Respects (Agree V) (do
      let content ← Task.ask fun fs => fs.content p
      write q content) :=
    (respects_ask fun fs fs' h => h.content (hp.along hV)).bind fun b => respects_write hV hq b
  unfold copyFile
  refine (respects_ask fun fs fs' h => h.isSame (hp.along hV) (hq.along hV)).bind fun same => ?_
  exact Respects.when (respects_throw _) hcopy

end

/-! ## Operations elsewhere -/

namespace Agree

theorem misses (h : Agree V fs fs') (hp : Misses V fs p) : Misses V fs' p := by
  unfold Misses
  rwa [h.origin]

/-- A change outside the region that makes no link. -/
theorem elsewhere {fs'' : FileSystem} (h : Agree V fs fs') (hunlinked : fs''.Unlinked)
    (hcwd : fs''.workingDirectory = fs'.workingDirectory)
    (hsame : ∀ l, V l → fs''.node? l = fs'.node? l) : Agree V fs fs'' :=
  h.trans ⟨h.unlinked', hunlinked, hcwd, hsame⟩

theorem put_elsewhere (h : Agree V fs fs') {node : Node} (hnode : ∀ target, node ≠ .link target)
    (hl : l ≠ []) (hout : ¬ V l) : Agree V fs (fs'.put l node) := by
  refine h.elsewhere (h.unlinked'.put hl hnode) rfl fun m hm => ?_
  rw [node?_put fs' hl, if_neg]
  rintro rfl
  exact hout hm

theorem remove_elsewhere (h : Agree V fs fs') (hout : ¬ V l) : Agree V fs (fs'.remove l) := by
  refine h.elsewhere (h.unlinked'.remove l) rfl fun m hm => node?_remove_of_ne ?_
  rintro rfl
  exact hout hm

end Agree

variable {fs₀ : FileSystem}

/-- Where a path that misses the region leads. -/
theorem Misses.at_place (hp : Misses V fs p) (hu : fs.Unlinked) (hl : fs.place follow p = .ok l) :
    ¬ V l := by
  rw [hu.place_eq hl]
  exact hp

theorem keeps_write (hp : Misses V fs₀ p) (b : Bytes) : Keeps (Agree V fs₀) (write p b) :=
  keeps_write_of fun fs l x h hl hspot =>
    h.put_elsewhere (fun _ ht => by cases ht) hspot.ne_nil ((h.misses hp).at_place h.unlinked' hl)

theorem keeps_makeDirectory (hp : Misses V fs₀ p) : Keeps (Agree V fs₀) (makeDirectory p) :=
  keeps_makeDirectory_of fun fs l h hl hnone =>
    h.put_elsewhere (fun _ ht => by cases ht) (isSpot_of_none hnone).ne_nil
      ((h.misses hp).at_place h.unlinked' hl)

theorem keeps_unlink (hp : Misses V fs₀ p) : Keeps (Agree V fs₀) (unlink p) :=
  keeps_unlink_of fun _ _ h hl _ => h.remove_elsewhere ((h.misses hp).at_place h.unlinked' hl)

theorem keeps_unlinkIfPresent (hp : Misses V fs₀ p) :
    Keeps (Agree V fs₀) (unlinkIfPresent p) :=
  keeps_unlinkIfPresent_of (keeps_unlink hp)

theorem keeps_copyFile (source : Path) (hp : Misses V fs₀ p) :
    Keeps (Agree V fs₀) (copyFile source p) :=
  keeps_copyFile_of (keeps_write hp)

theorem keeps_makeDirectories (hp : Along (fun l => ¬ V l) fs₀ p) :
    Keeps (Agree V fs₀) (makeDirectories p) := by
  refine keeps_makeDirectories_of fun q hq hle => keeps_makeDirectory ?_
  have horigin : fs₀.origin q = fs₀.origin p := by
    unfold origin Path.isAbsolute
    rw [hq]
  unfold Misses
  rw [horigin]
  exact hp q.parts hle

end CrossBuild.FileSystem
