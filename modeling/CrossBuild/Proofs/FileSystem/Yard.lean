import CrossBuild.Proofs.FileSystem.Changes
import CrossBuild.Proofs.FileSystem.Sound

/-!
# Yards

A yard is where a run puts what it makes: everything at or below some names in a real directory.
While no link lies in the yard, a path of names into it leads straight to where it says, so
operations on such paths change nothing outside.
-/

namespace CrossBuild.FileSystem

open CrossBuild.Task

/-- A directory, and the names in it at which the yard begins. -/
structure Yard where
  root : Location
  names : List String
  proper : ∀ n ∈ names, IsName n

namespace Yard

variable {y : Yard} {fs₀ fs fs' : FileSystem} {l : Location} {p q : Path} {n : String}
  {xs : List String} {follow : Bool}

/-- Whether a location lies in the yard. -/
def Within (y : Yard) (l : Location) : Prop :=
  ∃ n ∈ y.names, y.root ++ [n] <+: l

/-- The yard can be worked in, and outside nothing changed. A file where the yard begins stays. -/
structure Kept (y : Yard) (fs₀ fs : FileSystem) : Prop where
  sound : fs.Sound
  real : fs.IsReal y.root
  noLink : ∀ l, y.Within l → ∀ target, fs.node? l ≠ some (.link target)
  workingDirectory : fs.workingDirectory = fs₀.workingDirectory
  outside : ∀ l, ¬ y.Within l → fs.node? l = fs₀.node? l
  files : ∀ n ∈ y.names, ∀ b x, fs₀.node? (y.root ++ [n]) = some (.file b x) →
    fs.node? (y.root ++ [n]) = some (.file b x)

/-- The yard can be worked in. -/
def Ready (y : Yard) (fs : FileSystem) : Prop :=
  y.Kept fs fs

theorem within_cons (hn : n ∈ y.names) (xs : List String) : y.Within (y.root ++ n :: xs) :=
  ⟨n, hn, xs, by simp⟩

theorem not_within_of_above {m : Location} (hm : m <+: y.root) : ¬ y.Within m := by
  rintro ⟨n, -, hn⟩
  have h1 := hn.length_le
  have h2 := hm.length_le
  rw [List.length_append, List.length_singleton] at h1
  omega

theorem ready_of (hsound : fs.Sound) (hreal : fs.IsReal y.root)
    (hlink : ∀ l, y.Within l → ∀ target, fs.node? l ≠ some (.link target)) : y.Ready fs :=
  ⟨hsound, hreal, hlink, rfl, fun _ _ => rfl, fun _ _ _ _ h => h⟩

theorem Kept.ready (h : y.Kept fs₀ fs) : y.Ready fs :=
  ready_of h.sound h.real h.noLink

theorem Kept.guide?_outside (h : y.Kept fs₀ fs) (hl : ¬ y.Within l) :
    fs.guide? l = fs₀.guide? l :=
  guide?_of_node?_eq (h.outside l hl)

/-! ## Changes in the yard -/

/-- A change of the yard alone, that keeps it sound and free of links. -/
theorem Kept.change (h : y.Kept fs₀ fs) (hsound : fs'.Sound)
    (hcwd : fs'.workingDirectory = fs.workingDirectory)
    (hlink : ∀ l, y.Within l → ∀ target, fs'.node? l ≠ some (.link target))
    (houtside : ∀ l, ¬ y.Within l → fs'.node? l = fs.node? l)
    (hfiles : ∀ n ∈ y.names, ∀ b x, fs.node? (y.root ++ [n]) = some (.file b x) →
      fs'.node? (y.root ++ [n]) = some (.file b x)) : y.Kept fs₀ fs' where
  sound := hsound
  real := h.real.congr fun m hm => guide?_of_node?_eq (houtside m (not_within_of_above hm))
  noLink := hlink
  workingDirectory := hcwd.trans h.workingDirectory
  outside l hl := (houtside l hl).trans (h.outside l hl)
  files n hn b x hb := hfiles n hn b x (h.files n hn b x hb)

theorem Kept.put (h : y.Kept fs₀ fs) {node : Node} (hn : n ∈ y.names) (hnode : ∀ t, node ≠ .link t)
    (hentry : fs.IsEntry (y.root ++ n :: xs))
    (hkind : node = .directory ∨ fs.isDirectoryAt (y.root ++ n :: xs) = false)
    (hfile : fs.node? (y.root ++ n :: xs) = none ∨ xs ≠ []) :
    y.Kept fs₀ (fs.put (y.root ++ n :: xs) node) := by
  have hput := node?_put fs (show y.root ++ n :: xs ≠ [] by simp) node
  refine h.change ?_ rfl ?_ ?_ ?_
  · exact h.sound.put hentry hkind fun target ht => absurd ht (hnode target)
  · intro l hl target ht
    rw [hput] at ht
    split at ht
    · exact hnode target (Option.some.inj ht)
    · exact h.noLink l hl target ht
  · intro l hl
    rw [hput, if_neg]
    rintro rfl
    exact hl (within_cons hn xs)
  · intro k hk b x hb
    rw [hput, if_neg]
    · exact hb
    · intro heq
      obtain ⟨-, hcons⟩ := List.append_inj heq rfl
      obtain ⟨rfl, rfl⟩ := List.cons.inj hcons
      rcases hfile with hnone | hne
      · rw [hnone] at hb
        cases hb
      · exact hne rfl

theorem Kept.remove (h : y.Kept fs₀ fs) (hn : n ∈ y.names) (hxs : xs ≠ [])
    (hdir : fs.isDirectoryAt (y.root ++ n :: xs) = false) :
    y.Kept fs₀ (fs.remove (y.root ++ n :: xs)) := by
  refine h.change (h.sound.remove hdir) rfl ?_ ?_ ?_
  · exact fun l hl target ht => h.noLink l hl target (node?_of_remove ht)
  · intro l hl
    refine node?_remove_of_ne ?_
    rintro rfl
    exact hl (within_cons hn xs)
  · intro k hk b x hb
    rw [node?_remove_of_ne]
    · exact hb
    · intro heq
      obtain ⟨-, hcons⟩ := List.append_inj heq rfl
      exact hxs (List.cons.inj hcons).2.symm

theorem Kept.removeBelow (h : y.Kept fs₀ fs) (hn : n ∈ y.names)
    (hdir : fs.isDirectoryAt (y.root ++ n :: xs) = true) :
    y.Kept fs₀ (fs.removeBelow (y.root ++ n :: xs)) := by
  refine h.change h.sound.removeBelow rfl ?_ ?_ ?_
  · exact fun l hl target ht => h.noLink l hl target (node?_of_removeBelow ht)
  · intro l hl
    refine node?_removeBelow_outside fun hbelow => hl ?_
    obtain ⟨m, hn', hm⟩ := within_cons hn xs
    exact ⟨m, hn', hm.trans hbelow⟩
  · intro k hk b x hb
    rw [node?_removeBelow_outside]
    · exact hb
    · -- only the beginning of the yard itself is above a beginning, and a directory is no file
      intro hbelow
      rw [List.prefix_append_right_inj] at hbelow
      obtain ⟨rest, hrest⟩ := hbelow
      obtain ⟨rfl, htail⟩ := List.cons.inj hrest
      obtain ⟨rfl, -⟩ := List.append_eq_nil_iff.1 htail
      rw [isDirectoryAt_iff, hb] at hdir
      cases hdir

/-! ## Paths into the yard -/

/-- A path of names into the yard. -/
structure Leads (y : Yard) (p : Path) (n : String) (xs : List String) : Prop where
  absolute : p.isAbsolute = true
  parts : p.parts = y.root ++ n :: xs
  base : n ∈ y.names
  names : ∀ x ∈ xs, IsName x

theorem Leads.below (h : y.Leads p n xs) {x : String} (hx : IsName x) :
    y.Leads ⟨p.anchor, p.parts ++ [x]⟩ n (xs ++ [x]) where
  absolute := h.absolute
  parts := by
    rw [h.parts]
    simp
  base := h.base
  names z hz := by
    rcases List.mem_append.1 hz with hz | hz
    · exact h.names z hz
    · rw [List.mem_singleton.1 hz]
      exact hx

theorem Leads.isName (h : y.Leads p n xs) (hk : y.Kept fs₀ fs) : ∀ part ∈ p.parts, IsName part := by
  intro part hpart
  rw [h.parts] at hpart
  rcases List.mem_append.1 hpart with hpart | hpart
  · exact hk.real.names part hpart
  · rcases List.mem_cons.1 hpart with rfl | hpart
    · exact y.proper _ h.base
    · exact h.names part hpart

theorem Leads.proper (h : y.Leads p n xs) (hk : y.Kept fs₀ fs) : p.Proper := fun part hpart =>
  ⟨(h.isName hk part hpart).1.1, (h.isName hk part hpart).1.2.1⟩

theorem Leads.hasNul (h : y.Leads p n xs) (hk : y.Kept fs₀ fs) : hasNul p = false :=
  Path.hasNul_of_names (h.isName hk)

theorem Leads.noLinkOn (h : y.Leads p n xs) (hk : y.Kept fs₀ fs) : fs.NoLinkOn y.root (n :: xs) := by
  intro ys hne hys target
  refine hk.noLink _ ?_ target
  obtain ⟨m, ms, rfl⟩ := List.exists_cons_of_ne_nil hne
  obtain ⟨rest, hrest⟩ := hys
  obtain ⟨rfl, -⟩ := List.cons.inj hrest
  exact within_cons h.base ms

/-- A path into the yard leads to where it says. -/
theorem Leads.place (h : y.Leads p n xs) (hk : y.Kept fs₀ fs)
    (hl : fs.place follow p = .ok l) : l = y.root ++ n :: xs := by
  refine place_below hk.real h.absolute h.parts (fun x hx => ?_) (h.noLinkOn hk) hl
  exact h.isName hk x (by simp [h.parts, hx])

theorem Leads.fits (h : y.Leads p n xs) (hk : y.Kept fs₀ fs) (hl : fs.place follow p = .ok l) :
    Fits p := by
  refine fits_of_place hk.real h.absolute h.parts (fun part hpart => ?_) (h.noLinkOn hk) hl
  exact h.isName hk part (by simp [h.parts, hpart])

/-- What is in the yard is found by a path that the system takes. -/
theorem Leads.place_of_node (h : y.Leads p n xs) (hk : y.Kept fs₀ fs) (hfits : Fits p) {node : Node}
    (hnode : fs.node? (y.root ++ n :: xs) = some node) (follow : Bool) :
    fs.place follow p = .ok (y.root ++ n :: xs) := by
  obtain ⟨init, last, hlast⟩ := (List.eq_nil_or_concat (y.root ++ n :: xs)).resolve_left (by simp)
  rw [List.concat_eq_append] at hlast
  have hparts := h.parts.trans hlast
  rw [hlast] at hnode ⊢
  have hdir := hk.sound.parents init last node hnode
  have hreal : fs.IsReal init := by
    refine ⟨hk.sound.isDirectoryAt_above hdir, fun part hpart => ?_, fun part hpart => ?_⟩
    · exact h.isName hk part (by simp [hparts, hpart])
    · exact hfits.2 part (by simp [hparts, hpart])
  refine place_in hreal h.absolute hparts (h.isName hk last (by simp [hparts]))
    (hfits.2 last (by simp [hparts])) (h.hasNul hk) hfits.1 fun target ht => ?_
  rw [← hlast] at ht
  exact absurd ht (hk.noLink _ (within_cons h.base xs) target)

theorem Leads.isEntry (h : y.Leads p n xs) (hk : y.Kept fs₀ fs) (hl : fs.place follow p = .ok l)
    (hdir : fs.isDirectoryAt l = false) : fs.IsEntry l := by
  refine hk.sound.isEntry_of_place_file (h.proper hk) ?_ hl hdir
  rw [h.parts]
  simp

theorem not_isDirectoryAt_of_isSpot (h : fs.IsSpot l) : fs.isDirectoryAt l = false := by
  by_contra hd
  rw [Bool.not_eq_false, isDirectoryAt_iff] at hd
  rcases h.cases with hnone | ⟨b, x, hfile⟩
  · rw [hnone] at hd
    cases hd
  · rw [hfile] at hd
    cases hd

/-- Where a path below the beginning of the yard leads to a file or to nothing, a file can be put. -/
theorem Leads.put_file (h : y.Leads p n xs) (hxs : xs ≠ []) (hk : y.Kept fs₀ fs)
    (hl : fs.place true p = .ok l) (hspot : fs.IsSpot l) (b : Bytes) (x : Bool) :
    y.Kept fs₀ (fs.put l (.file b x)) := by
  have hdir := not_isDirectoryAt_of_isSpot hspot
  have hentry := h.isEntry hk hl hdir
  obtain rfl := h.place hk hl
  exact hk.put h.base (fun t => by simp) hentry (.inr hdir) (.inr hxs)

/-- Where a path into the yard leads to nothing, a directory can be put. -/
theorem Leads.put_directory (h : y.Leads p n xs) (hk : y.Kept fs₀ fs)
    (hl : fs.place false p = .ok l) (hnone : fs.node? l = none) :
    y.Kept fs₀ (fs.put l .directory) := by
  have hdir := not_isDirectoryAt_of_isSpot (isSpot_of_none hnone)
  have hentry := h.isEntry hk hl hdir
  obtain rfl := h.place hk hl
  exact hk.put h.base (fun t => by simp) hentry (.inl rfl) (.inl hnone)

/-! ## Operations in the yard -/

/-- The task changes nothing outside the yard. -/
def Minds (y : Yard) {α : Type} (t : Task FileSystem α) : Prop :=
  ∀ fs₀, Task.Keeps (y.Kept fs₀) t

theorem minds_write (h : y.Leads p n xs) (hxs : xs ≠ []) (b : Bytes) : y.Minds (write p b) :=
  fun _ => keeps_write_of fun _ _ x hk hl hspot => h.put_file hxs hk hl hspot b x

theorem minds_copyFile (source : Path) (h : y.Leads p n xs) (hxs : xs ≠ []) :
    y.Minds (copyFile source p) :=
  fun fs₀ => keeps_copyFile_of fun b => minds_write h hxs b fs₀

/-- Creating a directory of the yard with its parents keeps what creating each of them in the yard
does. The directory that the yard is in is there already. -/
theorem Leads.keeps_makeDirectories (h : y.Leads p n xs) {I : FileSystem → Prop}
    (hready : ∀ fs, I fs → y.Ready fs)
    (hmake : ∀ q ys, ys <+: xs → y.Leads q n ys → Keeps I (makeDirectory q)) :
    Keeps I (makeDirectories p) := by
  refine keeps_makeDirectories_of fun q hanchor hq => ?_
  have habs : q.isAbsolute = true := by
    have := h.absolute
    unfold Path.isAbsolute at this ⊢
    rwa [hanchor]
  rw [h.parts] at hq
  rcases Nat.lt_or_ge y.root.length q.parts.length with hlt | hle
  · obtain ⟨zs, hzs⟩ := List.prefix_of_prefix_length_le (List.prefix_append _ _) hq (Nat.le_of_lt hlt)
    rw [← hzs, List.prefix_append_right_inj] at hq
    rcases List.prefix_cons_iff.1 hq with rfl | ⟨ys, rfl, hys⟩
    · rw [← hzs, List.append_nil] at hlt
      exact absurd hlt (Nat.lt_irrefl _)
    · exact hmake q ys hys ⟨habs, hzs.symm, h.base, fun x hx => h.names x (hys.subset hx)⟩
  · have habove : q.parts <+: y.root := List.prefix_of_prefix_length_le hq (List.prefix_append _ _) hle
    refine keeps_makeDirectory_of fun fs l hfs hl hnone => ?_
    have hreal := (hready fs hfs).real.above habove
    have hl' : l = q.parts ++ [] :=
      place_below hreal habs (List.append_nil _).symm (by simp)
        (fun ys hne hys => absurd (List.prefix_nil.1 hys) hne) hl
    rw [hl', List.append_nil, isDirectoryAt_iff.1 (hreal.directories _ (List.prefix_refl _))] at hnone
    cases hnone

theorem minds_makeDirectories (h : y.Leads p n xs) : y.Minds (makeDirectories p) := fun _ =>
  h.keeps_makeDirectories (fun _ hk => hk.ready) fun _ _ _ hq =>
    keeps_makeDirectory_of fun _ _ hk hl hnone => hq.put_directory hk hl hnone

theorem minds_unlink (h : y.Leads p n xs) (hxs : xs ≠ []) : y.Minds (unlink p) := by
  refine fun _ => keeps_unlink_of fun fs l hk hl hdir => ?_
  obtain rfl := h.place hk hl
  exact hk.remove h.base hxs hdir

theorem minds_unlinkIfPresent (h : y.Leads p n xs) (hxs : xs ≠ []) :
    y.Minds (unlinkIfPresent p) :=
  fun fs₀ => keeps_unlinkIfPresent_of (minds_unlink h hxs fs₀)

theorem removalFault?_of_name (init : List String) {x : String} (hx : IsName x)
    (hparts : p.parts = init ++ [x]) : removalFault? p = none := by
  unfold removalFault?
  rw [hparts, List.getLast?_concat]
  split
  · next h => cases h
  · next h => exact absurd (Option.some.inj h) hx.2.2
  · rfl

theorem Leads.removalFault? (h : y.Leads p n xs) : removalFault? p = none := by
  have hnames : ∀ x ∈ n :: xs, IsName x :=
    List.forall_mem_cons.2 ⟨y.proper _ h.base, h.names⟩
  refine removalFault?_of_name (y.root ++ (n :: xs).dropLast)
    (hnames _ (List.getLast_mem (List.cons_ne_nil n xs))) ?_
  rw [h.parts, List.append_assoc, List.dropLast_concat_getLast (List.cons_ne_nil n xs)]

theorem minds_removeTree (h : y.Leads p n xs) : y.Minds (removeTree p) := by
  refine fun _ => keeps_removeTree_of h.removalFault? fun fs l hk hl hdir => ?_
  obtain rfl := h.place hk hl
  exact hk.removeBelow h.base hdir

end Yard

end CrossBuild.FileSystem
