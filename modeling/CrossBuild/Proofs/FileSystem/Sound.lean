import CrossBuild.Proofs.FileSystem.Straight
import Mathlib.Data.List.Induction

/-!
# Sound file systems

What every file system has: everything in it lies in a directory under a name. Creating something
at the end of a path keeps that, and so does removing something, because a path that leads where
nothing stands ends in a directory, and its last step is a name.
-/

namespace CrossBuild.FileSystem

variable {fs : FileSystem} {follow : Bool} {l : Location} {node : Node}

/-- Everything has a name and lies in a directory, and links can be followed. -/
structure Sound (fs : FileSystem) : Prop where
  names : ∀ l node, fs.node? l = some node → ∀ n ∈ l, IsName n
  parents : ∀ l n node, fs.node? (l ++ [n]) = some node → fs.isDirectoryAt l = true
  links : ∀ l target, fs.node? l = some (.link target) → '\x00' ∉ target.toList

/-- A location whose last part is a name, in a directory. -/
def IsEntry (fs : FileSystem) (l : Location) : Prop :=
  ∃ m n, l = m ++ [n] ∧ IsName n ∧ fs.isDirectoryAt m = true

theorem node?_nil (fs : FileSystem) : fs.node? [] = some .directory := rfl

theorem ne_nil_of_node? (fs : FileSystem) (h : fs.node? l ≠ some .directory) : l ≠ [] := by
  rintro rfl
  exact h (node?_nil fs)

theorem mem_nodes (h : fs.node? l = some node) (hne : l ≠ []) : (l, node) ∈ fs.nodes := by
  unfold node? at h
  rw [if_neg hne] at h
  exact mem_of_valueOf? h

/-- Whether what stands there, if it is a link, can be followed. -/
def isFollowable : Node → Bool
  | .link target => !target.toList.contains '\x00'
  | _ => true

/-- Whether a file system is sound can be read off the nodes that it lists. -/
theorem sound_of_nodes
    (h : ∀ e ∈ fs.nodes, (∀ n ∈ e.1, IsName n) ∧ fs.isDirectoryAt e.1.dropLast = true ∧
      isFollowable e.2 = true) : fs.Sound where
  names l node hnode n hn :=
    (h _ (mem_nodes hnode (List.ne_nil_of_mem hn))).1 n hn
  parents l n node hnode := by
    have hdir := (h _ (mem_nodes hnode (by simp))).2.1
    rwa [List.dropLast_concat] at hdir
  links l target hnode := by
    have hlink := (h _ (mem_nodes hnode (ne_nil_of_node? fs (by rw [hnode]; simp)))).2.2
    simpa [isFollowable] using hlink

theorem Sound.isEntry (hs : fs.Sound) (h : fs.node? l = some node) (hne : l ≠ []) :
    fs.IsEntry l := by
  obtain ⟨m, n, rfl⟩ : ∃ m n, l = m ++ [n] := 
    ⟨l.dropLast, l.getLast hne, (List.dropLast_concat_getLast hne).symm⟩
  exact ⟨m, n, rfl, hs.names _ _ h n (by simp), hs.parents m n node h⟩

theorem Sound.isDirectoryAt_above (hs : fs.Sound) (h : fs.isDirectoryAt l = true) :
    ∀ m, m <+: l → fs.isDirectoryAt m = true := by
  induction l using List.reverseRecOn with
  | nil =>
    intro m hm
    rw [List.prefix_nil.1 hm]
    rfl
  | append_singleton l n ih =>
    intro m hm
    rcases List.prefix_concat_iff.1 hm with rfl | hm
    · exact h
    · exact ih (hs.parents l n _ (isDirectoryAt_iff.1 h)) m hm

/-- Nothing is below a location where nothing is. -/
theorem Sound.node?_below (hs : fs.Sound) (hnone : fs.node? l = none) {m : Location}
    (hm : l <+: m) : fs.node? m = none := by
  obtain ⟨rest, rfl⟩ := hm
  induction rest using List.reverseRecOn with
  | nil => rwa [List.append_nil]
  | append_singleton rest k ih =>
    rcases hnode : fs.node? (l ++ (rest ++ [k])) with _ | node
    · rfl
    · rw [← List.append_assoc] at hnode
      have := hs.parents _ _ _ hnode
      rw [isDirectoryAt_iff, ih] at this
      cases this

/-! ## Changes -/

/-- The directories of a file system where one location changed. -/
theorem Sound.put (hs : fs.Sound) (hl : fs.IsEntry l)
    (hkind : node = .directory ∨ fs.isDirectoryAt l = false)
    (hlink : ∀ target, node = .link target → '\x00' ∉ target.toList) : (fs.put l node).Sound := by
  obtain ⟨m, n, rfl, hn, hm⟩ := hl
  have hput := @node?_put fs (m ++ [n]) (by simp) node
  have hdirectories : ∀ k, fs.isDirectoryAt k = true → (fs.put (m ++ [n]) node).isDirectoryAt k = true := by
    intro k hk
    rw [isDirectoryAt_iff, hput]
    split
    · next heq =>
      subst heq
      rcases hkind with rfl | hkind
      · rfl
      · rw [hk] at hkind
        cases hkind
    · exact isDirectoryAt_iff.1 hk
  have hmnames : ∀ x ∈ m, IsName x := hs.names m _ (isDirectoryAt_iff.1 hm)
  refine ⟨?_, ?_, ?_⟩
  · intro k node' hk x hx
    rw [hput] at hk
    split at hk
    · next heq =>
      subst heq
      rcases List.mem_append.1 hx with hx | hx
      · exact hmnames x hx
      · rw [List.mem_singleton.1 hx]
        exact hn
    · exact hs.names k node' hk x hx
  · intro k x node' hk
    rw [hput] at hk
    split at hk
    · next heq =>
      obtain ⟨rfl, -⟩ := List.append_inj' heq rfl
      exact hdirectories m hm
    · exact hdirectories k (hs.parents k x node' hk)
  · intro k target hk
    rw [hput] at hk
    split at hk
    · exact hlink target (Option.some.inj hk)
    · exact hs.links k target hk

/-- Taking away some locations, each with all that lies below it, keeps a file system sound. -/
theorem Sound.of_restrict {fs' : FileSystem} (hs : fs.Sound) (gone : Location → Prop)
    (hgone : ∀ k n, gone k → fs.isDirectoryAt k = true → gone (k ++ [n]))
    (h : ∀ k, k ≠ [] → (gone k → fs'.node? k = none) ∧ (¬ gone k → fs'.node? k = fs.node? k)) :
    fs'.Sound := by
  have hback : ∀ k node, fs'.node? k = some node → fs.node? k = some node := by
    intro k node hk
    by_cases hnil : k = []
    · subst hnil
      exact hk
    · by_cases hg : gone k
      · rw [(h k hnil).1 hg] at hk
        cases hk
      · rwa [(h k hnil).2 hg] at hk
  refine ⟨?_, ?_, ?_⟩
  · intro k node hk
    exact hs.names k node (hback k node hk)
  · intro k n node hk
    have hd := hs.parents k n node (hback _ _ hk)
    by_cases hnil : k = []
    · subst hnil
      rfl
    · have hg : ¬ gone k := by
        intro hg
        rw [(h (k ++ [n]) (by simp)).1 (hgone k n hg hd)] at hk
        cases hk
      rw [isDirectoryAt_iff, (h k hnil).2 hg]
      exact isDirectoryAt_iff.1 hd
  · intro k target hk
    exact hs.links k target (hback k _ hk)

theorem Sound.remove (hs : fs.Sound) (h : fs.isDirectoryAt l = false) : (fs.remove l).Sound := by
  refine hs.of_restrict (fun k => k = l) ?_ ?_
  · rintro k n rfl hd
    rw [hd] at h
    cases h
  · intro k hk
    have := node?_remove fs l hk
    exact ⟨fun he => by rw [this, if_pos he], fun he => by rw [this, if_neg he]⟩

theorem Sound.removeBelow (hs : fs.Sound) : (fs.removeBelow l).Sound := by
  refine hs.of_restrict (fun k => l <+: k) ?_ ?_
  · intro k n hk _
    exact hk.trans (List.prefix_append k [n])
  · intro k hk
    have := node?_removeBelow fs l hk
    exact ⟨fun he => by rw [this, if_pos he], fun he => by rw [this, if_neg he]⟩

/-! ## Where paths lead -/

theorem isPiece_of_mem_linkParts {target part : String} (hnul : '\x00' ∉ target.toList)
    (h : part ∈ linkParts target) : IsPiece part := by
  have hparts : part ∈ (Text.splitString '/' target).filter (· != "") ∨ part = "." := by
    unfold linkParts at h
    dsimp only at h
    split at h
    · rcases List.mem_append.1 h with h | h
      · exact .inl h
      · exact .inr (List.mem_singleton.1 h)
    · exact .inl h
  rcases hparts with h | rfl
  · obtain ⟨hmem, hne⟩ := List.mem_filter.1 h
    obtain ⟨s, hs, rfl⟩ := List.mem_map.1 hmem
    refine ⟨by simpa using hne, ?_, ?_⟩
    · rw [String.toList_ofList]
      exact Text.not_mem_of_mem_splitAt hs
    · rw [String.toList_ofList]
      exact fun hc => hnul (Text.mem_of_mem_splitAt hs hc)
  · decide

/-- What an advance can come to: a place where something stands or can be put, or a link that
stands in the file system and pieces still to take. -/
def Leads (fs : FileSystem) : Progress → Prop
  | .arrived l => fs.node? l = none → fs.IsEntry l
  | .link here target rest =>
    fs.isDirectoryAt here = true ∧ (∃ m, fs.node? m = some (.link target)) ∧
      ∀ part ∈ rest, IsPiece part
  | .fault _ => True

theorem leads_arrived (h : fs.node? l = some node) : fs.Leads (.arrived l) := by
  intro hnone
  rw [h] at hnone
  cases hnone

theorem Sound.leads_advance (hs : fs.Sound) (follow : Bool) {parts : List String} :
    ∀ here, (∀ part ∈ parts, IsPiece part) → (parts ≠ [] ∨ fs.isDirectoryAt here = true) →
      fs.Leads (fs.advance follow here parts) := by
  induction parts with
  | nil =>
    intro here _ hhere
    exact leads_arrived (isDirectoryAt_iff.1 (hhere.resolve_left (by simp)))
  | cons part rest ih =>
    intro here hparts _
    have hrest : ∀ part ∈ rest, IsPiece part := fun p hp => hparts p (by simp [hp])
    rw [advance]
    by_cases hd : fs.isDirectoryAt here = true
    swap
    · rw [if_pos (by simp [hd])]
      trivial
    rw [if_neg (by simp [hd])]
    by_cases hdot : part = "."
    · rw [if_pos hdot]
      exact ih here hrest (.inr hd)
    rw [if_neg hdot]
    by_cases hdots : part = ".."
    · rw [if_pos hdots]
      have habove := hs.isDirectoryAt_above hd here.dropLast (List.dropLast_prefix here)
      exact ih here.dropLast hrest (.inr habove)
    rw [if_neg hdots]
    by_cases hlong : part.utf8ByteSize > maxNameBytes
    · rw [if_pos hlong]
      trivial
    rw [if_neg hlong]
    have hentry : fs.IsEntry (here ++ [part]) :=
      ⟨here, part, rfl, ⟨hparts part (by simp), hdot, hdots⟩, hd⟩
    rcases hnode : fs.node? (here ++ [part]) with _ | ⟨b, x⟩ | _ | target
    · cases rest with
      | nil => exact fun _ => hentry
      | cons next rest => trivial
    · cases rest with
      | nil => exact leads_arrived hnode
      | cons next rest => exact ih (here ++ [part]) hrest (.inl (by simp))
    · exact ih (here ++ [part]) hrest (.inr (isDirectoryAt_iff.2 hnode))
    · dsimp only
      split
      · exact leads_arrived hnode
      · exact ⟨hd, ⟨_, hnode⟩, hrest⟩

theorem Sound.isEntry_of_walk (hs : fs.Sound) {links : Nat} :
    ∀ here parts, fs.walk follow links here parts = .ok l → (∀ part ∈ parts, IsPiece part) →
      (parts ≠ [] ∨ fs.isDirectoryAt here = true) → fs.node? l = none → fs.IsEntry l := by
  refine walk_induction
    (P := fun _ here parts => (∀ part ∈ parts, IsPiece part) →
      (parts ≠ [] ∨ fs.isDirectoryAt here = true) → fs.node? l = none → fs.IsEntry l)
    (fun links here parts ha hparts hhere => ?_)
    (fun links here parts m target rest ha ih hparts hhere => ?_)
  · have hleads := hs.leads_advance follow here hparts hhere
    rwa [ha] at hleads
  · have hleads := hs.leads_advance follow here hparts hhere
    rw [ha] at hleads
    obtain ⟨hd, ⟨_, hnode⟩, hrest⟩ := hleads
    refine ih ?_ (.inr ?_)
    · intro part hpart
      rcases List.mem_append.1 hpart with hpart | hpart
      · exact isPiece_of_mem_linkParts (hs.links _ target hnode) hpart
      · exact hrest part hpart
    · split
      · rfl
      · exact hd

/-- Where a path leads and nothing stands, something can be put. -/
theorem Sound.isEntry_of_place (hs : fs.Sound) {p : Path} (hp : p.Proper) (hne : p.parts ≠ [])
    (h : fs.place follow p = .ok l) (hnone : fs.node? l = none) : fs.IsEntry l := by
  obtain ⟨hnul, -, hwalk⟩ := place_eq_ok_iff.1 h
  exact hs.isEntry_of_walk _ _ hwalk (hp.isPiece hnul) (.inl hne) hnone

/-- Where a path leads, a file can be put unless a directory is there. -/
theorem Sound.isEntry_of_place_file (hs : fs.Sound) {p : Path} (hp : p.Proper) (hne : p.parts ≠ [])
    (h : fs.place follow p = .ok l) (hdir : fs.isDirectoryAt l = false) : fs.IsEntry l := by
  rcases hnode : fs.node? l with _ | node
  · exact hs.isEntry_of_place hp hne h hnode
  · refine hs.isEntry hnode (ne_nil_of_node? fs fun hd => ?_)
    rw [isDirectoryAt_iff.2 hd] at hdir
    cases hdir

/-- A directory whose path is its location is real. -/
theorem Sound.isReal (hs : fs.Sound) {p : Path} (habs : p.isAbsolute = true)
    (h : fs.lookup true p = .ok (p.parts, .directory)) : fs.IsReal p.parts := by
  unfold lookup at h
  rcases hplace : fs.place true p with f | l <;> rw [hplace] at h
  · cases h
  dsimp only at h
  rcases hnode : fs.node? l with _ | node <;> rw [hnode] at h
  · cases h
  obtain ⟨rfl, rfl⟩ := Prod.mk.inj (Except.ok.inj h)
  have hdir := hs.isDirectoryAt_above (isDirectoryAt_iff.2 hnode)
  have hnames := hs.names _ _ hnode
  refine ⟨hdir, hnames, ?_⟩
  obtain ⟨-, -, hwalk⟩ := place_eq_ok_iff.1 hplace
  have horigin : fs.origin p = [] := by
    unfold origin
    rw [if_pos habs]
  rw [horigin] at hwalk
  -- a walk through directories that meets a long name fails
  have hshort : ∀ parts here, (∀ m, m <+: here ++ parts → fs.isDirectoryAt m = true) →
      (∀ n ∈ parts, IsName n) → (∃ l, fs.walk true maxLinks here parts = .ok l) →
      ∀ n ∈ parts, n.utf8ByteSize ≤ maxNameBytes := by
    intro parts
    induction parts with
    | nil => intro _ _ _ _ n hn; cases hn
    | cons part parts ih =>
      intro here hdir hnames ⟨l, hl⟩ n hn
      have hpart : part.utf8ByteSize ≤ maxNameBytes := by
        by_contra hlong
        obtain ⟨-, hdot, hdots⟩ := hnames part (by simp)
        have hhere := hdir here (List.prefix_append _ _)
        rw [walk, advance, if_neg (by simp [hhere]), if_neg hdot, if_neg hdots,
          if_pos (Nat.lt_of_not_le hlong)] at hl
        cases hl
      rcases List.mem_cons.1 hn with rfl | hn
      · exact hpart
      · have hnext := hdir (here ++ [part]) ⟨parts, by simp⟩
        have hstep : fs.walk true maxLinks here (part :: parts) =
            fs.walk true maxLinks (here ++ [part]) parts := by
          rw [walk, walk, advance_name (hdir here (List.prefix_append _ _)) (hnames part (by simp))
            hpart, isDirectoryAt_iff.1 hnext]
        refine ih (here ++ [part]) ?_ (fun n hn => hnames n (by simp [hn])) ⟨l, by rw [← hstep, hl]⟩
          n hn
        simpa using hdir
  exact hshort p.parts [] hdir hnames ⟨_, hwalk⟩

end CrossBuild.FileSystem
