import CrossBuild.Proofs.FileSystem.Below
import CrossBuild.Proofs.FileSystem.Trail
import CrossBuild.Proofs.SourceTree.Scanned

/-!
# Where a scanned tree lies

A tree that was scanned from a directory without links has its things where their ways of names lead
from the directory. So its files are those below the directory, but for those below a directory that
is left out.
-/

namespace CrossBuild

open FileSystem

/-- No link stands at or below a location. -/
def FileSystem.NoLinkBelow (fs : FileSystem) (l : Location) : Prop :=
  ∀ m, l <+: m → ∀ target, fs.node? m ≠ some (.link target)

theorem FileSystem.NoLinkBelow.below {fs : FileSystem} {l : Location} (h : fs.NoLinkBelow l)
    (way : List String) : fs.NoLinkBelow (l ++ way) :=
  fun m hm => h m ((List.prefix_append l way).trans hm)

namespace SourceTree

variable {fs : FileSystem} {exclude : List Path} {p : Path} {l : Location} {t c d : SourceTree}
  {n : String} {way : List String} {entry : Entry}

/-- A tree is what was scanned at a path, which leads to a directory. -/
structure Lies (fs : FileSystem) (exclude : List Path) (p : Path) (l : Location) (t : SourceTree) :
    Prop where
  place : fs.place true p = .ok l
  directory : fs.isDirectoryAt l = true
  scan : ∃ depth, scanTo fs exclude (depth + 1) p = .ok t

theorem exists_lies {depth : Nat} (h : scanTo fs exclude depth p = .ok t) :
    ∃ l, Lies fs exclude p l t := by
  cases depth with
  | zero => cases h
  | succ depth =>
    obtain ⟨found, hfound, -⟩ := reads_of_scanTo h
    obtain ⟨l, hlookup, -⟩ := names_eq_ok_iff.1 hfound
    obtain ⟨hp, hnode⟩ := lookup_eq_ok_iff.1 hlookup
    exact ⟨l, hp, isDirectoryAt_iff.2 hnode, depth, h⟩

theorem lies_of_scanTo {depth : Nat} (h : scanTo fs exclude depth p = .ok t)
    (hp : fs.place true p = .ok l) : Lies fs exclude p l t := by
  obtain ⟨l', hlies⟩ := exists_lies h
  obtain rfl := Except.ok.inj (hp.symm.trans hlies.place)
  exact hlies

/-- What a tree has under a name, by what stands there on disk. -/
inductive Shows (fs : FileSystem) (exclude : List Path) (p : Path) (l : Location) (n : String) :
    Option Node → Option Entry → Prop
  | nothing : Shows fs exclude p l n none none
  | skipped (excluded : pathOf (l ++ [n]) ∈ exclude) : Shows fs exclude p l n (some .directory) none
  | directory {c : SourceTree} (included : pathOf (l ++ [n]) ∉ exclude)
      (lies : Lies fs exclude (p.below [n]) (l ++ [n]) c) :
      Shows fs exclude p l n (some .directory) (some (.directory c))
  | script {b : Bytes} {x : Bool} {text : String} (isScript : ScriptName.isScript n = true) :
      Shows fs exclude p l n (some (.file b x)) (some (.script (some text)))
  | asset {b : Bytes} {x : Bool} (isScript : ScriptName.isScript n = false)
      (place : fs.place true (p.below [n]) = .ok (l ++ [n])) :
      Shows fs exclude p l n (some (.file b x)) (some (.asset (some (p.below [n]))))

/-- **A scanned directory** shows what stands in it. -/
theorem Lies.shows (hs : fs.Sound) (hlinks : fs.NoLinkBelow l) (h : Lies fs exclude p l t)
    (n : String) : Shows fs exclude p l n (fs.node? (l ++ [n])) (t.child? n) := by
  obtain ⟨depth, hscan⟩ := h.scan
  obtain ⟨found, hfound, hsublist, hreads⟩ := reads_of_scanTo hscan
  obtain ⟨l', hlookup, rfl⟩ := names_eq_ok_iff.1 hfound
  obtain rfl := Except.ok.inj (h.place.symm.trans (lookup_eq_ok_iff.1 hlookup).1)
  rcases hnode : fs.node? (l ++ [n]) with _ | node
  · have hnone : t.child? n = none := child?_eq_none_iff.2 fun hmem =>
      mem_childNames.1 (hsublist.subset hmem) hnode
    rw [hnone]
    exact .nothing
  have hn : IsName n := hs.names _ node hnode n (by simp)
  have hlink : ∀ target, fs.node? (l ++ [n]) ≠ some (.link target) :=
    hlinks _ (List.prefix_append l [n])
  have hdirectory : ∀ {b : Bool}, fs.isDirectory (p.below [n]) = .ok b →
      fs.place true (p.below [n]) = .ok (l ++ [n]) ∧ fs.isDirectoryAt (l ++ [n]) = b :=
    isDirectory_child h.directory h.place hn hlink
  -- what is no directory is a file
  have hfile : fs.isDirectoryAt (l ++ [n]) = false → ∃ b x, node = .file b x := by
    intro hdir
    cases node with
    | file b x => exact ⟨b, x, rfl⟩
    | directory =>
      rw [isDirectoryAt_iff.2 hnode] at hdir
      cases hdir
    | link target => exact absurd hnode (hlink target)
  have hread := hreads n (mem_childNames.2 (by rw [hnode]; exact Option.some_ne_none node))
  generalize t.child? n = child at hread ⊢
  cases hread with
  | skipped isDirectory resolves excluded =>
    obtain ⟨hplace, hdir⟩ := hdirectory isDirectory
    rw [resolve_of_place rfl (.refl fs) hs hplace hdir] at resolves
    obtain rfl := Option.some.inj (hnode.symm.trans (isDirectoryAt_iff.1 hdir))
    exact .skipped (Except.ok.inj resolves ▸ excluded)
  | directory isDirectory resolves included scan =>
    obtain ⟨hplace, hdir⟩ := hdirectory isDirectory
    rw [resolve_of_place rfl (.refl fs) hs hplace hdir] at resolves
    obtain rfl := Option.some.inj (hnode.symm.trans (isDirectoryAt_iff.1 hdir))
    exact .directory (Except.ok.inj resolves ▸ included) (lies_of_scanTo scan hplace)
  | script isDirectory isScript _ =>
    obtain ⟨b, x, rfl⟩ := hfile (hdirectory isDirectory).2
    exact .script isScript
  | asset isDirectory isScript =>
    obtain ⟨b, x, rfl⟩ := hfile (hdirectory isDirectory).2
    exact .asset isScript (hdirectory isDirectory).1

/-! ## Ways of names -/

/-- A directory on a way is one of those that are left out. -/
def LeftOut (exclude : List Path) (l : Location) (way : List String) : Prop :=
  ∃ front, front ≠ [] ∧ front <+: way ∧ pathOf (l ++ front) ∈ exclude

theorem LeftOut.mono {more : List String} (h : LeftOut exclude l way) (hmore : way <+: more) :
    LeftOut exclude l more := by
  obtain ⟨front, hne, hfront, hmem⟩ := h
  exact ⟨front, hne, hfront.trans hmore, hmem⟩

theorem leftOut_concat_iff :
    LeftOut exclude l (way ++ [n]) ↔ LeftOut exclude l way ∨ pathOf (l ++ (way ++ [n])) ∈ exclude := by
  constructor
  · rintro ⟨front, hne, hfront, hmem⟩
    rcases List.prefix_concat_iff.1 hfront with rfl | hfront
    · exact .inr hmem
    · exact .inl ⟨front, hne, hfront, hmem⟩
  · rintro (h | hmem)
    · exact h.mono (List.prefix_append way [n])
    · exact ⟨_, by simp, List.prefix_refl _, hmem⟩

/-- A directory of a scanned tree lies at the end of its way. -/
theorem Lies.get? (hs : fs.Sound) (hlinks : fs.NoLinkBelow l) (h : Lies fs exclude p l t)
    (hd : t.get? way = some (.directory d)) :
    Lies fs exclude (p.below way) (l ++ way) d ∧ ¬ LeftOut exclude l way := by
  induction way using List.reverseRecOn generalizing d with
  | nil =>
    rw [get?_nil] at hd
    cases hd
    refine ⟨by simpa using h, ?_⟩
    rintro ⟨front, hne, hfront, -⟩
    exact hne (List.prefix_nil.1 hfront)
  | append_singleton way n ih =>
    obtain ⟨c, hc, hchild⟩ := get?_concat_eq_some_iff.1 hd
    obtain ⟨hlies, hin⟩ := ih hc
    have hshows := hlies.shows hs (hlinks.below way) n
    rw [hchild] at hshows
    generalize fs.node? (l ++ way ++ [n]) = node at hshows
    cases hshows with
    | directory included lies =>
      rw [Path.below_below, List.append_assoc] at lies
      rw [List.append_assoc] at included
      exact ⟨lies, fun hout => (leftOut_concat_iff.1 hout).elim hin included⟩

/-- What a directory of a scanned tree has under a name, by what stands there on disk. -/
theorem Lies.shows_at (hs : fs.Sound) (hlinks : fs.NoLinkBelow l) (h : Lies fs exclude p l t)
    (hd : t.get? way = some (.directory d)) (n : String) :
    Shows fs exclude (p.below way) (l ++ way) n (fs.node? (l ++ way ++ [n])) (d.child? n) :=
  (h.get? hs hlinks hd).1.shows hs (hlinks.below way) n

/-- A directory that is not left out is in the tree. -/
theorem Lies.exists_get? (hs : fs.Sound) (hlinks : fs.NoLinkBelow l) (h : Lies fs exclude p l t)
    (hdir : fs.isDirectoryAt (l ++ way) = true) (hin : ¬ LeftOut exclude l way) :
    ∃ d, t.get? way = some (.directory d) := by
  induction way using List.reverseRecOn with
  | nil => exact ⟨t, get?_nil⟩
  | append_singleton way n ih =>
    rw [leftOut_concat_iff, not_or] at hin
    rw [← List.append_assoc] at hdir hin
    have hnode := isDirectoryAt_iff.1 hdir
    obtain ⟨c, hc⟩ := ih (hs.parents _ n _ hnode) hin.1
    have hshows := h.shows_at hs hlinks hc n
    rw [hnode] at hshows
    generalize hchild : c.child? n = child at hshows
    cases hshows with
    | skipped excluded => exact absurd excluded hin.2
    | @directory d _ _ => exact ⟨d, get?_concat_eq_some_iff.2 ⟨c, hc, hchild⟩⟩

/-- **The files of a scanned tree** are those below its directory that are not left out. -/
theorem Lies.isFile_iff (hs : fs.Sound) (hlinks : fs.NoLinkBelow l) (h : Lies fs exclude p l t) :
    (∃ entry, t.get? way = some entry ∧ entry.isFile = true) ↔
      fs.IsFileAt (l ++ way) ∧ ¬ LeftOut exclude l way.dropLast := by
  rcases List.eq_nil_or_concat way with rfl | ⟨way, n, rfl⟩
  · rw [get?_nil, List.append_nil]
    constructor
    · rintro ⟨entry, hentry, hfile⟩
      rw [← Option.some.inj hentry] at hfile
      cases hfile
    · rintro ⟨hfile, -⟩
      exact absurd hfile (not_isFileAt_of_node (isDirectoryAt_iff.1 h.directory) (by simp))
  rw [List.concat_eq_append, List.dropLast_concat, ← List.append_assoc]
  constructor
  · rintro ⟨entry, hentry, hfile⟩
    obtain ⟨c, hc, hchild⟩ := get?_concat_eq_some_iff.1 hentry
    refine ⟨?_, (h.get? hs hlinks hc).2⟩
    have hshows := h.shows_at hs hlinks hc n
    rw [hchild] at hshows
    unfold IsFileAt
    generalize fs.node? (l ++ way ++ [n]) = node at hshows ⊢
    cases hshows with
    | directory => cases hfile
    | script | asset => exact ⟨_, _, rfl⟩
  · rintro ⟨⟨b, x, hnode⟩, hin⟩
    obtain ⟨c, hc⟩ := h.exists_get? hs hlinks (hs.parents _ n _ hnode) hin
    have hshows := h.shows_at hs hlinks hc n
    rw [hnode] at hshows
    generalize hchild : c.child? n = child at hshows
    cases hshows with
    | script | asset => exact ⟨_, get?_concat_eq_some_iff.2 ⟨c, hc, hchild⟩, rfl⟩

/-- A file of a scanned tree is an asset if its name is not that of a script, and it comes from where
its way leads. -/
theorem Lies.asset (hs : fs.Sound) (hlinks : fs.NoLinkBelow l) (h : Lies fs exclude p l t)
    (hentry : t.get? (way ++ [n]) = some entry) (hfile : entry.isFile = true)
    (hn : ScriptName.isScript n = false) :
    entry = .asset (some (p.below (way ++ [n]))) ∧
      fs.place true (p.below (way ++ [n])) = .ok (l ++ (way ++ [n])) := by
  obtain ⟨c, hc, hchild⟩ := get?_concat_eq_some_iff.1 hentry
  have hshows := h.shows_at hs hlinks hc n
  rw [hchild] at hshows
  generalize fs.node? (l ++ way ++ [n]) = node at hshows
  cases hshows with
  | directory => cases hfile
  | script isScript =>
    rw [hn] at isScript
    cases isScript
  | asset _ place =>
    rw [Path.below_below, List.append_assoc] at place
    exact ⟨by rw [Path.below_below], place⟩

end SourceTree

end CrossBuild
