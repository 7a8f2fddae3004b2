import CrossBuild.Proofs.Archive.Tree
import CrossBuild.Proofs.FileSystem.Changes
import CrossBuild.Proofs.FileSystem.Routes
import CrossBuild.Proofs.Outcome
import CrossBuild.Proofs.Path.Lexical

/-!
# Unpacking

Writing the entries of an archive into an empty directory one after the other. What was written up to an
entry stands in the directory as the tree of these entries, and nothing outside has changed (`Unpacked`).
One entry makes the directories that it lacks (`Paved`) and then its own file or directory; what it finds
in its way makes it fail.
-/

namespace CrossBuild

open FileSystem CrossBuild.Task

/-! ## Names of members -/

namespace Lexical

theorem foldl_step_names {parts : List String} (h : ∀ n ∈ parts, IsName n) (done : List (List Char)) :
    (parts.map String.toList).foldl (step true) done = (parts.map String.toList).reverse ++ done := by
  induction parts generalizing done with
  | nil => rfl
  | cons n parts ih =>
    obtain ⟨hpiece, hdot, hdots⟩ := h n (by simp)
    have hne : ∀ cs : List Char, n ≠ String.ofList cs → n.toList ≠ cs := by
      rintro cs hcs rfl
      exact hcs String.ofList_toList.symm
    have hstep : step true done n.toList = n.toList :: done := by
      unfold step
      rw [if_neg (not_or.2 ⟨hne [] hpiece.1, hne ['.'] hdot⟩), if_neg (hne ['.', '.'] hdots)]
    rw [List.map_cons, List.foldl_cons, hstep, ih fun n hn => h n (by simp [hn])]
    simp

/-- A path of names from the root cannot be shortened. -/
theorem shorten_toString {parts : List String} (h : ∀ n ∈ parts, IsName n) :
    shorten (Path.toString ⟨.root, parts⟩).toList = (Path.toString ⟨.root, parts⟩).toList := by
  have hslash : ∀ part ∈ parts.map String.toList, '/' ∉ part := by
    intro part hpart
    obtain ⟨n, hn, rfl⟩ := List.mem_map.1 hpart
    exact (h n hn).1.2.1
  have hhead : (Text.joinWith '/' (parts.map String.toList)).head? ≠ some '/' := by
    refine Path.head_joinWith_ne fun part hpart => ⟨?_, hslash part hpart⟩
    obtain ⟨n, hn, rfl⟩ := List.mem_map.1 hpart
    simpa using (h n hn).1.1
  have hnul : '\x00' ∉ (Path.toString ⟨.root, parts⟩).toList := by
    have := Path.hasNul_of_names (p := ⟨.root, parts⟩) h
    simpa [hasNul] using this
  rw [Path.toList_toString_root] at hnul ⊢
  generalize hjoined : Text.joinWith '/' (parts.map String.toList) = joined at hhead hnul
  have hleading : leading ('/' :: joined) = ['/'] := by
    rw [leading_eq]
    cases joined with
    | nil => rfl
    | cons c joined =>
      have hc : c ≠ '/' := by
        rintro rfl
        simp at hhead
      simp [hc]
  have hparts : Lexical.parts true ('/' :: joined) = parts.map String.toList := by
    rw [Lexical.parts, Text.splitAt, if_pos rfl, List.foldl_cons]
    cases parts with
    | nil =>
      obtain rfl : joined = [] := hjoined.symm
      rfl
    | cons n parts =>
      rw [← hjoined, Text.splitAt_joinWith '/' (by simp) hslash]
      have := foldl_step_names h []
      rw [show step true [] [] = [] from rfl, this]
      simp
  have hkeep : ('/' :: joined).takeWhile (· != '\x00') = '/' :: joined := by
    refine List.takeWhile_eq_self_iff.2 fun c hc => ?_
    simp only [bne_iff_ne, ne_eq]
    rintro rfl
    exact hnul hc
  unfold shorten
  rw [hleading]
  simp only [List.isEmpty_cons, Bool.not_false, hparts, hjoined, List.cons_append, List.nil_append, hkeep,
    Bool.false_eq_true, if_false]

end Lexical

namespace FileSystem

variable {fs fs' : FileSystem} {p : Path}

/-- What is written to is a file or nothing, and stays as executable as it was. -/
theorem runOn_write_cases {b : Bytes} (hrun : (write p b).runOn fs = (.ok (), fs')) :
    ∃ l x, fs.place true p = .ok l ∧ fs' = fs.put l (.file b x) ∧
      (fs.node? l = none ∧ x = false ∨ ∃ c, fs.node? l = some (.file c x)) := by
  unfold write at hrun
  rw [runOn_change] at hrun
  rcases hl : fs.place true p with f | l <;> rw [hl] at hrun
  · cases hrun
  dsimp only at hrun
  rcases hnode : fs.node? l with _ | ⟨c, x⟩ | _ | _ <;> rw [hnode] at hrun
  · exact ⟨l, false, rfl, (Prod.mk.inj hrun).2.symm, .inl ⟨hnode, rfl⟩⟩
  · exact ⟨l, x, rfl, (Prod.mk.inj hrun).2.symm, .inr ⟨c, hnode⟩⟩
  · cases hrun
  · cases hrun

end FileSystem

namespace Zip

variable {bytes : Bytes} {done : List Entry} {e : Entry} {fs fs₀ fs₁ fs' : FileSystem} {p : Path}
  {u l : Location} {ys zs parts : List String}

theorem targetOf_eq (h : ∀ n ∈ parts, IsName n) (name : String) :
    targetOf ⟨.root, parts⟩ name = Path.below ⟨.root, parts⟩ (cleanParts name) := by
  unfold targetOf
  dsimp only
  rw [Lexical.shorten_toString h, String.ofList_toList,
    Path.ofString_toString_of_parts fun n hn => (h n hn).isPart]
  rfl

theorem isPart_of_mem_cleanParts {name part : String} (h : part ∈ cleanParts name) :
    IsPart part ∧ part ≠ ".." := by
  obtain ⟨hmem, hkeep⟩ := List.mem_filter.1 h
  obtain ⟨s, hs, rfl⟩ := List.mem_map.1 hmem
  simp only [bne_iff_ne, ne_eq, Bool.and_eq_true] at hkeep
  refine ⟨⟨hkeep.1.1, ?_, hkeep.1.2⟩, hkeep.2⟩
  rw [String.toList_ofList]
  exact Text.not_mem_of_mem_splitAt hs

/-! ## Directories on the way -/

/-- A location below another one. -/
def Within (u l : Location) : Prop :=
  ∃ x xs, l = u ++ x :: xs

theorem isPresent_iff_seemsPresent : seemsPresent fs p = true ↔ fs.isPresent p = .ok true := by
  unfold seemsPresent
  rcases fs.isPresent p with f | b <;> simp

theorem keeps_unlessThere {I : FileSystem → Prop} (r : Except Failure Unit) : Keeps I (unlessThere r) := by
  unfold unlessThere
  split
  · exact keeps_pure _
  · exact fun _ h => h

/-- Creating what is missing below a directory that is there keeps what creating each directory keeps. -/
theorem keeps_makeMissing {I : FileSystem → Prop} (hpresent : ∀ fs, I fs → seemsPresent fs p = true)
    (hmake : ∀ zs, zs ≠ [] → zs <+: ys → Keeps I (makeDirectory (p.below zs))) (hys : ys ≠ []) :
    Keeps I (makeMissing (p.below ys)) := by
  induction ys using List.reverseRecOn with
  | nil => exact absurd rfl hys
  | append_singleton ys n ih =>
    have hparent : (p.below (ys ++ [n])).parent = p.below ys := by
      simp [Path.parent, Path.below, ← List.append_assoc]
    have hlast := hmake (ys ++ [n]) hys (List.prefix_refl _)
    rw [makeMissing, dif_neg (by simp [Path.below]), hparent]
    intro fs hfs
    rw [runOn_bind, runOn_ask]
    dsimp only
    by_cases hnil : ys = []
    · subst hnil
      rw [Path.below_nil, hpresent fs hfs]
      exact hlast fs hfs
    · refine Keeps.when ?_ hlast fs hfs
      have hparents := ih (fun zs hzs hle => hmake zs hzs (hle.trans (List.prefix_append ys [n]))) hnil
      exact hparents.attempt.bind fun r => keeps_unlessThere r

/-- Directories were made below a location along some names, and nothing else changed. -/
structure Paved (u : Location) (ys : List String) (fs fs' : FileSystem) : Prop where
  sound : fs'.Sound
  gains : Gains fs fs'
  others : ∀ l, fs'.node? l = fs.node? l ∨
    (fs'.node? l = some .directory ∧ ∃ x xs, l = u ++ x :: xs ∧ x :: xs <+: ys)

theorem Paved.refl (hs : fs.Sound) : Paved u ys fs fs :=
  ⟨hs, .refl fs, fun _ => .inl rfl⟩

/-- A path to a directory in which no link is. -/
structure Open (fs : FileSystem) (p : Path) (u : Location) : Prop where
  place : fs.place true p = .ok u
  directory : fs.isDirectoryAt u = true
  noLink : ∀ x xs target, fs.node? (u ++ x :: xs) ≠ some (.link target)

theorem Open.noLinkOn (h : Open fs p u) (ys : List String) : fs.NoLinkOn u ys := by
  rintro (_ | ⟨x, xs⟩) hne - target
  · exact absurd rfl hne
  · exact h.noLink x xs target

/-- Along the names of an entry a path leads straight down. -/
theorem Open.eq_of_place {follow : Bool} (h : Open fs p u) (hys : ∀ n ∈ ys, IsPart n ∧ n ≠ "..")
    (hne : ys ≠ []) (hl : fs.place follow (p.below ys) = .ok l) : l = u ++ ys := by
  refine eq_of_place_below h.place h.directory hne (fun n hn => ?_) (h.noLinkOn ys) hl
  exact Path.isName_of_mem_parts (hasNul_of_place hl) (List.mem_append_right _ hn) (hys n hn)

theorem Open.paved (h : Open fs p u) (hpaved : Paved u ys fs fs') : Open fs' p u where
  place := hpaved.gains.place_of_node h.place (isDirectoryAt_iff.1 h.directory)
  directory := hpaved.gains.isDirectoryAt h.directory
  noLink x xs target hlink := by
    rcases hpaved.others (u ++ x :: xs) with hsame | ⟨hdir, -⟩
    · exact h.noLink x xs target (hsame ▸ hlink)
    · rw [hdir] at hlink
      cases hlink

theorem Open.seemsPresent (h : Open fs p u) : seemsPresent fs p = true :=
  isPresent_iff_seemsPresent.2 (test_of_node h.place (isDirectoryAt_iff.1 h.directory))

theorem Open.seemsPresent_parent (h : Open fs ⟨.root, parts⟩ u) (hne : parts ≠ []) :
    Zip.seemsPresent fs (Path.parent ⟨.root, parts⟩) = true := by
  obtain ⟨init, n, rfl⟩ := (List.eq_nil_or_concat' parts).resolve_left hne
  obtain ⟨d, hd, hplace⟩ := exists_place_above (List.cons_ne_nil n []) h.place
  refine isPresent_iff_seemsPresent.2 (test_of_node (l := d) ?_ (isDirectoryAt_iff.1 hd))
  simpa [Path.parent] using hplace

theorem keeps_paved (h : Open fs p u) (hys : ∀ n ∈ ys, IsPart n ∧ n ≠ "..") (hne : zs ≠ [])
    (hle : zs <+: ys) : Keeps (Paved u ys fs) (makeDirectory (p.below zs)) := by
  refine keeps_makeDirectory_of fun fs₁ l hpaved hl hnone => ?_
  obtain rfl := (h.paved hpaved).eq_of_place (fun n hn => hys n (hle.subset hn)) hne hl
  have hentry : fs₁.IsEntry (u ++ zs) := by
    obtain ⟨init, n, rfl⟩ := (List.eq_nil_or_concat' zs).resolve_left hne
    have hn : IsName n := Path.isName_of_mem_parts (hasNul_of_place hl)
      (List.mem_append_right _ (by simp)) (hys n (hle.subset (by simp)))
    rw [Path.below, ← List.append_assoc] at hl
    exact hpaved.sound.isEntry_of_place_last hn hl hnone
  obtain ⟨x, xs, rfl⟩ := List.exists_cons_of_ne_nil hne
  have hnil : u ++ x :: xs ≠ [] := by simp
  refine ⟨hpaved.sound.put hentry (.inl rfl) (by simp), hpaved.gains.trans (.put hnil hnone _), fun m => ?_⟩
  rw [node?_put fs₁ hnil]
  split
  · next heq => exact .inr ⟨rfl, x, xs, heq.symm, hle⟩
  · exact hpaved.others m

/-- What an entry lacks above it is made. -/
theorem paved_of_upper {rest : Task FileSystem (Option Fault)} {r : Option Fault} (h : Open fs p u)
    (hs : fs.Sound) (hparent : seemsPresent fs p.parent = true) (hys : ∀ n ∈ ys, IsPart n ∧ n ≠ "..")
    (hrun : (do
      if !(← Task.ask fun fs => .ok (Zip.seemsPresent fs (p.below ys).parent)) then
        makeMissing (p.below ys).parent
      rest : Task FileSystem (Option Fault)).runOn fs = (.ok r, fs')) :
    ∃ fs₁, Paved u ys fs fs₁ ∧ rest.runOn fs₁ = (.ok r, fs') := by
  obtain ⟨there, fs₁, hask, hrun⟩ := Outcome.task.of_bind hrun
  obtain ⟨hthere, rfl⟩ := Prod.mk.inj hask
  obtain rfl := Except.ok.inj hthere
  split at hrun
  · next hmissing =>
    obtain ⟨_, fs₂, hmade, hrest⟩ := Outcome.task.of_bind hrun
    -- only an entry that is not at the top can lack something
    obtain ⟨zs, n, rfl⟩ : ∃ zs n, ys = zs ++ [n] := by
      rcases List.eq_nil_or_concat' ys with rfl | hconcat
      · rw [Path.below_nil, hparent] at hmissing
        cases hmissing
      · exact hconcat
    have hupper : (p.below (zs ++ [n])).parent = p.below zs := by
      simp [Path.parent, Path.below, ← List.append_assoc]
    rw [hupper] at hmissing hmade
    have hzs : zs ≠ [] := by
      rintro rfl
      rw [Path.below_nil, h.seemsPresent] at hmissing
      cases hmissing
    have hkeeps : Keeps (Paved u (zs ++ [n]) fs) (makeMissing (p.below zs)) :=
      keeps_makeMissing (fun fs hpaved => (h.paved hpaved).seemsPresent)
        (fun zs' hne hle => keeps_paved h hys hne (hle.trans (List.prefix_append zs [n]))) hzs
    have hpaved := hkeeps fs (.refl hs)
    rw [hmade] at hpaved
    exact ⟨fs₂, hpaved, hrest⟩
  · exact ⟨fs, .refl hs, hrun⟩

/-- A directory that an entry asks for is there or is made. -/
theorem paved_directory {r : Option Fault} (h : Open fs p u) (hys : ∀ n ∈ ys, IsPart n ∧ n ≠ "..")
    (hpaved : Paved u ys fs fs₁)
    (hrun : (do
      let there ← Task.ask fun fs => .ok ((fs.isDirectory (p.below ys)).toOption.getD false)
      if !there then makeDirectory (p.below ys)
      return none : Task FileSystem (Option Fault)).runOn fs₁ = (.ok r, fs')) :
    Paved u ys fs fs' ∧ fs'.isDirectoryAt (u ++ ys) = true := by
  have hopen := h.paved hpaved
  obtain ⟨there, fs₂, hask, hrun⟩ := Outcome.task.of_bind hrun
  obtain ⟨hthere, rfl⟩ := Prod.mk.inj hask
  obtain rfl := Except.ok.inj hthere
  rcases hdir : fs₁.isDirectory (p.below ys) with f | _ | _
  case ok.true =>
    simp only [hdir, Except.toOption, Option.getD_some, Bool.not_true, Bool.false_eq_true, if_false] at hrun
    obtain ⟨-, rfl⟩ := Outcome.task.of_pure hrun
    refine ⟨hpaved, ?_⟩
    obtain ⟨l, node, hl, hnode, hproperty⟩ := (test_cases hdir).resolve_right (by simp)
    have hat : l = u ++ ys := by
      by_cases hne : ys = []
      · subst hne
        rw [Path.below_nil, hopen.place] at hl
        rw [List.append_nil, Except.ok.inj hl]
      · exact hopen.eq_of_place hys hne hl
    cases node with
    | directory => exact hat ▸ isDirectoryAt_iff.2 hnode
    | file _ _ | link _ => cases hproperty
  -- otherwise it is made, and is not the directory itself
  all_goals
    simp only [hdir, Except.toOption, Option.getD_some, Option.getD_none, Bool.not_false, if_true] at hrun
    obtain ⟨_, fs₂, hmade, hrest⟩ := Outcome.task.of_bind hrun
    obtain ⟨-, rfl⟩ := Outcome.task.of_pure hrest
    have hne : ys ≠ [] := by
      rintro rfl
      have : fs₁.isDirectory p = .ok true := test_of_node hopen.place (isDirectoryAt_iff.1 hopen.directory)
      rw [Path.below_nil, this] at hdir
      cases hdir
    have hkept := keeps_paved h hys hne (List.prefix_refl ys) fs₁ hpaved
    rw [hmade] at hkept
    refine ⟨hkept, ?_⟩
    rcases runOn_makeDirectory_cases hmade with ⟨-, l, hl, -, rfl⟩ | ⟨-, f, hf, -⟩
    · obtain rfl := hopen.eq_of_place hys hne hl
      rw [isDirectoryAt_iff, node?_put fs₁ (by simp [hne]), if_pos rfl]
    · cases hf

/-- What an entry is written to has a directory above. -/
theorem runOn_write_entry {b : Bytes} (h : Open fs p u) (hs : fs.Sound)
    (hys : ∀ n ∈ ys, IsPart n ∧ n ≠ "..") (hrun : (write (p.below ys) b).runOn fs = (.ok (), fs')) :
    ∃ x, ys ≠ [] ∧ fs.IsEntry (u ++ ys) ∧ fs.isDirectoryAt (u ++ ys) = false ∧
      (x = false ∨ ∃ c, fs.node? (u ++ ys) = some (.file c x)) ∧ fs' = fs.put (u ++ ys) (.file b x) := by
  obtain ⟨l, x, hl, rfl, hold⟩ := runOn_write_cases hrun
  have hdir : fs.isDirectoryAt l = false := by
    rcases hold with ⟨hnone, -⟩ | ⟨c, hfile⟩
    · simp [isDirectoryAt, hnone]
    · simp [isDirectoryAt, hfile]
  have hspot : fs.IsSpot l := by
    rcases hold with ⟨hnone, -⟩ | ⟨c, hfile⟩
    · exact isSpot_of_none hnone
    · exact isSpot_of_file hfile
  have hne : ys ≠ [] := by
    rintro rfl
    rw [Path.below_nil, h.place] at hl
    rw [← Except.ok.inj hl, h.directory] at hdir
    cases hdir
  obtain rfl := h.eq_of_place hys hne hl
  refine ⟨x, hne, ?_, hdir, hold.imp_left And.right, rfl⟩
  obtain ⟨init, n, rfl⟩ := (List.eq_nil_or_concat' ys).resolve_left hne
  have hn : IsName n := Path.isName_of_mem_parts (hasNul_of_place hl)
    (List.mem_append_right _ (by simp)) (hys n (by simp))
  rw [Path.below, ← List.append_assoc] at hl
  exact hs.isEntry_of_place_spot hn hl hspot

/-! ## Entries one after the other -/

/-- The entries up to here stand in a directory, and nothing outside has changed. -/
structure Unpacked (bytes : Bytes) (u : Location) (done : List Entry) (fs₀ fs : FileSystem) : Prop where
  sound : fs.Sound
  workingDirectory : fs.workingDirectory = fs₀.workingDirectory
  readable : Readable bytes done
  inside : ∀ x xs, fs.node? (u ++ x :: xs) = holds bytes done (x :: xs)
  outside : ∀ l, ¬ Within u l → fs.node? l = fs₀.node? l

theorem not_within_self (u : Location) : ¬ Within u u := by
  rintro ⟨x, xs, h⟩
  simp at h

namespace Unpacked

/-- The path to the directory leads there all the time. -/
theorem isOpen (h : Unpacked bytes u done fs₀ fs) (hroute : Route (fun l => ¬ Within u l) fs₀ p u)
    (hu : fs₀.isDirectoryAt u = true) : Open fs p u where
  place := hroute fs h.workingDirectory h.outside
  directory := isDirectoryAt_iff.2 ((h.outside u (not_within_self u)).trans (isDirectoryAt_iff.1 hu))
  noLink x xs target := h.inside x xs ▸ holds_ne_link bytes done (x :: xs) target

/-- An entry has been written when it stands at its place, if it is a file, with directories above, and
everything else is as it was. -/
theorem add (h : Unpacked bytes u done fs₀ fs) (hs : fs'.Sound)
    (hcwd : fs'.workingDirectory = fs.workingDirectory)
    (hfile : isDirectoryName e.name = false → ∃ b, content bytes e = .ok b ∧
      fs'.node? (u ++ cleanParts e.name) = some (.file b false))
    (habove : ∀ x xs, x :: xs <+: cleanParts e.name →
      isDirectoryName e.name = true ∨ x :: xs ≠ cleanParts e.name →
        fs'.node? (u ++ x :: xs) = some .directory ∧ ∀ b, fs.node? (u ++ x :: xs) ≠ some (.file b false))
    (hothers : ∀ l, (∀ x xs, l = u ++ x :: xs → ¬ x :: xs <+: cleanParts e.name) →
      fs'.node? l = fs.node? l) : Unpacked bytes u (done ++ [e]) fs₀ fs' where
  sound := hs
  workingDirectory := hcwd.trans h.workingDirectory
  readable e' he' hfile' := by
    rcases List.mem_append.1 he' with he' | he'
    · exact h.readable e' he' hfile'
    · obtain rfl := List.mem_singleton.1 he'
      exact (hfile hfile').imp fun _ hb => hb.1
  inside x xs := by
    by_cases hle : x :: xs <+: cleanParts e.name
    swap
    · rw [holds_append_elsewhere hle, ← h.inside, hothers]
      intro y ys heq
      rwa [← List.append_cancel_left heq]
    by_cases hne : isDirectoryName e.name = true ∨ x :: xs ≠ cleanParts e.name
    · obtain ⟨hdir, hnofile⟩ := habove x xs hle hne
      rw [hdir, holds_append_above h.readable hle hne fun b => h.inside x xs ▸ hnofile b]
    · obtain ⟨hname, heq⟩ := not_or.1 hne
      obtain ⟨b, hb, hnode⟩ := hfile (by simpa using hname)
      rw [not_not.1 heq, hnode, holds_append_file (by simpa using hname) hb]
  outside l hl := by
    rw [hothers l fun x xs heq => absurd ⟨x, xs, heq⟩ hl, h.outside l hl]

/-- What stood on the way to a directory that was made was no file. -/
theorem add_directory (h : Unpacked bytes u done fs₀ fs) (hname : isDirectoryName e.name = true)
    (hpaved : Paved u (cleanParts e.name) fs fs') (hdir : fs'.isDirectoryAt (u ++ cleanParts e.name) = true) :
    Unpacked bytes u (done ++ [e]) fs₀ fs' := by
  refine h.add hpaved.sound hpaved.gains.workingDirectory (fun hfile => ?_) (fun x xs hle _ => ?_)
    fun l hl => ?_
  · rw [hname] at hfile
    cases hfile
  · have habove := hpaved.sound.isDirectoryAt_above hdir (u ++ x :: xs)
      ((List.prefix_append_right_inj u).2 hle)
    refine ⟨isDirectoryAt_iff.1 habove, fun b hfile => ?_⟩
    rw [isDirectoryAt_iff, hpaved.gains.kept _ _ hfile] at habove
    cases habove
  · rcases hpaved.others l with hsame | ⟨-, x, xs, heq, hle⟩
    · exact hsame
    · exact absurd hle (hl x xs heq)

theorem add_file {b : Bytes} (h : Unpacked bytes u done fs₀ fs) (hname : isDirectoryName e.name = false)
    (hb : content bytes e = .ok b) (hne : cleanParts e.name ≠ [])
    (hpaved : Paved u (cleanParts e.name) fs fs₁) (hentry : fs₁.IsEntry (u ++ cleanParts e.name))
    (hspot : fs₁.isDirectoryAt (u ++ cleanParts e.name) = false) :
    Unpacked bytes u (done ++ [e]) fs₀ (fs₁.put (u ++ cleanParts e.name) (.file b false)) := by
  have hput := node?_put fs₁ (show u ++ cleanParts e.name ≠ [] by simp [hne]) (.file b false)
  have hsound : (fs₁.put (u ++ cleanParts e.name) (.file b false)).Sound :=
    hpaved.sound.put hentry (.inr hspot) (by simp)
  refine h.add hsound hpaved.gains.workingDirectory (fun _ => ⟨b, hb, ?_⟩) (fun x xs hle hor => ?_)
    fun l hl => ?_
  · rw [hput, if_pos rfl]
  · obtain ⟨d, n, heq, -, hd⟩ := hentry
    have hbefore : x :: xs ≠ cleanParts e.name := hor.resolve_left (by simp [hname])
    have hother : u ++ cleanParts e.name ≠ u ++ x :: xs := fun h => hbefore (List.append_cancel_left h).symm
    have hle' : u ++ x :: xs <+: d ++ [n] := heq ▸ (List.prefix_append_right_inj u).2 hle
    have habove := hpaved.sound.isDirectoryAt_above hd _
      ((List.prefix_concat_iff.1 hle').resolve_left fun h => hother (heq.trans h.symm))
    rw [isDirectoryAt_iff] at habove
    refine ⟨by rw [hput, if_neg hother, habove], fun c hfile => ?_⟩
    rw [hpaved.gains.kept _ _ hfile] at habove
    cases habove
  · rw [hput, if_neg]
    · rcases hpaved.others l with hsame | ⟨-, x, xs, heq, hle⟩
      · exact hsame
      · exact absurd hle (hl x xs heq)
    · obtain ⟨x, xs, hparts⟩ := List.exists_cons_of_ne_nil hne
      rintro rfl
      exact hl x xs (by rw [hparts]) (hparts ▸ List.prefix_refl _)

/-- A file that is written again was written by an entry, and so cannot be run. -/
theorem not_executable {c : Bytes} {x : Bool} (h : Unpacked bytes u done fs₀ fs) (hpaved : Paved u ys fs fs₁)
    (hne : ys ≠ []) (hfile : fs₁.node? (u ++ ys) = some (.file c x)) : x = false := by
  obtain ⟨y, ys, rfl⟩ := List.exists_cons_of_ne_nil hne
  have hinside := h.inside y ys
  rcases hpaved.others (u ++ y :: ys) with hsame | ⟨hdir, -⟩
  · rw [← hsame, hfile] at hinside
    rcases holds_cases bytes done (y :: ys) with hh | hh | ⟨c', hh⟩ <;> rw [hh] at hinside <;> cases hinside
    rfl
  · rw [hdir] at hfile
    cases hfile

/-- **Writing one entry** adds it to what stands in the directory. -/
theorem step (h : Unpacked bytes u done fs₀ fs) (hroute : Route (fun l => ¬ Within u l) fs₀ ⟨.root, parts⟩ u)
    (hu : fs₀.isDirectoryAt u = true) (hnames : ∀ n ∈ parts, IsName n) (hne : parts ≠ [])
    (hrun : (extractEntry bytes ⟨.root, parts⟩ e).runOn fs = (.ok none, fs')) :
    Unpacked bytes u (done ++ [e]) fs₀ fs' := by
  have hopen := h.isOpen hroute hu
  have hys : ∀ n ∈ cleanParts e.name, IsPart n ∧ n ≠ ".." := fun n hn => isPart_of_mem_cleanParts hn
  have hparent := hopen.seemsPresent_parent hne
  unfold extractEntry at hrun
  rw [targetOf_eq hnames] at hrun
  obtain ⟨fs₁, hpaved, hrun⟩ := paved_of_upper hopen h.sound hparent hys hrun
  have hopen₁ := hopen.paved hpaved
  by_cases hname : isDirectoryName e.name = true
  · rw [if_pos hname] at hrun
    obtain ⟨hpaved', hdir⟩ := paved_directory hopen hys hpaved hrun
    exact h.add_directory hname hpaved' hdir
  · rw [if_neg hname] at hrun
    rw [Bool.not_eq_true] at hname
    rcases hcontent : content bytes e with ⟨fault, begun⟩ | b <;> rw [hcontent] at hrun
    · -- a member at fault is no success
      cases begun with
      | none => cases (Outcome.task.of_pure hrun).1
      | some begun =>
        obtain ⟨_, fs₂, -, hrest⟩ := Outcome.task.of_bind hrun
        cases (Outcome.task.of_pure hrest).1
    · obtain ⟨_, fs₂, hwrite, hrest⟩ := Outcome.task.of_bind hrun
      obtain ⟨-, rfl⟩ := Outcome.task.of_pure hrest
      obtain ⟨x, hne', hentry, hspot, hold, rfl⟩ := runOn_write_entry hopen₁ hpaved.sound hys hwrite
      obtain rfl : x = false := by
        rcases hold with hnot | ⟨c, hfile⟩
        · exact hnot
        · exact h.not_executable hpaved hne' hfile
      exact h.add_file hname hcontent hne' hpaved hentry hspot

theorem run (hroute : Route (fun l => ¬ Within u l) fs₀ ⟨.root, parts⟩ u) (hu : fs₀.isDirectoryAt u = true)
    (hnames : ∀ n ∈ parts, IsName n) (hne : parts ≠ []) {entries : List Entry} :
    ∀ done fs, Unpacked bytes u done fs₀ fs →
      (extractEntries bytes ⟨.root, parts⟩ entries).runOn fs = (.ok none, fs') →
        Unpacked bytes u (done ++ entries) fs₀ fs' := by
  induction entries with
  | nil =>
    intro done fs h hrun
    obtain ⟨-, rfl⟩ := Outcome.task.of_pure hrun
    rwa [List.append_nil]
  | cons e entries ih =>
    intro done fs h hrun
    obtain ⟨fault, fs₁, hentry, hrest⟩ := Outcome.task.of_bind hrun
    cases fault with
    | some fault => cases (Outcome.task.of_pure hrest).1
    | none => simpa using ih (done ++ [e]) fs₁ (h.step hroute hu hnames hne hentry) hrest

end Unpacked

/-- **An archive that unpacks** into an empty directory stands there as its tree. -/
theorem unpacked_of_extract {all : List Entry} (hs : fs₀.Sound)
    (hroute : Route (fun l => ¬ Within u l) fs₀ ⟨.root, parts⟩ u) (hu : fs₀.isDirectoryAt u = true)
    (hempty : ∀ x xs, fs₀.node? (u ++ x :: xs) = none) (hnames : ∀ n ∈ parts, IsName n) (hne : parts ≠ [])
    (hentries : entries bytes = .ok all) (hrun : (extract bytes ⟨.root, parts⟩).runOn fs₀ = (.ok none, fs')) :
    Unpacked bytes u (chosen all) fs₀ fs' := by
  have hstart : Unpacked bytes u [] fs₀ fs₀ := ⟨hs, rfl, nofun, hempty, fun _ _ => rfl⟩
  unfold extract at hrun
  rw [hentries] at hrun
  exact Unpacked.run hroute hu hnames hne [] fs₀ hstart hrun

end Zip
end CrossBuild
