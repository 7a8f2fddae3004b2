import CrossBuild.Proofs.Archive.Unpacked
import CrossBuild.Proofs.Fetch.Merged

/-!
# Unpacking aside

Before anything is merged an archive is downloaded and unpacked in a directory of its own, whose name is
new. Nothing outside of that directory changes (`Beside`), and at the end the tree of the archive stands in
it (`Staged`).
-/

namespace CrossBuild.Fetch

open FileSystem CrossBuild.Task Workspace

variable {fs fs₀ fs₁ fs' : FileSystem} {w w' : Workspace} {p target : Path} {m l : Location} {t n : String}
  {dir parts : List String} {bytes : Bytes} {all : List Zip.Entry}

/-- A name for a directory that is new: nothing that decides where paths lead has it. -/
structure Spare (fs : FileSystem) (dir : List String) (t : String) (target : Path) : Prop where
  names : ∀ n ∈ dir ++ [t], IsName n
  above : t ∉ dir
  target : t ∉ target.parts
  workingDirectory : t ∉ fs.workingDirectory
  links : ∀ l link, fs.node? l = some (.link link) → t ∉ linkParts link

theorem Spare.unmentioned_above (h : Spare fs dir t target) : Unmentioned t fs ⟨.root, dir⟩ :=
  ⟨h.above, h.workingDirectory, h.links⟩

theorem Spare.unmentioned (h : Spare fs dir t target) : Unmentioned t fs target :=
  ⟨h.target, h.workingDirectory, h.links⟩

theorem Aside.of_same (h : Aside t dir m fs) (hcwd : fs'.workingDirectory = fs.workingDirectory)
    (hsame : ∀ l, t ∉ l → fs'.node? l = fs.node? l)
    (hlinks : ∀ l link, fs'.node? l = some (.link link) → fs.node? l = some (.link link)) :
    Aside t dir m fs' := by
  have hway := h.unmentioned.not_mem true
  refine ⟨route_of_way (V := (t ∉ ·)) h.place hway.1 fs' hcwd hsame, ?_, h.unmentioned.of_links hcwd hlinks⟩
  rw [isDirectoryAt_iff, hsame m (hway.2 m h.place)]
  exact isDirectoryAt_iff.1 h.directory

/-- A new directory is there, and nothing outside of it has changed. -/
structure Beside (t : String) (dir m : Location) (fs₀ fs : FileSystem) : Prop where
  sound : fs.Sound
  workingDirectory : fs.workingDirectory = fs₀.workingDirectory
  aside : Aside t dir m fs
  found : fs₀.place false ⟨.root, dir ++ [t]⟩ = .ok (m ++ [t])
  directory : fs.node? (m ++ [t]) = some .directory
  links : ∀ l link, fs.node? l = some (.link link) → fs₀.node? l = some (.link link)
  outside : ∀ l, ¬ m ++ [t] <+: l → fs.node? l = fs₀.node? l

/-- To create a directory with a new name changes nothing else. -/
theorem beside_of_makeDirectory (hs : fs₀.Sound) (hspare : Spare fs₀ dir t target)
    (hrun : (makeDirectory ⟨.root, dir ++ [t]⟩).runOn fs₀ = (.ok (), fs)) :
    ∃ m, Beside t dir m fs₀ fs ∧ fs₀.node? (m ++ [t]) = none ∧
      ∀ x xs, fs.node? (m ++ [t] ++ x :: xs) = none := by
  have ht : IsName t := hspare.names t (by simp)
  rcases runOn_makeDirectory_cases hrun with ⟨-, l, hl, hnone, rfl⟩ | ⟨-, f, hf, -⟩
  swap
  · cases hf
  obtain ⟨m, hm, hplace⟩ := exists_place_above (List.cons_ne_nil t []) hl
  obtain rfl := eq_of_place_child hm hplace ht (fun _ _ => rfl) hl
  have hmade := MakesWay.of_put hs ⟨m, t, rfl, ht, hm⟩ hl hnone
  have hput := node?_put fs₀ (show m ++ [t] ≠ [] by simp) .directory
  have haside : Aside t dir m fs₀ := ⟨hplace, hm, hspare.unmentioned_above⟩
  have hlinks : ∀ l link, (fs₀.put (m ++ [t]) .directory).node? l = some (.link link) →
      fs₀.node? l = some (.link link) := fun l link => (hmade.link_iff l link).2
  refine ⟨m, ⟨hmade.sound, rfl, haside.of_same rfl (fun l hl => ?_) hlinks, hl, ?_, hlinks, fun l hl => ?_⟩,
    hnone, fun x xs => ?_⟩
  · rw [hput, if_neg]
    rintro rfl
    simp at hl
  · rw [hput, if_pos rfl]
  · rw [hput, if_neg]
    rintro rfl
    exact hl (List.prefix_refl _)
  · exact hmade.empty hs hnone (by simp)

namespace Beside

theorem not_within_of_not_mem (ht : t ∉ l) : ¬ Zip.Within (m ++ [t]) l := by
  rintro ⟨x, xs, rfl⟩
  simp at ht

/-- What is done inside the new directory keeps the rest. -/
theorem change (h : Beside t dir m fs₀ fs) (hs : fs'.Sound)
    (hcwd : fs'.workingDirectory = fs.workingDirectory)
    (hothers : ∀ l, ¬ Zip.Within (m ++ [t]) l → fs'.node? l = fs.node? l)
    (hlinks : ∀ l link, fs'.node? l = some (.link link) → fs.node? l = some (.link link)) :
    Beside t dir m fs₀ fs' where
  sound := hs
  workingDirectory := hcwd.trans h.workingDirectory
  aside := h.aside.of_same hcwd (fun l hl => hothers l (not_within_of_not_mem hl)) hlinks
  found := h.found
  directory := (hothers _ (Zip.not_within_self _)).trans h.directory
  links l link hlink := h.links l link (hlinks l link hlink)
  outside l hl := by
    rw [hothers l, h.outside l hl]
    rintro ⟨x, xs, rfl⟩
    exact hl (List.prefix_append _ _)

/-- The path of the new directory leads to it. -/
theorem place (h : Beside t dir m fs₀ fs) (ht : IsName t) (follow : Bool) :
    fs.place follow ⟨.root, dir ++ [t]⟩ = .ok (m ++ [t]) := by
  have hfalse : fs.place false ⟨.root, dir ++ [t]⟩ = .ok (m ++ [t]) :=
    place_child_again (p := ⟨.root, dir⟩) h.found ht h.aside.directory h.aside.place
  cases follow with
  | false => exact hfalse
  | true => exact place_true_of_false hfalse (by simp [h.directory])

end Beside

/-! ## Downloading -/

theorem runOn_of_attempt {σ α : Type} {task : Task σ α} {s s' : σ} {r : Except Failure α}
    (h : (Task.attempt task).runOn s = (.ok r, s')) : task.runOn s = (r, s') := by
  obtain ⟨hr, hs⟩ := Prod.mk.inj ((Task.runOn_attempt task s).symm.trans h)
  exact Prod.ext (Except.ok.inj hr) hs

/-- The file that an archive is downloaded to begins as its name says, whatever the suffix is. -/
theorem exists_archive_parts (suffix : String) : ∃ a others,
    Path.ofString ("archive" ++ suffix) = ⟨.relative, a :: others⟩ ∧ a ≠ "unpacked" ∧ a ≠ ".." := by
  have hlist : ("archive" ++ suffix).toList = 'a' :: ("rchive".toList ++ suffix.toList) := by
    rw [String.toList_append]
    rfl
  obtain ⟨first, parts, hsplit⟩ :=
    List.exists_cons_of_ne_nil (Text.splitAt_ne_nil '/' ("rchive".toList ++ suffix.toList))
  have hne : ∀ s : String, s.toList.head? ≠ some 'a' → String.ofList ('a' :: first) ≠ s := by
    rintro s hs rfl
    simp at hs
  refine ⟨String.ofList ('a' :: first), (parts.map String.ofList).filter (!Path.isVoid ·), ?_,
    hne _ (by decide), hne _ (by decide)⟩
  have hvoid : Path.isVoid (String.ofList ('a' :: first)) = false := by
    rw [Path.isVoid, Bool.or_eq_false_iff, beq_eq_false_iff_ne, beq_eq_false_iff_ne]
    exact ⟨hne "" (by decide), hne "." (by decide)⟩
  rw [Path.ofString, Text.splitString, hlist, Text.splitAt, if_neg (by decide), hsplit]
  show (⟨.relative, _⟩ : Path) = _
  rw [List.map_cons, List.filter_cons_of_pos (by rw [hvoid]; rfl)]

theorem exists_archive_below (parts : List String) (suffix : String) : ∃ a others,
    Path.mk .root parts / ("archive" ++ suffix) = Path.below ⟨.root, parts⟩ (a :: others) ∧
      IsPart a ∧ a ≠ ".." ∧ a ≠ "unpacked" := by
  obtain ⟨a, others, hparts, hunpacked, hdots⟩ := exists_archive_parts suffix
  refine ⟨a, others, ?_, Path.isPart_ofString ("archive" ++ suffix) a (by simp [hparts]), hdots, hunpacked⟩
  show Path.append _ _ = _
  rw [hparts, Path.append_of_relative rfl]
  rfl

theorem runOn_abandon_ne_ok (url : String) (p : Path) (reason : String) (w w' : Workspace) :
    (abandon url p reason).runOn w ≠ (.ok (), w') := by
  intro hrun
  unfold abandon at hrun
  obtain ⟨isPresent, _, -, hrest⟩ := Outcome.task.of_bind hrun
  split at hrest
  · obtain ⟨_, _, -, hthrow⟩ := Outcome.task.of_bind hrest
    cases hthrow
  · cases hrest

/-- A download that succeeds writes the whole body. -/
theorem runOn_download_ok {server : Server} {url : String} {timeout : Int} {status : Nat}
    {chunks : List Bytes} {broken : Option String}
    (hreply : server.reply w.requests ⟨url, timeout⟩ = .answered status chunks broken)
    (hrun : (download server url p timeout).runOn w = (.ok (), w')) :
    (write p chunks.flatten).runOn w.files = (.ok (), w'.files) := by
  unfold download at hrun
  obtain ⟨_, w₁, hinfo, hrun⟩ := Outcome.task.of_bind hrun
  obtain ⟨-, rfl⟩ := Prod.mk.inj hinfo
  obtain ⟨reply, w₂, hsend, hrun⟩ := Outcome.task.of_bind hrun
  obtain ⟨hgot, rfl⟩ := Prod.mk.inj hsend
  obtain rfl : reply = .answered status chunks broken := (Except.ok.inj hgot).symm.trans hreply
  dsimp only at hrun
  split at hrun
  · exact absurd hrun (runOn_abandon_ne_ok _ _ _ _ _)
  obtain ⟨r, w₃, hattempt, hrun⟩ := Outcome.task.of_bind hrun
  obtain ⟨hr, rfl⟩ := Prod.mk.inj ((Task.runOn_attempt _ _).symm.trans hattempt)
  obtain rfl := Except.ok.inj hr
  rw [onFiles, Task.runOn_onPart, receive, Task.runOn_bind] at hrun
  rcases hwrite : (write p chunks.flatten).runOn w.files with ⟨f | u, fs⟩ <;> dsimp only at hrun <;>
    rw [hwrite] at hrun
  · -- what the file system refuses is reported, and is no success
    cases f with
    | file e => exact absurd hrun (runOn_abandon_ne_ok _ _ _ _ _)
    | _ => cases hrun
  · cases broken with
    | none =>
      obtain ⟨-, rfl⟩ := Outcome.task.of_pure hrun
      rfl
    | some reason => exact absurd hrun (runOn_abandon_ne_ok _ _ _ _ _)

/-- A path with two parts more leads nowhere if the first of them is missing. -/
theorem others_eq_nil {a : String} {others : List String} {follow : Bool} {z : Location}
    (hp : fs.place true ⟨.root, parts⟩ = .ok m) (hm : fs.isDirectoryAt m = true) (ha : IsName a)
    (hnone : fs.node? (m ++ [a]) = none)
    (hl : fs.place follow (Path.below ⟨.root, parts⟩ (a :: others)) = .ok z) : others = [] := by
  by_contra hne
  have hsplit : Path.below ⟨.root, parts⟩ (a :: others) = Path.below ⟨.root, parts ++ [a]⟩ others := by
    simp [Path.below]
  rw [hsplit] at hl
  obtain ⟨d, hd, hplace⟩ := exists_place_above hne hl
  rw [eq_of_place_child hm hp ha (by simp [hnone]) hplace, isDirectoryAt_iff, hnone] at hd
  cases hd

/-- The archive is downloaded into the new directory, beside where it will be unpacked. -/
theorem beside_of_write {suffix : String} (h : Beside t dir m fs₀ fs) (ht : IsName t)
    (hempty : ∀ x xs, fs.node? (m ++ [t] ++ x :: xs) = none)
    (hrun : (write (Path.mk .root (dir ++ [t]) / ("archive" ++ suffix)) bytes).runOn fs = (.ok (), fs')) :
    Beside t dir m fs₀ fs' ∧ fs'.content (Path.mk .root (dir ++ [t]) / ("archive" ++ suffix)) = .ok bytes ∧
      ∀ xs, fs'.node? (m ++ [t] ++ "unpacked" :: xs) = none := by
  obtain ⟨a, others, hpath, hpart, hdots, hunpacked⟩ := exists_archive_below (dir ++ [t]) suffix
  rw [hpath] at hrun ⊢
  have hplace := h.place ht true
  have hopen : Zip.Open fs ⟨.root, dir ++ [t]⟩ (m ++ [t]) :=
    ⟨hplace, isDirectoryAt_iff.2 h.directory, fun x xs _ hlink => by rw [hempty] at hlink; cases hlink⟩
  -- the suffix has no parts of its own, since nothing is there that they could be in
  obtain ⟨l, -, hl, -⟩ := runOn_write_cases hrun
  have ha : IsName a := Path.isName_of_mem_parts (hasNul_of_place hl) (by simp [Path.below]) ⟨hpart, hdots⟩
  obtain rfl := others_eq_nil hplace hopen.directory ha (hempty a []) hl
  have hys : ∀ n ∈ [a], IsPart n ∧ n ≠ ".." := by
    intro n hn
    rw [List.mem_singleton.1 hn]
    exact ⟨hpart, hdots⟩
  obtain ⟨x, -, hentry, hspot, -, rfl⟩ := Zip.runOn_write_entry hopen h.sound hys hrun
  have hat := hopen.eq_of_place hys (List.cons_ne_nil a []) hl
  have hput := node?_put fs (show m ++ [t] ++ [a] ≠ [] by simp) (.file bytes x)
  have hspot' : fs.IsSpot (m ++ [t] ++ [a]) := isSpot_of_none (hempty a [])
  refine ⟨h.change (h.sound.put hentry (.inr hspot) (by simp)) rfl (fun l hl => ?_)
    (fun l link hlink => ?_), ?_, fun xs => ?_⟩
  · rw [hput, if_neg]
    rintro rfl
    exact hl ⟨a, [], rfl⟩
  · rw [hput] at hlink
    split at hlink
    · cases hlink
    · exact hlink
  · refine content_eq_ok_iff.2 ⟨l, x, (refiled_put hspot' bytes x).place hl, ?_⟩
    rw [hat, hput, if_pos rfl]
  · rw [hput, if_neg, hempty]
    intro heq
    exact hunpacked (List.cons.inj (List.append_cancel_left heq)).1

/-- An archive is unpacked in a directory of its own, and nothing outside of it has changed. -/
structure Staged (bytes : Bytes) (all : List Zip.Entry) (t : String) (dir m : Location)
    (fs₀ fs : FileSystem) : Prop extends Beside t dir m fs₀ fs where
  readable : Zip.Readable bytes (Zip.chosen all)
  unpacked : fs.node? (m ++ [t, "unpacked"]) = some .directory
  inside : ∀ x xs, fs.node? (m ++ [t, "unpacked"] ++ x :: xs) = Zip.holds bytes all (x :: xs)

/-- The directory to unpack into is made in the new directory. -/
theorem beside_of_makeDirectories (h : Beside t dir m fs₀ fs) (hnames : ∀ n ∈ dir ++ [t], IsName n)
    (hempty : ∀ xs, fs.node? (m ++ [t] ++ "unpacked" :: xs) = none)
    (hrun : (makeDirectories ⟨.root, dir ++ [t] ++ ["unpacked"]⟩).runOn fs = (.ok (), fs')) :
    Beside t dir m fs₀ fs' ∧ Gains fs fs' ∧ fs'.place true ⟨.root, dir ++ [t] ++ ["unpacked"]⟩ =
      .ok (m ++ [t] ++ ["unpacked"]) ∧ fs'.node? (m ++ [t] ++ ["unpacked"]) = some .directory ∧
      ∀ x xs, fs'.node? (m ++ [t] ++ ["unpacked"] ++ x :: xs) = none := by
  have ht : IsName t := hnames t (by simp)
  have hunpacked : IsName "unpacked" := by decide
  obtain ⟨d, hway⟩ := makesWay_of_makeDirectories h.sound (fun hnil => by simp at hnil)
    (fun n hn => by
      rcases List.mem_append.1 hn with hn | hn
      · exact ⟨(hnames n hn).isPart, (hnames n hn).2.2⟩
      · exact List.mem_singleton.1 hn ▸ ⟨hunpacked.isPart, hunpacked.2.2⟩) hrun
  have hplace : fs'.place true ⟨.root, dir ++ [t]⟩ = .ok (m ++ [t]) :=
    hway.gains.place_of_node (h.place ht true) h.directory
  have hdirectory : fs'.isDirectoryAt (m ++ [t]) = true :=
    hway.gains.isDirectoryAt (isDirectoryAt_iff.2 h.directory)
  have hnoLink : ∀ target, fs'.node? (m ++ [t] ++ ["unpacked"]) ≠ some (.link target) := by
    intro target
    rw [Ne, ← hway.link_iff, hempty []]
    simp
  obtain rfl : d = m ++ [t] ++ ["unpacked"] :=
    eq_of_place_child hdirectory hplace hunpacked (fun target hlink => absurd hlink (hnoLink target))
      hway.place
  have hothers : ∀ l, ¬ Zip.Within (m ++ [t]) l → fs'.node? l = fs.node? l := by
    intro l hl
    rcases hway.others l with hsame | ⟨hle, hdir⟩
    · exact hsame
    · have habove := (List.prefix_concat_iff.1 hle).resolve_left fun heq => hl ⟨"unpacked", [], by simp [heq]⟩
      rw [hdir, isDirectoryAt_iff.1 (h.sound.isDirectoryAt_above (isDirectoryAt_iff.2 h.directory) l habove)]
  refine ⟨h.change hway.sound hway.gains.workingDirectory hothers fun l link => (hway.link_iff l link).2,
    hway.gains, hway.place, isDirectoryAt_iff.1 hway.directory, fun x xs => ?_⟩
  exact hway.empty h.sound (hempty []) (List.cons_ne_nil x xs)

theorem runOn_extract_ok {archive : Path} (hrun : (extract archive p).runOn fs = (.ok (), fs')) :
    ∃ fs₁ bytes, (makeDirectories p).runOn fs = (.ok (), fs₁) ∧ fs₁.content archive = .ok bytes ∧
      (Zip.extract bytes p).runOn fs₁ = (.ok none, fs') := by
  unfold extract at hrun
  obtain ⟨_, fs₁, hmade, hrun⟩ := Outcome.task.of_bind hrun
  obtain ⟨r, fs₂, hattempt, hrun⟩ := Outcome.task.of_bind hrun
  rcases r with f | _ | reason
  · cases f <;> cases hrun
  · obtain ⟨-, rfl⟩ := Outcome.task.of_pure hrun
    obtain ⟨bytes, _, hask, hunpack⟩ := Outcome.task.of_bind (runOn_of_attempt hattempt)
    obtain ⟨hcontent, rfl⟩ := Prod.mk.inj hask
    refine ⟨fs₁, bytes, hmade, hcontent, ?_⟩
    split at hunpack
    · obtain ⟨fault, _, hextract, hpure⟩ := Outcome.task.of_bind hunpack
      obtain ⟨hnone, rfl⟩ := Outcome.task.of_pure hpure
      rw [Option.map_eq_none_iff.1 hnone.symm] at hextract
      exact hextract
    · cases hunpack
  · cases hrun

/-- **Unpacking** the archive that was downloaded. -/
theorem staged_of_extract {archive : Path} (h : Beside t dir m fs₀ fs) (hnames : ∀ n ∈ dir ++ [t], IsName n)
    (hcontent : fs.content archive = .ok bytes)
    (hempty : ∀ xs, fs.node? (m ++ [t] ++ "unpacked" :: xs) = none) (hentries : Zip.entries bytes = .ok all)
    (hrun : (extract archive ⟨.root, dir ++ [t] ++ ["unpacked"]⟩).runOn fs = (.ok (), fs')) :
    Staged bytes all t dir m fs₀ fs' := by
  obtain ⟨fs₁, read, hmade, hread, hextract⟩ := runOn_extract_ok hrun
  obtain ⟨hbeside, hgains, hplace, hdir, hnothing⟩ := beside_of_makeDirectories h hnames hempty hmade
  obtain rfl := Except.ok.inj (hread.symm.trans (hgains.content hcontent))
  have hparts : ∀ n ∈ dir ++ [t] ++ ["unpacked"], IsName n := by
    intro n hn
    rcases List.mem_append.1 hn with hn | hn
    · exact hnames n hn
    · rw [List.mem_singleton.1 hn]
      decide
  -- the path of the directory passes nothing that is in it
  have hroute : Route (fun l => ¬ Zip.Within (m ++ [t] ++ ["unpacked"]) l) fs₁
      ⟨.root, dir ++ [t] ++ ["unpacked"]⟩ (m ++ [t] ++ ["unpacked"]) := by
    refine route_of_way hplace fun l hl => ?_
    rintro ⟨x, xs, rfl⟩
    rcases guide?_of_mem_walkWay _ _ (place_eq_ok_iff.1 hplace).2.2 hl with hguide | heq
    · rw [guide?, hnothing] at hguide
      exact hguide rfl
    · simp at heq
  have hunpacked := Zip.unpacked_of_extract hbeside.sound hroute (isDirectoryAt_iff.2 hdir) hnothing hparts
    (by simp) hentries hextract
  have hwithin : ∀ l, ¬ Zip.Within (m ++ [t]) l → ¬ Zip.Within (m ++ [t] ++ ["unpacked"]) l := by
    rintro l hl ⟨x, xs, rfl⟩
    exact hl ⟨"unpacked", x :: xs, by simp⟩
  have hlinks : ∀ l link, fs'.node? l = some (.link link) → fs₁.node? l = some (.link link) := by
    intro l link hlink
    by_cases hl : Zip.Within (m ++ [t] ++ ["unpacked"]) l
    · obtain ⟨x, xs, rfl⟩ := hl
      rw [hunpacked.inside] at hlink
      exact absurd hlink (Zip.holds_ne_link _ _ _ _)
    · rw [← hunpacked.outside l hl, hlink]
  have hafter := hbeside.change hunpacked.sound hunpacked.workingDirectory
    (fun l hl => hunpacked.outside l (hwithin l hl)) hlinks
  refine ⟨hafter, hunpacked.readable, ?_, fun x xs => ?_⟩
  · have := (hunpacked.outside _ (Zip.not_within_self _)).trans hdir
    simpa using this
  · have := hunpacked.inside x xs
    rw [Zip.holds_chosen] at this
    simpa using this

end CrossBuild.Fetch
