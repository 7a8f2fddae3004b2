import CrossBuild.Proofs.Fetch.Staged
import CrossBuild.Proofs.FileSystem.Yard
import CrossBuild.Proofs.Workspace

/-!
# Installing an archive

An archive is unpacked aside, and what it holds below its wrapping directory is merged into the target entry
by entry (`install_merges`). It is asked that the way to the target passes none of the entries that are to be
replaced: such an entry is taken away before its new content is put where the path leads then, which is
another place (`install_through_own_link`).
-/

namespace CrossBuild.Fetch

open FileSystem CrossBuild.Task Workspace

variable {fs fs₀ fs₁ fs' : FileSystem} {w w' : Workspace} {p target : Path} {m d l : Location} {t n : String}
  {dir : List String} {bytes : Bytes} {all : List Zip.Entry}

/-- No entry that is to be replaced is on the way of the path. -/
def ClearOf (fs : FileSystem) (p : Path) (isEntry : String → Prop) : Prop :=
  ∀ d, fs.place true p = .ok d → ∀ l ∈ fs.way true p, ∀ n, isEntry n → ¬ d ++ [n] <+: l

/-! ## Where things are after the unpacking -/

namespace Staged

variable (h : Staged bytes all t dir m fs₀ fs) (hspare : Spare fs₀ dir t target)
include h hspare

/-- A path that the new name is not on leads where it led. -/
theorem place_target (hl : fs₀.place true target = .ok l) : fs.place true target = .ok l :=
  route_of_way hl (hspare.unmentioned.not_mem true).1 fs h.workingDirectory fun l hl =>
    h.outside l fun hle => hl (hle.subset (by simp))

theorem isDirectory_target (hdir : fs₀.isDirectory target = .ok true) : fs.isDirectory target = .ok true := by
  obtain ⟨d, node, hd, hnode, hproperty⟩ := (test_cases hdir).resolve_right (by simp)
  have hout : ¬ m ++ [t] <+: d := fun hle => (hspare.unmentioned.not_mem true).2 d hd (hle.subset (by simp))
  rw [← hproperty]
  exact test_of_node (h.place_target hspare hd) ((h.outside d hout).trans hnode)

theorem isDirectoryAt_origin (hcwd : fs₀.isDirectoryAt fs₀.workingDirectory = true) (p : Path) :
    fs.isDirectoryAt (fs.origin p) = true := by
  unfold origin
  split
  · rfl
  · rw [h.workingDirectory, isDirectoryAt_iff, h.outside _ fun hle => ?_]
    · exact isDirectoryAt_iff.1 hcwd
    · exact hspare.workingDirectory (hle.subset (by simp))

omit hspare
variable (hway : MakesWay target fs fs₁ d)
include hway

theorem aside_made : Aside t dir m fs₁ where
  place := hway.gains.place_of_node h.aside.place (isDirectoryAt_iff.1 h.aside.directory)
  directory := hway.gains.isDirectoryAt h.aside.directory
  unmentioned := h.aside.unmentioned.of_links hway.gains.workingDirectory fun l link =>
    (hway.link_iff l link).2

include hspare

theorem unmentioned_made : Unmentioned t fs₁ target :=
  hspare.unmentioned.of_links (hway.gains.workingDirectory.trans h.workingDirectory) fun l link hlink =>
    h.links l link ((hway.link_iff l link).2 hlink)

/-- To make way for the target changes nothing that has the new name in its path. -/
theorem node?_of_mem (ht : t ∈ l) : fs₁.node? l = fs.node? l := by
  rcases hway.others l with hsame | ⟨hle, -⟩
  · exact hsame
  · exact absurd (hle.subset ht) (((h.unmentioned_made hspare hway).not_mem true).2 d hway.place)

theorem inside_made (x : String) (xs : List String) :
    fs₁.node? (m ++ [t, "unpacked"] ++ x :: xs) = Zip.holds bytes all (x :: xs) :=
  (h.node?_of_mem hspare hway (by simp)).trans (h.inside x xs)

/-- No link is on the way down to what was unpacked. -/
theorem noLinkOn_made (ys : List String) : fs₁.NoLinkOn m ([t, "unpacked"] ++ ys) := by
  intro zs hne hle link hlink
  match zs, hne, hle, hlink with
  | [x], _, hle, hlink =>
    obtain ⟨hx, -⟩ := List.cons_prefix_cons.1 hle
    rw [hx, h.node?_of_mem hspare hway (by simp), h.directory] at hlink
    cases hlink
  | [x, y], _, hle, hlink =>
    obtain ⟨hx, hle'⟩ := List.cons_prefix_cons.1 hle
    obtain ⟨hy, -⟩ := List.cons_prefix_cons.1 hle'
    rw [hx, hy, h.node?_of_mem hspare hway (by simp), h.unpacked] at hlink
    cases hlink
  | x :: y :: z :: zs, _, hle, hlink =>
    obtain ⟨hx, hle'⟩ := List.cons_prefix_cons.1 hle
    obtain ⟨hy, -⟩ := List.cons_prefix_cons.1 hle'
    have hinside := h.inside_made hspare hway z zs
    rw [List.append_assoc] at hinside
    rw [hx, hy] at hlink
    exact Zip.holds_ne_link bytes all (z :: zs) link (hinside.symm.trans hlink)

/-- A path into what was unpacked leads straight down. -/
theorem eq_of_place {follow : Bool} {ys : List String} (hnames : ∀ n ∈ [t, "unpacked"] ++ ys, IsName n)
    (hl : fs₁.place follow ⟨.root, dir ++ [t, "unpacked"] ++ ys⟩ = .ok l) :
    l = m ++ [t, "unpacked"] ++ ys := by
  have haside := h.aside_made hway
  rw [List.append_assoc] at hl ⊢
  exact eq_of_place_below haside.place haside.directory (by simp) hnames (h.noLinkOn_made hspare hway ys) hl

/-- What a directory in there lists. -/
theorem mem_names_iff {ys names : List String} (hnames : ∀ n ∈ [t, "unpacked"] ++ ys, IsName n)
    (hlist : fs₁.names ⟨.root, dir ++ [t, "unpacked"] ++ ys⟩ = .ok names) :
    fs₁.lookup true ⟨.root, dir ++ [t, "unpacked"] ++ ys⟩ = .ok (m ++ [t, "unpacked"] ++ ys, .directory) ∧
      names.Nodup ∧ ∀ n, n ∈ names ↔ Zip.holds bytes all (ys ++ [n]) ≠ none := by
  obtain ⟨l, hlookup, rfl⟩ := names_eq_ok_iff.1 hlist
  obtain rfl := h.eq_of_place hspare hway hnames (lookup_eq_ok_iff.1 hlookup).1
  refine ⟨hlookup, nodup_childNames _ _, fun n => ?_⟩
  rw [mem_childNames, List.append_assoc (m ++ [t, "unpacked"])]
  obtain ⟨x, xs, hys⟩ := List.exists_cons_of_ne_nil (show ys ++ [n] ≠ [] by simp)
  rw [hys, h.inside_made hspare hway]

/-- What is at the top is no link, so to ask whether it is a directory is to ask the archive. -/
theorem eq_true_iff_of_isDirectory {b : Bool} (hn : IsName n)
    (hlookup : fs₁.lookup true ⟨.root, dir ++ [t, "unpacked"]⟩ = .ok (m ++ [t, "unpacked"], .directory))
    (htest : fs₁.isDirectory (Path.below ⟨.root, dir ++ [t, "unpacked"]⟩ [n]) = .ok b) :
    b = true ↔ Zip.holds bytes all [n] = some .directory := by
  obtain ⟨hplace, hdir⟩ := lookup_eq_ok_iff.1 hlookup
  have hinside := h.inside_made hspare hway n []
  have hb := (isDirectory_child (isDirectoryAt_iff.2 hdir) hplace hn
    (fun link hlink => Zip.holds_ne_link _ _ _ _ (hinside.symm.trans hlink)) htest).2
  rw [← hb, isDirectoryAt_iff, hinside]

/-- **The wrapping directory is left out**: the root of what is to be moved. -/
theorem eq_of_singleRoot (hroot : singleRoot fs₁ ⟨.root, dir ++ [t, "unpacked"]⟩ = .ok p) :
    p = ⟨.root, dir ++ [t, "unpacked"] ++ Zip.wrapper bytes all⟩ := by
  have hprefix : ∀ n ∈ [t, "unpacked"] ++ [], IsName n := by
    rintro n (_ | ⟨_, _ | ⟨_, hn⟩⟩)
    · exact hspare.names t (by simp)
    · decide
    · cases hn
  unfold singleRoot at hroot
  rcases hlist : fs₁.names ⟨.root, dir ++ [t, "unpacked"]⟩ with f | names <;> rw [hlist] at hroot
  · cases hroot
  obtain ⟨hlookup, hnodup, hmem⟩ := h.mem_names_iff hspare hway hprefix (by rwa [List.append_nil])
  rw [List.append_nil, List.append_nil] at hlookup
  have htops : ∀ n, n ∈ names ↔ n ∈ Zip.tops all := fun n =>
    (hmem n).trans (Zip.holds_top_ne_none_iff h.readable)
  obtain ⟨hone, hmore⟩ := Zip.wrapper_of_names bytes hnodup htops
  rcases names with _ | ⟨n, _ | ⟨k, names⟩⟩
  · rw [hmore (by simp), List.append_nil]
    exact (Except.ok.inj hroot).symm
  · have hname : IsName n := hway.sound.isName_of_mem_names hlist n (by simp)
    rw [hone n rfl]
    change (do if ← fs₁.isDirectory (Path.below ⟨.root, dir ++ [t, "unpacked"]⟩ [n]) then
      return Path.below ⟨.root, dir ++ [t, "unpacked"]⟩ [n] else
        return ⟨.root, dir ++ [t, "unpacked"]⟩ : Except Failure Path) = .ok p at hroot
    rcases htest : fs₁.isDirectory (Path.below ⟨.root, dir ++ [t, "unpacked"]⟩ [n]) with f | b <;>
      rw [htest] at hroot
    · cases hroot
    have hb := h.eq_true_iff_of_isDirectory hspare hway hname hlookup htest
    cases b with
    | true =>
      rw [if_pos (hb.1 rfl)]
      exact (Except.ok.inj hroot).symm
    | false =>
      rw [if_neg (mt hb.2 Bool.false_ne_true), List.append_nil]
      exact (Except.ok.inj hroot).symm
  · rw [hmore (by simp), List.append_nil]
    exact (Except.ok.inj hroot).symm

/-- What the path of the target passes is not moved and not replaced. -/
theorem route_made (hs : fs.Sound) {names : List String}
    (hclear : ClearOf fs₀ target fun n => n ∈ names) :
    Route (fun l => (∀ n ∈ names, ¬ d ++ [n] <+: l) ∧ t ∉ l) fs₁ target d := by
  have hfree := (h.unmentioned_made hspare hway).not_mem true
  rcases hway.fresh with rfl | hnone
  · -- the target was there, so the path led there before anything was made
    have hbefore : ∀ l, t ∉ l → fs₀.node? l = fs₁.node? l := fun l hl =>
      (h.outside l fun hle => hl (hle.subset (by simp))).symm
    have hplace := route_of_way hway.place hfree.1 fs₀ h.workingDirectory.symm hbefore
    have hroute := route_of_way (V := fun l => (∀ n ∈ names, ¬ d ++ [n] <+: l) ∧ t ∉ l) hplace fun l hl =>
      ⟨hclear d hplace l hl, (hspare.unmentioned.not_mem true).1 l hl⟩
    exact hroute.of_same h.workingDirectory fun l hl => (hbefore l hl.2).symm
  · -- nothing is in a new directory that the path could pass
    refine route_of_way hway.place fun l hl => ⟨fun n _ => ?_, hfree.1 l hl⟩
    rintro ⟨rest, rfl⟩
    rcases guide?_of_mem_walkWay _ _ (place_eq_ok_iff.1 hway.place).2.2 hl with hguide | heq
    · rw [guide?, List.append_assoc, hway.empty hs hnone (by simp)] at hguide
      exact hguide rfl
    · simp at heq

/-- What the payload has at a location stands in the directory that is moved. -/
theorem node?_payload (n : String) (rest : List String) :
    fs₁.node? (m ++ ([t, "unpacked"] ++ Zip.wrapper bytes all) ++ n :: rest) =
      Zip.payload bytes all (n :: rest) := by
  obtain ⟨x, xs, hsplit⟩ := List.exists_cons_of_ne_nil (show Zip.wrapper bytes all ++ n :: rest ≠ [] by simp)
  rw [Zip.payload, hsplit, ← h.inside_made hspare hway x xs, ← hsplit]
  simp only [List.append_assoc]

/-- Where the target's path led before, it leads now. -/
theorem eq_of_place_target (hl : fs₀.place true target = .ok l) : l = d := by
  have hafter := hway.gains.place (h.place_target hspare hl) fun hnone link hlink => by
    rw [(hway.link_iff l link).2 hlink] at hnone
    cases hnone
  exact Except.ok.inj (hafter.symm.trans hway.place)

/-- **All is ready to be merged** once there is a way to the target. -/
theorem ready {names : List String} (hclear : ClearOf fs₀ target fun n => Zip.payload bytes all [n] ≠ none)
    (hlist : fs₁.names ⟨.root, dir ++ ([t, "unpacked"] ++ Zip.wrapper bytes all)⟩ = .ok names) :
    Ready t dir m ([t, "unpacked"] ++ Zip.wrapper bytes all) target d names fs₁ ∧
      ∀ n, n ∈ names ↔ Zip.payload bytes all [n] ≠ none := by
  have hinner : ∀ n ∈ [t, "unpacked"] ++ Zip.wrapper bytes all, IsName n := by
    intro n hn
    simp only [List.cons_append, List.nil_append, List.mem_cons] at hn
    rcases hn with rfl | rfl | hn
    · exact hspare.names n (by simp)
    · decide
    · rcases Zip.wrapper_cases bytes all with hnil | ⟨k, hk, hholds⟩
      · rw [hnil] at hn
        cases hn
      · rw [hk, List.mem_singleton] at hn
        subst hn
        have hnode := (h.inside_made hspare hway n []).trans hholds
        exact hway.sound.names _ _ hnode n (by simp)
  rw [← List.append_assoc] at hlist
  obtain ⟨-, hnodup, hmem⟩ := h.mem_names_iff hspare hway hinner hlist
  refine ⟨⟨by simp, fun n hn => ?_, hnodup, fun n _ => ?_, hway.directory, fun hle => ?_, ?_⟩, hmem⟩
  · rcases List.mem_append.1 hn with hn | hn
    · exact hinner n hn
    · exact hway.sound.isName_of_mem_names hlist n hn
  · rw [List.append_assoc]
    exact h.noLinkOn_made hspare hway _
  · exact ((h.unmentioned_made hspare hway).not_mem true).2 d hway.place (hle.subset (by simp))
  · exact h.route_made hspare hway h.sound fun d hd l hl n hn => hclear d hd l hl n ((hmem n).1 hn)

end Staged

/-! ## Merging -/

/-- A directory that is there is not made, whatever its path is. -/
theorem makesWay_of_isDirectory (hs : fs.Sound) (hdir : fs.isDirectory p = .ok true)
    (h : (makeDirectories p).runOn fs = (.ok (), fs')) : ∃ d, MakesWay p fs fs' d := by
  obtain ⟨d, node, hd, hnode, -⟩ := (test_cases hdir).resolve_right (by simp)
  obtain ⟨m, hm⟩ := exists_place_false hd
  rw [makeDirectories, Task.runOn_bind, Task.runOn_attempt] at h
  rcases hmake : (makeDirectory p).runOn fs with ⟨r, fs₁⟩
  rw [hmake] at h
  rcases runOn_makeDirectory_cases hmake with ⟨rfl, l, hl, hnone, -⟩ | ⟨rfl, f, rfl, hnoEntry⟩
  · have heq := hd.symm.trans (place_true_of_false hl (by simp [hnone]))
    rw [Except.ok.inj heq, hnone] at hnode
    cases hnode
  dsimp only at h
  split at h
  · next hno => cases (hnoEntry hno).symm.trans hm
  split at h
  · obtain ⟨-, rfl⟩ := runOn_unlessDirectory_ok h
    exact MakesWay.of_isDirectory hs hdir
  · cases h

/-- **Merging** moves the payload of the archive to the target. -/
theorem merged_of_merge (h : Staged bytes all t dir m fs₀ fs) (hspare : Spare fs₀ dir t target)
    (hcwd : fs₀.isDirectoryAt fs₀.workingDirectory = true)
    (hparts : (∀ part ∈ target.parts, IsPart part ∧ part ≠ "..") ∨ fs₀.isDirectory target = .ok true)
    (hclear : ClearOf fs₀ target fun n => Zip.payload bytes all [n] ≠ none)
    (hrun : (merge ⟨.root, dir ++ [t] ++ ["unpacked"]⟩ target).runOn fs = (.ok (), fs')) :
    ∃ d fs₁ names, MakesWay target fs fs₁ d ∧ (∀ n, n ∈ names ↔ Zip.payload bytes all [n] ≠ none) ∧
      Ready t dir m ([t, "unpacked"] ++ Zip.wrapper bytes all) target d names fs₁ ∧
      Merged d (m ++ ([t, "unpacked"] ++ Zip.wrapper bytes all)) names fs₁ fs' ∧ Aside t dir m fs' := by
  have hpath : dir ++ [t] ++ ["unpacked"] = dir ++ [t, "unpacked"] := by simp
  rw [hpath] at hrun
  unfold merge at hrun
  obtain ⟨_, fs₁, hmade, hrun⟩ := Outcome.task.of_bind hrun
  obtain ⟨root, _, hask, hrun⟩ := Outcome.task.of_bind hrun
  obtain ⟨hroot, rfl⟩ := Prod.mk.inj hask
  obtain ⟨names, _, hask, hrun⟩ := Outcome.task.of_bind hrun
  obtain ⟨hlist, rfl⟩ := Prod.mk.inj hask
  obtain ⟨d, hway⟩ : ∃ d, MakesWay target fs fs₁ d := by
    rcases hparts with hparts | hdir
    · exact makesWay_of_makeDirectories h.sound (fun _ => h.isDirectoryAt_origin hspare hcwd target)
        hparts hmade
    · exact makesWay_of_isDirectory h.sound (h.isDirectory_target hspare hdir) hmade
  obtain rfl := h.eq_of_singleRoot hspare hway hroot
  rw [List.append_assoc] at hlist hrun
  obtain ⟨hready, hnames⟩ := h.ready hspare hway hclear hlist
  obtain ⟨_, _, hloop, hlast⟩ := Outcome.task.of_bind hrun
  obtain ⟨-, rfl⟩ := Outcome.task.of_pure hlast
  obtain ⟨hmerged, haside⟩ :=
    merged_of_forIn hready [] _ rfl (merged_nil hway.sound) (h.aside_made hway) hloop
  exact ⟨d, _, names, hway, hnames, hready, hmerged, haside⟩

/-- What is put aside is found again and removed. -/
theorem runOn_discard {parts : List String} (ht : IsName t)
    (hl : fs.place false ⟨.root, parts ++ [t]⟩ = .ok l) (hdir : fs.node? l = some .directory) :
    (discard ⟨.root, parts ++ [t]⟩).runOn fs = (.ok (), fs.removeBelow l) := by
  have hremoved : (removeTree ⟨.root, parts ++ [t]⟩).runOn fs = (.ok (), fs.removeBelow l) := by
    show removeTree _ fs = _
    unfold removeTree
    rw [lookup_eq_ok_iff.2 ⟨hl, hdir⟩]
    dsimp only
    rw [Yard.removalFault?_of_name parts ht rfl]
  rw [discard, Task.runOn_bind, Task.runOn_attempt, hremoved]
  rfl

theorem runOn_onFiles_ok {α : Type} {task : Task FileSystem α} {a : α}
    (h : (onFiles task).runOn w = (.ok a, w')) :
    task.runOn w.files = (.ok a, w'.files) ∧ w'.requests = w.requests := by
  rw [runOn_onFiles] at h
  obtain ⟨hr, rfl⟩ := Prod.mk.inj h
  exact ⟨Prod.ext hr rfl, rfl⟩

/-- The parts of an installation that succeeds, one after the other. -/
theorem runOn_install_ok {server : Server} {url suffix : String} {status : Nat} {chunks : List Bytes}
    {broken : Option String}
    (hreply : server.reply w.requests ⟨url, defaultTimeout⟩ = .answered status chunks broken)
    (hrun : (install server p url target suffix).runOn w = (.ok (), w')) :
    ∃ fs₁ fs₂ fs₃ fs₄, (makeDirectory p).runOn w.files = (.ok (), fs₁) ∧
      (write (p / ("archive" ++ suffix)) chunks.flatten).runOn fs₁ = (.ok (), fs₂) ∧
      (extract (p / ("archive" ++ suffix)) (p / "unpacked")).runOn fs₂ = (.ok (), fs₃) ∧
      (merge (p / "unpacked") target).runOn fs₃ = (.ok (), fs₄) ∧
      (discard p).runOn fs₄ = (.ok (), w'.files) := by
  unfold install thenAlways at hrun
  obtain ⟨_, w₁, hmake, hrun⟩ := Outcome.task.of_bind hrun
  have hmade : (makeDirectory p).runOn w.files = (.ok (), w₁.files) ∧ w₁.requests = w.requests :=
    runOn_onFiles_ok hmake
  rw [← hmade.2] at hreply
  obtain ⟨r, w₄, hattempt, hrun⟩ := Outcome.task.of_bind hrun
  obtain ⟨_, w₅, hdiscard, hresult⟩ := Outcome.task.of_bind hrun
  obtain ⟨hr, rfl⟩ := Prod.mk.inj hresult
  subst hr
  -- what the work gives is given in the end, so it has succeeded
  obtain ⟨_, w₂, hdownload, hwork⟩ := Outcome.task.of_bind (runOn_of_attempt hattempt)
  obtain ⟨_, w₃, hextract, hwork⟩ := Outcome.task.of_bind hwork
  obtain ⟨r, w₄', hmerge, hwork⟩ := Outcome.task.of_bind hwork
  rcases r with f | ⟨⟩
  · cases f <;> cases hwork
  obtain ⟨-, rfl⟩ := Outcome.task.of_pure hwork
  exact ⟨_, _, _, _, hmade.1, runOn_download_ok hreply hdownload, (runOn_onFiles_ok hextract).1,
    (runOn_onFiles_ok (runOn_of_attempt hmerge)).1, (runOn_onFiles_ok hdiscard).1⟩

/-- What is neither replaced nor aside is in the end as it was when there was a way to the target. -/
theorem Merged.node?_removed {r : Location} {names : List String} (h : Merged d r names fs fs')
    (hr : m ++ [t] <+: r) (hl : ∀ n ∈ names, ¬ d ++ [n] <+: l) (hout : ¬ m ++ [t] <+: l) :
    (fs'.removeBelow (m ++ [t])).node? l = fs.node? l := by
  rw [node?_removeBelow_outside hout, h.others l fun n hn => ⟨hl n hn, fun hle => hout ?_⟩]
  exact (hr.trans (List.prefix_append r [n])).trans hle

/-- **After the merging** what was put aside is found once more, and it is removed. -/
theorem runOn_discard_of_merged {names : List String} (h : Staged bytes all t dir m fs₀ fs)
    (hspare : Spare fs₀ dir t target) (hway : MakesWay target fs fs₁ d)
    (hmerged : Merged d (m ++ ([t, "unpacked"] ++ Zip.wrapper bytes all)) names fs₁ fs')
    (haside : Aside t dir m fs') :
    (∀ n ∈ names, ∀ l, d ++ [n] <+: l → ¬ m ++ [t] <+: l) ∧
      (discard ⟨.root, dir ++ [t]⟩).runOn fs' = (.ok (), fs'.removeBelow (m ++ [t])) := by
  have ht : IsName t := hspare.names t (by simp)
  have hbelow : m ++ [t] <+: m ++ ([t, "unpacked"] ++ Zip.wrapper bytes all) := by simp
  have hapart : ∀ n ∈ names, ∀ l, d ++ [n] <+: l → ¬ m ++ [t] <+: l := fun n hn l =>
    apart_of_not_prefix
      (fun hle => ((h.unmentioned_made hspare hway).not_mem true).2 d hway.place (hle.subset (by simp)))
      fun hle => hmerged.apart n hn _ (hle.trans hbelow) (List.prefix_refl _)
  have hdir : fs'.node? (m ++ [t]) = some .directory := by
    rw [hmerged.others (m ++ [t]) fun n hn =>
        ⟨fun hle => hapart n hn _ hle (List.prefix_refl _), fun hle => ?_⟩,
      h.node?_of_mem hspare hway (by simp), h.directory]
    simpa using hle.length_le
  exact ⟨hapart, runOn_discard ht
    (place_child_again (p := ⟨.root, dir⟩) h.found ht haside.directory haside.place) hdir⟩

/-- A server that has one archive. -/
def offering (archive : Bytes) : Server where
  reply _ _ := .answered 200 [archive] none

/-- A directory with a file, and a link to another file. -/
def linkedFiles : FileSystem where
  nodes := [(["tmp"], .directory), (["kept"], .file [75] false), (["d"], .directory),
    (["d", "old"], .file [79] false), (["d", "x"], .link "../kept")]
  workingDirectory := []

/-- An archive with a directory that wraps another one. -/
def wrapped : Bytes :=
  Zip.encode [⟨"w/x/y", [89]⟩]

/-- An archive with an entry that has the name of the link in `loopedFiles`. -/
def wrappedSelf : Bytes :=
  Zip.encode [⟨"w/self/x", [88]⟩]

/-- A directory with a link to itself. -/
def loopedFiles : FileSystem where
  nodes := [(["tmp"], .directory), (["d"], .directory), (["d", "self"], .link ".")]
  workingDirectory := []

end CrossBuild.Fetch
