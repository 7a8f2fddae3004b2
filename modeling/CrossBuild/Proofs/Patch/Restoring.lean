import CrossBuild.Proofs.FileSystem.DeadEnds
import CrossBuild.Proofs.FileSystem.Faults
import CrossBuild.Proofs.Patch.Fold
import CrossBuild.Proofs.Patch.Guarded
import Mathlib.Data.List.Nodup

/-!
# Restoring is independent per file

Files are restored one after the other, and each as if it were the only one: a backup that can be
copied over its file is, and goes away, and a file with any other backup is left alone, whatever
happens to the rest. This takes files and backups that are apart, so that no copy lands on another
one of them, and no link that goes away with its file was the way to another one.
-/

namespace CrossBuild

open FileSystem CrossBuild.Task

variable {fs fs' fs₀ : FileSystem} {p q : Path} {r r' : PatchRecord}

/-! ## Copies -/

/-- When a file can be copied. -/
theorem runOn_copyFile_eq_ok_iff : ((copyFile p q).runOn fs).1 = .ok () ↔
    ∃ l m b x, fs.place true p = .ok l ∧ fs.node? l = some (.file b x) ∧
      fs.place true q = .ok m ∧ fs.IsSpot m ∧ l ≠ m := by
  constructor
  · intro h
    unfold copyFile at h
    rw [runOn_bind, runOn_ask] at h
    rcases hsame : fs.isSame p q with e | same <;> rw [hsame] at h
    · cases h
    dsimp only at h
    cases same with
    | true => cases h
    | false =>
      rw [if_neg (by simp), runOn_bind, runOn_ask] at h
      rcases hcontent : fs.content p with e | b <;> rw [hcontent] at h
      · cases h
      dsimp only at h
      unfold FileSystem.write at h
      rw [runOn_change] at h
      obtain ⟨l, x, hp, hl⟩ := content_eq_ok_iff.1 hcontent
      rcases hq : fs.place true q with e | m <;> rw [hq] at h
      · cases h
      dsimp only at h
      have hspot : fs.IsSpot m := by
        rcases hm : fs.node? m with _ | ⟨c, y⟩ | _ | t <;> rw [hm] at h
        · exact isSpot_of_none hm
        · exact isSpot_of_file hm
        · cases h
        · cases h
      refine ⟨l, m, b, x, hp, hl, rfl, hspot, ?_⟩
      rintro rfl
      unfold isSame at hsame
      rw [lookup_eq_ok_iff.2 ⟨hp, hl⟩, lookup_eq_ok_iff.2 ⟨hq, hl⟩] at hsame
      simp at hsame
  · rintro ⟨l, m, b, x, hp, hl, hq, hm, hne⟩
    obtain ⟨y, hrun⟩ := runOn_copyFile hp hl hq hm hne
    rw [hrun]

theorem lookup_error_file {follow : Bool} {f : Failure} (hnul : hasNul p = false)
    (h : fs.lookup follow p = .error f) : ∃ e, f = .file e := by
  refine (lookup_error h).1.resolve_right ?_
  rintro rfl
  unfold FileSystem.lookup at h
  rcases hp : fs.place follow p with f' | l <;> rw [hp] at h
  · obtain ⟨e, rfl⟩ := place_error_file hnul hp
    cases h
  · dsimp only at h
    split at h <;> cases h

theorem isSame_ok (hp : hasNul p = false) (hq : hasNul q = false) :
    ∃ same, fs.isSame p q = .ok same := by
  unfold isSame
  rcases hl : fs.lookup true p with f | ⟨l, node⟩ <;>
    rcases hm : fs.lookup true q with f' | ⟨m, node'⟩
  · obtain ⟨e, rfl⟩ := lookup_error_file hp hl
    obtain ⟨e', rfl⟩ := lookup_error_file hq hm
    exact ⟨_, rfl⟩
  · obtain ⟨e, rfl⟩ := lookup_error_file hp hl
    exact ⟨_, rfl⟩
  · obtain ⟨e', rfl⟩ := lookup_error_file hq hm
    exact ⟨_, rfl⟩
  · exact ⟨_, rfl⟩

theorem content_error_file (hp : hasNul p = false) {f : Failure} (h : fs.content p = .error f) :
    ∃ e, f = .file e := by
  unfold content at h
  split at h
  · cases h
  · cases h
    exact ⟨_, rfl⟩
  · next hlookup =>
    cases h
    exact lookup_error_file hp hlookup

theorem write_error_file (hp : hasNul p = false) {b : Bytes} {f : Failure}
    (h : ((FileSystem.write p b).runOn fs).1 = .error f) : ∃ e, f = .file e := by
  unfold FileSystem.write at h
  rw [runOn_change] at h
  rcases hplace : fs.place true p with f' | m <;> rw [hplace] at h
  · cases h
    exact place_error_file hp hplace
  · dsimp only at h
    split at h
    · cases h
    · next hwrite =>
      cases h
      split at hwrite <;> cases hwrite
      exact ⟨_, rfl⟩

/-- Copying between paths that can be handed to the system fails with an error of the system. -/
theorem copyFile_error_file (hp : hasNul p = false) (hq : hasNul q = false) {f : Failure}
    (h : ((copyFile p q).runOn fs).1 = .error f) : ∃ e, f = .file e := by
  obtain ⟨same, hsame⟩ := isSame_ok hp hq
  unfold copyFile at h
  rw [runOn_bind, runOn_ask, hsame] at h
  dsimp only at h
  split at h
  · cases h
    exact ⟨_, rfl⟩
  rw [runOn_bind, runOn_ask] at h
  rcases hcontent : fs.content p with f' | b <;> rw [hcontent] at h
  · cases h
    exact content_error_file hp hcontent
  · exact write_error_file hq h

theorem runOn_unlink_of_node {l : Location} {node : Node} (hp : fs.place false p = .ok l)
    (hl : fs.node? l = some node) (hdir : node ≠ .directory) :
    (unlink p).runOn fs = (.ok (), fs.remove l) := by
  unfold unlink
  rw [runOn_change, lookup_eq_ok_iff.2 ⟨hp, hl⟩]
  cases node with
  | directory => exact absurd rfl hdir
  | file | link => rfl

namespace Ledger

/-! ## Files that are apart -/

/-- Whether the backup of a file can be copied over it. -/
def restorable (fs : FileSystem) (r : PatchRecord) : Bool :=
  ((copyFile r.backup r.source).runOn fs).1.isOk

theorem restorable_iff : restorable fs r = true ↔
    ∃ l m b x, fs.place true r.backup = .ok l ∧ fs.node? l = some (.file b x) ∧
      fs.place true r.source = .ok m ∧ fs.IsSpot m ∧ l ≠ m := by
  rw [← runOn_copyFile_eq_ok_iff]
  unfold restorable
  rcases ((copyFile r.backup r.source).runOn fs).1 with f | u <;> simp [Except.isOk, Except.toBool]

/-- Two files and their backups are apart: none of the one is in the place of one of the other, and
none of the other that leads nowhere is looked up through a backup of the one that is a link. -/
structure Apart (fs : FileSystem) (r r' : PatchRecord) : Prop where
  places : ∀ q ∈ [r.source, r.backup], ∀ q' ∈ [r'.source, r'.backup], ∀ follow follow' l,
    fs.place follow q = .ok l → fs.place follow' q' ≠ .ok l
  links : ∀ l target, fs.place false r.backup = .ok l → fs.node? l = some (.link target) →
    ∀ q' ∈ [r'.source, r'.backup], ∀ follow f, fs.place follow q' = .error f →
      l ∉ fs.way follow q'

/-- A path leads where it led before, to what was there before. -/
structure Unaffected (fs fs' : FileSystem) (p : Path) : Prop where
  place : ∀ follow, (fs'.place follow p).mapError Failure.coarse =
    (fs.place follow p).mapError Failure.coarse
  node : ∀ follow l, fs.place follow p = .ok l → fs'.node? l = fs.node? l

namespace Unaffected

theorem symm (h : Unaffected fs fs' p) : Unaffected fs' fs p where
  place follow := (h.place follow).symm
  node follow l hl := (h.node follow l (place_of_congr (h.place follow).symm hl)).symm

/-- What is found at an unaffected path. -/
theorem lookup (h : Unaffected fs fs' p) (follow : Bool) :
    (fs'.lookup follow p).toOption = (fs.lookup follow p).toOption := by
  rcases hp : fs.place follow p with f | l
  · obtain ⟨f', hf', -⟩ := place_error_of_congr (h.place follow) hp
    rw [lookup_of_error hp, lookup_of_error hf']
    rfl
  · have hp' := place_of_congr (h.place follow) hp
    have hnode := h.node follow l hp
    rcases hl : fs.node? l with _ | node
    · rw [lookup_of_none hp hl, lookup_of_none hp' (hnode.trans hl)]
    · rw [lookup_eq_ok_iff.2 ⟨hp, hl⟩, lookup_eq_ok_iff.2 ⟨hp', hnode.trans hl⟩]

theorem isPresent (h : Unaffected fs fs' p) {b : Bool} (hb : fs.isPresent p = .ok b) :
    fs'.isPresent p = .ok b := by
  rcases test_cases hb with ⟨l, node, hp, hl, hnode⟩ | ⟨rfl, l, hp, hl⟩ | ⟨rfl, f, hf, habsent⟩
  · rw [← hnode]
    exact test_of_node (place_of_congr (h.place true) hp) ((h.node true l hp).trans hl)
  · exact test_of_none (place_of_congr (h.place true) hp) ((h.node true l hp).trans hl)
  · obtain ⟨f', hf', hmeans⟩ := place_error_of_congr (h.place true) hf
    exact test_of_absent hf' (hmeans.trans habsent)

end Unaffected

theorem restorable_of_unaffected (hs : Unaffected fs fs' r.source) (hb : Unaffected fs fs' r.backup)
    (h : restorable fs r = true) : restorable fs' r = true := by
  obtain ⟨l, m, b, x, hl, hnode, hm, hspot, hne⟩ := restorable_iff.1 h
  exact restorable_iff.2 ⟨l, m, b, x, place_of_congr (hb.place true) hl,
    (hb.node true l hl).trans hnode, place_of_congr (hs.place true) hm,
    (guide?_of_node?_eq (hs.node true m hm)).trans hspot, hne⟩

theorem restorable_congr (hs : Unaffected fs fs' r.source) (hb : Unaffected fs fs' r.backup) :
    restorable fs' r = restorable fs r :=
  Bool.eq_iff_iff.2 ⟨restorable_of_unaffected hs.symm hb.symm, restorable_of_unaffected hs hb⟩

/-! ## What was restored by now -/

/-- Whether the record is that of its key. -/
def IsOwn (e : Path × PatchRecord) : Prop :=
  e.2.source = e.1 ∧ backupOf e.1 = .ok e.2.backup

namespace IsOwn

variable {e : Path × PatchRecord}

/-- The path of a backup ends in a longer name than that of its file, in the same directory. -/
theorem paths (h : IsOwn e) : ∃ anchor init n, e.2.source = ⟨anchor, init ++ [n]⟩ ∧
    e.2.backup = ⟨anchor, init ++ [n ++ ".bak"]⟩ ∧ n ++ ".bak" ≠ "." ∧ n ++ ".bak" ≠ ".." ∧
      n ++ ".bak" ≠ n := by
  obtain ⟨init, n, hsource, hbackup⟩ := backupOf_ok h.2
  have hlength : (n ++ ".bak").toList.length = n.toList.length + 4 := by
    rw [String.toList_append, List.length_append]
    rfl
  have hne : ∀ t : String, t.toList.length < 4 ∨ t = n → n ++ ".bak" ≠ t := by
    rintro t ht heq
    rw [heq] at hlength
    rcases ht with ht | rfl <;> omega
  exact ⟨e.1.anchor, init, n, h.1.trans hsource, hbackup, hne "." (.inl (by decide)),
    hne ".." (.inl (by decide)), hne n (.inr rfl)⟩

/-- A backup that leads to a file is the file, or a link to it. -/
theorem place_backup {x : Location} (h : IsOwn e) (hx : fs.place true e.2.backup = .ok x) :
    ∃ k, fs.place false e.2.backup = .ok k ∧ k ≠ [] ∧
      (k = x ∨ ∃ target, fs.node? k = some (.link target)) := by
  obtain ⟨anchor, init, n, -, hbackup, hdot, hdots, -⟩ := h.paths
  rw [hbackup] at hx ⊢
  obtain ⟨links, d, -, hplace, -⟩ := place_last hdot hdots hx
  refine ⟨_, hplace, by simp, ?_⟩
  by_cases hlink : ∃ target, fs.node? (d ++ [n ++ ".bak"]) = some (.link target)
  · exact .inr hlink
  · have := place_true_of_false hplace fun target htarget => hlink ⟨target, htarget⟩
    exact .inl (Except.ok.inj (this.symm.trans hx))

end IsOwn

/-- What restoring a file does: the bytes of the backup go to the place of the file, and what stands
at the path of the backup goes away. -/
structure Restored (fs : FileSystem) (r : PatchRecord) (fs' : FileSystem) (m k : Location)
    (b : Bytes) : Prop where
  content : fs.content r.backup = .ok b
  source : fs.place true r.source = .ok m
  backup : fs.place false r.backup = .ok k
  workingDirectory : fs'.workingDirectory = fs.workingDirectory
  put : ∃ x, fs'.node? m = some (.file b x)
  gone : fs'.node? k = none
  guides : ∀ l, fs'.guide? l = fs.guide? l ∨ l = k ∧ ∃ target, fs.node? k = some (.link target)
  others : ∀ l, l ≠ m → l ≠ k → fs'.node? l = fs.node? l

theorem runOn_restoreFile {e : Path × PatchRecord} (hkey : IsOwn e)
    (hrestorable : restorable fs e.2 = true) :
    ∃ fs' m k b, (restoreFile e.2).runOn fs = (.ok (), fs') ∧ Restored fs e.2 fs' m k b := by
  obtain ⟨x, m, b, y, hx, hfile, hm, hspot, hne⟩ := restorable_iff.1 hrestorable
  obtain ⟨z, hcopy⟩ := runOn_copyFile hx hfile hm hspot hne
  obtain ⟨k, hk, hknil, hkcases⟩ := hkey.place_backup hx
  have hkm : k ≠ m := by
    rintro rfl
    rcases hkcases with rfl | ⟨target, hlink⟩
    · exact hne rfl
    · rw [IsSpot, guide?_eq_link_iff.2 hlink] at hspot
      cases hspot
  obtain ⟨node, hnode, hdir⟩ : ∃ node, fs.node? k = some node ∧ node ≠ .directory := by
    rcases hkcases with rfl | ⟨target, hlink⟩
    · exact ⟨_, hfile, by simp⟩
    · exact ⟨_, hlink, by simp⟩
  -- the copy changes the file alone, the removal what stands at the path of the backup
  have hput := refiled_put hspot b z
  have hunlink : (unlink e.2.backup).runOn (fs.put m (.file b z)) =
      (.ok (), (fs.put m (.file b z)).remove k) :=
    runOn_unlink_of_node (hput.place hk) ((hput.others k hkm).trans hnode) hdir
  have hrun : (restoreFile e.2).runOn fs = (.ok (), (fs.put m (.file b z)).remove k) := by
    rw [restoreFile, runOn_bind, hcopy]
    exact hunlink
  refine ⟨_, m, k, b, hrun, content_eq_ok_iff.2 ⟨x, y, hx, hfile⟩, hm, hk, rfl, ⟨z, ?_⟩, ?_,
    fun l => ?_, fun l hlm hlk => ?_⟩
  · rw [node?_remove_of_ne (Ne.symm hkm), node?_put fs hspot.ne_nil, if_pos rfl]
  · rw [node?_remove _ _ hknil, if_pos rfl]
  · rcases hkcases with rfl | hlink
    · have hspot₁ : (fs.put m (.file b z)).IsSpot k :=
        (hput.guides k).trans (isSpot_of_file hfile)
      exact .inl (((refiled_remove hspot₁).guides l).trans (hput.guides l))
    · by_cases hlk : l = k
      · exact .inr ⟨hlk, hlink⟩
      · exact .inl ((guide?_of_node?_eq (node?_remove_of_ne hlk)).trans (hput.guides l))
  · exact (node?_remove_of_ne hlk).trans (hput.others l hlm)

/-- What restoring some files one after the other has done: of each of them whose backup could be
copied the bytes of the backup are in the file, and the backup is gone; nothing else changed. -/
structure Restoration (fs₀ : FileSystem) (done : List (Path × PatchRecord)) (fs : FileSystem) :
    Prop where
  workingDirectory : fs.workingDirectory = fs₀.workingDirectory
  guides : ∀ l, fs.guide? l = fs₀.guide? l ∨ ∃ e ∈ done, restorable fs₀ e.2 = true ∧
    fs₀.place false e.2.backup = .ok l ∧ ∃ target, fs₀.node? l = some (.link target)
  others : ∀ l, fs.node? l = fs₀.node? l ∨ ∃ e ∈ done, restorable fs₀ e.2 = true ∧
    (fs₀.place true e.2.source = .ok l ∨ fs₀.place false e.2.backup = .ok l)
  restored : ∀ e ∈ done, restorable fs₀ e.2 = true → ∃ l m b x,
    fs₀.content e.2.backup = .ok b ∧ fs₀.place true e.2.source = .ok l ∧
      fs.node? l = some (.file b x) ∧ fs₀.place false e.2.backup = .ok m ∧ fs.node? m = none

namespace Restoration

variable {done : List (Path × PatchRecord)} {e : Path × PatchRecord}

theorem refl (fs : FileSystem) : Restoration fs [] fs where
  workingDirectory := rfl
  guides _ := .inl rfl
  others _ := .inl rfl
  restored _ he := by cases he

/-- A file that cannot be restored is left alone. -/
theorem skip (h : Restoration fs₀ done fs) (he : restorable fs₀ e.2 = false) :
    Restoration fs₀ (done ++ [e]) fs where
  workingDirectory := h.workingDirectory
  guides l := (h.guides l).imp_right (.imp fun _ => .imp_left (List.mem_append_left _))
  others l := (h.others l).imp_right (.imp fun _ => .imp_left (List.mem_append_left _))
  restored d hd hrestorable := by
    rcases List.mem_append.1 hd with hd | hd
    · exact h.restored d hd hrestorable
    · rw [List.mem_singleton.1 hd, he] at hrestorable
      cases hrestorable

/-- A path that leads anywhere and is looked up through a backup that can be restored and is a link
leads to where the backup stands, or leads to. -/
theorem place_of_mem_way {follow : Bool} {j l : Location} {target : String} (he : IsOwn e)
    (hrestorable : restorable fs e.2 = true) (hj : fs.place false e.2.backup = .ok j)
    (hlink : fs.node? j = some (.link target)) (hl : fs.place follow q = .ok l)
    (hmem : j ∈ fs.way follow q) : ∃ follow', fs.place follow' e.2.backup = .ok l := by
  obtain ⟨anchor, init, n, -, hbackup, hdot, hdots, -⟩ := he.paths
  obtain ⟨x, -, b, y, hx, hfile, -⟩ := restorable_iff.1 hrestorable
  rw [hbackup] at hj hx ⊢
  rcases eq_of_mem_way hdot hdots hlink hj hx ⟨b, y, hfile⟩ hl hmem with rfl | rfl
  · exact ⟨true, hx⟩
  · exact ⟨false, hj⟩

/-- A path that is apart from all files that were restored is unaffected. -/
theorem unaffected (h : Restoration fs₀ done fs) (hq : q ∈ [r.source, r.backup])
    (hapart : ∀ d ∈ done, restorable fs₀ d.2 = true → IsOwn d ∧ Apart fs₀ d.2 r) :
    Unaffected fs₀ fs q where
  place follow := by
    refine place_congr h.workingDirectory fun j hj => (h.guides j).resolve_right ?_
    rintro ⟨d, hd, hrestorable, hplace, target, hlink⟩
    obtain ⟨hown, hd⟩ := hapart d hd hrestorable
    rcases hl : fs₀.place follow q with f | l
    · exact hd.links j target hplace hlink q hq follow f hl hj
    · obtain ⟨follow', hl'⟩ := place_of_mem_way hown hrestorable hplace hlink hl hj
      exact hd.places _ (by simp) q hq follow' follow l hl' hl
  node follow l hl := by
    refine (h.others l).resolve_right ?_
    rintro ⟨d, hd, hrestorable, hplace⟩
    obtain ⟨-, hd⟩ := hapart d hd hrestorable
    rcases hplace with hplace | hplace
    · exact hd.places _ (by simp) q hq true follow _ hplace hl
    · exact hd.places _ (by simp) q hq false follow _ hplace hl

/-- **One file**: a backup that can be copied is copied over its file and removed. -/
theorem step (h : Restoration fs₀ done fs) (hs : Unaffected fs₀ fs e.2.source)
    (hb : Unaffected fs₀ fs e.2.backup) (hrestorable : restorable fs₀ e.2 = true)
    (hkey : IsOwn e) (hapart : ∀ d ∈ done, Apart fs₀ e.2 d.2) :
    ∃ fs', (restoreFile e.2).runOn fs = (.ok (), fs') ∧ Restoration fs₀ (done ++ [e]) fs' := by
  obtain ⟨fs', m, k, b, hrun, hone⟩ :=
    runOn_restoreFile hkey (restorable_of_unaffected hs hb hrestorable)
  have hm := place_of_congr (hs.symm.place true) hone.source
  have hk := place_of_congr (hb.symm.place false) hone.backup
  refine ⟨fs', hrun, hone.workingDirectory.trans h.workingDirectory, fun l => ?_, fun l => ?_,
    fun d hd hrestored => ?_⟩
  · rcases hone.guides l with hold | ⟨rfl, target, hlink⟩
    · rw [hold]
      exact (h.guides l).imp_right (.imp fun _ => .imp_left (List.mem_append_left _))
    · have hlink₀ := (hb.node false l hk).symm.trans hlink
      exact .inr ⟨e, by simp, hrestorable, hk, target, hlink₀⟩
  · by_cases hlm : l = m
    · exact .inr ⟨e, by simp, hrestorable, .inl (hlm ▸ hm)⟩
    by_cases hlk : l = k
    · exact .inr ⟨e, by simp, hrestorable, .inr (hlk ▸ hk)⟩
    rw [hone.others l hlm hlk]
    exact (h.others l).imp_right (.imp fun _ => .imp_left (List.mem_append_left _))
  · rcases List.mem_append.1 hd with hd | hd
    · obtain ⟨l, m', b', y', hb', hl, hlnode, hm', hmnode⟩ := h.restored d hd hrestored
      have hapart' := (hapart d hd).places
      have hkept : ∀ q' ∈ [d.2.source, d.2.backup], ∀ follow j, fs₀.place follow q' = .ok j →
          fs'.node? j = fs.node? j := by
        intro q' hq' follow j hj
        refine hone.others j ?_ ?_
        · rintro rfl
          exact hapart' _ (by simp) q' hq' true follow _ hm hj
        · rintro rfl
          exact hapart' _ (by simp) q' hq' false follow _ hk hj
      exact ⟨l, m', b', y', hb', hl, (hkept _ (by simp) true l hl).trans hlnode, hm',
        (hkept _ (by simp) false m' hm').trans hmnode⟩
    · obtain rfl := List.mem_singleton.1 hd
      obtain ⟨x, hput⟩ := hone.put
      obtain ⟨j, y, hj, hfile⟩ := content_eq_ok_iff.1 hone.content
      have hj₀ := place_of_congr (hb.symm.place true) hj
      have hfile₀ := (hb.node true j hj₀).symm.trans hfile
      exact ⟨m, k, b, x, content_eq_ok_iff.2 ⟨j, y, hj₀, hfile₀⟩, hm, hput, hk, hone.gone⟩

/-- A file that was restored is where it was, also where its path runs through links. -/
theorem place_source (h : Restoration fs₀ done fs) (hs : fs₀.Sound) (he : IsOwn e)
    (hrestorable : restorable fs₀ e.2 = true)
    (hapart : ∀ d ∈ done, restorable fs₀ d.2 = true → IsOwn d ∧ (d = e ∨ Apart fs₀ d.2 e.2))
    {follow : Bool} {l : Location} (hl : fs₀.place follow e.2.source = .ok l) :
    fs.place follow e.2.source = .ok l := by
  refine place_of_congr (place_congr h.workingDirectory fun j hj => ?_) hl
  refine (h.guides j).resolve_right ?_
  rintro ⟨d, hd, hrestorable', hj', target, hlink⟩
  obtain ⟨hown, rfl | hd⟩ := hapart d hd hrestorable'
  swap
  · obtain ⟨follow', hl'⟩ := place_of_mem_way hown hrestorable' hj' hlink hl hj
    exact hd.places _ (by simp) _ (by simp) follow' follow l hl' hl
  -- its own backup is a link to another file, which the path of the file does not take
  obtain ⟨x, m, b, y, hx, hfile, hm, hspot, hne⟩ := restorable_iff.1 hrestorable
  have hmx : m ≠ x := Ne.symm hne
  obtain ⟨follow', hl'⟩ := place_of_mem_way he hrestorable hj' hlink hl hj
  have hjm : j ≠ m := by
    rintro rfl
    rw [IsSpot, guide?_eq_link_iff.2 hlink] at hspot
    cases hspot
  have hcases : l = x ∨ l = j := by
    cases follow' with
    | true => exact .inl (Except.ok.inj (hl'.symm.trans hx))
    | false => exact .inr (Except.ok.inj (hl'.symm.trans hj'))
  cases follow with
  | true =>
    obtain rfl : l = m := Except.ok.inj (hl.symm.trans hm)
    exact hcases.elim hmx (Ne.symm hjm)
  | false =>
    rcases hcases with rfl | rfl
    · have := place_true_of_false hl fun t ht => by
        rw [hfile] at ht
        cases ht
      exact hmx (Except.ok.inj (hm.symm.trans this))
    · -- the file and its backup have different names in one directory
      obtain ⟨anchor, init, n, hsource, hbackup, hdot, hdots, hn⟩ := he.paths
      rw [hsource] at hl hm
      rw [hbackup] at hj'
      obtain ⟨hdot', hdots'⟩ := hs.ne_dots_of_spot hm hspot
      obtain ⟨-, d, -, hd, -⟩ := place_last hdot' hdots' hl
      obtain ⟨-, d', -, hd', -⟩ := place_last hdot hdots hj'
      have heq : d ++ [n] = d' ++ [n ++ ".bak"] :=
        (Except.ok.inj (hl.symm.trans hd)).symm.trans (Except.ok.inj (hj'.symm.trans hd'))
      obtain ⟨-, hname⟩ := List.append_inj' heq rfl
      exact hn (List.cons.inj hname).1.symm

/-- A file that was restored holds the bytes of its backup, and the backup is gone. -/
theorem content_of_restored (h : Restoration fs₀ done fs) (hs : fs₀.Sound) (hmem : e ∈ done)
    (he : IsOwn e) (hrestorable : restorable fs₀ e.2 = true)
    (hapart : ∀ d ∈ done, restorable fs₀ d.2 = true → IsOwn d ∧ (d = e ∨ Apart fs₀ d.2 e.2)) :
    fs.content e.2.source = fs₀.content e.2.backup ∧ fs.IsAbsent e.2.backup := by
  obtain ⟨l, m, b, x, hb, hl, hfile, hm, hnone⟩ := h.restored e hmem hrestorable
  refine ⟨?_, ?_⟩
  · rw [hb]
    exact content_eq_ok_iff.2 ⟨l, x, h.place_source hs he hrestorable hapart hl, hfile⟩
  · obtain ⟨-, l', -, -, -, -, hl', hspot, -⟩ := restorable_iff.1 hrestorable
    have hplaces : ∀ follow k, fs₀.place follow e.2.source = .ok k →
        fs.place follow e.2.source = .ok k :=
      fun _ _ => h.place_source hs he hrestorable hapart
    obtain ⟨anchor, init, n, hsource, hbackup, hdot, hdots, -⟩ := he.paths
    rw [hsource] at hl' hplaces
    rw [hbackup] at hm ⊢
    obtain ⟨hdot', hdots'⟩ := hs.ne_dots_of_spot hl' hspot
    obtain ⟨-, d, -, hd, -⟩ := place_last hdot' hdots' hl'
    exact test_of_none
      (place_neighbour hdot' hdots' hdot hdots hd (hplaces false _ hd) hm) hnone

end Restoration

/-! ## Restoring one file after the other -/

/-- The ledger without the markers of some files. -/
def cleared (ledger : Ledger) (keys : List Path) : Ledger :=
  ledger.map fun e => if e.1 ∈ keys then (e.1, { e.2 with applied := [] }) else e

@[simp] theorem cleared_nil (ledger : Ledger) : ledger.cleared [] = ledger := by
  simp [cleared]

theorem cleared_cleared (ledger : Ledger) (ks ks' : List Path) :
    (ledger.cleared ks).cleared ks' = ledger.cleared (ks ++ ks') := by
  unfold cleared
  rw [List.map_map]
  refine List.map_congr_left fun e _ => ?_
  by_cases hk : e.1 ∈ ks <;> by_cases hk' : e.1 ∈ ks' <;> simp [hk, hk']

theorem ledger_clear (p : Path) (s : PatchState) :
    ((clear p).runOn s).2.ledger = s.ledger.cleared [p] := by
  refine List.map_congr_left fun e _ => ?_
  by_cases he : e.1 = p <;> simp [he]

theorem IsOwn.hasNul {e : Path × PatchRecord} (h : IsOwn e) (hnul : hasNul e.2.backup = false) :
    hasNul e.2.source = false := by
  obtain ⟨anchor, init, n, hsource, hbackup, -⟩ := h.paths
  by_contra hc
  rw [Bool.not_eq_false, hsource, Path.hasNul_iff] at hc
  obtain ⟨part, hpart, hmem⟩ := hc
  have : FileSystem.hasNul e.2.backup = true := by
    rw [hbackup, Path.hasNul_iff]
    rcases List.mem_append.1 hpart with hpart | hpart
    · exact ⟨part, List.mem_append_left _ hpart, hmem⟩
    · refine ⟨n ++ ".bak", by simp, ?_⟩
      rw [String.toList_append]
      exact List.mem_append_left _ (List.mem_singleton.1 hpart ▸ hmem)
  rw [hnul] at this
  cases this

theorem isPresent_of_restorable (h : restorable fs r = true) :
    fs.isPresent r.backup = .ok true := by
  obtain ⟨l, -, b, x, hl, hfile, -⟩ := restorable_iff.1 h
  exact test_of_node hl hfile

/-- A backup that is there and cannot be copied gives an error of the system and changes nothing. -/
theorem restoreFile_error {e : Path × PatchRecord} (he : IsOwn e)
    (hpresent : fs.isPresent e.2.backup = .ok true) (h : restorable fs e.2 = false) :
    ∃ err, (restoreFile e.2).runOn fs = (.error (.file err), fs) := by
  rcases hcopy : ((copyFile e.2.backup e.2.source).runOn fs).1 with f | u
  · obtain ⟨l, node, hl, -⟩ := (test_cases hpresent).resolve_right (by simp)
    have hnul := hasNul_of_place hl
    obtain ⟨err, rfl⟩ := copyFile_error_file hnul (he.hasNul hnul) hcopy
    refine ⟨err, ?_⟩
    unfold restoreFile
    rw [runOn_bind, runOn_copyFile_error hcopy]
  · unfold restorable at h
    rw [hcopy] at h
    cases h

/-- A file whose backup cannot be copied is reported, and the next one comes. -/
theorem runOn_restoreEach_failed {record : PatchRecord} {s : PatchState} {e : FileError}
    {fs' : FileSystem} (key : Path) (entries : List (Path × PatchRecord))
    (h : s.work.files.isPresent record.backup = .ok true)
    (hrestore : (restoreFile record).runOn s.work.files = (.error (.file e), fs')) :
    ∃ s₁ : PatchState, s₁.work.files = fs' ∧ s₁.ledger = s.ledger ∧
      (restoreEach ((key, record) :: entries)).runOn s = (restoreEach entries).runOn s₁ := by
  let s₀ : PatchState := { s with work := { s.work with files := fs' } }
  let report : Task PatchState Unit :=
    liftM (Workspace.warning (s!"Could not restore {record.source}: " ++ e.message))
  refine ⟨(report.runOn s₀).2, rfl, rfl, ?_⟩
  rw [restoreEach, runOn_bind, PatchState.runOn_liftM, Workspace.runOn_look, h]
  dsimp only
  rw [if_neg (by simp), runOn_bind, runOn_attempt, PatchState.runOn_liftM, Workspace.runOn_onFiles,
    hrestore]
  dsimp only
  rw [runOn_bind]
  rfl

section
variable {all : Ledger}

/-- Files and backups that restoring can tell apart: every record is that of its key and no other
one has the key, different files are apart, and of each backup it can be told whether it is
there. -/
structure Separable (fs : FileSystem) (all : Ledger) : Prop where
  own : ∀ e ∈ all, IsOwn e
  keys : (all.map Prod.fst).Nodup
  apart : ∀ d ∈ all, ∀ e ∈ all, d.1 ≠ e.1 → Apart fs d.2 e.2
  asked : ∀ e ∈ all, ∃ b, fs.isPresent e.2.backup = .ok b

/-- **Restoring does not fail**, and restores the files whose backups can be copied over them. -/
theorem runOn_restoreEach_separable (hall : Separable fs₀ all) (entries : Ledger) :
    ∀ (done : Ledger) (s : PatchState), done ++ entries = all → Restoration fs₀ done s.work.files →
      ∃ s', (restoreEach entries).runOn s =
          (.ok ((entries.filter fun e => restorable fs₀ e.2).map fun e => e.2.source), s') ∧
        s'.ledger = s.ledger.cleared ((entries.filter fun e => restorable fs₀ e.2).map Prod.fst) ∧
        Restoration fs₀ all s'.work.files := by
  induction entries with
  | nil =>
    intro done s hsplit h
    rw [List.append_nil] at hsplit
    exact ⟨s, rfl, (cleared_nil s.ledger).symm, hsplit ▸ h⟩
  | cons e rest ih =>
    intro done s hsplit h
    have hmem : e ∈ all := hsplit ▸ by simp
    have hdone : ∀ d ∈ done, d ∈ all ∧ d.1 ≠ e.1 := by
      intro d hd
      have hkeys := hall.keys
      rw [← hsplit, List.map_append, List.nodup_append] at hkeys
      exact ⟨hsplit ▸ List.mem_append_left _ hd,
        hkeys.2.2 d.1 (List.mem_map_of_mem hd) e.1 (by simp)⟩
    have hapart : ∀ d ∈ done, restorable fs₀ d.2 = true → IsOwn d ∧ Apart fs₀ d.2 e.2 :=
      fun d hd _ => ⟨hall.own d (hdone d hd).1, hall.apart d (hdone d hd).1 e hmem (hdone d hd).2⟩
    have hsource := h.unaffected (q := e.2.source) (by simp) hapart
    have hbackup := h.unaffected (q := e.2.backup) (by simp) hapart
    obtain ⟨present, hpresent⟩ := hall.asked e hmem
    replace hpresent := hbackup.isPresent hpresent
    have hsplit' : (done ++ [e]) ++ rest = all := by rw [List.append_assoc]; exact hsplit
    rcases hrestorable : restorable fs₀ e.2 with _ | _
    · rw [List.filter_cons_of_neg (by simp [hrestorable])]
      cases present with
      | false =>
        obtain ⟨s', hrun, hledger, hend⟩ := ih (done ++ [e]) s hsplit' (h.skip hrestorable)
        exact ⟨s', (runOn_restoreEach_skip rest hpresent).trans hrun, hledger, hend⟩
      | true =>
        obtain ⟨err, hrestore⟩ := restoreFile_error (hall.own e hmem) hpresent
          ((restorable_congr hsource hbackup).trans hrestorable)
        obtain ⟨s₁, hfiles, hledger₁, hstep⟩ :=
          runOn_restoreEach_failed e.1 rest hpresent hrestore
        obtain ⟨s', hrun, hledger, hend⟩ :=
          ih (done ++ [e]) s₁ hsplit' (hfiles ▸ h.skip hrestorable)
        exact ⟨s', hstep.trans hrun, hledger₁ ▸ hledger, hend⟩
    · rw [List.filter_cons_of_pos (by simp [hrestorable])]
      obtain ⟨fs', hrestore, hnext⟩ := h.step hsource hbackup hrestorable (hall.own e hmem)
        fun d hd => hall.apart e hmem d (hdone d hd).1 (Ne.symm (hdone d hd).2)
      have hpresent' := isPresent_of_restorable
        (restorable_of_unaffected hsource hbackup hrestorable)
      obtain ⟨s₁, hfiles, -, hledger₁, hstep⟩ :=
        runOn_restoreEach_restored e.1 rest hpresent' hrestore
      obtain ⟨s', hrun, hledger, hend⟩ := ih (done ++ [e]) s₁ hsplit' (hfiles ▸ hnext)
      refine ⟨s', hstep _ s' hrun, ?_, hend⟩
      rw [hledger, hledger₁, ledger_clear, cleared_cleared]
      rfl

/-! ## Each file as if it were the only one -/

/-- How restoring ends for one file: the bytes of a backup that can be copied are in the file, the
backup is gone, no markers are left and the file is told of; any other file is as it was. -/
structure RestoredAlone (fs₀ : FileSystem) (e : Path × PatchRecord) (restored : List Path)
    (s : PatchState) : Prop where
  put : restorable fs₀ e.2 = true →
    s.work.files.content e.2.source = fs₀.content e.2.backup ∧ s.work.files.IsAbsent e.2.backup ∧
      (e.1, { e.2 with applied := [] }) ∈ s.ledger ∧ restored.count e.1 = 1
  left : restorable fs₀ e.2 = false →
    (∀ p ∈ [e.2.source, e.2.backup], ∀ follow,
      (s.work.files.lookup follow p).toOption = (fs₀.lookup follow p).toOption) ∧
      e ∈ s.ledger ∧ e.1 ∉ restored

theorem restoredAlone_of_restoration (hs : fs₀.Sound) (hall : Separable fs₀ all)
    {e : Path × PatchRecord} (he : e ∈ all) {s : PatchState}
    (hledger : s.ledger = all.cleared ((all.filter fun e => restorable fs₀ e.2).map Prod.fst))
    (h : Restoration fs₀ all s.work.files) :
    RestoredAlone fs₀ e ((all.filter fun e => restorable fs₀ e.2).map Prod.fst) s := by
  have heq : ∀ d ∈ all, d.1 = e.1 → d = e := by
    intro d hd hkey
    exact List.inj_on_of_nodup_map hall.keys hd he hkey
  have hmem : e.1 ∈ (all.filter fun e => restorable fs₀ e.2).map Prod.fst ↔
      restorable fs₀ e.2 = true := by
    rw [List.mem_map]
    constructor
    · rintro ⟨d, hd, hkey⟩
      obtain ⟨hd, hrestorable⟩ := List.mem_filter.1 hd
      exact heq d hd hkey ▸ hrestorable
    · exact fun hrestorable => ⟨e, List.mem_filter.2 ⟨he, hrestorable⟩, rfl⟩
  have hentry : (if e.1 ∈ (all.filter fun e => restorable fs₀ e.2).map Prod.fst then
      (e.1, { e.2 with applied := [] }) else e) ∈ s.ledger := by
    rw [hledger]
    exact List.mem_map_of_mem he
  refine ⟨fun hrestorable => ?_, fun hleft => ?_⟩
  · rw [if_pos (hmem.2 hrestorable)] at hentry
    have hapart : ∀ d ∈ all, restorable fs₀ d.2 = true → IsOwn d ∧ (d = e ∨ Apart fs₀ d.2 e.2) :=
      fun d hd _ => ⟨hall.own d hd, or_iff_not_imp_left.2 fun hne =>
        hall.apart d hd e he fun hkey => hne (heq d hd hkey)⟩
    obtain ⟨hcontent, habsent⟩ := h.content_of_restored hs he (hall.own e he) hrestorable hapart
    refine ⟨hcontent, habsent, hentry, List.count_eq_one_of_mem ?_ (hmem.2 hrestorable)⟩
    exact hall.keys.sublist (List.filter_sublist.map _)
  · have hnot : ¬ restorable fs₀ e.2 = true := by simp [hleft]
    rw [if_neg fun hin => hnot (hmem.1 hin)] at hentry
    refine ⟨fun p hp follow => (h.unaffected hp fun d hd hrestorable => ?_).lookup follow, hentry,
      fun hin => hnot (hmem.1 hin)⟩
    refine ⟨hall.own d hd, hall.apart d hd e he fun hkey => ?_⟩
    exact hnot (heq d hd hkey ▸ hrestorable)

theorem Separable.single (h : Separable fs all) {e : Path × PatchRecord} (he : e ∈ all) :
    Separable fs [e] where
  own d hd := h.own d (List.mem_singleton.1 hd ▸ he)
  keys := List.nodup_singleton _
  apart d hd d' hd' hne := by
    rw [List.mem_singleton.1 hd, List.mem_singleton.1 hd'] at hne
    exact absurd rfl hne
  asked d hd := h.asked d (List.mem_singleton.1 hd ▸ he)

theorem restore_ends {s : PatchState} (hs : s.work.files.Sound)
    (hall : Separable s.work.files s.ledger) :
    ∃ s', restore.runOn s =
        (.ok ((s.ledger.filter fun e => restorable s.work.files e.2).map Prod.fst), s') ∧
      ∀ e ∈ s.ledger, RestoredAlone s.work.files e
        ((s.ledger.filter fun e => restorable s.work.files e.2).map Prod.fst) s' := by
  obtain ⟨s', hrun, hledger, hend⟩ :=
    runOn_restoreEach_separable hall s.ledger [] s rfl (.refl _)
  have hsources : (s.ledger.filter fun e => restorable s.work.files e.2).map (fun e => e.2.source) =
      (s.ledger.filter fun e => restorable s.work.files e.2).map Prod.fst :=
    List.map_congr_left fun e he => (hall.own e (List.mem_filter.1 he).1).1
  refine ⟨s', ?_, fun e he => restoredAlone_of_restoration hs hall he hledger hend⟩
  unfold restore
  rw [runOn_bind, runOn_ask]
  exact hrun.trans (by rw [hsources])

end

/-- Files at the root under patching, with some markers noted for each. -/
def rootLedger (names : List String) : Ledger :=
  names.map fun n => (⟨.root, [n]⟩, ⟨⟨.root, [n]⟩, ⟨.root, [n ++ ".bak"]⟩, ["M"]⟩)

/-- A file with a backup, one with a directory in place of a backup, and one with a backup only. -/
def mixedBackups : FileSystem where
  nodes := [(["a.c"], .file (.ofString "A") false), (["a.c.bak"], .file (.ofString "a") false),
    (["b.c"], .file (.ofString "B") false), (["b.c.bak"], .directory),
    (["c.c.bak"], .file (.ofString "c") false)]
  workingDirectory := []

/-- A file with a backup, and one whose backup is a link to that backup. -/
def linkedBackups : FileSystem where
  nodes := [(["a.c"], .file (.ofString "A") false), (["a.c.bak"], .link "b.c.bak"),
    (["b.c"], .file (.ofString "B") false), (["b.c.bak"], .file (.ofString "b") false)]
  workingDirectory := []

end Ledger

end CrossBuild
