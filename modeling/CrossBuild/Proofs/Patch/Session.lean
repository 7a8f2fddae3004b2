import CrossBuild.Proofs.Patch.Guarded

/-!
# Patching sessions

A session patches files and restores them, in any order, and may lose its ledger at any time and
start with a new one. Whatever it did, the backups that exist hold the first bytes of their files,
and restoring at the end gives every file its first bytes back.
-/

namespace CrossBuild

open FileSystem CrossBuild.Task

/-- A step of a session: patching a file, restoring all files, or starting with a new ledger. -/
inductive PatchStep
  | patch (p : Path) (patches : List Patch)
  | restore
  | renew
  deriving DecidableEq, Repr

namespace PatchStep

/-- Whether a step patches only some files. -/
def IsAmong (paths : List Path) : PatchStep → Prop
  | .patch p _ => p ∈ paths
  | .restore | .renew => True

/-- The state that a step leaves, whether or not it fails. -/
def after (paths : List Path) (s : PatchState) : PatchStep → PatchState
  | .patch p patches => ((Ledger.patchFile p patches).runOn s).2
  | .restore => (Ledger.restore.runOn s).2
  | .renew =>
    match Ledger.ofPaths paths with
    | .ok ledger => { s with ledger }
    | .error _ => s

end PatchStep

section
variable {vault : List Deposit} {paths : List Path} {s : PatchState}

theorem Guarded.after (hv : VaultOf vault paths) (h : Guarded vault paths s) {step : PatchStep}
    (hstep : step.IsAmong paths) : Guarded vault paths (step.after paths s) := by
  cases step with
  | patch p patches => exact (h.patchFile hv hstep patches).1
  | restore =>
    obtain ⟨restored, s', hrun, hguarded, -⟩ := h.restore hv
    show Guarded vault paths (Ledger.restore.runOn s).2
    rw [hrun]
    exact hguarded
  | renew =>
    unfold PatchStep.after
    rcases hledger : Ledger.ofPaths paths with f | ledger
    · exact h
    · exact ⟨h.stored, Ledger.covers_ofPaths hledger⟩

theorem Guarded.foldl (hv : VaultOf vault paths) (steps : List PatchStep)
    (hsteps : ∀ step ∈ steps, step.IsAmong paths) :
    ∀ s, Guarded vault paths s → Guarded vault paths (steps.foldl (PatchStep.after paths) s) := by
  induction steps with
  | nil => intro s h; exact h
  | cons step steps ih =>
    intro s h
    rw [List.foldl_cons]
    exact ih (fun st hst => hsteps st (by simp [hst])) _ (h.after hv (hsteps step (by simp)))

end

/-! ## Ordinary files -/

/-- Ordinary files without backups, each under one path. -/
structure Unpatched (fs : FileSystem) (paths : List Path) : Prop where
  files : ∀ p ∈ paths, ∃ l b x, fs.lookup false p = .ok (l, .file b x)
  backups : ∀ p ∈ paths, ∀ q, Ledger.backupOf p = .ok q → fs.IsAbsent q
  distinct : ∀ p ∈ paths, ∀ q ∈ paths, ∀ l, fs.place false p = .ok l → fs.place false q = .ok l → p = q

/-- Where an unpatched file is, and where its backup would be: in the same directory. -/
theorem Unpatched.places {fs : FileSystem} {paths : List Path} (hs : fs.Sound)
    (hu : Unpatched fs paths) {p q : Path} (hp : p ∈ paths) (hq : Ledger.backupOf p = .ok q) :
    ∃ m n b x, (∀ follow, fs.place follow p = .ok (m ++ [n])) ∧
      (∀ follow, fs.place follow q = .ok (m ++ [n ++ ".bak"])) ∧
      fs.node? (m ++ [n]) = some (.file b x) ∧ fs.node? (m ++ [n ++ ".bak"]) = none := by
  obtain ⟨l, b, x, hfile⟩ := hu.files p hp
  have habsent := hu.backups p hp q hq
  obtain ⟨hplace, hnode⟩ := lookup_eq_ok_iff.1 hfile
  obtain ⟨init, n, hpath, rfl⟩ := Ledger.backupOf_ok hq
  have hdots : ¬ (n = "." ∨ n = "..") := by
    intro hn
    rw [hpath] at hplace
    have := hs.isDirectoryAt_of_dots hn hplace
    rw [isDirectoryAt_iff, hnode] at this
    cases this
  have hnul : '\x00' ∉ n.toList := by
    intro hc
    have := (Path.hasNul_iff p).2 ⟨n, by rw [hpath]; simp, hc⟩
    rw [hasNul_of_place hplace] at this
    cases this
  have hnames : ∀ k ∈ [n, n ++ ".bak"], k ≠ "." ∧ k ≠ ".." ∧ '\x00' ∉ k.toList := by
    intro k hk
    rcases List.mem_cons.1 hk with rfl | hk
    · exact ⟨fun h => hdots (.inl h), fun h => hdots (.inr h), hnul⟩
    · rw [List.mem_singleton.1 hk]
      have hlist : (n ++ ".bak").toList = n.toList ++ ['.', 'b', 'a', 'k'] := String.toList_append
      refine ⟨?_, ?_, ?_⟩
      · intro h
        have := congrArg (fun s => s.toList.length) h
        simp only [hlist, List.length_append] at this
        exact absurd this (by simp)
      · intro h
        have := congrArg (fun s => s.toList.length) h
        simp only [hlist, List.length_append] at this
        exact absurd this (by simp)
      · rw [hlist, List.mem_append]
        rintro (h | h)
        · exact hnul h
        · exact absurd h (by decide)
  have hall : ∀ k ∈ [n, n ++ ".bak"], fs.IsFileOrAbsent ⟨p.anchor, init ++ [k]⟩ := by
    intro k hk
    rcases List.mem_cons.1 hk with rfl | hk
    · rw [← hpath]
      exact .inl ⟨l, b, x, hfile⟩
    · rw [List.mem_singleton.1 hk]
      exact habsent.isFileOrAbsent
  rcases siblings_cases hnames hall with ⟨m, -, hm⟩ | hlost
  · obtain ⟨-, hplaces⟩ := hm n (by simp)
    obtain ⟨-, hbackups⟩ := hm (n ++ ".bak") (by simp)
    rw [← hpath] at hplaces
    have hl : l = m ++ [n] := by
      rw [hplaces] at hplace
      exact (Except.ok.inj hplace).symm
    exact ⟨m, n, b, x, hplaces, hbackups, hl ▸ hnode, habsent.node? (hbackups false)⟩
  · obtain ⟨f, hf, -⟩ := hlost n (by simp) false
    rw [← hpath, hplace] at hf
    cases hf

theorem Unpatched.storable {fs : FileSystem} {paths : List Path} (hs : fs.Sound)
    (hu : Unpatched fs paths) : Storable fs paths where
  placed p hp q hq := by
    obtain ⟨m, n, b, x, hplace, hbackup, hnode, hnone⟩ := hu.places hs hp hq
    refine .inl ⟨_, _, hplace, hbackup, isSpot_of_file hnode, isSpot_of_none hnone, ?_⟩
    intro heq
    rw [heq, hnone] at hnode
    cases hnode
  apart p hp p' hp' hne q q' hq hq' := by
    obtain ⟨m, n, b, x, hplace, hbackup, hnode, hnone⟩ := hu.places hs hp hq
    obtain ⟨m', n', b', x', hplace', hbackup', hnode', hnone'⟩ := hu.places hs hp' hq'
    have hfiles : m ++ [n] ≠ m' ++ [n'] := by
      intro heq
      exact hne (hu.distinct p hp p' hp' _ (hplace false) (heq ▸ hplace' false))
    have hpair : ∀ {r : Path}, r ∈ [p, q] → r = p ∨ r = q := by simp
    have hpair' : ∀ {r : Path}, r ∈ [p', q'] → r = p' ∨ r = q' := by simp
    intro r hr r' hr' l hl hl'
    rcases hpair hr with rfl | rfl <;> rcases hpair' hr' with rfl | rfl
    · rw [hplace true] at hl
      rw [hplace' true] at hl'
      exact hfiles ((Except.ok.inj hl).trans (Except.ok.inj hl').symm)
    · rw [hplace true] at hl
      rw [hbackup' true, ← Except.ok.inj hl] at hl'
      rw [← Except.ok.inj hl', hnone'] at hnode
      cases hnode
    · rw [hbackup true] at hl
      rw [hplace' true, ← Except.ok.inj hl] at hl'
      rw [Except.ok.inj hl', hnone] at hnode'
      cases hnode'
    · -- backups in one place are backups of one file
      rw [hbackup true] at hl
      rw [hbackup' true, ← Except.ok.inj hl] at hl'
      obtain ⟨rfl, hname⟩ := List.append_inj' (Except.ok.inj hl') rfl
      rw [List.cons.injEq] at hname
      have hn : n' = n := (String.append_left_inj ".bak").1 hname.1
      exact hfiles (by rw [hn])

/-- What there is to keep of an unpatched file is what it holds. -/
theorem Unpatched.deposit {fs : FileSystem} {paths : List Path} (hs : fs.Sound)
    (hu : Unpatched fs paths) {p q : Path} (hp : p ∈ paths) (hq : Ledger.backupOf p = .ok q) :
    ∃ d ∈ vaultOf fs paths, ∃ b, d.source = p ∧ d.backup = q ∧ d.pristine = some b ∧
      fs.content p = .ok b := by
  obtain ⟨m, n, b, x, hplace, hbackup, hnode, hnone⟩ := hu.places hs hp hq
  have hb : fs.content p = .ok b := content_eq_ok_iff.2 ⟨_, x, hplace true, hnode⟩
  have hnothing : (fs.content q).toOption = none := by
    unfold content
    rw [lookup_of_none (hbackup true) hnone]
    rfl
  have hof := Deposit.of?_eq_some (hplace true) (hbackup true)
  refine ⟨_, mem_vaultOf.2 ⟨p, hp, q, hq, hof⟩, b, rfl, rfl, ?_, hb⟩
  rw [hnothing, hb]
  rfl

/-- **Patching is reversible over any history.** After any steps on ordinary files that had no
backups, every backup that exists holds the first bytes of its file, and restoring gives all files
their first bytes back and leaves no backup. -/
theorem session_reversible {w : Workspace} {paths : List Path} {ledger : Ledger}
    (hsound : w.files.Sound) (hfiles : Unpatched w.files paths)
    (hledger : Ledger.ofPaths paths = .ok ledger) {steps : List PatchStep}
    (hsteps : ∀ step ∈ steps, step.IsAmong paths) :
    let s := steps.foldl (PatchStep.after paths) ⟨w, ledger⟩
    (∀ p ∈ paths, ∀ q, Ledger.backupOf p = .ok q →
      s.work.files.IsAbsent q ∨ s.work.files.content q = w.files.content p) ∧
    ∃ restored s', Ledger.restore.runOn s = (.ok restored, s') ∧
      ∀ p ∈ paths, s'.work.files.content p = w.files.content p ∧
        ∀ q, Ledger.backupOf p = .ok q → s'.work.files.IsAbsent q := by
  intro s
  have hcovers := Ledger.covers_ofPaths hledger
  obtain ⟨hvault, hstored⟩ := (hfiles.storable hsound).vaultOf
  have hguarded : Guarded (vaultOf w.files paths) paths s :=
    Guarded.foldl hvault steps hsteps _ ⟨hstored, hcovers⟩
  obtain ⟨restored, s', hrun, hguarded', -, -, hrestored⟩ := hguarded.restore hvault
  refine ⟨?_, restored, s', hrun, fun p hp => ?_⟩
  · intro p hp q hq
    obtain ⟨d, hd, b, -, rfl, hpristine, hb⟩ := hfiles.deposit hsound hp hq
    obtain ⟨hplaced, hkept⟩ := hguarded.stored.safe d hd
    rcases hkept with ⟨b', x, hb', hnode⟩ | hback
    · right
      rw [hpristine] at hb'
      rw [hb, Option.some.inj hb']
      exact content_eq_ok_iff.2 ⟨_, x, hplaced.backup true, hnode⟩
    · exact .inl (Deposit.Restored.content hplaced hback).2
  · obtain ⟨e, he, hkey⟩ := List.mem_map.1 ((hcovers.keys p).2 hp)
    have hbackup : Ledger.backupOf p = .ok e.2.backup := hkey ▸ (hcovers.sound e he).2
    obtain ⟨d, hd, b, rfl, hd', hpristine, hb⟩ := hfiles.deposit hsound hp hbackup
    obtain ⟨hcontent, habsent⟩ := (hrestored d hd).content (hguarded'.stored.safe d hd).1
    refine ⟨?_, fun q hq => ?_⟩
    · rw [hpristine] at hcontent
      rw [hb]
      rcases hc : s'.work.files.content d.source with f | b' <;> rw [hc] at hcontent
      · cases hcontent
      · rw [Option.some.inj hcontent]
    · rw [hbackup] at hq
      rw [← Except.ok.inj hq, ← hd']
      exact habsent

/-- Two files side by side; the second one is no text. -/
def FileSystem.twoFiles : FileSystem where
  nodes := [(["a.c"], .file (.ofString "a") false), (["b.c"], .file [0xff] false)]
  workingDirectory := []

theorem session_reversible_twoFiles :
    let steps := [.patch ⟨.root, ["a.c"]⟩ [{ marker := "m", insertion := "m", position := .front }],
      .renew, .patch ⟨.root, ["b.c"]⟩ [{ marker := "n", insertion := "n", anchor := some "absent" }],
      .patch ⟨.root, ["b.c"]⟩ [{ marker := "m", insertion := "m", position := .front }], .restore,
      .patch ⟨.root, ["a.c"]⟩ []]
    ∃ ledger restored s', Ledger.ofPaths [⟨.root, ["a.c"]⟩, ⟨.root, ["b.c"]⟩] = .ok ledger ∧
      Ledger.restore.runOn (steps.foldl (PatchStep.after [⟨.root, ["a.c"]⟩, ⟨.root, ["b.c"]⟩])
        ⟨.ofFiles twoFiles, ledger⟩) = (.ok restored, s') ∧
      s'.work.files.content ⟨.root, ["a.c"]⟩ = .ok (.ofString "a") ∧
      s'.work.files.content ⟨.root, ["b.c"]⟩ = .ok [0xff] := by
  intro steps
  have ha : twoFiles.place false ⟨.root, ["a.c"]⟩ = .ok ["a.c"] := by rfl
  have hb : twoFiles.place false ⟨.root, ["b.c"]⟩ = .ok ["b.c"] := by rfl
  have hsound : twoFiles.Sound := sound_of_nodes (by decide)
  have hfiles : Unpatched twoFiles [⟨.root, ["a.c"]⟩, ⟨.root, ["b.c"]⟩] := by
    refine ⟨?_, ?_, ?_⟩
    · intro p hp
      rcases List.mem_pair.1 hp with rfl | rfl
      all_goals exact ⟨_, _, _, by rfl⟩
    · intro p hp q hq
      rcases List.mem_pair.1 hp with rfl | rfl
      all_goals
        rw [← Except.ok.inj hq]
        unfold IsAbsent
        rfl
    · intro p hp q hq l hl hl'
      rcases List.mem_pair.1 hp with rfl | rfl <;> rcases List.mem_pair.1 hq with rfl | rfl
      · rfl
      · exact absurd ((ha.symm.trans hl).trans (hl'.symm.trans hb)) (by decide)
      · exact absurd ((hb.symm.trans hl).trans (hl'.symm.trans ha)) (by decide)
      · rfl
  obtain ⟨ledger, hledger⟩ : ∃ ledger,
      Ledger.ofPaths [⟨.root, ["a.c"]⟩, ⟨.root, ["b.c"]⟩] = .ok ledger := ⟨_, rfl⟩
  have hsteps : ∀ step ∈ steps, step.IsAmong [⟨.root, ["a.c"]⟩, ⟨.root, ["b.c"]⟩] := by
    simp [steps, PatchStep.IsAmong]
  obtain ⟨-, restored, s', hrun, hcontent⟩ :=
    session_reversible (w := .ofFiles twoFiles) hsound hfiles hledger hsteps
  exact ⟨ledger, restored, s', hledger, hrun, (hcontent _ List.mem_cons_self).1,
    (hcontent _ (by simp)).1⟩

end CrossBuild
