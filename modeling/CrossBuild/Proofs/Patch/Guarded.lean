import CrossBuild.Proofs.Patch.Vault

/-!
# Guarded files

What there is to keep for some files: the bytes of their backups, or their own. While a vault of it
is kept and a ledger has a record of every file, patching goes on and restoring gives everything
back.
-/

namespace CrossBuild

open FileSystem CrossBuild.Task

namespace Deposit

/-- What there is to keep for a file. -/
def of? (fs : FileSystem) (source backup : Path) : Option Deposit :=
  match fs.place true source, fs.place true backup with
  | .ok l, .ok m =>
    some ⟨source, backup, l, m, (fs.content backup).toOption <|> (fs.content source).toOption⟩
  | _, _ => none

variable {fs : FileSystem} {source backup : Path} {l m : Location} {d : Deposit}

theorem of?_eq_some (hs : fs.place true source = .ok l) (hb : fs.place true backup = .ok m) :
    of? fs source backup = some ⟨source, backup, l, m,
      (fs.content backup).toOption <|> (fs.content source).toOption⟩ := by
  unfold of?
  rw [hs, hb]

theorem of?_some (h : of? fs source backup = some d) :
    d.source = source ∧ d.backup = backup ∧ fs.place true source = .ok d.place ∧
      fs.place true backup = .ok d.backupPlace ∧
      d.pristine = ((fs.content backup).toOption <|> (fs.content source).toOption) := by
  unfold of? at h
  rcases hs : fs.place true source with f | l <;> rw [hs] at h
  · cases h
  rcases hb : fs.place true backup with f | m <;> rw [hb] at h
  · cases h
  cases h
  exact ⟨rfl, rfl, rfl, rfl, rfl⟩

theorem content_of_spot {p : Path} (hp : fs.place true p = .ok l) (hl : fs.IsSpot l) :
    (fs.node? l = none ∧ (fs.content p).toOption = none) ∨
      ∃ b x, fs.node? l = some (.file b x) ∧ fs.content p = .ok b := by
  rcases hl.cases with hnode | ⟨b, x, hnode⟩
  · refine .inl ⟨hnode, ?_⟩
    unfold content
    rw [lookup_of_none hp hnode]
    rfl
  · exact .inr ⟨b, x, hnode, content_eq_ok_iff.2 ⟨l, x, hp, hnode⟩⟩

/-- What there is to keep is kept at first: in the backup, or in the file if there is none. -/
theorem kept_of? (hs : ∀ follow, fs.place follow source = .ok l)
    (hb : ∀ follow, fs.place follow backup = .ok m) (hl : fs.IsSpot l) (hm : fs.IsSpot m)
    (hd : of? fs source backup = some d) : d.Placed fs ∧ d.Kept fs := by
  rw [of?_eq_some (hs true) (hb true)] at hd
  cases hd
  refine ⟨⟨hs, hb, hl, hm⟩, ?_⟩
  rcases content_of_spot (hb true) hm with ⟨hnone, hcontent⟩ | ⟨b, x, hnode, hcontent⟩
  · refine .inr ⟨hnone, ?_⟩
    unfold Pristine
    dsimp only
    rw [hcontent]
    rcases content_of_spot (hs true) hl with ⟨hnone', hcontent'⟩ | ⟨b, x, hnode', hcontent'⟩
    · rw [hcontent']
      exact hnone'
    · rw [hcontent']
      exact ⟨x, hnode'⟩
  · refine .inl ⟨b, x, ?_, hnode⟩
    dsimp only
    rw [hcontent]
    rfl

/-- A restored file has the bytes that were to be kept, and its backup is absent. -/
theorem Restored.content {fs' : FileSystem} (hp : d.Placed fs') (h : d.Restored fs') :
    (fs'.content d.source).toOption = d.pristine ∧ fs'.IsAbsent d.backup := by
  refine ⟨?_, test_of_none (hp.backup false) h.1⟩
  have hpristine := h.2
  unfold Pristine at hpristine
  rcases hd : d.pristine with _ | b <;> rw [hd] at hpristine
  · rcases content_of_spot (hp.source true) hp.spot with ⟨-, hnone⟩ | ⟨b, x, hnode, -⟩
    · exact hnone
    · rw [hpristine] at hnode
      cases hnode
  · obtain ⟨x, hnode⟩ := hpristine
    rw [content_eq_ok_iff.2 ⟨d.place, x, hp.source true, hnode⟩]
    rfl

end Deposit

/-! ## Ledgers of some files -/

namespace Ledger

theorem mem_assign {α β : Type} [DecidableEq α] {key : α} {value : β} {pairs : List (α × β)}
    {e : α × β} (h : e ∈ assign key value pairs) : e = (key, value) ∨ e ∈ pairs := by
  induction pairs with
  | nil => exact .inl (List.mem_singleton.1 h)
  | cons pair pairs ih =>
    obtain ⟨k, v⟩ := pair
    rw [assign] at h
    split at h
    · next hk =>
      rcases List.mem_cons.1 h with rfl | h
      · exact .inl (by rw [hk])
      · exact .inr (List.mem_cons_of_mem _ h)
    · rcases List.mem_cons.1 h with rfl | h
      · exact .inr List.mem_cons_self
      · exact (ih h).imp id (List.mem_cons_of_mem _)

theorem ofPaths_from {paths : List Path} : ∀ {acc ledger : Ledger}, acc.Sound →
    paths.foldlM (fun ledger p => do return assign p (← freshRecord p) ledger) acc = .ok ledger →
    ledger.Sound ∧ ∀ p, p ∈ ledger.map Prod.fst ↔ p ∈ acc.map Prod.fst ∨ p ∈ paths := by
  induction paths with
  | nil =>
    intro acc ledger hacc h
    rw [List.foldlM_nil] at h
    obtain rfl := Except.ok.inj h
    exact ⟨hacc, by simp⟩
  | cons q paths ih =>
    intro acc ledger hacc h
    rw [List.foldlM_cons] at h
    rcases hr : freshRecord q with f | record <;> rw [hr] at h
    · cases h
    obtain ⟨hsource, hbackup, -⟩ := freshRecord_ok hr
    have hnext : Ledger.Sound (assign q record acc) := by
      intro e he
      rcases mem_assign he with rfl | he
      · exact ⟨hsource, hbackup⟩
      · exact hacc e he
    obtain ⟨hsound, hkeys⟩ := ih hnext h
    refine ⟨hsound, fun p => ?_⟩
    rw [hkeys, map_fst_assign]
    split
    · next hq =>
      constructor
      · rintro (hp | hp)
        · exact .inl hp
        · exact .inr (List.mem_cons_of_mem q hp)
      · rintro (hp | hp)
        · exact .inl hp
        · rcases List.mem_cons.1 hp with rfl | hp
          · exact .inl hq
          · exact .inr hp
    · simp [or_assoc]

/-- A sound ledger with a record of each of some files and of nothing else. -/
structure Covers (ledger : Ledger) (paths : List Path) : Prop where
  sound : ledger.Sound
  keys : ∀ p, p ∈ ledger.map Prod.fst ↔ p ∈ paths

theorem covers_ofPaths {paths : List Path} {ledger : Ledger} (h : ofPaths paths = .ok ledger) :
    ledger.Covers paths := by
  obtain ⟨hsound, hkeys⟩ := ofPaths_from (fun e he => by cases he) h
  exact ⟨hsound, by simpa using hkeys⟩

theorem map_fst_of_outline {ledger ledger' : Ledger} (h : ledger'.outline = ledger.outline) :
    ledger'.map Prod.fst = ledger.map Prod.fst := by
  have hfst : ∀ l : Ledger, l.map Prod.fst = l.outline.map Prod.fst := by
    intro l
    unfold outline
    rw [List.map_map]
    rfl
  rw [hfst, hfst, h]

theorem Covers.of_outline {paths : List Path} {ledger ledger' : Ledger} (h : ledger.Covers paths)
    (ho : ledger'.outline = ledger.outline) : ledger'.Covers paths := by
  refine ⟨h.sound.of_outline ho, fun p => ?_⟩
  rw [map_fst_of_outline ho]
  exact h.keys p

theorem Covers.enter {paths : List Path} {ledger ledger' : Ledger} {p : Path} {record : PatchRecord}
    (h : ledger.Covers paths) (hp : p ∈ paths) (henter : enter ledger p = .ok (record, ledger')) :
    ledger'.Covers paths := by
  refine ⟨(h.sound.enter henter).1, fun q => ?_⟩
  rcases enter_cases henter with ⟨rfl, -⟩ | ⟨rfl, -⟩
  · exact h.keys q
  · rw [List.map_append, List.mem_append, h.keys q, List.map_singleton, List.mem_singleton]
    exact ⟨fun hq => hq.elim id fun hq => hq ▸ hp, .inl⟩

end Ledger

/-! ## Guarded files -/

/-- A vault for some files: its deposits are of those files, and apart from one another. -/
structure VaultOf (vault : List Deposit) (paths : List Path) : Prop where
  separate : Separate vault
  source : ∀ d ∈ vault, d.source ∈ paths ∧ Ledger.backupOf d.source = .ok d.backup

/-- The vault is kept, and every file that is anywhere is in it. -/
structure Stored (vault : List Deposit) (paths : List Path) (fs : FileSystem) : Prop where
  safe : Safe vault fs
  tracked : ∀ p ∈ paths, ∀ q, Ledger.backupOf p = .ok q → Tracked vault fs p q

theorem Stored.refiled {vault : List Deposit} {paths : List Path} {places : Location → Prop}
    {fs fs' : FileSystem} (h : Stored vault paths fs) (hr : Refiled places fs fs')
    (hsafe : Safe vault fs') : Stored vault paths fs' :=
  ⟨hsafe, fun p hp q hq => (h.tracked p hp q hq).refiled hr⟩

/-- What patching and restoring keep. -/
structure Guarded (vault : List Deposit) (paths : List Path) (s : PatchState) : Prop where
  stored : Stored vault paths s.work.files
  ledger : s.ledger.Covers paths

section
variable {vault : List Deposit} {paths : List Path} {s : PatchState}

theorem Guarded.restore (hv : VaultOf vault paths) (h : Guarded vault paths s) :
    ∃ restored s', Ledger.restore.runOn s = (.ok restored, s') ∧ Guarded vault paths s' ∧
      Refiled (InVault vault) s.work.files s'.work.files ∧
      s'.work.invocations = s.work.invocations ∧ ∀ d ∈ vault, d.Restored s'.work.files := by
  have htracked : ∀ e ∈ s.ledger, Tracked vault s.work.files e.2.source e.2.backup := by
    intro e he
    obtain ⟨hsource, hbackup⟩ := h.ledger.sound e he
    rw [hsource]
    exact h.stored.tracked e.1 ((h.ledger.keys e.1).1 (List.mem_map_of_mem he)) _ hbackup
  obtain ⟨restored, s', hrun, hres⟩ :=
    Ledger.runOn_restoreEach hv.separate s.ledger s h.stored.safe htracked
  refine ⟨restored, s', hrun, ?_, hres.refiled, hres.invocations, fun d hd => ?_⟩
  · exact ⟨h.stored.refiled hres.refiled hres.safe, h.ledger.of_outline hres.outline⟩
  · obtain ⟨hpath, hbackup⟩ := hv.source d hd
    obtain ⟨e, he, hkey⟩ := List.mem_map.1 ((h.ledger.keys d.source).2 hpath)
    obtain ⟨hsource', hbackup'⟩ := h.ledger.sound e he
    refine hres.restored d hd (.inr ⟨e, he, hsource'.trans hkey, ?_⟩)
    rw [hkey, hbackup] at hbackup'
    exact (Except.ok.inj hbackup').symm

theorem Guarded.patchFile (hv : VaultOf vault paths) (h : Guarded vault paths s) {p : Path}
    (hp : p ∈ paths) (patches : List Patch) :
    Guarded vault paths ((Ledger.patchFile p patches).runOn s).2 ∧
      Refiled (InVault vault) s.work.files
        ((Ledger.patchFile p patches).runOn s).2.work.files := by
  rcases henter : Ledger.enter s.ledger p with f | ⟨record, ledger⟩
  · have hrun : (Ledger.patchFile p patches).runOn s = (.error f, s) := by
      unfold Ledger.patchFile
      rw [runOn_bind, runOn_ask, henter]
    rw [hrun]
    exact ⟨h, Refiled.refl _⟩
  obtain ⟨-, hsource, hbackup⟩ := h.ledger.sound.enter henter
  obtain ⟨hends, -, houtline⟩ := Ledger.patchFile_ends patches henter
  have htracked := h.stored.tracked p hp record.backup hbackup
  rw [← hsource] at htracked
  obtain ⟨hsafe, hrefiled⟩ := h.stored.safe.patched hv.separate htracked hends
  exact ⟨⟨h.stored.refiled hrefiled hsafe, (h.ledger.enter hp henter).of_outline houtline⟩, hrefiled⟩

end

/-! ## The vault of some files -/

/-- The path of a backup is that of the file but for its name. -/
theorem Ledger.backupOf_ok {p q : Path} (h : backupOf p = .ok q) :
    ∃ init n, p = ⟨p.anchor, init ++ [n]⟩ ∧ q = ⟨p.anchor, init ++ [n ++ ".bak"]⟩ := by
  unfold backupOf Path.withName? at h
  by_cases hnil : p.parts = []
  · rw [if_pos hnil] at h
    cases h
  · rw [if_neg hnil] at h
    dsimp only at h
    have hsplit : p.parts.dropLast ++ [p.name] = p.parts := by
      unfold Path.name
      rw [List.getLastD_eq_getLast?, List.getLast?_eq_some_getLast hnil]
      exact List.dropLast_concat_getLast hnil
    refine ⟨p.parts.dropLast, p.name, ?_, (Except.ok.inj h).symm⟩
    rw [hsplit]

/-- What there is to keep for some files. -/
def vaultOf (fs : FileSystem) (paths : List Path) : List Deposit :=
  paths.filterMap fun p => (Ledger.backupOf p).toOption.bind (Deposit.of? fs p)

theorem mem_vaultOf {fs : FileSystem} {paths : List Path} {d : Deposit} :
    d ∈ vaultOf fs paths ↔
      ∃ p ∈ paths, ∃ q, Ledger.backupOf p = .ok q ∧ Deposit.of? fs p q = some d := by
  unfold vaultOf
  rw [List.mem_filterMap]
  constructor
  · rintro ⟨p, hp, h⟩
    obtain ⟨q, hq, hd⟩ := Option.bind_eq_some_iff.1 h
    refine ⟨p, hp, q, ?_, hd⟩
    rcases hb : Ledger.backupOf p with f | q' <;> rw [hb] at hq
    · cases hq
    · exact congrArg Except.ok (Option.some.inj hq)
  · rintro ⟨p, hp, q, hq, hd⟩
    refine ⟨p, hp, ?_⟩
    rw [hq]
    exact hd

/-- Files that can be kept: each of them and its backup have a place for a file, or are nowhere, and
no two files share a place. -/
structure Storable (fs : FileSystem) (paths : List Path) : Prop where
  placed : ∀ p ∈ paths, ∀ q, Ledger.backupOf p = .ok q →
    (∃ l m, (∀ follow, fs.place follow p = .ok l) ∧ (∀ follow, fs.place follow q = .ok m) ∧
      fs.IsSpot l ∧ fs.IsSpot m ∧ l ≠ m) ∨ (fs.Lost p ∧ fs.Lost q)
  apart : ∀ p ∈ paths, ∀ p' ∈ paths, p ≠ p' → ∀ q q', Ledger.backupOf p = .ok q →
    Ledger.backupOf p' = .ok q' → ∀ r ∈ [p, q], ∀ r' ∈ [p', q'], ∀ l, fs.place true r = .ok l →
      fs.place true r' ≠ .ok l

theorem Storable.vaultOf {fs : FileSystem} {paths : List Path} (h : Storable fs paths) :
    VaultOf (vaultOf fs paths) paths ∧ Stored (vaultOf fs paths) paths fs := by
  have hplaced : ∀ p ∈ paths, ∀ q, Ledger.backupOf p = .ok q → ∀ d, Deposit.of? fs p q = some d →
      d.Placed fs ∧ d.Kept fs ∧ d.place ≠ d.backupPlace := by
    intro p hp q hq d hd
    obtain ⟨-, -, hsource, hbackup, -⟩ := Deposit.of?_some hd
    rcases h.placed p hp q hq with ⟨l, m, hl, hm, hspot, hspot', hne⟩ | ⟨hlost, -⟩
    · obtain ⟨hplaced, hkept⟩ := Deposit.kept_of? hl hm hspot hspot' hd
      rw [hl true] at hsource
      rw [hm true] at hbackup
      rw [← Except.ok.inj hsource, ← Except.ok.inj hbackup]
      exact ⟨hplaced, hkept, hne⟩
    · obtain ⟨f, hf, -⟩ := hlost true
      rw [hsource] at hf
      cases hf
  refine ⟨⟨?_, ?_⟩, ?_, ?_⟩
  · intro d hd
    obtain ⟨p, hp, q, hq, hof⟩ := mem_vaultOf.1 hd
    refine ⟨(hplaced p hp q hq d hof).2.2, fun d' hd' => ?_⟩
    obtain ⟨p', hp', q', hq', hof'⟩ := mem_vaultOf.1 hd'
    by_cases hpp : p = p'
    · subst hpp
      rw [hq] at hq'
      rw [← Except.ok.inj hq', hof] at hof'
      exact .inl (Option.some.inj hof').symm
    right
    obtain ⟨-, -, hs, hb, -⟩ := Deposit.of?_some hof
    obtain ⟨-, -, hs', hb', -⟩ := Deposit.of?_some hof'
    have hat : ∀ {d : Deposit} {p q : Path} {l : Location}, fs.place true p = .ok d.place →
        fs.place true q = .ok d.backupPlace → d.At l → ∃ r ∈ [p, q], fs.place true r = .ok l := by
      rintro d p q l hs hb (rfl | rfl)
      · exact ⟨p, by simp, hs⟩
      · exact ⟨q, by simp, hb⟩
    intro l hl hl'
    obtain ⟨r, hr, hrl⟩ := hat hs hb hl
    obtain ⟨r', hr', hrl'⟩ := hat hs' hb' hl'
    exact h.apart p hp p' hp' hpp q q' hq hq' r hr r' hr' l hrl hrl'
  · intro d hd
    obtain ⟨p, hp, q, hq, hof⟩ := mem_vaultOf.1 hd
    obtain ⟨hsource, hbackup, -⟩ := Deposit.of?_some hof
    rw [hsource, hbackup]
    exact ⟨hp, hq⟩
  · intro d hd
    obtain ⟨p, hp, q, hq, hof⟩ := mem_vaultOf.1 hd
    obtain ⟨hplaced, hkept, -⟩ := hplaced p hp q hq d hof
    exact ⟨hplaced, hkept⟩
  · intro p hp q hq
    rcases h.placed p hp q hq with ⟨l, m, hl, hm, -⟩ | hlost
    · have hof := Deposit.of?_eq_some (hl true) (hm true)
      exact .inl ⟨_, mem_vaultOf.2 ⟨p, hp, q, hq, hof⟩, rfl, rfl⟩
    · exact .inr hlost

end CrossBuild
