import CrossBuild.Proofs.FileSystem.Held
import CrossBuild.Proofs.Patch.Engine
import CrossBuild.Proofs.Patch.Guarded
import CrossBuild.Proofs.Toolchain

/-!
# The engine beside a run

A run makes what it makes in a yard: the directories for builds, tools and applications in the
project's root. The engine is elsewhere, so that its files and their backups are found at the same
places throughout, whatever is done in the yard.
-/

namespace CrossBuild

open FileSystem

namespace EngineFile

/-- The name of the file, and that of its backup. -/
def names (f : EngineFile) : List String :=
  [f.name, f.name ++ ".bak"]

theorem isName_of_mem_names (f : EngineFile) : ∀ n ∈ f.names, IsName n := by
  cases f <;> decide

theorem disjoint_names {f g : EngineFile} (h : f ≠ g) : ∀ n ∈ f.names, n ∉ g.names := by
  cases f <;> cases g <;> first | exact absurd rfl h | decide

theorem backup_ne_name (f : EngineFile) : f.name ≠ f.name ++ ".bak" := by
  cases f <;> decide

theorem mem_all (f : EngineFile) : f ∈ all := by
  cases f <;> decide

end EngineFile

namespace Config

/-- Where a run puts what it makes. -/
def yard (c : Config) : Yard where
  root := c.root.parts
  names := ["build", "bin", "dist"]
  proper := by decide

/-- The files of the engine that are patched. -/
def enginePaths (c : Config) : List Path :=
  EngineFile.all.map c.engineFile

/-- Where a file of the engine is backed up. -/
def engineBackup (c : Config) (f : EngineFile) : Path :=
  c.engine / (f.name ++ ".bak")

/-- What has to stand on disk when a run begins: the project's root is a directory and no link lies
in the yard; the engine is outside, and each of its files and of their backups is an ordinary file
or absent. -/
structure Restorable (c : Config) (fs : FileSystem) : Prop where
  sound : fs.Sound
  root : fs.lookup true c.root = .ok (c.root.parts, .directory)
  noLink : ∀ l, c.yard.Within l → ∀ target, fs.node? l ≠ some (.link target)
  outside : c.yard.Outside fs c.engine
  files : ∀ f, fs.IsFileOrAbsent (c.engineFile f)
  backups : ∀ f, fs.IsFileOrAbsent (c.engineBackup f)
  limit : c.toolsDirectory.toString.utf8ByteSize < pathByteLimit

variable {c : Config} {fs₀ fs fs' : FileSystem}

theorem engineFile_eq (c : Config) (f : EngineFile) :
    c.engineFile f = ⟨c.engine.anchor, c.engine.parts ++ [f.name]⟩ :=
  c.engine.div_name (f.isName_of_mem_names f.name (by simp [EngineFile.names]))

theorem engineBackup_eq (c : Config) (f : EngineFile) :
    c.engineBackup f = ⟨c.engine.anchor, c.engine.parts ++ [f.name ++ ".bak"]⟩ :=
  c.engine.div_name (f.isName_of_mem_names (f.name ++ ".bak") (by simp [EngineFile.names]))

theorem backupOf_engineFile (c : Config) (f : EngineFile) :
    Ledger.backupOf (c.engineFile f) = .ok (c.engineBackup f) := by
  rw [engineFile_eq, engineBackup_eq]
  unfold Ledger.backupOf Path.withName? Path.name
  rw [if_neg (by simp)]
  simp

theorem mem_enginePaths {p : Path} : p ∈ c.enginePaths ↔ ∃ f, p = c.engineFile f := by
  unfold enginePaths
  rw [List.mem_map]
  constructor
  · rintro ⟨f, -, rfl⟩
    exact ⟨f, rfl⟩
  · rintro ⟨f, rfl⟩
    exact ⟨f, f.mem_all, rfl⟩

theorem Restorable.real (h : c.Restorable fs₀) (hc : c.Sensible) : fs₀.IsReal c.root.parts := by
  refine h.sound.isReal ?_ h.root
  unfold Path.isAbsolute
  rw [hc.root]
  rfl

theorem Restorable.held (h : c.Restorable fs₀) (hc : c.Sensible) : c.yard.Held fs₀ fs₀ :=
  ⟨h.sound, h.real hc, h.noLink, rfl, fun _ _ => rfl⟩

/-- The engine's files and their backups are all in one directory outside the yard, or none of them
is anywhere; and that does not change while work goes on in the yard. -/
theorem Restorable.engine_cases (h : c.Restorable fs₀) :
    (∃ m, ∀ f, ∀ n ∈ EngineFile.names f, ¬ c.yard.Within (m ++ [n]) ∧
        ∀ fs, c.yard.Held fs₀ fs → fs.IsEntry (m ++ [n]) ∧ fs.IsSpot (m ++ [n]) ∧
          ∀ follow, fs.place follow ⟨c.engine.anchor, c.engine.parts ++ [n]⟩ = .ok (m ++ [n])) ∨
      ∀ fs, c.yard.Held fs₀ fs → ∀ f, ∀ n ∈ EngineFile.names f,
        fs.Lost ⟨c.engine.anchor, c.engine.parts ++ [n]⟩ := by
  have hnames : ∀ n ∈ EngineFile.all.flatMap EngineFile.names, n ≠ "." ∧ n ≠ ".." ∧
      '\x00' ∉ n.toList := by
    intro n hn
    obtain ⟨f, -, hn⟩ := List.mem_flatMap.1 hn
    obtain ⟨hpiece, hdot, hdots⟩ := f.isName_of_mem_names n hn
    exact ⟨hdot, hdots, hpiece.2.2⟩
  have hmem : ∀ f, ∀ n ∈ EngineFile.names f, n ∈ EngineFile.all.flatMap EngineFile.names :=
    fun f n hn => List.mem_flatMap.2 ⟨f, f.mem_all, hn⟩
  have hoff : ∀ f, ∀ n ∈ EngineFile.names f, n ∉ c.yard.names := by
    intro f
    show ∀ n ∈ EngineFile.names f, n ∉ ["build", "bin", "dist"]
    cases f <;> decide
  have hplain : ∀ n ∈ EngineFile.all.flatMap EngineFile.names,
      fs₀.IsFileOrAbsent ⟨c.engine.anchor, c.engine.parts ++ [n]⟩ := by
    intro n hn
    obtain ⟨f, -, hn⟩ := List.mem_flatMap.1 hn
    rcases List.mem_cons.1 hn with rfl | hn
    · rw [← c.engineFile_eq]
      exact h.files f
    · rw [List.mem_singleton.1 hn, ← c.engineBackup_eq]
      exact h.backups f
  rcases siblings_cases hnames hplain with ⟨m, hm, hplaces⟩ | hlost
  · refine .inl ⟨m, fun f n hn => ?_⟩
    obtain ⟨hspot, hplace⟩ := hplaces n (hmem f n hn)
    obtain ⟨hway, hend⟩ := h.outside.child (hoff f n hn)
    have hwithin := hend _ (hplace false)
    refine ⟨hwithin, fun fs hheld => ?_⟩
    have habove := Yard.Within.above hwithin (List.prefix_append m [n])
    have hspot' : fs.IsSpot (m ++ [n]) := (hheld.guides _ hwithin).trans hspot
    have hfalse := hheld.place hway (hplace false)
    refine ⟨⟨m, n, rfl, f.isName_of_mem_names n hn, ?_⟩, hspot', fun follow => ?_⟩
    · rw [isDirectoryAt_congr (hheld.guides m habove)]
      exact hm
    · cases follow with
      | false => exact hfalse
      | true =>
        refine place_true_of_false hfalse fun target ht => ?_
        rw [IsSpot, guide?_eq_link_iff.2 ht] at hspot'
        cases hspot'
  · right
    intro fs hheld
    -- what leads nowhere at first leads nowhere later, for the one way of looking
    have herror : ∀ n ∈ EngineFile.all.flatMap EngineFile.names, ∃ e,
        fs.place false ⟨c.engine.anchor, c.engine.parts ++ [n]⟩ = .error e ∧
          meansAbsent e = true := by
      intro n hn
      obtain ⟨e, he, habsent⟩ := hlost n hn false
      obtain ⟨f, -, hn⟩ := List.mem_flatMap.1 hn
      obtain ⟨hway, -⟩ := h.outside.child (hoff f n hn)
      obtain ⟨e', he', hmeans⟩ := place_error_of_congr (hheld.place_congr hway) he
      exact ⟨e', he', hmeans.trans habsent⟩
    have hplain' : ∀ n ∈ EngineFile.all.flatMap EngineFile.names,
        fs.IsFileOrAbsent ⟨c.engine.anchor, c.engine.parts ++ [n]⟩ := by
      intro n hn
      obtain ⟨e, he, habsent⟩ := herror n hn
      exact IsAbsent.isFileOrAbsent (test_of_absent he habsent)
    rcases siblings_cases hnames hplain' with ⟨m, -, hplaces⟩ | hlost'
    · obtain ⟨e, he, -⟩ := herror "qjs.c" (by decide)
      rw [(hplaces "qjs.c" (by decide)).2 false] at he
      cases he
    · exact fun f n hn => hlost' n (hmem f n hn)

/-! ## What there is to keep -/

theorem Restorable.storable (h : c.Restorable fs₀) (hc : c.Sensible) :
    Storable fs₀ c.enginePaths := by
  have hheld := h.held hc
  have hname : ∀ f : EngineFile, f.name ∈ f.names := fun f => List.mem_cons_self
  have hbak : ∀ f : EngineFile, f.name ++ ".bak" ∈ f.names := fun f => by simp [EngineFile.names]
  have hbackup : ∀ f q, Ledger.backupOf (c.engineFile f) = .ok q → q = c.engineBackup f := by
    intro f q hq
    rw [backupOf_engineFile] at hq
    exact (Except.ok.inj hq).symm
  have hpair : ∀ f, ∀ r ∈ [c.engineFile f, c.engineBackup f], ∃ n ∈ EngineFile.names f,
      r = ⟨c.engine.anchor, c.engine.parts ++ [n]⟩ := by
    intro f r hr
    rcases List.mem_cons.1 hr with rfl | hr
    · exact ⟨_, hname f, c.engineFile_eq f⟩
    · rw [List.mem_singleton.1 hr]
      exact ⟨_, hbak f, c.engineBackup_eq f⟩
  refine ⟨?_, ?_⟩
  · intro p hp q hq
    obtain ⟨f, rfl⟩ := mem_enginePaths.1 hp
    rw [hbackup f q hq, engineFile_eq, engineBackup_eq]
    rcases h.engine_cases with ⟨m, hm⟩ | hlost
    · obtain ⟨-, hspot, hplace⟩ := (hm f _ (hname f)).2 fs₀ hheld
      obtain ⟨-, hspot', hplace'⟩ := (hm f _ (hbak f)).2 fs₀ hheld
      refine .inl ⟨_, _, hplace, hplace', hspot, hspot', fun heq => f.backup_ne_name ?_⟩
      obtain ⟨-, hlast⟩ := List.append_inj' heq rfl
      exact (List.cons.inj hlast).1
    · exact .inr ⟨hlost fs₀ hheld f _ (hname f), hlost fs₀ hheld f _ (hbak f)⟩
  · intro p hp p' hp' hne q q' hq hq' r hr r' hr' l hl hl'
    obtain ⟨f, rfl⟩ := mem_enginePaths.1 hp
    obtain ⟨g, rfl⟩ := mem_enginePaths.1 hp'
    rw [hbackup f q hq] at hr
    rw [hbackup g q' hq'] at hr'
    obtain ⟨n, hn, rfl⟩ := hpair f r hr
    obtain ⟨k, hk, rfl⟩ := hpair g r' hr'
    rcases h.engine_cases with ⟨m, hm⟩ | hlost
    · rw [((hm f n hn).2 fs₀ hheld).2.2 true] at hl
      rw [((hm g k hk).2 fs₀ hheld).2.2 true, ← Except.ok.inj hl] at hl'
      obtain ⟨-, hlast⟩ := List.append_inj' (Except.ok.inj hl') rfl
      have hfg : f ≠ g := fun heq => hne (heq ▸ rfl)
      rw [(List.cons.inj hlast).1] at hk
      exact EngineFile.disjoint_names hfg n hn hk
    · obtain ⟨e, he, -⟩ := hlost fs₀ hheld f n hn true
      rw [he] at hl
      cases hl

/-- The engine's files as they have to be kept, of a file system. -/
def vault (c : Config) (fs : FileSystem) : List Deposit :=
  vaultOf fs c.enginePaths

/-- Throughout a run the yard is held, and what there is to keep of the engine is kept. -/
structure Intact (c : Config) (fs₀ fs : FileSystem) : Prop where
  held : c.yard.Held fs₀ fs
  kept : ∀ d ∈ c.vault fs₀, d.Kept fs

/-- Where a deposit of the engine is: at a place for a file, outside the yard. -/
theorem Restorable.places (h : c.Restorable fs₀) (hc : c.Sensible) {d : Deposit}
    (hd : d ∈ c.vault fs₀) :
    (∀ l, d.At l → ¬ c.yard.Within l) ∧ ∀ fs, c.yard.Held fs₀ fs → d.Placed fs ∧
      ∀ l, d.At l → fs.IsEntry l := by
  obtain ⟨p, hp, q, hq, hof⟩ := mem_vaultOf.1 hd
  obtain ⟨f, rfl⟩ := mem_enginePaths.1 hp
  rw [backupOf_engineFile] at hq
  obtain rfl := Except.ok.inj hq
  obtain ⟨hsource, hbackup, hl, hm, -⟩ := Deposit.of?_some hof
  rw [engineFile_eq] at hsource hl
  rw [engineBackup_eq] at hbackup hm
  rcases h.engine_cases with ⟨m, hcases⟩ | hlost
  · obtain ⟨hout, hplace⟩ := hcases f f.name List.mem_cons_self
    obtain ⟨hout', hplace'⟩ := hcases f (f.name ++ ".bak") (by simp [EngineFile.names])
    rw [(hplace fs₀ (h.held hc)).2.2 true] at hl
    rw [(hplace' fs₀ (h.held hc)).2.2 true] at hm
    have hat : ∀ l, d.At l → l = m ++ [f.name] ∨ l = m ++ [f.name ++ ".bak"] := by
      rintro l (rfl | rfl)
      · exact .inl (Except.ok.inj hl).symm
      · exact .inr (Except.ok.inj hm).symm
    refine ⟨fun l hl => ?_, fun fs hheld => ⟨⟨?_, ?_, ?_, ?_⟩, fun l hl => ?_⟩⟩
    · rcases hat l hl with rfl | rfl
      · exact hout
      · exact hout'
    · rw [hsource, ← Except.ok.inj hl]
      exact (hplace fs hheld).2.2
    · rw [hbackup, ← Except.ok.inj hm]
      exact (hplace' fs hheld).2.2
    · rw [← Except.ok.inj hl]
      exact (hplace fs hheld).2.1
    · rw [← Except.ok.inj hm]
      exact (hplace' fs hheld).2.1
    · rcases hat l hl with rfl | rfl
      · exact (hplace fs hheld).1
      · exact (hplace' fs hheld).1
  · obtain ⟨e, he, -⟩ := hlost fs₀ (h.held hc) f f.name List.mem_cons_self true
    rw [he] at hl
    cases hl

theorem Intact.stored (h : c.Restorable fs₀) (hc : c.Sensible) (hi : c.Intact fs₀ fs) :
    Stored (c.vault fs₀) c.enginePaths fs where
  safe d hd := ⟨((h.places hc hd).2 fs hi.held).1, hi.kept d hd⟩
  tracked p hp q hq := by
    obtain ⟨f, rfl⟩ := mem_enginePaths.1 hp
    rcases (h.storable hc).vaultOf.2.tracked _ hp q hq with htracked | ⟨hlost, -⟩
    · exact .inl htracked
    rw [backupOf_engineFile] at hq
    rw [← Except.ok.inj hq, engineFile_eq, engineBackup_eq]
    rcases h.engine_cases with ⟨m, hcases⟩ | hnowhere
    · obtain ⟨-, hplace⟩ := hcases f f.name List.mem_cons_self
      obtain ⟨e, he, -⟩ := hlost true
      rw [engineFile_eq, (hplace fs₀ (h.held hc)).2.2 true] at he
      cases he
    · exact .inr ⟨hnowhere fs hi.held f _ List.mem_cons_self,
        hnowhere fs hi.held f _ (by simp [EngineFile.names])⟩

/-- Work in the yard changes nothing of the engine. -/
theorem Restorable.node?_of_kept (h : c.Restorable fs₀) (hc : c.Sensible)
    (hk : c.yard.Kept fs fs') {d : Deposit} (hd : d ∈ c.vault fs₀) :
    fs'.node? d.place = fs.node? d.place ∧ fs'.node? d.backupPlace = fs.node? d.backupPlace :=
  ⟨hk.outside _ ((h.places hc hd).1 _ (.inl rfl)), hk.outside _ ((h.places hc hd).1 _ (.inr rfl))⟩

theorem Intact.work (h : c.Restorable fs₀) (hc : c.Sensible) (hi : c.Intact fs₀ fs)
    (hk : c.yard.Kept fs fs') : c.Intact fs₀ fs' where
  held := hi.held.kept hk
  kept d hd := by
    obtain ⟨hplace, hbackup⟩ := h.node?_of_kept hc hk hd
    exact (hi.kept d hd).congr hplace hbackup

theorem Intact.refiled (h : c.Restorable fs₀) (hc : c.Sensible) (hi : c.Intact fs₀ fs)
    (hr : Refiled (InVault (c.vault fs₀)) fs fs') (hs : Stored (c.vault fs₀) c.enginePaths fs') :
    c.Intact fs₀ fs' where
  held := by
    refine hi.held.refiled hr ?_
    rintro l ⟨d, hd, hl⟩ -
    exact ((h.places hc hd).2 fs hi.held).2 l hl
  kept d hd := (hs.safe d hd).2

/-! ## A small project -/

/-- A project with one module, built for one target. -/
def small : Config where
  root := ⟨.root, ["p"]⟩
  application := "a"
  entry := ⟨.root, ["p", "app", "index.mjs"]⟩
  optimized := false
  modules := [⟨"hello", ⟨.root, ["p", "hello.c"]⟩⟩]
  compiler := ⟨.root, ["zig"]⟩
  engine := ⟨.root, ["q"]⟩
  starter := none
  host := .linux64
  hostPrecompiler := none
  targets := [.linux64]
  profile := .standard Profile.defaultVersion
  timeout := 600
  jobs := 1

/-- The project's files, with a backup that an earlier run left. -/
def smallFiles : FileSystem where
  nodes := [(["p"], .directory), (["p", "hello.c"], .file [] false), (["zig"], .file [] true)] ++
    bareEngine.nodes ++ [(["q", "qjs.c.bak"], .file (.ofString "pristine") false)]
  workingDirectory := []

theorem sensible_small : small.Sensible where
  root := rfl
  host := by decide
  targets := by decide
  application := by decide
  profile := Profile.plain_standard _

theorem sound_smallFiles : smallFiles.Sound :=
  sound_of_nodes (by decide)

theorem lookup_root_small : smallFiles.lookup true small.root = .ok (small.root.parts, .directory) := by
  rfl

theorem restorable_small : small.Restorable smallFiles where
  sound := sound_smallFiles
  root := lookup_root_small
  noLink l hl target hnode := by
    have hne : l ≠ [] := ne_nil_of_node? _ (by rw [hnode]; simp)
    have hnodes : ∀ e ∈ smallFiles.nodes, ∀ target, e.2 ≠ .link target := by
      simp [smallFiles, bareEngine]
    exact hnodes _ (mem_nodes hnode hne) target rfl
  outside := by
    have hway : ∀ l ∈ smallFiles.origin small.engine :: smallFiles.way true small.engine,
        ∀ n ∈ small.yard.names, ¬ small.yard.root ++ [n] <+: l := by
      decide
    rintro l hl ⟨n, hn, hle⟩
    exact hway l hl n hn hle
  files f := by
    cases f
    all_goals exact .inl ⟨_, _, _, by rfl⟩
  backups f := by
    cases f
    · exact IsAbsent.isFileOrAbsent (by unfold IsAbsent; rfl)
    · exact .inl ⟨_, _, _, by rfl⟩
    · exact IsAbsent.isFileOrAbsent (by unfold IsAbsent; rfl)
  limit := by decide

end Config

end CrossBuild
