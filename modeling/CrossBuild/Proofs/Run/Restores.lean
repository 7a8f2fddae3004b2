import CrossBuild.Proofs.Run.Aside

/-!
# A run puts the engine back

Every stage of a run keeps what there is to keep of the engine, whether or not it fails. The
teardown does not fail, and it restores the engine's files. What follows works in the yard alone.
-/

namespace CrossBuild

open FileSystem Workspace CrossBuild.Task

variable {c : Config} {tools : Tools} {fs₀ fs fs' : FileSystem}

/-! ## The stages -/

theorem Config.Intact.aside (h : c.Restorable fs₀) (hc : c.Sensible) :
    c.Aside fun fs => c.Intact fs₀ fs where
  ready _ hi := hi.held.ready
  work _ _ hi hk := hi.work h hc hk

section
variable (h : c.Restorable fs₀) (hc : c.Sensible)

/-- What every stage of a run keeps: the engine's files, and a ledger of them. -/
def Config.During (c : Config) (fs₀ : FileSystem) : PatchState → Prop :=
  PatchState.Of (fun fs _ => c.Intact fs₀ fs) fun ledger => ledger.Covers c.enginePaths

include h hc

theorem keeps_patchEngine (modules : List String) (starter : Option String)
    (files : List EngineFile) :
    Keeps (c.During fs₀) (Ledger.patchEngine c.engineFile modules starter files) := by
  have hv := (h.storable hc).vaultOf.1
  refine keeps_iff.2 (Ledger.meets_patchEngine_of (fun f => keeps_iff.1 ?_) files)
  intro s hs
  obtain ⟨hguarded, hrefiled⟩ := Guarded.patchFile hv ⟨hs.1.stored h hc, hs.2⟩
    (Config.mem_enginePaths.2 ⟨f, rfl⟩) (Patch.plan modules starter f)
  exact ⟨hs.1.refiled h hc hrefiled hguarded.stored, hguarded.ledger⟩

/-- However far a run comes, what there is to keep of the engine is kept. -/
theorem keeps_forward (htools : tools.WritesOnlyOutput) :
    Keeps (fun s => c.During fs₀ s.patching) (Build.forward (Toolchain.ofConfig c tools)) := by
  have haside := Config.Intact.aside h hc
  have hb := haside.buildable hc htools (h.real hc).names
  have hclean : Keeps (c.During fs₀) (PatchState.onWork (Build.clean c)) :=
    PatchState.keeps_onWork (haside.keeps_clean hc)
  have hpatch : Meets (c.During fs₀) (Build.patch c) (fun _ => c.During fs₀)
      fun _ => c.During fs₀ :=
    Build.meets_patch_of (fun _ _ _ hs => hs) (fun _ _ hs => hs) fun starter =>
      keeps_iff.1 (keeps_patchEngine h hc _ starter _)
  refine keeps_iff.2 (Build.meets_forward ?_ (keeps_iff.1 hclean) hpatch ?_ ?_)
  · exact fun message s hs => hs
  · exact keeps_iff.1 hb.keeps_prepareHost
  · exact keeps_iff.1 hb.keeps_buildTargets

/-! ## The teardown -/

/-- The path of the directory of tools leads where it says, whatever happened to it. -/
theorem place_tools (hready : c.yard.Ready fs) :
    fs.place true c.toolsDirectory = .ok (c.root.parts ++ ["bin"]) := by
  have hleads := Config.leads_tools hc
  refine place_in hready.real hleads.absolute hleads.parts (by decide) (by decide)
    (hleads.hasNul hready) h.limit fun target ht => ?_
  exact absurd ht (hready.noLink _ (Yard.within_cons hleads.base []) target)

theorem isDirectory_tools (hi : c.Intact fs₀ fs) : ∃ b, fs.isDirectory c.toolsDirectory = .ok b := by
  have hplace := place_tools h hc hi.held.ready
  rcases hnode : fs.node? (c.root.parts ++ ["bin"]) with _ | node
  · exact ⟨false, test_of_none hplace hnode⟩
  · exact ⟨_, test_of_node hplace hnode⟩

omit h hc in
theorem names_of_isDirectory {p : Path} (hs : fs.Sound) (hd : fs.isDirectory p = .ok true) :
    ∃ found, fs.names p = .ok found ∧ ∀ n ∈ found, IsName n := by
  rcases test_cases hd with ⟨l, node, hp, hnode, hnode'⟩ | ⟨hfalse, -⟩ | ⟨hfalse, -⟩
  · cases node with
    | file b x => cases hnode'
    | link target => cases hnode'
    | directory =>
      have hnames : fs.names p = .ok (fs.childNames l) := by
        unfold FileSystem.names
        rw [lookup_eq_ok_iff.2 ⟨hp, hnode⟩]
      exact ⟨_, hnames, hs.isName_of_mem_names hnames⟩
  · cases hfalse
  · cases hfalse

omit h hc in
/-- A file that cannot be removed is reported, and the run goes on. -/
theorem succeeds_orWarn {I : Workspace → Prop} {p : Path} {t : Task FileSystem Unit}
    {message : Option String} (hkeeps : Keeps I (onFiles t))
    (hreport : ∀ level text, Keeps I (report level text))
    (hfile : ∀ fs f, (t.runOn fs).1 = .error f → ∃ e, f = .file e) :
    Succeeds I (Build.orWarn p t message) := by
  unfold Build.orWarn
  have hattempt : Meets I (Task.attempt (onFiles t))
      (fun r w => (∀ f, r = .error f → ∃ e, f = .file e) ∧ I w) fun _ _ => False := by
    intro w hw
    rw [runOn_attempt]
    exact ⟨fun f hf => hfile w.files f hf, hkeeps w hw⟩
  refine Meets.bind hattempt fun r => Meets.assuming fun hr => ?_
  rcases r with f | u
  · obtain ⟨e, rfl⟩ := hr f rfl
    exact Succeeds.of_keeps (hreport .warning _) fun w _ => ⟨(), rfl⟩
  · rcases message with _ | text
    · exact succeeds_pure ()
    · exact Succeeds.of_keeps (hreport .info _) fun w _ => ⟨(), rfl⟩

theorem succeeds_cleanup :
    Succeeds (Workspace.Of fun fs _ => c.Intact fs₀ fs) (Build.cleanup c) := by
  have haside := Config.Intact.aside h hc
  have hnul : ∀ {p n xs}, c.yard.Leads p n xs → hasNul p = false := fun hleads =>
    hleads.hasNul (h.held hc).ready
  have hstub : Succeeds (Workspace.Of fun fs _ => c.Intact fs₀ fs)
      (Build.orWarn (TargetBuild.stub c) (unlinkIfPresent (TargetBuild.stub c)) none) :=
    succeeds_orWarn (haside.keeps_removeStub hc) keeps_report fun fs f hf =>
      unlinkIfPresent_error_file (hnul (Config.leads_stub hc)) hf
  have hremove : ∀ {name message}, IsName name → Succeeds (Workspace.Of fun fs _ => c.Intact fs₀ fs)
      (Build.orWarn ⟨c.toolsDirectory.anchor, c.toolsDirectory.parts ++ [name]⟩
        (unlink ⟨c.toolsDirectory.anchor, c.toolsDirectory.parts ++ [name]⟩) message) := by
    intro name message hname
    have hleads := (Config.leads_tools hc).below hname
    exact succeeds_orWarn (haside.keeps_removeTemporary hc hname) keeps_report fun fs f hf =>
      unlink_error_file (hnul hleads) hf
  have hlook : Meets (Workspace.Of fun fs _ => c.Intact fs₀ fs) (look (·.isDirectory c.toolsDirectory))
      (fun b w => w.files.isDirectory c.toolsDirectory = .ok b ∧
        Workspace.Of (fun fs _ => c.Intact fs₀ fs) w) fun _ _ => False := by
    refine Meets.ask (fun b w hw hb => ⟨hb, hw⟩) fun f w hw hf => ?_
    obtain ⟨b, hb⟩ := isDirectory_tools h hc hw
    cases hf.symm.trans hb
  have hnames : Meets (fun w => w.files.isDirectory c.toolsDirectory = .ok true ∧
        Workspace.Of (fun fs _ => c.Intact fs₀ fs) w) (look (·.names c.toolsDirectory))
      (fun found w => (∀ n ∈ found, IsName n) ∧ Workspace.Of (fun fs _ => c.Intact fs₀ fs) w)
      fun _ _ => False := by
    intro w hw
    obtain ⟨found, hfound, hall⟩ := names_of_isDirectory hw.2.held.sound hw.1
    rw [runOn_look, hfound]
    exact ⟨hall, hw.2⟩
  unfold Build.cleanup
  refine Succeeds.bind (Succeeds.of_keeps (keeps_info _) fun w _ => ⟨(), rfl⟩) fun _ => ?_
  refine Meets.bind hlook fun b => ?_
  cases b with
  | false =>
    dsimp only
    rw [if_neg Bool.false_ne_true]
    exact hstub.weaken (fun _ hw => hw.2) (fun _ _ hw => hw) fun _ _ hfalse => hfalse
  | true =>
    refine Meets.bind hnames fun found => Meets.assuming fun hfound => ?_
    refine Succeeds.bind (succeeds_forIn fun name hname _ => ?_) fun _ => hstub
    exact (hremove (hfound name (List.mem_filter.1 hname).1)).bind fun _ => succeeds_pure _

/-- What a run has reached when its teardown is over. -/
def Config.Restored (c : Config) (fs₀ fs : FileSystem) : Prop :=
  c.yard.Held fs₀ fs ∧ ∀ d ∈ c.vault fs₀, d.Restored fs

/-- **The teardown restores the engine**, and it does not fail. -/
theorem meets_teardown :
    Meets (fun s => c.During fs₀ s.patching) (Build.teardown c)
      (fun _ s => c.Restored fs₀ s.patching.work.files) fun _ _ => False := by
  have hcleanup : Meets (c.During fs₀) (PatchState.onWork (Build.cleanup c))
      (fun _ => c.During fs₀) fun _ _ => False :=
    (PatchState.meets_onWork (L := fun ledger => ledger.Covers c.enginePaths)
      (succeeds_cleanup h hc)).weaken (fun _ hs => hs) (fun _ _ hs => hs) fun _ _ hfalse => hfalse.1
  have hrestore : Meets (c.During fs₀) Ledger.restore (fun _ s => c.Restored fs₀ s.work.files)
      fun _ _ => False := by
    intro s hs
    have hv := (h.storable hc).vaultOf.1
    obtain ⟨restored, s', hrun, hguarded, hrefiled, -, hrestored⟩ :=
      Guarded.restore hv ⟨hs.1.stored h hc, hs.2⟩
    rw [hrun]
    exact ⟨(hs.1.refiled h hc hrefiled hguarded.stored).held, hrestored⟩
  exact Build.meets_teardown_of hcleanup hrestore

/-! ## The whole run -/

/-- What the run does after its teardown leaves the engine alone. -/
theorem restored_of_kept (hr : c.Restored fs₀ fs) (hk : c.yard.Kept fs fs') :
    c.Restored fs₀ fs' := by
  refine ⟨hr.1.kept hk, fun d hd => ?_⟩
  obtain ⟨hplace, hbackup⟩ := h.node?_of_kept hc hk hd
  exact (hr.2 d hd).congr hplace hbackup

theorem Config.Restored.aside : c.Aside fun fs => c.Restored fs₀ fs where
  ready _ hr := hr.1.ready
  work _ _ hr hk := restored_of_kept h hc hr hk

/-- However a run ends, the engine is restored. -/
theorem meets_execute (htools : tools.WritesOnlyOutput) (now : String) (write : Bool) :
    Meets (fun s => c.During fs₀ s.patching) (Build.execute (Toolchain.ofConfig c tools) now write)
      (fun _ s => c.Restored fs₀ s.patching.work.files)
      fun _ s => c.Restored fs₀ s.patching.work.files := by
  have hteardown : Meets (fun s => c.During fs₀ s.patching) (Build.teardown c)
      (fun _ s => Of (fun fs _ => c.Restored fs₀ fs) s.patching.work)
      fun _ s => Of (fun fs _ => c.Restored fs₀ fs) s.patching.work :=
    (meets_teardown h hc).weaken (fun _ hs => hs) (fun _ _ hr => hr) fun _ _ hfalse => hfalse.elim
  exact Build.meets_execute_of _ (keeps_iff.1 (keeps_forward h hc htools)) hteardown
    (Build.keeps_summary keeps_report) ((Config.Restored.aside h hc).keeps_writeReceipt hc)

/-- Nothing is out of its place when a run begins. -/
theorem intact_start : c.Intact fs₀ fs₀ :=
  ⟨h.held hc, fun d hd => ((h.storable hc).vaultOf.2.safe d hd).2⟩

/-- What a restored engine is, told by the paths of its files. -/
theorem content_of_restored (hr : c.Restored fs₀ fs) (f : EngineFile) :
    (fs.content (c.engineFile f)).toOption =
        ((fs₀.content (c.engineBackup f)).toOption <|> (fs₀.content (c.engineFile f)).toOption) ∧
      fs.IsFileOrAbsent (c.engineFile f) ∧ fs.IsAbsent (c.engineBackup f) := by
  have hname : f.name ∈ f.names := List.mem_cons_self
  have hbak : f.name ++ ".bak" ∈ f.names := by simp [EngineFile.names]
  rcases h.engine_cases with ⟨m, hm⟩ | hlost
  · obtain ⟨-, -, hplace⟩ := (hm f _ hname).2 fs₀ (h.held hc)
    obtain ⟨-, -, hplace'⟩ := (hm f _ hbak).2 fs₀ (h.held hc)
    rw [← c.engineFile_eq] at hplace
    rw [← c.engineBackup_eq] at hplace'
    have hd := mem_vaultOf.2 ⟨_, Config.mem_enginePaths.2 ⟨f, rfl⟩, _, c.backupOf_engineFile f,
      Deposit.of?_eq_some (hplace true) (hplace' true)⟩
    have hplaced := ((h.places hc hd).2 fs hr.1).1
    obtain ⟨hcontent, habsent⟩ := (hr.2 _ hd).content hplaced
    refine ⟨hcontent, ?_, habsent⟩
    rcases hplaced.spot.cases with hnone | ⟨b, x, hfile⟩
    · exact IsAbsent.isFileOrAbsent (test_of_none (hplaced.source false) hnone)
    · exact .inl ⟨_, b, x, lookup_eq_ok_iff.2 ⟨hplaced.source false, hfile⟩⟩
  · have hcontent : ∀ fs, c.yard.Held fs₀ fs → ∀ n ∈ f.names,
        (fs.content ⟨c.engine.anchor, c.engine.parts ++ [n]⟩).toOption = none := by
      intro fs hheld n hn
      obtain ⟨e, he, -⟩ := hlost fs hheld f n hn true
      unfold content
      rw [lookup_of_error he]
      rfl
    have habsent : ∀ n ∈ f.names, fs.IsAbsent ⟨c.engine.anchor, c.engine.parts ++ [n]⟩ := by
      intro n hn
      obtain ⟨e, he, hmeans⟩ := hlost fs hr.1 f n hn false
      exact test_of_absent he hmeans
    rw [c.engineFile_eq, c.engineBackup_eq, hcontent fs hr.1 _ hname,
      hcontent fs₀ (h.held hc) _ hname, hcontent fs₀ (h.held hc) _ hbak]
    exact ⟨rfl, (habsent _ hname).isFileOrAbsent, habsent _ hbak⟩

end

/-- **A run puts the engine back**, whatever the tools do and however the run ends: every file of
the engine holds what its backup held at first, if there was one, and what it held itself otherwise;
and no backup is left. -/
theorem run_restores_engine {w : Workspace} (hc : c.Sensible) (h : c.Restorable w.files)
    (htools : tools.WritesOnlyOutput) (now : String) (write : Bool) (f : EngineFile) :
    let fs := ((Build.run (Toolchain.ofConfig c tools) now write).runOn w).2.files
    (fs.content (c.engineFile f)).toOption =
        ((w.files.content (c.engineBackup f)).toOption <|>
          (w.files.content (c.engineFile f)).toOption) ∧
      fs.IsFileOrAbsent (c.engineFile f) ∧ fs.IsAbsent (c.engineBackup f) := by
  intro fs
  have hbegun : ∀ s : PatchState, s.work = w → s.ledger.Covers c.enginePaths →
      c.During w.files s := by
    rintro s rfl hcovers
    exact ⟨intact_start h hc, hcovers⟩
  have hdone : c.Restored w.files fs :=
    Build.meets_run (fun w' => c.Restored w.files w'.files)
      (meets_execute h hc htools now write) hbegun
  exact content_of_restored h hc hdone f

theorem run_restores_engine_small :
    let fs := ((Build.run (Toolchain.ofConfig .small .failing) "now" true).runOn
      (.ofFiles Config.smallFiles)).2.files
    (fs.content (Config.small.engineFile .interpreter)).toOption = some (.ofString "pristine") ∧
      fs.IsFileOrAbsent (Config.small.engineFile .interpreter) ∧
      fs.IsAbsent (Config.small.engineBackup .interpreter) := by
  have hbackup : Config.smallFiles.content (Config.small.engineBackup .interpreter) =
      .ok (.ofString "pristine") := by
    rfl
  intro fs
  obtain ⟨hcontent, hfile, habsent⟩ := run_restores_engine (w := .ofFiles Config.smallFiles)
    Config.sensible_small Config.restorable_small Tools.writesOnlyOutput_failing "now" true
    .interpreter
  refine ⟨?_, hfile, habsent⟩
  rw [hcontent]
  show ((Config.smallFiles.content _).toOption <|> _) = _
  rw [hbackup]
  rfl

end CrossBuild
