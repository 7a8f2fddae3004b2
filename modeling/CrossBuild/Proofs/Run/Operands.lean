import CrossBuild.Proofs.BuildTree.Mirror
import CrossBuild.Proofs.FileSystem.Elsewhere
import CrossBuild.Proofs.Run.Checked
import CrossBuild.Proofs.Run.Ordered
import CrossBuild.Proofs.Run.Project

/-!
# The paths on the command lines

A command line names the tool that is run, and a compilation the directory of the engine and the sources
beside it. Where such a path comes from decides whether the tool, which runs in the root of the project,
finds there what the setup found from the directory of the process. What was resolved when the
configuration was made begins at the root. What the settings give is taken as it was written, up to a
home directory in front: if it is relative, it means the same to both only where they stand in the same
directory.
-/

namespace CrossBuild

open FileSystem Workspace CrossBuild.Task

variable {c : Config} {tools : Tools} {fs : FileSystem} {p : Path}

/-! ## Where paths come from -/

namespace Config

/-- A path that the settings give: that of a tool, of the engine, or of a source of the engine. -/
inductive Given (c : Config) : Path → Prop
  | compiler : c.Given c.compiler
  | engine : c.Given c.engine
  | source {name : String} (h : name ∈ c.profile.sources ∨ ∃ f : EngineFile, name = f.name) :
    c.Given (c.engine / name)
  | precompiler {p : Path} (h : c.hostPrecompiler = some p) : c.Given p

/-- A path that was resolved when the configuration was made, or that the run makes in the root. -/
inductive Own (c : Config) : Path → Prop
  | module {m : Module} (h : m ∈ c.modules) : c.Own m.source
  | made {d n : String} (hd : d ∈ ["build", "bin"]) (hn : IsName n) :
    c.Own ⟨.root, c.root.parts ++ [d, n]⟩

theorem isName_of_mem_made {d : String} (hd : d ∈ ["build", "bin"]) : IsName d := by
  rcases List.mem_pair.1 hd with rfl | rfl <;> decide

theorem own_made (hroot : c.root.anchor = .root) {d n : String} (hd : d ∈ ["build", "bin"])
    (hn : IsName n) : c.Own (c.root / d / n) := by
  rw [Path.div_name _ hn, Path.div_name _ (isName_of_mem_made hd), hroot, List.append_assoc]
  exact .made hd hn

end Config

/-- A part of a path in front of which a home directory was written out stands for itself. -/
theorem Settings.isPart_expandHome {around : Surroundings} {r : Path}
    (hparts : ∀ part ∈ p.parts, IsPart part) (h : expandHome around p = .ok r) :
    ∀ part ∈ r.parts, IsPart part := by
  unfold expandHome at h
  split at h
  · next part rest _ hp =>
    rw [hp] at hparts
    split at h
    · split at h
      · split at h
        · cases h
        · rw [← Except.ok.inj h]
          intro part hpart
          rcases List.mem_append.1 hpart with hpart | hpart
          · exact Path.isPart_ofString _ part hpart
          · exact hparts part (List.mem_cons_of_mem _ hpart)
      · cases h
    · rw [← Except.ok.inj h, hp]
      exact hparts
  · rw [← Except.ok.inj h]
    exact hparts

theorem Settings.isPart_compilerPath {around : Surroundings} {s : Settings}
    (h : s.compilerPath around = .ok p) : ∀ part ∈ p.parts, IsPart part := by
  unfold compilerPath at h
  split at h
  · exact isPart_expandHome (Path.isPart_ofString _) h
  · obtain ⟨home, hhome, h⟩ := of_bind_eq_ok h
    rw [← Except.ok.inj h]
    have hparts := isPart_expandHome (Path.isPart_ofString _) hhome
    exact Path.isPart_div (Path.isPart_div hparts (by decide)) (by decide)

theorem Settings.isPart_enginePath {around : Surroundings} {s : Settings}
    (h : s.enginePath around = .ok p) : ∀ part ∈ p.parts, IsPart part := by
  unfold enginePath at h
  split at h
  · exact isPart_expandHome (Path.isPart_ofString _) h
  · obtain ⟨home, hhome, h⟩ := of_bind_eq_ok h
    rw [← Except.ok.inj h]
    exact Path.isPart_div (isPart_expandHome (Path.isPart_ofString _) hhome) (by decide)

theorem Module.source_of_ofName {name : String} {m : Module} (h : ofName name p = .ok m) :
    m.source = p := by
  unfold ofName at h
  generalize (readName name).under (.name "name") = checked at h
  cases checked <;> cases h
  rfl

/-- The file of a registered module is what the manifest's path for it resolves to. -/
theorem Manifest.resolved_of_registrations {root : Path} {m : Manifest} {modules : List Module}
    (h : m.registrations fs root = .ok modules) {module : Module} (hmodule : module ∈ modules) :
    ∃ text : String, fs.resolve (root / text) = .ok module.source := by
  obtain ⟨⟨name, text⟩, -, hround⟩ := (mem_of_mapM h module).1 hmodule
  obtain ⟨source, hsource, hround⟩ := of_bind_eq_ok hround
  refine ⟨text, ?_⟩
  split at hround
  · next registration hname =>
    obtain rfl := Except.ok.inj hround
    rw [Module.source_of_ofName hname]
    exact hsource
  · cases hround

namespace Config.IsMade

variable (hmade : c.IsMade fs)
include hmade

/-- The modules' files have absolute paths of names. -/
theorem modules (hs : fs.Sound) {m : Module} (hm : m ∈ c.modules) :
    m.source.anchor = .root ∧ ∀ part ∈ m.source.parts, IsName part := by
  have hnames := @names_of_resolve c fs hmade hs
  obtain ⟨_, _, _, _, _, _, _, -, hcreate⟩ := hmade
  obtain ⟨text, hresolve⟩ := Manifest.resolved_of_registrations (of_create hcreate).modules hm
  exact hnames hresolve

theorem isName_source {name : String} (h : name ∈ c.profile.sources ∨ ∃ f : EngineFile, name = f.name) :
    IsName name := by
  obtain ⟨_, _, _, _, _, _, _, -, hcreate⟩ := hmade
  have hsources : ∀ n ∈ (Profile.standard "").sources, IsName n := by
    decide
  rcases h with h | ⟨f, rfl⟩
  · rw [(of_create hcreate).profile] at h
    exact hsources name h
  · exact f.isName_of_mem_names _ (by simp [EngineFile.names])

/-- The text of a path that the settings give is read back as that path. -/
theorem isPart_given (h : c.Given p) : ∀ part ∈ p.parts, IsPart part := by
  have hname := @isName_source c fs hmade
  obtain ⟨_, _, _, s, _, _, _, -, hcreate⟩ := hmade
  have hcreated := of_create hcreate
  cases h with
  | compiler => exact Settings.isPart_compilerPath hcreated.compiler
  | engine => exact Settings.isPart_enginePath hcreated.engine
  | source h => exact Path.isPart_div (Settings.isPart_enginePath hcreated.engine) (hname h)
  | precompiler h =>
    rw [hcreated.hostPrecompiler] at h
    obtain ⟨text, -, rfl⟩ := Option.map_eq_some_iff.1 h
    exact Path.isPart_ofString text

/-- A path that was resolved or made means the same in every directory. -/
theorem denotes_own (hs : fs.Sound) (h : c.Own p) (d d' : Location) : p.Denotes d d' := by
  have habs : ∀ {q : Path}, q.anchor = .root → q.isAbsolute = true := by
    intro q hq
    rw [Path.isAbsolute, hq]
    rfl
  cases h with
  | module hm =>
    obtain ⟨hanchor, hnames⟩ := hmade.modules hs hm
    exact Path.denotes_of (fun part hpart => (hnames part hpart).isPart) (.inl (habs hanchor))
  | @made dir n hd hn =>
    have hroot := hs.names _ _ (isDirectoryAt_iff.1 (hmade.root_isDirectory hs).2)
    refine Path.denotes_of (fun part hpart => ?_) (.inl (habs rfl))
    rcases List.mem_append.1 hpart with hpart | hpart
    · exact (hroot part hpart).isPart
    · rcases List.mem_pair.1 hpart with rfl | rfl
      · exact (isName_of_mem_made hd).isPart
      · exact hn.isPart

/-- A path that the settings give means the same in two directories if it begins at the root, or if the
directories are one. -/
theorem denotes_given (h : c.Given p) {d d' : Location} (hd : p.isAbsolute = true ∨ d' = d) :
    p.Denotes d d' :=
  Path.denotes_of (hmade.isPart_given h) hd

/-- A relative path of names that the settings give leads the tools elsewhere if the process does not
stand in the root, wherever no link makes up for it. -/
theorem given_elsewhere (h : c.Given p) (hrelative : p.isAbsolute = false)
    (hnames : ∀ part ∈ p.parts, IsName part) {d d' : Location} (hd : d ≠ d') {files : FileSystem}
    (hu : files.Unlinked) {follow : Bool} {l l' : Location}
    (hl : (files.seenFrom d).place follow (.ofString p.toString) = .ok l)
    (hl' : (files.seenFrom d').place follow p = .ok l') : l ≠ l' := by
  rw [Path.ofString_toString_of_parts (hmade.isPart_given h)] at hl
  exact hu.place_ne hrelative hnames hd hl hl'

end Config.IsMade

/-! ## The command lines -/

namespace Toolchain

/-- The paths that a command line has the tools read: that of the tool itself and, for a compilation, the
directory of the engine and the sources. -/
inductive Reads (T : Toolchain) : List String → List Path → Prop
  | compile (target : Target) (output : Path) (sources : List Path) :
    T.Reads (T.compileCommand target output sources) (T.config.compiler :: T.config.engine :: sources)
  | precompile (precompiler entry output : Path) :
    T.Reads (T.precompileCommand precompiler.toString entry output) [precompiler]

/-- The command runs in the root of the project, and what it reads comes from the configuration. -/
structure Vouched (T : Toolchain) (command : Command) : Prop where
  directory : command.directory = T.config.root
  operands : ∃ operands, T.Reads command.arguments operands ∧
    ∀ p ∈ operands, T.config.Given p ∨ T.config.Own p

theorem vouched_compile {name : String} {target : Target} {output : Path} {sources : List Path}
    {T : Toolchain} (h : ∀ p ∈ sources, T.config.Given p ∨ T.config.Own p) :
    T.Vouched (T.command ⟨name, T.compileCommand target output sources⟩) :=
  ⟨rfl, _, .compile target output sources,
    List.forall_mem_cons.2 ⟨.inl .compiler, List.forall_mem_cons.2 ⟨.inl .engine, h⟩⟩⟩

theorem baseSources_from (c : Config) (tools : Tools) :
    ∀ p ∈ (ofConfig c tools).baseSources, c.Given p ∨ c.Own p := by
  intro p hp
  rcases List.mem_append.1 hp with hp | hp
  · obtain ⟨name, hname, rfl⟩ := List.mem_map.1 hp
    exact .inl (.source (.inl hname))
  · obtain ⟨m, hm, rfl⟩ := List.mem_map.1 hp
    exact .inr (.module hm)

variable {host : HostTools} {target : Target}

theorem vouched_helperOrders (hc : c.Sensible) :
    ∀ o ∈ (ofConfig c tools).helperOrders target, (ofConfig c tools).Vouched ((ofConfig c tools).command o) := by
  have hengine : ∀ f, c.Given (c.engineFile f) := fun f => .source (.inr ⟨f, rfl⟩)
  unfold helperOrders
  refine List.forall_mem_cons.2 ⟨vouched_compile ?_, List.forall_mem_singleton.2 (vouched_compile ?_)⟩
  · refine List.forall_mem_append.2 ⟨baseSources_from c tools, ?_⟩
    refine List.forall_mem_cons.2 ⟨.inr ?_, List.forall_mem_singleton.2 (.inl (hengine _))⟩
    exact Config.own_made hc.root (by decide) (by decide)
  · exact List.forall_mem_append.2
      ⟨baseSources_from c tools, List.forall_mem_singleton.2 (.inl (hengine _))⟩

theorem vouched_orders (hc : c.Sensible) (ht : target ∈ Target.all)
    (hhost : ∃ p, host.precompiler = some p ∧ (c.Given p ∨ c.Own p)) :
    TargetBuild.Orders (ofConfig c tools) host target (ofConfig c tools).Vouched where
  helpers := vouched_helperOrders hc
  precompile entry := by
    obtain ⟨p, hp, hfrom⟩ := hhost
    have hword : TargetBuild.precompilerWord host = p.toString := by
      rw [TargetBuild.precompilerWord, hp]
      rfl
    refine ⟨rfl, [p], ?_, List.forall_mem_singleton.2 hfrom⟩
    show (ofConfig c tools).Reads ((ofConfig c tools).precompileCommand _ _ _) _
    rw [hword]
    exact .precompile p entry _
  link := by
    refine vouched_compile (List.forall_mem_cons.2 ⟨.inr ?_, baseSources_from c tools⟩)
    obtain ⟨-, -, -, hname⟩ := Target.isName_of_mem_all target ht
    exact Config.own_made hc.root (by decide) hname

end Toolchain

/-! ## The run -/

/-- The two stages before the tools passed, and all that the setup checks was there. -/
def Build.SetupPassed (c : Config) (w : Workspace) : Prop :=
  ∃ w₁ s₂, Build.Passed c w w₁ s₂ ∧
    c.Checked w.files.workingDirectory w₁.files s₂.work.files

/-- The command is one that the configuration vouches for, after a setup that passed. -/
def Toolchain.Heeds (T : Toolchain) (w : Workspace) (command : Command) : Prop :=
  Build.SetupPassed T.config w ∧ T.Vouched command

/-- All commands since a run of the workspace began are so. -/
def Toolchain.Heeded (T : Toolchain) (w : Workspace) (inv : List Invocation) : Prop :=
  Ran (T.Heeds w) w.invocations w.files inv

theorem Toolchain.Heeded.of_eq {T : Toolchain} {w : Workspace} {inv : List Invocation}
    (h : inv = w.invocations) : T.Heeded w inv :=
  h ▸ .refl _ _ _

namespace Build

variable {w : Workspace}

theorem meets_clean_passed (c : Config) :
    Meets (fun s : PatchState => s.work = w ∧ s.ledger.Sound) (PatchState.onWork (clean c))
      (fun _ s => ((clean c).runOn w = (.ok (), s.work) ∧ s.ledger.Sound) ∧
        s.work.invocations = w.invocations) fun _ s => s.work.invocations = w.invocations := by
  have hsilent : Keeps (fun s : PatchState => s.work.invocations = w.invocations)
      (PatchState.onWork (clean c)) := fun s hs => silent_clean (G := (· = w.invocations)) c s.work hs
  have hclean : Meets (fun s : PatchState => s.work = w ∧ s.ledger.Sound) (PatchState.onWork (clean c))
      (fun _ s => (clean c).runOn w = (.ok (), s.work) ∧ s.ledger.Sound) fun _ _ => True := by
    refine meets_of_runOn ?_ fun _ _ _ _ _ => trivial
    rintro s s' u ⟨rfl, hledger⟩ hrun
    rw [PatchState.runOn_onWork] at hrun
    obtain ⟨hok, rfl⟩ := Prod.mk.inj hrun
    exact ⟨Prod.ext hok rfl, hledger⟩
  exact (hclean.keeping hsilent).weaken (fun s hs => ⟨hs, congrArg Workspace.invocations hs.1⟩)
    (fun _ _ hs => hs) fun _ _ hs => hs.2

theorem meets_patch_passed (c : Config) :
    Meets (fun s => ((clean c).runOn w = (.ok (), s.work) ∧ s.ledger.Sound) ∧
        s.work.invocations = w.invocations) (patch c)
      (fun _ s => (∃ w₁, Passed c w w₁ s) ∧ s.work.invocations = w.invocations)
      fun _ s => s.work.invocations = w.invocations := by
  have hsilent : Keeps (fun s : PatchState => s.work.invocations = w.invocations) (patch c) :=
    fun s hs => (silent_patch (G := (· = w.invocations)) c s ⟨hs, trivial⟩).1
  have hpatch : Meets (fun s => (clean c).runOn w = (.ok (), s.work) ∧ s.ledger.Sound) (patch c)
      (fun _ s => ∃ w₁, Passed c w w₁ s) fun _ _ => True := by
    refine meets_of_runOn ?_ fun _ _ _ _ _ => trivial
    rintro s s' u ⟨hclean, hledger⟩ hrun
    exact ⟨s.work, hclean, s, rfl, hledger, hrun⟩
  exact (hpatch.keeping hsilent).weaken (fun _ hs => hs) (fun _ _ hs => hs) fun _ _ hs => hs.2

/-- **This machine's tools**: the precompiler that is given is checked, or one is built in the root. -/
theorem meets_prepareHost_heeds (hc : c.Sensible) :
    Meets (fun b => (∃ w₁, Passed c w w₁ b.patching) ∧ b.patching.work.invocations = w.invocations)
      (prepareHost (.ofConfig c tools))
      (fun _ b => SetupPassed c w ∧ (∃ p, b.host.precompiler = some p ∧ (c.Given p ∨ c.Own p)) ∧
        (Toolchain.ofConfig c tools).Heeded w b.patching.work.invocations)
      fun _ b => (Toolchain.ofConfig c tools).Heeded w b.patching.work.invocations := by
  unfold prepareHost
  dsimp only [Toolchain.ofConfig]
  rcases hp : c.hostPrecompiler with _ | p
  · refine Meets.bind (M := fun _ b => SetupPassed c w ∧
      (Toolchain.ofConfig c tools).Heeded w b.patching.work.invocations) ?_ fun _ =>
        Meets.assuming fun hpassed => ?_
    · rintro b ⟨⟨w₁, hpassed⟩, hinv⟩
      refine ⟨⟨w₁, b.patching, hpassed, hpassed.checked fun q hq => ?_⟩, .of_eq hinv⟩
      cases hp.symm.trans hq
    have hhelpers : Keeps (Of fun _ => (Toolchain.ofConfig c tools).Heeded w)
        ((Toolchain.ofConfig c tools).buildHelpers c.host (TargetBuild.stub c)) :=
      Toolchain.ran_buildHelpers fun o ho => ⟨hpassed, Toolchain.vouched_helperOrders hc o ho⟩
    refine Meets.bind (Keeps.meets (fun b hb => hhelpers b.patching.work hb) fun _ _ hb => hb)
      fun phases => ?_
    split
    · exact Meets.throw fun _ hb => hb
    · refine Meets.update fun b hb => ⟨hpassed, ⟨_, rfl, .inr ?_⟩, hb⟩
      exact Config.own_made hc.root (by decide) (Target.isName_of_mem_all c.host hc.host).2.2.1
  · refine Meets.bind (M := fun isFile b => ((∃ w₁, Passed c w w₁ b.patching) ∧
      b.patching.work.invocations = w.invocations) ∧ b.patching.work.files.isFile p = .ok isFile) ?_
      fun isFile => ?_
    · refine meets_of_runOn ?_ fun s s' f hs hrun => ?_
      · rintro s s' isFile hs hrun
        obtain ⟨hfile, rfl⟩ := Prod.mk.inj hrun
        exact ⟨hs, hfile⟩
      · obtain ⟨-, rfl⟩ := Prod.mk.inj hrun
        exact .of_eq hs.2
    cases isFile with
    | false => exact Meets.throw fun b hb => .of_eq hb.1.2
    | true =>
      rintro b ⟨⟨⟨w₁, hpassed⟩, hinv⟩, hfile⟩
      refine ⟨⟨w₁, b.patching, hpassed, hpassed.checked fun q hq => ?_⟩,
        ⟨p, rfl, .inl (.precompiler hp)⟩, .of_eq hinv⟩
      rwa [← Option.some.inj (hp.symm.trans hq)]

theorem meets_buildTargets_heeds (hc : c.Sensible) :
    Meets (fun b => SetupPassed c w ∧ (∃ p, b.host.precompiler = some p ∧ (c.Given p ∨ c.Own p)) ∧
        (Toolchain.ofConfig c tools).Heeded w b.patching.work.invocations)
      (buildTargets (.ofConfig c tools))
      (fun _ b => (Toolchain.ofConfig c tools).Heeded w b.patching.work.invocations)
      fun _ b => (Toolchain.ofConfig c tools).Heeded w b.patching.work.invocations := by
  unfold buildTargets
  refine Meets.assuming fun hpassed => Meets.bind (M := fun host b =>
    (∃ p, host.precompiler = some p ∧ (c.Given p ∨ c.Own p)) ∧
      (Toolchain.ofConfig c tools).Heeded w b.patching.work.invocations) ?_ fun host =>
        Meets.assuming fun hhost => ?_
  · exact fun b hb => hb
  have hbuild : Keeps (Of fun _ => (Toolchain.ofConfig c tools).Heeded w)
      (TargetBuild.buildAll (.ofConfig c tools) host c.targets) := by
    refine keeps_mapM fun target ht => TargetBuild.ran_build ?_
    have horders : TargetBuild.Orders (.ofConfig c tools) host target
        (Toolchain.ofConfig c tools).Vouched :=
      Toolchain.vouched_orders hc (hc.targets target ht) hhost
    exact ⟨fun o ho => ⟨hpassed, horders.helpers o ho⟩, fun entry => ⟨hpassed, horders.precompile entry⟩,
      hpassed, horders.link⟩
  exact Keeps.meets (fun b hb => hbuild b.patching.work hb) fun _ _ hb => hb

/-- Every command of a run is vouched for, and was run after a setup that passed. -/
theorem heeded_run (hc : c.Sensible) (tools : Tools) (now : String) (write : Bool) (w : Workspace) :
    (Toolchain.ofConfig c tools).Heeded w
      ((run (.ofConfig c tools) now write).runOn w).2.invocations := by
  let begun (s : PatchState) : Prop := s.work = w ∧ s.ledger.Sound
  let ended (s : PatchState) : Prop := (Toolchain.ofConfig c tools).Heeded w s.work.invocations
  have hreport : ∀ message, Keeps ended (PatchState.onWork (error message)) := fun _ _ hs => hs
  have hforward : Meets (fun b => begun b.patching) (forward (.ofConfig c tools))
      (fun _ b => ended b.patching) fun _ b => ended b.patching :=
    meets_forward_of hreport (fun _ _ hb => hb)
      ((meets_clean_passed c).weaken (fun _ hs => hs) (fun _ _ hs => hs) fun _ _ hs => .of_eq hs)
      ((meets_patch_passed c).weaken (fun _ hs => hs) (fun _ _ hs => hs) fun _ _ hs => .of_eq hs)
      (meets_prepareHost_heeds hc) (meets_buildTargets_heeds hc)
  exact meets_run (fun w' => (Toolchain.ofConfig c tools).Heeded w w'.invocations)
    (meets_execute_silent hforward now write) fun s hs hcovers => ⟨hs, hcovers.sound⟩

end Build

/-- **The files that are checked and patched are the files that are compiled**, as far as the settings
give absolute paths. In every run, wherever it ends, each command is run in the root of the project, after
a setup that found the compiler, the engine, the modules' files and the given precompiler, and that
patched files which are there. What a command line has the tool read is a path of the configuration. If
it was resolved or made, its text means for the tool what the path means for the process; and if the
settings give it, it does so where the path is absolute or the process stands in the root. -/
theorem operands_are_checked {w : Workspace} (hs : w.files.Sound) (hmade : c.IsMade w.files)
    (tools : Tools) (now : String) (write : Bool) :
    ∃ new, ((Build.run (.ofConfig c tools) now write).runOn w).2.invocations = w.invocations ++ new ∧
      ∀ i ∈ new, i.command.directory = c.root ∧
        (∃ w₁ s₂, Build.Passed c w w₁ s₂ ∧
          c.Checked w.files.workingDirectory w₁.files s₂.work.files) ∧
        ∃ operands, (Toolchain.ofConfig c tools).Reads i.command.arguments operands ∧
          ∀ p ∈ operands,
            (c.Given p ∧ (p.isAbsolute = true ∨ w.files.workingDirectory = c.root.parts →
              p.Denotes c.root.parts w.files.workingDirectory)) ∨
            (c.Own p ∧ p.Denotes c.root.parts w.files.workingDirectory) := by
  obtain ⟨new, hinv, hnew⟩ := Build.heeded_run (hmade.sensible hs) tools now write w
  refine ⟨new, hinv, fun i hi => ?_⟩
  obtain ⟨hpassed, hdirectory, operands, hreads, hfrom⟩ := hnew i hi
  refine ⟨hdirectory, hpassed, operands, hreads, fun p hp => ?_⟩
  rcases hfrom p hp with hgiven | hown
  · exact .inl ⟨hgiven, fun hd => hmade.denotes_given hgiven hd⟩
  · exact .inr ⟨hown, hmade.denotes_own hs hown _ _⟩

theorem operands_are_checked_small :
    ∃ i, ((Build.run (.ofConfig (.smallAt ["app"]) .failing) "now" true).runOn
        (.ofFiles (Config.filesAt ["app"]))).2.invocations = [i] ∧
      i.command.directory = ⟨.root, ["p"]⟩ ∧ (∃ fs fs', (Config.smallAt ["app"]).Checked [] fs fs') ∧
      ∃ operands, (Toolchain.ofConfig (.smallAt ["app"]) .failing).Reads i.command.arguments operands ∧
        ∀ p ∈ operands, p.Denotes ["p"] [] := by
  have hmade : (Config.smallAt ["app"]).IsMade (Config.filesAt ["app"]) :=
    Config.isMade_smallAt _ (by simp)
  have habsolute : ∀ {p}, (Config.smallAt ["app"]).Given p → p.isAbsolute = true := by
    intro p hp
    cases hp with
    | compiler | engine => rfl
    | source h =>
      rw [Path.div_name _ (hmade.isName_source h)]
      rfl
    | precompiler h => cases h
  have hlength : ((Build.run (.ofConfig (.smallAt ["app"]) .failing) "now" true).runOn
      (.ofFiles (Config.filesAt ["app"]))).2.invocations.length = 1 := by
    decide +kernel
  obtain ⟨new, hnew, hall⟩ := operands_are_checked (w := .ofFiles (Config.filesAt ["app"]))
    (Config.sound_filesAt _ (by simp)) hmade .failing "now" true
  obtain ⟨i, hi⟩ := List.length_eq_one_iff.1 hlength
  have hmem : i ∈ new := by
    rw [hi] at hnew
    rw [← hnew.trans (List.nil_append new)]
    exact List.mem_cons_self
  obtain ⟨hdirectory, ⟨w₁, s₂, -, hchecked⟩, operands, hreads, hoperands⟩ := hall i hmem
  refine ⟨i, hi, hdirectory, ⟨_, _, hchecked⟩, operands, hreads, fun p hp => ?_⟩
  rcases hoperands p hp with ⟨hgiven, hdenotes⟩ | ⟨-, hdenotes⟩
  · exact hdenotes (.inl (habsolute hgiven))
  · exact hdenotes

end CrossBuild
