import CrossBuild.Proofs.FileSystem.Names
import CrossBuild.Proofs.FileSystem.Operations
import CrossBuild.Run.Build

/-!
# What tools are told to write

Every command of a run names one output, which lies in the directory of tools or in that of
applications. Nothing is known of a tool but that it writes at most what the command names.
-/

namespace CrossBuild

open FileSystem

namespace Command

/-- What follows the first `-o`. -/
def outputAfter : List String → Option String
  | [] => none
  | a :: rest => if a = "-o" then rest.head? else outputAfter rest

/-- The path that a command names as its output. -/
def output? (c : Command) : Option Path :=
  (outputAfter c.arguments.tail).map fun out : String => c.directory / out

theorem outputAfter_append {flags : List String} (h : "-o" ∉ flags) (output : String)
    (rest : List String) : outputAfter (flags ++ "-o" :: output :: rest) = some output := by
  induction flags with
  | nil => rfl
  | cons a flags ih =>
    rw [List.mem_cons, not_or] at h
    rw [List.cons_append, outputAfter, if_neg (Ne.symm h.1)]
    exact ih h.2

end Command

/-- A tool writes at most the file that its command names as output. It may also remove that file;
directories and links stay as they are, and so does every other file. -/
def Tools.WritesOnlyOutput (tools : Tools) : Prop :=
  ∀ earlier command fs,
    Refiled (fun l => ∃ p, command.output? = some p ∧ fs.place true p = .ok l) fs
      (tools.run earlier command fs).2

/-- Tools that find fault with everything. -/
def Tools.failing : Tools where
  run _ _ fs := (.exited 1 "", fs)

theorem Tools.writesOnlyOutput_failing : failing.WritesOnlyOutput :=
  fun _ _ fs => .refl fs

/-- No flag of the profile names an output. -/
def Profile.Plain (p : Profile) : Prop :=
  "-o" ∉ p.plainLevel ++ p.optimizedLevel ++ p.optimizedDarwinLinker ++ p.commonFlags ++
    p.featureFlags

theorem Profile.plain_standard (version : String) : (standard version).Plain := by
  show "-o" ∉ ["-O2"] ++ ["-O3", "-flto"] ++ ["-fuse-ld=lld"] ++ ["-Wno-ignored-attributes"] ++
    ["-fno-eval", "-fno-regexp", "-fno-proxy", "-fno-map", "-fno-typedarray", "-fno-promise"]
  decide

namespace Config

variable {c : Config}

/-- A configuration as it is worked out: it has a path from the root, targets of the table, a name
for the application, and a profile that leaves the output to the command. -/
structure Sensible (c : Config) : Prop where
  root : c.root.anchor = .root
  host : c.host ∈ Target.all
  targets : ∀ t ∈ c.targets, t ∈ Target.all
  application : '/' ∉ c.application.toList
  profile : c.profile.Plain

/-- A path of the run's outputs. -/
def IsOutput (c : Config) (p : Path) : Prop :=
  ∃ d n, (d = "bin" ∨ d = "dist") ∧ IsPart n ∧ n ≠ ".." ∧ p = ⟨.root, c.root.parts ++ [d, n]⟩

theorem isOutput_tools (hroot : c.root.anchor = .root) {n : String} (hn : IsPart n)
    (hdots : n ≠ "..") : c.IsOutput (c.toolsDirectory / n) := by
  refine ⟨"bin", n, .inl rfl, hn, hdots, ?_⟩
  rw [Path.div_part _ hn, toolsDirectory, Path.div_name _ (by decide), hroot]
  simp

theorem isOutput_dist (hroot : c.root.anchor = .root) {n : String} (hn : IsPart n)
    (hdots : n ≠ "..") : c.IsOutput (c.distDirectory / n) := by
  refine ⟨"dist", n, .inr rfl, hn, hdots, ?_⟩
  rw [Path.div_part _ hn, distDirectory, Path.div_name _ (by decide), hroot]
  simp

theorem IsOutput.isPart {p : Path} (h : c.IsOutput p) (hroot : ∀ part ∈ c.root.parts, IsName part) :
    ∀ part ∈ p.parts, IsPart part := by
  obtain ⟨d, n, hd, hn, -, rfl⟩ := h
  intro part hpart
  rcases List.mem_append.1 hpart with hpart | hpart
  · exact (hroot part hpart).isPart
  · rcases List.mem_cons.1 hpart with rfl | hpart
    · rcases hd with rfl | rfl <;> exact ⟨by decide, by decide, by decide⟩
    · rw [List.mem_singleton.1 hpart]
      exact hn

/-- An output's path is read back from its text. -/
theorem IsOutput.ofString_toString {p : Path} (h : c.IsOutput p)
    (hroot : ∀ part ∈ c.root.parts, IsName part) : Path.ofString p.toString = p := by
  have hparts := h.isPart hroot
  obtain ⟨d, n, -, -, -, rfl⟩ := h
  exact Path.ofString_toString hparts

theorem IsOutput.proper {p : Path} (h : c.IsOutput p) (hroot : ∀ part ∈ c.root.parts, IsName part) :
    p.Proper := by
  intro part hpart
  obtain ⟨hne, hslash, -⟩ := h.isPart hroot part hpart
  exact ⟨hne, hslash⟩

end Config

/-! ## The names of a target's files -/

namespace Target

theorem isName_of_mem_all : ∀ t ∈ all, IsName t.id ∧ IsName t.interpreter ∧ IsName t.precompiler ∧
    IsName (t.id ++ "_app.c") := by
  decide

theorem suffix_of_mem_all : ∀ t ∈ all, '/' ∉ t.suffix.toList ∧ 2 < t.suffix.toList.length := by
  decide

theorem flags_of_mem_all : ∀ t ∈ all, t.id ≠ "-o" ∧ "-o" ∉ t.compileFlags := by
  decide

theorem isPart_applicationName {t : Target} (ht : t ∈ all) {application : String}
    (h : '/' ∉ application.toList) :
    IsPart (t.applicationName application) ∧ t.applicationName application ≠ ".." := by
  obtain ⟨hslash, hlength⟩ := suffix_of_mem_all t ht
  have hlist : (t.applicationName application).toList = application.toList ++ t.suffix.toList :=
    String.toList_append
  refine isPart_of_length ?_ ?_
  · rw [hlist, List.mem_append]
    exact fun hmem => hmem.elim h hslash
  · rw [hlist, List.length_append]
    omega

end Target

/-! ## The outputs of the commands -/

namespace Toolchain

variable {c : Config} {tools : Tools} {target : Target} {p : Path}

theorem output?_of_isOutput (hp : c.IsOutput p) (hroot : ∀ part ∈ c.root.parts, IsName part)
    {first : String} {flags rest : List String} (hflags : "-o" ∉ flags) (timeout : Int) :
    Command.output? ⟨first :: flags ++ "-o" :: p.toString :: rest, c.root, timeout⟩ = some p := by
  have hout : c.root / p.toString = p := by
    show c.root.append (Path.ofString p.toString) = p
    rw [hp.ofString_toString hroot]
    obtain ⟨d, n, -, -, -, rfl⟩ := hp
    rfl
  show (Command.outputAfter (flags ++ "-o" :: p.toString :: rest)).map _ = _
  rw [Command.outputAfter_append hflags, Option.map_some, hout]

theorem output?_compile (hc : c.Sensible) (ht : target ∈ Target.all) (hp : c.IsOutput p)
    (hroot : ∀ part ∈ c.root.parts, IsName part) (sources : List Path) (timeout : Int) :
    Command.output? ⟨(ofConfig c tools).compileCommand target p sources, c.root, timeout⟩ =
      some p := by
  obtain ⟨hid, hcompile⟩ := Target.flags_of_mem_all target ht
  have hprofile := hc.profile
  unfold Profile.Plain at hprofile
  simp only [List.mem_append, not_or] at hprofile
  obtain ⟨⟨⟨⟨hplain, hoptimized⟩, hdarwin⟩, hcommon⟩, -⟩ := hprofile
  have hlevel : ∀ darwin, "-o" ∉ c.profile.levelFlags c.optimized darwin := by
    intro darwin
    unfold Profile.levelFlags
    split
    · rw [List.mem_append, not_or]
      refine ⟨hoptimized, ?_⟩
      split
      · exact hdarwin
      · exact List.not_mem_nil
    · exact hplain
  have hinclude : "-o" ≠ "-I" ++ c.engine.toString := by
    intro h
    have := congrArg (fun s => s.toList[1]?) h
    simp at this
  have hversion : "-o" ≠ "-DCONFIG_VERSION=\"" ++ c.profile.engineVersion ++ "\"" := by
    intro h
    have := congrArg (fun s => s.toList[1]?) h
    simp at this
  have hstrip : "-o" ∉ if c.profile.stripSymbols then ["-s"] else [] := by
    split <;> decide
  have hargs : (ofConfig c tools).compileCommand target p sources =
      c.compiler.toString :: (["cc", "-target", target.id, "-I" ++ c.engine.toString] ++
        c.profile.levelFlags c.optimized (target.family == .darwin) ++ target.compileFlags ++
        c.profile.commonFlags ++ ["-DCONFIG_VERSION=\"" ++ c.profile.engineVersion ++ "\""] ++
        (if c.profile.stripSymbols then ["-s"] else [])) ++
        "-o" :: p.toString :: (sources.map Path.toString ++ target.linkFlags) := by
    simp only [compileCommand, ofConfig, List.append_assoc, List.cons_append, List.nil_append]
    rfl
  rw [hargs]
  refine output?_of_isOutput hp hroot ?_ timeout
  simp only [List.mem_append, not_or]
  refine ⟨⟨⟨⟨⟨?_, hlevel _⟩, hcompile⟩, hcommon⟩, ?_⟩, hstrip⟩
  · simp [hinclude, hid.symm]
  · simp [hversion]

theorem output?_precompile (hc : c.Sensible) (hp : c.IsOutput p)
    (hroot : ∀ part ∈ c.root.parts, IsName part) (precompiler : String) (entry : Path)
    (timeout : Int) :
    Command.output? ⟨(ofConfig c tools).precompileCommand precompiler entry p, c.root, timeout⟩ =
      some p := by
  have hprofile := hc.profile
  unfold Profile.Plain at hprofile
  simp only [List.mem_append, not_or] at hprofile
  have hflags : "-o" ∉ c.profile.precompilerFlags c.optimized ++ ["-e"] := by
    unfold Profile.precompilerFlags
    rw [List.mem_append, not_or]
    refine ⟨?_, by decide⟩
    split
    · exact hprofile.2
    · exact List.not_mem_nil
  have hargs : (ofConfig c tools).precompileCommand precompiler entry p =
      precompiler :: (c.profile.precompilerFlags c.optimized ++ ["-e"]) ++
        "-o" :: p.toString :: [entry.toString] := by
    simp [precompileCommand, ofConfig]
  rw [hargs]
  exact output?_of_isOutput hp hroot hflags timeout

end Toolchain

end CrossBuild
