import CrossBuild.Proofs.FileSystem.Trail
import CrossBuild.Proofs.FileSystem.Agree
import CrossBuild.Proofs.Run.Receipt

/-!
# Projects

A build reads the manifest of a project and works its configuration out. Such a configuration has a
real directory as its root, and paths without dots and links for its root and its entry script.
-/

namespace CrossBuild

open FileSystem

namespace FileSystem

variable {fs : FileSystem} {l m : Location} {p r : Path} {name : String}

/-- No name in the file system is longer than the system allows. -/
def Short (fs : FileSystem) : Prop :=
  ∀ l node, fs.node? l = some node → ∀ n ∈ l, n.utf8ByteSize ≤ maxNameBytes

/-- A directory in a sound file system is real. -/
theorem Sound.isReal_of_short (hs : fs.Sound) (hshort : fs.Short) (hl : fs.isDirectoryAt l = true) :
    fs.IsReal l where
  directories := hs.isDirectoryAt_above hl
  names := hs.names l _ (isDirectoryAt_iff.1 hl)
  short := hshort l _ (isDirectoryAt_iff.1 hl)

/-! ## What resolving gives -/

theorem mem_foldl_tread {parts : List String} {n : String} :
    ∀ {here : Location}, n ∈ parts.foldl tread here →
      n ∈ here ∨ (n ∈ parts ∧ n ≠ "." ∧ n ≠ "..") := by
  induction parts with
  | nil => exact fun h => .inl h
  | cons part rest ih =>
    intro here h
    rw [List.foldl_cons] at h
    rcases ih h with h | ⟨h, hn⟩
    · rw [tread] at h
      split at h
      · exact .inl h
      split at h
      · exact .inl (List.dropLast_subset _ h)
      next hdot hdots =>
      rcases List.mem_append.1 h with h | h
      · exact .inl h
      · rw [List.mem_singleton.1 h]
        exact .inr ⟨List.mem_cons_self, hdot, hdots⟩
    · exact .inr ⟨List.mem_cons_of_mem _ h, hn⟩

theorem mem_tidy {n : String} (h : n ∈ tidy l) : n ∈ l ∧ n ≠ "." ∧ n ≠ ".." :=
  (mem_foldl_tread h).resolve_left (by simp)

/-- What is followed is made of the pieces of its parts, of the links and of where it started. -/
theorem Sound.isPiece_of_follow (hs : fs.Sound) {nesting : Nat} {pending : List Location}
    {here : Location} {parts : List String} (hhere : ∀ n ∈ here, IsPiece n)
    (hparts : ∀ n ∈ parts, IsPiece n) : ∀ n ∈ (fs.follow nesting pending here parts).2, IsPiece n := by
  have hjoin : ∀ {l : Location} {xs : List String}, (∀ n ∈ l, IsPiece n) → (∀ n ∈ xs, IsPiece n) →
      ∀ n ∈ l ++ xs, IsPiece n := fun hl hxs n hn =>
    (List.mem_append.1 hn).elim (hl n) (hxs n)
  have hlink : ∀ {m : Location} {target : String}, fs.node? m = some (.link target) →
      ∀ n ∈ linkParts target, IsPiece n := fun hm n hn =>
    isPiece_of_mem_linkParts (hs.links _ _ hm) hn
  have hstart : ∀ {target : String} {here : Location}, (∀ n ∈ here, IsPiece n) →
      ∀ n ∈ (if target.startsWith "/" = true then [] else here : Location), IsPiece n := by
    intro target here hhere n hn
    split at hn
    · cases hn
    · exact hhere n hn
  fun_induction fs.follow nesting pending here parts
  case case1 => exact hhere
  case case2 ih => exact ih hhere (List.forall_mem_cons.1 hparts).2
  case case3 ih =>
    exact ih (fun n hn => hhere n (List.dropLast_subset _ hn)) (List.forall_mem_cons.1 hparts).2
  case case4 | case5 =>
    obtain ⟨hpart, hrest⟩ := List.forall_mem_cons.1 hparts
    exact hjoin (hjoin hhere (by simpa using hpart)) hrest
  case case6 hnode _ _ _ _ hinside ihInside ih =>
    rw [hinside] at ihInside
    exact ih (ihInside (hstart hhere) (hlink hnode)) (List.forall_mem_cons.1 hparts).2
  case case7 hnode _ _ _ _ hinside ihInside =>
    rw [hinside] at ihInside
    exact hjoin (ihInside (hstart hhere) (hlink hnode)) (List.forall_mem_cons.1 hparts).2
  case case8 ih =>
    obtain ⟨hpart, hrest⟩ := List.forall_mem_cons.1 hparts
    exact ih (hjoin hhere (by simpa using hpart)) hrest

/-- A path that is resolved has an absolute path of names. -/
theorem Sound.names_of_resolve (hs : fs.Sound) (hp : p.Proper)
    (horigin : ∀ n ∈ fs.origin p, IsPiece n) (h : fs.resolve p = .ok r) :
    r.anchor = .root ∧ ∀ part ∈ r.parts, IsName part := by
  unfold resolve at h
  split at h
  · cases h
  next hnul =>
  rw [Bool.not_eq_true] at hnul
  have hpieces : ∀ n ∈ (fs.follow (fs.nodes.length + 1) [] (fs.origin p) p.parts).2, IsPiece n :=
    hs.isPiece_of_follow horigin (hp.isPiece hnul)
  dsimp only at h
  split at h
  · cases h
  · rw [← Except.ok.inj h]
    refine ⟨rfl, fun part hpart => ?_⟩
    obtain ⟨hmem, hdot, hdots⟩ := mem_tidy hpart
    exact ⟨hpieces part hmem, hdot, hdots⟩

/-- The directory of a file is where its path is resolved to. -/
theorem Sound.isDirectoryAt_of_isFile (hs : fs.Sound) (hname : IsName name)
    (hfile : fs.isFile (p / name) = .ok true) (h : fs.resolve p = .ok r) :
    r.anchor = .root ∧ fs.isDirectoryAt r.parts = true := by
  rw [p.div_name hname] at hfile
  obtain ⟨l, node, hplace, -, -⟩ := (test_cases hfile).resolve_right (by simp)
  obtain ⟨m, hm, hresolve, -⟩ :=
    exists_resolve_of_place_last rfl (.refl fs) hs hname hplace
  obtain rfl := Except.ok.inj (h.symm.trans hresolve)
  exact ⟨rfl, hm⟩

end FileSystem

/-! ## Reading manifests -/

theorem Validated.of_toExcept_eq_ok {α β γ : Type} {f : α → β → γ} {x : Validated α}
    {y : Validated β} {model : String} {c : γ} (h : (f <$> x <*> y).toExcept model = .ok c) :
    ∃ a b, x = .valid a ∧ y = .valid b ∧ f a b = c := by
  cases x <;> cases y <;> cases h
  exact ⟨_, _, rfl, rfl, rfl⟩

theorem Reader.eq_str_of_valid {key : Key} {j : Json} {s : String}
    (h : (Reader.string j).under key = .valid s) : j = .str s := by
  cases j <;> cases h
  rfl

namespace Manifest

variable {fs : FileSystem} {root : Path} {m : Manifest}

theorem not_mem_of_unscoped {j : Json} {s : String} (h : unscoped j = .str s) : '/' ∉ s.toList := by
  unfold unscoped at h
  split at h
  · next t =>
    rw [← Json.str.inj h]
    have hmem : (Text.splitString '/' t).getLastD "" ∈ "" :: Text.splitString '/' t :=
      List.getLastD_mem_cons ..
    rcases List.mem_cons.1 hmem with hempty | hmem
    · rw [hempty]
      decide
    · obtain ⟨cs, hcs, heq⟩ := List.mem_map.1 hmem
      rw [← heq, String.toList_ofList]
      exact Text.not_mem_of_mem_splitAt hcs
  · next hother => exact absurd h (hother s)

theorem name_of_ofMembers {members : List (String × Json)} (h : ofMembers members = .ok m) :
    '/' ∉ m.name.toList := by
  obtain ⟨s, engine, hs, -, rfl⟩ := Validated.of_toExcept_eq_ok h
  exact not_mem_of_unscoped (Reader.eq_str_of_valid hs)

/-- A manifest is read if its file has the members of one and its modules are registered. -/
theorem load_eq_ok_iff : load fs root = .ok m ↔ fs.isFile (root / fileName) = .ok true ∧
    (∃ members, readJson fs (root / fileName) = .ok (.obj members) ∧ ofMembers members = .ok m) ∧
      ∃ registered, m.registrations fs root = .ok registered := by
  constructor
  · intro h
    unfold load at h
    dsimp only at h
    obtain ⟨isFile, hfile, h⟩ := of_bind_eq_ok h
    cases isFile with
    | false => cases h
    | true =>
      obtain ⟨-, -, h⟩ := of_bind_eq_ok h
      obtain ⟨j, hjson, h⟩ := of_bind_eq_ok h
      split at h
      swap
      · cases h
      next members =>
      split at h
      · cases h
      next m' hmembers =>
      obtain ⟨registered, hblame, h⟩ := of_bind_eq_ok h
      obtain rfl := Except.ok.inj h
      refine ⟨hfile, ⟨members, hjson, hmembers⟩, registered, ?_⟩
      unfold blame at hblame
      split at hblame
      · cases hblame
      · exact hblame
  · rintro ⟨hfile, ⟨members, hjson, hmembers⟩, registered, hregistered⟩
    simp [load, hfile, hjson, hmembers, hregistered, blame, bind, Except.bind, pure, Except.pure]

/-- A manifest is that of a directory with a file for it, and names the application by a name. -/
theorem of_load (h : load fs root = .ok m) :
    fs.isFile (root / fileName) = .ok true ∧ '/' ∉ m.name.toList := by
  obtain ⟨hfile, ⟨members, -, hmembers⟩, -⟩ := load_eq_ok_iff.1 h
  exact ⟨hfile, name_of_ofMembers hmembers⟩

end Manifest

/-! ## Working configurations out -/

theorem Target.mem_all_of_host {system machine : String} {t : Target}
    (h : host system machine = .ok t) : t ∈ all := by
  unfold host at h
  dsimp only at h
  split at h
  · rw [← Except.ok.inj h]
    split <;> decide
  · rw [← Except.ok.inj h]
    split <;> decide
  · rw [← Except.ok.inj h]
    decide
  · rw [← Except.ok.inj h]
    decide
  · cases h

namespace Config

variable {c : Config} {fs : FileSystem}

/-- The configuration is what a build works out for a project: the manifest in some directory is read,
and the rest follows from it, the settings, the chosen targets and the machine. -/
def IsMade (c : Config) (fs : FileSystem) : Prop :=
  ∃ (around : Surroundings) (root : String) (m : Manifest) (s : Settings) (ids : List String)
    (system machine : Option String), Manifest.load fs (.ofString root) = .ok m ∧
      create around fs (.ofString root) m s ids system machine = .ok c

/-- What a configuration has from the project, the settings and the machine. -/
structure Created (around : Surroundings) (fs : FileSystem) (root : Path) (m : Manifest) (s : Settings)
    (c : Config) : Prop where
  root : fs.resolve root = .ok c.root
  entry : fs.resolve (c.root / m.input) = .ok c.entry
  modules : m.registrations fs c.root = .ok c.modules
  compiler : s.compilerPath around = .ok c.compiler
  engine : s.enginePath around = .ok c.engine
  hostPrecompiler : c.hostPrecompiler = (Settings.given? s.hostPrecompiler).map .ofString
  host : c.host ∈ Target.all
  application : c.application = m.name
  profile : c.profile = .standard s.engineVersion

theorem of_create {around : Surroundings} {root : Path} {m : Manifest} {s : Settings}
    {ids : List String} {system machine : Option String}
    (h : create around fs root m s ids system machine = .ok c) : Created around fs root m s c := by
  unfold create at h
  obtain ⟨root, hroot, h⟩ := of_bind_eq_ok h
  obtain ⟨host, hhost, h⟩ := of_bind_eq_ok h
  obtain ⟨entry, hentry, h⟩ := of_bind_eq_ok h
  obtain ⟨modules, hmodules, h⟩ := of_bind_eq_ok h
  obtain ⟨compiler, hcompiler, h⟩ := of_bind_eq_ok h
  obtain ⟨engine, hengine, h⟩ := of_bind_eq_ok h
  obtain ⟨targets, -, h⟩ := of_bind_eq_ok h
  obtain rfl := Except.ok.inj h
  exact ⟨hroot, hentry, hmodules, hcompiler, hengine, rfl, Target.mem_all_of_host hhost, rfl, rfl⟩

namespace IsMade

variable (h : c.IsMade fs)
include h

theorem targets : c.targets.Nodup ∧ ∀ t ∈ c.targets, t ∈ Target.all := by
  obtain ⟨_, _, _, _, ids, _, _, -, hcreate⟩ := h
  rw [(targets_of_create hcreate).1]
  have hnodup : Target.all.Nodup := by decide
  exact ⟨hnodup.filter _, fun t ht => (List.mem_filter.1 ht).1⟩

/-- The root is the directory that the manifest is in. -/
theorem root_isDirectory (hs : fs.Sound) :
    c.root.anchor = .root ∧ fs.isDirectoryAt c.root.parts = true := by
  obtain ⟨_, _, _, _, _, _, _, hload, hcreate⟩ := h
  exact hs.isDirectoryAt_of_isFile (by decide) (Manifest.of_load hload).1 (of_create hcreate).root

theorem real (hs : fs.Sound) (hshort : fs.Short) : fs.IsReal c.root.parts :=
  hs.isReal_of_short hshort (h.root_isDirectory hs).2

/-- A made configuration can be put back, if nothing is in the way of that. -/
theorem restorable (hs : fs.Sound) (hshort : fs.Short)
    (hlinks : ∀ l, c.yard.Within l → ∀ target, fs.node? l ≠ some (.link target))
    (houtside : c.yard.Outside fs c.engine) (hengine : ∀ f, fs.IsFileOrAbsent (c.engineFile f))
    (hbackups : ∀ f, fs.IsFileOrAbsent (c.engineBackup f))
    (hlimit : c.toolsDirectory.toString.utf8ByteSize < pathByteLimit) : c.Restorable fs := by
  obtain ⟨hanchor, hdir⟩ := h.root_isDirectory hs
  have hpath : c.root = ⟨.root, c.root.parts⟩ := by rw [← hanchor]
  have htools : c.toolsDirectory = ⟨.root, c.root.parts ++ ["bin"]⟩ := by
    unfold toolsDirectory
    rw [Path.div_name _ (by decide), hanchor]
  have habs : c.root.isAbsolute = true := by
    rw [Path.isAbsolute, hanchor]
    rfl
  have hshorter : c.root.toString.utf8ByteSize ≤ c.toolsDirectory.toString.utf8ByteSize := by
    rw [hpath, htools]
    exact Path.utf8ByteSize_toString_le (List.prefix_append _ _)
  refine ⟨hs, lookup_eq_ok_iff.2 ⟨?_, isDirectoryAt_iff.1 hdir⟩, hlinks, houtside, hengine, hbackups,
    hlimit⟩
  exact (h.real hs hshort).place habs (Nat.lt_of_le_of_lt hshorter hlimit)

theorem sensible (hs : fs.Sound) : c.Sensible := by
  have hroot := (h.root_isDirectory hs).1
  have htargets := h.targets.2
  obtain ⟨_, _, m, s, _, _, _, hload, hcreate⟩ := h
  have hcreated := of_create hcreate
  refine ⟨hroot, hcreated.host, htargets, ?_, ?_⟩
  · rw [hcreated.application]
    exact (Manifest.of_load hload).2
  · rw [hcreated.profile]
    exact Profile.plain_standard _

/-- What is resolved as seen from the root has an absolute path of names. -/
theorem names_of_resolve (hs : fs.Sound) {text : String} {p : Path}
    (hp : fs.resolve (c.root / text) = .ok p) :
    p.anchor = .root ∧ ∀ part ∈ p.parts, IsName part := by
  have hroot := h.root_isDirectory hs
  have hnames := hs.names _ _ (isDirectoryAt_iff.1 hroot.2)
  have hinput := Path.proper_ofString text
  have habs : (c.root / text).isAbsolute = true := by
    show (c.root.append (.ofString text)).isAbsolute = true
    unfold Path.append Path.isAbsolute
    split
    · rw [hroot.1]
      rfl
    · next hanchor => simpa using hanchor
  have hproper : (c.root / text).Proper := by
    show (c.root.append (.ofString text)).Proper
    unfold Path.append
    split
    · intro part hpart
      rcases List.mem_append.1 hpart with hpart | hpart
      · exact ⟨(hnames part hpart).1.1, (hnames part hpart).1.2.1⟩
      · exact hinput part hpart
    · exact hinput
  refine hs.names_of_resolve hproper ?_ hp
  rw [origin_of_isAbsolute habs]
  exact fun n hn => by cases hn

/-- The entry script has an absolute path of names. -/
theorem entry (hs : fs.Sound) :
    c.entry.anchor = .root ∧ ∀ part ∈ c.entry.parts, IsName part := by
  have hnames := @names_of_resolve c fs h hs
  obtain ⟨_, _, m, _, _, _, _, -, hcreate⟩ := h
  exact hnames (of_create hcreate).entry

/-- A precompiler for this machine can be set for any project. -/
theorem with_precompiler {s : String} (hs : s ≠ "") :
    Config.IsMade { c with hostPrecompiler := some (.ofString s) } fs := by
  obtain ⟨around, root, m, settings, ids, system, machine, hload, hcreate⟩ := h
  refine ⟨around, root, m, { settings with hostPrecompiler := some s }, ids, system, machine, hload, ?_⟩
  unfold create at hcreate ⊢
  obtain ⟨root, hroot, hcreate⟩ := of_bind_eq_ok hcreate
  obtain ⟨host, hhost, hcreate⟩ := of_bind_eq_ok hcreate
  obtain ⟨entry, hentry, hcreate⟩ := of_bind_eq_ok hcreate
  obtain ⟨modules, hmodules, hcreate⟩ := of_bind_eq_ok hcreate
  obtain ⟨compiler, hcompiler, hcreate⟩ := of_bind_eq_ok hcreate
  obtain ⟨engine, hengine, hcreate⟩ := of_bind_eq_ok hcreate
  obtain ⟨targets, htargets, hcreate⟩ := of_bind_eq_ok hcreate
  obtain rfl := Except.ok.inj hcreate
  have hcompiler' : Settings.compilerPath { settings with hostPrecompiler := some s } around =
      .ok compiler := hcompiler
  have hengine' : Settings.enginePath { settings with hostPrecompiler := some s } around =
      .ok engine := hengine
  have hgiven : Settings.given? (some s) = some s := by
    simp [Settings.given?, hs]
  simp only [hroot, hhost, hentry, hmodules, hcompiler', hengine', htargets, hgiven, bind, Except.bind,
    Option.map_some]
  rfl

end IsMade

/-! ## A small project with a manifest -/

/-- The small project without modules, with its entry script in a directory of its root, or in the
root. -/
def smallAt (way : List String) : Config :=
  { small with entry := ⟨.root, "p" :: way ++ ["index.mjs"]⟩, modules := [] }

/-- What that project says about itself. -/
def manifestAt (way : List String) : Manifest :=
  { smallManifest with input := String.intercalate "/" (way ++ ["index.mjs"]), modules := [] }

/-- The files of that project, and those that it is built with. -/
def filesAt (way : List String) : FileSystem where
  nodes := bareEngine.nodes ++ [(["zig"], .file [] true), (["p"], .directory),
    (["p", Manifest.fileName], .file (.ofString ("\x7b\"name\": \"a\", \"quickJs\": \x7b\"input\": \"" ++
      (manifestAt way).input ++ "\"\x7d\x7d")) false),
    ("p" :: way, .directory), ("p" :: way ++ ["index.mjs"], .file [] false)]
  workingDirectory := []

theorem unlinked_filesAt (way : List String) : (filesAt way).Unlinked :=
  unlinked_of_nodes (by simp [filesAt, bareEngine])

theorem isMade_of_resolve (way : List String) {fs : FileSystem}
    (hload : Manifest.load fs (.ofString "/p") = .ok (manifestAt way))
    (hroot : fs.resolve (.ofString "/p") = .ok (smallAt way).root)
    (hscript : fs.resolve ((smallAt way).root / (manifestAt way).input) = .ok (smallAt way).entry) :
    (smallAt way).IsMade fs := by
  refine ⟨⟨[], [], "Linux", "x86_64", "", ""⟩, "/p", manifestAt way, smallSettings,
    ["x86_64-linux-gnu"], none, none, hload, ?_⟩
  have hhost : Target.host "Linux" "x86_64" = .ok .linux64 := by rfl
  unfold create
  simp only [hroot, hscript, bind, Except.bind, Option.getD]
  rw [hhost]
  rfl

theorem isMade_smallAt : ∀ way ∈ [[], ["app"], ["build"], ["dist"]],
    (smallAt way).IsMade (filesAt way) := by
  have hload : ∀ way ∈ [[], ["app"], ["build"], ["dist"]],
      Manifest.load (filesAt way) (.ofString "/p") = .ok (manifestAt way) := by
    decide +kernel
  have hentry : ∀ way ∈ [[], ["app"], ["build"], ["dist"]],
      (smallAt way).root / (manifestAt way).input = (smallAt way).entry ∧
        ∀ part ∈ (smallAt way).entry.parts, IsName part := by
    decide
  intro way hway
  obtain ⟨hpath, hnames⟩ := hentry way hway
  refine isMade_of_resolve way (hload way hway) ((unlinked_filesAt way).resolve_self rfl (by decide)) ?_
  rw [hpath]
  exact (unlinked_filesAt way).resolve_self rfl hnames

theorem sound_filesAt : ∀ way ∈ [[], ["app"], ["build"], ["dist"]], (filesAt way).Sound := by
  have hnodes : ∀ way ∈ [[], ["app"], ["build"], ["dist"]], ∀ e ∈ (filesAt way).nodes,
      (∀ n ∈ e.1, IsName n) ∧ (filesAt way).isDirectoryAt e.1.dropLast = true ∧
        isFollowable e.2 = true := by
    decide
  exact fun way hway => sound_of_nodes (hnodes way hway)

theorem short_filesAt : ∀ way ∈ [[], ["app"], ["build"], ["dist"]], (filesAt way).Short := by
  have hnodes : ∀ way ∈ [[], ["app"], ["build"], ["dist"]], ∀ e ∈ (filesAt way).nodes,
      ∀ n ∈ e.1, n.utf8ByteSize ≤ maxNameBytes := by
    decide
  intro way hway l node hnode n hn
  exact hnodes way hway _ (mem_nodes hnode (List.ne_nil_of_mem hn)) n hn

end Config

end CrossBuild
