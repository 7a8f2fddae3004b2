import CrossBuild.Proofs.Run.Watched

/-!
# What is compiled after an interrupted run

Patching starts from the text that is on disk, not from a backup. So the texts that tools find are
those of the plan applied to the pristine ones if nothing is on disk but the pristine texts or what
a run with the same modules left of them. What a run with other modules left is compiled as well.
-/

namespace CrossBuild

open FileSystem SourceText Workspace CrossBuild.Task

variable {c : Config} {tools tools' : Tools} {fs fs₁ : FileSystem} {w w' : Workspace}
  {starter : Option String}

/-! ## What is found and what is made of it -/

namespace Config

/-- The patches of a file of the engine. -/
def plan (c : Config) (starter : Option String) (f : EngineFile) : List Patch :=
  Patch.plan (c.modules.map (·.name)) starter f

/-- What a run finds of the engine when it begins to patch: a process starter, and three files that
are not the same one. -/
structure Finds (c : Config) (fs : FileSystem) (starter : Option String)
    (texts : EngineFile → Bytes) : Prop where
  starter : Build.starterIn c fs = .ok starter
  content : ∀ f, fs.content (c.engineFile f) = .ok (texts f)
  separate : ∀ f g l, fs.place true (c.engineFile f) = .ok l →
    fs.place true (c.engineFile g) = .ok l → f = g

/-- What is left of a pristine text: some first patches of the run's own plan are applied to it. If
there are any, a process starter has to be one that is known again. -/
def LeftOf (c : Config) (starter : Option String) (f : EngineFile) (pristine found : Bytes) : Prop :=
  ∃ first rest, c.plan starter f = first ++ rest ∧
    Patch.applyAll? ofString first (ofBytes pristine) = some (ofBytes found) ∧
    (first = [] ∨ ∀ text, starter = some text → Patch.DefinesStarter text)

/-- Every file of the engine holds what the plan makes of its pristine text. -/
def MadeOf (c : Config) (starter : Option String) (pristine : EngineFile → Bytes)
    (fs : FileSystem) : Prop :=
  ∀ f, ∃ b, fs.content (c.engineFile f) = .ok b ∧
    Patch.applyAll? ofString (c.plan starter f) (ofBytes (pristine f)) = some (ofBytes b)

/-- What is left of a text is patched to what the text itself is patched to. -/
theorem LeftOf.applyAll? (hnames : ∀ m ∈ c.modules, Module.isName m.name.toList = true)
    {f : EngineFile} {pristine found : Bytes} (h : c.LeftOf starter f pristine found) :
    Patch.applyAll? ofString (c.plan starter f) (ofBytes found) =
      Patch.applyAll? ofString (c.plan starter f) (ofBytes pristine) := by
  obtain ⟨first, rest, hplan, hfirst, hstarter⟩ := h
  rcases hstarter with rfl | hstarter
  · rw [Patch.applyAll?] at hfirst
    rw [Option.some.inj hfirst]
  · have hsteady : Patch.Steady ofString (c.plan starter f) := by
      refine Patch.steady_plan (fun n hn => ?_) hstarter f
      obtain ⟨m, hm, rfl⟩ := List.mem_map.1 hn
      exact hnames m hm
    rw [hplan] at hsteady ⊢
    exact hsteady.applyAll?_resumed hfirst

theorem Finds.located {texts : EngineFile → Bytes} (h : c.Finds fs starter texts) :
    ∃ spot, Located c.engineFile spot fs := by
  have hspot : ∀ f, ∃ l, fs.place true (c.engineFile f) = .ok l ∧
      ∃ b x, fs.node? l = some (.file b x) := by
    intro f
    obtain ⟨l, x, hplace, hfile⟩ := content_eq_ok_iff.1 (h.content f)
    exact ⟨l, hplace, _, x, hfile⟩
  choose spot hplace hfile using hspot
  refine ⟨spot, hplace, hfile, fun f g heq => ?_⟩
  exact h.separate f g (spot g) (heq ▸ hplace f) (hplace g)

/-- The texts stay while work goes on in the build trees and tools leave the engine alone. -/
theorem MadeOf.standing {pristine : EngineFile → Bytes} (h : c.MadeOf starter pristine fs₁)
    (hpatched : c.Patched fs₁) (hs : c.Standing fs₁ fs) : c.MadeOf starter pristine fs := by
  intro f
  obtain ⟨b, hb, hmade⟩ := h f
  obtain ⟨l, x, hplace, hfile⟩ := content_eq_ok_iff.1 hb
  refine ⟨b, content_eq_ok_iff.2 ⟨l, x, hs.place hpatched hplace hfile, ?_⟩, hmade⟩
  exact hs.files f l b x hplace hfile

end Config

/-! ## One run -/

section
variable {found pristine : EngineFile → Bytes}

/-- **The second stage** makes of what is left of the pristine texts what it makes of those. -/
theorem meets_patch_madeOf (hnames : ∀ m ∈ c.modules, Module.isName m.name.toList = true)
    (hfound : c.Finds (Build.cleaned c w) starter found)
    (hleft : ∀ f, c.LeftOf starter f (pristine f) (found f)) :
    Meets (c.Swept w) (Build.patch c) (fun _ s => c.MadeOf starter pristine s.work.files)
      fun _ _ => True := by
  obtain ⟨spot, hlocated⟩ := hfound.located
  refine Build.meets_patch_found (fun _ _ _ hs => hs) (fun _ _ _ => trivial) fun starter' => ?_
  refine meets_of_runOn ?_ fun _ _ _ _ _ => trivial
  rintro s s' changed ⟨⟨⟨-, hfiles⟩, hledger⟩, hstarter⟩ hrun
  rw [hfiles, hfound.starter] at hstarter
  obtain rfl := Except.ok.inj hstarter
  obtain ⟨-, -, htexts⟩ := Located.patchEngine_texts EngineFile.all s changed s' (by decide)
    (hfiles ▸ hlocated) hledger hrun
  intro f
  obtain ⟨b, b', hb, hb', hpatched⟩ := htexts f f.mem_all
  rw [hfiles, hfound.content f] at hb
  obtain rfl := Except.ok.inj hb
  exact ⟨b', hb', ((hleft f).applyAll? hnames).symm.trans hpatched⟩

/-- What the tools of a run find is made of the pristine texts alone. -/
theorem run_invokes_madeOf (hc : c.Sensible) (hsound : w.files.Sound)
    (hroot : w.files.lookup true c.root = .ok (c.root.parts, .directory))
    (hnames : ∀ m ∈ c.modules, Module.isName m.name.toList = true)
    (htools : tools.WritesOnlyOutput) (hunharmed : c.Unharmed tools)
    (hfound : c.Finds (Build.cleaned c w) starter found)
    (hleft : ∀ f, c.LeftOf starter f (pristine f) (found f)) (now : String) (write : Bool) :
    ∃ new, ((Build.run (Toolchain.ofConfig c tools) now write).runOn w).2.invocations =
        w.invocations ++ new ∧
      ∀ i ∈ new, c.MadeOf starter pristine i.before := by
  have hreal : w.files.IsReal c.root.parts := by
    refine hsound.isReal ?_ hroot
    unfold Path.isAbsolute
    rw [hc.root]
    rfl
  let P (fs : FileSystem) : Prop := c.Patched fs ∧ c.MadeOf starter pristine fs
  have hpatch : Meets (c.Swept w) (Build.patch c) (fun _ s => P s.work.files) fun _ _ => True := by
    have hpatched := (Config.meets_patch hnames).weaken
      (fun s (hs : c.Swept w s) => ⟨hs.1.1, hs.2⟩) (fun _ _ hs => hs) fun _ _ hs => hs
    exact (hpatched.and (meets_patch_madeOf hnames hfound hleft)).weaken (fun _ hs => hs)
      (fun _ _ hs => hs) fun _ _ _ => trivial
  have hbegins : ∀ s : PatchState, s.work = w → s.ledger.Covers c.enginePaths → c.Begins w s := by
    rintro s rfl hcovers
    exact ⟨⟨⟨hsound, hreal⟩, rfl⟩, hcovers.sound⟩
  obtain ⟨new, hnew, hall⟩ := Build.meets_run (fun w' => c.Watched P w.invocations w'.invocations)
    (watched_execute hc hreal.names (fun _ h => h.1) htools hunharmed hpatch now write) hbegins
  refine ⟨new, hnew, fun i hi => ?_⟩
  obtain ⟨fs₁, ⟨hpatched, hmade⟩, hs⟩ := hall i hi
  exact hmade.standing hpatched hs

end

/-! ## Two runs -/

/-- **What is compiled depends on the pristine texts and the run's own plan alone**: two runs of a
configuration show their tools the same engine, if what either finds on disk is the pristine text
or what a run with the same plan left of it. -/
theorem runs_invoke_alike (hc : c.Sensible) (hsound : w.files.Sound) (hsound' : w'.files.Sound)
    (hroot : w.files.lookup true c.root = .ok (c.root.parts, .directory))
    (hroot' : w'.files.lookup true c.root = .ok (c.root.parts, .directory))
    (hnames : ∀ m ∈ c.modules, Module.isName m.name.toList = true)
    (htools : tools.WritesOnlyOutput) (hunharmed : c.Unharmed tools)
    (htools' : tools'.WritesOnlyOutput) (hunharmed' : c.Unharmed tools')
    {pristine found found' : EngineFile → Bytes}
    (hfound : c.Finds (Build.cleaned c w) starter found)
    (hfound' : c.Finds (Build.cleaned c w') starter found')
    (hleft : ∀ f, c.LeftOf starter f (pristine f) (found f))
    (hleft' : ∀ f, c.LeftOf starter f (pristine f) (found' f)) (now now' : String)
    (write write' : Bool) :
    ∃ new new', ((Build.run (Toolchain.ofConfig c tools) now write).runOn w).2.invocations =
        w.invocations ++ new ∧
      ((Build.run (Toolchain.ofConfig c tools') now' write').runOn w').2.invocations =
        w'.invocations ++ new' ∧
      ∀ i ∈ new, ∀ i' ∈ new', ∀ f, ∃ b, i.before.content (c.engineFile f) = .ok b ∧
        i'.before.content (c.engineFile f) = .ok b := by
  obtain ⟨new, hnew, hmade⟩ :=
    run_invokes_madeOf hc hsound hroot hnames htools hunharmed hfound hleft now write
  obtain ⟨new', hnew', hmade'⟩ :=
    run_invokes_madeOf hc hsound' hroot' hnames htools' hunharmed' hfound' hleft' now' write'
  refine ⟨new, new', hnew, hnew', fun i hi i' hi' f => ?_⟩
  obtain ⟨b, hb, htext⟩ := hmade i hi f
  obtain ⟨b', hb', htext'⟩ := hmade' i' hi' f
  have hsame : b' = b := by
    rw [← toBytes_ofBytes b, ← toBytes_ofBytes b', Option.some.inj (htext'.symm.trans htext)]
  exact ⟨b, hb, hsame ▸ hb'⟩

/-! ## Two runs of a small project -/

namespace Config

/-- The small project's files without the backup. -/
def plainFiles : FileSystem :=
  smallFiles.remove ["q", "qjs.c.bak"]

/-- The interpreter's source before any patch. -/
def plainText : String :=
  "#include \"quickjs-libc.h\"\n    js_init_module_os(ctx, \"os\");\n"

/-- The interpreter's source patched for the project's own module. -/
def ownText : String :=
  "#include \"quickjs-libc.h\"\n\nJSModuleDef *js_init_module_hello(JSContext *ctx, const char *module_name);\n    js_init_module_os(ctx, \"os\");\n    js_init_module_hello(ctx, \"hello\");\n"

/-- The interpreter's source patched for another module. -/
def otherText : String :=
  "#include \"quickjs-libc.h\"\n\nJSModuleDef *js_init_module_other(JSContext *ctx, const char *module_name);\n    js_init_module_os(ctx, \"os\");\n    js_init_module_other(ctx, \"other\");\n"

/-- What is left of the project when a run ends in the midst of its patching, the interpreter's
source being done. -/
def leftFiles (text : String) : FileSystem :=
  (plainFiles.put ["q", "qjs.c"] (.file (.ofString text) false)).put
    ["q", "qjs.c.bak"] (.file (.ofString plainText) false)

/-- The pristine text of a file of the engine: that of its backup if there is one. -/
def pristine? (c : Config) (fs : FileSystem) (f : EngineFile) : Option Bytes :=
  (fs.content (c.engineBackup f)).toOption <|> (fs.content (c.engineFile f)).toOption

/-- What the tools of a run of the small project find in the interpreter's source. -/
def seen (fs : FileSystem) : List (Option Bytes) :=
  ((Build.run (Toolchain.ofConfig .small .failing) "now" false).runOn (.ofFiles fs)).2.invocations.map
    fun i => (i.before.content (small.engineFile .interpreter)).toOption

/-- The text of a file of the engine; empty if there is none. -/
def engineText (c : Config) (fs : FileSystem) (f : EngineFile) : Bytes :=
  ((fs.content (c.engineFile f)).toOption).getD []

/-- Files as a run of the small project finds them if no file of its engine was moved. -/
theorem finds_small {texts : EngineFile → Bytes}
    (hplace : ∀ f ∈ EngineFile.all, fs.place true (small.engineFile f) = .ok ["q", f.name])
    (hcontent : ∀ f ∈ EngineFile.all, fs.content (small.engineFile f) = .ok (texts f)) :
    small.Finds fs none texts where
  starter := rfl
  content f := hcontent f f.mem_all
  separate f g l hf hg := by
    rw [hplace f f.mem_all] at hf
    rw [hplace g g.mem_all, ← hf] at hg
    revert hg
    cases f <;> cases g <;> decide

/-- What a run of the small project with its own module left of the plain files. -/
theorem leftOf_leftFiles (f : EngineFile) :
    small.LeftOf none f (small.engineText plainFiles f) (small.engineText (leftFiles ownText) f) := by
  have hpatched : Patch.applyAll? ofString (small.plan none .interpreter)
      (ofBytes (small.engineText plainFiles .interpreter)) =
        some (ofBytes (small.engineText (leftFiles ownText) .interpreter)) := by
    decide +kernel
  -- the other two files were not reached
  have hplain : small.engineText plainFiles f = small.engineText (leftFiles ownText) f →
      small.LeftOf none f (small.engineText plainFiles f) (small.engineText (leftFiles ownText) f) :=
    fun h => ⟨[], small.plan none f, rfl, by rw [← h, Patch.applyAll?], .inl rfl⟩
  cases f with
  | library => exact hplain (by decide)
  | interpreter =>
    exact ⟨_, [], (List.append_nil _).symm, hpatched, .inr fun text htext => by cases htext⟩
  | precompiler => exact hplain (by decide)

end Config

theorem runs_invoke_alike_small :
    ∃ i i', ((Build.run (Toolchain.ofConfig .small .failing) "now" false).runOn
          (.ofFiles Config.plainFiles)).2.invocations = [i] ∧
      ((Build.run (Toolchain.ofConfig .small .failing) "now" false).runOn
          (.ofFiles (Config.leftFiles Config.ownText))).2.invocations = [i'] ∧
      ∀ f, ∃ b, i.before.content (Config.small.engineFile f) = .ok b ∧
        i'.before.content (Config.small.engineFile f) = .ok b := by
  have hseen : (Config.seen Config.plainFiles).length = 1 ∧
      (Config.seen (Config.leftFiles Config.ownText)).length = 1 := by
    decide +kernel
  simp only [Config.seen, List.length_map] at hseen
  have hleft : ((∀ e ∈ (Config.leftFiles Config.ownText).nodes, (∀ n ∈ e.1, IsName n) ∧
        (Config.leftFiles Config.ownText).isDirectoryAt e.1.dropLast = true ∧ isFollowable e.2 = true) ∧
      (Config.leftFiles Config.ownText).lookup true Config.small.root =
        .ok (Config.small.root.parts, .directory)) ∧
      ∀ f ∈ EngineFile.all,
        (Build.cleaned .small (.ofFiles (Config.leftFiles Config.ownText))).place true
            (Config.small.engineFile f) = .ok ["q", f.name] ∧
          (Build.cleaned .small (.ofFiles (Config.leftFiles Config.ownText))).content
            (Config.small.engineFile f) =
              .ok (Config.small.engineText (Config.leftFiles Config.ownText) f) := by
    decide +kernel
  have hplain : ∀ f ∈ EngineFile.all,
      (Build.cleaned .small (.ofFiles Config.plainFiles)).place true
          (Config.small.engineFile f) = .ok ["q", f.name] ∧
        (Build.cleaned .small (.ofFiles Config.plainFiles)).content
          (Config.small.engineFile f) = .ok (Config.small.engineText Config.plainFiles f) := by
    decide +kernel
  obtain ⟨new, new', hnew, hnew', halike⟩ := @runs_invoke_alike .small .failing .failing
    (.ofFiles Config.plainFiles) (.ofFiles (Config.leftFiles Config.ownText)) none
    Config.sensible_small (sound_of_nodes (by decide)) (sound_of_nodes hleft.1.1) (by rfl) hleft.1.2 (by decide)
    Tools.writesOnlyOutput_failing (fun _ _ _ _ _ _ => rfl)
    Tools.writesOnlyOutput_failing (fun _ _ _ _ _ _ => rfl) _ _ _
    (Config.finds_small (fun f hf => (hplain f hf).1) fun f hf => (hplain f hf).2)
    (Config.finds_small (fun f hf => (hleft.2 f hf).1) fun f hf => (hleft.2 f hf).2)
    (fun f => ⟨[], Config.small.plan none f, rfl, rfl, .inl rfl⟩) Config.leftOf_leftFiles
    "now" "now" false false
  obtain ⟨i, hi⟩ := List.length_eq_one_iff.1 hseen.1
  obtain ⟨i', hi'⟩ := List.length_eq_one_iff.1 hseen.2
  refine ⟨i, i', hi, hi', halike i ?_ i' ?_⟩
  · rw [← hnew.trans (List.nil_append new), hi]
    exact List.mem_cons_self
  · rw [← hnew'.trans (List.nil_append new'), hi']
    exact List.mem_cons_self

/-- What a run with another module left is compiled: the pristine texts are the same, and both runs
get as far as their first tool, but what it finds differs. -/
theorem leftovers_are_compiled :
    (∀ f ∈ EngineFile.all, Config.small.pristine? Config.plainFiles f =
        Config.small.pristine? (Config.leftFiles Config.otherText) f) ∧
      (Config.seen Config.plainFiles).length = 1 ∧
      (Config.seen (Config.leftFiles Config.otherText)).length = 1 ∧
      Config.seen Config.plainFiles ≠ Config.seen (Config.leftFiles Config.otherText) := by
  decide +kernel

end CrossBuild
