import CrossBuild.Proofs.Run.Watched

/-!
# No tool runs on unpatched sources

Every tool of a run finds the engine as the patching left it, and there each file holds the texts of
every module.
-/

namespace CrossBuild

open FileSystem SourceText Workspace CrossBuild.Task

variable {c : Config} {tools : Tools} {fs : FileSystem}

section
variable {earlier : List Invocation}

/-- Every tool that ran since the earlier ones ran on patched files. -/
def Config.Traced (c : Config) (earlier inv : List Invocation) : Prop :=
  ∃ new, inv = earlier ++ new ∧ ∀ i ∈ new, c.Equipped EngineFile.all i.before

/-- How a run begins: no tool ran yet. -/
def Config.Begun (c : Config) (earlier : List Invocation) (s : PatchState) : Prop :=
  (c.Rooted s.work.files ∧ s.work.invocations = earlier) ∧ s.ledger.Sound

theorem Config.Watched.traced {inv : List Invocation} (h : c.Watched c.Patched earlier inv) :
    c.Traced earlier inv := by
  obtain ⟨new, hnew, hall⟩ := h
  refine ⟨new, hnew, fun i hi => ?_⟩
  obtain ⟨fs₁, hpatched, hs⟩ := hall i hi
  exact hs.equipped hpatched

/-- However the run ends, every tool ran on patched files. -/
theorem traced_execute (hc : c.Sensible) (hroot : ∀ part ∈ c.root.parts, IsName part)
    (hnames : ∀ m ∈ c.modules, Module.isName m.name.toList = true)
    (htools : tools.WritesOnlyOutput) (hunharmed : c.Unharmed tools) (now : String) (write : Bool) :
    Meets (fun s => c.Begun earlier s.patching)
      (Build.execute (Toolchain.ofConfig c tools) now write)
      (fun _ s => c.Traced earlier s.patching.work.invocations)
      fun _ s => c.Traced earlier s.patching.work.invocations := by
  rintro s ⟨⟨hrooted, rfl⟩, hledger⟩
  have hpatch : Meets (c.Swept s.patching.work) (Build.patch c) (fun _ s => c.Patched s.work.files)
      fun _ _ => True :=
    (Config.meets_patch hnames).weaken (fun _ hs => ⟨hs.1.1, hs.2⟩) (fun _ _ hs => hs)
      fun _ _ hs => hs
  have hwatched := watched_execute hc hroot (fun _ h => h) htools hunharmed hpatch now write
  refine hwatched.weaken (fun _ hs => hs) (fun _ _ hs => Config.Watched.traced hs)
    (fun _ _ hs => Config.Watched.traced hs) s ?_
  exact ⟨⟨hrooted, rfl⟩, hledger⟩

end

/-- What a text has to hold, its bytes hold. -/
theorem SourceText.bytes_within {t : String} {b : Bytes} (h : ofString t <:+: ofBytes b) :
    Bytes.ofString t <:+: b := by
  obtain ⟨before, after, heq⟩ := h
  refine ⟨toBytes before, toBytes after, ?_⟩
  rw [← toBytes_ofString, ← toBytes_append, ← toBytes_append, heq, toBytes_ofBytes]

/-- **No tool runs on unpatched sources.** In every run, whatever the sources were at first and
whatever the tools do to their outputs, each file of the engine holds the texts of every module
whenever a tool is run. -/
theorem run_invokes_patched {w : Workspace} (hc : c.Sensible) (hsound : w.files.Sound)
    (hroot : w.files.lookup true c.root = .ok (c.root.parts, .directory))
    (hnames : ∀ m ∈ c.modules, Module.isName m.name.toList = true)
    (htools : tools.WritesOnlyOutput) (hunharmed : c.Unharmed tools) (now : String) (write : Bool) :
    ∃ new, ((Build.run (Toolchain.ofConfig c tools) now write).runOn w).2.invocations =
        w.invocations ++ new ∧
      ∀ i ∈ new, ∀ m ∈ c.modules, ∀ f, ∃ b, i.before.content (c.engineFile f) = .ok b ∧
        ∀ t ∈ Patch.texts m.name f, Bytes.ofString t <:+: b := by
  have hreal : w.files.IsReal c.root.parts := by
    refine hsound.isReal ?_ hroot
    unfold Path.isAbsolute
    rw [hc.root]
    rfl
  have hbegun : ∀ s : PatchState, s.work = w → s.ledger.Covers c.enginePaths →
      c.Begun w.invocations s := by
    rintro s rfl hcovers
    exact ⟨⟨⟨hsound, hreal⟩, rfl⟩, hcovers.sound⟩
  obtain ⟨new, hnew, hequipped⟩ := Build.meets_run (fun w' => c.Traced w.invocations w'.invocations)
    (traced_execute hc hreal.names hnames htools hunharmed now write) hbegun
  refine ⟨new, hnew, fun i hi m hm f => ?_⟩
  have hholds := hequipped i hi f f.mem_all m hm
  obtain ⟨b, hb, -⟩ := hholds (Patch.declarationText m.name) (by cases f <;> exact List.mem_cons_self)
  refine ⟨b, hb, fun t ht => ?_⟩
  obtain ⟨b', hb', hin⟩ := hholds t ht
  obtain rfl := Except.ok.inj (hb'.symm.trans hb)
  exact SourceText.bytes_within hin

theorem run_invokes_patched_small :
    ∃ i, ((Build.run (Toolchain.ofConfig .small .failing) "now" true).runOn
        (.ofFiles Config.smallFiles)).2.invocations = [i] ∧
      ∃ b, i.before.content (Config.small.engineFile .interpreter) = .ok b ∧
        Bytes.ofString "js_init_module_hello(ctx, \"hello\");" <:+: b := by
  have hlength : ((Build.run (Toolchain.ofConfig .small .failing) "now" true).runOn
      (.ofFiles Config.smallFiles)).2.invocations.length = 1 := by
    decide +kernel
  obtain ⟨new, hnew, hpatched⟩ := run_invokes_patched (w := .ofFiles Config.smallFiles)
    Config.sensible_small Config.sound_smallFiles Config.lookup_root_small (by decide)
    Tools.writesOnlyOutput_failing (fun _ _ _ _ _ _ => rfl) "now" true
  obtain ⟨i, hi⟩ := List.length_eq_one_iff.1 hlength
  refine ⟨i, hi, ?_⟩
  have hmem : i ∈ new := by
    rw [hi] at hnew
    rw [← hnew.trans (List.nil_append new)]
    exact List.mem_cons_self
  obtain ⟨b, hb, htexts⟩ := hpatched i hmem _ List.mem_cons_self .interpreter
  exact ⟨b, hb, htexts _ (by decide)⟩

end CrossBuild
