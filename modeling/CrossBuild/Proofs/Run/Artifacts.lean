import CrossBuild.Proofs.Run.Linked
import CrossBuild.Proofs.Run.Sources

/-!
# What a receipt tells of the applications

When a target is a success its receipt describes the file at the application's path. What follows is
done elsewhere: the other targets are built in their own trees and write their own outputs, temporary
files are removed and the receipt is written in the directories for builds and tools, and the engine is
put back. Only the last of these goes through links. So a description stays true, if no file of the
engine is found at an application's path.
-/

namespace CrossBuild

open FileSystem Workspace CrossBuild.Task

/-- The last part of a path is not followed, so the path leads to that name in some directory. -/
theorem FileSystem.exists_place_false_last {fs : FileSystem} {anchor : Path.Anchor}
    {init : List String} {n : String} {l : Location} (hn : IsName n)
    (hp : fs.place false ⟨anchor, init ++ [n]⟩ = .ok l) : ∃ m, l = m ++ [n] := by
  obtain ⟨-, -, hwalk⟩ := place_eq_ok_iff.1 hp
  rcases walk_concat maxLinks (fs.origin ⟨anchor, init ++ [n]⟩) init with
    ⟨links, m, hm, hlast⟩ | ⟨e, he⟩
  · refine ⟨m, ?_⟩
    rw [hlast] at hwalk
    rcases walk_last hm hn.2.1 hn.2.2 links with hlong | ⟨hok, -⟩
    · rw [hlong] at hwalk
      cases hwalk
    · exact Except.ok.inj (hwalk.symm.trans hok)
  · rw [he] at hwalk
    cases hwalk

namespace Config

variable {c : Config} {tools : Tools} {t u : Target} {r : TargetResult} {results : List TargetResult}
  {targets : List Target} {fs₀ fs fs' : FileSystem} {b : Bytes}

/-! ## Where applications are -/

/-- Where the application of a target is. -/
def applicationAt (c : Config) (t : Target) : Location :=
  c.root.parts ++ ["dist", t.applicationName c.application]

theorem applicationPath_eq (hc : c.Sensible) (ht : t ∈ Target.all) :
    c.applicationPath t = pathOf (c.applicationAt t) := by
  obtain ⟨hpart, -⟩ := Target.isPart_applicationName ht hc.application
  unfold applicationPath applicationAt pathOf
  rw [Path.div_part _ hpart, distDirectory, Path.div_name _ (by decide), hc.root]
  simp

/-- Targets have applications of their own. -/
theorem applicationAt_injective (ht : t ∈ Target.all) (hu : u ∈ Target.all)
    (h : c.applicationAt t = c.applicationAt u) : t = u := by
  have hsuffix : ∀ t ∈ Target.all, ∀ u ∈ Target.all, t.suffix = u.suffix → t = u := by decide
  refine hsuffix t ht u hu ?_
  have hname := (List.append_inj h rfl).2
  have hlist := congrArg String.toList (List.cons.inj (List.cons.inj hname).2).1
  unfold Target.applicationName at hlist
  rw [String.toList_append, String.toList_append, List.append_cancel_left_eq] at hlist
  exact String.toList_inj.1 hlist

/-- The application's path leads to its place, if it leads anywhere. -/
theorem leads_application (hc : c.Sensible) (ht : t ∈ Target.all) (hready : c.yard.Ready fs)
    (hb : fs.content (c.applicationPath t) = .ok b) :
    (∃ n x, c.yard.Leads (c.applicationPath t) n [x]) ∧ Fits (c.applicationPath t) ∧
      ∃ x, fs.node? (c.applicationAt t) = some (.file b x) := by
  obtain ⟨l, x, hl, hnode⟩ := content_eq_ok_iff.1 hb
  have hout := isOutput_of_mem_outputs hc ht (c.applicationPath t) (by simp [outputs])
  obtain ⟨n, y, hleads⟩ := hout.leads hc hl
  have hparts : c.applicationAt t = c.yard.root ++ n :: [y] := by
    rw [← hleads.parts, applicationPath_eq hc ht]
    rfl
  refine ⟨⟨n, y, hleads⟩, hleads.fits hready hl, x, ?_⟩
  rw [hparts, ← hleads.place hready hl]
  exact hnode

/-- What an application contains depends on what is at its place alone. -/
theorem content_application (hc : c.Sensible) (ht : t ∈ Target.all) (hready : c.yard.Ready fs)
    (hready' : c.yard.Ready fs')
    (hsame : fs'.node? (c.applicationAt t) = fs.node? (c.applicationAt t))
    (hb : fs.content (c.applicationPath t) = .ok b) : fs'.content (c.applicationPath t) = .ok b := by
  obtain ⟨⟨n, y, hleads⟩, hfits, x, hnode⟩ := leads_application hc ht hready hb
  have hparts : c.applicationAt t = c.yard.root ++ n :: [y] := by
    rw [← hleads.parts, applicationPath_eq hc ht]
    rfl
  rw [← hsame, hparts] at hnode
  exact content_eq_ok_iff.2 ⟨_, x, hleads.place_of_node hready' hfits hnode true, hnode⟩

/-! ## What is told of the applications -/

/-- What a result tells of the application of a target is so: there is one if the target is a success. -/
def Tells (c : Config) (t : Target) (r : TargetResult) (fs : FileSystem) : Prop :=
  (r.status = .success → r.artifact.isSome) ∧ ∀ a ∈ r.artifact, a.Describes (c.applicationPath t) fs

/-- Beside the yard and the engine nothing was touched, and what results tell of the applications of
targets is so. -/
def AllTell (c : Config) (fs₀ : FileSystem) (results : List TargetResult) (targets : List Target)
    (fs : FileSystem) : Prop :=
  c.Untouched fs₀ fs ∧
    List.Forall₂ (fun r t => r.IsOf t ∧ t ∈ Target.all ∧ c.Tells t r fs) results targets

/-- Where targets are built and temporary files are: the yard without the applications. -/
def workshop (c : Config) : Yard where
  root := c.root.parts
  names := ["build", "bin"]
  proper := by decide

theorem not_within_workshop (c : Config) (t : Target) : ¬ c.workshop.Within (c.applicationAt t) := by
  rintro ⟨n, hn, hle⟩
  obtain ⟨rest, hrest⟩ := (List.prefix_append_right_inj _).1 hle
  obtain rfl := (List.cons.inj hrest).1
  exact absurd hn (by decide : "dist" ∉ ["build", "bin"])

theorem within_of_workshop {l : Location} : c.workshop.Within l → c.yard.Within l := by
  rintro ⟨n, hn, hle⟩
  exact ⟨n, List.mem_append_left ["dist"] hn, hle⟩

theorem leads_workshop {p : Path} {n : String} {xs : List String} (h : c.yard.Leads p n xs)
    (hn : n ∈ ["build", "bin"]) : c.workshop.Leads p n xs :=
  ⟨h.absolute, h.parts, hn, h.names⟩

/-- Work in the workshop is work in the yard. -/
theorem kept_of_workshop (hready : c.yard.Ready fs) (hk : c.workshop.Kept fs fs') :
    c.yard.Kept fs fs' := by
  refine hready.change hk.sound hk.workingDirectory (fun l hl target ht => ?_)
    (fun l hl => hk.outside l fun hl' => hl (within_of_workshop hl')) fun n hn b x hfile => ?_
  · by_cases hin : c.workshop.Within l
    · exact hk.noLink l hin target ht
    · rw [hk.outside l hin] at ht
      exact hready.noLink l hl target ht
  · by_cases hin : n ∈ c.workshop.names
    · exact hk.files n hin b x hfile
    · refine (hk.outside _ ?_).trans hfile
      rintro ⟨k, hk', hle⟩
      obtain ⟨rest, hrest⟩ := (List.prefix_append_right_inj _).1 hle
      obtain rfl := (List.cons.inj hrest).1
      exact hin hk'

theorem AllTell.ready (h : c.AllTell fs₀ results targets fs) : c.workshop.Ready fs :=
  Yard.ready_of h.1.sound h.1.real fun l hl => h.1.noLink l (within_of_workshop hl)

theorem AllTell.mem_all (h : c.AllTell fs₀ results targets fs) : ∀ t ∈ targets, t ∈ Target.all := by
  obtain ⟨-, hall⟩ := h
  induction hall with
  | nil => exact fun t ht => by cases ht
  | cons hfirst _ ih => exact List.forall_mem_cons.2 ⟨hfirst.2.1, ih⟩

section
variable (hc : c.Sensible)
include hc

/-- An output for a target is its application, or it is in the directory of tools. -/
theorem parts_of_mem_outputs (ht : t ∈ Target.all) {p : Path} (hp : p ∈ c.outputs t) :
    p.parts = c.applicationAt t ∨ ∃ n, p.parts = c.root.parts ++ ["bin", n] := by
  obtain ⟨-, hinterpreter, hprecompiler, hintermediate⟩ := Target.isName_of_mem_all t ht
  have htools : ∀ {n}, IsName n → (c.toolsDirectory / n).parts = c.root.parts ++ ["bin", n] := by
    intro n hn
    rw [Path.div_name _ hn, toolsDirectory, Path.div_name _ (by decide)]
    simp
  simp only [outputs, List.mem_cons, List.not_mem_nil, or_false] at hp
  rcases hp with rfl | rfl | rfl | rfl
  · exact .inr ⟨_, htools hinterpreter⟩
  · exact .inr ⟨_, htools hprecompiler⟩
  · exact .inr ⟨_, htools hintermediate⟩
  · left
    rw [applicationPath_eq hc ht]
    rfl

theorem Tells.congr (ht : t ∈ Target.all) (hready : c.yard.Ready fs) (hready' : c.yard.Ready fs')
    (hsame : fs'.node? (c.applicationAt t) = fs.node? (c.applicationAt t)) (h : c.Tells t r fs) :
    c.Tells t r fs' := by
  refine ⟨h.1, fun a ha => ?_⟩
  obtain ⟨hpath, bytes, hbytes, htold⟩ := h.2 a ha
  exact ⟨hpath, bytes, content_application hc ht hready hready' hsame hbytes, htold⟩

namespace AllTell

/-- What is told stays so while nothing happens at the applications' places. -/
theorem change (h : c.AllTell fs₀ results targets fs) (h' : c.Untouched fs₀ fs')
    (hsame : ∀ t ∈ targets, fs'.node? (c.applicationAt t) = fs.node? (c.applicationAt t)) :
    c.AllTell fs₀ results targets fs' := by
  obtain ⟨huntouched, hall⟩ := h
  refine ⟨h', ?_⟩
  induction hall with
  | nil => exact .nil
  | cons hfirst _ ih =>
    rw [List.forall_mem_cons] at hsame
    obtain ⟨hnames, ht, htells⟩ := hfirst
    exact .cons ⟨hnames, ht, htells.congr hc ht huntouched.ready h'.ready hsame.1⟩ (ih hsame.2)

/-- Work in the workshop leaves the applications alone. -/
theorem work (h : c.AllTell fs₀ results targets fs) (hk : c.workshop.Kept fs fs') :
    c.AllTell fs₀ results targets fs' :=
  h.change hc (h.1.kept (kept_of_workshop h.1.ready hk)) fun t _ =>
    hk.outside _ (c.not_within_workshop t)

/-- A tool that was told to write an output for another target leaves the applications alone. -/
theorem tool (htools : tools.WritesOnlyOutput) (hu : u ∈ Target.all) (hother : u ∉ targets)
    (h : c.AllTell fs₀ results targets fs) (earlier : List Invocation) {command : Command} {p : Path}
    (hout : command.output? = some p) (hp : p ∈ c.outputs u) :
    c.AllTell fs₀ results targets (tools.run earlier command fs).2 := by
  have hr := htools earlier command fs
  simp only [hout, Option.some.injEq, exists_eq_left'] at hr
  have houtput := isOutput_of_mem_outputs hc hu p hp
  refine h.change hc (h.1.kept (kept_of_output hc h.1.ready houtput hr)) fun t ht =>
    hr.others _ fun hl => ?_
  -- the output would be the application of a target that is told of
  obtain ⟨n, x, hleads⟩ := houtput.leads hc hl
  have hparts : p.parts = c.applicationAt t := hleads.parts.trans (hleads.place h.1.ready hl).symm
  rcases parts_of_mem_outputs hc hu hp with happlication | ⟨n, hn⟩
  · have htable : t ∈ Target.all := h.mem_all t ht
    exact hother (applicationAt_injective hu htable (happlication.symm.trans hparts) ▸ ht)
  · have hdist := List.append_cancel_left (hn.symm.trans hparts)
    exact absurd (List.cons.inj hdist).1 (by decide)

theorem worksIn (htools : tools.WritesOnlyOutput) (hnames : ∀ part ∈ c.root.parts, IsName part)
    (hu : u ∈ Target.all) (hother : u ∉ targets) :
    c.WorksIn tools u c.workshop fun fs _ => c.AllTell fs₀ results targets fs where
  sensible := hc
  rootNames := hnames
  mem := hu
  ready _ _ h := h.ready
  work _ _ _ h hk := h.work hc hk
  tool _ inv _ _ h hout hp := h.tool hc htools hu hother inv hout hp

/-- **Building another target** leaves what is told as it is. -/
theorem keeps_build (htools : tools.WritesOnlyOutput) (hnames : ∀ part ∈ c.root.parts, IsName part)
    (hu : u ∈ Target.all) (hother : u ∉ targets) (host : HostTools) :
    Keeps (Of fun fs _ => c.AllTell fs₀ results targets fs)
      (TargetBuild.build (.ofConfig c tools) host u) :=
  (worksIn hc htools hnames hu hother).keeps_build
    (leads_workshop (leads_buildTree hc hu) List.mem_cons_self) host

/-! ## What follows the targets -/

theorem keeps_onFiles {α : Type} {task : Task FileSystem α} (htask : c.workshop.Minds task) :
    Keeps (Of fun fs _ => c.AllTell fs₀ results targets fs) (onFiles task) :=
  Workspace.keeps_onFiles fun _ fs h => h.work hc (htask fs fs h.ready)

theorem keeps_cleanup : Keeps (Of fun fs _ => c.AllTell fs₀ results targets fs) (Build.cleanup c) := by
  have htools := leads_workshop (leads_tools hc) (by decide)
  have hstub := leads_workshop (leads_stub hc) (by decide)
  refine Build.keeps_cleanup_of (P := IsName) keeps_report (fun w found hw hfound n hn _ => ?_)
    (fun name hname => ?_) ?_
  · exact hw.1.sound.isName_of_mem_names hfound n hn
  · exact keeps_onFiles hc (Yard.minds_unlink (htools.below hname) (by simp))
  · exact keeps_onFiles hc (Yard.minds_unlinkIfPresent hstub (by simp))

theorem keeps_writeReceipt (r : Receipt) :
    Keeps (Of fun fs _ => c.AllTell fs₀ results targets fs) (Build.writeReceipt c r) := by
  have hbuild := leads_workshop (leads_build hc) (by decide)
  refine Build.keeps_writeReceipt_of keeps_report (keeps_onFiles hc fun fs => ?_)
  unfold Receipt.write
  rw [Path.div_name _ (by decide : IsName Receipt.fileName)]
  refine (Yard.minds_makeDirectories hbuild fs).bind fun _ => ?_
  refine (Yard.minds_write (hbuild.below (by decide)) (by simp) _ fs).bind fun _ => keeps_pure _

variable (h₀ : c.yard.Ready fs₀)
include h₀

/-- Putting a file of the engine back leaves the applications alone, if it is none of them. -/
theorem keeps_writeSource (hengine : ∀ f, ∀ t ∈ targets,
      fs₀.resolve (c.engineFile f) ≠ .ok (c.applicationPath t)) (f : EngineFile) (b : Bytes) :
    Keeps (c.AllTell fs₀ results targets) (FileSystem.write (c.engineFile f) b) := by
  have hn : f.name ∈ f.names := List.mem_cons_self
  rw [engineFile_eq]
  refine keeps_write_of fun fs l x h hp hspot => ?_
  refine h.change hc (h.1.put h₀ hn hp hspot b x) fun t ht => (refiled_put hspot b x).others _ ?_
  rintro rfl
  have hlink := h₀.noLink (c.applicationAt t) (Yard.within_cons (by simp [yard]) [_])
  refine hengine f t ht ?_
  rw [engineFile_eq, h.1.resolve_of_place h₀ hn hp hspot hlink,
    applicationPath_eq hc (h.mem_all t ht)]

/-- No application has the name of a backup. -/
theorem keeps_unlinkBackup (f : EngineFile) :
    Keeps (c.AllTell fs₀ results targets) (FileSystem.unlink (c.engineBackup f)) := by
  have hn : f.name ++ ".bak" ∈ f.names := by simp [EngineFile.names]
  have hends : ∀ t ∈ Target.all, t.suffix.toList.getLast? ≠ none ∧ t.suffix.toList.getLast? ≠ some 'k' := by
    decide
  rw [engineBackup_eq]
  refine keeps_unlink_of fun fs l h hp hdir => ?_
  refine h.change hc (h.1.remove h₀ hn hp hdir) fun t ht => node?_remove_of_ne ?_
  rintro rfl
  obtain ⟨m, hm⟩ := exists_place_false_last (f.isName_of_mem_names _ hn) hp
  have hname : t.applicationName c.application = f.name ++ ".bak" := by
    have := congrArg List.getLast? hm
    simpa [applicationAt] using this
  obtain ⟨hsome, hne⟩ := hends t (h.mem_all t ht)
  obtain ⟨a, ha⟩ := Option.ne_none_iff_exists'.1 hsome
  have hlast := congrArg (fun s : String => s.toList.getLast?) hname
  simp only [Target.applicationName, String.toList_append, List.getLast?_append] at hlast
  rw [ha] at hlast hne
  exact hne hlast

end AllTell

end

/-! ## The whole run -/

/-- What the result of a target tells of its application is so when it is given. -/
theorem tells_of_goesByLink {T : Toolchain} {earlier inv : List Invocation}
    (h : TargetBuild.GoesByLink T t earlier r fs inv) : T.config.Tells t r fs := by
  by_cases hsuccess : r.status = .success
  · obtain ⟨-, -, a, ha, hdescribes⟩ := h.passed hsuccess
    refine ⟨fun _ => by rw [ha]; rfl, fun a' ha' => ?_⟩
    rwa [Option.some.inj (ha'.symm.trans ha)]
  · refine ⟨fun h => absurd h hsuccess, fun a ha => ?_⟩
    rw [h.other hsuccess] at ha
    cases ha

section
variable (hc : c.Sensible) (htools : tools.WritesOnlyOutput)
  (hnames : ∀ part ∈ c.root.parts, IsName part)
include hc htools hnames

-- so that a build is not carried out where it is only named
attribute [local irreducible] Task.Meets

/-- **Building targets** adds what is told of them. -/
theorem AllTell.meets_buildAll {host : HostTools} (hhost : ∀ p ∈ host.phases, p.name ≠ "link")
    (us : List Target) : ∀ {results targets}, (targets ++ us).Nodup → (∀ u ∈ us, u ∈ Target.all) →
    Meets (Of fun fs _ => c.AllTell fs₀ results targets fs)
      (TargetBuild.buildAll (.ofConfig c tools) host us)
      (fun rs w => c.AllTell fs₀ (results ++ rs) (targets ++ us) w.files) fun _ _ => True := by
  unfold TargetBuild.buildAll
  induction us with
  | nil =>
    intro results targets _ _
    rw [List.mapM_nil]
    refine Meets.pure fun w hw => ?_
    rw [List.append_nil, List.append_nil]
    exact hw
  | cons u us ih =>
    intro results targets hnodup hus
    rw [List.forall_mem_cons] at hus
    have hother : u ∉ targets := fun hu =>
      (List.nodup_append.1 hnodup).2.2 u hu u List.mem_cons_self rfl
    rw [List.mapM_cons]
    have hlink : Meets (Of fun fs _ => c.AllTell fs₀ results targets fs)
        (TargetBuild.build (.ofConfig c tools) host u)
        (fun r w => Of (TargetBuild.GoesByLink (.ofConfig c tools) u [] r) w) fun _ _ => False :=
      (TargetBuild.meets_build_link hhost u).weaken (fun _ _ => List.nil_prefix) (fun _ _ h => h)
        fun _ _ h => h
    have hresult : Meets (Of fun fs _ => c.AllTell fs₀ results targets fs)
        (TargetBuild.build (.ofConfig c tools) host u) (fun r _ => r.IsOf u) fun _ _ => False :=
      (TargetBuild.meets_build host u).weaken (fun _ _ => trivial) (fun _ _ h => h) fun _ _ h => h
    have hkept : Keeps (Of fun fs _ => c.AllTell fs₀ results targets fs)
        (TargetBuild.build (.ofConfig c tools) host u) :=
      AllTell.keeps_build hc htools hnames hus.1 hother host
    refine Meets.bind (M := fun r w => c.AllTell fs₀ (results ++ [r]) (targets ++ [u]) w.files) ?_
      fun r => ?_
    · refine ((hlink.and hresult).keeping hkept).weaken (fun _ hw => ⟨hw, hw⟩) ?_ fun _ _ _ => trivial
      rintro r w ⟨⟨hlink, hresult⟩, huntouched, hall⟩
      have htells : c.Tells u r w.files := tells_of_goesByLink (T := .ofConfig c tools) hlink
      exact ⟨huntouched, List.rel_append hall (.cons ⟨hresult, hus.1, htells⟩ .nil)⟩
    · refine Meets.bind (ih (by simpa using hnodup) hus.2) fun rs => Meets.pure fun w hw => ?_
      simpa using hw

end

/-- What is told of some of the targets of a run is so. -/
def Told (c : Config) (fs₀ : FileSystem) (results : List TargetResult) (fs : FileSystem) : Prop :=
  ∃ targets, targets.Sublist c.targets ∧ c.AllTell fs₀ results targets fs

section
variable (hc : c.Sensible) (htools : tools.WritesOnlyOutput)
  (hnames : ∀ part ∈ c.root.parts, IsName part) (h₀ : c.yard.Ready fs₀)
include hc htools hnames h₀

/-- When the stages of a run are over, what its results tell of the applications is so. -/
theorem Told.meets_forward (hnodup : c.targets.Nodup) {b₀ : BuildState} (hhost : b₀.host.phases = [])
    (htargets : b₀.receipt.targets = []) (hb₀ : c.Lasting (c.Untouched fs₀) b₀.patching) :
    Meets (fun b => b = b₀) (Build.forward (.ofConfig c tools))
      (fun _ b => c.Lasting (c.Told fs₀ b.receipt.targets) b.patching) fun _ _ => True := by
  refine Build.meets_forward_results (fun results => c.Lasting (c.Told fs₀ results))
    (fun b => c.Lasting (c.Untouched fs₀) b.patching ∧ ∀ p ∈ b.host.phases, p.name ≠ "link")
    htargets ?_ ?_
  · refine meets_of_runOn ?_ fun _ _ _ _ _ => trivial
    rintro _ b ok rfl hrun
    have hb := (Untouched.lasts h₀).keeps_setup hc htools hnames _ hb₀
    rw [hrun] at hb
    cases ok with
    | false => exact ⟨⟨[], List.nil_sublist _, hb.1, .nil⟩, hb.2⟩
    | true => exact ⟨hb, Build.names_of_setup hhost hrun⟩
  · rintro b ⟨hb, hlink⟩
    have hbuild : Meets (Of fun fs _ => c.AllTell fs₀ [] [] fs)
        (TargetBuild.buildAll (.ofConfig c tools) b.host c.targets)
        (fun rs w => c.AllTell fs₀ ([] ++ rs) ([] ++ c.targets) w.files) fun _ _ => True :=
      AllTell.meets_buildAll hc htools hnames hlink c.targets hnodup hc.targets
    refine hbuild.weaken ?_ ?_ fun _ _ h => h
    · rintro _ rfl
      exact ⟨hb.1, .nil⟩
    · exact fun results w hw => ⟨⟨c.targets, List.Sublist.refl _, hw⟩, hb.2⟩

/-- **What a receipt tells of the applications** is so at the end of the run. -/
theorem Told.meets_execute (hnodup : c.targets.Nodup) {b₀ : BuildState} (hhost : b₀.host.phases = [])
    (htargets : b₀.receipt.targets = []) (hb₀ : c.Lasting (c.Untouched fs₀) b₀.patching)
    (hengine : ∀ f, ∀ t ∈ c.targets, fs₀.resolve (c.engineFile f) ≠ .ok (c.applicationPath t))
    (now : String) (write : Bool) :
    Meets (fun b => b = b₀) (Build.execute (.ofConfig c tools) now write)
      (fun receipt b => c.Told fs₀ receipt.targets b.patching.work.files) fun _ _ => True := by
  have hkeeps : ∀ {results} {task : Task Workspace Unit},
      (∀ targets, Keeps (Of fun fs _ => c.AllTell fs₀ results targets fs) task) →
      Keeps (Of fun fs _ => c.Told fs₀ results fs) task := by
    rintro results task htask w ⟨targets, hsub, hw⟩
    exact ⟨targets, hsub, htask targets w hw⟩
  have hwork : ∀ {results} {task : Task Workspace Unit},
      Keeps (Of fun fs _ => c.Told fs₀ results fs) task →
      Meets (fun w => c.Told fs₀ results w.files) task (fun _ w => c.Told fs₀ results w.files)
        fun _ _ => True := fun h => h.meets fun _ _ _ => trivial
  refine Build.meets_execute_results (T := .ofConfig c tools)
    (fun results => c.Lasting (c.Told fs₀ results)) (fun results => c.Lasting (c.Told fs₀ results))
    (fun results w => c.Told fs₀ results w.files)
    (Told.meets_forward hc htools hnames h₀ hnodup hhost htargets hb₀) ?_ ?_ ?_ ?_
  · intro results
    refine Keeps.meets (fun s hs => ?_) fun _ _ _ => trivial
    exact ⟨hkeeps (fun _ => AllTell.keeps_cleanup hc) s.work hs.1, hs.2⟩
  · rintro results s ⟨⟨targets, hsub, hs⟩, hledger⟩
    refine (meets_restore_of (J := c.AllTell fs₀ results targets) (AllTell.keeps_writeSource hc h₀ ?_)
      (AllTell.keeps_unlinkBackup hc h₀)).weaken (fun _ hs => hs) (fun _ _ hs => ⟨targets, hsub, hs⟩)
      (fun _ _ _ => trivial) s ⟨hs, hledger⟩
    exact fun f t ht => hengine f t (hsub.subset ht)
  · exact fun results r => hwork (hkeeps fun _ => Build.keeps_summary keeps_report r)
  · exact fun _ results r => hwork (hkeeps fun _ => AllTell.keeps_writeReceipt hc r)

end

/-- Every result tells of a target, and no two of them tell of one path. -/
theorem AllTell.split (hc : c.Sensible) (hnames : ∀ part ∈ c.root.parts, IsName part)
    (h : c.AllTell fs₀ results targets fs) (hnodup : targets.Nodup) :
    (∀ r ∈ results, ∃ t ∈ targets, r.IsOf t ∧ c.Tells t r fs) ∧
      results.Pairwise fun r r' => ∀ a ∈ r.artifact, ∀ a' ∈ r'.artifact, a.path ≠ a'.path := by
  have hback : ∀ t ∈ Target.all, Path.ofString (c.applicationPath t).toString = c.applicationPath t :=
    fun t ht => (isOutput_of_mem_outputs hc ht _ (by simp [outputs])).ofString_toString hnames
  have htable := h.mem_all
  obtain ⟨-, hall⟩ := h
  induction hall with
  | nil => exact ⟨fun r hr => absurd hr List.not_mem_nil, .nil⟩
  | @cons r t results targets hfirst _ ih =>
    obtain ⟨hresult, ht, htells⟩ := hfirst
    obtain ⟨hother, hnodup⟩ := List.nodup_cons.1 hnodup
    rw [List.forall_mem_cons] at htable
    obtain ⟨hall, hpaths⟩ := ih hnodup htable.2
    refine ⟨List.forall_mem_cons.2 ⟨⟨t, List.mem_cons_self, hresult, htells⟩, fun r' hr' => ?_⟩,
      .cons (fun r' hr' a ha a' ha' hpath => ?_) hpaths⟩
    · obtain ⟨u, hu, hu'⟩ := hall r' hr'
      exact ⟨u, List.mem_cons_of_mem _ hu, hu'⟩
    · obtain ⟨u, hu, -, htells'⟩ := hall r' hr'
      have hu' := htable.2 u hu
      have heq := congrArg Path.ofString ((htells.2 a ha).1.symm.trans (hpath.trans (htells'.2 a' ha').1))
      rw [hback t ht, hback u hu', applicationPath_eq hc ht, applicationPath_eq hc hu'] at heq
      obtain rfl := applicationAt_injective ht hu' (congrArg Path.parts heq)
      exact hother hu

end Config

/-- **A receipt tells the truth about the applications.** Say there are no links in the directories that
a run writes to, and no file of the engine is found, through links, where an application goes. Then
every result in the receipt of a run is one for a target, and if that is a success it tells of an
application: of its path, and of the hash and the length of the file that is there when the run ends. No
two results tell of one path. -/
theorem artifacts_are_told {c : Config} {tools : Tools} {now : String} {write : Bool} {w w' : Workspace}
    {receipt : Receipt} (hs : w.files.Sound) (hshort : w.files.Short) (hmade : c.IsMade w.files)
    (hlinks : ∀ l, c.yard.Within l → ∀ target, w.files.node? l ≠ some (.link target))
    (htools : tools.WritesOnlyOutput)
    (hengine : ∀ f, ∀ t ∈ c.targets, w.files.resolve (c.engineFile f) ≠ .ok (c.applicationPath t))
    (hrun : (Build.run (.ofConfig c tools) now write).runOn w = (.ok receipt, w')) :
    (∀ r ∈ receipt.targets, ∃ t ∈ c.targets, r.IsOf t ∧ (r.status = .success → r.artifact.isSome) ∧
        ∀ a ∈ r.artifact, a.path = (c.distDirectory / t.applicationName c.application).toString ∧
          ∃ bytes, w'.files.content (c.distDirectory / t.applicationName c.application) = .ok bytes ∧
            a.sha256 = Sha256.hexHash bytes ∧ a.size = bytes.length) ∧
      receipt.targets.Pairwise fun r r' => ∀ a ∈ r.artifact, ∀ a' ∈ r'.artifact, a.path ≠ a'.path := by
  have hc := hmade.sensible hs
  have hreal := hmade.real hs hshort
  have hnodup := hmade.targets.1
  have h₀ : c.yard.Ready w.files := Yard.ready_of hs hreal hlinks
  obtain ⟨b, hb, rfl, hcovers⟩ := Build.start_ok c now w
  rw [Build.runOn_run (t := .ofConfig c tools) hb] at hrun
  rcases hexecute : (Build.execute (.ofConfig c tools) now write).runOn b with ⟨o, b'⟩
  rw [hexecute] at hrun
  obtain ⟨rfl, rfl⟩ := Prod.mk.inj hrun
  obtain ⟨targets, hsub, htold⟩ := (Config.Told.meets_execute hc htools hreal.names h₀ hnodup
    (Build.host_of_start hb) (Build.receipt_of_start hb).2 ⟨.start h₀, hcovers⟩ hengine now write).of_ok
      rfl hexecute
  obtain ⟨hall, hpaths⟩ := htold.split hc hreal.names (hsub.nodup hnodup)
  refine ⟨fun r hr => ?_, hpaths⟩
  obtain ⟨t, ht, hresult, htells⟩ := hall r hr
  exact ⟨t, hsub.subset ht, hresult, htells⟩

theorem artifacts_are_told_ready :
    ∃ receipt w' r, (Build.run (.ofConfig .ready Config.readyTools) "now" false).runOn
        (.ofFiles (Config.filesAt ["app"])) = (.ok receipt, w') ∧ receipt.targets = [r] ∧
      r.status = .success ∧ ∃ a ∈ r.artifact,
        a.path = (Config.ready.distDirectory / Target.linux64.applicationName
          Config.ready.application).toString ∧
        ∃ bytes, w'.files.content (Config.ready.distDirectory / Target.linux64.applicationName
          Config.ready.application) = .ok bytes ∧
          a.sha256 = Sha256.hexHash bytes ∧ a.size = bytes.length := by
  obtain ⟨receipt, w', r, hrun, htargets, hsuccess⟩ := Config.exists_success_ready
  have hengine : ∀ f, ∀ t ∈ Config.ready.targets,
      (Config.filesAt ["app"]).resolve (Config.ready.engineFile f) ≠ .ok (Config.ready.applicationPath t) := by
    intro f t ht heq
    obtain rfl := List.mem_singleton.1 ht
    have hplain : ∀ f, (Config.ready.engineFile f).anchor = .root ∧
        (∀ part ∈ (Config.ready.engineFile f).parts, IsName part) ∧
        Config.ready.engineFile f ≠ Config.ready.applicationPath .linux64 := by
      intro f
      cases f
      all_goals decide
    obtain ⟨hanchor, hnames, hne⟩ := hplain f
    rw [(Config.unlinked_filesAt ["app"]).resolve_self hanchor hnames] at heq
    exact hne (Except.ok.inj heq)
  have htold := (artifacts_are_told (c := .ready) (w := .ofFiles (Config.filesAt ["app"]))
    (Config.sound_filesAt ["app"] (by decide)) (Config.short_filesAt ["app"] (by decide))
    (Config.isMade_readyAt ["app"] (by decide)) (fun l _ target => Config.unlinked_filesAt ["app"] l target)
    (Tools.writesOnlyOutput_obliging _) hengine hrun).1
  obtain ⟨t, ht, -, hpresent, htold⟩ := htold r (by rw [htargets]; exact List.mem_cons_self)
  obtain rfl : t = .linux64 := List.mem_singleton.1 ht
  obtain ⟨a, ha⟩ := Option.isSome_iff_exists.1 (hpresent hsuccess)
  exact ⟨receipt, w', r, hrun, htargets, hsuccess, a, ha, htold a ha⟩

namespace Config

/-- The files of the small project, with a link from a file of the engine to where the application
goes. -/
def aliasedFiles : FileSystem :=
  staleFiles.put ["q", "quickjs-libc.c"] (.link "/p/dist/a_linux64")

theorem sound_aliasedFiles : aliasedFiles.Sound :=
  sound_of_nodes (by decide)

theorem isMade_aliasedFiles : ready.IsMade aliasedFiles := by
  have hresolve : ∀ e ∈ [([], "p"), (["p", "app"], "index.mjs")],
      aliasedFiles.resolve ⟨.root, e.1 ++ [e.2]⟩ = .ok ⟨.root, e.1 ++ [e.2]⟩ := by
    have hplaces : ∀ e ∈ [([], "p"), (["p", "app"], "index.mjs")], IsName e.2 ∧
        aliasedFiles.isDirectoryAt e.1 = true ∧
        aliasedFiles.place true ⟨.root, e.1 ++ [e.2]⟩ = .ok (e.1 ++ [e.2]) ∧
        (aliasedFiles.guide? (e.1 ++ [e.2]) = none ∨ aliasedFiles.isDirectoryAt (e.1 ++ [e.2]) = true) := by
      decide
    intro e he
    obtain ⟨hname, hdir, hplace, hlink⟩ := hplaces e he
    exact resolve_self_of_place sound_aliasedFiles hname hdir hplace hlink
  exact (isMade_of_resolve ["app"] (by decide +kernel) (hresolve ([], "p") (by simp))
    (hresolve (["p", "app"], "index.mjs") (by simp))).with_precompiler (by decide)

end Config

/-- Where a file of the engine is found through a link at the application's path, putting it back
replaces the application after it was described. -/
theorem artifact_replaced :
    Config.aliasedFiles.Sound ∧ Config.ready.IsMade Config.aliasedFiles ∧
      (∀ l, Config.ready.yard.Within l → ∀ target, Config.aliasedFiles.node? l ≠ some (.link target)) ∧
      Config.readyTools.WritesOnlyOutput ∧
      ∃ receipt w' r, (Build.run (.ofConfig .ready Config.readyTools) "now" false).runOn
          (.ofFiles Config.aliasedFiles) = (.ok receipt, w') ∧ receipt.targets = [r] ∧
        r.status = .success ∧ ∃ a ∈ r.artifact, ∃ bytes,
          w'.files.content (Config.ready.distDirectory / Target.linux64.applicationName
            Config.ready.application) = .ok bytes ∧ a.size ≠ bytes.length := by
  refine ⟨Config.sound_aliasedFiles, Config.isMade_aliasedFiles, ?_, Tools.writesOnlyOutput_obliging _, ?_⟩
  · have hnodes : ∀ e ∈ Config.aliasedFiles.nodes, ["p"] <+: e.1 → e.2.isLink = false := by
      decide
    rintro l ⟨n, hn, hle⟩ target hlink
    have hl : l ≠ [] := ne_nil_of_node? _ (by rw [hlink]; simp)
    have := hnodes _ (mem_nodes hlink hl) ((List.prefix_append _ _).trans hle)
    cases this
  · refine Config.exists_run_ready (fun r fs => r.status = .success ∧ ∃ a ∈ r.artifact, ∃ bytes,
      fs.content (Config.ready.distDirectory / Target.linux64.applicationName
        Config.ready.application) = .ok bytes ∧ a.size ≠ bytes.length) ?_
    have hends : ∀ s ∈ Config.readySetup Config.readyTools Config.aliasedFiles,
        s.1.toOption = some true ∧ Config.IsReady s.2.patching.work.files ∧
        ∃ r ∈ (Config.readyEnd Config.readyTools s.2).1.toOption,
          r.status = .success ∧ r.artifact.map (·.size) = some 1 ∧
          (Config.readyEnd Config.readyTools s.2).2.work.files.content
            (Config.ready.distDirectory / Target.linux64.applicationName Config.ready.application) =
              .ok [65, 66] := by
      decide +kernel
    intro s hs
    obtain ⟨hpassed, hready, r, hr, hsuccess, hsize, hcontent⟩ := hends s hs
    obtain ⟨a, ha, hsize⟩ := Option.map_eq_some_iff.1 hsize
    exact ⟨hpassed, hready, r, hr, hsuccess, a, ha, _, hcontent, by rw [hsize]; decide⟩

end CrossBuild
