import CrossBuild.Proofs.Run.OtherTargets

/-!
# Building the same target twice

The scripts that are read for a target lie outside of the yard, and so does what they import; all
else that is read for it is its own. So with tools whose outcome is a function of the command, a
target is built alike wherever it starts with the same in view.
-/

namespace CrossBuild

open FileSystem Workspace CrossBuild.Task

/-- Tools whose outcome is a function of the command: how they exit, and what they make of what is
at the place of their output. -/
structure Tools.Determined (tools : Tools) : Prop where
  writesOnlyOutput : tools.WritesOnlyOutput
  exit : ∃ exit : Command → Exit, ∀ earlier command fs,
    (tools.run earlier command fs).1 = exit command
  leaves : ∃ leave : Command → Option Node → Option Node, ∀ earlier command fs p l,
    command.output? = some p → fs.place true p = .ok l →
      (tools.run earlier command fs).2.node? l = leave command (fs.node? l)

theorem Tools.determined_failing : failing.Determined where
  writesOnlyOutput := writesOnlyOutput_failing
  exit := ⟨fun _ => .exited 1 "", fun _ _ _ => rfl⟩
  leaves := ⟨fun _ node => node, fun _ _ _ _ _ _ _ => rfl⟩

/-! ## The name of a variant -/

/-- The variant of a name stands for itself in a path. -/
theorem ScriptName.isPart_specific {name : String} (h : '/' ∉ name.toList) (family : OsFamily) :
    IsPart (specific name family) ∧ specific name family ≠ ".." := by
  have hpoints : ∀ parts : List (List Char), (∀ part ∈ parts, part ∈ Text.splitAt '.' name.toList) →
      '/' ∉ (joinPoints parts).toList := by
    intro parts hparts hmem
    unfold joinPoints at hmem
    rw [String.toList_ofList] at hmem
    obtain hsep | ⟨part, hpart, hx⟩ := Text.mem_joinWith hmem
    · cases hsep
    · exact h (Text.mem_of_mem_splitAt (hparts part hpart) hx)
  have hword : '/' ∉ family.word.toList ∧ 2 < family.word.toList.length := by
    cases family <;> decide
  have hstem : '/' ∉ (ofString name).stem.toList := by
    refine hpoints _ fun part hpart => List.dropLast_subset _ ?_
    revert hpart
    generalize Option.isSome _ = hasFamily
    cases hasFamily with
    | true => exact fun hpart => List.dropLast_subset _ hpart
    | false => exact fun hpart => hpart
  have hextension : '/' ∉ (ofString name).extension.toList := by
    unfold ofString
    dsimp only
    rw [String.toList_ofList, List.mem_cons, List.getLastD_eq_getLast?]
    rintro (heq | hmem)
    · cases heq
    · rcases hlast : (Text.splitAt '.' name.toList).getLast? with _ | part
      · rw [hlast] at hmem
        cases hmem
      · rw [hlast] at hmem
        exact h (Text.mem_of_mem_splitAt (List.mem_of_getLast? hlast) hmem)
  have hlist : (specific name family).toList = (ofString name).stem.toList ++ ".".toList ++
      family.word.toList ++ (ofString name).extension.toList := by
    unfold specific specificWord
    simp only [String.toList_append]
  refine isPart_of_length ?_ ?_
  · rw [hlist]
    simp [hstem, hword.1, hextension]
  · rw [hlist]
    simp only [List.length_append]
    omega

namespace Config

variable {c : Config} {tools : Tools} {t : Target} {fs fs' fs₀ : FileSystem}

/-- Files in the midst of building targets, with the same in view of a target. -/
structure Abreast (c : Config) (t : Target) (fs₀ fs fs' : FileSystem) : Prop where
  view : Agree (c.InView t) fs fs'
  building : c.Building fs₀ fs
  building' : c.Building fs₀ fs'

namespace Abreast

/-- What works in the target's tree respects that the files are abreast, if it respects what is in
view. -/
theorem respects (ht : t ∈ Target.all) {α : Type} {task : Task FileSystem α}
    (h : Respects (Agree (c.InView t)) task) (hminds : (c.treeOf t ht).Minds task) :
    Respects (fun w w' => c.Abreast t fs₀ w.files w'.files) (onFiles task) := by
  have hkeeps : Keeps (c.Building fs₀) task := fun fs hfs => hfs.work (hminds fs fs (hfs.ready ht))
  have hboth : Respects (c.Abreast t fs₀) task := by
    intro fs fs' hfs
    obtain ⟨hsame, hview, hbuilding, hbuilding'⟩ :=
      h.keeping hkeeps fs fs' ⟨hfs.view, hfs.building, hfs.building'⟩
    exact ⟨hsame, hview, hbuilding, hbuilding'⟩
  exact hboth.onPart (fun _ _ hw => hw) fun _ _ _ _ _ hfs => hfs

theorem respects_look {α : Type} {f : FileSystem → Except Failure α}
    (h : ∀ fs fs', c.Abreast t fs₀ fs fs' → f fs' = f fs) :
    Respects (fun w w' => c.Abreast t fs₀ w.files w'.files) (look f) :=
  respects_ask fun w w' hw => h w.files w'.files hw

/-- A tool ends alike and leaves the same in view. -/
theorem respects_tool (hp : c.Placed) (htools : tools.Determined) (ht : t ∈ Target.all)
    (arguments : List String) {p : Path} (hmem : p ∈ c.outputs t)
    (hcommand : Command.output? ⟨arguments, c.root, c.timeout⟩ = some p) :
    Respects (fun w w' => c.Abreast t fs₀ w.files w'.files)
      (runTool tools ⟨arguments, c.root, c.timeout⟩) := by
  intro w w' hw
  have hout := isOutput_of_mem_outputs hp.sensible ht p hmem
  obtain ⟨habs, hplain, -⟩ := hout.plain hp
  obtain ⟨exit, hexit⟩ := htools.exit
  obtain ⟨leave, hleave⟩ := htools.leaves
  have hrefiled := refiled_tool hp htools.writesOnlyOutput hw.view.unlinked hout hcommand w.invocations
  have hrefiled' := refiled_tool hp htools.writesOnlyOutput hw.view.unlinked' hout hcommand w'.invocations
  rw [runOn_runTool, runOn_runTool]
  refine ⟨?_, ⟨hw.view.unlinked.refiled hrefiled, hw.view.unlinked'.refiled hrefiled', ?_, ?_⟩,
    hw.building.tool hp htools.writesOnlyOutput hout hcommand _,
    hw.building'.tool hp htools.writesOnlyOutput hout hcommand _⟩
  · show Except.ok _ = Except.ok _
    rw [hexit, hexit]
  · exact hrefiled'.workingDirectory.trans
      (hw.view.workingDirectory.trans hrefiled.workingDirectory.symm)
  intro l hl
  by_cases hat : l = p.parts
  · subst hat
    have hplace := hw.view.place (along_of_plain InView.above habs hplain hl) true
    rcases hfound : w.files.place true p with f | l
    · -- nothing is written where the output cannot be found
      rw [hfound] at hplace
      have hkept : ∀ fs f earlier, fs.place true p = .error f →
          (tools.run earlier ⟨arguments, c.root, c.timeout⟩ fs).2.node? p.parts = fs.node? p.parts := by
        intro fs f earlier hf
        refine (htools.writesOnlyOutput earlier _ fs).others _ ?_
        rintro ⟨q, hq, hl⟩
        rw [hcommand] at hq
        rw [← Option.some.inj hq, hf] at hl
        cases hl
      exact (hkept _ f _ hplace).trans ((hw.view.same _ hl).trans (hkept _ f _ hfound).symm)
    · obtain rfl : l = p.parts := by
        rw [hw.view.unlinked.place_eq hfound, tread_of_isAbsolute habs hplain]
      rw [hfound] at hplace
      show _ = _
      dsimp only
      rw [hleave _ _ _ p _ hcommand hplace, hleave _ _ _ p _ hcommand hfound, hw.view.same _ hl]
  · exact (hrefiled'.others l hat).trans ((hw.view.same l hl).trans (hrefiled.others l hat).symm)

end Abreast

/-! ## What is read for a target -/

/-- Where scripts read the same they import the same. -/
theorem ImportsOutside.of_text (h : c.ImportsOutside fs)
    (htext : ∀ dirs name text, c.Scanned dirs → IsName name → ScriptName.isScript name = true →
      fs'.text (c.entryDirectory.below (dirs ++ [name])) = .ok text →
      fs.text (c.entryDirectory.below (dirs ++ [name])) = .ok text) : c.ImportsOutside fs' :=
  fun dirs name text s hdirs hname hscript hread hs =>
    h dirs name text s hdirs hname hscript (htext dirs name text hdirs hname hscript hread) hs

section
variable (hp : c.Placed)
include hp

/-- A script that is scanned lies outside of the yard. -/
theorem Placed.outside_of_script {dirs : List String} {name : String} (hdirs : c.Scanned dirs)
    (hscript : ScriptName.isScript name = true) :
    ¬ c.yard.Within (c.entryDirectory.below (dirs ++ [name])).parts := by
  have hplain : ∀ n ∈ c.yard.names, ScriptName.isScript n = false := by
    show ∀ n ∈ ["build", "bin", "dist"], _
    decide
  have hname : name ∉ c.yard.names := by
    intro hname
    rw [hplain name hname] at hscript
    cases hscript
  rw [Path.below, ← List.append_assoc]
  exact Yard.Within.concat (hp.outside_of_scanned hdirs) hname

theorem Placed.inside_of_script {dirs : List String} {name : String} (hdirs : c.Scanned dirs)
    (hname : IsName name) (hscript : ScriptName.isScript name = true) :
    Inside (fun l => ¬ c.yard.Within l) (c.entryDirectory.below (dirs ++ [name])) where
  absolute := (hp.opens (t := c.host)).absolute
  plain := ((hp.opens (t := c.host)).child hdirs hname).plain
  inside := hp.outside_of_script hdirs hscript

/-- While targets are built, scripts import what they did. -/
theorem Building.importsOutside (h : c.Building fs₀ fs) (himports : c.ImportsOutside fs₀) :
    c.ImportsOutside fs := by
  refine ImportsOutside.of_text himports fun dirs name text hdirs hname hscript htext => ?_
  have halong : Along _ fs₀ _ := (hp.inside_of_script hdirs hname hscript).along Yard.Within.above
  rw [← h.outside.text halong, htext]

end

/-! ## The build tree -/

namespace Abreast

variable (h : c.Abreast t fs₀ fs fs') (hp : c.Placed)
include h hp

/-- The scripts of the project and their imports are read alike. -/
theorem resolved_eq (himports : c.ImportsOutside fs₀) :
    BuildTree.resolved fs' c.entryDirectory t.family (c.excluded ++ [c.buildTree t]) =
      BuildTree.resolved fs c.entryDirectory t.family (c.excluded ++ [c.buildTree t]) := by
  have hnone : c.Scanned [] :=
    ⟨fun n hn => (by cases hn), fun pre hpre hnil => absurd (List.prefix_nil.1 hpre) hnil⟩
  have hstays := hp.stays h.view.unlinked [c.buildTree t]
  have himports' := h.building.importsOutside hp himports
  unfold BuildTree.resolved SourceTree.scan
  -- how deep the scan may go does not matter
  generalize pathByteLimit = depth
  have hscan : SourceTree.scanTo fs' (c.excluded ++ [c.buildTree t]) depth c.entryDirectory =
      SourceTree.scanTo fs (c.excluded ++ [c.buildTree t]) depth c.entryDirectory := by
    rw [← c.entryDirectory.below_nil]
    exact SourceTree.scanTo_congr InView.above h.view h.building.sound hstays hp.opens [] hnone
  rw [hscan]
  rcases hfound : SourceTree.scanTo fs (c.excluded ++ [c.buildTree t]) depth c.entryDirectory
    with f | tree
  · show Except.error f = Except.error f
    rfl
  have hevery := SourceTree.every_scanTo h.building.sound hstays
    (P := fun dirs name entry => c.Scanned dirs ∧ IsName name ∧
      SourceTree.Found fs (c.entryDirectory.below (dirs ++ [name])) name entry)
    (fun dirs name entry hdirs hname hentry => ⟨hdirs, hname, hentry⟩) [] tree hnone
    (by rwa [Path.below_nil])
  refine SourceTree.resolveIn_congr (fun dirs name text s hscript hs => ?_) hevery
  obtain ⟨hdirs, hname, hisScript, script, rfl, htext⟩ := hscript
  exact h.view.test (hp.along_import (himports' dirs name script s hdirs hname hisScript htext hs) _) true _

end Abreast

section
variable (hp : c.Placed)
include hp

/-- What may be in a tree: names, and copies of what is in view. -/
theorem Placed.every_resolved (hs : fs.Sound) (hu : fs.Unlinked) {more : List Path} {family : OsFamily}
    {r : SourceTree.Resolution}
    (h : BuildTree.resolved fs c.entryDirectory family (c.excluded ++ more) = .ok r) :
    SourceTree.Every (fun dirs name entry => (∀ n ∈ dirs ++ [name], IsName n) ∧
      ∀ source, entry = .asset source → ∃ p, source = some p ∧ Inside (c.InView t) p) [] r.tree := by
  obtain ⟨tree, htree, hr⟩ := of_bind_eq_ok h
  have hnone : c.Scanned [] :=
    ⟨fun n hn => (by cases hn), fun pre hpre hnil => absurd (List.prefix_nil.1 hpre) hnil⟩
  refine SourceTree.every_resolveIn ?_ ?_ (SourceTree.every_scanTo hs (hp.stays hu more) ?_ [] tree hnone
    (by rwa [Path.below_nil])) hr
  · exact fun dirs name text text' hscript => ⟨hscript.1, fun source hsource => by cases hsource⟩
  · exact fun dirs name e e' hdirectory => ⟨hdirectory.1, fun source hsource => by cases hsource⟩
  · intro dirs name entry hdirs hname hentry
    refine ⟨fun n hn => ?_, ?_⟩
    · rcases List.mem_append.1 hn with hn | hn
      · exact hdirs.1 n hn
      · rwa [List.mem_singleton.1 hn]
    · rintro source rfl
      exact ⟨_, hentry, hp.opens.child hdirs hname⟩

/-- A path in the target's build tree is in view. -/
theorem Placed.inside_buildTree (ht : t ∈ Target.all) (names : List String)
    (hnames : ∀ n ∈ names, n ≠ "." ∧ n ≠ "..") : Inside (c.InView t) ((c.buildTree t).below names) := by
  rw [hp.buildTree_eq ht]
  refine ⟨rfl, fun part hpart => ?_, ?_⟩
  · have hparts : part ∈ c.root.parts ++ ["build", t.id] ++ names := hpart
    simp only [List.mem_append, List.mem_cons, List.not_mem_nil, or_false] at hparts
    obtain (hroot | rfl | rfl) | hname := hparts
    · exact (hp.rootNames part hroot).2
    · decide
    · exact (Target.isName_of_mem_all t ht).1.2
    · exact hnames part hname
  · show c.InView t (c.root.parts ++ ["build", t.id] ++ names)
    rw [List.append_assoc, List.cons_append, List.cons_append, inView_cons_iff (by simp [yard])]
    exact .inl ⟨rfl, rfl⟩

/-- Both trees are written alike. -/
theorem Placed.respects_write (ht : t ∈ Target.all) {tree : SourceTree}
    (htree : SourceTree.Every (fun dirs name entry => (∀ n ∈ dirs ++ [name], IsName n) ∧
      ∀ source, entry = .asset source → ∃ p, source = some p ∧ Inside (c.InView t) p) [] tree) :
    Respects (Agree (c.InView t)) (tree.write (c.buildTree t)) := by
  have hV : ∀ {l m}, c.InView t l → m <+: l → c.InView t m := InView.above
  have hroot := hp.inside_buildTree ht [] fun n hn => by cases hn
  unfold SourceTree.write
  rw [Path.below_nil] at hroot
  refine (respects_makeDirectories hV hroot).bind fun _ => ?_
  rw [← (c.buildTree t).below_nil]
  refine SourceTree.respects_writeInto (htree.mono fun dirs name entry h => ?_)
  obtain ⟨hnames, hsource⟩ := h
  have hplace := hp.inside_buildTree ht (dirs ++ [name]) fun n hn => (hnames n hn).2
  refine ⟨hnames name (by simp), ?_⟩
  rcases entry with text | source | children
  · unfold SourceTree.Entry.putAt writeText
    exact FileSystem.respects_write hV hplace _
  · obtain ⟨p, rfl, hp⟩ := hsource source rfl
    exact respects_copyFile hV hp hplace
  · exact respects_makeDirectories hV hplace

end

namespace Abreast

/-- The build trees are made alike. -/
theorem respects_buildTree (hp : c.Placed) (ht : t ∈ Target.all) (himports : c.ImportsOutside fs₀) :
    Respects (fun w w' => c.Abreast t fs₀ w.files w'.files)
      (BuildTree.build c.entryDirectory (c.buildTree t) t.family c.excluded) := by
  have hV : ∀ {l m}, c.InView t l → m <+: l → c.InView t m := InView.above
  have hroot := hp.inside_buildTree ht [] fun n hn => by cases hn
  rw [Path.below_nil] at hroot
  have hentry : Inside (c.InView t) c.entryDirectory :=
    ⟨hp.opens (t := t) |>.absolute, hp.entryDirectory_plain, inView_of_outside hp.entryOutside⟩
  refine BuildTree.respects_build (P := fun skip => skip = c.excluded ++ [c.buildTree t]) ?_ ?_ ?_ ?_ ?_
    ?_ ?_ ?_
  · exact fun message => respects_update fun w w' hw => hw
  · exact respects_look fun fs fs' h => h.view.test (hentry.along hV) true _
  · exact respects_look fun fs fs' h => h.view.test (hroot.along hV) _ _
  · refine respects ht (respects_removeTree hV hroot ?_) (Yard.minds_removeTree (leads_treeOf hp ht))
    refine Yard.removalFault?_of_name (c.root.parts ++ ["build"]) (Target.isName_of_mem_all t ht).1 ?_
    rw [hp.buildTree_eq ht]
    simp
  · refine respects_look fun fs fs' h => ?_
    rw [show fs'.resolve = fs.resolve from funext h.view.resolve]
  · intro w w' skip h hskip
    rw [hp.skip_eq h.view.unlinked ht] at hskip
    exact (Except.ok.inj hskip).symm
  · rintro skip rfl
    exact respects_look fun fs fs' h => h.resolved_eq hp himports
  · rintro w w' skip r h rfl hresolved
    refine respects ht (hp.respects_write ht ?_) ?_
    · exact hp.every_resolved h.building.sound h.view.unlinked hresolved
    · exact Yard.minds_writeTree (BuildTree.named_resolved h.building.sound hresolved) (leads_treeOf hp ht)

end Abreast

/-! ## The target -/

theorem Placed.isPart_specific (hp : c.Placed) (family : OsFamily) :
    IsPart (ScriptName.specific c.entry.name family) ∧ ScriptName.specific c.entry.name family ≠ ".." := by
  refine ScriptName.isPart_specific ?_ family
  unfold Path.name
  rcases List.eq_nil_or_concat c.entry.parts with h | ⟨init, last, h⟩
  · rw [h]
    decide
  · rw [h, List.concat_eq_append, List.getLastD_concat]
    exact (hp.entryNames last (by simp [h])).1.2.1

/-- The application is in view. -/
theorem Placed.inside_applicationPath (hp : c.Placed) (ht : t ∈ Target.all) :
    Inside (c.InView t) (c.applicationPath t) := by
  have hout := isOutput_of_mem_outputs hp.sensible ht (c.applicationPath t) (by simp [outputs])
  obtain ⟨habs, hplain, -⟩ := hout.plain hp
  refine ⟨habs, hplain, ?_⟩
  obtain ⟨hpart, -⟩ := Target.isPart_applicationName ht hp.sensible.application
  unfold applicationPath
  rw [Path.div_part _ hpart, distDirectory, hp.div_root (by decide)]
  show c.InView t (c.root.parts ++ ["dist"] ++ [t.applicationName c.application])
  rw [← List.append_cons, inView_cons_iff (by simp [yard])]
  exact .inr ⟨rfl, rfl⟩

/-- **Building a target** gives the same, and leaves the same in view, wherever the same is in view at
the start. -/
theorem Abreast.carriesBuild (hp : c.Placed) (htools : tools.Determined) (ht : t ∈ Target.all)
    (himports : c.ImportsOutside fs₀) :
    c.CarriesBuild tools t fun w w' => c.Abreast t fs₀ w.files w'.files where
  sensible := hp.sensible
  rootNames := hp.rootNames
  mem := ht
  report level message := respects_update fun w w' hw => hw
  tool arguments p hmem hcommand := respects_tool hp htools ht arguments hmem hcommand
  tree := respects_buildTree hp ht himports
  entry := by
    refine respects_look fun fs fs' h => ?_
    obtain ⟨hpart, hdots⟩ := hp.isPart_specific t.family
    have hinside := hp.inside_buildTree ht [ScriptName.specific c.entry.name t.family]
      fun n hn => by
        rw [List.mem_singleton.1 hn]
        exact ⟨hpart.2.2, hdots⟩
    have hplace : c.buildTree t / ScriptName.specific c.entry.name t.family =
        (c.buildTree t).below [ScriptName.specific c.entry.name t.family] := Path.div_part _ hpart
    unfold TargetBuild.entryIn
    dsimp only
    rw [hplace]
    unfold FileSystem.isFile
    rw [h.view.test (hinside.along InView.above)]
  linked := respects_look fun fs fs' h =>
    h.view.test ((hp.inside_applicationPath ht).along InView.above) true _
  content := respects_look fun fs fs' h =>
    h.view.content ((hp.inside_applicationPath ht).along InView.above)

end Config

end CrossBuild
