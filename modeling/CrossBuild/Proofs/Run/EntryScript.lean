import CrossBuild.Proofs.BuildTree.Siblings
import CrossBuild.Proofs.Run.Aside
import CrossBuild.Proofs.Run.Project
import CrossBuild.Run.TargetBuild

/-!
# The entry script and its imports

The entry script of a build tree is the variant for the target's family if that is a file there, and the name
of the variant is put together from the parts of the entry's name. An import of the entry script from beside
it is rebound to a variant whose path is put together from the text of the import, and which is found when the
tree is resolved. Both ways lead to the same script (`entryIn_agrees`).
-/

namespace CrossBuild

open FileSystem SourceTree Workspace CrossBuild.Task

namespace Config.IsMade

variable {c : Config} {fs : FileSystem} {t : Target}

/-- The parts of the path of a build tree are names. -/
theorem isName_buildTree (h : c.IsMade fs) (hs : fs.Sound) (ht : t ∈ Target.all) :
    ∀ part ∈ (c.buildTree t).parts, IsName part := by
  have hleads := leads_buildTree (h.sensible hs) ht
  rw [hleads.parts]
  intro part hpart
  rcases List.mem_append.1 hpart with hpart | hpart
  · exact hs.names _ _ (isDirectoryAt_iff.1 (h.root_isDirectory hs).2) part hpart
  · rcases List.mem_cons.1 hpart with rfl | hpart
    · decide
    · exact hleads.names part hpart

theorem isName_entry (h : c.IsMade fs) (hs : fs.Sound) (hscript : ScriptName.isScript c.entry.name = true) :
    IsName c.entry.name := by
  have hmem : c.entry.name ∈ "" :: c.entry.parts := List.getLastD_mem_cons ..
  rcases List.mem_cons.1 hmem with hempty | hmem
  · have hnot : ScriptName.isScript "" = false := by decide
    rw [hempty, hnot] at hscript
    cases hscript
  · exact (h.entry hs).2 _ hmem

end Config.IsMade

namespace TargetBuild

open Config (smallAt filesAt)

variable {fs : FileSystem} {c : Config} {tree source : Path} {t : Target} {w w' : Workspace} {s : Location}
  {exclude : List Path} {r : Resolution}

/-- The entry script is a variant exactly if that is there. -/
theorem entryIn_eq_specific_iff (hname : IsName c.entry.name)
    (hscript : ScriptName.isScript c.entry.name = true)
    (hgeneral : (ScriptName.ofString c.entry.name).family = none) :
    entryIn fs c tree t = .ok (tree / ScriptName.specific c.entry.name t.family) ↔
      fs.isFile (tree / ScriptName.specific c.entry.name t.family) = .ok true := by
  have hne : tree / c.entry.name ≠ tree / ScriptName.specific c.entry.name t.family := by
    rw [tree.div_name hname, tree.div_name (Import.isName_specific hname hscript hgeneral)]
    intro heq
    have hsame : c.entry.name = ScriptName.specific c.entry.name t.family := by
      simpa using (Path.mk.inj heq).2
    rw [hsame, ScriptName.ofString_specific] at hgeneral
    cases hgeneral
  unfold entryIn
  dsimp only
  generalize tree / ScriptName.specific c.entry.name t.family = variant at hne ⊢
  generalize tree / c.entry.name = general at hne ⊢
  rcases fs.isFile variant with f | _ | _
  · exact iff_of_false (fun h => by cases h) fun h => by cases h
  · exact iff_of_false (fun h => hne (Except.ok.inj h)) fun h => by cases h
  · exact iff_of_true rfl rfl

/-- **The entry script agrees with the imports of it**: in each script that stays at the top of the source,
what imports the entry script from beside it is rebound to the variant, in the text and in the swaps that are
noted, exactly if the variant is what is picked in the build tree. The texts and the swaps from before
it and from behind it stand around it. -/
theorem entryIn_agrees (hs₀ : fs.Sound) (hmade : c.IsMade fs) (ht : t ∈ Target.all) (hs : w.files.Sound)
    (hcwd : w.files.isDirectoryAt w.files.workingDirectory = true)
    (hsource : w.files.place true source = .ok s)
    (hlinks : ∀ m, s <+: m → (∀ l, w.files.place true (c.buildTree t) = .ok l → ¬ l <+: m) →
      ∀ text, w.files.node? m ≠ some (.link text))
    (hscript : ScriptName.isScript c.entry.name = true)
    (hgeneral : (ScriptName.ofString c.entry.name).family = none)
    (h : (BuildTree.build source (c.buildTree t) t.family exclude).runOn w = (.ok r, w')) :
    let general := "./" ++ c.entry.name
    let variant := "./" ++ ScriptName.specific c.entry.name t.family
    let picks := entryIn w'.files c (c.buildTree t) t =
      .ok (c.buildTree t / ScriptName.specific c.entry.name t.family)
    ∀ n new, r.tree.get? [n] = some (.script new) → ∃ text text', new = some text' ∧
      w.files.text (source / n) = .ok text ∧
      ∀ front st back, Import.pieces text.toList = front ++ .statement st :: back →
        String.ofList st.imported = general →
        ∃ told textFront swapsFront textBack swapsBack,
          Import.Rebinds t.family.word.toList told front textFront swapsFront ∧
          Import.Rebinds t.family.word.toList told back textBack swapsBack ∧
          text'.toList = textFront ++ (if picks then st.withPath variant.toList else st.text) ++ textBack ∧
          swapsOf n r.rebindings = swapsFront ++ (if picks then [⟨general, variant⟩] else []) ++ swapsBack := by
  intro general variant picks n new hget
  have hname := hmade.isName_entry hs₀ hscript
  have hvariant : IsName (ScriptName.specific c.entry.name t.family) :=
    Import.isName_specific hname hscript hgeneral
  have htarget : ∀ part ∈ (c.buildTree t).parts, IsPart part ∧ part ≠ ".." := fun part hpart =>
    have hpart := hmade.isName_buildTree hs₀ ht part hpart
    ⟨hpart.isPart, hpart.2.2⟩
  obtain ⟨made, skip, tree, l, d, hbuilt, hfiles⟩ :=
    BuildTree.exists_built_looks hs hcwd hsource hlinks htarget h
  obtain ⟨text, text', rfl, htext, hrebinds⟩ := hbuilt.exists_text hget
  refine ⟨text, text', rfl, htext, fun front st back hpieces himported => ?_⟩
  have hst : st.IsImport := by
    have hreads : Import.Reads [] (Import.pieces text.toList) text.toList := Import.reads_iff.2 rfl
    exact hreads.isImport st (by simp [hpieces])
  have hspecific : st.specific t.family.word.toList = variant.toList :=
    Import.specific_of_imported hst.path.1 hscript hgeneral
      (by rw [show ("./" ++ c.entry.name) = general from rfl, ← himported, String.toList_ofList])
  rw [hpieces] at hrebinds
  obtain ⟨found, textFront, swapsFront, textBack, swapsBack, hfound, hfront, hback, htext', hswaps⟩ :=
    hrebinds.of_append
  rw [hspecific, String.ofList_toList] at hfound
  have hpicks : found = true ↔ picks := by
    rw [hbuilt.found_iff hvariant (by rw [ScriptName.ofString_specific]) hfound,
      ← hbuilt.isFile_target_iff hfiles hvariant, ← entryIn_eq_specific_iff hname hscript hgeneral]
  refine ⟨_, textFront, swapsFront, textBack, swapsBack, hfront, hback, ?_, ?_⟩
  · rw [htext']
    cases found with
    | true => rw [if_pos (hpicks.1 rfl), Import.reboundText, hspecific]
    | false =>
      rw [if_neg (mt hpicks.2 (by simp))]
      rfl
  · rw [hswaps]
    cases found with
    | true =>
      rw [if_pos (hpicks.1 rfl), Import.swap?, hspecific, himported, String.ofList_toList]
      rfl
    | false =>
      rw [if_neg (mt hpicks.2 (by simp))]
      rfl

/-- A directory with an entry script, its variant, and a script that imports it. -/
def entryFiles : FileSystem where
  nodes := [(["app"], .directory), (["app", "index.linux.mjs"], .file [65] false),
    (["app", "index.mjs"], .file [66] false),
    (["app", "main.mjs"], .file (.ofString "import x from './index.mjs'") false)]
  workingDirectory := []

/-- What is left of that directory for a family. -/
def entryResolution : Resolution :=
  ⟨.script "index.linux.mjs" (some "A") (.script "main.mjs" (some "import x from './index.linux.mjs'") .nil),
    ["index.mjs"], [⟨"main.mjs", ⟨"./index.mjs", "./index.linux.mjs"⟩⟩]⟩

theorem exists_build_entryFiles :
    ∃ w', (BuildTree.build ⟨.root, ["app"]⟩ ((smallAt []).buildTree .linux64) .linux []).runOn
        (ofFiles entryFiles) = (.ok entryResolution, w') ∧
      w'.files = ((entryResolution.tree.write ((smallAt []).buildTree .linux64)).runOn entryFiles).2 := by
  have hnames : entryFiles.names ⟨.root, ["app"]⟩ = .ok ["index.linux.mjs", "index.mjs", "main.mjs"] := by
    refine names_eq_ok_iff.2 ⟨["app"], by rfl, ?_⟩
    simp [-String.lt_iff_ltb, childNames, entryFiles, childName?, List.eraseDups_cons,
      List.mergeSort, List.MergeSort.Internal.splitInTwo]
  have hresolve :
      entryFiles.resolve ((smallAt []).buildTree .linux64) = .ok ((smallAt []).buildTree .linux64) :=
    Unlinked.resolve_self (unlinked_of_nodes (by simp [entryFiles])) rfl (by decide)
  have hresolved : BuildTree.resolved entryFiles ⟨.root, ["app"]⟩ .linux [(smallAt []).buildTree .linux64] =
      .ok entryResolution := by
    change (scanTo entryFiles _ (4095 + 1) ⟨.root, ["app"]⟩ >>= _) = _
    rw [scanTo, hnames]
    decide +kernel
  have hpresent : entryFiles.isPresent ((smallAt []).buildTree .linux64) = .ok false := by rfl
  have hwrite :
      ((entryResolution.tree.write ((smallAt []).buildTree .linux64)).runOn entryFiles).1 = .ok 2 := by
    decide +kernel
  have hrun : (BuildTree.build ⟨.root, ["app"]⟩ ((smallAt []).buildTree .linux64) .linux []).runOn
      (ofFiles entryFiles) = _ :=
    BuildTree.runOn_build_eq_of_steps (by rfl) hpresent (by rfl) (by simp [hresolve]) hresolved
      (Prod.ext hwrite rfl)
  exact ⟨_, hrun.trans rfl, rfl⟩

/-- The variant is there, and the import is rebound to it. -/
theorem entryIn_agrees_linux :
    ∃ w', (smallAt []).IsMade (filesAt []) ∧
      (BuildTree.build ⟨.root, ["app"]⟩ ((smallAt []).buildTree .linux64) .linux []).runOn (ofFiles entryFiles) =
        (.ok entryResolution, w') ∧
      entryIn w'.files (smallAt []) ((smallAt []).buildTree .linux64) .linux64 =
        .ok ((smallAt []).buildTree .linux64 / "index.linux.mjs") ∧
      ∃ text', entryResolution.tree.get? ["main.mjs"] = some (.script (some text')) ∧
        text'.toList = "import x from './index.linux.mjs'".toList ∧
        swapsOf "main.mjs" entryResolution.rebindings = [⟨"./index.mjs", "./index.linux.mjs"⟩] := by
  obtain ⟨w', hrun, hfiles⟩ := exists_build_entryFiles
  have hmade := Config.isMade_smallAt [] (by decide)
  have hpicks : entryIn w'.files (smallAt []) ((smallAt []).buildTree .linux64) .linux64 =
      .ok ((smallAt []).buildTree .linux64 / "index.linux.mjs") := by
    rw [hfiles]
    decide +kernel
  have hunlinked : entryFiles.Unlinked := unlinked_of_nodes (by simp [entryFiles])
  have hplace : entryFiles.place true ⟨.root, ["app"]⟩ = .ok ["app"] := by rfl
  have hagrees := entryIn_agrees (Config.sound_filesAt [] (by decide)) hmade (t := .linux64) (by decide)
    (sound_of_nodes (by decide)) rfl hplace (fun m _ _ text => hunlinked m text) (by decide)
    (by decide) hrun
  have hget : entryResolution.tree.get? ["main.mjs"] =
      some (.script (some "import x from './index.linux.mjs'")) := by
    rfl
  obtain ⟨text, text', hnew, htext, himports⟩ := hagrees "main.mjs" _ hget
  have hread :
      entryFiles.text ((⟨.root, ["app"]⟩ : Path) / "main.mjs") = .ok "import x from './index.mjs'" := by
    decide +kernel
  obtain rfl := Except.ok.inj (hread.symm.trans htext)
  have hvariant : ScriptName.specific (smallAt []).entry.name Target.linux64.family = "index.linux.mjs" := by
    rfl
  let st : Import.Statement := ⟨"import x from ".toList, '\'', "./index".toList, .mjs⟩
  obtain ⟨told, textFront, swapsFront, textBack, swapsBack, hfront, hback, hrebound, hswaps⟩ :=
    himports [] st [] (by decide +kernel) (by rfl)
  cases hfront
  cases hback
  rw [hvariant, if_pos hpicks] at hrebound hswaps
  refine ⟨w', hmade, hrun, hpicks, text', hnew ▸ hget, hrebound.trans ?_, hswaps.trans ?_⟩ <;> rfl

end TargetBuild

end CrossBuild
