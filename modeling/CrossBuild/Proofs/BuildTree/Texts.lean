import CrossBuild.Proofs.BuildTree.Mirror
import CrossBuild.Proofs.SourceTree.Texts

/-!
# The scripts of a build tree

A script of a build tree is the script of the source but for the paths of the imports that were rebound,
if it has no carriage return. A script is read as text, and a line end of another kind is read, and then
written, as a line feed (`line_end_changes`).
-/

namespace CrossBuild.BuildTree

open FileSystem SourceTree Workspace CrossBuild.Task Utf8

variable {w w' : Workspace} {source target : Path} {family : OsFamily} {exclude : List Path}
  {r : Resolution} {way : List String} {n : String}

/-- A file with the name of a script that is left in a tree is a script that was read, rebound by the
swaps that are noted for it. -/
theorem exists_edits_of_get? {fs : FileSystem} {skip : List Path} {told : String → Bool → Prop}
    {t : SourceTree} {entry : Entry} (hs : fs.Sound) (hscan : scan fs skip source = .ok t)
    (hresolves : Resolves family t told [] t.names t r) (hn : ScriptName.isScript n = true)
    (hentry : r.tree.get? (way ++ [n]) = some entry) (hfile : entry.isFile = true) :
    ∃ text cs, entry = .script (some text) ∧
      fs.content (source.below (way ++ [n])) = .ok (encode cs) ∧
      Import.Edits family.word.toList (swapsOf ("/".intercalate (way ++ [n])) r.rebindings)
        (encode (Text.unifyNewlines cs)) (.ofString text) := by
  have hdistinct := distinct_scanTo hscan
  have hnames : Every (fun _ name _ => IsPart name) [] t :=
    (named_scanTo hs hscan).mono fun _ _ _ hnamed => (hnamed _ (by simp)).isPart
  obtain ⟨before, hbefore, hbeforeFile⟩ : ∃ before, t.get? (way ++ [n]) = some before ∧
      before.isFile = true := by
    refine (hresolves.isFile_iff hdistinct).2 ?_
    exact .inl ⟨entry, hentry, hfile⟩
  obtain ⟨read, rfl, hread⟩ := text_of_scanTo hscan hbefore hbeforeFile hn
  obtain ⟨b, cs, hcontent, hdecode, rfl⟩ := text_eq_ok_iff.1 hread
  -- what was a script still is one
  have hleaves := hresolves.leaves hdistinct (way ++ [n])
  rw [hbefore, hentry] at hleaves
  cases hleaves
  obtain ⟨text, new, told', htext, rfl, hrebinds⟩ :=
    hresolves.rebinds hdistinct hnames (fun _ h => by cases h) hentry
  obtain rfl := Entry.script.inj (Option.some.inj (hbefore.symm.trans htext))
  rw [eq_encode_of_decode hdecode] at hcontent
  rw [Option.getD_some, String.toList_ofList] at hrebinds
  exact ⟨new, cs, rfl, hcontent, hrebinds.edits_script⟩

/-- **Scripts keep their text**: a script at the target differs from the one at the same way in the source
only in the paths of the imports that are noted as rebound, once each line end of the source is written
as a line feed. So without a carriage return it differs from it in these paths only, and in nothing if
none is noted. -/
theorem scripts_keep_text (hs : w.files.Sound)
    (hcwd : w.files.isDirectoryAt w.files.workingDirectory = true)
    (htarget : ∀ part ∈ target.parts, IsPart part ∧ part ≠ "..")
    (h : (build source target family exclude).runOn w = (.ok r, w')) :
    ∃ d, w'.files.place true target = .ok d ∧ ∀ way n out x, ScriptName.isScript n = true →
      w'.files.node? (d ++ (way ++ [n])) = some (.file out x) →
        let swaps := swapsOf ("/".intercalate (way ++ [n])) r.rebindings
        ∃ cs, w.files.content (source.below (way ++ [n])) = .ok (encode cs) ∧
          Import.Edits family.word.toList swaps (encode (Text.unifyNewlines cs)) out ∧
          ('\r' ∉ cs → Import.Edits family.word.toList swaps (encode cs) out ∧
            (swaps = [] → out = encode cs)) := by
  obtain ⟨made, skip, told, t, l, d, hrenewed, -, hscan, hresolves, hadds⟩ :=
    exists_scan_of_build hs hcwd htarget h
  have hdirectory := hrenewed.makesWay.directory
  refine ⟨d, hadds.gains.place_of_node hrenewed.makesWay.place (isDirectoryAt_iff.1 hdirectory),
    fun way n out x hn hnode => ?_⟩
  obtain ⟨entry, hentry, hfile⟩ :=
    (hadds.isFileAt_iff hdirectory fun _ => hrenewed.empty hs).1 ⟨out, x, hnode⟩
  obtain ⟨text, cs, rfl, hcontent, hedits⟩ :=
    exists_edits_of_get? hs.removeBelow hscan hresolves hn hentry hfile
  have hheld := hadds.holds _ _ (by simp) hentry
  obtain ⟨rfl, -⟩ := Node.file.inj (Option.some.inj (hnode.symm.trans hheld))
  refine ⟨cs, (Gains.removeBelow w.files l).content hcontent, hedits, fun hreturn => ?_⟩
  rw [Text.unifyNewlines_eq_self hreturn] at hedits
  exact ⟨hedits, fun hnone => Import.edits_nil_iff.1 (hnone ▸ hedits)⟩

/-- A script that imports from outside of its source, where the variant is. -/
def importingFiles : FileSystem where
  nodes := [(["app"], .directory), (["app", "main.mjs"], .file (.ofString "import x from '../x.js';é") true),
    (["x.linux.js"], .file [] false)]
  workingDirectory := []

def rebound : Resolution :=
  ⟨.script "main.mjs" (some "import x from '../x.linux.js';é") .nil, [],
    [⟨"main.mjs", ⟨"../x.js", "../x.linux.js"⟩⟩]⟩

theorem scripts_keep_text_importing :
    ∃ w' cs, (build ⟨.root, ["app"]⟩ ⟨.root, ["out"]⟩ .linux []).runOn (ofFiles importingFiles) =
        (.ok rebound, w') ∧
      w'.files.node? ["out", "main.mjs"] =
        some (.file (.ofString "import x from '../x.linux.js';é") false) ∧
      Bytes.ofString "import x from '../x.js';é" = encode cs ∧
      Import.Edits "linux".toList [⟨"../x.js", "../x.linux.js"⟩] (encode (Text.unifyNewlines cs))
        (.ofString "import x from '../x.linux.js';é") := by
  have hresolve : importingFiles.resolve ⟨.root, ["out"]⟩ = .ok ⟨.root, ["out"]⟩ :=
    Unlinked.resolve_self (unlinked_of_nodes (by simp [importingFiles])) rfl (by decide)
  have hresolved : resolved importingFiles ⟨.root, ["app"]⟩ .linux [⟨.root, ["out"]⟩] = .ok rebound := by
    decide +kernel
  have hpresent : importingFiles.isPresent ⟨.root, ["out"]⟩ = .ok false := by rfl
  have hwrite : ((rebound.tree.write ⟨.root, ["out"]⟩).runOn importingFiles).1 = .ok 1 := by
    decide +kernel
  have hrun : (build ⟨.root, ["app"]⟩ ⟨.root, ["out"]⟩ .linux []).runOn (ofFiles importingFiles) = _ :=
    runOn_build_eq_of_steps (by rfl) hpresent (by rfl) (by simp [hresolve]) hresolved
      (Prod.ext hwrite rfl)
  obtain ⟨w', hw', hfiles⟩ : ∃ w' : Workspace,
      (build ⟨.root, ["app"]⟩ ⟨.root, ["out"]⟩ .linux []).runOn (ofFiles importingFiles) =
        (.ok rebound, w') ∧
      w'.files = ((rebound.tree.write ⟨.root, ["out"]⟩).runOn importingFiles).2 :=
    ⟨_, hrun.trans rfl, rfl⟩
  have hnode : w'.files.node? ["out", "main.mjs"] =
      some (.file (.ofString "import x from '../x.linux.js';é") false) := by
    rw [hfiles]
    decide +kernel
  have hplace : w'.files.place true ⟨.root, ["out"]⟩ = .ok ["out"] := by
    rw [hfiles]
    decide +kernel
  have hcontent : importingFiles.content ⟨.root, ["app", "main.mjs"]⟩ =
      .ok (.ofString "import x from '../x.js';é") := by
    rfl
  obtain ⟨d, hd, hkeep⟩ :=
    scripts_keep_text (sound_of_nodes (by decide)) rfl (by simp [IsPart]) hw'
  obtain rfl : ["out"] = d := Except.ok.inj (hplace.symm.trans hd)
  obtain ⟨cs, hcs, hedits, -⟩ := hkeep [] "main.mjs" _ _ (by rfl) hnode
  exact ⟨w', cs, hw', hnode, Except.ok.inj (hcontent.symm.trans hcs), hedits⟩

/-- A script whose line ends with a carriage return and a line feed. -/
def returnFiles : FileSystem where
  nodes := [(["app"], .directory), (["app", "a.mjs"], .file [97, 13, 10] false)]
  workingDirectory := []

/-- A carriage return is lost though no import is rebound. -/
theorem line_end_changes :
    ∃ r w', (build ⟨.root, ["app"]⟩ ⟨.root, ["out"]⟩ .linux []).runOn (ofFiles returnFiles) =
        (.ok r, w') ∧ r.rebindings = [] ∧
      returnFiles.node? ["app", "a.mjs"] = some (.file [97, 13, 10] false) ∧
      Utf8.decode [97, 13, 10] = .ok ['a', '\r', '\n'] ∧
      w'.files.node? ["out", "a.mjs"] = some (.file [97, 10] false) := by
  let r : Resolution := ⟨.script "a.mjs" (some "a\n") .nil, [], []⟩
  have hresolve : returnFiles.resolve ⟨.root, ["out"]⟩ = .ok ⟨.root, ["out"]⟩ :=
    Unlinked.resolve_self (unlinked_of_nodes (by simp [returnFiles])) rfl (by decide)
  have hresolved : resolved returnFiles ⟨.root, ["app"]⟩ .linux [⟨.root, ["out"]⟩] = .ok r := by
    decide +kernel
  have hpresent : returnFiles.isPresent ⟨.root, ["out"]⟩ = .ok false := by rfl
  have hwrite : ((r.tree.write ⟨.root, ["out"]⟩).runOn returnFiles).1 = .ok 1 := by
    decide +kernel
  refine ⟨r, _, runOn_build_of_steps (by rfl) hpresent (by rfl) (by simp [hresolve])
    hresolved rfl (Prod.ext hwrite rfl), rfl, ?_, ?_, ?_⟩
  all_goals decide +kernel

end CrossBuild.BuildTree
