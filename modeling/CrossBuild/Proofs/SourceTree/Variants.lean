import CrossBuild.Proofs.FileSystem.Unlinked
import CrossBuild.Proofs.SourceTree.Scanned
import Mathlib.Data.String.Basic

/-!
# No script is lost

A general script is dropped if anything of its variant's name is next to it. In a scanned tree this is
the variant, which stays, or a directory. So with every script one of the two stays, unless a directory
has the name of the variant.
-/

namespace CrossBuild.SourceTree

open FileSystem CrossBuild.Task

variable {family : OsFamily} {fs : FileSystem} {exclude : List Path} {depth : Nat} {p : Path}
  {told : String → Bool → Prop} {root t d : SourceTree} {r : Resolution} {dirs : List String}

/-- The directory holds a script that is named like this. -/
def HoldsScript (d : SourceTree) (n : ScriptName) : Prop :=
  ScriptName.ofString n.toString = n ∧ ∃ text, d.child? n.toString = some (.script text)

/-- A script of the family stays. -/
theorem Resolves.holdsScript_of_family (h : Resolves family root told dirs d.names d r)
    (hd : d.names.Nodup) {n : ScriptName} (hfamily : n.family = some family)
    (hn : d.HoldsScript n) : r.tree.HoldsScript n := by
  obtain ⟨hname, text, hchild⟩ := hn
  have hbecomes := h.becomes hd n.toString
  have hkeeps : keeps family d.names n.toString = true := by
    unfold keeps
    rw [hname, hfamily]
    exact beq_self_eq_true family
  rw [hchild, Becomes, if_pos hkeeps] at hbecomes
  obtain ⟨text', hafter⟩ := hbecomes
  exact ⟨hname, _, hafter⟩

/-- A general script stays exactly if nothing next to it has the name of its variant. -/
theorem Resolves.holdsScript_general_iff (h : Resolves family root told dirs d.names d r)
    (hd : d.names.Nodup) {n : ScriptName} (hfamily : n.family = none) (hn : d.HoldsScript n) :
    r.tree.HoldsScript n ↔ ScriptName.specific n.toString family ∉ d.names := by
  obtain ⟨hname, text, hchild⟩ := hn
  have hbecomes := h.becomes hd n.toString
  have hkeeps : keeps family d.names n.toString = true ↔
      ScriptName.specific n.toString family ∉ d.names := by
    unfold keeps
    rw [hname, hfamily]
    simp
  rw [hchild, Becomes] at hbecomes
  rw [← hkeeps]
  split at hbecomes
  · next hk =>
    obtain ⟨text', hafter⟩ := hbecomes
    exact ⟨fun _ => hk, fun _ => ⟨hname, _, hafter⟩⟩
  · next hk =>
    refine ⟨?_, fun hkept => absurd hkept hk⟩
    rintro ⟨-, text', hafter⟩
    rw [hbecomes] at hafter
    cases hafter

/-- In a scanned directory it is the variant of a script, or a directory, that has the name of the
variant. -/
theorem variant_of_scanTo (h : scanTo fs exclude (depth + 1) p = .ok d) {n : ScriptName}
    (hn : d.HoldsScript n) (hvariant : ScriptName.specific n.toString family ∈ d.names) :
    d.HoldsScript ⟨n.stem, some family, n.extension⟩ ∨
      ∃ c, d.child? (ScriptName.specific n.toString family) = some (.directory c) := by
  obtain ⟨hname, text, hchild⟩ := hn
  have hscript : ScriptName.isScript n.toString = true := by
    cases reads_of_child? h hchild with
    | script _ hisScript _ => exact hisScript
  have hparts := ScriptName.ofString_specific n.toString family
  rw [hname] at hparts
  rcases hsibling : d.child? (ScriptName.specific n.toString family) with _ | text | source | c
  · exact absurd hvariant (child?_eq_none_iff.1 hsibling)
  · have htext : ScriptName.specific n.toString family =
        ScriptName.toString ⟨n.stem, some family, n.extension⟩ := by
      unfold ScriptName.specific ScriptName.specificWord
      rw [hname]
      rfl
    exact .inl ⟨htext ▸ hparts, text, htext ▸ hsibling⟩
  · -- a file of such a name is a script
    cases reads_of_child? h hsibling with
    | asset _ hisScript =>
      rw [ScriptName.isScript_specific hscript] at hisScript
      cases hisScript
  · exact .inr ⟨c, rfl⟩

/-! ## Two directories -/

/-- A directory with a script, its variant and another script. -/
def pairedFiles : FileSystem where
  nodes := [(["app"], .directory), (["app", "a.linux.mjs"], .file [] false),
    (["app", "a.mjs"], .file [] false), (["app", "b.mjs"], .file [] false)]
  workingDirectory := []

/-- The scan of the directory with the variant. -/
def paired : SourceTree :=
  .script "a.linux.mjs" (some "") (.script "a.mjs" (some "") (.script "b.mjs" (some "") .nil))

theorem scan_pairedFiles : scan pairedFiles [] ⟨.root, ["app"]⟩ = .ok paired := by
  have hnames : pairedFiles.names ⟨.root, ["app"]⟩ = .ok ["a.linux.mjs", "a.mjs", "b.mjs"] := by
    refine names_eq_ok_iff.2 ⟨["app"], by rfl, ?_⟩
    simp [-String.lt_iff_ltb, childNames, pairedFiles, childName?, List.eraseDups_cons,
      List.mergeSort, List.MergeSort.Internal.splitInTwo]
  change scanTo pairedFiles [] (4095 + 1) ⟨.root, ["app"]⟩ = _
  rw [scanTo, hnames]
  decide +kernel

/-- A directory with a script and a directory that has the name of its variant. -/
def shadowedFiles : FileSystem where
  nodes := [(["app"], .directory), (["app", "a.linux.mjs"], .directory),
    (["app", "a.mjs"], .file [] false)]
  workingDirectory := []

/-- The scan of the directory with the directory in it. -/
def shadowed : SourceTree :=
  .directory "a.linux.mjs" .nil (.script "a.mjs" (some "") .nil)

theorem scan_shadowedFiles : scan shadowedFiles [] ⟨.root, ["app"]⟩ = .ok shadowed := by
  have hnames : shadowedFiles.names ⟨.root, ["app"]⟩ = .ok ["a.linux.mjs", "a.mjs"] := by
    refine names_eq_ok_iff.2 ⟨["app"], by rfl, ?_⟩
    simp [-String.lt_iff_ltb, childNames, shadowedFiles, childName?, List.eraseDups_cons,
      List.mergeSort, List.MergeSort.Internal.splitInTwo]
  have hempty : shadowedFiles.names ⟨.root, ["app", "a.linux.mjs"]⟩ = .ok [] := by
    refine names_eq_ok_iff.2 ⟨["app", "a.linux.mjs"], by rfl, ?_⟩
    simp [childNames, shadowedFiles, childName?]
  have hunlinked : shadowedFiles.Unlinked := unlinked_of_nodes (by simp [shadowedFiles])
  have hresolve : shadowedFiles.resolve ⟨.root, ["app", "a.linux.mjs"]⟩ =
      .ok ⟨.root, ["app", "a.linux.mjs"]⟩ :=
    hunlinked.resolve_of_names rfl (by decide) (by decide)
  have hdirectory : shadowedFiles.isDirectory ⟨.root, ["app", "a.linux.mjs"]⟩ = .ok true := by
    rfl
  have hfile : shadowedFiles.isDirectory ⟨.root, ["app", "a.mjs"]⟩ = .ok false := by rfl
  have htext : shadowedFiles.text ⟨.root, ["app", "a.mjs"]⟩ = .ok "" := by decide +kernel
  have hinner : scanTo shadowedFiles [] 4095 ⟨.root, ["app", "a.linux.mjs"]⟩ = .ok .nil := by
    change scanTo shadowedFiles [] (4094 + 1) _ = _
    rw [scanTo, hempty]
    rfl
  have hbind : ∀ {α β : Type} (a : α) (f : α → Except Failure β), (Except.ok a >>= f) = f a :=
    fun _ _ => rfl
  change scanTo shadowedFiles [] (4095 + 1) ⟨.root, ["app"]⟩ = _
  rw [scanTo, hnames, hbind]
  simp only [List.filterMapM_cons, List.filterMapM_nil, List.cons_append, List.nil_append,
    hdirectory, hresolve, hfile, htext, hinner, hbind]
  rfl

/-! ## What stays of the scripts -/

variable {σ : Type}

/-- **No script is lost** from a scanned tree. In each of its directories the scripts of the family
stay, and a general script without a variant stays exactly if no directory has the variant's name. If
the outside answers, the tree is resolved. -/
theorem scripts_survive (ht : scan fs exclude p = .ok t) (family : OsFamily)
    (outside : Option (String → Task σ Bool)) (s : σ) :
    ((∀ question ∈ outside, ∀ path, Succeeds (fun _ => True) (question path)) →
        ∃ r s', (t.resolve family outside).runOn s = (.ok r, s')) ∧
      ∀ r s', (t.resolve family outside).runOn s = (.ok r, s') →
        ∀ path d, t.get? path = some (.directory d) →
          ∃ d', r.tree.get? path = some (.directory d') ∧ ∀ stem extension,
            (d.HoldsScript ⟨stem, some family, extension⟩ →
              d'.HoldsScript ⟨stem, some family, extension⟩) ∧
            (d.HoldsScript ⟨stem, none, extension⟩ →
              ¬ d.HoldsScript ⟨stem, some family, extension⟩ →
              (d'.HoldsScript ⟨stem, none, extension⟩ ↔
                ∀ c, d.child? (ScriptName.toString ⟨stem, some family, extension⟩) ≠
                  some (.directory c))) := by
  constructor
  · exact fun hanswers => (succeeds_resolveIn hanswers t [] t.names).exists_ok trivial
  · intro r s' hrun path d hd
    obtain ⟨told, hresolves⟩ := Outcome.task.resolves hrun
    obtain ⟨hdistinct, inner, hinner, hafter⟩ := hresolves.get?_directory (distinct_scanTo ht) hd
    obtain ⟨depth, hscan⟩ := scanTo_of_get? ht hd
    refine ⟨inner.tree, hafter, fun stem extension => ⟨?_, fun hn hno => ?_⟩⟩
    · exact hinner.holdsScript_of_family hdistinct.nodup rfl
    · rw [hinner.holdsScript_general_iff hdistinct.nodup rfl hn]
      have htext : ScriptName.specific (ScriptName.toString ⟨stem, none, extension⟩) family =
          ScriptName.toString ⟨stem, some family, extension⟩ := by
        unfold ScriptName.specific ScriptName.specificWord
        rw [hn.1]
        rfl
      constructor
      · intro hnot c hc
        rw [← htext] at hc
        exact hnot (mem_names_of_child? hc)
      · intro hnone hvariant
        rcases variant_of_scanTo hscan hn hvariant with hholds | ⟨c, hc⟩
        · exact hno hholds
        · exact hnone c (htext ▸ hc)

/-- The variant stays, and so does the script without one. -/
theorem scripts_survive_paired :
    scan pairedFiles [] ⟨.root, ["app"]⟩ = .ok paired ∧
      ∃ r s', (paired.resolve .linux (none : Option (String → Task Unit Bool))).runOn () = (.ok r, s') ∧
        r.tree.HoldsScript ⟨"a", some .linux, ".mjs"⟩ ∧ r.tree.HoldsScript ⟨"b", none, ".mjs"⟩ := by
  obtain ⟨hanswers, hsurvive⟩ :=
    scripts_survive scan_pairedFiles .linux (none : Option (String → Task Unit Bool)) ()
  obtain ⟨r, s', hrun⟩ := hanswers fun question hquestion => by cases hquestion
  obtain ⟨d, hd, hscripts⟩ := hsurvive r s' hrun [] paired get?_nil
  obtain rfl : r.tree = d := by
    rw [get?_nil] at hd
    exact Entry.directory.inj (Option.some.inj hd)
  have hnone : paired.child? (ScriptName.toString ⟨"b", some .linux, ".mjs"⟩) = none := by
    rfl
  refine ⟨scan_pairedFiles, r, s', hrun, (hscripts "a" ".mjs").1 ?_, ((hscripts "b" ".mjs").2 ?_ ?_).2 ?_⟩
  · exact ⟨by rfl, some "", by rfl⟩
  · exact ⟨by rfl, some "", by rfl⟩
  · rintro ⟨-, text, htext⟩
    rw [hnone] at htext
    cases htext
  · intro c hc
    rw [hnone] at hc
    cases hc

/-- A directory with the name of the variant is enough to drop a script, and nothing is there for it. -/
theorem script_lost :
    ∃ r, scan shadowedFiles [] ⟨.root, ["app"]⟩ = .ok shadowed ∧
      (shadowed.resolve .linux (none : Option (String → Task Unit Bool))).runOn () = (.ok r, ()) ∧
      shadowed.HoldsScript ⟨"a", none, ".mjs"⟩ ∧
      ¬ r.tree.HoldsScript ⟨"a", some .linux, ".mjs"⟩ ∧ ¬ r.tree.HoldsScript ⟨"a", none, ".mjs"⟩ := by
  refine ⟨⟨.directory "a.linux.mjs" .nil .nil, ["a.mjs"], []⟩, scan_shadowedFiles, by rfl,
    ⟨by rfl, some "", by rfl⟩, ?_, ?_⟩
  · rintro ⟨-, text, htext⟩
    have hdirectory : (SourceTree.directory "a.linux.mjs" .nil .nil).child?
        (ScriptName.toString ⟨"a", some .linux, ".mjs"⟩) = some (.directory .nil) := by rfl
    rw [hdirectory] at htext
    cases htext
  · rintro ⟨-, text, htext⟩
    have hnone : (SourceTree.directory "a.linux.mjs" .nil .nil).child?
        (ScriptName.toString ⟨"a", none, ".mjs"⟩) = none := by rfl
    rw [hnone] at htext
    cases htext

end CrossBuild.SourceTree
