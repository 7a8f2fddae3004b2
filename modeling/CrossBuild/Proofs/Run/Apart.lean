import CrossBuild.Proofs.Import
import CrossBuild.Proofs.Run.Cleaned
import CrossBuild.Proofs.Run.Engine
import CrossBuild.Proofs.Run.Stable

/-!
# Targets apart

What building a target looks at is outside of the yard or its own: its build tree and its
application. The trees and applications of other targets and the directory of tools are hidden from
it. So two builds of a target give the same if they start with the same in view, and building one
target leaves what another one has in view as it is.
-/

namespace CrossBuild

open FileSystem Workspace CrossBuild.Task

/-! ## Climbing paths -/

section
variable {out V : Location → Prop} {here : Location} {p q : Path}

/-- Going up stays on the way. -/
theorem FileSystem.foldl_tread_up (n : Nat) (here : Location) :
    (List.replicate n "..").foldl tread here <+: here := by
  induction n generalizing here with
  | zero => exact List.prefix_refl here
  | succ n ih =>
    rw [List.replicate_succ, List.foldl_cons]
    exact (ih here.dropLast).trans (List.dropLast_prefix here)

/-- A climbing path that starts and ends outside stays outside all the way. -/
theorem Path.Climbs.way (h : p.Climbs) (hout : ∀ {l m}, out l → m <+: l → out m) (hhere : out here)
    (hend : out (p.parts.foldl tread here)) : ∀ pre, pre <+: p.parts → out (pre.foldl tread here) := by
  obtain ⟨up, down, hparts, -, hdown⟩ := h
  intro pre hpre
  rw [hparts] at hpre hend
  rw [List.foldl_append, foldl_tread_of_names hdown] at hend
  rw [List.prefix_iff_eq_take.1 hpre, List.take_append, List.take_replicate, List.foldl_append,
    foldl_tread_of_names fun part hpart => hdown part (List.mem_of_mem_take hpart)]
  rw [List.length_replicate]
  by_cases hup : pre.length ≤ up
  · rw [Nat.sub_eq_zero_of_le hup, List.take_zero, List.append_nil]
    exact hout hhere (foldl_tread_up _ here)
  · rw [Nat.min_eq_right (Nat.le_of_not_le hup)]
    exact hout hend (by simpa using List.take_prefix _ down)

variable (hout : ∀ {l m}, out l → m <+: l → out m) (hV : ∀ l, out l → V l)
  (hchild : ∀ l n, out l → V (l ++ [n]))
include hout hV hchild

/-- A path whose ways but for the last part stay outside is in view. -/
theorem Path.Climbs.inView_concat (h : p.Climbs) (hhere : out here)
    (hend : out (p.parts.foldl tread here)) {last : String} (hdot : last ≠ ".") (hdots : last ≠ "..") :
    ∀ pre, pre <+: p.parts ++ [last] → V (pre.foldl tread here) := by
  intro pre hpre
  rcases List.prefix_concat_iff.1 hpre with rfl | hpre
  · rw [List.foldl_append, List.foldl_cons, List.foldl_nil, tread, if_neg hdot, if_neg hdots]
    exact hchild _ _ hend
  · exact hV _ (h.way hout hhere hend pre hpre)

/-- A path that climbs but for its last part is in view if its end is outside. -/
theorem Path.Climbs.inView (h : p.Climbs) (hhere : out here) (rest : Option String)
    (hend : out ((p.parts ++ rest.toList).foldl tread here)) :
    ∀ pre, pre <+: p.parts ++ rest.toList → V (pre.foldl tread here) := by
  cases rest with
  | none =>
    rw [Option.toList_none, List.append_nil] at hend ⊢
    exact fun pre hpre => hV _ (h.way hout hhere hend pre hpre)
  | some last =>
    rw [Option.toList_some] at hend ⊢
    have hlast := hend
    rw [List.foldl_append, List.foldl_cons, List.foldl_nil, tread] at hlast
    split at hlast
    · next hdot =>
      intro pre hpre
      rcases List.prefix_concat_iff.1 hpre with rfl | hpre
      · exact hV _ hend
      · exact hV _ (h.way hout hhere hlast pre hpre)
    split at hlast
    · next hdots =>
      -- the path goes down and up again: what it comes to is directly in a place outside
      intro pre hpre
      rcases List.prefix_concat_iff.1 hpre with rfl | hpre
      · exact hV _ hend
      obtain ⟨up, down, hparts, habsolute, hdown⟩ := id h
      rcases List.eq_nil_or_concat down with rfl | ⟨init, y, rfl⟩
      · rw [List.append_nil] at hparts
        refine hV _ (h.way hout hhere ?_ pre hpre)
        rw [hparts]
        exact hout hhere (foldl_tread_up up here)
      · have hinit : Path.Climbs ⟨p.anchor, List.replicate up ".." ++ init⟩ :=
          ⟨up, init, rfl, habsolute, fun part hpart => hdown part (by simp [hpart])⟩
        obtain ⟨hdot', hdots'⟩ := hdown y (by simp)
        rw [hparts, List.concat_eq_append, ← List.append_assoc] at hpre hlast
        rw [List.foldl_append, List.foldl_cons, List.foldl_nil, tread, if_neg hdot', if_neg hdots',
          List.dropLast_concat] at hlast
        exact hinit.inView_concat hout hV hchild hhere hlast hdot' hdots' pre hpre
    · next hdot hdots =>
      exact h.inView_concat hout hV hchild hhere (hout hlast (List.prefix_append _ _)) hdot hdots

end

/-! ## What a target has in view -/

namespace Config

variable {c : Config} {t u : Target} {l m : Location} {fs fs' fs₀ : FileSystem}

/-- What building a target may look at: of the yard no more than where it begins, and the target's
own build tree and application. -/
def InView (c : Config) (t : Target) (l : Location) : Prop :=
  ∀ d ∈ c.yard.names, ∀ x, c.root.parts ++ [d, x] <+: l →
    (d = "build" ∧ x = t.id) ∨ (d = "dist" ∧ x = t.applicationName c.application)

theorem InView.above (h : c.InView t l) (hm : m <+: l) : c.InView t m :=
  fun d hd x hx => h d hd x (hx.trans hm)

theorem inView_of_outside (h : ¬ c.yard.Within l) : c.InView t l := by
  intro d hd x hx
  refine absurd ⟨d, hd, ?_⟩ h
  exact List.IsPrefix.trans ⟨[x], by simp [yard]⟩ hx

theorem inView_concat (h : ¬ c.yard.Within l) (n : String) : c.InView t (l ++ [n]) := by
  intro d hd x hx
  rw [List.append_cons] at hx
  rcases List.prefix_concat_iff.1 hx with heq | hx
  · rw [← (List.append_inj' heq rfl).1] at h
    exact absurd ⟨d, hd, List.prefix_refl _⟩ h
  · exact absurd ⟨d, hd, (List.prefix_append _ _).trans hx⟩ h

/-- What is in view of the yard below its beginnings. -/
theorem inView_cons_iff {d x : String} (hd : d ∈ c.yard.names) {xs : List String} :
    c.InView t (c.root.parts ++ d :: x :: xs) ↔
      (d = "build" ∧ x = t.id) ∨ (d = "dist" ∧ x = t.applicationName c.application) := by
  constructor
  · exact fun h => h d hd x ⟨xs, by simp⟩
  · intro h d' hd' x' hx
    rw [List.prefix_append_right_inj, List.cons_prefix_cons, List.cons_prefix_cons] at hx
    obtain ⟨rfl, rfl, -⟩ := hx
    exact h

/-! ## What scripts import -/

/-- Where an import leads that a script below some directories makes. -/
def importedAt (c : Config) (dirs : List String) (imported : List Char) : Location :=
  (c.entryDirectory / SourceTree.wanted dirs imported).parts.foldl tread []

/-- The directories below that of the entry script which become a part of build trees. -/
def Scanned (c : Config) (dirs : List String) : Prop :=
  (∀ n ∈ dirs, IsName n) ∧
    ∀ pre, pre <+: dirs → pre ≠ [] → c.entryDirectory.below pre ∉ c.excluded

/-- Where a path starts that is seen from the entry script's directory. -/
def startOf (c : Config) (q : Path) : Location :=
  if q.anchor = .relative then c.entryDirectory.parts else []

/-- No script of the project imports a path in the yard. -/
def ImportsOutside (c : Config) (fs : FileSystem) : Prop :=
  ∀ dirs name text s, c.Scanned dirs → IsName name → ScriptName.isScript name = true →
    fs.text (c.entryDirectory.below (dirs ++ [name])) = .ok text →
    .statement s ∈ Import.pieces text.toList → ¬ c.yard.Within (c.importedAt dirs s.imported)

/-- A project that lies where its paths say, with its sources outside of the yard. -/
structure Placed (c : Config) : Prop where
  sensible : c.Sensible
  rootNames : ∀ part ∈ c.root.parts, IsName part
  entryRoot : c.entry.anchor = .root
  entryNames : ∀ part ∈ c.entry.parts, IsName part
  entryOutside : ¬ c.yard.Within c.entryDirectory.parts

namespace Placed

variable (hp : c.Placed)
include hp

theorem entryDirectory_plain : ∀ part ∈ c.entryDirectory.parts, part ≠ "." ∧ part ≠ ".." :=
  fun part hpart => (hp.entryNames part (List.dropLast_subset _ hpart)).2

theorem plain_start (q : Path) : ∀ part ∈ c.startOf q, part ≠ "." ∧ part ≠ ".." := by
  unfold startOf
  split
  · exact hp.entryDirectory_plain
  · exact fun part hpart => by cases hpart

theorem outside_start (q : Path) : ¬ c.yard.Within (c.startOf q) := by
  unfold startOf
  split
  · exact hp.entryOutside
  · exact Yard.not_within_of_above List.nil_prefix

/-- A path that is seen from the entry script's directory. -/
theorem parts_div {q : Path} {rest : List String} {s : String} (hq : Path.ofString s = q.below rest) :
    (c.entryDirectory / s).isAbsolute = true ∧
      (c.entryDirectory / s).parts = c.startOf q ++ (q.parts ++ rest) := by
  have hdiv : c.entryDirectory / s = c.entryDirectory.append (q.below rest) := by
    rw [← hq]
    rfl
  have hanchor : c.entryDirectory.anchor = .root := hp.entryRoot
  have hbelow : (q.below rest).anchor = q.anchor := rfl
  rw [hdiv]
  unfold Path.append startOf
  rw [hbelow]
  by_cases h : q.anchor = .relative
  · rw [if_pos h, if_pos h]
    refine ⟨?_, rfl⟩
    unfold Path.isAbsolute
    rw [hanchor]
    rfl
  · rw [if_neg h, if_neg h]
    refine ⟨?_, rfl⟩
    unfold Path.isAbsolute
    rw [hbelow]
    simpa using h

/-- **Imports** whose end is outside of the yard are in view, and so are their variants. -/
theorem along_import {dirs : List String} {s : Import.Statement}
    (h : ¬ c.yard.Within (c.importedAt dirs s.imported)) (family : OsFamily) :
    Along (c.InView t) fs (c.entryDirectory / SourceTree.wanted dirs (s.specific family.word.toList)) := by
  have hout : ∀ {l m}, ¬ c.yard.Within l → m <+: l → ¬ c.yard.Within m := Yard.Within.above
  have hV : ∀ l, ¬ c.yard.Within l → c.InView t l := fun l => inView_of_outside
  have hchild : ∀ l n, ¬ c.yard.Within l → c.InView t (l ++ [n]) := fun l n h => inView_concat h n
  obtain ⟨joined, hjoined⟩ := Lexical.joinAll_append_ending dirs s.path
  have hwanted : ∀ ending, '/' ∉ ending → SourceTree.wanted dirs (s.path ++ ending) =
      String.ofList (Lexical.shorten (joined ++ ending)) := by
    intro ending hending
    unfold SourceTree.wanted
    rw [hjoined ending hending]
  have himported := Import.isEnding_extension s.extension
  have hspecific := Import.isEnding_variant family s.extension
  -- the way of a path is that of the directory and then its own
  have hway : ∀ (q : Path) (rest : List String) (path : String), Path.ofString path = q.below rest →
      (∀ pre, pre <+: q.parts ++ rest → c.InView t (pre.foldl tread (c.startOf q))) →
      Along (c.InView t) fs (c.entryDirectory / path) := by
    intro q rest path hpath hq pre hpre
    obtain ⟨habs, hparts⟩ := hp.parts_div hpath
    rw [origin_of_isAbsolute habs]
    rw [hparts] at hpre
    have hplain := hp.plain_start q
    rw [List.prefix_iff_eq_take.1 hpre, List.take_append, List.foldl_append,
      foldl_tread_of_names fun part hpart => hplain part (List.mem_of_mem_take hpart), List.nil_append]
    rcases Nat.le_total pre.length (c.startOf q).length with hle | hle
    · rw [Nat.sub_eq_zero_of_le hle, List.take_zero]
      exact hV _ (hout (hp.outside_start q) (List.take_prefix _ _))
    · rw [List.take_of_length_le hle]
      exact hq _ (List.take_prefix _ _)
  have hend : ∀ (q : Path) (rest : List String), Path.ofString (SourceTree.wanted dirs s.imported) = q.below rest →
      ¬ c.yard.Within ((q.parts ++ rest).foldl tread (c.startOf q)) := by
    intro q rest hpath
    unfold importedAt at h
    rw [(hp.parts_div hpath).2, List.foldl_append, foldl_tread_of_names (hp.plain_start q)] at h
    exact h
  have hvariant := s.specific_eq family.word.toList
  rw [show s.imported = s.path ++ s.extension.text from rfl, hwanted _ himported.1] at hend
  rw [hvariant, hwanted _ hspecific.1]
  obtain ⟨q, hclimbs, ⟨rest, hsame⟩ | hdiffer⟩ := Lexical.ofString_shorten joined
  · refine hway q rest.toList _ (hsame _ hspecific) ?_
    exact hclimbs.inView hout hV hchild (hp.outside_start q) rest (hend q _ (hsame _ himported))
  · obtain ⟨last, hdot, hdots, hlast⟩ := hdiffer _ himported
    obtain ⟨last', hdot', hdots', hlast'⟩ := hdiffer _ hspecific
    refine hway q [last'] _ hlast' ?_
    have hinit := hend q [last] hlast
    rw [List.foldl_append, List.foldl_cons, List.foldl_nil, tread, if_neg hdot, if_neg hdots] at hinit
    exact hclimbs.inView_concat hout hV hchild (hp.outside_start q) (hout hinit (List.prefix_append _ _))
      hdot' hdots'

/-! ## What is scanned -/

/-- A directory of the project under a path of names. -/
theorem names_below {dirs : List String} (hdirs : ∀ n ∈ dirs, IsName n) :
    ∀ part ∈ (c.entryDirectory.below dirs).parts, IsName part := by
  intro part hpart
  rcases List.mem_append.1 hpart with hpart | hpart
  · exact hp.entryNames part (List.dropLast_subset _ hpart)
  · exact hdirs part hpart

theorem div_root {n : String} (hn : IsName n) : c.root / n = ⟨.root, c.root.parts ++ [n]⟩ := by
  rw [Path.div_name _ hn, hp.sensible.root]

theorem excluded_eq : c.excluded =
    ["build", "bin", "dist", "node_modules"].map fun n => ⟨.root, c.root.parts ++ [n]⟩ := by
  unfold excluded buildDirectory toolsDirectory distDirectory
  rw [hp.div_root (by decide), hp.div_root (by decide), hp.div_root (by decide),
    hp.div_root (by decide)]
  rfl

theorem outside_of_scanned {dirs : List String} (hdirs : c.Scanned dirs) :
    ¬ c.yard.Within (c.entryDirectory.parts ++ dirs) := by
  rintro ⟨d, hd, hwithin⟩
  have houtside := hp.entryOutside
  rcases List.prefix_or_prefix_of_prefix hwithin (List.prefix_append c.entryDirectory.parts dirs) with
    habove | ⟨pre, hpre⟩
  · exact houtside ⟨d, hd, habove⟩
  rw [← hpre, List.prefix_append_right_inj] at hwithin
  by_cases hnil : pre = []
  · rw [hnil, List.append_nil] at hpre
    exact houtside ⟨d, hd, hpre ▸ List.prefix_refl _⟩
  -- a directory of the yard is excluded
  refine hdirs.2 pre hwithin hnil ?_
  have hplace : c.entryDirectory.below pre = ⟨.root, c.root.parts ++ [d]⟩ := by
    show (⟨c.entry.anchor, c.entryDirectory.parts ++ pre⟩ : Path) = _
    rw [hp.entryRoot, hpre]
    rfl
  rw [hplace, hp.excluded_eq]
  refine List.mem_map_of_mem ?_
  have : d ∈ ["build", "bin", "dist"] := hd
  simp only [List.mem_cons, List.not_mem_nil, or_false] at this ⊢
  tauto

theorem opens : SourceTree.Opens (c.InView t) c.entryDirectory c.Scanned where
  absolute := by
    unfold Path.isAbsolute
    rw [show c.entryDirectory.anchor = .root from hp.entryRoot]
    rfl
  plain dirs hdirs part hpart := (hp.names_below hdirs.1 part hpart).2
  inside dirs hdirs n := inView_concat (hp.outside_of_scanned hdirs) n

theorem buildTree_eq (ht : t ∈ Target.all) :
    c.buildTree t = ⟨.root, c.root.parts ++ ["build", t.id]⟩ := by
  unfold buildTree buildDirectory
  rw [hp.div_root (by decide), Path.div_name _ (Target.isName_of_mem_all t ht).1]
  simp

/-- The directories that are left out are their own resolutions. -/
theorem skip_eq (hu : fs.Unlinked) (ht : t ∈ Target.all) :
    (c.excluded ++ [c.buildTree t]).mapM fs.resolve = .ok (c.excluded ++ [c.buildTree t]) := by
  have hnames : ∀ names : List String, (∀ n ∈ names, IsName n) →
      fs.resolve ⟨.root, c.root.parts ++ names⟩ = .ok ⟨.root, c.root.parts ++ names⟩ := by
    refine fun names hnames => hu.resolve_self rfl fun part hpart => ?_
    exact (List.mem_append.1 hpart).elim (hp.rootNames part) (hnames part)
  refine mapM_eq_self fun p hmem => ?_
  rcases List.mem_append.1 hmem with hmem | hmem
  · rw [hp.excluded_eq] at hmem
    obtain ⟨n, hn, rfl⟩ := List.mem_map.1 hmem
    have hnames' : ∀ n ∈ ["build", "bin", "dist", "node_modules"], IsName n := by decide
    refine hnames [n] fun m hm => ?_
    rw [List.mem_singleton.1 hm]
    exact hnames' n hn
  · rw [List.mem_singleton.1 hmem, hp.buildTree_eq ht]
    refine hnames _ fun m hm => ?_
    rcases List.mem_cons.1 hm with rfl | hm
    · decide
    · rw [List.mem_singleton.1 hm]
      exact (Target.isName_of_mem_all t ht).1

theorem stays (hu : fs.Unlinked) (more : List Path) :
    SourceTree.Stays fs (c.excluded ++ more) c.entryDirectory c.Scanned := by
  intro dirs name r hdirs hname _ hresolve hr
  have hnames : ∀ n ∈ dirs ++ [name], IsName n := by
    intro n hn
    rcases List.mem_append.1 hn with hn | hn
    · exact hdirs.1 n hn
    · rw [List.mem_singleton.1 hn]
      exact hname
  rw [hu.resolve_self (p := c.entryDirectory.below (dirs ++ [name])) hp.entryRoot
    (hp.names_below hnames)] at hresolve
  rw [← Except.ok.inj hresolve] at hr
  refine ⟨hnames, fun pre hpre hnil hmem => ?_⟩
  rcases List.prefix_concat_iff.1 hpre with rfl | hpre
  · exact hr (List.mem_append_left _ hmem)
  · exact hdirs.2 pre hpre hnil hmem

end Placed

end Config

end CrossBuild
