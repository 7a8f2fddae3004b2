import CrossBuild.Patch.Engine
import CrossBuild.Proofs.FileSystem.Operations
import CrossBuild.Proofs.Patch.Ledger
import CrossBuild.Proofs.Patch.Plan

/-!
# Patching the engine twice

Once the plan was applied to the files of the engine, applying it again changes nothing: the text
that is read back is the text that was written, and every patch of the plan finds its marker there
or is left out as before.
-/

namespace CrossBuild

open FileSystem SourceText CrossBuild.Task

variable {fs fs' : FileSystem}

namespace Ledger

/-- Replacing a text writes it where the file is; a new backup goes where nothing was. -/
theorem refiled_replaceText {record : PatchRecord} {text : SourceText} {l : Location} {b : Bytes}
    {x : Bool} (hplace : fs.place true record.source = .ok l)
    (hfile : fs.node? l = some (.file b x))
    (hrun : (replaceText record text).runOn fs = (.ok (), fs')) :
    (∃ x', fs'.node? l = some (.file text.toBytes x')) ∧
      Refiled (fun k => k = l ∨ fs.node? k = none ∧ fs.place true record.backup = .ok k) fs fs' := by
  -- the last write, after the backup was made
  have hlast : ∀ fs₁,
      Refiled (fun k => fs.node? k = none ∧ fs.place true record.backup = .ok k) fs fs₁ →
      (FileSystem.write record.source text.toBytes).runOn fs₁ = (.ok (), fs') →
      (∃ x', fs'.node? l = some (.file text.toBytes x')) ∧
        Refiled (fun k => k = l ∨ fs.node? k = none ∧ fs.place true record.backup = .ok k)
          fs fs' := by
    intro fs₁ hr hwrite
    have hspot : fs₁.IsSpot l := (hr.guides l).trans (isSpot_of_file hfile)
    obtain ⟨x', hwrite'⟩ := runOn_write (hr.place hplace) hspot text.toBytes
    rw [hwrite] at hwrite'
    obtain ⟨-, rfl⟩ := Prod.mk.inj hwrite'
    refine ⟨⟨x', ?_⟩, ?_⟩
    · rw [node?_put fs₁ hspot.ne_nil, if_pos rfl]
    · exact (hr.mono fun k hk => .inr hk).trans
        ((refiled_put hspot text.toBytes x').mono fun k hk => .inl hk)
  unfold replaceText at hrun
  rw [runOn_bind, runOn_ask] at hrun
  rcases hpresent : fs.isPresent record.backup with f | present <;> rw [hpresent] at hrun
  · cases hrun
  dsimp only at hrun
  cases present with
  | true => exact hlast fs (.refl fs) hrun
  | false =>
    rw [if_pos (by simp), runOn_bind] at hrun
    rcases hcopy : (copyFile record.source record.backup).runOn fs with ⟨r, fs₁⟩
    rw [hcopy] at hrun
    rcases r with f | u
    · cases hrun
    dsimp only at hrun
    refine hlast fs₁ ?_ hrun
    rcases test_cases hpresent with ⟨l', node, -, -, hb⟩ | ⟨-, l', hp', hnone⟩ | ⟨-, f, hf, -⟩
    · cases hb
    · have hne : l ≠ l' := by
        rintro rfl
        rw [hfile] at hnone
        cases hnone
      obtain ⟨x', hcopy'⟩ := runOn_copyFile hplace hfile hp' (isSpot_of_none hnone) hne
      rw [hcopy] at hcopy'
      obtain ⟨-, rfl⟩ := Prod.mk.inj hcopy'
      refine (refiled_put (isSpot_of_none hnone) b x').mono ?_
      rintro k rfl
      exact ⟨hnone, hp'⟩
    · -- without a place for the backup the copy fails
      unfold copyFile at hcopy
      rw [runOn_bind, runOn_ask] at hcopy
      rcases hsame : fs.isSame record.source record.backup with f' | same <;> rw [hsame] at hcopy
      · cases hcopy
      dsimp only at hcopy
      cases same with
      | true => cases hcopy
      | false =>
        rw [if_neg (by simp), runOn_bind, runOn_ask, content_eq_ok_iff.2 ⟨l, x, hplace, hfile⟩] at hcopy
        dsimp only at hcopy
        unfold FileSystem.write at hcopy
        rw [runOn_change, hf] at hcopy
        cases hcopy

/-- What patching a file comes to when it succeeds: the file holds the patched text, which reads
back as it was written. -/
structure Rewritten (p : Path) (patches : List Patch) (fs fs' : FileSystem) (l : Location)
    (content : Bytes) (text : SourceText) : Prop where
  place : fs.place true p = .ok l
  read : ∃ x, fs.node? l = some (.file content x)
  patched : Patch.applyAll? ofString patches (ofBytes content) = some text
  written : ∃ x, fs'.node? l = some (.file text.toBytes x)
  normal : text.Normal
  refiled : ∃ q, backupOf p = .ok q ∧
    Refiled (fun k => k = l ∨ fs.node? k = none ∧ fs.place true q = .ok k) fs fs'

theorem patchFile_ok {p : Path} {patches : List Patch} {s s' : PatchState} {changed : Bool}
    (hs : s.ledger.Sound) (hsolid : ∀ patch ∈ patches, patch.Solid)
    (hrun : (patchFile p patches).runOn s = (.ok changed, s')) :
    s'.ledger.Sound ∧
      ∃ l content text, Rewritten p patches s.work.files s'.work.files l content text := by
  rcases henter : enter s.ledger p with e | ⟨record, ledger⟩
  · have : (patchFile p patches).runOn s = (.error e, s) := by
      unfold patchFile
      rw [runOn_bind, runOn_ask, henter]
    rw [this] at hrun
    cases hrun
  obtain ⟨hsound, rfl, hbackup⟩ := hs.enter henter
  obtain ⟨hends, -, houtline⟩ := patchFile_ends patches henter
  rw [hrun] at hends houtline
  refine ⟨hsound.of_outline houtline, ?_⟩
  dsimp only at hends
  generalize s'.work.files = fs' at hends ⊢
  cases hends with
  | @unchanged content hcontent htext =>
    obtain ⟨l, x, hplace, hfile⟩ := content_eq_ok_iff.1 hcontent
    refine ⟨l, content, _, hplace, ⟨x, hfile⟩, htext, ⟨x, ?_⟩, normal_ofBytes content, ?_⟩
    · rw [toBytes_ofBytes]
      exact hfile
    · exact ⟨_, hbackup, .refl _⟩
  | @changed content text _ hcontent htext hwrite =>
    obtain ⟨l, x, hplace, hfile⟩ := content_eq_ok_iff.1 hcontent
    obtain ⟨hnew, hr⟩ := refiled_replaceText hplace hfile hwrite
    exact ⟨l, content, text, hplace, ⟨x, hfile⟩, htext, hnew,
      Patch.normal_of_applyAll? hsolid (normal_ofBytes content) htext, _, hbackup, hr⟩

end Ledger

/-! ## The files of the engine -/

/-- Every file of the engine is an ordinary file at a location of its own. -/
structure Located (place : EngineFile → Path) (spot : EngineFile → Location) (fs : FileSystem) :
    Prop where
  place : ∀ f, fs.place true (place f) = .ok (spot f)
  file : ∀ f, ∃ b x, fs.node? (spot f) = some (.file b x)
  separate : ∀ f g, spot f = spot g → f = g

/-- The patches of a file are all applied, or left out. -/
def Settled (place : EngineFile → Path) (modules : List String) (starter : Option String)
    (fs : FileSystem) (f : EngineFile) : Prop :=
  ∃ b, fs.content (place f) = .ok b ∧
    ∀ patch ∈ Patch.plan modules starter f, patch.Idle ofString (ofBytes b)

section
variable {place : EngineFile → Path} {spot : EngineFile → Location} {modules : List String}
  {starter : Option String} {s s' : PatchState} {f : EngineFile}

theorem Located.refiled (h : Located place spot fs)
    (hr : Refiled (fun k => k = spot f ∨ fs.node? k = none) fs fs')
    (hf : ∃ b x, fs'.node? (spot f) = some (.file b x)) :
    Located place spot fs' ∧ ∀ g, g ≠ f → fs'.content (place g) = fs.content (place g) := by
  have hother : ∀ g, g ≠ f → fs'.node? (spot g) = fs.node? (spot g) := by
    intro g hg
    refine hr.others _ ?_
    rintro (heq | hnone)
    · exact hg (h.separate g f heq)
    · obtain ⟨b, x, hfile⟩ := h.file g
      rw [hnone] at hfile
      cases hfile
  refine ⟨⟨fun g => hr.place (h.place g), fun g => ?_, h.separate⟩, fun g hg => ?_⟩
  · by_cases hg : g = f
    · rw [hg]
      exact hf
    · rw [hother g hg]
      exact h.file g
  · obtain ⟨b, x, hfile⟩ := h.file g
    rw [content_eq_ok_iff.2 ⟨_, x, h.place g, hfile⟩,
      content_eq_ok_iff.2 ⟨_, x, hr.place (h.place g), (hother g hg).trans hfile⟩]

/-- **One file**: patches are applied to its text, and the other files are as they were. -/
theorem Located.rewritten (hl : Located place spot s.work.files) (hs : s.ledger.Sound)
    {patches : List Patch} (hsolid : ∀ patch ∈ patches, patch.Solid) {changed : Bool}
    (hrun : (Ledger.patchFile (place f) patches).runOn s = (.ok changed, s')) :
    Located place spot s'.work.files ∧ s'.ledger.Sound ∧
      (∃ b b', s.work.files.content (place f) = .ok b ∧ s'.work.files.content (place f) = .ok b' ∧
        Patch.applyAll? ofString patches (ofBytes b) = some (ofBytes b')) ∧
      (∃ q, Ledger.backupOf (place f) = .ok q) ∧
      ∀ g, g ≠ f → s'.work.files.content (place g) = s.work.files.content (place g) := by
  obtain ⟨hsound, l, content, text, h⟩ := Ledger.patchFile_ok hs hsolid hrun
  have hspot : l = spot f := Except.ok.inj (h.place.symm.trans (hl.place f))
  subst hspot
  obtain ⟨q, hq, hr⟩ := h.refiled
  obtain ⟨x₀, hold⟩ := h.read
  obtain ⟨x, hnew⟩ := h.written
  obtain ⟨hl', hother⟩ := hl.refiled (hr.mono fun k hk => hk.imp id And.left) ⟨_, x, hnew⟩
  refine ⟨hl', hsound, ⟨content, text.toBytes, ?_, ?_, ?_⟩, ⟨q, hq⟩, hother⟩
  · exact content_eq_ok_iff.2 ⟨_, x₀, hl.place f, hold⟩
  · exact content_eq_ok_iff.2 ⟨_, x, hl'.place f, hnew⟩
  · -- what is read back is what was written
    rw [h.normal]
    exact h.patched

/-- After the plan's patches were applied to a file it is settled. -/
theorem Located.patchFile (hl : Located place spot s.work.files) (hs : s.ledger.Sound)
    (hnames : ∀ n ∈ modules, Module.isName n.toList = true)
    (hstarter : ∀ text, starter = some text → Patch.DefinesStarter text) {changed : Bool}
    (hrun : (Ledger.patchFile (place f) (Patch.plan modules starter f)).runOn s = (.ok changed, s')) :
    Located place spot s'.work.files ∧ s'.ledger.Sound ∧
      Settled place modules starter s'.work.files f ∧ (∃ q, Ledger.backupOf (place f) = .ok q) ∧
      ∀ g, g ≠ f → s'.work.files.content (place g) = s.work.files.content (place g) := by
  obtain ⟨hl', hsound, ⟨b, b', -, hb', hpatched⟩, hbackup, hother⟩ :=
    hl.rewritten hs (Patch.solid_plan f) hrun
  exact ⟨hl', hsound, ⟨b', hb', (Patch.steady_plan hnames hstarter f).idle hpatched⟩, hbackup, hother⟩

/-- **All files**: after the plan was applied to some files, each of them that has patches is
settled. -/
theorem Located.patchEngine
    (hnames : ∀ n ∈ modules, Module.isName n.toList = true)
    (hstarter : ∀ text, starter = some text → Patch.DefinesStarter text) (files : List EngineFile) :
    ∀ s changed s', Located place spot s.work.files → s.ledger.Sound →
      (Ledger.patchEngine place modules starter files).runOn s = (.ok changed, s') →
      Located place spot s'.work.files ∧ s'.ledger.Sound ∧
        ∀ f, Patch.plan modules starter f ≠ [] →
          (f ∈ files ∨ (Settled place modules starter s.work.files f ∧
            ∃ q, Ledger.backupOf (place f) = .ok q)) →
          Settled place modules starter s'.work.files f ∧ ∃ q, Ledger.backupOf (place f) = .ok q := by
  induction files with
  | nil =>
    intro s changed s' hl hs hrun
    obtain ⟨-, rfl⟩ := Prod.mk.inj hrun
    refine ⟨hl, hs, fun f _ h => ?_⟩
    rcases h with h | h
    · cases h
    · exact h
  | cons f files ih =>
    intro s changed s' hl hs hrun
    rw [Ledger.patchEngine] at hrun
    split at hrun
    · next hempty =>
      obtain ⟨hl', hs', hall⟩ := ih s changed s' hl hs hrun
      refine ⟨hl', hs', fun g hg h => hall g hg ?_⟩
      rcases h with h | h
      · rcases List.mem_cons.1 h with rfl | h
        · exact absurd (List.isEmpty_iff.1 hempty) hg
        · exact .inl h
      · exact .inr h
    · rw [runOn_bind] at hrun
      rcases hfile : (Ledger.patchFile (place f) (Patch.plan modules starter f)).runOn s with ⟨r, s₁⟩
      rw [hfile] at hrun
      rcases r with e | first
      · cases hrun
      dsimp only at hrun
      rw [runOn_bind] at hrun
      rcases hrest : (Ledger.patchEngine place modules starter files).runOn s₁ with ⟨r, s₂⟩
      rw [hrest] at hrun
      rcases r with e | rest
      · cases hrun
      obtain ⟨-, rfl⟩ := Prod.mk.inj hrun
      obtain ⟨hl₁, hs₁, hsettled, hbackup, hother⟩ := hl.patchFile hs hnames hstarter hfile
      obtain ⟨hl', hs', hall⟩ := ih s₁ rest s₂ hl₁ hs₁ hrest
      refine ⟨hl', hs', fun g hg h => hall g hg ?_⟩
      by_cases hgf : g = f
      · subst hgf
        exact .inr ⟨hsettled, hbackup⟩
      rcases h with h | ⟨⟨b, hb, hidle⟩, hq⟩
      · rcases List.mem_cons.1 h with rfl | h
        · exact absurd rfl hgf
        · exact .inl h
      · exact .inr ⟨⟨b, (hother g hgf).trans hb, hidle⟩, hq⟩

/-- What the plan makes of the texts of some files. -/
theorem Located.patchEngine_texts (files : List EngineFile) :
    ∀ s changed s', files.Nodup → Located place spot s.work.files → s.ledger.Sound →
      (Ledger.patchEngine place modules starter files).runOn s = (.ok changed, s') →
      Located place spot s'.work.files ∧
        (∀ f ∉ files, s'.work.files.content (place f) = s.work.files.content (place f)) ∧
        ∀ f ∈ files, ∃ b b', s.work.files.content (place f) = .ok b ∧
          s'.work.files.content (place f) = .ok b' ∧
          Patch.applyAll? ofString (Patch.plan modules starter f) (ofBytes b) =
            some (ofBytes b') := by
  induction files with
  | nil =>
    intro s changed s' _ hl _ hrun
    obtain ⟨-, rfl⟩ := Prod.mk.inj hrun
    exact ⟨hl, fun _ _ => rfl, fun f hf => by cases hf⟩
  | cons f files ih =>
    intro s changed s' hnodup hl hs hrun
    obtain ⟨hnew, hnodup⟩ := List.nodup_cons.1 hnodup
    rw [Ledger.patchEngine] at hrun
    split at hrun
    · next hempty =>
      obtain ⟨hl', hother, hall⟩ := ih s changed s' hnodup hl hs hrun
      refine ⟨hl', fun g hg => hother g fun h => hg (List.mem_cons_of_mem f h), fun g hg => ?_⟩
      rcases List.mem_cons.1 hg with rfl | hg
      · obtain ⟨b, x, hfile⟩ := hl.file g
        have hb := content_eq_ok_iff.2 ⟨_, x, hl.place g, hfile⟩
        refine ⟨b, b, hb, (hother g hnew).trans hb, ?_⟩
        rw [List.isEmpty_iff.1 hempty, Patch.applyAll?]
      · exact hall g hg
    · rw [runOn_bind] at hrun
      rcases hfile : (Ledger.patchFile (place f) (Patch.plan modules starter f)).runOn s with ⟨r, s₁⟩
      rw [hfile] at hrun
      rcases r with e | first
      · cases hrun
      dsimp only at hrun
      rw [runOn_bind] at hrun
      rcases hrest : (Ledger.patchEngine place modules starter files).runOn s₁ with ⟨r, s₂⟩
      rw [hrest] at hrun
      rcases r with e | rest
      · cases hrun
      obtain ⟨-, rfl⟩ := Prod.mk.inj hrun
      obtain ⟨hl₁, hs₁, ⟨b, b', hb, hb', hpatched⟩, -, hsame⟩ :=
        hl.rewritten hs (Patch.solid_plan f) hfile
      obtain ⟨hl', hother, hall⟩ := ih s₁ rest s₂ hnodup hl₁ hs₁ hrest
      refine ⟨hl', fun g hg => ?_, fun g hg => ?_⟩
      · rw [List.mem_cons, not_or] at hg
        exact (hother g hg.2).trans (hsame g hg.1)
      · rcases List.mem_cons.1 hg with rfl | hg
        · exact ⟨b, b', hb, (hother g hnew).trans hb', hpatched⟩
        · obtain ⟨d, d', hd, hd', hpatched'⟩ := hall g hg
          have hne : g ≠ f := fun heq => hnew (heq ▸ hg)
          exact ⟨d, d', (hsame g hne).symm.trans hd, hd', hpatched'⟩

end

/-! ## The second time -/

namespace Ledger

variable {p : Path} {record : PatchRecord} {ledger ledger' : Ledger}

/-- A file that is taken in has no markers yet. -/
theorem markers_enter (h : enter ledger p = .ok (record, ledger')) :
    ledger'.markers = ledger.markers ∧ ∀ e ∈ ledger, e ∈ ledger' := by
  rcases enter_cases h with ⟨rfl, -⟩ | ⟨rfl, hfresh⟩
  · exact ⟨rfl, fun _ he => he⟩
  · obtain ⟨-, -, happlied⟩ := freshRecord_ok hfresh
    refine ⟨?_, fun e he => List.mem_append_left _ he⟩
    unfold markers
    rw [List.foldl_append]
    simp [happlied]

theorem enter_ok (ledger : Ledger) {q : Path} (h : backupOf p = .ok q) :
    ∃ record ledger', enter ledger p = .ok (record, ledger') := by
  unfold enter
  rcases valueOf? p ledger with _ | record
  · refine ⟨⟨p, q, []⟩, assign p ⟨p, q, []⟩ ledger, ?_⟩
    unfold freshRecord
    rw [h]
    rfl
  · exact ⟨record, ledger, rfl⟩

/-- Applying the plan to settled files changes no file and no marker. -/
theorem patchEngine_of_settled {place : EngineFile → Path} {modules : List String}
    {starter : Option String} (files : List EngineFile) :
    ∀ s : PatchState, s.ledger.Sound →
      (∀ f, Patch.plan modules starter f ≠ [] → Settled place modules starter s.work.files f ∧
        ∃ q, backupOf (place f) = .ok q) →
      ∃ again s', (patchEngine place modules starter files).runOn s = (.ok again, s') ∧
        (∀ e ∈ again, e.2 = false) ∧ s'.work.files = s.work.files ∧
        s'.ledger.markers = s.ledger.markers ∧ ∀ e ∈ s.ledger, e ∈ s'.ledger := by
  induction files with
  | nil =>
    intro s _ _
    refine ⟨[], s, rfl, ?_, rfl, rfl, fun _ he => he⟩
    intro e he
    cases he
  | cons f files ih =>
    intro s hs hsettled
    rw [patchEngine]
    split
    · exact ih s hs hsettled
    · next hempty =>
      have hplan : Patch.plan modules starter f ≠ [] := fun h => hempty (List.isEmpty_iff.2 h)
      obtain ⟨⟨b, hcontent, hidle⟩, q, hq⟩ := hsettled f hplan
      obtain ⟨record, ledger, henter⟩ := enter_ok s.ledger hq
      obtain ⟨hsound, hsource, -⟩ := hs.enter henter
      rw [← hsource] at hcontent
      obtain ⟨hresult, hledger⟩ := patchFile_of_idle henter hcontent hidle
      obtain ⟨hends, -, -⟩ := patchFile_ends (Patch.plan modules starter f) henter
      rcases hrun : (patchFile (place f) (Patch.plan modules starter f)).runOn s with ⟨r, s₁⟩
      rw [hrun] at hresult hledger hends
      dsimp only at hresult hledger hends
      subst hresult
      have hfiles : s₁.work.files = s.work.files := by
        generalize s₁.work.files = fs₁ at hends
        cases hends
        rfl
      obtain ⟨hmarkers, hkeep⟩ := markers_enter henter
      have hnext := ih s₁ (by rw [hledger]; exact hsound) (by rw [hfiles]; exact hsettled)
      obtain ⟨again, s', hrest, hfalse, hfiles', hmarkers', hkeep'⟩ := hnext
      refine ⟨(f, false) :: again, s', ?_, ?_, hfiles'.trans hfiles, ?_, fun e he => ?_⟩
      · rw [runOn_bind, hrun]
        dsimp only
        rw [runOn_bind, hrest]
        rfl
      · intro e he
        rcases List.mem_cons.1 he with rfl | he
        · rfl
        · exact hfalse e he
      · rw [hmarkers', hledger, hmarkers]
      · refine hkeep' e ?_
        rw [hledger]
        exact hkeep e he

end Ledger

/-- **The plan is idempotent on files.** Where the plan was applied without failing, applying it
again with any ledger succeeds, finds every file patched, and changes no file and no marker. -/
theorem patchEngine_idempotent {place : EngineFile → Path} {modules : List String}
    {starter : Option String} {w : Workspace} {ledger : Ledger}
    (hfiles : ∀ f, ∃ l b x, w.files.lookup false (place f) = .ok (l, .file b x))
    (hseparate : ∀ f g l, w.files.place false (place f) = .ok l →
      w.files.place false (place g) = .ok l → f = g)
    (hnames : ∀ n ∈ modules, Module.isName n.toList = true)
    (hstarter : ∀ text, starter = some text → Patch.DefinesStarter text)
    (hledger : ledger.Sound) {changed : List (EngineFile × Bool)} {s : PatchState}
    (hfirst : (Ledger.patchEngine place modules starter EngineFile.all).runOn ⟨w, ledger⟩ =
      (.ok changed, s))
    {ledger₂ : Ledger} (hsecond : ledger₂ = s.ledger ∨ ledger₂.Sound) :
    ∃ again s', (Ledger.patchEngine place modules starter EngineFile.all).runOn ⟨s.work, ledger₂⟩ =
        (.ok again, s') ∧
      (∀ e ∈ again, e.2 = false) ∧ s'.work.files = s.work.files ∧
      s'.ledger.markers = ledger₂.markers ∧ ∀ e ∈ ledger₂, e ∈ s'.ledger := by
  have hspot : ∀ f, ∃ l, w.files.place false (place f) = .ok l ∧
      w.files.place true (place f) = .ok l ∧ ∃ b x, w.files.node? l = some (.file b x) := by
    intro f
    obtain ⟨l, b, x, hlookup⟩ := hfiles f
    obtain ⟨hplace, hnode⟩ := lookup_eq_ok_iff.1 hlookup
    refine ⟨l, hplace, place_true_of_false hplace ?_, b, x, hnode⟩
    intro t ht
    rw [hnode] at ht
    cases ht
  choose spot hplace hplaceTrue hfile using hspot
  have hlocated : Located place spot w.files := by
    refine ⟨hplaceTrue, hfile, fun f g heq => ?_⟩
    exact hseparate f g (spot g) (heq ▸ hplace f) (hplace g)
  obtain ⟨-, hsound, hsettled⟩ := Located.patchEngine hnames hstarter EngineFile.all
    ⟨w, ledger⟩ changed s hlocated hledger hfirst
  have hall : ∀ f, f ∈ EngineFile.all := by
    intro f
    cases f <;> decide
  have hsound₂ : ledger₂.Sound := by
    rcases hsecond with rfl | h
    · exact hsound
    · exact h
  exact Ledger.patchEngine_of_settled EngineFile.all ⟨s.work, ledger₂⟩ hsound₂
    fun f hplan => hsettled f hplan (.inl (hall f))

/-- An engine that has no more than the anchors of its patches. -/
def FileSystem.bareEngine : FileSystem where
  nodes := [(["q"], .directory),
    (["q", "quickjs-libc.c"], .file (.ofString "#include \"quickjs-libc.h\"\n") false),
    (["q", "qjs.c"], .file (.ofString
      "#include \"quickjs-libc.h\"\n    js_init_module_os(ctx, \"os\");\n") false),
    (["q", "qjsc.c"], .file (.ofString
      "#include \"quickjs-libc.h\"\n    namelist_add(&cmodule_list, \"os\", \"os\", 0);\n") false)]
  workingDirectory := []

theorem patchEngine_idempotent_bareEngine :
    ∃ changed s again s',
      (Ledger.patchEngine (fun f => ⟨.root, ["q", f.name]⟩) ["hello"] none EngineFile.all).runOn
          ⟨.ofFiles bareEngine, []⟩ = (.ok changed, s) ∧
        changed = EngineFile.all.map (fun f => (f, true)) ∧
        (Ledger.patchEngine (fun f => ⟨.root, ["q", f.name]⟩) ["hello"] none EngineFile.all).runOn
          ⟨s.work, []⟩ = (.ok again, s') ∧
        (∀ e ∈ again, e.2 = false) ∧ s'.work.files = s.work.files := by
  have hfirst : ((Ledger.patchEngine (fun f => ⟨.root, ["q", f.name]⟩) ["hello"] none
      EngineFile.all).runOn ⟨.ofFiles bareEngine, []⟩).1 =
      .ok (EngineFile.all.map fun f => (f, true)) := by
    decide +kernel
  rcases hrun : (Ledger.patchEngine (fun f => ⟨.root, ["q", f.name]⟩) ["hello"] none
      EngineFile.all).runOn ⟨.ofFiles bareEngine, []⟩ with ⟨r, s⟩
  rw [hrun] at hfirst
  subst hfirst
  have hfiles : ∀ f : EngineFile, ∃ l b x,
      bareEngine.lookup false ⟨.root, ["q", f.name]⟩ = .ok (l, .file b x) := by
    intro f
    cases f
    all_goals exact ⟨_, _, _, by rfl⟩
  have hplace : ∀ f : EngineFile,
      bareEngine.place false ⟨.root, ["q", f.name]⟩ = .ok ["q", f.name] := by
    intro f
    cases f <;> rfl
  have hseparate : ∀ (f g : EngineFile) l, bareEngine.place false ⟨.root, ["q", f.name]⟩ = .ok l →
      bareEngine.place false ⟨.root, ["q", g.name]⟩ = .ok l → f = g := by
    intro f g l hf hg
    rw [hplace f] at hf
    rw [hplace g, ← hf] at hg
    revert hg
    cases f <;> cases g <;> decide
  have hempty : Ledger.Sound [] := fun e he => by cases he
  obtain ⟨again, s', hagain, hfalse, hsame, -, -⟩ := patchEngine_idempotent hfiles hseparate
    (by decide) (fun text h => by cases h) hempty hrun (.inr hempty)
  exact ⟨_, s, again, s', rfl, rfl, hagain, hfalse, hsame⟩

end CrossBuild
