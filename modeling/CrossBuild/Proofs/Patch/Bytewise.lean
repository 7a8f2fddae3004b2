import CrossBuild.Proofs.Patch.Fold
import CrossBuild.Proofs.Text.Splice

/-!
# Patching texts is patching bytes

A string begins with a fresh byte and ends where a character ends, so its first occurrence among the
bytes of a file is its first occurrence in the text that the bytes are read as, whatever stray bytes
there are. Patches do the same to both, as long as each inserts something: then no bytes of the file
that were apart come together.
-/

namespace CrossBuild

open Splice SourceText FileSystem CrossBuild.Task

/-! ## First occurrences -/

namespace SourceText

theorem ofBytes_injective : Function.Injective ofBytes := by
  intro a b h
  rw [← toBytes_ofBytes a, h, toBytes_ofBytes]

/-- Bytes around a string are read as what the bytes on both sides are read as. -/
theorem ofBytes_around {t : String} (ht : t ≠ "") (a b : Bytes) :
    ofBytes (a ++ Bytes.ofString t ++ b) = ofBytes a ++ ofString t ++ ofBytes b := by
  rw [List.append_assoc, ofBytes_append (fresh_ofString_append ht b), ofBytes_ofString_append,
    List.append_assoc]

theorem toBytes_length_lt {t u : SourceText} (hu : u ≠ []) :
    t.toBytes.length < (t ++ u).toBytes.length := by
  rw [toBytes_append, List.length_append]
  have : 0 < u.toBytes.length := List.length_pos_iff.2 fun h => hu (eq_nil_of_toBytes h)
  omega

/-- **The first occurrence of a string** among bytes is the one in their text. -/
theorem splitFirst?_ofBytes (t : String) (b : Bytes) :
    splitFirst? (ofString t) (ofBytes b) =
      (splitFirst? (Bytes.ofString t) b).map fun sides => (ofBytes sides.1, ofBytes sides.2) := by
  by_cases ht : t = ""
  · subst ht
    change splitFirst? [] (ofBytes b) = (splitFirst? [] b).map _
    rw [splitFirst?_nil, splitFirst?_nil]
    simp [ofBytes_nil]
  -- an occurrence in the text is one among the bytes
  have hback : ∀ l r, ofBytes b = l ++ ofString t ++ r →
      b = l.toBytes ++ Bytes.ofString t ++ r.toBytes := by
    intro l r h
    rw [← toBytes_ofBytes b, h, toBytes_append, toBytes_append, toBytes_ofString]
  rcases hsplit : splitFirst? (Bytes.ofString t) b with _ | ⟨l, r⟩
  · refine splitFirst?_eq_none_iff.2 fun l r h => ?_
    exact splitFirst?_eq_none_iff.1 hsplit _ _ (hback l r h)
  · obtain ⟨hb, hfirst⟩ := splitFirst?_eq_some_iff.1 hsplit
    have htext : ofBytes b = ofBytes l ++ ofString t ++ ofBytes r := hb ▸ ofBytes_around ht l r
    refine splitFirst?_eq_some_iff.2 ⟨htext, fun l' r' h => ?_⟩
    have hlength := hfirst _ _ (hback l' r' h)
    show (ofBytes l).length ≤ l'.length
    by_contra hshorter
    -- a shorter front of the text would have fewer bytes
    rw [htext, List.append_assoc, List.append_assoc] at h
    rcases List.append_eq_append_iff.1 h with ⟨u, hu, -⟩ | ⟨u, hu, -⟩
    · rw [hu, List.length_append] at hshorter
      omega
    · have hne : u ≠ [] := by
        rintro rfl
        rw [hu, List.append_nil] at hshorter
        omega
      have hlt := toBytes_length_lt (t := l') hne
      rw [← hu, toBytes_ofBytes] at hlt
      omega

theorem occursIn_ofBytes (t : String) (b : Bytes) :
    occursIn (ofString t) (ofBytes b) = occursIn (Bytes.ofString t) b := by
  unfold occursIn
  rw [splitFirst?_ofBytes, Option.isSome_map]

theorem replaceFirst_ofBytes {t new : String} (hnew : new ≠ "") (b : Bytes)
    (h : occursIn (Bytes.ofString t) b = true) :
    replaceFirst (ofString t) (ofString new) (ofBytes b) =
      ofBytes (replaceFirst (Bytes.ofString t) (Bytes.ofString new) b) := by
  obtain ⟨⟨l, r⟩, hsplit⟩ := Option.isSome_iff_exists.1 h
  unfold replaceFirst
  rw [splitFirst?_ofBytes, hsplit]
  exact (ofBytes_around hnew l r).symm

end SourceText

/-! ## Patches -/

namespace Patch

variable {p : Patch} {patches : List Patch}

/-- The outcome with another reading of the text. -/
def Outcome.map {α β : Type} (f : List α → List β) : Outcome α → Outcome β
  | .present => .present
  | .done text => .done (f text)
  | .skipped => .skipped
  | .anchorMissing => .anchorMissing

/-- What takes the anchor's place is a string, and not an empty one if something is inserted. -/
theorem exists_replacement (hp : p.insertion ≠ "") (anchor : String) :
    ∃ new, new ≠ "" ∧ p.replacement ofString (ofString anchor) = ofString new ∧
      p.replacement Bytes.ofString (Bytes.ofString anchor) = Bytes.ofString new := by
  have hstring : ∀ s t : String, ofString s ++ ofString t = ofString (s ++ t) := by
    intro s t
    simp [ofString]
  have hbytes : ∀ s t : String, Bytes.ofString s ++ Bytes.ofString t = Bytes.ofString (s ++ t) := by
    intro s t
    simp [Bytes.ofString]
  unfold replacement
  rcases p.position with _ | _ | _ | _
  · exact ⟨p.insertion ++ anchor, by simp [hp], hstring _ _, hbytes _ _⟩
  · exact ⟨anchor ++ p.insertion, by simp [hp], hstring _ _, hbytes _ _⟩
  · exact ⟨p.insertion, hp, rfl, rfl⟩
  · exact ⟨p.insertion, hp, rfl, rfl⟩

theorem apply_ofBytes (hp : p.insertion ≠ "") (b : Bytes) :
    p.apply ofString (ofBytes b) = (p.apply Bytes.ofString b).map ofBytes := by
  unfold apply
  rw [occursIn_ofBytes]
  split
  · rfl
  split
  · rw [Outcome.map, ofBytes_ofString_append]
  rcases p.anchor with _ | anchor
  · dsimp only
    split <;> rfl
  · dsimp only
    rw [occursIn_ofBytes]
    split
    · next hoccurs =>
      obtain ⟨new, hnew, htext, hbytes⟩ := exists_replacement hp anchor
      rw [Outcome.map, htext, hbytes, replaceFirst_ofBytes hnew b hoccurs]
    · split <;> rfl

/-- **Patches do the same to bytes and to their text.** -/
theorem fold_ofBytes (hpatches : ∀ p ∈ patches, p.insertion ≠ "") (b : Bytes) :
    fold ofString patches (ofBytes b) =
      ((fold Bytes.ofString patches b).1, (fold Bytes.ofString patches b).2.map ofBytes) := by
  induction patches generalizing b with
  | nil => rfl
  | cons p rest ih =>
    obtain ⟨hp, hrest⟩ := List.forall_mem_cons.1 hpatches
    rw [fold, fold, apply_ofBytes hp]
    rcases p.apply Bytes.ofString b with _ | changed | _ | _
    · exact ih hrest b
    · dsimp only [Outcome.map]
      rw [ih hrest changed]
      simp only [ofBytes_injective.eq_iff]
    · exact ih hrest b
    · rfl

/-- A text that patches were spliced into: each puts its insertion in somewhere, or in place of its
anchor, or does nothing. All else stays. -/
inductive Spliced {α : Type} (spell : String → List α) : List Patch → List α → List α → Prop
  | nil (text : List α) : Spliced spell [] text text
  | idle {p : Patch} {rest : List Patch} {text final : List α}
      (later : Spliced spell rest text final) :
      Spliced spell (p :: rest) text final
  | insert {p : Patch} {rest : List Patch} {before after final : List α}
      (later : Spliced spell rest (before ++ spell p.insertion ++ after) final) :
      Spliced spell (p :: rest) (before ++ after) final
  | replace {p : Patch} {rest : List Patch} {before after final : List α} {anchor : String}
      (position : p.position = .replace) (hanchor : p.anchor = some anchor)
      (later : Spliced spell rest (before ++ spell p.insertion ++ after) final) :
      Spliced spell (p :: rest) (before ++ spell anchor ++ after) final

theorem spliced_of_fold {α : Type} [DecidableEq α] {spell : String → List α} {text final : List α}
    (h : (fold spell patches text).2 = .ok final) : Spliced spell patches text final := by
  induction patches generalizing text with
  | nil =>
    obtain rfl := Except.ok.inj h
    exact .nil text
  | cons p rest ih =>
    rw [fold] at h
    rcases hp : p.apply spell text with _ | changed | _ | _ <;> rw [hp] at h
    · exact .idle (ih h)
    · have hlater := ih h
      rcases done_cases hp with ⟨-, rfl⟩ | ⟨anchor, before, after, hanchor, hfront, rfl, rfl⟩
      · show Spliced spell (p :: rest) ([] ++ text) final
        exact .insert hlater
      · unfold replacement at hlater
        rcases hposition : p.position with _ | _ | _ | _ <;> rw [hposition] at hlater
        · rw [List.append_assoc]
          refine .insert ?_
          simpa only [List.append_assoc] using hlater
        · refine .insert ?_
          simpa only [List.append_assoc] using hlater
        · exact .replace hposition hanchor hlater
        · exact absurd hposition hfront
    · exact .idle (ih h)
    · cases h

end Patch

/-! ## Patching one file -/

namespace Ledger

/-- Patches a file with one call for each patch. -/
def patchSingly (p : Path) : List Patch → Task PatchState Unit
  | [] => return ()
  | patch :: rest => do
    let _ ← patchFile p [patch]
    patchSingly p rest

variable {p : Path} {patches : List Patch} {record : PatchRecord} {ledger : Ledger}
  {s : PatchState} {b b' : Bytes}

theorem Writable.of_ok {fs : FileSystem} (text : SourceText)
    (hcontent : fs.content record.source = .ok b)
    (h : ((replaceText record text).runOn fs).1 = .ok ()) : Writable record fs := by
  rcases replaceText_cases hcontent with ⟨f, hf⟩ | hok
  · rw [hf] at h
    cases h
  · intro text
    obtain ⟨fs', hrun, -⟩ := hok text
    rw [hrun]

/-- What one call does to a file whose text can be replaced, or cannot. -/
theorem runOn_patchFile_bytes (hpatches : ∀ patch ∈ patches, patch.insertion ≠ "")
    (henter : enter s.ledger p = .ok (record, ledger))
    (hcontent : s.work.files.content record.source = .ok b)
    (hfold : (Patch.fold Bytes.ofString patches b).2 = .ok b') :
    let ran := (patchFile p patches).runOn s
    ran.2.ledger = ledger.noted p (Patch.fold Bytes.ofString patches b).1 ∧
      (Writable record s.work.files → ran.1 = .ok (b' != b) ∧
        ran.2.work.files.content record.source = .ok b' ∧ Writable record ran.2.work.files) ∧
      (¬ Writable record s.work.files → ran.2.work.files = s.work.files ∧
        (b' = b → ran.1 = .ok false) ∧ (b' ≠ b → ∃ f, ran.1 = .error f)) := by
  have hrun := runOn_patchFile patches henter hcontent
  rw [Patch.fold_ofBytes hpatches, hfold] at hrun
  dsimp only [Except.map] at hrun
  refine ⟨hrun.ledger, ?_⟩
  by_cases hsame : b' = b
  · obtain ⟨hresult, hfiles⟩ := hrun.unchanged (by rw [hsame])
    rw [hresult, hfiles, hcontent, hsame]
    exact ⟨fun hw => ⟨by simp, rfl, hw⟩, fun _ => ⟨rfl, fun _ => rfl, fun hne => absurd rfl hne⟩⟩
  · have hnew : ofBytes b' ≠ ofBytes b := fun h => hsame (ofBytes_injective h)
    obtain ⟨hfiles, hresult⟩ := hrun.replaced _ rfl hnew
    rcases replaceText_cases hcontent with ⟨f, hf⟩ | hok
    · rw [hf] at hfiles hresult
      refine ⟨fun hw => ?_, fun _ => ⟨hfiles, fun h => absurd h hsame, fun _ => ⟨_, hresult⟩⟩⟩
      have := hw []
      rw [hf] at this
      cases this
    · obtain ⟨fs', hreplace, hcontent', hw'⟩ := hok (ofBytes b')
      rw [hreplace] at hfiles hresult
      rw [toBytes_ofBytes] at hcontent'
      rw [hresult, hfiles]
      refine ⟨fun _ => ⟨?_, hcontent', hw'⟩, fun hw => absurd ?_ hw⟩
      · simp [hsame, Except.mapError, Except.map]
      · exact .of_ok (ofBytes b') hcontent (by rw [hreplace])

/-- What one call for each patch does to the same file. -/
theorem runOn_patchSingly (patches : List Patch) : ∀ (s : PatchState) (record : PatchRecord)
    (ledger : Ledger) (b : Bytes), (∀ patch ∈ patches, patch.insertion ≠ "") →
    enter s.ledger p = .ok (record, ledger) → s.work.files.content record.source = .ok b →
    (Patch.fold Bytes.ofString patches b).2 = .ok b' →
    (Writable record s.work.files → ∃ s', (patchSingly p patches).runOn s = (.ok (), s') ∧
        s'.work.files.content record.source = .ok b') ∧
      (¬ Writable record s.work.files →
        ((patchSingly p patches).runOn s).2.work.files = s.work.files) := by
  induction patches with
  | nil =>
    intro s record ledger b _ _ hcontent hfold
    obtain rfl := Except.ok.inj hfold
    exact ⟨fun _ => ⟨s, rfl, hcontent⟩, fun _ => rfl⟩
  | cons patch rest ih =>
    intro s record ledger b hpatches henter hcontent hfold
    obtain ⟨hpatch, hrest⟩ := List.forall_mem_cons.1 hpatches
    change (Patch.fold Bytes.ofString ([patch] ++ rest) b).2 = .ok b' at hfold
    obtain ⟨mid, hfirst, hlast⟩ := Patch.exists_fold_of_append hfold
    obtain ⟨hledger, hgood, hbad⟩ := runOn_patchFile_bytes (List.forall_mem_singleton.2 hpatch)
      henter hcontent hfirst
    rcases hrun : (patchFile p [patch]).runOn s with ⟨r, s₁⟩
    rw [hrun] at hledger hgood hbad
    dsimp only at hledger hgood hbad
    -- the next call finds the record with more markers, which replacing a text does not read
    have hnext := fun hmid => ih s₁ _ _ mid hrest (hledger ▸ enter_noted henter _) hmid hlast
    rw [patchSingly, runOn_bind, hrun]
    refine ⟨fun hw => ?_, fun hw => ?_⟩
    · obtain ⟨rfl, hmid, hw₁⟩ := hgood hw
      exact (hnext hmid).1 hw₁
    · obtain ⟨hfiles, hsame, hnew⟩ := hbad hw
      by_cases heq : mid = b
      · obtain rfl := hsame heq
        have hmid : s₁.work.files.content record.source = .ok mid := by
          rw [hfiles, hcontent, heq]
        exact ((hnext hmid).2 (hfiles ▸ hw)).trans hfiles
      · obtain ⟨f, rfl⟩ := hnew heq
        exact hfiles

/-- **Patching a file is patching its bytes.** Whatever bytes the file holds, patches that each
insert something fail at the same patch, note the same markers and leave the same bytes as they do
when their texts are looked for and spliced in as UTF-8. The splices leave all other bytes as they
are, and one call for each patch leaves the file with the same bytes as one call for all. -/
theorem patchFile_bytewise (hpatches : ∀ patch ∈ patches, patch.insertion ≠ "")
    (henter : enter s.ledger p = .ok (record, ledger))
    (hcontent : s.work.files.content record.source = .ok b) :
    let folded := Patch.fold Bytes.ofString patches b
    let ran := (patchFile p patches).runOn s
    ran.2.ledger = ledger.noted p folded.1 ∧
      (∀ q, folded.2 = .error q →
        ran.1 = .error q.anchorFault ∧ ran.2.work.files = s.work.files) ∧
      ∀ b', folded.2 = .ok b' →
        Patch.Spliced Bytes.ofString patches b b' ∧
          (Writable record s.work.files → ran.1 = .ok (b' != b) ∧
            ran.2.work.files.content record.source = .ok b' ∧
            ∃ singly, (patchSingly p patches).runOn s = (.ok (), singly) ∧
              singly.work.files.content record.source = .ok b') ∧
          (¬ Writable record s.work.files → (b' = b → ran.1 = .ok false) ∧
            (b' ≠ b → ∃ f, ran.1 = .error f) ∧ ran.2.work.files = s.work.files ∧
            ((patchSingly p patches).runOn s).2.work.files = s.work.files) := by
  intro folded ran
  have hrun := runOn_patchFile patches henter hcontent
  rw [Patch.fold_ofBytes hpatches] at hrun
  refine ⟨hrun.ledger, fun q hq => hrun.missing q ?_, fun b' hb' => ?_⟩
  · change (Patch.fold Bytes.ofString patches b).2.map ofBytes = _
    rw [hq]
    rfl
  · obtain ⟨-, hgood, hbad⟩ := runOn_patchFile_bytes hpatches henter hcontent hb'
    obtain ⟨hsingly, hsingly'⟩ :=
      runOn_patchSingly patches s record ledger b hpatches henter hcontent hb'
    refine ⟨Patch.spliced_of_fold hb', fun hw => ?_, fun hw => ?_⟩
    · obtain ⟨hresult, hmid, -⟩ := hgood hw
      exact ⟨hresult, hmid, hsingly hw⟩
    · obtain ⟨hfiles, hsame, hnew⟩ := hbad hw
      exact ⟨hsame, hnew, hfiles, hsingly' hw⟩

/-- A file with stray bytes around a letter. -/
def strayFile : FileSystem where
  nodes := [(["a.c"], .file [0xe2, 0x41, 0x82] false)]
  workingDirectory := []

theorem patchFile_bytewise_strayFile :
    let patches : List Patch :=
      [{ marker := "é", insertion := "é", anchor := some "A", position := .before },
      { marker := "A", insertion := "B", position := .front }]
    let s : PatchState := ⟨.ofFiles strayFile, []⟩
    ∃ singly, ((patchFile ⟨.root, ["a.c"]⟩ patches).runOn s).1 = .ok true ∧
      ((patchFile ⟨.root, ["a.c"]⟩ patches).runOn s).2.work.files.content ⟨.root, ["a.c"]⟩ =
        .ok [0xe2, 0xc3, 0xa9, 0x41, 0x82] ∧
      (patchSingly ⟨.root, ["a.c"]⟩ patches).runOn s = (.ok (), singly) ∧
      singly.work.files.content ⟨.root, ["a.c"]⟩ = .ok [0xe2, 0xc3, 0xa9, 0x41, 0x82] := by
  intro patches s
  have hpatches : ∀ patch ∈ patches, patch.insertion ≠ "" := by decide
  have henter : enter s.ledger ⟨.root, ["a.c"]⟩ = .ok (⟨⟨.root, ["a.c"]⟩, ⟨.root, ["a.c.bak"]⟩, []⟩,
      [(⟨.root, ["a.c"]⟩, ⟨⟨.root, ["a.c"]⟩, ⟨.root, ["a.c.bak"]⟩, []⟩)]) := by rfl
  have hcontent : s.work.files.content ⟨.root, ["a.c"]⟩ = .ok [0xe2, 0x41, 0x82] := by rfl
  have hfold : (Patch.fold Bytes.ofString patches [0xe2, 0x41, 0x82]).2 =
      .ok [0xe2, 0xc3, 0xa9, 0x41, 0x82] := by rfl
  obtain ⟨-, -, hdone⟩ := patchFile_bytewise hpatches henter hcontent
  obtain ⟨-, hwritable, -⟩ := hdone _ hfold
  obtain ⟨hresult, hnew, singly, hsingly, hsame⟩ :=
    hwritable (.of_ok [] hcontent (by rfl))
  exact ⟨singly, hresult, hnew, hsingly, hsame⟩

end Ledger

end CrossBuild
