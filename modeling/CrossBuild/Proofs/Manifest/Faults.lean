import CrossBuild.Proofs.FileSystem.Faults
import CrossBuild.Proofs.Json.Parser
import CrossBuild.Proofs.Manifest

/-!
# What a manifest is refused with

A manifest that is missing, that is no text in JSON, or that says something else than a manifest does is
refused with a fault of manifests. But not all that can be wrong with one is taken for such a fault: a path
that is too long, bytes that are no text, an integer with too many digits, and a path of a module that
cannot be resolved end the reading with the failure that they cause (`Escapes`).
-/

namespace CrossBuild

open FileSystem

theorem FileSystem.resolve_error {fs : FileSystem} {p : Path} {f : Failure} (h : fs.resolve p = .error f) :
    (hasNul p = true ∧ f = .nulInPath) ∨ ∃ path, f = .linkLoop path := by
  unfold resolve at h
  split at h
  · next hnul => exact .inl ⟨hnul, (Except.error.inj h).symm⟩
  · dsimp only at h
    split at h
    · exact .inr ⟨_, (Except.error.inj h).symm⟩
    · cases h

/-- A file that is there can be read. -/
theorem FileSystem.exists_content_of_isFile {fs : FileSystem} {p : Path} (h : fs.isFile p = .ok true) :
    ∃ bytes, fs.content p = .ok bytes := by
  obtain ⟨l, node, hplace, hnode, hfile⟩ := (test_cases h).resolve_right (by simp)
  cases node with
  | file bytes x => exact ⟨bytes, content_eq_ok_iff.2 ⟨l, x, hplace, hnode⟩⟩
  | directory => cases hfile
  | link _ => cases hfile

namespace Manifest

variable {fs : FileSystem} {root : Path} {m : Manifest} {f : Failure} {entry : String × String}

/-! ## Registering modules -/

/-- A module is registered. -/
def Registers (fs : FileSystem) (root : Path) (entry : String × String) : Prop :=
  Module.Admitted entry.1.toList ∧ ∃ p, fs.resolve (root / entry.2) = .ok p

/-- Registering a module. -/
def register (fs : FileSystem) (root : Path) (entry : String × String) : Except Failure Module := do
  let source ← fs.resolve (root / entry.2)
  match Module.ofName entry.1 source with
  | .ok registration => return registration
  | .error report => throw (.invalid report)

theorem registrations_eq (m : Manifest) (fs : FileSystem) (root : Path) :
    m.registrations fs root = m.modules.mapM (register fs root) := rfl

theorem register_eq {p : Path} (h : fs.resolve (root / entry.2) = .ok p) : register fs root entry =
    match Module.ofName entry.1 p with
    | .ok registration => .ok registration
    | .error report => .error (.invalid report) := by
  unfold register
  rw [h]
  rfl

theorem register_of_registers (h : Registers fs root entry) :
    ∃ registration, register fs root entry = .ok registration := by
  obtain ⟨hname, p, hp⟩ := h
  rw [register_eq hp, Module.ofName, Module.readName_of_admitted hname]
  exact ⟨_, rfl⟩

theorem register_of_unresolved (h : fs.resolve (root / entry.2) = .error f) :
    register fs root entry = .error f := by
  unfold register
  rw [h]
  rfl

/-- A module is registered, or it has a name that is not admitted, or a path that is not resolved. -/
theorem register_cases (fs : FileSystem) (root : Path) (entry : String × String) :
    Registers fs root entry ∨ (∃ report, register fs root entry = .error (.invalid report)) ∨
      ∃ f, fs.resolve (root / entry.2) = .error f := by
  rcases hsource : fs.resolve (root / entry.2) with f | p
  · exact .inr (.inr ⟨f, rfl⟩)
  by_cases hname : Module.Admitted entry.1.toList
  · exact .inl ⟨hname, p, hsource⟩
  · refine .inr (.inl ?_)
    rw [register_eq hsource, Module.ofName, Module.readName_of_not_admitted hname]
    exact ⟨_, rfl⟩

/-- What comes of registering modules: they all are, or the first one that is not has a name that is not
admitted, or a path that is not resolved. -/
theorem registrations_cases (m : Manifest) (fs : FileSystem) (root : Path) :
    (∃ registered, m.registrations fs root = .ok registered) ∨
      (∃ report, m.registrations fs root = .error (.invalid report)) ∨
      ∃ (before after : List (String × String)) (entry : String × String) (f : Failure),
        m.modules = before ++ entry :: after ∧
        (∀ earlier ∈ before, Registers fs root earlier) ∧ fs.resolve (root / entry.2) = .error f := by
  rw [registrations_eq]
  generalize m.modules = entries
  induction entries with
  | nil => exact .inl ⟨[], rfl⟩
  | cons entry entries ih =>
    rw [List.mapM_cons]
    rcases register_cases fs root entry with hentry | ⟨report, hentry⟩ | ⟨f, hentry⟩
    · obtain ⟨registration, hregister⟩ := register_of_registers hentry
      rw [hregister]
      rcases ih with ⟨registered, h⟩ | ⟨report, h⟩ | ⟨before, after, entry', f, rfl, hbefore, h⟩
      · rw [h]
        exact .inl ⟨registration :: registered, rfl⟩
      · rw [h]
        exact .inr (.inl ⟨report, rfl⟩)
      · have hbefore' := List.forall_mem_cons.2 ⟨hentry, hbefore⟩
        exact .inr (.inr ⟨entry :: before, after, entry', f, rfl, hbefore', h⟩)
    · rw [hentry]
      exact .inr (.inl ⟨report, rfl⟩)
    · exact .inr (.inr ⟨[], entries, entry, f, rfl, by simp, hentry⟩)

/-- A path that is not resolved ends the registering. -/
theorem registrations_of_unresolved {before after : List (String × String)}
    (hmodules : m.modules = before ++ entry :: after)
    (hbefore : ∀ earlier ∈ before, Registers fs root earlier)
    (h : fs.resolve (root / entry.2) = .error f) : m.registrations fs root = .error f := by
  rw [registrations_eq, hmodules]
  clear hmodules
  induction before with
  | nil =>
    rw [List.nil_append, List.mapM_cons, register_of_unresolved h]
    rfl
  | cons earlier before ih =>
    obtain ⟨hearlier, hbefore⟩ := List.forall_mem_cons.1 hbefore
    obtain ⟨registration, hregister⟩ := register_of_registers hearlier
    rw [List.cons_append, List.mapM_cons, ih hbefore, hregister]
    rfl

/-! ## Reading manifests -/

/-- The failures that are not taken for faults of the manifest. -/
inductive Escapes (fs : FileSystem) (root : Path) : Failure → Prop
  | unseen {f : Failure} (h : fs.isFile (root / fileName) = .error f) : Escapes fs root f
  | undecodable {bytes : Bytes} {u : Utf8.Undecodable} (hfile : fs.isFile (root / fileName) = .ok true)
      (hcontent : fs.content (root / fileName) = .ok bytes) (h : Utf8.decode bytes = .error u) :
      Escapes fs root (.undecodable u)
  | longInteger {text : String} {n : Nat} (hfile : fs.isFile (root / fileName) = .ok true)
      (htext : fs.text (root / fileName) = .ok text) (h : Json.parse text.toList = .error (.longInteger n)) :
      Escapes fs root (.longInteger ((Json.ReadError.longInteger n).message text.toList))
  /-- The modules before this one are registered. -/
  | unresolved {members : List (String × Json)} {m : Manifest} {before after : List (String × String)}
      {entry : String × String} {f : Failure} (hfile : fs.isFile (root / fileName) = .ok true)
      (hjson : readJson fs (root / fileName) = .ok (.obj members)) (hmembers : ofMembers members = .ok m)
      (hmodules : m.modules = before ++ entry :: after)
      (hbefore : ∀ earlier ∈ before, Registers fs root earlier)
      (h : fs.resolve (root / entry.2) = .error f) : Escapes fs root f

/-- What is behind such a failure: a path that is too long, bytes that are not the form of any text, an integer
of too many digits, or a module's path with a null character or in a circle of links. -/
inductive Cause (fs : FileSystem) (root : Path) : Failure → Prop
  | tooLong (h : fs.isFile (root / fileName) = .error (faultAt .nameTooLong (root / fileName))) :
      Cause fs root (faultAt .nameTooLong (root / fileName))
  | noText {bytes : Bytes} {u : Utf8.Undecodable} (hcontent : fs.content (root / fileName) = .ok bytes)
      (h : ∀ cs, Utf8.encode cs ≠ bytes) : Cause fs root (.undecodable u)
  | digits {text message : String} (htext : fs.text (root / fileName) = .ok text)
      (h : Json.HasLongDigits text.toList) : Cause fs root (.longInteger message)
  | nul {members : List (String × Json)} {m : Manifest} {entry : String × String}
      (hjson : readJson fs (root / fileName) = .ok (.obj members)) (hmembers : ofMembers members = .ok m)
      (hentry : entry ∈ m.modules) (h : hasNul (root / entry.2) = true) : Cause fs root .nulInPath
  | circle {members : List (String × Json)} {m : Manifest} {entry : String × String} {path : String}
      (hjson : readJson fs (root / fileName) = .ok (.obj members)) (hmembers : ofMembers members = .ok m)
      (hentry : entry ∈ m.modules) (h : fs.resolve (root / entry.2) = .error (.linkLoop path)) :
      Cause fs root (.linkLoop path)

theorem load_of_file (hfile : fs.isFile (root / fileName) = .ok true) : load fs root =
    match readJson fs (root / fileName) with
    | .error f => .error f
    | .ok (.obj members) =>
      match ofMembers members with
      | .error report => .error (.manifest (.invalid (root / fileName) report))
      | .ok m => (blame (root / fileName) (m.registrations fs root)).map fun _ => m
    | .ok _ => .error (.manifest (.notAnObject (root / fileName))) := by
  unfold load
  dsimp only
  rw [hfile]
  rcases readJson fs (root / fileName) with f | j
  · rfl
  cases j with
  | obj members =>
    show (match ofMembers members with | .error _ => _ | .ok _ => _) = _
    dsimp only
    cases ofMembers members with
    | error report => rfl
    | ok m =>
      dsimp only
      rcases blame (root / fileName) (m.registrations fs root) with f | registered <;> rfl
  | _ => rfl

theorem readJson_of_undecodable {path : Path} {bytes : Bytes} {u : Utf8.Undecodable}
    (hcontent : fs.content path = .ok bytes) (h : Utf8.decode bytes = .error u) :
    readJson fs path = .error (.undecodable u) := by
  unfold readJson text
  rw [hcontent]
  dsimp only
  rw [h]

theorem readJson_of_longInteger {path : Path} {text : String} {n : Nat} (htext : fs.text path = .ok text)
    (h : Json.parse text.toList = .error (.longInteger n)) :
    readJson fs path = .error (.longInteger ((Json.ReadError.longInteger n).message text.toList)) := by
  unfold readJson
  rw [htext]
  dsimp only
  rw [h]

/-- What comes of the manifest's text. -/
theorem readJson_cases (hfile : fs.isFile (root / fileName) = .ok true) :
    (∃ j, readJson fs (root / fileName) = .ok j) ∨
      (∃ reason, readJson fs (root / fileName) = .error (.manifest (.unreadable (root / fileName) reason))) ∨
      ∃ f, readJson fs (root / fileName) = .error f ∧ Escapes fs root f := by
  obtain ⟨bytes, hcontent⟩ := exists_content_of_isFile hfile
  rcases hdecode : Utf8.decode bytes with u | cs
  · exact .inr (.inr ⟨_, readJson_of_undecodable hcontent hdecode, .undecodable hfile hcontent hdecode⟩)
  have htext : fs.text (root / fileName) = .ok (String.ofList (Text.unifyNewlines cs)) := by
    rw [text, hcontent]
    dsimp only
    rw [hdecode]
  rcases hparse : Json.parse (String.ofList (Text.unifyNewlines cs)).toList with (⟨problem, rest⟩ | n) | j
  · refine .inr (.inl ⟨(Json.ReadError.malformed problem rest).message
      (String.ofList (Text.unifyNewlines cs)).toList, ?_⟩)
    unfold readJson
    rw [htext]
    dsimp only
    rw [hparse]
  · exact .inr (.inr ⟨_, readJson_of_longInteger htext hparse, .longInteger hfile htext hparse⟩)
  · refine .inl ⟨j, ?_⟩
    unfold readJson
    rw [htext]
    dsimp only
    rw [hparse]

/-- What comes of a manifest. -/
theorem load_cases (fs : FileSystem) (root : Path) : (∃ m, load fs root = .ok m) ∨
    (∃ fault, load fs root = .error (.manifest fault)) ∨ ∃ f, Escapes fs root f := by
  rcases hfile : fs.isFile (root / fileName) with f | (_ | _)
  · exact .inr (.inr ⟨f, .unseen hfile⟩)
  · refine .inr (.inl ⟨.missing root, ?_⟩)
    unfold load
    dsimp only
    rw [hfile]
    rfl
  rcases readJson_cases hfile with ⟨j, hjson⟩ | ⟨reason, hjson⟩ | ⟨f, -, hescapes⟩
  · rw [load_of_file hfile, hjson]
    cases j with
    | obj members =>
      dsimp only
      rcases hmembers : ofMembers members with report | m
      · exact .inr (.inl ⟨_, rfl⟩)
      dsimp only
      rcases registrations_cases m fs root with ⟨registered, h⟩ | ⟨report, h⟩ |
          ⟨before, after, entry, f, hmodules, hbefore, h⟩
      · rw [h]
        exact .inl ⟨m, rfl⟩
      · rw [h]
        exact .inr (.inl ⟨_, rfl⟩)
      · exact .inr (.inr ⟨f, .unresolved hfile hjson hmembers hmodules hbefore h⟩)
    | _ => exact .inr (.inl ⟨_, rfl⟩)
  · rw [load_of_file hfile, hjson]
    exact .inr (.inl ⟨_, rfl⟩)
  · exact .inr (.inr ⟨f, hescapes⟩)

theorem Escapes.cause (h : Escapes fs root f) : Cause fs root f := by
  cases h with
  | unseen h =>
    obtain rfl := test_error h
    exact .tooLong h
  | undecodable hfile hcontent h => exact .noText hcontent (Utf8.encode_ne_of_decode h)
  | longInteger hfile htext h => exact .digits htext (Json.hasLongDigits_of_parse h)
  | unresolved hfile hjson hmembers hmodules hbefore h =>
    rcases resolve_error h with ⟨hnul, rfl⟩ | ⟨path, rfl⟩
    · exact .nul hjson hmembers (by simp [hmodules]) hnul
    · exact .circle hjson hmembers (by simp [hmodules]) h

theorem Escapes.load (h : Escapes fs root f) : load fs root = .error f := by
  cases h with
  | unseen h =>
    unfold Manifest.load
    dsimp only
    rw [h]
    rfl
  | undecodable hfile hcontent h => rw [load_of_file hfile, readJson_of_undecodable hcontent h]
  | longInteger hfile htext h => rw [load_of_file hfile, readJson_of_longInteger htext h]
  | unresolved hfile hjson hmembers hmodules hbefore h =>
    rw [load_of_file hfile, hjson]
    dsimp only
    rw [hmembers]
    dsimp only
    rw [registrations_of_unresolved hmodules hbefore h]
    -- it is no report, so it is not turned into a fault
    rcases resolve_error h with ⟨-, rfl⟩ | ⟨path, rfl⟩ <;> rfl

theorem Escapes.ne_manifest (h : Escapes fs root f) (fault : ManifestFault) : f ≠ .manifest fault := by
  rintro rfl
  cases h.cause

end Manifest

end CrossBuild
