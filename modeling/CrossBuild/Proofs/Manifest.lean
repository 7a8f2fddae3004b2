import CrossBuild.Proofs.Run.Project

/-!
# The names of modules

The names of native modules are pasted into the engine's files, so a manifest is refused unless they are C
identifiers. One line feed is let through behind an identifier (`module_names`, `admitted_line_feed`): the
check looks for the end of a line, which comes before a last line feed too.
-/

namespace CrossBuild

theorem Validated.eq_valid_of_under {α : Type} {x : Validated α} {key : Key} {a : α}
    (h : x.under key = .valid a) : x = .valid a := by
  cases x with
  | valid b => exact h
  | invalid issues => cases h

namespace Module

variable {s : List Char} {c : Char} {name : String} {source : Path}

/-! ## Identifiers -/

/-- The letters of C identifiers, with the underscore. -/
def letters : List Char := "_ABCDEFGHIJKLMNOPQRSTUVWXYZabcdefghijklmnopqrstuvwxyz".toList

/-- The digits of C identifiers. -/
def digits : List Char := "0123456789".toList

/-- A C identifier: a letter, and letters and digits behind it. -/
def IsIdentifier (s : List Char) : Prop :=
  ∃ first rest, s = first :: rest ∧ first ∈ letters ∧ ∀ c ∈ rest, c ∈ letters ∨ c ∈ digits

/-- What is let through as a name: a C identifier, or one with a line feed behind it. -/
def Admitted (s : List Char) : Prop :=
  IsIdentifier s ∨ ∃ identifier, IsIdentifier identifier ∧ s = identifier ++ ['\n']

/-- A test that no character above ASCII passes is known from the characters that pass. -/
theorem iff_mem_of_ascii {p : Char → Bool} {l : List Char} (hp : ∀ c, p c = true → c.toNat < 128)
    (hl : l.all (·.toNat < 128) = true) (h : ∀ n < 128, p (Char.ofNat n) = true ↔ Char.ofNat n ∈ l)
    (c : Char) : p c = true ↔ c ∈ l := by
  by_cases hc : c.toNat < 128
  · have := h c.toNat hc
    rwa [Char.ofNat_toNat] at this
  · exact iff_of_false (fun h => hc (hp c h)) fun h => hc (of_decide_eq_true (List.all_eq_true.1 hl c h))

theorem isIdentifierStart_iff : isIdentifierStart c = true ↔ c ∈ letters := by
  refine iff_mem_of_ascii (fun c h => ?_) (by decide) (by decide) c
  simp only [isIdentifierStart, Bool.or_eq_true, Bool.and_eq_true, decide_eq_true_eq, beq_iff_eq] at h
  rcases h with (h | h) | rfl
  · exact Nat.lt_of_le_of_lt h.2 (by decide)
  · exact Nat.lt_of_le_of_lt h.2 (by decide)
  · decide

theorem isIdentifierChar_iff : isIdentifierChar c = true ↔ c ∈ letters ∨ c ∈ digits := by
  have hdigit : ∀ c : Char, (decide ('0' ≤ c) && decide (c ≤ '9')) = true ↔ c ∈ digits := by
    refine iff_mem_of_ascii (fun c h => ?_) (by decide) (by decide)
    simp only [Bool.and_eq_true, decide_eq_true_eq] at h
    exact Nat.lt_of_le_of_lt h.2 (by decide)
  rw [isIdentifierChar, Bool.or_eq_true, isIdentifierStart_iff, hdigit]

theorem isIdentifier_iff : isIdentifier s = true ↔ IsIdentifier s := by
  cases s with
  | nil => simp [isIdentifier, IsIdentifier]
  | cons first rest =>
    simp [isIdentifier, IsIdentifier, isIdentifierStart_iff, isIdentifierChar_iff]

/-- **The check of names** lets through what is admitted. -/
theorem isName_iff : isName s = true ↔ Admitted s := by
  unfold isName Admitted
  rw [Bool.or_eq_true, isIdentifier_iff, Bool.and_eq_true, beq_iff_eq, isIdentifier_iff]
  refine or_congr_right ⟨fun ⟨hlast, hfront⟩ => ⟨_, hfront, ?_⟩, ?_⟩
  · exact (List.dropLast_append_getLast? _ hlast).symm
  · rintro ⟨identifier, hidentifier, rfl⟩
    rw [List.getLast?_concat, List.dropLast_concat]
    exact ⟨rfl, hidentifier⟩

/-! ## Modules and manifests -/

theorem readName_of_admitted (h : Admitted name.toList) : readName name = .valid name :=
  if_pos (isName_iff.2 h)

theorem readName_of_not_admitted (h : ¬ Admitted name.toList) : readName name =
    .reject (.rule ("Value error, module name must be a C identifier: " ++ Text.quoted name)) :=
  if_neg (mt isName_iff.1 h)

theorem admitted_of_readName {read : String} (h : readName name = .valid read) :
    read = name ∧ Admitted name.toList := by
  by_cases hname : Admitted name.toList
  · rw [readName_of_admitted hname] at h
    cases h
    exact ⟨rfl, hname⟩
  · rw [readName_of_not_admitted hname] at h
    cases h

theorem admitted_of_ofName {m : Module} (h : ofName name source = .ok m) : Admitted name.toList := by
  by_cases hname : Admitted name.toList
  · exact hname
  · rw [ofName, readName_of_not_admitted hname] at h
    cases h

/-- A name that is read from a member of an object is checked too. -/
theorem admitted_of_ofMembers {members : List (String × Json)} {m : Module} (h : ofMembers members = .ok m) :
    Admitted m.name.toList := by
  obtain ⟨name, -, hname, -, rfl⟩ := Validated.of_toExcept_eq_ok h
  unfold Reader.required at hname
  split at hname
  swap
  · cases hname
  next j _ =>
  have hread := Validated.eq_valid_of_under hname
  cases j with
  | str text =>
    obtain ⟨rfl, htext⟩ := admitted_of_readName hread
    exact htext
  | _ => cases hread

end Module

namespace Manifest

variable {fs : FileSystem} {root : Path} {m : Manifest}

theorem admitted_of_registrations {registered : List Module} (h : m.registrations fs root = .ok registered) :
    ∀ entry ∈ m.modules, Module.Admitted entry.1.toList := by
  unfold registrations at h
  generalize m.modules = entries at h
  induction entries generalizing registered with
  | nil => exact fun entry hentry => by cases hentry
  | cons first entries ih =>
    rw [List.mapM_cons] at h
    obtain ⟨registration, hfirst, h⟩ := of_bind_eq_ok h
    obtain ⟨others, hothers, -⟩ := of_bind_eq_ok h
    refine List.forall_mem_cons.2 ⟨?_, ih hothers⟩
    obtain ⟨source, -, hfirst⟩ := of_bind_eq_ok hfirst
    split at hfirst
    · next hname => exact Module.admitted_of_ofName hname
    · cases hfirst

end Manifest

/-! ## Projects in one directory -/

/-- The files of a project that has nothing but a manifest. -/
def manifestFiles (content : Bytes) : FileSystem where
  nodes := [(["p"], .directory), (["p", Manifest.fileName], .file content false)]
  workingDirectory := []

/-- The files of a project with one native module, whose name is written in the manifest as `written`. -/
def moduleFiles (written : String) : FileSystem where
  nodes := [(["p"], .directory), (["p", "m.c"], .file [] false),
    (["p", Manifest.fileName], .file (.ofString
      ("\x7b\"quickJs\": \x7b\"modules\": \x7b\"" ++ written ++ "\": \"m.c\"\x7d\x7d\x7d")) false)]
  workingDirectory := []

/-- The members of an object; nothing for another value. -/
def Json.members? : Json → Option (List (String × Json))
  | .obj members => some members
  | _ => none

/-- A manifest is read if that is what the members in its file make. -/
theorem Manifest.load_of_members {fs : FileSystem} {root : Path} {m : Manifest} {registered : List Module}
    (hfile : fs.isFile (root / fileName) = .ok true)
    (hmembers : (readJson fs (root / fileName)).map (fun j => j.members?.map ofMembers) = .ok (some (.ok m)))
    (hregistered : m.registrations fs root = .ok registered) : load fs root = .ok m := by
  refine load_eq_ok_iff.2 ⟨hfile, ?_, _, hregistered⟩
  rcases hjson : readJson fs (root / fileName) with f | j <;> rw [hjson] at hmembers
  · cases hmembers
  have hread := Except.ok.inj hmembers
  cases j with
  | obj members => exact ⟨members, rfl, Option.some.inj hread⟩
  | _ => cases hread

/-- What that project says about itself. -/
def moduleManifest (name : String) : Manifest :=
  ⟨Manifest.defaultName, Manifest.defaultInput, false, [(name, "m.c")]⟩

theorem load_moduleFiles : ∀ p ∈ [("hello", "hello"), ("a\\n", "a\n")],
    Manifest.load (moduleFiles p.1) (.ofString "/p") = .ok (moduleManifest p.2) := by
  have hreads : ∀ p ∈ [("hello", "hello"), ("a\\n", "a\n")],
      (moduleFiles p.1).isFile (Path.ofString "/p" / Manifest.fileName) = .ok true ∧
        (Manifest.readJson (moduleFiles p.1) (Path.ofString "/p" / Manifest.fileName)).map
          (fun j => j.members?.map Manifest.ofMembers) = .ok (some (.ok (moduleManifest p.2))) ∧
        Module.ofName p.2 ⟨.root, ["p", "m.c"]⟩ = .ok ⟨p.2, ⟨.root, ["p", "m.c"]⟩⟩ := by
    decide +kernel
  intro p hp
  obtain ⟨hfile, hmembers, hname⟩ := hreads p hp
  have hunlinked : (moduleFiles p.1).Unlinked := FileSystem.unlinked_of_nodes (by simp [moduleFiles])
  have hresolve : (moduleFiles p.1).resolve (Path.ofString "/p" / "m.c") = .ok ⟨.root, ["p", "m.c"]⟩ :=
    hunlinked.resolve_self rfl (by decide)
  have hregistered : (moduleManifest p.2).registrations (moduleFiles p.1) (.ofString "/p") =
      .ok [⟨p.2, ⟨.root, ["p", "m.c"]⟩⟩] := by
    simp [Manifest.registrations, moduleManifest, hresolve, hname, bind, Except.bind, pure, Except.pure]
  exact Manifest.load_of_members hfile hmembers hregistered

/-! ## The names of modules -/

/-- **Names of modules are C identifiers**, but for a line feed that may stand behind one: a module is made
with such a name and with no other one, for which its name is reported; and so the modules of a manifest that
is read have such names. -/
theorem module_names (name : String) (source : Path) (members : List (String × Json)) (fs : FileSystem)
    (root : Path) :
    (Module.Admitted name.toList → Module.ofName name source = .ok ⟨name, source⟩) ∧
    (¬ Module.Admitted name.toList → Module.ofName name source = .error ⟨"ModuleRegistration",
      [⟨[.name "name"], .rule ("Value error, module name must be a C identifier: " ++ Text.quoted name)⟩]⟩) ∧
    (∀ m, Module.ofMembers members = .ok m → Module.Admitted m.name.toList) ∧
    ∀ m, Manifest.load fs root = .ok m → ∀ entry ∈ m.modules, Module.Admitted entry.1.toList := by
  refine ⟨fun hname => ?_, fun hname => ?_, fun _ => Module.admitted_of_ofMembers, fun m h => ?_⟩
  · rw [Module.ofName, Module.readName_of_admitted hname]
    rfl
  · rw [Module.ofName, Module.readName_of_not_admitted hname]
    rfl
  · obtain ⟨-, -, registered, hregistered⟩ := Manifest.load_eq_ok_iff.1 h
    exact Manifest.admitted_of_registrations hregistered

/-- A name is let through and another one is reported, and a manifest with a module is read. -/
theorem module_names_hello :
    let source : Path := ⟨.root, ["p", "m.c"]⟩
    Module.ofName "hello" source = .ok ⟨"hello", source⟩ ∧
      Module.ofName "a b" source = .error ⟨"ModuleRegistration",
        [⟨[.name "name"], .rule ("Value error, module name must be a C identifier: " ++ "'a b'")⟩]⟩ ∧
      Module.ofMembers [("name", .str "hello"), ("source_path", .str "m.c")] =
        .ok ⟨"hello", ⟨.relative, ["m.c"]⟩⟩ ∧
      Manifest.load (moduleFiles "hello") (.ofString "/p") = .ok (moduleManifest "hello") ∧
      Module.Admitted "hello".toList := by
  intro source
  have hread : Module.ofMembers [("name", .str "hello"), ("source_path", .str "m.c")] =
      .ok ⟨"hello", ⟨.relative, ["m.c"]⟩⟩ := by
    rfl
  have hloads := load_moduleFiles ("hello", "hello") (by simp)
  have hquoted : Text.quoted "a b" = "'a b'" := by decide
  obtain ⟨haccepts, -, hmembers, hmodules⟩ := module_names "hello" source
    [("name", .str "hello"), ("source_path", .str "m.c")] (moduleFiles "hello") (.ofString "/p")
  obtain ⟨-, hreports, -⟩ := module_names "a b" source [] (moduleFiles "hello") (.ofString "/p")
  refine ⟨haccepts (hmembers _ hread), ?_, hread, hloads,
    hmodules _ hloads ("hello", "m.c") List.mem_cons_self⟩
  rw [← hquoted]
  exact hreports (mt Module.isName_iff.2 (by decide))

/-- With a line feed behind it an identifier is none any more, and it is let through, in a manifest too. -/
theorem admitted_line_feed :
    ¬ Module.IsIdentifier "a\n".toList ∧
      Module.ofName "a\n" ⟨.root, ["p", "m.c"]⟩ = .ok ⟨"a\n", ⟨.root, ["p", "m.c"]⟩⟩ ∧
      Manifest.load (moduleFiles "a\\n") (.ofString "/p") = .ok (moduleManifest "a\n") := by
  refine ⟨mt Module.isIdentifier_iff.2 (by decide), by decide, ?_⟩
  exact load_moduleFiles ("a\\n", "a\n") (by simp)

end CrossBuild
