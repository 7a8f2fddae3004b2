import CrossBuild.Proofs.Manifest
import CrossBuild.Proofs.ScriptName
import CrossBuild.Proofs.Toolchain

/-!
# The name of an application

The file of an application is called by the name in the manifest, of which a scope is dropped: it is what
follows the last slash. A manifest without a name, or with a void one, has the default instead. That is seen
to before the scope is dropped, so a name that ends in a slash leaves nothing at all
(`Names.eq_empty_iff`, `scope_without_name`).
-/

namespace CrossBuild

namespace Text

variable {sep : Char} {s : List Char}

/-- A text with a separator is split at its last one. -/
theorem exists_last_of_mem (h : sep ∈ s) : ∃ front last, s = front ++ sep :: last ∧ sep ∉ last := by
  obtain ⟨last, front, hs, hlast⟩ := List.eq_append_cons_of_mem (List.mem_reverse.2 h)
  refine ⟨front.reverse, last.reverse, ?_, mt List.mem_reverse.1 hlast⟩
  rw [← List.reverse_reverse s, hs]
  simp

end Text

namespace Manifest

variable {fs : FileSystem} {root : Path} {m : Manifest} {name : String} {j : Json} {key : Option Json}

/-! ## Names by the manifest's member -/

/-- The name of an application, by the name that its manifest has. -/
inductive Names : Option Json → String → Prop
  | missing : Names none defaultName
  | void {j : Json} (h : isVoid j = true) : Names (some j) defaultName
  | plain {name : String} (hne : name ≠ "") (h : '/' ∉ name.toList) : Names (some (.str name)) name
  | inScope {scope name : String} (h : '/' ∉ name.toList) : Names (some (.str (scope ++ "/" ++ name))) name

theorem unscoped_plain (h : '/' ∉ name.toList) : unscoped (.str name) = .str name := by
  rw [unscoped, Text.splitString, Text.splitAt_eq_singleton '/' h]
  simp

theorem unscoped_scoped (scope : String) (h : '/' ∉ name.toList) :
    unscoped (.str (scope ++ "/" ++ name)) = .str name := by
  have hlist : (scope ++ "/" ++ name).toList = scope.toList ++ '/' :: name.toList := by simp
  rw [unscoped, Text.splitString, hlist, Text.splitAt_append_sep, Text.splitAt_eq_singleton '/' h]
  simp

/-- What is left of a value that is not void. -/
theorem names_of_unscoped (hj : isVoid j = false) (h : unscoped j = .str name) : Names (some j) name := by
  cases j with
  | str text =>
    by_cases hslash : '/' ∈ text.toList
    · obtain ⟨scope, last, htext, hlast⟩ := Text.exists_last_of_mem hslash
      obtain rfl : text = String.ofList scope ++ "/" ++ String.ofList last :=
        String.toList_inj.1 (by simp [htext])
      have hlast : '/' ∉ (String.ofList last).toList := by rwa [String.toList_ofList]
      rw [unscoped_scoped _ hlast] at h
      cases h
      exact .inScope hlast
    · rw [unscoped_plain hslash] at h
      cases h
      refine .plain ?_ hslash
      rintro rfl
      cases hj
  | _ => cases h

theorem names_of_ofMembers {members : List (String × Json)} (h : ofMembers members = .ok m) :
    Names (valueOf? "name" members) m.name := by
  obtain ⟨name, engine, hname, -, rfl⟩ := Validated.of_toExcept_eq_ok h
  show Names (valueOf? "name" members) name
  have hdefault : unscoped (.str defaultName) = .str defaultName := unscoped_plain (by decide)
  have hread := Reader.eq_str_of_valid hname
  unfold memberOr at hread
  rcases hmember : valueOf? "name" members with _ | j <;> rw [hmember] at hread
  · cases hdefault.symm.trans hread
    exact .missing
  · dsimp only at hread
    split at hread
    · next hj =>
      cases hdefault.symm.trans hread
      exact .void hj
    · next hj => exact names_of_unscoped (Bool.eq_false_iff.2 hj) hread

theorem Names.not_mem (h : Names key name) : '/' ∉ name.toList := by
  cases h with
  | missing | void => decide
  | plain _ h | inScope h => exact h

/-- A name that ends in a slash, and no other one, leaves nothing. -/
theorem Names.eq_empty_iff (h : Names key name) :
    name = "" ↔ ∃ scope, key = some (.str (scope ++ "/")) := by
  constructor
  · rintro rfl
    generalize hname : "" = name at h
    cases h with
    | missing | void => exact absurd hname (by decide)
    | plain hne _ => exact absurd hname.symm hne
    | @inScope scope name _ => exact ⟨scope, by rw [← hname, String.append_empty]⟩
  · rintro ⟨scope, hkey⟩
    have hleft : unscoped (.str (scope ++ "/")) = .str "" := by
      simpa using unscoped_scoped scope (show '/' ∉ "".toList by decide)
    cases h with
    | missing => cases hkey
    | void hj =>
      cases hkey
      simp [isVoid] at hj
    | plain _ hslash =>
      cases hkey
      simp at hslash
    | @inScope scope' name hslash =>
      have hname := unscoped_scoped scope' hslash
      rw [Option.some.inj hkey, hleft] at hname
      exact (Json.str.inj hname).symm

end Manifest

/-! ## Applications -/

/-- A project whose manifest has a name alone. -/
def namedFiles (name : String) : FileSystem :=
  manifestFiles (.ofString ("\x7b\"name\": \"" ++ name ++ "\"\x7d"))

theorem load_namedFiles : ∀ p ∈ [("@acme/tool", "tool"), ("@acme/", "")],
    Manifest.load (namedFiles p.1) (.ofString "/p") = .ok ⟨p.2, Manifest.defaultInput, false, []⟩ := by
  have hreads : ∀ p ∈ [("@acme/tool", "tool"), ("@acme/", "")],
      (namedFiles p.1).isFile (Path.ofString "/p" / Manifest.fileName) = .ok true ∧
        (Manifest.readJson (namedFiles p.1) (Path.ofString "/p" / Manifest.fileName)).map
          (fun j => j.members?.map Manifest.ofMembers) =
            .ok (some (.ok ⟨p.2, Manifest.defaultInput, false, []⟩)) := by
    decide +kernel
  intro p hp
  obtain ⟨hfile, hmembers⟩ := hreads p hp
  exact Manifest.load_of_members hfile hmembers rfl

/-- **The name of an application** is what its manifest names it by, without the scope, or the default; it is
empty if that name ends in a slash, and never otherwise. It has no slash, so that in any directory the file
that is built for a target lies in that directory itself, and its name begins with that of the application. -/
theorem application_name {fs : FileSystem} {root : Path} {m : Manifest} (h : Manifest.load fs root = .ok m) :
    (∃ members, Manifest.readJson fs (root / Manifest.fileName) = .ok (.obj members) ∧
      Manifest.Names (valueOf? "name" members) m.name ∧
        (m.name = "" ↔ ∃ scope, valueOf? "name" members = some (.str (scope ++ "/")))) ∧
    '/' ∉ m.name.toList ∧
    ∀ t ∈ Target.all, ∀ directory : Path, directory / t.applicationName m.name =
      ⟨directory.anchor, directory.parts ++ [m.name ++ t.suffix]⟩ := by
  obtain ⟨-, ⟨members, hjson, hmembers⟩, -⟩ := Manifest.load_eq_ok_iff.1 h
  have hnames := Manifest.names_of_ofMembers hmembers
  refine ⟨⟨members, hjson, hnames, hnames.eq_empty_iff⟩, hnames.not_mem, fun t ht directory => ?_⟩
  exact directory.div_part (Target.isPart_applicationName ht hnames.not_mem).1

/-- The scope of a name is dropped. -/
theorem application_name_scoped :
    let m : Manifest := ⟨"tool", Manifest.defaultInput, false, []⟩
    Manifest.load (namedFiles "@acme/tool") (.ofString "/p") = .ok m ∧ m.name ≠ "" ∧
      Path.ofString "/p/dist" / Target.linux64.applicationName m.name =
        ⟨.root, ["p", "dist", "tool_linux64"]⟩ := by
  have hload := load_namedFiles ("@acme/tool", "tool") (by simp)
  obtain ⟨-, -, hfile⟩ := application_name hload
  refine ⟨hload, by decide, ?_⟩
  rw [hfile Target.linux64 (by decide)]
  decide

/-- A scope without a name leaves the application without one. -/
theorem scope_without_name :
    Manifest.load (namedFiles "@acme/") (.ofString "/p") = .ok ⟨"", Manifest.defaultInput, false, []⟩ :=
  load_namedFiles ("@acme/", "") (by simp)

end CrossBuild
