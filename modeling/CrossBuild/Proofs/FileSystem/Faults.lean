import CrossBuild.Proofs.FileSystem.Operations

/-!
# What file operations fail with

An operation on files fails with an error of the system, or it was given a path that cannot be
handed to the system. A question whether something is there is answered in all cases but one: a
name or path that is too long.
-/

namespace CrossBuild

open FileSystem CrossBuild.Task

/-- A failure of a file operation. -/
def Failure.IsSystem (f : Failure) : Prop :=
  (∃ e, f = .file e) ∨ f = .nulInPath

namespace FileSystem

variable {fs : FileSystem} {follow : Bool} {p : Path} {f : Failure}

theorem isSystem_file (e : FileError) : (Failure.file e).IsSystem := .inl ⟨e, rfl⟩

theorem isSystem_faultAt (e : Errno) (p : Path) : (faultAt e p).IsSystem := isSystem_file _

/-! ## Looking -/

theorem advance_fault (parts : List String) :
    ∀ here {e}, fs.advance follow here parts = .fault e →
      meansAbsent (faultAt e p) = true ∨ e = .nameTooLong := by
  induction parts with
  | nil => exact fun here e h => by cases h
  | cons part rest ih =>
    intro here e h
    rw [advance] at h
    split at h
    · cases h
      exact .inl rfl
    split at h
    · exact ih _ h
    split at h
    · exact ih _ h
    split at h
    · cases h
      exact .inr rfl
    split at h
    · split at h
      · cases h
      · cases h
        exact .inl rfl
    · split at h <;> cases h
    · exact ih _ h

theorem walk_error (links : Nat) :
    ∀ here parts {e}, fs.walk follow links here parts = .error e →
      meansAbsent (faultAt e p) = true ∨ e = .nameTooLong := by
  induction links with
  | zero =>
    intro here parts e h
    rw [walk] at h
    rcases hadvance : fs.advance follow here parts with l | ⟨here', target, rest⟩ | e' <;>
      simp only [hadvance] at h <;> cases h
    · exact .inl rfl
    · exact advance_fault parts here hadvance
  | succ links ih =>
    intro here parts e h
    rw [walk] at h
    rcases hadvance : fs.advance follow here parts with l | ⟨here', target, rest⟩ | e' <;>
      simp only [hadvance] at h
    · cases h
    · exact ih _ _ h
    · cases h
      exact advance_fault parts here hadvance

/-- A path leads nowhere because nothing is there, or because it is too long. -/
theorem place_error (h : fs.place follow p = .error f) :
    f.IsSystem ∧ (meansAbsent f = true ∨ f = faultAt .nameTooLong p) := by
  unfold place at h
  split at h
  · cases h
    exact ⟨.inr rfl, .inl rfl⟩
  rcases hlocate : fs.locate follow p with e | l <;> rw [hlocate] at h <;> cases h
  refine ⟨isSystem_faultAt _ _, ?_⟩
  unfold locate at hlocate
  split at hlocate
  · cases hlocate
    exact .inr rfl
  · rcases walk_error (p := p) _ _ _ hlocate with habsent | rfl
    · exact .inl habsent
    · exact .inr rfl

theorem lookup_error (h : fs.lookup follow p = .error f) :
    f.IsSystem ∧ (meansAbsent f = true ∨ f = faultAt .nameTooLong p) := by
  unfold lookup at h
  rcases hplace : fs.place follow p with e | l <;> rw [hplace] at h
  · cases h
    exact place_error hplace
  dsimp only at h
  split at h <;> cases h
  exact ⟨isSystem_faultAt _ _, .inl rfl⟩

/-- Whether something is there cannot be told of a name that is too long alone. -/
theorem test_error {property : Node → Bool} (h : fs.test follow property p = .error f) :
    f = faultAt .nameTooLong p := by
  unfold test at h
  rcases hlookup : fs.lookup follow p with e | ⟨l, node⟩ <;> rw [hlookup] at h
  · dsimp only at h
    split at h
    · cases h
    · next habsent =>
      cases h
      exact (lookup_error hlookup).2.resolve_left habsent
  · cases h

theorem content_error (h : fs.content p = .error f) : f.IsSystem := by
  unfold content at h
  split at h
  · cases h
  · cases h
    exact isSystem_faultAt _ _
  · next hlookup =>
    cases h
    exact (lookup_error hlookup).1

/-- A text cannot be read for want of a file, or because it cannot be decoded. -/
theorem text_error (h : fs.text p = .error f) : f.IsSystem ∨ ∃ u, f = .undecodable u := by
  unfold text at h
  split at h
  · next hcontent =>
    cases h
    exact .inl (content_error hcontent)
  · split at h
    · cases h
    · cases h
      exact .inr ⟨_, rfl⟩

theorem isSame_error {q : Path} (h : fs.isSame p q = .error f) : f.IsSystem := by
  unfold isSame at h
  split at h <;> cases h <;> exact .inr rfl

/-- A directory that was found can be listed. -/
theorem names_of_isDirectory (h : fs.isDirectory p = .ok true) : ∃ names, fs.names p = .ok names := by
  unfold isDirectory test at h
  rcases hlookup : fs.lookup true p with e | ⟨l, node⟩ <;> rw [hlookup] at h
  · dsimp only at h
    split at h <;> cases h
  · cases node <;> cases h
    exact ⟨fs.childNames l, by rw [names, hlookup]⟩

/-! ## Changing -/

theorem failsAs_change {K : Failure → Prop} {g : FileSystem → Except Failure FileSystem}
    (h : ∀ fs f, g fs = .error f → K f) : FailsAs K (change g) := by
  refine failsAs_of_error fun fs f hf => ?_
  rw [runOn_change] at hf
  rcases hg : g fs with f' | fs' <;> rw [hg] at hf <;> cases hf
  exact h fs f hg

theorem failsAs_write (p : Path) (b : Bytes) : FailsAs Failure.IsSystem (write p b) := by
  refine failsAs_change fun fs f h => ?_
  split at h
  · next hplace =>
    cases h
    exact (place_error hplace).1
  · split at h <;> cases h
    exact isSystem_faultAt _ _

theorem failsAs_makeDirectory (p : Path) : FailsAs Failure.IsSystem (makeDirectory p) := by
  refine failsAs_change fun fs f h => ?_
  split at h
  · next hplace =>
    cases h
    exact (place_error hplace).1
  · split at h <;> cases h
    exact isSystem_faultAt _ _

theorem failsAs_unlessDirectory (p : Path) (hf : f.IsSystem) :
    FailsAs Failure.IsSystem (unlessDirectory p f) := by
  unfold unlessDirectory
  refine FailsAs.bind (failsAs_ask fun fs f h => test_error h ▸ isSystem_faultAt _ _) fun b => ?_
  exact FailsAs.ite (failsAs_pure _) (failsAs_throw hf)

theorem failsAs_ensureDirectory (p : Path) : FailsAs Failure.IsSystem (ensureDirectory p) := by
  unfold ensureDirectory
  refine (failsAs_makeDirectory p).attempt_bind (fun _ => failsAs_pure _) fun f hf => ?_
  exact FailsAs.ite (failsAs_unlessDirectory p hf) (failsAs_throw hf)

theorem failsAs_makeDirectories (p : Path) : FailsAs Failure.IsSystem (makeDirectories p) := by
  induction hn : p.parts.length generalizing p with
  | zero =>
    rw [makeDirectories]
    refine (failsAs_makeDirectory p).attempt_bind (fun _ => failsAs_pure _) fun f hf => ?_
    dsimp only
    rw [dif_pos (List.length_eq_zero_iff.1 hn)]
    refine FailsAs.ite (failsAs_throw hf) ?_
    exact FailsAs.ite (failsAs_unlessDirectory p hf) (failsAs_throw hf)
  | succ n ih =>
    rw [makeDirectories]
    refine (failsAs_makeDirectory p).attempt_bind (fun _ => failsAs_pure _) fun f hf => ?_
    dsimp only
    rw [dif_neg (by rw [← List.length_eq_zero_iff, hn]; simp)]
    refine FailsAs.ite ?_ (FailsAs.ite (failsAs_unlessDirectory p hf) (failsAs_throw hf))
    refine (ih p.parent ?_).bind fun _ => failsAs_ensureDirectory p
    rw [Path.parent, List.length_dropLast, hn]
    rfl

theorem failsAs_unlink (p : Path) : FailsAs Failure.IsSystem (unlink p) := by
  refine failsAs_change fun fs f h => ?_
  split at h
  · next hlookup =>
    cases h
    exact (lookup_error hlookup).1
  · cases h
    exact isSystem_faultAt _ _
  · cases h

theorem failsAs_unlinkIfPresent (p : Path) : FailsAs Failure.IsSystem (unlinkIfPresent p) := by
  unfold unlinkIfPresent
  refine (failsAs_unlink p).attempt_bind (fun _ => failsAs_pure _) fun f hf => ?_
  exact FailsAs.ite (failsAs_pure _) (failsAs_throw hf)

theorem failsAs_removeTree (p : Path) : FailsAs Failure.IsSystem (removeTree p) := by
  refine failsAs_of_error fun fs f h => ?_
  change (removeTree p fs).1 = .error f at h
  unfold removeTree at h
  rcases hlookup : fs.lookup false p with f' | ⟨l, node⟩ <;> rw [hlookup] at h
  · cases h
    exact (lookup_error hlookup).1
  cases node with
  | file b x =>
    cases h
    exact isSystem_file _
  | directory =>
    dsimp only at h
    split at h <;> cases h
    exact isSystem_faultAt _ _
  | link target =>
    dsimp only at h
    split at h <;> cases h
    · next hfollow => exact (lookup_error hfollow).1
    · exact isSystem_file _

theorem failsAs_copyFile (source target : Path) :
    FailsAs Failure.IsSystem (copyFile source target) := by
  have hcopy : FailsAs Failure.IsSystem (do
      let content ← Task.ask fun fs => fs.content source
      write target content) :=
    (failsAs_ask fun _ _ h => content_error h).bind fun b => failsAs_write target b
  unfold copyFile
  refine (failsAs_ask fun _ _ h => isSame_error h).bind fun same => ?_
  exact FailsAs.ite ((failsAs_throw (isSystem_file _)).bind fun _ => hcopy) hcopy

end FileSystem

end CrossBuild
