import CrossBuild.Proofs.FileSystem.Operations
import CrossBuild.Proofs.Lockstep

/-!
# What operations keep

An operation changes no more than what stands where its path leads. So it keeps what such a change
keeps.
-/

namespace CrossBuild.FileSystem

open CrossBuild.Task

variable {I : FileSystem → Prop} {p q : Path}

/-! ## Single operations -/

/-- Writing changes the content of a file at most: one that can be run stays one. -/
theorem keeps_rewrite_of {b : Bytes} (h : ∀ fs l x, I fs → fs.place true p = .ok l → fs.IsSpot l →
    (∀ c y, fs.node? l = some (.file c y) → y = x) → I (fs.put l (.file b x))) :
    Keeps I (write p b) := by
  intro fs hfs
  unfold write
  rw [runOn_change]
  rcases hp : fs.place true p with f | l
  · exact hfs
  dsimp only
  rcases hnode : fs.node? l with _ | ⟨c, x⟩ | _ | _
  · refine h fs l false hfs hp (isSpot_of_none hnode) fun c y hfile => ?_
    rw [hnode] at hfile
    cases hfile
  · refine h fs l x hfs hp (isSpot_of_file hnode) fun c' y hfile => ?_
    rw [hnode] at hfile
    exact (Node.file.inj (Option.some.inj hfile)).2.symm
  · exact hfs
  · exact hfs

theorem keeps_write_of {b : Bytes} (h : ∀ fs l x, I fs → fs.place true p = .ok l → fs.IsSpot l →
    I (fs.put l (.file b x))) : Keeps I (write p b) :=
  keeps_rewrite_of fun fs l x hfs hp hspot _ => h fs l x hfs hp hspot

theorem keeps_makeDirectory_of (h : ∀ fs l, I fs → fs.place false p = .ok l → fs.node? l = none →
    I (fs.put l .directory)) : Keeps I (makeDirectory p) := by
  intro fs hfs
  unfold makeDirectory
  rw [runOn_change]
  rcases hp : fs.place false p with f | l
  · exact hfs
  dsimp only
  rcases hnode : fs.node? l with _ | node
  · exact h fs l hfs hp hnode
  · exact hfs

theorem keeps_unlink_of (h : ∀ fs l, I fs → fs.place false p = .ok l → fs.isDirectoryAt l = false →
    I (fs.remove l)) : Keeps I (unlink p) := by
  intro fs hfs
  unfold unlink
  rw [runOn_change]
  rcases hlookup : fs.lookup false p with f | ⟨l, node⟩
  · exact hfs
  obtain ⟨hp, hnode⟩ := lookup_eq_ok_iff.1 hlookup
  rcases node with ⟨b, x⟩ | _ | target
  · exact h fs l hfs hp (by simp [isDirectoryAt, hnode])
  · exact hfs
  · exact h fs l hfs hp (by simp [isDirectoryAt, hnode])

theorem keeps_unlinkIfPresent_of (h : Keeps I (unlink p)) : Keeps I (unlinkIfPresent p) := by
  unfold unlinkIfPresent
  refine h.attempt.bind fun r => ?_
  rcases r with f | u
  · exact Keeps.ite (keeps_pure _) (keeps_throw f)
  · exact keeps_pure _

theorem keeps_copyFile_of (h : ∀ b, Keeps I (write q b)) : Keeps I (copyFile p q) := by
  unfold copyFile
  refine (keeps_ask _).bind fun same => Keeps.when (keeps_throw _) ?_
  exact (keeps_ask _).bind fun b => h b

theorem keeps_removeTree_of (hfault : removalFault? p = none)
    (h : ∀ fs l, I fs → fs.place false p = .ok l → fs.isDirectoryAt l = true →
      I (fs.removeBelow l)) : Keeps I (removeTree p) := by
  intro fs hfs
  show I (removeTree p fs).2
  unfold removeTree
  rcases hlookup : fs.lookup false p with f | ⟨l, node⟩
  · exact hfs
  obtain ⟨hp, hnode⟩ := lookup_eq_ok_iff.1 hlookup
  rcases node with ⟨b, x⟩ | _ | target
  · exact hfs
  · dsimp only
    rw [hfault]
    exact h fs l hfs hp (isDirectoryAt_iff.2 hnode)
  · dsimp only
    split <;> exact hfs

/-! ## Creating directories -/

section
variable {R : FileSystem → FileSystem → Prop}

theorem respects_unlessDirectory (hlook : ∀ fs fs', R fs fs' → fs'.isDirectory p = fs.isDirectory p)
    (f : Failure) : Respects R (unlessDirectory p f) := by
  unfold unlessDirectory
  refine (respects_ask hlook).bind fun isDirectory => ?_
  exact Respects.ite (respects_pure _) (respects_throw f)

/-- Creating a directory with its parents respects what creating each of them respects. -/
theorem respects_makeDirectories_of (hlook : ∀ q : Path, q.anchor = p.anchor → q.parts <+: p.parts →
      ∀ fs fs', R fs fs' → fs'.isDirectory q = fs.isDirectory q)
    (hmake : ∀ q : Path, q.anchor = p.anchor → q.parts <+: p.parts → Respects R (makeDirectory q)) :
    Respects R (makeDirectories p) := by
  have hself := hmake p rfl (List.prefix_refl _)
  have hunless := respects_unlessDirectory (hlook p rfl (List.prefix_refl _))
  induction hn : p.parts.length generalizing p with
  | zero =>
    rw [makeDirectories]
    refine hself.attempt.bind fun r => ?_
    rcases r with f | u
    · dsimp only
      rw [dif_pos (List.length_eq_zero_iff.1 hn)]
      exact Respects.ite (respects_throw f) (Respects.ite (hunless f) (respects_throw f))
    · exact respects_pure _
  | succ n ih =>
    have habove : p.parent.parts <+: p.parts := List.dropLast_prefix _
    have hparent : Respects R (makeDirectories p.parent) := by
      refine ih (fun q hq hle => hlook q hq (hle.trans habove))
        (fun q hq hle => hmake q hq (hle.trans habove)) (hmake _ rfl habove)
        (respects_unlessDirectory (hlook _ rfl habove)) ?_
      rw [Path.parent, List.length_dropLast, hn]
      rfl
    have hensure : Respects R (ensureDirectory p) := by
      unfold ensureDirectory
      refine hself.attempt.bind fun r => ?_
      rcases r with f | u
      · exact Respects.ite (hunless f) (respects_throw f)
      · exact respects_pure _
    rw [makeDirectories]
    refine hself.attempt.bind fun r => ?_
    rcases r with f | u
    · dsimp only
      rw [dif_neg (by rw [← List.length_eq_zero_iff, hn]; simp)]
      refine Respects.ite (hparent.bind fun _ => hensure) ?_
      exact Respects.ite (hunless f) (respects_throw f)
    · exact respects_pure _

theorem keeps_makeDirectories_of
    (hmake : ∀ q : Path, q.anchor = p.anchor → q.parts <+: p.parts → Keeps I (makeDirectory q)) :
    Keeps I (makeDirectories p) := by
  refine keeps_iff_respects.2 (respects_makeDirectories_of ?_ fun q hq hle => ?_)
  · rintro q - - fs _ ⟨rfl, -⟩
    rfl
  · exact keeps_iff_respects.1 (hmake q hq hle)

end

end CrossBuild.FileSystem
