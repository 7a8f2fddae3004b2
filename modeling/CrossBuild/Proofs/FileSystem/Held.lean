import CrossBuild.Proofs.FileSystem.Siblings
import CrossBuild.Proofs.FileSystem.Yard

/-!
# What work in a yard leaves alone

While a run works in a yard and files come and go elsewhere, the directories and links outside the
yard stay as they were. So a path whose way stays outside leads where it led at first.
-/

namespace CrossBuild.FileSystem

variable {fs fs' fs₀ : FileSystem} {l : Location} {p : Path}

/-- Files that come and go at places where a file can be leave a file system sound. -/
theorem Sound.refiled {places : Location → Prop} (hs : fs.Sound) (hr : Refiled places fs fs')
    (hentry : ∀ l, places l → fs.IsSpot l → fs.IsEntry l) : fs'.Sound := by
  have hold : ∀ l node, fs'.node? l = some node → fs.node? l = some node ∨
      (fs.IsEntry l ∧ ∃ b x, node = .file b x) := by
    intro l node hnode
    have hguide := hr.guides l
    by_cases hplace : places l
    · cases node with
      | file b x =>
        have hspot : fs.IsSpot l := by
          unfold IsSpot
          rw [← hguide, guide?_eq_none_iff]
          intro node hnode'
          rw [hnode] at hnode'
          exact ⟨b, x, (Option.some.inj hnode').symm⟩
        exact .inr ⟨hentry l hplace hspot, b, x, rfl⟩
      | directory =>
        rw [guide?_eq_directory_iff.2 hnode] at hguide
        exact .inl (guide?_eq_directory_iff.1 hguide.symm)
      | link target =>
        rw [guide?_eq_link_iff.2 hnode] at hguide
        exact .inl (guide?_eq_link_iff.1 hguide.symm)
    · rw [hr.others l hplace] at hnode
      exact .inl hnode
  refine ⟨?_, ?_, ?_⟩
  · intro l node hnode n hn
    rcases hold l node hnode with hnode | ⟨⟨m, k, rfl, hk, hm⟩, -⟩
    · exact hs.names l node hnode n hn
    · rcases List.mem_append.1 hn with hn | hn
      · exact hs.names m _ (isDirectoryAt_iff.1 hm) n hn
      · rw [List.mem_singleton.1 hn]
        exact hk
  · intro l n node hnode
    rw [isDirectoryAt_congr (hr.guides l)]
    rcases hold _ node hnode with hnode | ⟨⟨m, k, heq, -, hm⟩, -⟩
    · exact hs.parents l n node hnode
    · rw [(List.append_inj' heq rfl).1]
      exact hm
  · intro l target hnode
    rcases hold l _ hnode with hnode | ⟨-, b, x, hfile⟩
    · exact hs.links l target hnode
    · cases hfile

namespace Yard

variable {y : Yard} {n : String}

theorem Within.above {m : Location} (h : ¬ y.Within l) (hm : m <+: l) : ¬ y.Within m := by
  rintro ⟨k, hk, hkm⟩
  exact h ⟨k, hk, hkm.trans hm⟩

theorem Within.concat (h : ¬ y.Within l) (hn : n ∉ y.names) : ¬ y.Within (l ++ [n]) := by
  rintro ⟨k, hk, hkm⟩
  rcases List.prefix_concat_iff.1 hkm with heq | hkm
  · obtain ⟨-, hlast⟩ := List.append_inj' heq rfl
    rw [List.cons.inj hlast |>.1] at hk
    exact hn hk
  · exact h ⟨k, hk, hkm⟩

/-! ## Paths that stay outside -/

/-- No location on the way to a path lies in the yard. -/
def Outside (y : Yard) (fs : FileSystem) (p : Path) : Prop :=
  ∀ l ∈ fs.origin p :: fs.way true p, ¬ y.Within l

/-- An advance that goes one name further than one outside the yard stays outside too. -/
theorem advance_outside (hn : n ∉ y.names) {init : List String} :
    ∀ here, ¬ y.Within here → (∀ l ∈ fs.advanceWay here init, ¬ y.Within l) →
      (∀ l ∈ fs.advanceWay here (init ++ [n]), ¬ y.Within l) ∧
        (∀ l, fs.advance false here (init ++ [n]) = .arrived l → ¬ y.Within l) ∧
        ∀ h target rest, fs.advance false here (init ++ [n]) = .link h target rest →
          ¬ y.Within h ∧ ∃ r, rest = r ++ [n] ∧ fs.advance true here init = .link h target r := by
  induction init with
  | nil =>
    intro here hhere _
    have hnext := Within.concat hhere hn
    by_cases hd : fs.isDirectoryAt here = true
    · by_cases hdot : n = "."
      · simp [advanceWay, advance, hd, hdot, hhere]
      by_cases hdots : n = ".."
      · have hup := Within.above hhere (List.dropLast_prefix here)
        simp [advanceWay, advance, hd, hdots, hhere, hup]
      by_cases hlong : n.utf8ByteSize > maxNameBytes
      · simp [advanceWay, advance, hd, hdot, hdots, hlong, hhere]
      rcases hnode : fs.node? (here ++ [n]) with _ | ⟨b, x⟩ | _ | target <;>
        simp [advanceWay, advance, hd, hdot, hdots, hlong, hnode, hhere, hnext]
    · simp [advanceWay, advance, hd, hhere]
  | cons part init ih =>
    intro here hhere hway
    rw [advanceWay] at hway
    by_cases hd : fs.isDirectoryAt here = true
    · rw [if_neg (by simp [hd])] at hway
      by_cases hdot : part = "."
      · rw [if_pos hdot] at hway
        have := ih here hhere fun l hl => hway l (List.mem_cons_of_mem _ hl)
        simpa [advanceWay, advance, hd, hdot, hhere] using this
      rw [if_neg hdot] at hway
      by_cases hdots : part = ".."
      · rw [if_pos hdots] at hway
        have := ih here.dropLast (Within.above hhere (List.dropLast_prefix here))
          fun l hl => hway l (List.mem_cons_of_mem _ hl)
        simpa [advanceWay, advance, hd, hdots, hhere] using this
      rw [if_neg hdots] at hway
      by_cases hlong : part.utf8ByteSize > maxNameBytes
      · simp [advanceWay, advance, hd, hdot, hdots, hlong, hhere]
      rw [if_neg hlong] at hway
      rcases hnode : fs.node? (here ++ [part]) with _ | ⟨b, x⟩ | _ | target <;> rw [hnode] at hway
      · have hnext := hway (here ++ [part]) (by simp)
        simp [advanceWay, advance, hd, hdot, hdots, hlong, hnode, hhere, hnext]
      · have hnext := hway (here ++ [part]) (by simp)
        have hfile : fs.isDirectoryAt (here ++ [part]) = false := by simp [isDirectoryAt, hnode]
        obtain ⟨-, harrived, hlink⟩ := ih (here ++ [part]) hnext (by
          intro l hl
          cases init with
          | nil => cases hl
          | cons a init =>
            rw [advanceWay, if_pos (by simp [hfile]), List.mem_singleton] at hl
            rw [hl]
            exact hnext)
        refine ⟨by simp [advanceWay, hd, hdot, hdots, hlong, hnode, hhere, hnext], ?_, ?_⟩
        · simpa [advance, hd, hdot, hdots, hlong, hnode] using harrived
        · simpa [advance, hd, hdot, hdots, hlong, hnode] using hlink
      · have hnext := hway (here ++ [part]) (by simp)
        have := ih (here ++ [part]) hnext fun l hl => hway l (by simp [hl])
        simpa [advanceWay, advance, hd, hdot, hdots, hlong, hnode, hhere, hnext] using this
      · have hnext := hway (here ++ [part]) (by simp)
        simp [advanceWay, advance, hd, hdot, hdots, hlong, hnode, hhere, hnext]
    · simp [advanceWay, advance, hd, hhere]

theorem walk_outside (hn : n ∉ y.names) {links : Nat} :
    ∀ here init, ¬ y.Within here → (∀ l ∈ fs.walkWay true links here init, ¬ y.Within l) →
      (∀ l ∈ fs.walkWay false links here (init ++ [n]), ¬ y.Within l) ∧
        ∀ l, fs.walk false links here (init ++ [n]) = .ok l → ¬ y.Within l := by
  induction links with
  | zero =>
    intro here init hhere hway
    rw [walkWay] at hway ⊢
    rw [walk]
    have hinit : ∀ l ∈ fs.advanceWay here init, ¬ y.Within l := fun l hl =>
      hway l (List.mem_append_left _ hl)
    obtain ⟨hadvance, harrived, -⟩ := advance_outside hn here hhere hinit
    rcases h : fs.advance false here (init ++ [n]) with l | ⟨m, target, rest⟩ | e <;> rw [h] at harrived
    · refine ⟨by simpa using hadvance, ?_⟩
      rintro l' hl'
      exact harrived l' (congrArg _ (Except.ok.inj hl'))
    · exact ⟨by simpa using hadvance, fun l hl => by cases hl⟩
    · exact ⟨by simpa using hadvance, fun l hl => by cases hl⟩
  | succ links ih =>
    intro here init hhere hway
    rw [walkWay] at hway ⊢
    rw [walk]
    have hinit : ∀ l ∈ fs.advanceWay here init, ¬ y.Within l := fun l hl =>
      hway l (List.mem_append_left _ hl)
    obtain ⟨hadvance, harrived, hlink⟩ := advance_outside hn here hhere hinit
    rcases h : fs.advance false here (init ++ [n]) with l | ⟨m, target, rest⟩ | e <;>
      rw [h] at harrived hlink
    · refine ⟨by simpa using hadvance, ?_⟩
      rintro l' hl'
      exact harrived l' (congrArg _ (Except.ok.inj hl'))
    · obtain ⟨hm, r, rfl, htrue⟩ := hlink m target rest rfl
      have hstart : ¬ y.Within (if target.startsWith "/" then [] else m) := by
        split
        · exact not_within_of_above List.nil_prefix
        · exact hm
      obtain ⟨hrest, hend⟩ := ih (if target.startsWith "/" then [] else m) (linkParts target ++ r)
        hstart fun l hl => hway l (by
          rw [htrue]
          exact List.mem_append_right _ hl)
      rw [List.append_assoc] at hrest hend
      refine ⟨fun l hl => ?_, hend⟩
      exact (List.mem_append.1 hl).elim (hadvance l) (hrest l)
    · exact ⟨by simpa using hadvance, fun l hl => by cases hl⟩

/-- What stands in a directory outside the yard is outside too, unless the yard begins there. -/
theorem Outside.child {anchor : Path.Anchor} {init : List String} (h : y.Outside fs ⟨anchor, init⟩)
    (hn : n ∉ y.names) :
    (∀ l ∈ fs.way false ⟨anchor, init ++ [n]⟩, ¬ y.Within l) ∧
      ∀ l, fs.place false ⟨anchor, init ++ [n]⟩ = .ok l → ¬ y.Within l := by
  have horigin : ¬ y.Within (fs.origin ⟨anchor, init⟩) := h _ (by simp)
  obtain ⟨hway, hend⟩ := walk_outside hn (fs.origin ⟨anchor, init⟩) init horigin fun l hl =>
    h l (List.mem_cons_of_mem _ hl)
  refine ⟨hway, fun l hl => ?_⟩
  exact hend l (place_eq_ok_iff.1 hl).2.2

/-! ## What is held -/

/-- The yard can be worked in, and the directories and links outside are those of the beginning. -/
structure Held (y : Yard) (fs₀ fs : FileSystem) : Prop where
  sound : fs.Sound
  real : fs.IsReal y.root
  noLink : ∀ l, y.Within l → ∀ target, fs.node? l ≠ some (.link target)
  workingDirectory : fs.workingDirectory = fs₀.workingDirectory
  guides : ∀ l, ¬ y.Within l → fs.guide? l = fs₀.guide? l

theorem Held.ready (h : y.Held fs₀ fs) : y.Ready fs :=
  ready_of h.sound h.real h.noLink

theorem Held.kept (h : y.Held fs₀ fs) (hk : y.Kept fs fs') : y.Held fs₀ fs' where
  sound := hk.sound
  real := hk.real
  noLink := hk.noLink
  workingDirectory := hk.workingDirectory.trans h.workingDirectory
  guides l hl := (hk.guide?_outside hl).trans (h.guides l hl)

theorem Held.refiled {places : Location → Prop} (h : y.Held fs₀ fs) (hr : Refiled places fs fs')
    (hentry : ∀ l, places l → fs.IsSpot l → fs.IsEntry l) : y.Held fs₀ fs' where
  sound := h.sound.refiled hr hentry
  real := h.real.congr fun m _ => hr.guides m
  noLink l hl target ht := by
    have := hr.guides l
    rw [guide?_eq_link_iff.2 ht] at this
    exact h.noLink l hl target (guide?_eq_link_iff.1 this.symm)
  workingDirectory := hr.workingDirectory.trans h.workingDirectory
  guides l hl := (hr.guides l).trans (h.guides l hl)

/-- A path whose way is outside the yard leads where it led at first. -/
theorem Held.place_congr {follow : Bool} (h : y.Held fs₀ fs)
    (hway : ∀ l ∈ fs₀.way follow p, ¬ y.Within l) :
    (fs.place follow p).mapError Failure.coarse = (fs₀.place follow p).mapError Failure.coarse :=
  FileSystem.place_congr h.workingDirectory fun l hl => h.guides l (hway l hl)

theorem Held.place {follow : Bool} (h : y.Held fs₀ fs)
    (hway : ∀ l ∈ fs₀.way follow p, ¬ y.Within l) (hl : fs₀.place follow p = .ok l) :
    fs.place follow p = .ok l :=
  place_of_congr (h.place_congr hway) hl

end Yard

end CrossBuild.FileSystem
