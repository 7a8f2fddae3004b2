import CrossBuild.FileSystem.Operations
import Mathlib.Tactic.Common

/-!
# What a walk depends on

A walk looks at the directories and links on its way and at nothing else: files are to it as if
nothing stood there, except that it names another fault when it cannot go on. So two file systems
with the same directories and links on the way of a path agree on where the path leads.
-/

namespace CrossBuild

/-- The fault without the difference between nothing and a file in the way. -/
def Errno.coarse : Errno → Errno
  | .notDirectory => .noEntry
  | e => e

/-- The failure without the difference between nothing and a file in the way. -/
def Failure.coarse : Failure → Failure
  | .file (.fault e path) => .file (.fault e.coarse path)
  | f => f

namespace FileSystem

variable {fs fs' : FileSystem} {follow : Bool}

/-- What directs a walk at a location: a directory or a link. -/
def guide? (fs : FileSystem) (l : Location) : Option Node :=
  (fs.node? l).filter fun node => !(node matches .file ..)

theorem guide?_eq_directory_iff {l : Location} :
    fs.guide? l = some .directory ↔ fs.node? l = some .directory := by
  unfold guide?
  rcases fs.node? l with _ | ⟨_ | _ | _⟩ <;> simp

theorem guide?_eq_link_iff {l : Location} {target : String} :
    fs.guide? l = some (.link target) ↔ fs.node? l = some (.link target) := by
  unfold guide?
  rcases fs.node? l with _ | ⟨_ | _ | _⟩ <;> simp

theorem guide?_eq_none_iff {l : Location} :
    fs.guide? l = none ↔ ∀ node, fs.node? l = some node → ∃ b x, node = .file b x := by
  unfold guide?
  rcases fs.node? l with _ | ⟨b, x⟩ | _ | _
  · simp
  · exact ⟨fun _ node h => ⟨b, x, (Option.some.inj h).symm⟩, fun _ => rfl⟩
  · simp
  · simp

theorem guide?_of_node?_eq {l : Location} (h : fs'.node? l = fs.node? l) :
    fs'.guide? l = fs.guide? l := by
  unfold guide?
  rw [h]

theorem isDirectoryAt_iff {l : Location} :
    fs.isDirectoryAt l = true ↔ fs.node? l = some .directory := by
  simp [isDirectoryAt]

theorem isDirectoryAt_congr {l : Location} (h : fs'.guide? l = fs.guide? l) :
    fs'.isDirectoryAt l = fs.isDirectoryAt l := by
  rw [Bool.eq_iff_iff, isDirectoryAt_iff, isDirectoryAt_iff, ← guide?_eq_directory_iff,
    ← guide?_eq_directory_iff, h]

/-! ## The way of a walk -/

/-- The locations that a walk looks at before it takes a link. -/
def advanceWay (fs : FileSystem) (here : Location) : List String → List Location
  | [] => []
  | part :: rest =>
    here ::
      if !fs.isDirectoryAt here then []
      else if part = "." then advanceWay fs here rest
      else if part = ".." then advanceWay fs here.dropLast rest
      else if part.utf8ByteSize > maxNameBytes then []
      else
        match fs.node? (here ++ [part]) with
        | some .directory => (here ++ [part]) :: advanceWay fs (here ++ [part]) rest
        | _ => [here ++ [part]]

/-- The locations that a walk looks at. -/
def walkWay (fs : FileSystem) (follow : Bool) (links : Nat) (here : Location)
    (parts : List String) : List Location :=
  fs.advanceWay here parts ++
    match fs.advance follow here parts with
    | .arrived _ | .fault _ => []
    | .link here target rest =>
      match links with
      | 0 => []
      | links + 1 =>
        fs.walkWay follow links (if target.startsWith "/" then [] else here)
          (linkParts target ++ rest)

/-- The locations that are looked at to find where a path leads. -/
def way (fs : FileSystem) (follow : Bool) (p : Path) : List Location :=
  fs.walkWay follow maxLinks (fs.origin p) p.parts

/-- The progress without the difference between nothing and a file in the way. -/
def Progress.coarse : Progress → Progress
  | .fault e => .fault e.coarse
  | progress => progress

/-- Without a directory or link at the next location a walk ends there or fails. -/
theorem advance_of_no_guide {here : Location} {part : String} {rest : List String}
    (hhere : fs.isDirectoryAt here = true) (hdot : part ≠ ".") (hdots : part ≠ "..")
    (hlong : ¬ part.utf8ByteSize > maxNameBytes) (hguide : fs.guide? (here ++ [part]) = none) :
    (fs.advance follow here (part :: rest)).coarse =
      if rest = [] then .arrived (here ++ [part]) else .fault .noEntry := by
  rw [advance, if_neg (by simp [hhere]), if_neg hdot, if_neg hdots, if_neg hlong]
  rcases h : fs.node? (here ++ [part]) with _ | node
  · cases rest <;> rfl
  · obtain ⟨b, x, rfl⟩ := guide?_eq_none_iff.1 hguide node h
    cases rest with
    | nil => rfl
    | cons next rest =>
      have : ¬ fs.isDirectoryAt (here ++ [part]) = true := by
        rw [isDirectoryAt_iff, h]
        simp
      simp [advance, this, Progress.coarse, Errno.coarse]

theorem advance_congr (follow : Bool) {parts : List String} :
    ∀ here, (∀ l ∈ fs.advanceWay here parts, fs'.guide? l = fs.guide? l) →
      (fs'.advance follow here parts).coarse = (fs.advance follow here parts).coarse := by
  induction parts with
  | nil => intro here _; rfl
  | cons part rest ih =>
    intro here h
    rw [advanceWay] at h
    have hhere := isDirectoryAt_congr (h here (by simp))
    by_cases hd : fs.isDirectoryAt here = true
    · rw [if_neg (by simp [hd])] at h
      by_cases hdot : part = "."
      · rw [if_pos hdot] at h
        simp only [advance, hhere, hd, hdot, if_true, if_false, Bool.not_true,
          Bool.false_eq_true]
        exact ih _ fun l hl => h l (by simp [hl])
      rw [if_neg hdot] at h
      by_cases hdots : part = ".."
      · rw [if_pos hdots] at h
        subst hdots
        simp only [advance, hhere, hd, if_true, if_false, Bool.not_true, Bool.false_eq_true,
          hdot]
        exact ih _ fun l hl => h l (by simp [hl])
      rw [if_neg hdots] at h
      by_cases hlong : part.utf8ByteSize > maxNameBytes
      · simp only [advance, hhere, hd, hdot, hdots, hlong, if_true, if_false, Bool.not_true,
          Bool.false_eq_true]
      rw [if_neg hlong] at h
      have hnext : fs'.guide? (here ++ [part]) = fs.guide? (here ++ [part]) := by
        refine h _ ?_
        split <;> simp
      rcases hguide : fs.guide? (here ++ [part]) with _ | node
      · rw [advance_of_no_guide hd hdot hdots hlong hguide,
          advance_of_no_guide (hhere.trans hd) hdot hdots hlong (hnext.trans hguide)]
      · cases node with
        | file b x => simp [guide?] at hguide
        | directory =>
          have hnode := guide?_eq_directory_iff.1 hguide
          have hnode' := guide?_eq_directory_iff.1 (hnext.trans hguide)
          rw [hnode] at h
          simp only [advance, hhere, hd, hdot, hdots, hlong, hnode, hnode', if_false,
            Bool.not_true, Bool.false_eq_true]
          exact ih _ fun l hl => h l (by simp [hl])
        | link target =>
          have hnode := guide?_eq_link_iff.1 hguide
          have hnode' := guide?_eq_link_iff.1 (hnext.trans hguide)
          simp only [advance, hhere, hd, hdot, hdots, hlong, hnode, hnode', if_false,
            Bool.not_true, Bool.false_eq_true]
    · simp only [advance, hhere, hd, Bool.not_false, if_true]

/-- **Walks agree** where the directories and links on the way do. -/
theorem walk_congr (links : Nat) :
    ∀ here parts, (∀ l ∈ fs.walkWay follow links here parts, fs'.guide? l = fs.guide? l) →
      (fs'.walk follow links here parts).mapError Errno.coarse =
        (fs.walk follow links here parts).mapError Errno.coarse := by
  induction links with
  | zero =>
    intro here parts h
    rw [walkWay] at h
    have hadvance := advance_congr follow here fun l hl => h l (List.mem_append_left _ hl)
    rw [walk, walk]
    rcases h1 : fs'.advance follow here parts <;> rcases h2 : fs.advance follow here parts <;>
      simp_all [Progress.coarse, Except.mapError]
  | succ links ih =>
    intro here parts h
    rw [walkWay] at h
    have hadvance := advance_congr follow here fun l hl => h l (List.mem_append_left _ hl)
    rw [walk, walk]
    rcases h1 : fs'.advance follow here parts <;> rcases h2 : fs.advance follow here parts <;>
      simp only [h1, h2, Progress.coarse, reduceCtorEq, Progress.arrived.injEq,
        Progress.fault.injEq, Progress.link.injEq] at hadvance
    · rw [hadvance]
    · obtain ⟨rfl, rfl, rfl⟩ := hadvance
      refine ih _ _ fun l hl => h l ?_
      rw [h2]
      exact List.mem_append_right _ hl
    · simp [Except.mapError, hadvance]

/-- Everything that an advance looks at is a directory or a link, unless it fails or ends there. -/
theorem guide?_of_mem_advanceWay (follow : Bool) {parts : List String} {m : Location} :
    ∀ here, m ∈ fs.advanceWay here parts →
      (∃ e, fs.advance follow here parts = .fault e) ∨ fs.guide? m ≠ none ∨
        fs.advance follow here parts = .arrived m := by
  induction parts with
  | nil => intro here hm; simp [advanceWay] at hm
  | cons part rest ih =>
    intro here hm
    rw [advanceWay] at hm
    by_cases hd : fs.isDirectoryAt here = true
    · have hhere : fs.guide? here ≠ none := by
        rw [guide?_eq_directory_iff.2 (isDirectoryAt_iff.1 hd)]
        simp
      rw [if_neg (by simp [hd])] at hm
      rcases List.mem_cons.1 hm with rfl | hm
      · exact .inr (.inl hhere)
      rw [advance, if_neg (by simp [hd])]
      by_cases hdot : part = "."
      · rw [if_pos hdot] at hm ⊢
        exact ih _ hm
      rw [if_neg hdot] at hm ⊢
      by_cases hdots : part = ".."
      · rw [if_pos hdots] at hm ⊢
        exact ih _ hm
      rw [if_neg hdots] at hm ⊢
      by_cases hlong : part.utf8ByteSize > maxNameBytes
      · rw [if_pos hlong] at hm
        cases hm
      rw [if_neg hlong] at hm ⊢
      rcases hnode : fs.node? (here ++ [part]) with _ | node
      · rw [hnode, List.mem_singleton] at hm
        subst hm
        cases rest with
        | nil => exact .inr (.inr rfl)
        | cons next rest => exact .inl ⟨_, rfl⟩
      · cases node with
        | file b x =>
          rw [hnode, List.mem_singleton] at hm
          subst hm
          cases rest with
          | nil => exact .inr (.inr rfl)
          | cons next rest =>
            have : ¬ fs.isDirectoryAt (here ++ [part]) = true := by
              rw [isDirectoryAt_iff, hnode]
              simp
            exact .inl ⟨.notDirectory, by simp [advance, this]⟩
        | directory =>
          rw [hnode] at hm
          rcases List.mem_cons.1 hm with rfl | hm
          · refine .inr (.inl ?_)
            rw [guide?_eq_directory_iff.2 hnode]
            simp
          · exact ih _ hm
        | link target =>
          rw [hnode, List.mem_singleton] at hm
          subst hm
          refine .inr (.inl ?_)
          rw [guide?_eq_link_iff.2 hnode]
          simp
    · exact .inl ⟨.notDirectory, by simp [advance, hd]⟩

/-- **Induction on a walk** that arrives: what holds of a walk without links, and of a walk past a link
if it holds of what is to do after the link, holds of every walk to the end. -/
theorem walk_induction {l : Location} {P : Nat → Location → List String → Prop}
    (harrived : ∀ links here parts, fs.advance follow here parts = .arrived l → P links here parts)
    (hlink : ∀ links here parts m target rest, fs.advance follow here parts = .link m target rest →
      P links (if target.startsWith "/" then [] else m) (linkParts target ++ rest) →
        P (links + 1) here parts)
    {links : Nat} : ∀ here parts, fs.walk follow links here parts = .ok l → P links here parts := by
  induction links with
  | zero =>
    intro here parts h
    rw [walk] at h
    rcases ha : fs.advance follow here parts with l' | ⟨m, target, rest⟩ | e <;> rw [ha] at h
    · exact harrived 0 here parts (ha.trans (congrArg _ (Except.ok.inj h)))
    · cases h
    · cases h
  | succ links ih =>
    intro here parts h
    rw [walk] at h
    rcases ha : fs.advance follow here parts with l' | ⟨m, target, rest⟩ | e <;> rw [ha] at h
    · exact harrived _ here parts (ha.trans (congrArg _ (Except.ok.inj h)))
    · exact hlink links here parts m target rest ha (ih _ _ h)
    · cases h

/-- Everything that a walk which arrives looks at is a directory or a link, except for its end. -/
theorem guide?_of_mem_walkWay {links : Nat} {l m : Location} :
    ∀ here parts, fs.walk follow links here parts = .ok l → m ∈ fs.walkWay follow links here parts →
      fs.guide? m ≠ none ∨ m = l := by
  -- what an advance that does not fail looks at
  have hadvance : ∀ here parts, (∀ e, fs.advance follow here parts ≠ .fault e) →
      m ∈ fs.advanceWay here parts →
        fs.guide? m ≠ none ∨ fs.advance follow here parts = .arrived m := by
    intro here parts hgood hm
    refine (guide?_of_mem_advanceWay follow here hm).resolve_left ?_
    rintro ⟨e, he⟩
    exact hgood e he
  refine walk_induction
    (P := fun links here parts =>
      m ∈ fs.walkWay follow links here parts → fs.guide? m ≠ none ∨ m = l)
    (fun links here parts ha hm => ?_) (fun links here parts m' target rest ha ih hm => ?_)
  · rw [walkWay, ha, List.append_nil] at hm
    refine (hadvance here parts (by simp [ha]) hm).imp_right fun harrived => ?_
    exact Progress.arrived.inj (harrived.symm.trans ha)
  · rw [walkWay, ha] at hm
    rcases List.mem_append.1 hm with hm | hm
    · refine (hadvance here parts (by simp [ha]) hm).imp_right fun harrived => ?_
      cases ha.symm.trans harrived
    · exact ih hm

/-! ## Where paths lead -/

theorem hasNul_of_place {p : Path} {l : Location} (h : fs.place follow p = .ok l) :
    hasNul p = false := by
  unfold place at h
  by_contra hnul
  rw [if_pos (by simpa using hnul)] at h
  cases h

/-- The place of a path that can be handed to the system is where its walk ends. -/
theorem place_eq_ok_iff {p : Path} {l : Location} :
    fs.place follow p = .ok l ↔
      hasNul p = false ∧ p.toString.utf8ByteSize < pathByteLimit ∧
        fs.walk follow maxLinks (fs.origin p) p.parts = .ok l := by
  unfold place locate
  by_cases hnul : hasNul p = true
  · simp [hnul]
  · by_cases hlong : p.toString.utf8ByteSize ≥ pathByteLimit
    · simp [hnul, hlong, Nat.not_lt.2 hlong]
    · rw [if_neg hnul, if_neg hlong]
      rcases fs.walk follow maxLinks (fs.origin p) p.parts with e | l'
      · simp
      · simp [hnul, Nat.lt_of_not_ge hlong]

/-- The place of a path that can be handed to the system. -/
theorem place_eq_walk {p : Path} (hnul : hasNul p = false)
    (hlimit : p.toString.utf8ByteSize < pathByteLimit) (follow : Bool) :
    fs.place follow p =
      (fs.walk follow maxLinks (fs.origin p) p.parts).mapError fun e => faultAt e p := by
  unfold place locate
  rw [if_neg (by simp [hnul]), if_neg (Nat.not_le.2 hlimit)]
  rcases fs.walk follow maxLinks (fs.origin p) p.parts <;> rfl

/-- File systems with the same directories and links on the way of a path agree on its place. -/
theorem place_congr {p : Path} (hcwd : fs'.workingDirectory = fs.workingDirectory)
    (h : ∀ l ∈ fs.way follow p, fs'.guide? l = fs.guide? l) :
    (fs'.place follow p).mapError Failure.coarse = (fs.place follow p).mapError Failure.coarse := by
  have horigin : fs'.origin p = fs.origin p := by
    unfold origin
    rw [hcwd]
  have hwalk := walk_congr maxLinks (fs.origin p) p.parts h
  unfold place locate
  rw [horigin]
  by_cases hnul : hasNul p = true
  · rw [if_pos hnul, if_pos hnul]
  · rw [if_neg hnul, if_neg hnul]
    by_cases hlong : p.toString.utf8ByteSize ≥ pathByteLimit
    · rw [if_pos hlong, if_pos hlong]
    · rw [if_neg hlong, if_neg hlong]
      rcases h1 : fs'.walk follow maxLinks (fs.origin p) p.parts <;>
        rcases h2 : fs.walk follow maxLinks (fs.origin p) p.parts <;> rw [h1, h2] at hwalk <;>
        simp_all [Except.mapError, Failure.coarse, faultAt]

theorem place_of_congr {p : Path} {l : Location}
    (h : (fs'.place follow p).mapError Failure.coarse =
      (fs.place follow p).mapError Failure.coarse) (hl : fs.place follow p = .ok l) :
    fs'.place follow p = .ok l := by
  rw [hl] at h
  rcases h' : fs'.place follow p with f | l' <;> rw [h'] at h
  · cases h
  · exact congrArg Except.ok (Except.ok.inj h)

/-- A path leads to the same place while the directories and links on its way stay and no new one
comes up at its end. -/
theorem place_stable {p : Path} {l : Location}
    (hcwd : fs'.workingDirectory = fs.workingDirectory) (hl : fs.place follow p = .ok l)
    (hguides : ∀ m, fs.guide? m ≠ none → fs'.guide? m = fs.guide? m)
    (hend : fs'.guide? l = fs.guide? l) : fs'.place follow p = .ok l := by
  refine place_of_congr (place_congr hcwd fun m hm => ?_) hl
  obtain ⟨-, -, hwalk⟩ := place_eq_ok_iff.1 hl
  rcases guide?_of_mem_walkWay _ _ hwalk hm with hg | rfl
  · exact hguides m hg
  · exact hend

theorem meansAbsent_coarse (f : Failure) : meansAbsent f.coarse = meansAbsent f := by
  cases f with
  | file e =>
    cases e with
    | fault e p => cases e <;> rfl
    | _ => rfl
  | _ => rfl

/-- A path that leads nowhere still does after a change off its way. -/
theorem place_error_of_congr {p : Path} {f : Failure}
    (h : (fs'.place follow p).mapError Failure.coarse =
      (fs.place follow p).mapError Failure.coarse) (hf : fs.place follow p = .error f) :
    ∃ f', fs'.place follow p = .error f' ∧ meansAbsent f' = meansAbsent f := by
  rw [hf] at h
  rcases h' : fs'.place follow p with f' | l' <;> rw [h'] at h
  · refine ⟨f', rfl, ?_⟩
    rw [← meansAbsent_coarse f', ← meansAbsent_coarse f]
    exact congrArg meansAbsent (Except.error.inj h)
  · cases h

/-! ## Following the last link or not -/

theorem advance_follow (fs : FileSystem) (parts : List String) (l : Location) :
    ∀ here, (fs.advance false here parts = .arrived l → (∀ t, fs.node? l ≠ some (.link t)) →
        fs.advance true here parts = .arrived l) ∧
      ∀ h t r, fs.advance false here parts = .link h t r →
        fs.advance true here parts = .link h t r := by
  induction parts with
  | nil => intro here; exact ⟨fun h _ => h, fun _ _ _ h => h⟩
  | cons part rest ih =>
    intro here
    rw [advance, advance]
    split
    · exact ⟨nofun, nofun⟩
    split
    · exact ih here
    split
    · exact ih here.dropLast
    split
    · exact ⟨nofun, nofun⟩
    rcases hnode : fs.node? (here ++ [part]) with _ | ⟨b, x⟩ | _ | target
    · exact ⟨fun h _ => h, fun _ _ _ h => h⟩
    · exact ih _
    · exact ih _
    · cases rest with
      | nil =>
        refine ⟨fun h hlink => ?_, fun h t r hr => ?_⟩
        · rw [← Progress.arrived.inj h] at hlink
          exact absurd hnode (hlink target)
        · cases hr
      | cons next rest => exact ⟨fun h _ => h, fun _ _ _ h => h⟩

/-- A path that leads to no link leads there whether or not links are followed. -/
theorem place_true_of_false {p : Path} {l : Location} (h : fs.place false p = .ok l)
    (hlink : ∀ t, fs.node? l ≠ some (.link t)) : fs.place true p = .ok l := by
  obtain ⟨hnul, hlimit, hwalk⟩ := place_eq_ok_iff.1 h
  refine place_eq_ok_iff.2 ⟨hnul, hlimit, ?_⟩
  revert hwalk
  refine walk_induction (P := fun links here parts => fs.walk true links here parts = .ok l)
    (fun links here parts ha => ?_) (fun links here parts m target rest ha ih => ?_) _ _
  · rw [walk, (advance_follow fs parts l here).1 ha hlink]
  · rw [walk, (advance_follow fs parts l here).2 m target rest ha]
    exact ih

end FileSystem

end CrossBuild
