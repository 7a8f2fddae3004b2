import CrossBuild.Proofs.FileSystem.Names

/-!
# Walks straight down

A directory is real when every step of its way from the root is a directory. From a real directory
a path of names leads straight down as long as it passes no link. Paths that differ in their last
part alone share everything else: either all of them end in one directory, or all of them fail the
same way.
-/

namespace CrossBuild.FileSystem

variable {fs fs' : FileSystem} {follow : Bool}

/-- A location that its names lead to from the root without a link. -/
structure IsReal (fs : FileSystem) (l : Location) : Prop where
  directories : ∀ m, m <+: l → fs.isDirectoryAt m = true
  names : ∀ n ∈ l, IsName n
  short : ∀ n ∈ l, n.utf8ByteSize ≤ maxNameBytes

/-- One step of a walk that meets a name. -/
theorem advance_name {here : Location} {part : String} {rest : List String}
    (hhere : fs.isDirectoryAt here = true) (hname : IsName part)
    (hshort : part.utf8ByteSize ≤ maxNameBytes) :
    fs.advance follow here (part :: rest) =
      match fs.node? (here ++ [part]) with
      | none => if rest.isEmpty then .arrived (here ++ [part]) else .fault .noEntry
      | some (.link target) =>
        if rest.isEmpty && !follow then .arrived (here ++ [part]) else .link here target rest
      | some _ => fs.advance follow (here ++ [part]) rest := by
  obtain ⟨-, hdot, hdots⟩ := hname
  have hdirectory : ¬ (!fs.isDirectoryAt here) = true := by simp [hhere]
  refine (if_neg hdirectory).trans ((if_neg hdot).trans ((if_neg hdots).trans ?_))
  refine (if_neg (Nat.not_lt.2 hshort)).trans ?_
  rcases fs.node? (here ++ [part]) with _ | ⟨_ | _ | _⟩ <;> rfl

theorem IsReal.above {l m : Location} (h : fs.IsReal l) (hm : m <+: l) : fs.IsReal m where
  directories m' hm' := h.directories m' (hm'.trans hm)
  names n hn := h.names n (hm.subset hn)
  short n hn := h.short n (hm.subset hn)

theorem IsReal.congr {l : Location} (h : fs.IsReal l)
    (hsame : ∀ m, m <+: l → fs'.guide? m = fs.guide? m) : fs'.IsReal l where
  directories m hm := (isDirectoryAt_congr (hsame m hm)).trans (h.directories m hm)
  names := h.names
  short := h.short

theorem IsReal.remove {l m : Location} (h : fs.IsReal l) (hdir : fs.isDirectoryAt m = false) :
    (fs.remove m).IsReal l := by
  refine h.congr fun m' hm' => guide?_of_node?_eq (node?_remove_of_ne ?_)
  rintro rfl
  rw [h.directories m' hm'] at hdir
  cases hdir

/-- A walk passes through a real directory. -/
theorem advance_of_isReal {l xs : List String} :
    ∀ here, fs.IsReal (here ++ l) →
      fs.advance follow here (l ++ xs) = fs.advance follow (here ++ l) xs := by
  induction l with
  | nil => intro here _; simp
  | cons n l ih =>
    intro here hreal
    have hnext : fs.node? (here ++ [n]) = some .directory :=
      isDirectoryAt_iff.1 (hreal.directories _ ⟨l, by simp⟩)
    rw [List.cons_append, advance_name (hreal.directories here (List.prefix_append _ _))
      (hreal.names n (by simp)) (hreal.short n (by simp)), hnext]
    have := ih (here ++ [n]) (by simpa using hreal)
    simpa using this

/-- No link lies at or below a location on the way along some names. -/
def NoLinkOn (fs : FileSystem) (here : Location) (xs : List String) : Prop :=
  ∀ ys, ys ≠ [] → ys <+: xs → ∀ target, fs.node? (here ++ ys) ≠ some (.link target)

/-- A walk along names that passes no link goes straight down, if it does not fail. -/
theorem advance_straight (follow : Bool) {xs : List String} :
    ∀ here, (∀ n ∈ xs, IsName n) → fs.NoLinkOn here xs →
      fs.advance follow here xs = .arrived (here ++ xs) ∨
        ∃ e, fs.advance follow here xs = .fault e := by
  induction xs with
  | nil => intro here _ _; exact .inl (by simp [advance])
  | cons x xs ih =>
    intro here hnames hlinks
    have hname := hnames x (by simp)
    by_cases hd : fs.isDirectoryAt here = true
    swap
    · exact .inr ⟨.notDirectory, by simp [advance, hd]⟩
    by_cases hlong : x.utf8ByteSize > maxNameBytes
    · exact .inr ⟨.nameTooLong, by simp [advance, hd, hname.2.1, hname.2.2, hlong]⟩
    rw [advance_name hd hname (Nat.le_of_not_lt hlong)]
    have hnext := ih (here ++ [x]) (fun n hn => hnames n (by simp [hn])) (by
      intro ys hne hys target
      have := hlinks (x :: ys) (by simp) (by simpa using hys) target
      simpa using this)
    rw [List.append_assoc, List.singleton_append] at hnext
    split
    · next hnode =>
      cases xs with
      | nil => exact .inl rfl
      | cons y xs => exact .inr ⟨_, rfl⟩
    · next target hnode => exact absurd hnode (hlinks [x] (by simp) (by simp) target)
    · exact hnext

/-- Where a path below a real directory leads: to where it says. -/
theorem place_below {l : Location} {xs : List String} {p : Path} {m : Location}
    (hreal : fs.IsReal l) (habs : p.isAbsolute = true) (hparts : p.parts = l ++ xs)
    (hnames : ∀ n ∈ xs, IsName n) (hlinks : fs.NoLinkOn l xs) (h : fs.place follow p = .ok m) :
    m = l ++ xs := by
  obtain ⟨-, -, hwalk⟩ := place_eq_ok_iff.1 h
  have horigin : fs.origin p = [] := by
    unfold origin
    rw [if_pos habs]
  have hadvance : fs.advance follow [] (l ++ xs) = fs.advance follow l xs :=
    advance_of_isReal [] (by simpa using hreal)
  rw [hparts, horigin] at hwalk
  unfold walk at hwalk
  rw [hadvance] at hwalk
  rcases advance_straight follow l hnames hlinks with ha | ⟨e, he⟩
  · rw [ha] at hwalk
    exact (Except.ok.inj hwalk).symm
  · rw [he] at hwalk
    cases hwalk

/-- The system takes a path: neither the path nor a part of it is too long. -/
def Fits (p : Path) : Prop :=
  p.toString.utf8ByteSize < pathByteLimit ∧ ∀ n ∈ p.parts, n.utf8ByteSize ≤ maxNameBytes

theorem Fits.above {front parts : List String} (h : Fits ⟨.root, parts⟩) (hle : front <+: parts) :
    Fits ⟨.root, front⟩ :=
  ⟨Nat.lt_of_le_of_lt (Path.utf8ByteSize_toString_le hle) h.1, fun n hn => h.2 n (hle.subset hn)⟩

theorem short_of_arrived {xs : List String} {m : Location} :
    ∀ here, (∀ n ∈ xs, IsName n) → fs.advance follow here xs = .arrived m →
      ∀ n ∈ xs, n.utf8ByteSize ≤ maxNameBytes := by
  induction xs with
  | nil => exact fun _ _ _ _ hn => by cases hn
  | cons x xs ih =>
    intro here hnames harrived
    have hname := hnames x (by simp)
    by_cases hd : fs.isDirectoryAt here = true
    swap
    · simp [advance, hd] at harrived
    by_cases hlong : x.utf8ByteSize > maxNameBytes
    · simp [advance, hd, hname.2.1, hname.2.2, hlong] at harrived
    have hshort := Nat.le_of_not_lt hlong
    rw [advance_name hd hname hshort] at harrived
    -- the way ends here, or it goes on
    have hrest : xs = [] ∨ fs.advance follow (here ++ [x]) xs = .arrived m := by
      split at harrived
      · split at harrived
        · next hempty => exact .inl (List.isEmpty_iff.1 hempty)
        · cases harrived
      · split at harrived
        · next hempty => exact .inl (List.isEmpty_iff.1 (Bool.and_eq_true_iff.1 hempty).1)
        · cases harrived
      · exact .inr harrived
    refine List.forall_mem_cons.2 ⟨hshort, ?_⟩
    rcases hrest with rfl | hrest
    · exact fun n hn => by cases hn
    · exact ih (here ++ [x]) (fun n hn => hnames n (by simp [hn])) hrest

/-- The system takes a path that leads somewhere below a real directory. -/
theorem fits_of_place {l : Location} {xs : List String} {p : Path} {m : Location}
    (hreal : fs.IsReal l) (habs : p.isAbsolute = true) (hparts : p.parts = l ++ xs)
    (hnames : ∀ n ∈ xs, IsName n) (hlinks : fs.NoLinkOn l xs) (h : fs.place follow p = .ok m) :
    Fits p := by
  obtain ⟨-, hlimit, hwalk⟩ := place_eq_ok_iff.1 h
  have hadvance : fs.advance follow [] (l ++ xs) = fs.advance follow l xs :=
    advance_of_isReal [] (by simpa using hreal)
  rw [origin, if_pos habs, hparts, walk, hadvance] at hwalk
  refine ⟨hlimit, fun n hn => ?_⟩
  rw [hparts] at hn
  rcases List.mem_append.1 hn with hn | hn
  · exact hreal.short n hn
  · rcases advance_straight follow l hnames hlinks with ha | ⟨e, he⟩
    · exact short_of_arrived l hnames ha n hn
    · rw [he] at hwalk
      cases hwalk

/-- The path of a real directory leads to it, unless the path is too long. -/
theorem IsReal.place {p : Path} (hreal : fs.IsReal p.parts) (habs : p.isAbsolute = true)
    (hlimit : p.toString.utf8ByteSize < pathByteLimit) : fs.place follow p = .ok p.parts := by
  have hadvance : fs.advance follow [] (p.parts ++ []) = fs.advance follow ([] ++ p.parts) [] :=
    advance_of_isReal [] hreal
  rw [List.append_nil, List.nil_append] at hadvance
  have horigin : fs.origin p = [] := by
    unfold origin
    rw [if_pos habs]
  refine place_eq_ok_iff.2 ⟨Path.hasNul_of_names hreal.names, hlimit, ?_⟩
  rw [horigin, walk, hadvance, advance]

/-- A name directly in a real directory is found there, unless it is a link to follow. -/
theorem place_in {l : Location} {n : String} {p : Path} (hreal : fs.IsReal l)
    (habs : p.isAbsolute = true) (hparts : p.parts = l ++ [n]) (hname : IsName n)
    (hshort : n.utf8ByteSize ≤ maxNameBytes) (hnul : hasNul p = false)
    (hlimit : p.toString.utf8ByteSize < pathByteLimit)
    (hlink : ∀ target, fs.node? (l ++ [n]) = some (.link target) → follow = false) :
    fs.place follow p = .ok (l ++ [n]) := by
  refine place_eq_ok_iff.2 ⟨hnul, hlimit, ?_⟩
  have horigin : fs.origin p = [] := by
    unfold origin
    rw [if_pos habs]
  have hadvance : fs.advance follow [] (l ++ [n]) = fs.advance follow l [n] :=
    advance_of_isReal [] (by simpa using hreal)
  have harrived : fs.advance follow l [n] = .arrived (l ++ [n]) := by
    rw [advance_name (hreal.directories l (List.prefix_refl l)) hname hshort]
    rcases hnode : fs.node? (l ++ [n]) with _ | ⟨_ | _ | target⟩
    · rfl
    · rfl
    · rfl
    · rw [hlink target hnode]
      rfl
  rw [hparts, horigin]
  unfold walk
  rw [hadvance, harrived]

/-- A name that is too long is found in no directory. -/
theorem place_of_long {l : Location} {n : String} {p : Path} (hreal : fs.IsReal l)
    (habs : p.isAbsolute = true) (hparts : p.parts = l ++ [n]) (hname : IsName n)
    (hlong : maxNameBytes < n.utf8ByteSize) (hnul : hasNul p = false)
    (hlimit : p.toString.utf8ByteSize < pathByteLimit) :
    fs.place follow p = .error (faultAt .nameTooLong p) := by
  rw [place_eq_walk hnul hlimit, origin, if_pos habs, hparts, walk,
    advance_of_isReal [] (by simpa using hreal), advance,
    if_neg (by simp [hreal.directories l (List.prefix_refl l)]), if_neg hname.2.1,
    if_neg hname.2.2, if_pos hlong]
  rfl

theorem place_of_limit {p : Path} (hnul : hasNul p = false)
    (hlimit : ¬ p.toString.utf8ByteSize < pathByteLimit) :
    fs.place follow p = .error (faultAt .nameTooLong p) := by
  unfold place locate
  rw [if_neg (by simp [hnul]), if_pos (Nat.le_of_not_lt hlimit)]

/-! ## Paths with a common directory -/

/-- Walks along the same parts but for the last one go on from one location, or all meet the same
link, or all fail the same way. -/
theorem advance_concat (init : List String) :
    ∀ here, (∃ m, ∀ follow y, fs.advance follow here (init ++ [y]) = fs.advance follow m [y]) ∨
      (∃ m target rest, ∀ follow y,
        fs.advance follow here (init ++ [y]) = .link m target (rest ++ [y])) ∨
      ∃ e, ∀ follow y, fs.advance follow here (init ++ [y]) = .fault e := by
  induction init with
  | nil => intro here; exact .inl ⟨here, fun _ _ => rfl⟩
  | cons part init ih =>
    intro here
    -- a step to another location leaves the rest to the induction
    have hgo : ∀ next, (∀ follow y, fs.advance follow here (part :: init ++ [y]) =
        fs.advance follow next (init ++ [y])) → _ := fun next hstep => by
      have := ih next
      simp only [← hstep] at this
      exact this
    by_cases hd : fs.isDirectoryAt here = true
    · by_cases hdot : part = "."
      · exact hgo here fun follow y => by simp [advance, hd, hdot]
      by_cases hdots : part = ".."
      · exact hgo here.dropLast fun follow y => by simp [advance, hd, hdots]
      by_cases hlong : part.utf8ByteSize > maxNameBytes
      · exact .inr (.inr ⟨.nameTooLong, fun follow y => by simp [advance, hd, hdot, hdots, hlong]⟩)
      rcases hnode : fs.node? (here ++ [part]) with _ | ⟨b, x⟩ | _ | target
      · exact .inr (.inr ⟨.noEntry, fun follow y => by simp [advance, hd, hdot, hdots, hlong, hnode]⟩)
      · exact hgo (here ++ [part]) fun follow y => by simp [advance, hd, hdot, hdots, hlong, hnode]
      · exact hgo (here ++ [part]) fun follow y => by simp [advance, hd, hdot, hdots, hlong, hnode]
      · exact .inr (.inl ⟨here, target, init, fun follow y => by
          simp [advance, hd, hdot, hdots, hlong, hnode]⟩)
    · exact .inr (.inr ⟨.notDirectory, fun follow y => by simp [advance, hd]⟩)

/-- Paths that differ in their last part alone are looked up in one directory, or all fail. -/
theorem walk_concat (links : Nat) :
    ∀ here init, (∃ links' m, fs.isDirectoryAt m = true ∧
        ∀ follow y, fs.walk follow links here (init ++ [y]) = fs.walk follow links' m [y]) ∨
      ∃ e, ∀ follow y, fs.walk follow links here (init ++ [y]) = .error e := by
  -- what the common parts lead to is a directory, or nothing is found there
  have hend : ∀ links here init m,
      (∀ follow y, fs.advance follow here (init ++ [y]) = fs.advance follow m [y]) →
      (∃ links' m', fs.isDirectoryAt m' = true ∧
        ∀ follow y, fs.walk follow links here (init ++ [y]) = fs.walk follow links' m' [y]) ∨
      ∃ e, ∀ follow y, fs.walk follow links here (init ++ [y]) = .error e := by
    intro links here init m hm
    have hwalk : ∀ follow y, fs.walk follow links here (init ++ [y]) = fs.walk follow links m [y] := by
      intro follow y
      rw [walk, walk, hm]
    by_cases hd : fs.isDirectoryAt m = true
    · exact .inl ⟨links, m, hd, hwalk⟩
    · refine .inr ⟨.notDirectory, fun follow y => ?_⟩
      rw [hwalk, walk, advance, if_pos (by simp [hd])]
  induction links with
  | zero =>
    intro here init
    rcases advance_concat init here with ⟨m, hm⟩ | ⟨m, target, rest, hm⟩ | ⟨e, he⟩
    · exact hend 0 here init m hm
    · exact .inr ⟨.linkLoop, fun follow y => by rw [walk, hm]⟩
    · exact .inr ⟨e, fun follow y => by rw [walk, he]⟩
  | succ links ih =>
    intro here init
    rcases advance_concat init here with ⟨m, hm⟩ | ⟨m, target, rest, hm⟩ | ⟨e, he⟩
    · exact hend (links + 1) here init m hm
    · have hstep : ∀ follow y, fs.walk follow (links + 1) here (init ++ [y]) =
          fs.walk follow links (if target.startsWith "/" then [] else m)
            ((linkParts target ++ rest) ++ [y]) := by
        intro follow y
        rw [walk, hm, List.append_assoc]
      simpa only [hstep] using ih (if target.startsWith "/" then [] else m) (linkParts target ++ rest)
    · exact .inr ⟨e, fun follow y => by rw [walk, he]⟩

end CrossBuild.FileSystem
