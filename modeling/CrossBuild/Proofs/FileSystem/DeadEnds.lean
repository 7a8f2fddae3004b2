import CrossBuild.Proofs.FileSystem.Siblings
import CrossBuild.Proofs.FileSystem.Trail

/-!
# Links to files

A walk goes on only in directories, so a link that leads to a file is the end of every walk that
takes it: a path that leads anywhere and is looked up through such a link leads to the file, or to
the link itself where the last link is not followed.
-/

namespace CrossBuild.FileSystem

variable {fs : FileSystem} {follow : Bool} {i j k links : Nat} {here l m z : Location}
  {xs ys : List String} {y target : String}

theorem Trail.append (h : Trail fs i here xs m) (h' : Trail fs j m ys l) :
    Trail fs (i + j) here (xs ++ ys) l := by
  induction h with
  | done => rwa [Nat.zero_add]
  | step noLink _ ih => exact .step noLink (ih h')
  | @link i₀ j₀ _ _ _ _ _ _ dot dots isLink inside _ _ ih =>
    have hk : i₀ + j₀ + 1 + j = i₀ + (j₀ + j) + 1 := by omega
    rw [hk]
    exact .link dot dots isLink inside (ih h')

/-- Where the parts in front lead to, an advance stands in a directory, unless it fails before or
meets a link whose target and the parts after it lead there. -/
theorem advance_onwards (ys : List String) (h : Trail fs k here xs z) :
    fs.isDirectoryAt z = true ∨ (∃ e, fs.advance follow here (xs ++ y :: ys) = .fault e) ∨
      ∃ m target rest j, fs.advance follow here (xs ++ y :: ys) = .link m target (rest ++ y :: ys) ∧
        Trail fs j (if target.startsWith "/" then [] else m) (linkParts target ++ rest) z := by
  induction h with
  | @done here =>
    by_cases hd : fs.isDirectoryAt here = true
    · exact .inl hd
    · exact .inr (.inl ⟨.notDirectory, by simp [advance, hd]⟩)
  | @step _ here _ part rest noLink _ ih =>
    rw [List.cons_append, advance]
    rw [tread] at ih
    split
    · exact .inr (.inl ⟨_, rfl⟩)
    split
    · next hdot => rwa [if_pos hdot] at ih
    split
    · next hdot hdots => rwa [if_neg hdot, if_pos hdots] at ih
    split
    · exact .inr (.inl ⟨_, rfl⟩)
    next hdot hdots _ =>
    rw [if_neg hdot, if_neg hdots] at ih
    rcases hnode : fs.node? (here ++ [part]) with _ | ⟨b, x⟩ | _ | target
    · exact .inr (.inl ⟨.noEntry, by simp⟩)
    · exact ih
    · exact ih
    · exact absurd hnode (noLink hdot hdots target)
  | @link i j here _ _ part target rest dot dots isLink inside after _ _ =>
    rw [List.cons_append, advance]
    split
    · exact .inr (.inl ⟨_, rfl⟩)
    split
    · exact .inr (.inl ⟨_, rfl⟩)
    refine .inr (.inr ⟨here, target, rest, _, ?_, inside.append after⟩)
    rw [isLink]
    simp

/-- **A walk goes on in directories**: where parts before others lead to, there is a directory. -/
theorem isDirectoryAt_of_onwards (ys : List String) : ∀ k here xs, Trail fs k here xs z →
    fs.walk follow links here (xs ++ y :: ys) = .ok l → fs.isDirectoryAt z = true := by
  induction links with
  | zero =>
    intro k here xs htrail h
    rw [walk] at h
    rcases advance_onwards ys htrail with hd | ⟨e, he⟩ | ⟨m, target, rest, j, ha, -⟩
    · exact hd
    · rw [he] at h
      cases h
    · rw [ha] at h
      cases h
  | succ links ih =>
    intro k here xs htrail h
    rw [walk] at h
    rcases advance_onwards ys htrail with hd | ⟨e, he⟩ | ⟨m, target, rest, j, ha, hrest⟩
    · exact hd
    · rw [he] at h
      cases h
    · rw [ha] at h
      dsimp only at h
      rw [← List.append_assoc] at h
      exact ih j _ _ hrest h

/-- A link that an advance looks at is where it ends, or it takes it. -/
theorem advance_at_link (hl : fs.node? l = some (.link target)) (parts : List String) :
    ∀ here, l ∈ fs.advanceWay here parts →
      (∃ e, fs.advance follow here parts = .fault e) ∨ fs.advance follow here parts = .arrived l ∨
        ∃ m part rest, l = m ++ [part] ∧ fs.advance follow here parts = .link m target rest ∧
          (rest = [] → follow = true) := by
  induction parts with
  | nil => intro here h; cases h
  | cons part rest ih =>
    intro here h
    rw [advanceWay] at h
    rw [advance]
    by_cases hd : fs.isDirectoryAt here = true
    swap
    · exact .inl ⟨.notDirectory, by simp [hd]⟩
    have hne : l ≠ here := by
      rintro rfl
      rw [isDirectoryAt_iff, hl] at hd
      cases hd
    rw [if_neg (by simp [hd])] at h ⊢
    replace h := (List.mem_cons.1 h).resolve_left hne
    by_cases hdot : part = "."
    · rw [if_pos hdot] at h ⊢
      exact ih here h
    rw [if_neg hdot] at h ⊢
    by_cases hdots : part = ".."
    · rw [if_pos hdots] at h ⊢
      exact ih _ h
    rw [if_neg hdots] at h ⊢
    by_cases hlong : part.utf8ByteSize > maxNameBytes
    · rw [if_pos hlong] at h
      cases h
    rw [if_neg hlong] at h ⊢
    rcases hnode : fs.node? (here ++ [part]) with _ | ⟨b, x⟩ | _ | t <;> rw [hnode] at h
    · rw [List.mem_singleton.1 h, hnode] at hl
      cases hl
    · rw [List.mem_singleton.1 h, hnode] at hl
      cases hl
    · rcases List.mem_cons.1 h with rfl | h
      · rw [hnode] at hl
        cases hl
      · exact ih _ h
    · obtain rfl := List.mem_singleton.1 h
      obtain rfl := Node.link.inj (Option.some.inj (hnode.symm.trans hl))
      dsimp only
      split
      · exact .inr (.inl rfl)
      · next hcond =>
        refine .inr (.inr ⟨here, part, rest, rfl, rfl, fun hrest => ?_⟩)
        subst hrest
        simpa using hcond

/-- Walks that arrive arrive at one location, however many links they may take. -/
theorem walk_unique : ∀ (i j : Nat) (here : Location) (parts : List String),
    fs.walk follow i here parts = .ok l → fs.walk follow j here parts = .ok m → l = m := by
  intro i
  induction i with
  | zero =>
    intro j here parts h h'
    rw [walk] at h h'
    rcases ha : fs.advance follow here parts with z | ⟨d, target, rest⟩ | e <;> rw [ha] at h h'
    · exact (Except.ok.inj h).symm.trans (Except.ok.inj h')
    · cases h
    · cases h
  | succ i ih =>
    intro j here parts h h'
    rw [walk] at h h'
    rcases ha : fs.advance follow here parts with z | ⟨d, target, rest⟩ | e <;> rw [ha] at h h'
    · exact (Except.ok.inj h).symm.trans (Except.ok.inj h')
    · cases j with
      | zero => cases h'
      | succ j => exact ih j _ _ h h'
    · cases h

/-- **A link to a file is a dead end**: a walk that looks at it and arrives somewhere arrives at the
file, or at the link. -/
theorem eq_of_mem_walkWay {d x : Location} {n : String}
    (hlink : fs.node? (d ++ [n]) = some (.link target))
    (hends : fs.walk true k (if target.startsWith "/" then [] else d) (linkParts target) = .ok x)
    (hfile : fs.IsFileAt x) : ∀ here parts, fs.walk follow links here parts = .ok m →
      d ++ [n] ∈ fs.walkWay follow links here parts → m = x ∨ m = d ++ [n] := by
  obtain ⟨b, x', hnode⟩ := hfile
  have hfileLink : ∀ t, fs.node? x ≠ some (.link t) := by
    intro t ht
    rw [hnode] at ht
    cases ht
  obtain ⟨j, htrail⟩ := exists_trail_of_walk (.refl fs) hfileLink _ _ hends
  -- past the link no part can follow, since what it leads to is no directory
  have htaken : ∀ links rest, (rest = [] → follow = true) → fs.walk follow links
      (if target.startsWith "/" then [] else d) (linkParts target ++ rest) = .ok m → m = x := by
    intro links rest hrest h
    cases rest with
    | nil =>
      rw [List.append_nil, hrest rfl] at h
      exact walk_unique _ _ _ _ h hends
    | cons y ys =>
      have hd := isDirectoryAt_of_onwards ys _ _ _ htrail h
      rw [isDirectoryAt_iff, hnode] at hd
      cases hd
  intro here parts h
  refine (walk_induction (P := fun links here parts => fs.walk follow links here parts = .ok m ∧
      (d ++ [n] ∈ fs.walkWay follow links here parts → m = x ∨ m = d ++ [n]))
    (fun links here parts ha => ?_) (fun links here parts d' t rest ha ih => ?_) here parts h).2
  · refine ⟨by rw [walk, ha], fun hmem => ?_⟩
    rw [walkWay, ha, List.append_nil] at hmem
    rcases advance_at_link hlink parts here hmem with
      ⟨e, he⟩ | harrived | ⟨d', part, rest, -, htake, -⟩
    · cases ha.symm.trans he
    · exact .inr (Progress.arrived.inj (ha.symm.trans harrived))
    · cases ha.symm.trans htake
  · refine ⟨by rw [walk, ha]; exact ih.1, fun hmem => ?_⟩
    rw [walkWay, ha, List.mem_append] at hmem
    rcases hmem with hmem | hmem
    · rcases advance_at_link hlink parts here hmem with
        ⟨e, he⟩ | harrived | ⟨d'', part, rest', heq, htake, hrest⟩
      · cases ha.symm.trans he
      · cases ha.symm.trans harrived
      · obtain ⟨rfl, rfl, rfl⟩ := Progress.link.inj (ha.symm.trans htake)
        obtain ⟨rfl, -⟩ := List.append_inj' heq rfl
        exact .inl (htaken links _ hrest ih.1)
    · exact ih.2 hmem

/-! ## Paths with a name at the end -/

section
variable {fs' : FileSystem} {anchor : Path.Anchor} {init : List String} {n n' : String}

theorem walk_name_iff (hm : fs.isDirectoryAt m = true) (hdot : n ≠ ".") (hdots : n ≠ "..") :
    fs.walk false links m [n] = .ok l ↔ n.utf8ByteSize ≤ maxNameBytes ∧ l = m ++ [n] := by
  rw [walk, advance, if_neg (by simp [hm]), if_neg hdot, if_neg hdots]
  by_cases hlong : n.utf8ByteSize > maxNameBytes
  · rw [if_pos hlong]
    simp [Nat.not_le.2 hlong]
  · have hend : ∀ z : Location, (Except.ok z : Except Errno Location) = .ok l ↔
        n.utf8ByteSize ≤ maxNameBytes ∧ l = z := fun z =>
      ⟨fun h => ⟨Nat.le_of_not_lt hlong, (Except.ok.inj h).symm⟩, fun h => by rw [h.2]⟩
    rw [if_neg hlong]
    rcases fs.node? (m ++ [n]) with _ | ⟨_ | _ | _⟩ <;> exact hend (m ++ [n])

/-- A path that leads to a file, or to nothing, does not end in dots. -/
theorem Sound.ne_dots_of_spot (hs : fs.Sound) (h : fs.place follow ⟨anchor, init ++ [n]⟩ = .ok l)
    (hl : fs.IsSpot l) : n ≠ "." ∧ n ≠ ".." := by
  have hdots : ¬ (n = "." ∨ n = "..") := by
    intro hn
    have hdirectory := isDirectoryAt_iff.1 (hs.isDirectoryAt_of_dots hn h)
    rw [IsSpot, guide?_eq_directory_iff.2 hdirectory] at hl
    cases hl
  exact not_or.1 hdots

/-- A path with a name at its end that leads anywhere leads through a directory, where the name
stands or is missing. -/
theorem place_last (hdot : n ≠ ".") (hdots : n ≠ "..")
    (h : fs.place follow ⟨anchor, init ++ [n]⟩ = .ok l) :
    ∃ links d, fs.isDirectoryAt d = true ∧ fs.place false ⟨anchor, init ++ [n]⟩ = .ok (d ++ [n]) ∧
      ∀ follow y, fs.walk follow maxLinks (fs.origin ⟨anchor, init ++ [n]⟩) (init ++ [y]) =
        fs.walk follow links d [y] := by
  obtain ⟨hnul, hlimit, hwalk⟩ := place_eq_ok_iff.1 h
  rcases walk_concat maxLinks (fs.origin ⟨anchor, init ++ [n]⟩) init with
    ⟨links, d, hd, hlast⟩ | ⟨e, he⟩
  · refine ⟨links, d, hd, place_eq_ok_iff.2 ⟨hnul, hlimit, ?_⟩, hlast⟩
    rw [hlast] at hwalk ⊢
    refine (walk_name_iff hd hdot hdots).2 ⟨Nat.le_of_not_lt fun hlong => ?_, rfl⟩
    rw [walk, advance, if_neg (by simp [hd]), if_neg hdot, if_neg hdots, if_pos hlong] at hwalk
    cases hwalk
  · rw [he] at hwalk
    cases hwalk

/-- Two file systems that agree on a name in a directory agree on its neighbours. -/
theorem place_neighbour (hdot : n ≠ ".") (hdots : n ≠ "..") (hdot' : n' ≠ ".") (hdots' : n' ≠ "..")
    (h : fs.place false ⟨anchor, init ++ [n]⟩ = .ok l)
    (h' : fs'.place false ⟨anchor, init ++ [n]⟩ = .ok l)
    (hb : fs.place false ⟨anchor, init ++ [n']⟩ = .ok m) :
    fs'.place false ⟨anchor, init ++ [n']⟩ = .ok m := by
  obtain ⟨links, d, hd, hplace, hlast⟩ := place_last hdot hdots h
  obtain ⟨links', d', hd', hplace', hlast'⟩ := place_last hdot hdots h'
  obtain ⟨hnul, hlimit, hwalk⟩ := place_eq_ok_iff.1 hb
  have hsame : d' = d := by
    have := hplace'.symm.trans (h'.trans (h.symm.trans hplace))
    exact (List.append_inj' (Except.ok.inj this) rfl).1
  subst hsame
  have hname : fs.walk false links d' [n'] = .ok m := (hlast false n').symm.trans hwalk
  refine place_eq_ok_iff.2 ⟨hnul, hlimit, (hlast' false n').trans ?_⟩
  exact (walk_name_iff hd' hdot' hdots').2 ((walk_name_iff hd hdot' hdots').1 hname)

/-- A path that is looked up through a link to a file and leads anywhere leads to the file, or to
the link. -/
theorem eq_of_mem_way {x : Location} {r : Path} (hdot : n ≠ ".") (hdots : n ≠ "..")
    (hlink : fs.node? m = some (.link target))
    (hm : fs.place false ⟨anchor, init ++ [n]⟩ = .ok m)
    (hx : fs.place true ⟨anchor, init ++ [n]⟩ = .ok x) (hfile : fs.IsFileAt x)
    (hr : fs.place follow r = .ok l) (hmem : m ∈ fs.way follow r) : l = x ∨ l = m := by
  obtain ⟨links, d, hd, hplace, hlast⟩ := place_last hdot hdots hm
  obtain rfl : m = d ++ [n] := Except.ok.inj (hm.symm.trans hplace)
  obtain ⟨-, -, hwalk⟩ := place_eq_ok_iff.1 hx
  obtain ⟨-, -, hname⟩ := place_eq_ok_iff.1 hm
  have hlong := ((walk_name_iff hd hdot hdots).1 ((hlast false n).symm.trans hname)).1
  -- the last link of the path to the link is taken
  have htake : fs.advance true d [n] = .link d target [] := by
    rw [advance, if_neg (by simp [hd]), if_neg hdot, if_neg hdots, if_neg (Nat.not_lt.2 hlong),
      hlink]
    rfl
  have hwalk' := (hlast true n).symm.trans hwalk
  rw [walk, htake] at hwalk'
  obtain ⟨-, -, hr⟩ := place_eq_ok_iff.1 hr
  cases links with
  | zero => cases hwalk'
  | succ links =>
    dsimp only at hwalk'
    rw [List.append_nil] at hwalk'
    exact eq_of_mem_walkWay hlink hwalk' hfile _ _ hr hmem

end

end CrossBuild.FileSystem
