import CrossBuild.Proofs.FileSystem.Sound
import CrossBuild.Proofs.FileSystem.Unlinked
import Mathlib.Data.List.Perm.Subperm

/-!
# Trails

A walk that leads somewhere leaves a trail: the locations that its parts lead through, where a link is
followed to its end before the parts after it. There is one trail for some parts, so a link is not met
again while it is followed. To resolve a path is to go along its trail, and to give up where a link is
met again: so a path that leads to a directory is resolved to where the directory is.
-/

namespace CrossBuild.FileSystem

variable {fs fs' : FileSystem} {i j k : Nat} {here l m : Location} {parts xs ys : List String}
  {p : Path}

/-- Parts lead from one location to another one through a number of links. -/
inductive Trail (fs : FileSystem) : Nat → Location → List String → Location → Prop
  | done {here : Location} : Trail fs 0 here [] here
  | step {k : Nat} {here l : Location} {part : String} {rest : List String}
      (noLink : part ≠ "." → part ≠ ".." → ∀ target, fs.node? (here ++ [part]) ≠ some (.link target))
      (after : Trail fs k (tread here part) rest l) : Trail fs k here (part :: rest) l
  | link {i j : Nat} {here m l : Location} {part target : String} {rest : List String}
      (dot : part ≠ ".") (dots : part ≠ "..")
      (isLink : fs.node? (here ++ [part]) = some (.link target))
      (inside : Trail fs i (if target.startsWith "/" then [] else here) (linkParts target) m)
      (after : Trail fs j m rest l) : Trail fs (i + j + 1) here (part :: rest) l

/-- There is one trail for some parts. -/
theorem Trail.unique (h : Trail fs i here parts l) (h' : Trail fs j here parts m) :
    i = j ∧ l = m := by
  induction h generalizing j m with
  | done =>
    cases h'
    exact ⟨rfl, rfl⟩
  | step noLink _ ih =>
    cases h' with
    | step _ after => exact ih after
    | link dot dots isLink => exact absurd isLink (noLink dot dots _)
  | link dot dots isLink _ _ ihInside ih =>
    cases h' with
    | step noLink => exact absurd isLink (noLink dot dots _)
    | link _ _ isLink' inside after =>
      obtain rfl := Node.link.inj (Option.some.inj (isLink.symm.trans isLink'))
      obtain ⟨rfl, rfl⟩ := ihInside inside
      obtain ⟨rfl, rfl⟩ := ih after
      exact ⟨rfl, rfl⟩

theorem Trail.split (h : Trail fs k here (xs ++ ys) l) :
    ∃ i j m, i + j = k ∧ Trail fs i here xs m ∧ Trail fs j m ys l := by
  induction xs generalizing here k with
  | nil => exact ⟨0, k, here, Nat.zero_add k, .done, h⟩
  | cons part xs ih =>
    cases h with
    | step noLink after =>
      obtain ⟨i, j, m, hk, hfirst, hsecond⟩ := ih after
      exact ⟨i, j, m, hk, .step noLink hfirst, hsecond⟩
    | @link i₀ _ _ _ _ _ _ _ dot dots isLink inside after =>
      obtain ⟨i, j, m, hk, hfirst, hsecond⟩ := ih after
      exact ⟨i₀ + i + 1, j, m, by omega, .link dot dots isLink inside hfirst, hsecond⟩

/-! ## Walks leave trails -/

/-- Where a directory or a link stands in the one file system, a link stands in the other one exactly
if it does there. -/
def SameLinks (fs fs' : FileSystem) : Prop :=
  ∀ l, fs.guide? l ≠ none → ∀ target, fs'.node? l = some (.link target) ↔ fs.node? l = some (.link target)

theorem SameLinks.refl (fs : FileSystem) : SameLinks fs fs := fun _ _ _ => Iff.rfl

theorem SameLinks.noLink (h : SameLinks fs fs') (hl : fs.isDirectoryAt l = true) (target : String) :
    fs'.node? l ≠ some (.link target) := by
  have hnode := isDirectoryAt_iff.1 hl
  have hguide : fs.guide? l ≠ none := by
    rw [guide?_eq_directory_iff.2 hnode]
    simp
  rw [Ne, h l hguide, hnode]
  simp

theorem trail_of_advance (hsame : SameLinks fs fs') (parts : List String) :
    ∀ here, (∀ l, fs.advance true here parts = .arrived l →
        (∀ target, fs'.node? l ≠ some (.link target)) → Trail fs' 0 here parts l) ∧
      ∀ m target rest, fs.advance true here parts = .link m target rest → ∀ k l,
        Trail fs' k (if target.startsWith "/" then [] else m) (linkParts target ++ rest) l →
          Trail fs' (k + 1) here parts l := by
  induction parts with
  | nil =>
    intro here
    refine ⟨fun l h _ => ?_, fun _ _ _ h => by cases h⟩
    rw [← Progress.arrived.inj h]
    exact .done
  | cons part rest ih =>
    intro here
    -- past no link the advance goes on from the next location
    have hstep : (part ≠ "." → part ≠ ".." →
          ∀ target, fs'.node? (here ++ [part]) ≠ some (.link target)) →
        (∀ l, fs.advance true (tread here part) rest = .arrived l →
            (∀ target, fs'.node? l ≠ some (.link target)) → Trail fs' 0 here (part :: rest) l) ∧
          ∀ m target rest', fs.advance true (tread here part) rest = .link m target rest' → ∀ k l,
            Trail fs' k (if target.startsWith "/" then [] else m) (linkParts target ++ rest') l →
              Trail fs' (k + 1) here (part :: rest) l := fun noLink =>
      ⟨fun l h hl => .step noLink ((ih _).1 l h hl),
        fun m t r h k l ht => .step noLink ((ih _).2 m t r h k l ht)⟩
    rw [advance]
    split
    · exact ⟨fun _ h => (by cases h), fun _ _ _ h => by cases h⟩
    split
    · next hdot => simpa [tread, hdot] using hstep fun dot => absurd hdot dot
    split
    · next hdots => simpa [tread, hdots] using hstep fun _ dots => absurd hdots dots
    split
    · exact ⟨fun _ h => (by cases h), fun _ _ _ h => by cases h⟩
    next hdot hdots _ =>
    have htread : tread here part = here ++ [part] := by
      rw [tread, if_neg hdot, if_neg hdots]
    rw [htread] at hstep
    rcases hnode : fs.node? (here ++ [part]) with _ | ⟨b, x⟩ | _ | target
    · cases rest with
      | nil =>
        refine ⟨fun l h hl => ?_, fun _ _ _ h => by cases h⟩
        obtain rfl := Progress.arrived.inj h
        exact .step (fun _ _ => hl) (htread ▸ .done)
      | cons next rest => exact ⟨fun _ h => (by cases h), fun _ _ _ h => by cases h⟩
    · -- an advance goes no further than a file
      cases rest with
      | nil =>
        refine ⟨fun l h hl => ?_, fun _ _ _ h => by cases h⟩
        obtain rfl := Progress.arrived.inj h
        exact .step (fun _ _ => hl) (htread ▸ .done)
      | cons next rest =>
        have hfile : fs.isDirectoryAt (here ++ [part]) = false := by simp [isDirectoryAt, hnode]
        dsimp only
        rw [advance, if_pos (by simp [hfile])]
        exact ⟨fun _ h => (by cases h), fun _ _ _ h => by cases h⟩
    · exact hstep fun _ _ => hsame.noLink (isDirectoryAt_iff.2 hnode)
    · -- the link is followed to its end first
      simp only [Bool.not_true, Bool.and_false, Bool.false_eq_true, if_false]
      refine ⟨fun _ h => (by cases h), fun m t r h k l ht => ?_⟩
      obtain ⟨rfl, rfl, rfl⟩ := Progress.link.inj h
      obtain ⟨i, j, m, rfl, hinside, hafter⟩ := ht.split
      have hguide := guide?_eq_link_iff.2 hnode
      exact .link hdot hdots ((hsame _ (by simp [hguide]) _).2 hnode) hinside hafter

/-- **A walk** leaves a trail, also where the links are the same, unless there is a link at its end. -/
theorem exists_trail_of_walk (hsame : SameLinks fs fs')
    (hl : ∀ target, fs'.node? l ≠ some (.link target)) {links : Nat} :
    ∀ here parts, fs.walk true links here parts = .ok l → ∃ k, Trail fs' k here parts l := by
  refine walk_induction (P := fun _ here parts => ∃ k, Trail fs' k here parts l)
    (fun links here parts ha => ?_) (fun links here parts m target rest ha ih => ?_)
  · exact ⟨0, (trail_of_advance hsame parts here).1 l ha hl⟩
  · obtain ⟨k, hk⟩ := ih
    exact ⟨k + 1, (trail_of_advance hsame parts here).2 m target rest ha k l hk⟩

/-! ## Resolving goes along a trail -/

/-- Going through the link at a location takes more than a number of links. -/
def Outlasts (fs : FileSystem) (k : Nat) (m : Location) : Prop :=
  ∃ here part target c l, m = here ++ [part] ∧ fs.node? m = some (.link target) ∧
    Trail fs c here [part] l ∧ k < c

theorem Outlasts.mono (h : fs.Outlasts k m) (hi : i ≤ k) : fs.Outlasts i m := by
  obtain ⟨here, part, target, c, l, hm, hlink, htrail, hc⟩ := h
  exact ⟨here, part, target, c, l, hm, hlink, htrail, Nat.lt_of_le_of_lt hi hc⟩

theorem length_le_of_outlasts {pending : List Location} (hnodup : pending.Nodup)
    (hpending : ∀ m ∈ pending, fs.Outlasts k m) : pending.length ≤ fs.nodes.length := by
  have hsub : pending ⊆ fs.nodes.map Prod.fst := by
    intro m hm
    obtain ⟨here, part, target, c, l, rfl, hlink, -, -⟩ := hpending m hm
    exact List.mem_map.2 ⟨_, mem_nodes hlink (by simp), rfl⟩
  simpa using (List.subperm_of_subset hnodup hsub).length_le

/-- **To follow** parts is to go along their trail, while the links that are being followed outlast
it. -/
theorem Trail.follow_eq (h : Trail fs k here parts l) :
    ∀ nesting pending, pending.Nodup → (∀ m ∈ pending, fs.Outlasts k m) →
      nesting + pending.length = fs.nodes.length + 1 →
      fs.follow nesting pending here parts = (true, l) := by
  induction h with
  | done =>
    intro nesting pending _ _ _
    rw [FileSystem.follow]
  | @step _ here _ part rest noLink _ ih =>
    intro nesting pending hnodup hpending hnesting
    have hgo := ih nesting pending hnodup hpending hnesting
    rw [FileSystem.follow]
    rw [tread] at hgo
    split
    · next hdot => rwa [if_pos hdot] at hgo
    split
    · next hdot hdots => rwa [if_neg hdot, if_pos hdots] at hgo
    next hdot hdots =>
    rw [if_neg hdot, if_neg hdots] at hgo
    dsimp only
    split
    · next target hlink => exact absurd hlink (noLink hdot hdots target)
    · exact hgo
  | @link i j here m l part target rest dot dots isLink inside after ihInside ih =>
    intro nesting pending hnodup hpending hnesting
    have hown : Trail fs (i + 0 + 1) here [part] m := .link dot dots isLink inside .done
    have hnew : here ++ [part] ∉ pending := by
      intro hmem
      obtain ⟨here', part', _, c, _, heq, -, htrail, hc⟩ := hpending _ hmem
      obtain ⟨rfl, hpart⟩ := List.append_inj' heq rfl
      obtain rfl := (List.cons.inj hpart).1
      have := (hown.unique htrail).1
      omega
    have hlength := length_le_of_outlasts hnodup hpending
    obtain ⟨n, rfl⟩ : ∃ n, nesting = n + 1 := ⟨nesting - 1, by omega⟩
    have hinside := ihInside n ((here ++ [part]) :: pending) (List.nodup_cons.2 ⟨hnew, hnodup⟩)
      (List.forall_mem_cons.2
        ⟨⟨here, part, target, _, m, rfl, isLink, hown, by omega⟩,
          fun q hq => (hpending q hq).mono (by omega)⟩)
      (by rw [List.length_cons]; omega)
    have hafter := ih (n + 1) pending hnodup (fun q hq => (hpending q hq).mono (by omega)) hnesting
    rw [FileSystem.follow, if_neg dot, if_neg dots]
    dsimp only
    rw [isLink]
    dsimp only
    rw [if_neg hnew, hinside]
    exact hafter

theorem advance_ne_linkLoop (follow : Bool) (parts : List String) :
    ∀ here, fs.advance follow here parts ≠ .fault .linkLoop := by
  induction parts with
  | nil => exact fun here h => by cases h
  | cons part rest ih =>
    intro here h
    rw [advance] at h
    split at h
    · cases h
    split at h
    · exact ih _ h
    split at h
    · exact ih _ h
    split at h
    · cases h
    split at h
    · split at h <;> cases h
    · split at h <;> cases h
    · exact ih _ h

theorem tidy_of_names (h : ∀ n ∈ l, IsName n) : tidy l = l := by
  change l.foldl tread [] = l
  rw [foldl_tread_of_names fun n hn => (h n hn).2, List.nil_append]

/-- What a path leads to is where its trail ends. -/
theorem exists_trail_of_place (hcwd : fs'.workingDirectory = fs.workingDirectory)
    (hsame : SameLinks fs fs') (hl : ∀ target, fs'.node? l ≠ some (.link target))
    (hp : fs.place true p = .ok l) : ∃ k, Trail fs' k (fs'.origin p) p.parts l := by
  obtain ⟨-, -, hwalk⟩ := place_eq_ok_iff.1 hp
  have horigin : fs'.origin p = fs.origin p := by
    unfold origin
    rw [hcwd]
  rw [horigin]
  exact exists_trail_of_walk hsame hl _ _ hwalk

/-- A path whose trail ends at names, with no link on the way down to there, is resolved to there. -/
theorem Trail.resolve_eq (h : Trail fs k (fs.origin p) p.parts l) (hnul : hasNul p = false)
    (hnames : ∀ n ∈ l, IsName n) (hstraight : fs.NoLinkOn [] l) :
    fs.resolve p = .ok (pathOf l) := by
  have hfollow := h.follow_eq (fs.nodes.length + 1) [] List.nodup_nil (fun m hm => by cases hm)
    (by simp)
  unfold resolve
  rw [if_neg (by simp [hnul]), hfollow]
  dsimp only
  rw [tidy_of_names hnames]
  unfold locate
  split_ifs
  · rfl
  · rw [walk]
    rcases advance_straight true [] hnames hstraight with ha | ⟨e, ha⟩
    · have hlocate : fs.advance true (fs.origin (pathOf l)) (pathOf l).parts = .arrived ([] ++ l) := ha
      rw [hlocate]
    · have hlocate : fs.advance true (fs.origin (pathOf l)) (pathOf l).parts = .fault e := ha
      rw [hlocate]
      cases e with
      | linkLoop => exact absurd ha (advance_ne_linkLoop true l [])
      | _ => rfl

section
variable (hcwd : fs'.workingDirectory = fs.workingDirectory) (hsame : SameLinks fs fs') (hs : fs.Sound)
include hsame hs

/-- No link stands above a directory. -/
theorem Sound.noLinkOn (hl : fs.isDirectoryAt l = true) : fs'.NoLinkOn [] l := by
  intro ys _ hys
  rw [List.nil_append]
  exact hsame.noLink (hs.isDirectoryAt_above hl ys hys)

include hcwd

/-- **A path that leads to a directory** is resolved to where the directory is, also where the
directory is yet to be made. -/
theorem resolve_of_place (hp : fs.place true p = .ok l) (hl : fs.isDirectoryAt l = true) :
    fs'.resolve p = .ok (pathOf l) := by
  obtain ⟨k, htrail⟩ := exists_trail_of_place hcwd hsame (hsame.noLink hl) hp
  exact htrail.resolve_eq (hasNul_of_place hp) (hs.names l _ (isDirectoryAt_iff.1 hl))
    (hs.noLinkOn hsame hl)

/-- A path that leads to where a file can be is resolved to there, unless there is a link in the other
file system. -/
theorem resolve_of_place_entry (hp : fs.place true p = .ok l) (hl : fs.IsEntry l)
    (hnoLink : ∀ target, fs'.node? l ≠ some (.link target)) : fs'.resolve p = .ok (pathOf l) := by
  obtain ⟨k, htrail⟩ := exists_trail_of_place hcwd hsame hnoLink hp
  obtain ⟨m, n, rfl, hn, hm⟩ := hl
  refine htrail.resolve_eq (hasNul_of_place hp) (fun part hpart => ?_) fun ys hne hys => ?_
  · rcases List.mem_append.1 hpart with hpart | hpart
    · exact hs.names m _ (isDirectoryAt_iff.1 hm) part hpart
    · rwa [List.mem_singleton.1 hpart]
  · rcases List.prefix_concat_iff.1 hys with rfl | hys
    · exact hnoLink
    · exact hs.noLinkOn hsame hm ys hne hys

/-- **A path with a name at its end** that leads anywhere leads into a directory, and the path above
it is resolved to where that directory is, also where the directory is yet to be made. -/
theorem exists_resolve_of_place_last {anchor : Path.Anchor} {init : List String} {n : String}
    {follow : Bool} (hn : IsName n) (hp : fs.place follow ⟨anchor, init ++ [n]⟩ = .ok l) :
    ∃ m, fs.isDirectoryAt m = true ∧ fs'.resolve ⟨anchor, init⟩ = .ok (pathOf m) ∧
      (l = m ++ [n] ∨ ∃ target, fs.node? (m ++ [n]) = some (.link target)) := by
  obtain ⟨hnul, -, hwalk⟩ := place_eq_ok_iff.1 hp
  rcases walk_concat maxLinks (fs.origin ⟨anchor, init ++ [n]⟩) init with
    ⟨links, m, hm, hlast⟩ | ⟨e, he⟩
  swap
  · rw [he] at hwalk
    cases hwalk
  have hnode := isDirectoryAt_iff.1 hm
  refine ⟨m, hm, ?_, ?_⟩
  · -- a dot after the same parts leads to the directory itself
    have hself : fs.walk true maxLinks (fs.origin ⟨anchor, init ++ [n]⟩) (init ++ ["."]) = .ok m := by
      rw [hlast, walk, advance, if_neg (by simp [hm]), if_pos rfl]
      rfl
    obtain ⟨k, htrail⟩ := exists_trail_of_walk hsame (hsame.noLink hm) _ _ hself
    obtain ⟨i, j, m', -, hfirst, hdot⟩ := htrail.split
    obtain rfl : m' = m := by
      cases hdot with
      | step _ after =>
        cases after
        rfl
      | link dot => exact absurd rfl dot
    have horigin : fs'.origin ⟨anchor, init⟩ = fs.origin ⟨anchor, init ++ [n]⟩ := by
      unfold origin
      rw [hcwd]
      rfl
    rw [← horigin] at hfirst
    refine hfirst.resolve_eq ?_ (hs.names _ _ hnode) (hs.noLinkOn hsame hm)
    by_contra hc
    rw [Bool.not_eq_false, Path.hasNul_iff] at hc
    obtain ⟨part, hpart, hmem⟩ := hc
    rw [(Path.hasNul_iff _).2 ⟨part, List.mem_append_left _ hpart, hmem⟩] at hnul
    cases hnul
  · by_cases hlink : ∃ target, fs.node? (m ++ [n]) = some (.link target)
    · exact .inr hlink
    left
    have hstraight : fs.NoLinkOn m [n] := by
      intro ys hne hys target ht
      rcases List.prefix_cons_iff.1 hys with rfl | ⟨zs, rfl, hzs⟩
      · exact hne rfl
      · rw [List.prefix_nil.1 hzs] at ht
        exact hlink ⟨target, ht⟩
    have hend := hlast follow n
    rw [hwalk, walk] at hend
    rcases advance_straight follow m (by simpa using hn) hstraight with ha | ⟨e, ha⟩
    · rw [ha] at hend
      exact Except.ok.inj hend
    · rw [ha] at hend
      cases hend

end

/-- A path without links on it, to where a file can be, is its own resolution. -/
theorem resolve_self_of_place {n : String} (hs : fs.Sound)
    (hn : IsName n) (hm : fs.isDirectoryAt m = true)
    (hp : fs.place true ⟨.root, m ++ [n]⟩ = .ok (m ++ [n]))
    (hlink : fs.guide? (m ++ [n]) = none ∨ fs.isDirectoryAt (m ++ [n]) = true) :
    fs.resolve ⟨.root, m ++ [n]⟩ = .ok ⟨.root, m ++ [n]⟩ := by
  refine resolve_of_place_entry rfl (.refl fs) hs hp ⟨m, n, rfl, hn, hm⟩ fun target htarget => ?_
  rcases hlink with hspot | hdir
  · rw [guide?_eq_link_iff.2 htarget] at hspot
    cases hspot
  · rw [isDirectoryAt_iff.1 hdir] at htarget
    cases htarget

end CrossBuild.FileSystem
