import CrossBuild.BuildTree
import CrossBuild.Proofs.FileSystem.Listing
import CrossBuild.Proofs.FileSystem.Yard
import CrossBuild.Proofs.Lockstep

/-!
# What is in a source tree

What holds of everything in a tree follows from what was found on disk, and resolving the tree for a
family keeps it as far as it is not about the text of scripts. So a tree that was read from disk
holds only names that can stand in a directory. Writing it is a step for everything in it.
-/

namespace CrossBuild

open FileSystem CrossBuild.Task

theorem of_bind_eq_ok {ε α β : Type} {x : Except ε α} {f : α → Except ε β} {b : β}
    (h : (x >>= f) = .ok b) : ∃ a, x = .ok a ∧ f a = .ok b := by
  cases x with
  | error e => cases h
  | ok a => exact ⟨a, rfl, h⟩

theorem eq_ok_of_toOption {ε α : Type} {x : Except ε α} {a : α} (h : x.toOption = some a) :
    x = .ok a := by
  cases x with
  | error e => cases h
  | ok b => exact congrArg _ (Option.some.inj h)

theorem mapM_eq_self {ε α : Type} {f : α → Except ε α} {l : List α} (h : ∀ a ∈ l, f a = .ok a) :
    l.mapM f = .ok l := by
  induction l with
  | nil => rfl
  | cons a l ih =>
    rw [List.mapM_cons, h a List.mem_cons_self, ih fun b hb => h b (List.mem_cons_of_mem a hb)]
    rfl

theorem mem_of_filterMapM {ε α β : Type} {f : α → Except ε (Option β)} {l : List α} :
    ∀ {r : List β}, l.filterMapM f = .ok r → ∀ b ∈ r, ∃ a ∈ l, f a = .ok (some b) := by
  induction l with
  | nil =>
    intro r h b hb
    rw [List.filterMapM_nil] at h
    rw [← Except.ok.inj h] at hb
    cases hb
  | cons a l ih =>
    intro r h b hb
    rw [List.filterMapM_cons] at h
    obtain ⟨o, ha, hrest⟩ := of_bind_eq_ok h
    cases o with
    | none =>
      obtain ⟨a', hmem, ha'⟩ := ih hrest b hb
      exact ⟨a', List.mem_cons_of_mem a hmem, ha'⟩
    | some c =>
      obtain ⟨cs, hcs, hr⟩ := of_bind_eq_ok hrest
      rw [← Except.ok.inj hr] at hb
      rcases List.mem_cons.1 hb with rfl | hb
      · exact ⟨a, by simp, ha⟩
      · obtain ⟨a', hmem, ha'⟩ := ih hcs b hb
        exact ⟨a', List.mem_cons_of_mem a hmem, ha'⟩

namespace SourceTree

variable {fs : FileSystem} {exclude : List Path} {p : Path} {F : List String → Prop}
  {P Q : List String → String → Entry → Prop} {dirs : List String} {t : SourceTree}

/-! ## What holds of everything in a tree -/

/-- A statement of everything in a tree: of the directories above it, its name and itself. -/
def Every (P : List String → String → Entry → Prop) : List String → SourceTree → Prop
  | _, .nil => True
  | dirs, .script name text rest => P dirs name (.script text) ∧ Every P dirs rest
  | dirs, .asset name source rest => P dirs name (.asset source) ∧ Every P dirs rest
  | dirs, .directory name children rest =>
    P dirs name (.directory children) ∧ Every P (dirs ++ [name]) children ∧ Every P dirs rest

theorem Every.mono (h : Every P dirs t) (hPQ : ∀ dirs name entry, P dirs name entry → Q dirs name entry) :
    Every Q dirs t := by
  induction t generalizing dirs with
  | nil => exact True.intro
  | script name text rest ih => exact ⟨hPQ _ _ _ h.1, ih h.2⟩
  | asset name source rest ih => exact ⟨hPQ _ _ _ h.1, ih h.2⟩
  | directory name children rest ihc ih => exact ⟨hPQ _ _ _ h.1, ihc h.2.1, ih h.2.2⟩

theorem every_ofEntries {entries : List (String × Entry)}
    (h : ∀ e ∈ entries, P dirs e.1 e.2 ∧
      ∀ children, e.2 = .directory children → Every P (dirs ++ [e.1]) children) :
    Every P dirs (ofEntries entries) := by
  induction entries with
  | nil => exact True.intro
  | cons e entries ih =>
    obtain ⟨name, entry⟩ := e
    obtain ⟨hentry, hchildren⟩ := h (name, entry) (by simp)
    have hrest := ih fun e he => h e (by simp [he])
    cases entry with
    | script text => exact ⟨hentry, hrest⟩
    | asset source => exact ⟨hentry, hrest⟩
    | directory children => exact ⟨hentry, hchildren children rfl, hrest⟩

/-! ## Reading -/

/-- What is read at a path. -/
def Found (fs : FileSystem) (p : Path) (name : String) : Entry → Prop
  | .script text => ScriptName.isScript name = true ∧ ∃ s, text = some s ∧ fs.text p = .ok s
  | .asset source => source = some p
  | .directory _ => True

/-- A scan from a path stays on some of the directories below it: it comes from one to those in it
that are not excluded. -/
def Stays (fs : FileSystem) (exclude : List Path) (p : Path) (F : List String → Prop) : Prop :=
  ∀ dirs name r, F dirs → IsName name → fs.isDirectory (p.below (dirs ++ [name])) = .ok true →
    fs.resolve (p.below (dirs ++ [name])) = .ok r → r ∉ exclude → F (dirs ++ [name])

/-- **What a scan finds** it found on disk, in directories on which it stays. -/
theorem every_scanTo (hs : fs.Sound) (hF : Stays fs exclude p F)
    (hP : ∀ dirs name entry, F dirs → IsName name →
      Found fs (p.below (dirs ++ [name])) name entry → P dirs name entry) {depth : Nat} :
    ∀ dirs t, F dirs → scanTo fs exclude depth (p.below dirs) = .ok t → Every P dirs t := by
  induction depth with
  | zero => exact fun dirs t _ h => by cases h
  | succ depth ih =>
    intro dirs t hdirs h
    rw [scanTo] at h
    obtain ⟨found, hfound, h⟩ := of_bind_eq_ok h
    obtain ⟨entries, hentries, h⟩ := of_bind_eq_ok h
    rw [← Except.ok.inj h]
    refine every_ofEntries fun e he => ?_
    obtain ⟨name, hname, hentry⟩ := mem_of_filterMapM hentries e he
    have hisName := hs.isName_of_mem_names hfound name hname
    have hplace := p.below_below dirs [name]
    unfold Path.below at hplace
    dsimp only [Path.below] at hentry
    rw [hplace] at hentry
    obtain ⟨isDirectory, hisDirectory, hentry⟩ := of_bind_eq_ok hentry
    cases isDirectory with
    | true =>
      rw [if_pos rfl] at hentry
      obtain ⟨resolved, hresolved, hentry⟩ := of_bind_eq_ok hentry
      split at hentry
      · cases hentry
      · next hexclude =>
        obtain ⟨children, hchildren, hentry⟩ := of_bind_eq_ok hentry
        cases hentry
        refine ⟨hP _ _ _ hdirs hisName True.intro, fun c hc => ?_⟩
        cases hc
        have hinner := hF _ _ _ hdirs hisName hisDirectory hresolved (by simpa using hexclude)
        exact ih _ _ hinner hchildren
    | false =>
      rw [if_neg (by simp)] at hentry
      split at hentry
      · next hscript =>
        obtain ⟨text, htext, hentry⟩ := of_bind_eq_ok hentry
        cases hentry
        exact ⟨hP _ _ _ hdirs hisName ⟨hscript, text, rfl, htext⟩, fun c hc => by cases hc⟩
      · cases hentry
        exact ⟨hP _ _ _ hdirs hisName rfl, fun c hc => by cases hc⟩

/-! ## Resolving -/

/-- Resolving keeps what holds of everything, whatever the texts of the scripts are and whatever is
in the directories. -/
theorem every_resolveIn {family : OsFamily} {root : SourceTree}
    {outside : Option (String → Except Failure Bool)}
    (hscript : ∀ dirs name text text', P dirs name (.script text) → P dirs name (.script text'))
    (hdirectory : ∀ dirs name c c', P dirs name (.directory c) → P dirs name (.directory c')) :
    ∀ {dirs siblings : List String} {r : Resolution}, Every P dirs t →
      resolveIn family root outside dirs siblings t = .ok r → Every P dirs r.tree := by
  induction t with
  | nil =>
    intro dirs siblings r _ h
    cases h
    exact True.intro
  | script name text rest ih =>
    intro dirs siblings r ht h
    rw [resolveIn] at h
    dsimp only at h
    split at h
    · obtain ⟨⟨text, swaps⟩, -, h⟩ := of_bind_eq_ok h
      obtain ⟨r', hr', h⟩ := of_bind_eq_ok h
      cases h
      exact ⟨hscript _ _ _ _ ht.1, ih ht.2 hr'⟩
    · obtain ⟨r', hr', h⟩ := of_bind_eq_ok h
      rw [← Except.ok.inj h]
      have hrest : Every P dirs r'.tree := ih ht.2 hr'
      exact hrest
  | asset name source rest ih =>
    intro dirs siblings r ht h
    rw [resolveIn] at h
    obtain ⟨r', hr', h⟩ := of_bind_eq_ok h
    cases h
    exact ⟨ht.1, ih ht.2 hr'⟩
  | directory name children rest ihc ih =>
    intro dirs siblings r ht h
    rw [resolveIn] at h
    obtain ⟨inner, hinner, h⟩ := of_bind_eq_ok h
    obtain ⟨r', hr', h⟩ := of_bind_eq_ok h
    cases h
    exact ⟨hdirectory _ _ _ _ ht.1, ihc ht.2.1 hinner, ih ht.2.2 hr'⟩

/-! ## Writing -/

/-- Puts one thing at a path; of a directory, no more than itself. -/
def Entry.putAt (p : Path) : String → Entry → Task FileSystem Unit
  | _, .script text => writeText p (text.getD "")
  | name, .asset none => throw (.assetWithoutSource name)
  | _, .asset (some source) => copyFile source p
  | _, .directory _ => makeDirectories p

/-- Writing a tree respects what is respected by putting each thing in it. -/
theorem respects_writeInto {R : FileSystem → FileSystem → Prop}
    (h : Every (fun dirs name entry => IsName name ∧
      Respects R (entry.putAt (p.below (dirs ++ [name])) name)) dirs t) :
    Respects R (t.writeInto (p.below dirs)) := by
  induction t generalizing dirs with
  | nil => exact respects_pure 0
  | script name text rest ih =>
    obtain ⟨⟨hname, hput⟩, hrest⟩ := h
    rw [writeInto, p.div_below dirs hname]
    exact hput.bind fun _ => (ih hrest).bind fun _ => respects_pure _
  | asset name source rest ih =>
    obtain ⟨⟨hname, hput⟩, hrest⟩ := h
    cases source with
    | none =>
      rw [writeInto]
      exact (respects_throw _).bind fun _ => (ih hrest).bind fun _ => respects_pure _
    | some source =>
      rw [writeInto, p.div_below dirs hname]
      exact hput.bind fun _ => (ih hrest).bind fun _ => respects_pure _
  | directory name children rest ihc ih =>
    obtain ⟨⟨hname, hput⟩, hchildren, hrest⟩ := h
    rw [writeInto, p.div_below dirs hname]
    refine hput.bind fun _ => (ihc hchildren).bind fun count => ?_
    exact (ih hrest).bind fun _ => respects_pure _

/-! ## Named trees -/

/-- All names on the way can stand in a directory. -/
def HasName (dirs : List String) (name : String) (_ : Entry) : Prop :=
  ∀ n ∈ dirs ++ [name], IsName n

/-- All names in the tree can stand in a directory. -/
def Named (t : SourceTree) : Prop :=
  Every HasName [] t

/-- What is read from disk is named. -/
theorem named_scanTo (hs : fs.Sound) {depth : Nat} (h : scanTo fs exclude depth p = .ok t) :
    t.Named := by
  have hnamed : ∀ {dirs : List String} {name}, (∀ n ∈ dirs, IsName n) → IsName name →
      ∀ n ∈ dirs ++ [name], IsName n := by
    intro dirs name hdirs hname n hn
    rcases List.mem_append.1 hn with hn | hn
    · exact hdirs n hn
    · rw [List.mem_singleton.1 hn]
      exact hname
  refine every_scanTo (F := fun dirs => ∀ n ∈ dirs, IsName n) hs ?_ ?_ [] t
    (fun n hn => by cases hn) (by rwa [Path.below_nil])
  · exact fun dirs name r hdirs hname _ _ _ => hnamed hdirs hname
  · exact fun dirs name entry hdirs hname _ => hnamed hdirs hname

end SourceTree

theorem BuildTree.named_resolved {fs : FileSystem} (hs : fs.Sound) {source : Path}
    {family : OsFamily} {exclude : List Path} {r : SourceTree.Resolution}
    (h : resolved fs source family exclude = .ok r) : r.tree.Named := by
  obtain ⟨t, ht, hr⟩ := of_bind_eq_ok h
  exact SourceTree.every_resolveIn (fun _ _ _ _ h => h) (fun _ _ _ _ h => h)
    (SourceTree.named_scanTo hs ht) hr

/-! ## Writing into a yard -/

namespace FileSystem.Yard

variable {y : Yard} {p : Path} {n : String} {xs : List String} {t : SourceTree}

theorem Leads.belowAll (h : y.Leads p n xs) {names : List String} (hnames : ∀ n ∈ names, IsName n) :
    y.Leads (p.below names) n (xs ++ names) where
  absolute := h.absolute
  parts := by
    show p.parts ++ names = _
    rw [h.parts]
    simp
  base := h.base
  names x hx := (List.mem_append.1 hx).elim (h.names x) (hnames x)

theorem minds_writeTree (ht : t.Named) (hp : y.Leads p n xs) : y.Minds (t.write p) := by
  intro fs₀
  refine (minds_makeDirectories hp fs₀).bind fun _ => ?_
  rw [← p.below_nil]
  refine keeps_iff_respects.2 (SourceTree.respects_writeInto (ht.mono fun dirs name entry h => ?_))
  have hleads := hp.belowAll h
  refine ⟨h name (by simp), keeps_iff_respects.1 ?_⟩
  rcases entry with text | source | children
  · exact minds_write hleads (by simp) _ fs₀
  · rcases source with _ | source
    · exact keeps_throw _
    · exact minds_copyFile source hleads (by simp) fs₀
  · exact minds_makeDirectories hleads fs₀

end FileSystem.Yard

end CrossBuild
