import CrossBuild.Proofs.FileSystem.Gains
import CrossBuild.Proofs.Outcome
import CrossBuild.Proofs.SourceTree
import CrossBuild.Proofs.SourceTree.Resolved

/-!
# What a written tree leaves

Writing a tree into a directory where none of its names stands adds what the tree holds, each thing
where its way of names leads, and nothing else.
-/

namespace CrossBuild

open FileSystem CrossBuild.Task

variable {fs fs₁ fs' : FileSystem} {p q : Path} {l : Location} {b : Bytes}

/-! ## New files -/

namespace FileSystem

theorem runOn_write_ok (h : (write p b).runOn fs = (.ok (), fs'))
    (hnone : ∀ l, fs.place true p = .ok l → fs.node? l = none) :
    ∃ l, fs.place true p = .ok l ∧ fs' = fs.put l (.file b false) := by
  unfold write at h
  rw [runOn_change] at h
  rcases hp : fs.place true p with f | l <;> rw [hp] at h
  · cases h
  · dsimp only at h
    rw [hnone l hp] at h
    exact ⟨l, rfl, (Prod.mk.inj h).2.symm⟩

theorem runOn_copyFile_ok (h : (copyFile q p).runOn fs = (.ok (), fs'))
    (hnone : ∀ l, fs.place true p = .ok l → fs.node? l = none) :
    ∃ b l, fs.content q = .ok b ∧ fs.place true p = .ok l ∧ fs' = fs.put l (.file b false) := by
  unfold copyFile at h
  obtain ⟨same, fs₁, hsame, h⟩ := Outcome.task.of_bind h
  obtain ⟨-, rfl⟩ := Prod.mk.inj hsame
  split at h
  · cases h
  obtain ⟨b, fs₂, hcontent, h⟩ := Outcome.task.of_bind h
  obtain ⟨hb, rfl⟩ := Prod.mk.inj hcontent
  obtain ⟨l, hl, hput⟩ := runOn_write_ok h hnone
  exact ⟨b, l, hb, hl, hput⟩

end FileSystem

namespace SourceTree

variable {t rest c : SourceTree} {name : String} {entry : Entry} {dirs way : List String}

/-! ## What a tree leaves -/

/-- What is written for a thing in a tree. -/
def Held (fs : FileSystem) (l : Location) : Entry → Prop
  | .script text => fs.node? l = some (.file (.ofString (text.getD "")) false)
  | .asset source => ∃ src b, source = some src ∧ fs.content src = .ok b ∧
      fs.node? l = some (.file b false)
  | .directory _ => fs.node? l = some .directory

theorem Held.mono (h : Held fs l entry) (hgains : Gains fs fs') : Held fs' l entry := by
  cases entry with
  | script text => exact hgains.kept _ _ h
  | asset source =>
    obtain ⟨src, b, hsource, hcontent, hnode⟩ := h
    exact ⟨src, b, hsource, hgains.content hcontent, hgains.kept _ _ hnode⟩
  | directory _ => exact hgains.kept _ _ h

/-- A tree is added to a directory: what it holds, and nothing else. -/
structure Adds (fs fs' : FileSystem) (l : Location) (t : SourceTree) : Prop where
  sound : fs'.Sound
  gains : Gains fs fs'
  holds : ∀ way entry, way ≠ [] → t.get? way = some entry → Held fs' (l ++ way) entry
  others : ∀ m, fs'.node? m = fs.node? m ∨ ∃ way, way ≠ [] ∧ t.get? way ≠ none ∧ m = l ++ way

theorem mem_names_of_get? {n : String} (h : t.get? (n :: way) ≠ none) : n ∈ t.names := by
  obtain ⟨entry, hentry⟩ := Option.ne_none_iff_exists'.1 h
  obtain ⟨first, hfirst⟩ := exists_child?_of_get? hentry
  exact mem_names_of_child? hfirst

theorem adds_nil (hs : fs.Sound) : Adds fs fs l .nil where
  sound := hs
  gains := .refl fs
  holds way entry hne hentry := by
    cases way with
    | nil => exact absurd rfl hne
    | cons n way =>
      have := mem_names_of_get? (by rw [hentry]; exact Option.some_ne_none entry)
      cases this
  others _ := .inl rfl

theorem child?_cons (n : String) :
    (cons name entry rest).child? n = if name = n then some entry else rest.child? n := by
  cases entry <;> rfl

/-- What the first addition leaves free is free for the second one. -/
theorem Adds.free (h : Adds fs fs₁ l (cons name entry .nil)) (hname : name ∉ rest.names)
    (hfree : ∀ n ∈ rest.names, fs.node? (l ++ [n]) = none) :
    ∀ n ∈ rest.names, fs₁.node? (l ++ [n]) = none := by
  intro n hn
  rcases h.others (l ++ [n]) with hsame | ⟨way, -, hget, heq⟩
  · rw [hsame, hfree n hn]
  · rw [← List.append_cancel_left heq, get?_singleton, child?_cons] at hget
    split at hget
    · next hsame => exact absurd (hsame ▸ hn) hname
    · exact absurd rfl hget

/-- Things that are added one after another make up a tree. -/
theorem Adds.append (h : Adds fs fs₁ l (cons name entry .nil)) (h' : Adds fs₁ fs' l rest)
    (hname : name ∉ rest.names) : Adds fs fs' l (cons name entry rest) := by
  have hfirst : ∀ way, (cons name entry rest).get? (name :: way) =
      (cons name entry .nil).get? (name :: way) :=
    get?_cons_congr (by rw [child?_cons, child?_cons, if_pos rfl, if_pos rfl])
  have hother : ∀ n, name ≠ n → ∀ way, (cons name entry rest).get? (n :: way) = rest.get? (n :: way) :=
    fun n hn => get?_cons_congr (by rw [child?_cons, if_neg hn])
  refine ⟨h'.sound, h.gains.trans h'.gains, fun way found hne hfound => ?_, fun m => ?_⟩
  · cases way with
    | nil => exact absurd rfl hne
    | cons n way =>
      by_cases hn : name = n
      · subst hn
        exact (h.holds _ _ hne (hfirst way ▸ hfound)).mono h'.gains
      · exact h'.holds _ _ hne (hother n hn way ▸ hfound)
  · rcases h'.others m with hsame | ⟨way, hne, hget, hm⟩
    · rw [hsame]
      refine (h.others m).imp_right ?_
      rintro ⟨way, hne, hget, hm⟩
      cases way with
      | nil => exact absurd rfl hne
      | cons n way =>
        have hn := mem_names_of_get? hget
        obtain rfl : n = name := by
          rw [names_eq_map_entries, entries_cons] at hn
          simpa [entries] using hn
        exact ⟨_, hne, by rwa [hfirst], hm⟩
    · cases way with
      | nil => exact absurd rfl hne
      | cons n way =>
        have hn : name ≠ n := fun heq => hname (heq ▸ mem_names_of_get? hget)
        exact .inr ⟨_, hne, by rwa [hother n hn], hm⟩

/-- What is written after the first thing of a tree only has to add to a directory where the names of
the others are free. -/
theorem Adds.append_of_free (h : Adds fs fs₁ l (cons name entry .nil)) (hname : name ∉ rest.names)
    (hfree : ∀ n ∈ name :: rest.names, fs.node? (l ++ [n]) = none)
    (hrest : (∀ n ∈ rest.names, fs₁.node? (l ++ [n]) = none) → Adds fs₁ fs' l rest) :
    Adds fs fs' l (cons name entry rest) :=
  h.append (hrest (h.free hname fun n hn => hfree n (List.mem_cons_of_mem name hn))) hname

/-- **The files** below a directory that was empty are those of the tree that was added. -/
theorem Adds.isFileAt_iff (h : Adds fs fs' l t) (hdir : fs.isDirectoryAt l = true)
    (hempty : ∀ way, way ≠ [] → fs.node? (l ++ way) = none) :
    fs'.IsFileAt (l ++ way) ↔ ∃ entry, t.get? way = some entry ∧ entry.isFile = true := by
  by_cases hway : way = []
  · subst hway
    rw [get?_nil, List.append_nil]
    constructor
    · have hnode := h.gains.kept _ _ (isDirectoryAt_iff.1 hdir)
      exact fun hfile => absurd hfile (not_isFileAt_of_node hnode (by simp))
    · rintro ⟨entry, hentry, hfile⟩
      rw [← Option.some.inj hentry] at hfile
      cases hfile
  constructor
  · rintro ⟨b, x, hnode⟩
    rcases h.others (l ++ way) with hsame | ⟨way', -, hget, heq⟩
    · rw [hsame, hempty way hway] at hnode
      cases hnode
    · obtain rfl := List.append_cancel_left heq
      obtain ⟨entry, hentry⟩ := Option.ne_none_iff_exists'.1 hget
      refine ⟨entry, hentry, ?_⟩
      have hheld := h.holds way entry hway hentry
      cases entry with
      | directory c =>
        rw [Held, hnode] at hheld
        cases hheld
      | script text => rfl
      | asset source => rfl
  · rintro ⟨entry, hentry, hfile⟩
    have hheld := h.holds way entry hway hentry
    cases entry with
    | directory c => cases hfile
    | script text => exact ⟨_, _, hheld⟩
    | asset source =>
      obtain ⟨_, b, _, _, hnode⟩ := hheld
      exact ⟨b, false, hnode⟩

/-! ## Single things -/

/-- A new file is added by itself. -/
theorem adds_file (hs : fs.Sound) (hdir : fs.isDirectoryAt l = true) (hname : IsName name)
    (hnone : fs.node? (l ++ [name]) = none) (hfile : entry.isFile = true)
    (hheld : Held (fs.put (l ++ [name]) (.file b false)) (l ++ [name]) entry) :
    Adds fs (fs.put (l ++ [name]) (.file b false)) l (cons name entry .nil) := by
  have hne : l ++ [name] ≠ [] := by simp
  have hfree : fs.isDirectoryAt (l ++ [name]) = false := by simp [isDirectoryAt, hnone]
  refine ⟨hs.put ⟨l, name, rfl, hname, hdir⟩ (.inr hfree) (by simp), .put hne hnone _,
    fun way found hway hfound => ?_, fun m => ?_⟩
  · cases way with
    | nil => exact absurd rfl hway
    | cons n way =>
      obtain ⟨first, hfirst⟩ := exists_child?_of_get? hfound
      rw [child?_cons] at hfirst
      split at hfirst
      · next hn =>
        subst hn
        cases way with
        | nil =>
          rw [get?_singleton, child?_cons, if_pos rfl] at hfound
          rwa [← Option.some.inj hfound]
        | cons m way =>
          -- nothing is below a file
          cases entry with
          | directory c => cases hfile
          | script text => simp [get?, child?_cons] at hfound
          | asset source => simp [get?, child?_cons] at hfound
      · cases hfirst
  · rw [node?_put fs hne]
    split
    · next heq =>
      refine .inr ⟨[name], by simp, ?_, heq.symm⟩
      rw [get?_singleton, child?_cons, if_pos rfl]
      exact Option.some_ne_none entry
    · exact .inl rfl

/-- A new directory is added with what is added to it. -/
theorem adds_directory (hs : fs.Sound) (hdir : fs.isDirectoryAt l = true)
    (hmade : MakesWay q fs fs₁ (l ++ [name])) (h : Adds fs₁ fs' (l ++ [name]) c) :
    Adds fs fs' l (cons name (.directory c) .nil) := by
  have hget : ∀ way, (cons name (.directory c) .nil).get? (name :: way) = c.get? way :=
    get?_cons_of_directory (by rw [child?_cons, if_pos rfl])
  refine ⟨h.sound, hmade.gains.trans h.gains, fun way found hway hfound => ?_, fun m => ?_⟩
  · cases way with
    | nil => exact absurd rfl hway
    | cons n way =>
      obtain ⟨first, hfirst⟩ := exists_child?_of_get? hfound
      rw [child?_cons] at hfirst
      split at hfirst
      · next hn =>
        subst hn
        rw [hget] at hfound
        cases way with
        | nil =>
          rw [get?_nil] at hfound
          rw [← Option.some.inj hfound]
          exact h.gains.kept _ _ (isDirectoryAt_iff.1 hmade.directory)
        | cons m way =>
          have := h.holds _ _ (by simp) hfound
          rwa [List.append_assoc] at this
      · cases hfirst
  · rcases h.others m with hsame | ⟨way, -, hway, rfl⟩
    · rcases hmade.others m with hsame' | ⟨hm, hnode⟩
      · exact .inl (hsame.trans hsame')
      · rcases List.prefix_concat_iff.1 hm with rfl | hm
        · exact .inr ⟨[name], by simp, by rw [hget, get?_nil]; simp, rfl⟩
        · -- what is above was there before
          have habove := hs.isDirectoryAt_above hdir m hm
          exact .inl (by rw [hsame, hnode, isDirectoryAt_iff.1 habove])
    · exact .inr ⟨name :: way, by simp, by rwa [hget], by simp⟩

/-! ## Writing -/

/-- A path leads to a directory, and can be gone on from to create what lies below. -/
structure Room (fs : FileSystem) (p : Path) (l : Location) : Prop where
  sound : fs.Sound
  parts : ∀ part ∈ p.parts, IsPart part ∧ part ≠ ".."
  place : fs.place true p = .ok l
  directory : fs.isDirectoryAt l = true

namespace Room

theorem gains (h : Room fs p l) (hgains : Gains fs fs') (hs : fs'.Sound) : Room fs' p l where
  sound := hs
  parts := h.parts
  place := hgains.place_of_node h.place (isDirectoryAt_iff.1 h.directory)
  directory := hgains.isDirectoryAt h.directory

theorem place_child (h : Room fs p l) (hn : IsName name)
    (hlink : ∀ target, fs.node? (l ++ [name]) ≠ some (.link target)) {m : Location}
    (hm : fs.place true (p.below [name]) = .ok m) : m = l ++ [name] := by
  rcases FileSystem.place_child h.directory h.place hn fun t ht => absurd ht (hlink t) with
    hplace | herror
  · exact Except.ok.inj (hm.symm.trans hplace)
  · rw [hm] at herror
    cases herror

/-- Creating a directory in the directory. -/
theorem makeDirectories (h : Room fs p l) (hn : IsName name) (hnone : fs.node? (l ++ [name]) = none)
    (hrun : (makeDirectories (p / name)).runOn fs = (.ok (), fs₁)) :
    MakesWay (p.below [name]) fs fs₁ (l ++ [name]) ∧ Room fs₁ (p.below [name]) (l ++ [name]) := by
  rw [p.div_name hn] at hrun
  have hparts : ∀ part ∈ (p.below [name]).parts, IsPart part ∧ part ≠ ".." := by
    intro part hpart
    rcases List.mem_append.1 hpart with hpart | hpart
    · exact h.parts part hpart
    · rw [List.mem_singleton.1 hpart]
      exact ⟨hn.isPart, hn.2.2⟩
  obtain ⟨m, hm⟩ := makesWay_of_makeDirectories h.sound
    (fun hnil => absurd hnil (by simp [Path.below])) hparts hrun
  obtain rfl : m = l ++ [name] := by
    refine (h.gains hm.gains hm.sound).place_child hn (fun target ht => ?_) hm.place
    rcases hm.others (l ++ [name]) with hsame | ⟨-, hdir⟩
    · rw [hsame, hnone] at ht
      cases ht
    · rw [hdir] at ht
      cases ht
  exact ⟨hm, hm.sound, hparts, hm.place, hm.directory⟩

theorem runOn_writeText_ok (h : Room fs p l) (hn : IsName name) (hnone : fs.node? (l ++ [name]) = none)
    {text : String} (hrun : (writeText (p / name) text).runOn fs = (.ok (), fs₁)) :
    fs.place true (p.below [name]) = .ok (l ++ [name]) ∧
      fs₁ = fs.put (l ++ [name]) (.file (.ofString text) false) := by
  rw [p.div_name hn] at hrun
  have hplace : ∀ m, fs.place true (p.below [name]) = .ok m → m = l ++ [name] :=
    fun _ => h.place_child hn (by simp [hnone])
  obtain ⟨m, hm, rfl⟩ := runOn_write_ok hrun fun m hm => hplace m hm ▸ hnone
  obtain rfl := hplace m hm
  exact ⟨hm, rfl⟩

theorem runOn_copyFile_ok (h : Room fs p l) (hn : IsName name) (hnone : fs.node? (l ++ [name]) = none)
    (hrun : (copyFile q (p / name)).runOn fs = (.ok (), fs₁)) :
    ∃ b, fs.content q = .ok b ∧ fs.place true (p.below [name]) = .ok (l ++ [name]) ∧
      fs₁ = fs.put (l ++ [name]) (.file b false) := by
  rw [p.div_name hn] at hrun
  have hplace : ∀ m, fs.place true (p.below [name]) = .ok m → m = l ++ [name] :=
    fun _ => h.place_child hn (by simp [hnone])
  obtain ⟨b, m, hb, hm, rfl⟩ := FileSystem.runOn_copyFile_ok hrun fun m hm => hplace m hm ▸ hnone
  obtain rfl := hplace m hm
  exact ⟨b, hb, hm, rfl⟩

/-- Writing a script into the directory. -/
theorem adds_script (h : Room fs p l) (hn : IsName name) (hnone : fs.node? (l ++ [name]) = none)
    {text : Option String} (hrun : (writeText (p / name) (text.getD "")).runOn fs = (.ok (), fs₁)) :
    Adds fs fs₁ l (cons name (.script text) .nil) := by
  obtain ⟨-, rfl⟩ := h.runOn_writeText_ok hn hnone hrun
  refine adds_file h.sound h.directory hn hnone rfl ?_
  exact (node?_put fs (by simp) _ _).trans (if_pos rfl)

/-- Copying an asset into the directory. -/
theorem adds_asset (h : Room fs p l) (hn : IsName name) (hnone : fs.node? (l ++ [name]) = none)
    (hrun : (copyFile q (p / name)).runOn fs = (.ok (), fs₁)) :
    Adds fs fs₁ l (cons name (.asset (some q)) .nil) := by
  obtain ⟨b, hb, -, rfl⟩ := h.runOn_copyFile_ok hn hnone hrun
  refine adds_file h.sound h.directory hn hnone rfl ⟨q, b, rfl, ?_, ?_⟩
  · exact (Gains.put (by simp) hnone _).content hb
  · exact (node?_put fs (by simp) _ _).trans (if_pos rfl)

/-- Creating a directory in the directory, and adding to it. -/
theorem adds_directory (h : Room fs p l) (hn : IsName name) (hnone : fs.node? (l ++ [name]) = none)
    (hmake : (FileSystem.makeDirectories (p / name)).runOn fs = (.ok (), fs₁))
    (hinside : Room fs₁ (p.below [name]) (l ++ [name]) →
      (∀ n, fs₁.node? (l ++ [name] ++ [n]) = none) → Adds fs₁ fs' (l ++ [name]) c) :
    Adds fs fs' l (cons name (.directory c) .nil) := by
  obtain ⟨hmade, hroom⟩ := h.makeDirectories hn hnone hmake
  exact SourceTree.adds_directory h.sound h.directory hmade
    (hinside hroom fun n => hmade.empty h.sound hnone (List.cons_ne_nil n []))

end Room

/-- **Writing a tree** adds it to a directory where none of its names stands. -/
theorem adds_of_writeInto {k : Nat} (hroom : Room fs p l)
    (hnames : Every (fun _ name _ => IsName name) dirs t) (ht : t.Distinct)
    (hfree : ∀ n ∈ t.names, fs.node? (l ++ [n]) = none)
    (h : (writeInto p t).runOn fs = (.ok k, fs')) : Adds fs fs' l t := by
  induction t generalizing p l dirs fs fs' k with
  | nil =>
    obtain ⟨-, rfl⟩ := Prod.mk.inj h
    exact adds_nil hroom.sound
  | script name text rest ih =>
    obtain ⟨⟨⟩, fs₁, hwrite, h⟩ := Outcome.task.of_bind h
    obtain ⟨k', fs₂, hrest, h⟩ := Outcome.task.of_bind h
    obtain ⟨-, rfl⟩ := Prod.mk.inj h
    have hfirst := hroom.adds_script hnames.1 (hfree name List.mem_cons_self) hwrite
    refine hfirst.append_of_free ht.1 hfree fun hfree' => ?_
    exact ih (hroom.gains hfirst.gains hfirst.sound) hnames.2 ht.2 hfree' hrest
  | asset name source rest ih =>
    cases source with
    | none => cases h
    | some q =>
      obtain ⟨⟨⟩, fs₁, hcopy, h⟩ := Outcome.task.of_bind h
      obtain ⟨k', fs₂, hrest, h⟩ := Outcome.task.of_bind h
      obtain ⟨-, rfl⟩ := Prod.mk.inj h
      have hfirst := hroom.adds_asset hnames.1 (hfree name List.mem_cons_self) hcopy
      refine hfirst.append_of_free ht.1 hfree fun hfree' => ?_
      exact ih (hroom.gains hfirst.gains hfirst.sound) hnames.2 ht.2 hfree' hrest
  | directory name children rest ihc ih =>
    obtain ⟨⟨⟩, fs₀, hmake, h⟩ := Outcome.task.of_bind h
    obtain ⟨k₀, fs₁, hchildren, h⟩ := Outcome.task.of_bind h
    obtain ⟨k', fs₂, hrest, h⟩ := Outcome.task.of_bind h
    obtain ⟨-, rfl⟩ := Prod.mk.inj h
    rw [p.div_name hnames.1] at hchildren
    have hfirst := hroom.adds_directory hnames.1 (hfree name List.mem_cons_self) hmake fun hinside hempty =>
      ihc hinside hnames.2.1 ht.2.1 (fun n _ => hempty n) hchildren
    refine hfirst.append_of_free ht.1 hfree fun hfree' => ?_
    exact ih (hroom.gains hfirst.gains hfirst.sound) hnames.2.2 ht.2.2 hfree' hrest

/-- A file is written when its path leads to where it goes. -/
theorem exists_place_of_writeInto {k : Nat} {n : String} (hroom : Room fs p l)
    (hnames : Every (fun _ name _ => IsName name) dirs t) (ht : t.Distinct)
    (hfree : ∀ n ∈ t.names, fs.node? (l ++ [n]) = none)
    (h : (writeInto p t).runOn fs = (.ok k, fs')) (hn : t.child? n = some entry)
    (hfile : entry.isFile = true) :
    ∃ fs₁, Gains fs₁ fs' ∧ fs₁.place true (p.below [n]) = .ok (l ++ [n]) := by
  induction t generalizing fs k with
  | nil => cases hn
  | script name text rest ih =>
    have hgains := (adds_of_writeInto hroom hnames ht hfree h).gains
    obtain ⟨⟨⟩, fs₁, hwrite, h⟩ := Outcome.task.of_bind h
    obtain ⟨k', fs₂, hrest, h⟩ := Outcome.task.of_bind h
    obtain ⟨-, rfl⟩ := Prod.mk.inj h
    have hnone := hfree name List.mem_cons_self
    rw [child?_script] at hn
    split at hn
    · next hname =>
      subst hname
      exact ⟨fs, hgains, (hroom.runOn_writeText_ok hnames.1 hnone hwrite).1⟩
    · have hfirst := hroom.adds_script hnames.1 hnone hwrite
      exact ih (hroom.gains hfirst.gains hfirst.sound) hnames.2 ht.2
        (hfirst.free ht.1 fun m hm => hfree m (List.mem_cons_of_mem name hm)) hrest hn
  | asset name source rest ih =>
    cases source with
    | none => cases h
    | some q =>
      have hgains := (adds_of_writeInto hroom hnames ht hfree h).gains
      obtain ⟨⟨⟩, fs₁, hcopy, h⟩ := Outcome.task.of_bind h
      obtain ⟨k', fs₂, hrest, h⟩ := Outcome.task.of_bind h
      obtain ⟨-, rfl⟩ := Prod.mk.inj h
      have hnone := hfree name List.mem_cons_self
      rw [child?_asset] at hn
      split at hn
      · next hname =>
        subst hname
        obtain ⟨-, -, hplace, -⟩ := hroom.runOn_copyFile_ok hnames.1 hnone hcopy
        exact ⟨fs, hgains, hplace⟩
      · have hfirst := hroom.adds_asset hnames.1 hnone hcopy
        exact ih (hroom.gains hfirst.gains hfirst.sound) hnames.2 ht.2
          (hfirst.free ht.1 fun m hm => hfree m (List.mem_cons_of_mem name hm)) hrest hn
  | directory name children rest _ ih =>
    obtain ⟨⟨⟩, fs₀, hmake, h⟩ := Outcome.task.of_bind h
    obtain ⟨k₀, fs₁, hchildren, h⟩ := Outcome.task.of_bind h
    obtain ⟨k', fs₂, hrest, h⟩ := Outcome.task.of_bind h
    obtain ⟨-, rfl⟩ := Prod.mk.inj h
    rw [child?_directory] at hn
    split at hn
    · cases hn
      cases hfile
    · rw [p.div_name hnames.1] at hchildren
      have hfirst := hroom.adds_directory hnames.1 (hfree name List.mem_cons_self) hmake fun hinside hempty =>
        adds_of_writeInto hinside hnames.2.1 ht.2.1 (fun n _ => hempty n) hchildren
      exact ih (hroom.gains hfirst.gains hfirst.sound) hnames.2.2 ht.2.2
        (hfirst.free ht.1 fun m hm => hfree m (List.mem_cons_of_mem name hm)) hrest hn

/-- A file that was written is found at its path. -/
theorem place_of_writeInto {k : Nat} {n : String} (hroom : Room fs p l)
    (hnames : Every (fun _ name _ => IsName name) dirs t) (ht : t.Distinct)
    (hfree : ∀ n ∈ t.names, fs.node? (l ++ [n]) = none)
    (h : (writeInto p t).runOn fs = (.ok k, fs')) (hn : t.child? n = some entry)
    (hfile : entry.isFile = true) : fs'.place true (p.below [n]) = .ok (l ++ [n]) := by
  obtain ⟨fs₁, hgains, hplace⟩ := exists_place_of_writeInto hroom hnames ht hfree h hn hfile
  have hheld := (adds_of_writeInto hroom hnames ht hfree h).holds [n] entry (by simp)
    (get?_singleton.trans hn)
  refine hgains.place hplace fun _ target hlink => ?_
  cases entry with
  | directory c => cases hfile
  | script text => cases hheld.symm.trans hlink
  | asset source =>
    obtain ⟨_, _, _, _, hnode⟩ := hheld
    cases hnode.symm.trans hlink

end SourceTree

end CrossBuild
