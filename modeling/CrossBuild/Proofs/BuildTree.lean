import CrossBuild.Proofs.FileSystem.Agree
import CrossBuild.Proofs.SourceTree
import CrossBuild.Proofs.Workspace

/-!
# What a build tree depends on

A build tree is read from the directories that are scanned, resolved with questions about the paths
that its scripts import, and written with the assets that were found. So file systems that agree in
those directories and answer those questions alike get the same tree.
-/

namespace CrossBuild

open FileSystem Workspace CrossBuild.Task

namespace SourceTree

variable {fs fs' : FileSystem} {exclude : List Path} {V : Location → Prop} {p : Path}
  {F : List String → Prop} {t : SourceTree}

/-! ## Scanning -/

/-- A scan from a path stays in directories of the region, each with all that is directly in it. -/
structure Opens (V : Location → Prop) (p : Path) (F : List String → Prop) : Prop where
  absolute : p.isAbsolute = true
  plain : ∀ dirs, F dirs → ∀ part ∈ p.parts ++ dirs, part ≠ "." ∧ part ≠ ".."
  inside : ∀ dirs, F dirs → ∀ n, V (p.parts ++ dirs ++ [n])

theorem Opens.child (ho : Opens V p F) {dirs : List String} (hdirs : F dirs) {name : String}
    (hname : IsName name) : Inside V (p.below (dirs ++ [name])) where
  absolute := ho.absolute
  plain part hpart := by
    rw [Path.below, ← List.append_assoc] at hpart
    rcases List.mem_append.1 hpart with hpart | hpart
    · exact ho.plain dirs hdirs part hpart
    · rw [List.mem_singleton.1 hpart]
      exact hname.2
  inside := by
    rw [Path.below, ← List.append_assoc]
    exact ho.inside dirs hdirs name

theorem filterMapM_congr {ε α β : Type} {f g : α → Except ε (Option β)} {l : List α}
    (h : ∀ a ∈ l, f a = g a) : l.filterMapM f = l.filterMapM g := by
  induction l with
  | nil => rfl
  | cons a l ih =>
    rw [List.filterMapM_cons, List.filterMapM_cons, h a List.mem_cons_self,
      ih fun b hb => h b (List.mem_cons_of_mem a hb)]

/-- **Scans agree** if all that lies in the directories they read is in the region. -/
theorem scanTo_congr (hV : ∀ {l m}, V l → m <+: l → V m) (h : Agree V fs fs') (hs : fs.Sound)
    (hF : Stays fs exclude p F) (ho : Opens V p F) {depth : Nat} :
    ∀ dirs, F dirs → scanTo fs' exclude depth (p.below dirs) = scanTo fs exclude depth (p.below dirs) := by
  induction depth with
  | zero => exact fun _ _ => rfl
  | succ depth ih =>
    intro dirs hdirs
    have hnames : fs'.names (p.below dirs) = fs.names (p.below dirs) := by
      have hplain := ho.plain dirs hdirs
      refine h.names (along_of_plain hV ho.absolute hplain ?_) fun n => ?_
      · exact hV (ho.inside dirs hdirs "") (List.prefix_append _ _)
      · rw [tread_of_isAbsolute (p := p.below dirs) ho.absolute hplain]
        exact ho.inside dirs hdirs n
    rw [scanTo, scanTo, hnames]
    rcases hfound : fs.names (p.below dirs) with f | found
    · rfl
    refine congrArg (· >>= fun entries => .ok (ofEntries entries)) (filterMapM_congr fun name hname => ?_)
    have hisName := hs.isName_of_mem_names hfound name hname
    have hchild : Along V fs (p.below (dirs ++ [name])) := (ho.child hdirs hisName).along hV
    have hplace := p.below_below dirs [name]
    unfold Path.below at hplace
    dsimp only [Path.below]
    rw [hplace]
    have hdirectory : fs'.isDirectory (p.below (dirs ++ [name])) = fs.isDirectory (p.below (dirs ++ [name])) :=
      h.test hchild true _
    rw [← Path.below, hdirectory, h.text hchild, h.resolve]
    rcases hisDirectory : fs.isDirectory (p.below (dirs ++ [name])) with f | isDirectory
    · simp only [bind, Except.bind]
    cases isDirectory with
    | false => simp only [bind, Except.bind, Bool.false_eq_true, if_false]
    | true =>
      rcases hresolved : fs.resolve (p.below (dirs ++ [name])) with f | r
      · simp only [bind, Except.bind, if_true]
      by_cases hexclude : r ∈ exclude
      · simp [bind, Except.bind, hexclude]
      · have hinner : F (dirs ++ [name]) := hF dirs name r hdirs hisName hisDirectory hresolved hexclude
        simp only [bind, Except.bind, if_true, ih _ hinner]

/-! ## Resolving -/

/-- The path that a script below some directories asks for when it imports a text. -/
def wanted (dirs : List String) (imported : List Char) : String :=
  String.ofList (Lexical.shorten (Lexical.joinAll (dirs ++ [String.ofList imported])))

theorem rebindPieces_congr {family : List Char} {present present' : String → Except Failure Bool}
    {pieces : List Import.Piece}
    (h : ∀ s, .statement s ∈ pieces →
      present' (String.ofList (s.specific family)) = present (String.ofList (s.specific family))) :
    Import.rebindPieces family present' pieces = Import.rebindPieces family present pieces := by
  induction pieces with
  | nil => rfl
  | cons piece pieces ih =>
    have hrest := ih fun s hs => h s (List.mem_cons_of_mem _ hs)
    cases piece with
    | plain c => rw [Import.rebindPieces, Import.rebindPieces, hrest]
    | statement s =>
      rw [Import.rebindPieces, Import.rebindPieces, hrest]
      dsimp only
      rw [h s List.mem_cons_self]

/-- **Resolutions agree** if the same answer is given about every path that a script may ask for. -/
theorem resolveIn_congr {family : OsFamily} {root : SourceTree}
    {present present' : String → Except Failure Bool} {P : List String → String → Entry → Prop}
    (hP : ∀ dirs name text s, P dirs name (.script text) →
      .statement s ∈ Import.pieces (text.getD "").toList →
      present' (wanted dirs (s.specific family.word.toList)) =
        present (wanted dirs (s.specific family.word.toList))) :
    ∀ {dirs siblings : List String}, Every P dirs t →
      resolveIn family root (some present') dirs siblings t =
        resolveIn family root (some present) dirs siblings t := by
  induction t with
  | nil => exact fun _ => rfl
  | script name text rest ih =>
    intro dirs siblings ht
    have hrebind : Import.rebind family.word (importFound root (some present') dirs) (text.getD "") =
        Import.rebind family.word (importFound root (some present) dirs) (text.getD "") := by
      unfold Import.rebind
      rw [rebindPieces_congr fun s hs => ?_]
      have hsame := hP _ _ _ s ht.1 hs
      unfold wanted at hsame
      unfold importFound
      dsimp only
      rw [hsame]
    rw [resolveIn, resolveIn, ih ht.2, hrebind]
  | asset name source rest ih =>
    intro dirs siblings ht
    rw [resolveIn, resolveIn, ih ht.2]
  | directory name children rest ihc ih =>
    intro dirs siblings ht
    rw [resolveIn, resolveIn, ihc ht.2.1, ih ht.2.2]

end SourceTree

/-! ## Building -/

namespace BuildTree

open SourceTree

variable {R : Workspace → Workspace → Prop} {source target : Path} {family : OsFamily}
  {exclude : List Path}

/-- Building a tree respects what its steps respect. -/
theorem respects_build (hreport : ∀ message, Respects R (info message))
    (hdirectory : Respects R (look (·.isDirectory source)))
    (hpresent : Respects R (look (·.isPresent target)))
    (hremove : Respects R (liftM (removeTree target)))
    (hskip : Respects R (look fun fs => (exclude ++ [target]).mapM fs.resolve))
    {P : List Path → Prop}
    (hskipped : ∀ w w' skip, R w w' → (exclude ++ [target]).mapM w.files.resolve = .ok skip → P skip)
    (hresolved : ∀ skip, P skip → Respects R (look fun fs => resolved fs source family skip))
    (hwrite : ∀ w w' skip r, R w w' → P skip → resolved w.files source family skip = .ok r →
      Respects R (liftM (r.tree.write target))) :
    Respects R (build source target family exclude) := by
  unfold build
  refine hdirectory.bind fun isDirectory => Respects.when (respects_throw _) ?_
  refine hpresent.bind fun isPresent => Respects.when hremove ?_
  refine hskip.bind_of (P := P) hskipped fun skip hP => ?_
  refine (hresolved skip hP).bind_of
    (P := fun r => Respects R (liftM (r.tree.write target) : Task Workspace Nat)) ?_ fun r hr => ?_
  · exact fun w w' r hw hr => hwrite w w' skip r hw hP hr
  · refine hr.bind fun _ => Respects.bind ?_ fun _ => respects_pure r
    exact respects_forIn fun s _ _ => (hreport _).bind fun _ => respects_pure _

/-- What is so once the target is emptied is so when the tree is made, if writing the tree that is read
then keeps it. -/
theorem meets_build {begun emptied : Workspace → Prop} {failed : Failure → Workspace → Prop}
    {P : List Path → Prop} (hbegun : ∀ f w, begun w → failed f w)
    (hemptied : ∀ f w, emptied w → failed f w) (hreport : ∀ message, Keeps emptied (info message))
    (hremove : ∀ w fs, begun w → (removeTree target).runOn w.files = (.ok (), fs) →
      emptied { w with files := fs })
    (hremain : ∀ w fs f, begun w → (removeTree target).runOn w.files = (.error f, fs) →
      failed f { w with files := fs })
    (hgone : ∀ w, begun w → w.files.isPresent target = .ok false → emptied w)
    (hskip : ∀ w skip, emptied w → (exclude ++ [target]).mapM w.files.resolve = .ok skip → P skip)
    (hwrite : ∀ w skip r, emptied w → P skip → resolved w.files source family skip = .ok r →
      Keeps emptied (liftM (r.tree.write target))) :
    Meets begun (build source target family exclude) (fun _ => emptied) failed := by
  have hpresent : Meets begun (look (·.isPresent target))
      (fun b w => w.files.isPresent target = .ok b ∧ begun w) failed :=
    Meets.ask (fun _ _ hw hb => ⟨hb, hw⟩) fun f w hw _ => hbegun f w hw
  have hskipped : Meets emptied (look fun fs => (exclude ++ [target]).mapM fs.resolve)
      (fun skip w => P skip ∧ emptied w) failed :=
    Meets.ask (fun skip w hw hs => ⟨hskip w skip hw hs, hw⟩) fun f w hw _ => hemptied f w hw
  have hresolved : ∀ skip, P skip → Meets emptied (look fun fs => resolved fs source family skip)
      (fun r w => Keeps emptied (liftM (r.tree.write target)) ∧ emptied w) failed := fun skip hP =>
    Meets.ask (fun r w hw hr => ⟨hwrite w skip r hw hP hr, hw⟩) fun f w hw _ => hemptied f w hw
  have hremoved : ∀ b, Meets (fun w => w.files.isPresent target = .ok b ∧ begun w)
      (liftM (removeTree target)) (fun _ => emptied) failed := by
    rintro b w ⟨-, hw⟩
    rw [Workspace.runOn_liftM]
    rcases hrun : (removeTree target).runOn w.files with ⟨f | u, fs⟩
    · exact hremain w fs f hw hrun
    · exact hremove w fs hw hrun
  unfold build
  refine ((keeps_look _).meets hbegun).bind fun isDirectory => ?_
  refine Meets.when (fun _ => (keeps_throw _).meets hbegun) (fun _ _ hw => hw) ?_
  refine hpresent.bind fun isPresent => ?_
  refine Meets.when (fun _ => hremoved isPresent) (fun hgone' w hw => ?_) ?_
  · rw [Bool.not_eq_true] at hgone'
    exact hgone w hw.2 (hgone' ▸ hw.1)
  refine hskipped.bind fun skip => Meets.assuming fun hP => ?_
  refine (hresolved skip hP).bind fun r => Meets.assuming fun hkeeps => ?_
  refine (hkeeps.meets hemptied).bind fun _ => Keeps.meets ?_ hemptied
  refine Keeps.bind (keeps_forIn fun w _ _ => ?_) fun _ => keeps_pure r
  exact (hreport _).bind fun _ => keeps_pure _

end BuildTree

end CrossBuild
