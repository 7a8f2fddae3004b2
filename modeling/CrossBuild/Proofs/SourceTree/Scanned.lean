import CrossBuild.Proofs.SourceTree
import CrossBuild.Proofs.SourceTree.Resolved

/-!
# What a scanned tree holds

What stands under a name of a scanned tree was read at the path of that name. So names stand once in
their directories, and a file is a script exactly if its name told so.
-/

namespace CrossBuild

open FileSystem

/-- What is found for a key among the pairs that were made for keys is what was made for it. -/
theorem valueOf?_of_filterMapM {ε α β : Type} [DecidableEq α] {f : α → Except ε (Option (α × β))}
    {M : α → Option β → Prop}
    (hmade : ∀ a o, f a = .ok o → M a (o.map Prod.snd) ∧ ∀ e ∈ o, e.1 = a)
    {keys : List α} (hkeys : keys.Nodup) :
    ∀ {pairs : List (α × β)}, keys.filterMapM f = .ok pairs →
      (pairs.map Prod.fst).Sublist keys ∧ ∀ a ∈ keys, M a (valueOf? a pairs) := by
  induction keys with
  | nil =>
    intro pairs h
    rw [List.filterMapM_nil] at h
    rw [← Except.ok.inj h]
    exact ⟨List.Sublist.refl _, fun a ha => by cases ha⟩
  | cons key keys ih =>
    intro pairs h
    rw [List.filterMapM_cons] at h
    obtain ⟨o, hfirst, h⟩ := of_bind_eq_ok h
    obtain ⟨hkey, hown⟩ := hmade key o hfirst
    obtain ⟨hnotin, hnodup⟩ := List.nodup_cons.1 hkeys
    cases o with
    | none =>
      obtain ⟨hsublist, hvalues⟩ := ih hnodup h
      have hnone : valueOf? key pairs = none := by
        rcases hvalue : valueOf? key pairs with _ | value
        · rfl
        · have hmem := List.mem_map_of_mem (f := Prod.fst) (mem_of_valueOf? hvalue)
          exact absurd (hsublist.subset hmem) hnotin
      exact ⟨hsublist.cons key, List.forall_mem_cons.2 ⟨hnone ▸ hkey, hvalues⟩⟩
    | some e =>
      obtain ⟨pairs', hrest, hpairs⟩ := of_bind_eq_ok h
      obtain rfl := hown e rfl
      obtain ⟨hsublist, hvalues⟩ := ih hnodup hrest
      rw [← Except.ok.inj hpairs]
      refine ⟨hsublist.cons_cons _, List.forall_mem_cons.2 ⟨?_, fun a ha => ?_⟩⟩
      · rw [valueOf?, if_pos rfl]
        exact hkey
      · rw [valueOf?, if_neg (fun heq : e.1 = a => hnotin (heq ▸ ha))]
        exact hvalues a ha

namespace SourceTree

variable {fs : FileSystem} {exclude : List Path} {depth : Nat} {p : Path} {t c d : SourceTree}
  {n name : String} {dirs path : List String} {entry : Entry}

theorem child?_ofEntries (entries : List (String × Entry)) :
    (ofEntries entries).child? n = valueOf? n entries := by
  rw [child?, entries_ofEntries]

theorem names_ofEntries (entries : List (String × Entry)) :
    (ofEntries entries).names = entries.map Prod.fst := by
  rw [names_eq_map_entries, entries_ofEntries]

/-! ## What holds of everything in a tree -/

theorem Every.of_child? {P : List String → String → Entry → Prop} (h : Every P dirs t)
    (hn : t.child? n = some entry) :
    P dirs n entry ∧ ∀ c, entry = .directory c → Every P (dirs ++ [n]) c := by
  induction t with
  | nil => cases hn
  | script name text rest ih =>
    rw [child?_script] at hn
    split at hn
    · next hname =>
      subst hname
      cases hn
      exact ⟨h.1, fun c hc => by cases hc⟩
    · exact ih h.2 hn
  | asset name source rest ih =>
    rw [child?_asset] at hn
    split at hn
    · next hname =>
      subst hname
      cases hn
      exact ⟨h.1, fun c hc => by cases hc⟩
    · exact ih h.2 hn
  | directory name children rest _ ih =>
    rw [child?_directory] at hn
    split at hn
    · next hname =>
      subst hname
      cases hn
      exact ⟨h.1, fun c hc => Entry.directory.inj hc ▸ h.2.1⟩
    · exact ih h.2.2 hn

/-- What holds of all names in a tree holds of the names on a way in it. -/
theorem Every.of_get? {P : String → Prop} (h : Every (fun _ name _ => P name) dirs t)
    (hget : t.get? path = some entry) : ∀ n ∈ path, P n := by
  induction path generalizing dirs t with
  | nil => exact fun n hn => by cases hn
  | cons m path ih =>
    obtain ⟨first, hfirst⟩ := exists_child?_of_get? hget
    obtain ⟨hm, hchildren⟩ := h.of_child? hfirst
    refine List.forall_mem_cons.2 ⟨hm, ?_⟩
    cases first with
    | directory c =>
      rw [get?_cons_of_directory hfirst] at hget
      exact ih (hchildren c rfl) hget
    | script _ | asset _ =>
      cases path with
      | nil => exact fun n hn => by cases hn
      | cons _ _ => simp [get?, hfirst] at hget

/-! ## Reading -/

/-- What is read under a name in a directory, and what an excluded directory is to a scan. -/
inductive Reads (fs : FileSystem) (exclude : List Path) (depth : Nat) (p : Path) (name : String) :
    Option Entry → Prop
  | skipped {resolved : Path} (isDirectory : fs.isDirectory (p.below [name]) = .ok true)
      (resolves : fs.resolve (p.below [name]) = .ok resolved) (excluded : resolved ∈ exclude) :
      Reads fs exclude depth p name none
  | directory {resolved : Path} {c : SourceTree}
      (isDirectory : fs.isDirectory (p.below [name]) = .ok true)
      (resolves : fs.resolve (p.below [name]) = .ok resolved) (included : resolved ∉ exclude)
      (scan : scanTo fs exclude depth (p.below [name]) = .ok c) :
      Reads fs exclude depth p name (some (.directory c))
  | script {text : String} (isDirectory : fs.isDirectory (p.below [name]) = .ok false)
      (isScript : ScriptName.isScript name = true) (read : fs.text (p.below [name]) = .ok text) :
      Reads fs exclude depth p name (some (.script (some text)))
  | asset (isDirectory : fs.isDirectory (p.below [name]) = .ok false)
      (isScript : ScriptName.isScript name = false) :
      Reads fs exclude depth p name (some (.asset (some (p.below [name]))))

/-- **A scan** reads what is under each of the names in the directory. -/
theorem reads_of_scanTo (h : scanTo fs exclude (depth + 1) p = .ok t) :
    ∃ found, fs.names p = .ok found ∧ t.names.Sublist found ∧
      ∀ name ∈ found, Reads fs exclude depth p name (t.child? name) := by
  rw [scanTo] at h
  obtain ⟨found, hfound, h⟩ := of_bind_eq_ok h
  obtain ⟨entries, hentries, h⟩ := of_bind_eq_ok h
  have hnodup : found.Nodup := by
    obtain ⟨l, -, rfl⟩ := names_eq_ok_iff.1 hfound
    exact fs.nodup_childNames l
  refine ⟨found, hfound, ?_⟩
  simp only [← Except.ok.inj h, names_ofEntries, child?_ofEntries]
  refine valueOf?_of_filterMapM (M := Reads fs exclude depth p) (fun name o ho => ?_) hnodup hentries
  obtain ⟨isDirectory, hisDirectory, ho⟩ := of_bind_eq_ok ho
  cases isDirectory with
  | true =>
    rw [if_pos rfl] at ho
    obtain ⟨resolved, hresolved, ho⟩ := of_bind_eq_ok ho
    split at ho
    · next hexclude =>
      cases ho
      exact ⟨.skipped hisDirectory hresolved (by simpa using hexclude), fun e he => by cases he⟩
    · next hexclude =>
      obtain ⟨c, hc, ho⟩ := of_bind_eq_ok ho
      cases ho
      exact ⟨.directory hisDirectory hresolved (by simpa using hexclude) hc,
        fun e he => by cases he; rfl⟩
  | false =>
    rw [if_neg (by simp)] at ho
    split at ho
    · next hscript =>
      obtain ⟨text, htext, ho⟩ := of_bind_eq_ok ho
      cases ho
      exact ⟨.script hisDirectory hscript htext, fun e he => by cases he; rfl⟩
    · next hscript =>
      cases ho
      exact ⟨.asset hisDirectory (by simpa using hscript), fun e he => by cases he; rfl⟩

/-- What stands under a name of a scanned tree was read there. -/
theorem reads_of_child? (h : scanTo fs exclude (depth + 1) p = .ok t)
    (hn : t.child? n = some entry) : Reads fs exclude depth p n (some entry) := by
  obtain ⟨found, -, hsublist, hreads⟩ := reads_of_scanTo h
  exact hn ▸ hreads n (hsublist.subset (mem_names_of_child? hn))

/-- A directory of a scanned tree is the scan of the directory at its path. -/
theorem scanTo_of_get? (h : scanTo fs exclude depth p = .ok t)
    (hd : t.get? path = some (.directory d)) :
    ∃ depth', scanTo fs exclude (depth' + 1) (p.below path) = .ok d := by
  induction path generalizing depth p t with
  | nil =>
    rw [get?_nil] at hd
    cases hd
    cases depth with
    | zero => cases h
    | succ depth => exact ⟨depth, by rwa [Path.below_nil]⟩
  | cons m path ih =>
    cases depth with
    | zero => cases h
    | succ depth =>
      obtain ⟨children, hchild, hd⟩ := exists_directory_of_get? hd
      cases reads_of_child? h hchild with
      | directory _ _ _ hscan =>
        obtain ⟨depth', hd⟩ := ih hscan hd
        exact ⟨depth', by rwa [Path.below_below] at hd⟩

/-- Every name of a scanned tree stands once in its directory. -/
theorem distinct_scanTo (h : scanTo fs exclude depth p = .ok t) : t.Distinct := by
  induction depth generalizing p t with
  | zero => cases h
  | succ depth ih =>
    obtain ⟨found, hfound, hsublist, hreads⟩ := reads_of_scanTo h
    obtain ⟨l, -, rfl⟩ := names_eq_ok_iff.1 hfound
    refine distinct_of_child? (hsublist.nodup (fs.nodup_childNames l)) fun n c hc => ?_
    cases reads_of_child? h hc with
    | directory _ _ _ hscan => exact ih hscan

end SourceTree

end CrossBuild
