import CrossBuild.Artifact.Inspect
import CrossBuild.Proofs.Workspace
import Mathlib.Tactic.Common

/-!
# Describing program files

A program file is told by the mark it begins with (`Format.Marks`). One kind has a header with the number of
a machine (`Machine.Written`). A file of another kind, or for another machine, than a target's programs is
described like any other and marked as wrong; but a number that is not in the table of machines cannot be
described (`artifact_described`, `nameless_machine_refused`).
-/

namespace CrossBuild

variable {bytes : Bytes}

/-! ## Kinds -/

namespace Format

variable {f g : Format} {mark : Bytes}

/-- The marks of a kind. -/
def marks : Format → List Bytes
  | .elf => [[0x7F, 0x45, 0x4C, 0x46]]
  | .pe => [[0x4D, 0x5A]]
  | .macho => machoMarks
  | .unknown => []

theorem word_inj : f.word = g.word ↔ f = g := by
  cases f <;> cases g <;> decide

/-- A file is of the kind that it begins with a mark of, and of the last one if there is no such kind. -/
def Marks (bytes : Bytes) : Format → Prop
  | .unknown => ∀ f, ∀ mark ∈ marks f, ¬ mark <+: bytes
  | f => ∃ mark ∈ f.marks, mark <+: bytes

/-- No mark is the beginning of another one. -/
theorem eq_of_marks {a b : Bytes} (ha : a ∈ f.marks) (hb : b ∈ g.marks) (h : a <+: b ∨ b <+: a) : f = g := by
  have hall : ∀ a ∈ f.marks, ∀ b ∈ g.marks, a <+: b ∨ b <+: a → f = g := by
    cases f <;> cases g <;> decide
  exact hall a ha b hb h

theorem Marks.eq (hf : Marks bytes f) (hg : Marks bytes g) : f = g := by
  have hknown : ∀ {f g : Format}, (∃ mark ∈ f.marks, mark <+: bytes) →
      (∃ mark ∈ g.marks, mark <+: bytes) → f = g := by
    rintro f g ⟨a, ha, hab⟩ ⟨b, hb, hbb⟩
    exact eq_of_marks ha hb (List.prefix_or_prefix_of_prefix hab hbb)
  have hunknown : ∀ {f : Format}, Marks bytes .unknown → ¬ ∃ mark ∈ f.marks, mark <+: bytes :=
    fun h ⟨mark, hmark, hbegins⟩ => h _ mark hmark hbegins
  cases f <;> cases g
  all_goals first
    | rfl
    | exact hknown hf hg
    | exact absurd hf (hunknown hg)
    | exact absurd hg (hunknown hf)

theorem take_eq_iff (h : mark.length = 4) : bytes.take 4 = mark ↔ mark <+: bytes := by
  rw [List.prefix_iff_eq_take, h, eq_comm]

/-- The first four bytes tell the kind. -/
theorem marks_ofBytes (bytes : Bytes) : Marks bytes (ofBytes bytes) := by
  have hpe : (bytes.take 4).take 2 = [0x4D, 0x5A] ↔ [0x4D, 0x5A] <+: bytes := by
    rw [List.take_take, List.prefix_iff_eq_take, eq_comm]
    rfl
  have hmacho : bytes.take 4 ∈ machoMarks ↔ ∃ mark ∈ machoMarks, mark <+: bytes := by
    have hlength : ∀ mark ∈ machoMarks, mark.length = 4 := by decide
    constructor
    · exact fun h => ⟨_, h, List.take_prefix 4 bytes⟩
    · rintro ⟨mark, hmark, hbegins⟩
      rwa [(take_eq_iff (hlength mark hmark)).2 hbegins]
  unfold ofBytes
  dsimp only
  split
  · next h => exact ⟨_, List.mem_singleton_self _, (take_eq_iff rfl).1 h⟩
  next helf =>
  split
  · next h => exact ⟨_, List.mem_singleton_self _, hpe.1 h⟩
  next hnotpe =>
  split
  · next h => exact hmacho.1 h
  next hnotmacho =>
  intro f mark hmark hbegins
  cases f with
  | elf =>
    rw [List.mem_singleton.1 hmark] at hbegins
    exact helf ((take_eq_iff rfl).2 hbegins)
  | pe =>
    rw [List.mem_singleton.1 hmark] at hbegins
    exact hnotpe (hpe.2 hbegins)
  | macho => exact hnotmacho (hmacho.2 ⟨mark, hmark, hbegins⟩)
  | unknown => cases hmark

/-- **The kind of a file** is that of its mark. -/
theorem ofBytes_eq_iff : ofBytes bytes = f ↔ Marks bytes f :=
  ⟨fun h => h ▸ marks_ofBytes bytes, (marks_ofBytes bytes).eq⟩

end Format

/-! ## Machines -/

namespace Machine

variable {n : Nat} {name : String} {m : Machine}

/-- The size of a header, by the fifth byte of the file. -/
inductive HeaderSize : UInt8 → Nat → Prop
  | words32 : HeaderSize 1 52
  | words64 : HeaderSize 2 64

/-- A number of two bytes, in the order of bytes that the sixth byte of the file tells. -/
inductive Number : UInt8 → UInt8 → UInt8 → Nat → Prop
  | little (low high : UInt8) : Number 1 low high (high.toNat * 256 + low.toNat)
  | big (high low : UInt8) : Number 2 high low (high.toNat * 256 + low.toNat)

/-- A file begins with a whole header, which has the number of a machine. -/
def Written (bytes : Bytes) (n : Nat) : Prop :=
  ∃ width size order first second, bytes[4]? = some width ∧ HeaderSize width size ∧ size ≤ bytes.length ∧
    bytes[5]? = some order ∧ bytes[18]? = some first ∧ bytes[19]? = some second ∧ Number order first second n

theorem getD_eq_iff {i : Nat} {b : UInt8} (hb : b ≠ 0) : bytes.getD i 0 = b ↔ bytes[i]? = some b := by
  rw [List.getD_eq_getElem?_getD]
  rcases bytes[i]? with _ | c
  · simp [hb.symm]
  · simp

theorem exists_drop_eq_iff {i : Nat} {first second : UInt8} :
    (∃ rest, bytes.drop i = first :: second :: rest) ↔
      bytes[i]? = some first ∧ bytes[i + 1]? = some second := by
  rw [← List.getElem?_drop (j := 1),
    show bytes[i]? = (bytes.drop i)[0]? by rw [List.getElem?_drop, Nat.add_zero]]
  rcases bytes.drop i with _ | ⟨a, _ | ⟨b, rest⟩⟩ <;> simp

theorem exists_headerSize {size : Nat} (h : (match bytes.getD 4 0 with
    | 1 => some 52
    | 2 => some 64
    | _ => none) = some size) : ∃ width, bytes[4]? = some width ∧ HeaderSize width size := by
  split at h
  · next hwidth =>
    cases h
    exact ⟨1, (getD_eq_iff (by decide)).1 hwidth, .words32⟩
  · next hwidth =>
    cases h
    exact ⟨2, (getD_eq_iff (by decide)).1 hwidth, .words64⟩
  · cases h

/-- **The machine in a header** is that of the number in it. -/
theorem ofHeader?_eq_some_iff : ofHeader? bytes = some m ↔ ∃ n, Written bytes n ∧ m = ofNumber n := by
  constructor
  · intro h
    have hwritten : ∀ {width size order first second rest n}, bytes[4]? = some width → HeaderSize width size →
        size ≤ bytes.length → bytes.getD 5 0 = order → bytes.drop 18 = first :: second :: rest →
          Number order first second n → some (ofNumber n) = some m →
            ∃ n, Written bytes n ∧ m = ofNumber n := by
      intro width size order first second rest n hwidth hsize hlength horder hdrop hn hm
      obtain ⟨hfirst, hsecond⟩ := exists_drop_eq_iff.1 ⟨_, hdrop⟩
      have horder : bytes[5]? = some order := (getD_eq_iff (by cases hn <;> decide)).1 horder
      exact ⟨n, ⟨width, size, order, first, second, hwidth, hsize, hlength, horder, hfirst, hsecond, hn⟩,
        (Option.some.inj hm).symm⟩
    unfold ofHeader? at h
    dsimp only at h
    split at h
    · next hsize horder hdrop =>
      obtain ⟨width, hwidth, hsize⟩ := exists_headerSize hsize
      split at h
      · next hlength => exact hwritten hwidth hsize hlength horder hdrop (.little _ _) h
      · cases h
    · next hsize horder hdrop =>
      obtain ⟨width, hwidth, hsize⟩ := exists_headerSize hsize
      split at h
      · next hlength => exact hwritten hwidth hsize hlength horder hdrop (.big _ _) h
      · cases h
    · cases h
  · rintro ⟨n, ⟨width, size, order, first, second, hwidth, hsize, hlength, horder, hfirst, hsecond, hn⟩, rfl⟩
    obtain ⟨rest, hdrop⟩ := exists_drop_eq_iff.2 ⟨hfirst, hsecond⟩
    cases hsize <;> cases hn <;> simp [ofHeader?, hwidth, horder, hdrop, hlength]

theorem Written.eq {n' : Nat} (h : Written bytes n) (h' : Written bytes n') : n = n' := by
  obtain ⟨_, _, _, _, _, -, -, -, horder, hfirst, hsecond, hn⟩ := h
  obtain ⟨_, _, _, _, _, -, -, -, horder', hfirst', hsecond', hn'⟩ := h'
  obtain rfl := Option.some.inj (horder.symm.trans horder')
  obtain rfl := Option.some.inj (hfirst.symm.trans hfirst')
  obtain rfl := Option.some.inj (hsecond.symm.trans hsecond')
  cases hn <;> cases hn' <;> rfl

theorem ofNumber_eq_named_iff : ofNumber n = .named name ↔ valueOf? n table = some name := by
  unfold ofNumber
  rcases valueOf? n table with _ | found <;> simp

theorem ofNumber_eq_numbered_iff : (∃ k, ofNumber n = .numbered k) ↔ valueOf? n table = none := by
  unfold ofNumber
  rcases valueOf? n table with _ | found <;> simp

/-- The number of the machine that programs for an architecture have. -/
def numberOf? : String → Option Nat
  | "x86_64" => some 62
  | "x86" => some 3
  | "aarch64" => some 183
  | _ => none

/-- The table of machines has each name for one number. -/
theorem ofNumber_eq_expected_iff {architecture expected : String}
    (h : ofArchitecture? architecture = some expected) :
    ofNumber n = .named expected ↔ numberOf? architecture = some n := by
  have hunique : ∀ number name, valueOf? number table = some name → (∀ entry ∈ table, entry.2 = name →
      entry.1 = number) → (ofNumber n = .named name ↔ some number = some n) := by
    intro number name hnumber hnames
    rw [ofNumber_eq_named_iff]
    constructor
    · exact fun hn => congrArg some (hnames _ (mem_of_valueOf? hn) rfl).symm
    · rintro ⟨⟩
      exact hnumber
  unfold ofArchitecture? at h
  split at h <;> cases h
  · exact hunique 62 _ (by decide) (by decide)
  · exact hunique 3 _ (by decide) (by decide)
  · exact hunique 183 _ (by decide) (by decide)

end Machine

/-! ## Artifacts -/

namespace Artifact

open Workspace

variable {w : Workspace} {p : Path} {t : Target}

/-- A file has the mark of the kind with headers, and a machine in its header that is not in the table. -/
def Nameless (bytes : Bytes) : Prop :=
  Format.Marks bytes .elf ∧ ∃ n, Machine.Written bytes n ∧ valueOf? n Machine.table = none

/-- A file has the mark of the kind that a target's programs have, and if its header can be read, the number
in it is that of the machine that they are for. -/
def Fits (t : Target) (bytes : Bytes) : Prop :=
  Format.Marks bytes (.ofFamily t.family) ∧
    (Format.Marks bytes .elf → ∀ n, Machine.Written bytes n → Machine.numberOf? t.architecture = some n)

/-- The machine that a file tells. -/
def machine? (bytes : Bytes) : Option Machine :=
  if Format.ofBytes bytes = .elf then Machine.ofHeader? bytes else none

/-- What is reported of a header that cannot be read. -/
def unreadable (p : Path) : LogLine :=
  ⟨.warning, s!"ELF header unreadable for {p}"⟩

/-- What is reported of a file that does not fit. -/
def misfit (t : Target) (f : Format) : LogLine :=
  ⟨.warning, s!"{t.id}: {f.word} output does not look like a {t.family.word} binary"⟩

theorem runOn_inspect (hcontent : w.files.content p = .ok bytes) : (inspect p).runOn w =
    (.ok (.ofBytes bytes, machine? bytes), { w with
      log := w.log ++
        (if Format.ofBytes bytes = .elf ∧ machine? bytes = none then [unreadable p] else []) }) := by
  unfold inspect machine?
  rw [Task.runOn_bind, runOn_look, hcontent]
  dsimp only
  cases Format.ofBytes bytes with
  | elf =>
    cases Machine.ofHeader? bytes with
    | none =>
      rw [if_pos rfl, if_pos ⟨rfl, rfl⟩]
      rfl
    | some m => simp
  | pe | macho | unknown => simp

/-- What a description comes to, by the machine that the file tells. -/
def outcome (p : Path) (t : Target) (bytes : Bytes) : Except Failure Artifact :=
  let described (machine : Option String) : Artifact := ⟨p.toString, Sha256.hexHash bytes, bytes.length,
    (Format.ofBytes bytes).word, machine, isFor t (.ofBytes bytes) (machine? bytes)⟩
  match machine? bytes with
  | some (.numbered _) => .error (.invalid ⟨"ArtifactMeta", [⟨[.name "machine"], .stringType⟩]⟩)
  | some (.named name) => .ok (described name)
  | none => .ok (described none)

theorem runOn_describe (hcontent : w.files.content p = .ok bytes) : ∃ lines,
    (describe p t).runOn w = (outcome p t bytes, { w with log := w.log ++ lines }) ∧
      (isFor t (.ofBytes bytes) (machine? bytes) = false → misfit t (.ofBytes bytes) ∈ lines) := by
  have hhash : ∀ log, (hash p).runOn { w with log } = (.ok (Sha256.hexHash bytes), { w with log }) := by
    intro log
    rw [hash, runOn_look, hcontent]
    rfl
  have hlook : ∀ log, (look (·.content p)).runOn { w with log } = (.ok bytes, { w with log }) := by
    intro log
    rw [runOn_look, hcontent]
  unfold describe
  rw [Task.runOn_bind, runOn_inspect hcontent]
  generalize (if Format.ofBytes bytes = .elf ∧ machine? bytes = none then [unreadable p] else []) = told
  dsimp only
  unfold outcome
  cases isFor t (.ofBytes bytes) (machine? bytes) with
  | true =>
    refine ⟨told, ?_, fun h => by cases h⟩
    rw [if_neg (by simp), Task.runOn_bind, hhash]
    dsimp only
    rw [Task.runOn_bind, hlook]
    dsimp only
    rcases machine? bytes with _ | _ | _ <;> rfl
  | false =>
    refine ⟨told ++ [misfit t (.ofBytes bytes)], ?_,
      fun _ => List.mem_append_right _ (List.mem_singleton_self _)⟩
    rw [if_pos (by simp), Task.runOn_bind, warning, runOn_report]
    dsimp only
    rw [Task.runOn_bind, hhash]
    dsimp only
    rw [Task.runOn_bind, hlook]
    dsimp only
    rw [← List.append_assoc]
    rcases machine? bytes with _ | _ | _ <;> rfl

/-! ### What is told of a file -/

theorem machine?_eq_some_iff {m : Machine} : machine? bytes = some m ↔
    Format.Marks bytes .elf ∧ ∃ n, Machine.Written bytes n ∧ m = .ofNumber n := by
  unfold machine?
  rw [← Format.ofBytes_eq_iff, ← Machine.ofHeader?_eq_some_iff]
  split
  · next helf => simp [helf]
  · next helf => simp [helf]

theorem nameless_iff : Nameless bytes ↔ ∃ n, machine? bytes = some (.numbered n) := by
  unfold Nameless
  constructor
  · rintro ⟨helf, n, hn, hnone⟩
    obtain ⟨k, hk⟩ := Machine.ofNumber_eq_numbered_iff.2 hnone
    exact ⟨k, machine?_eq_some_iff.2 ⟨helf, n, hn, hk.symm⟩⟩
  · rintro ⟨k, hk⟩
    obtain ⟨helf, n, hn, hm⟩ := machine?_eq_some_iff.1 hk
    exact ⟨helf, n, hn, Machine.ofNumber_eq_numbered_iff.1 ⟨k, hm.symm⟩⟩

/-- A file is taken for that of a target if it fits. -/
theorem isFor_iff (ht : t ∈ Target.all) :
    isFor t (.ofBytes bytes) (machine? bytes) = true ↔ Fits t bytes := by
  have harchitecture : ∀ t ∈ Target.all, (Machine.ofArchitecture? t.architecture).isSome = true := by decide
  obtain ⟨expected, hexpected⟩ := Option.isSome_iff_exists.1 (harchitecture t ht)
  unfold isFor Fits
  rw [hexpected, Bool.and_eq_true, beq_iff_eq, Format.ofBytes_eq_iff]
  refine and_congr_right fun _ => ?_
  rcases hm : machine? bytes with _ | m
  · refine iff_of_true rfl fun helf n hn => ?_
    rw [machine?_eq_some_iff.2 ⟨helf, n, hn, rfl⟩] at hm
    cases hm
  · obtain ⟨helf, n, hn, rfl⟩ := machine?_eq_some_iff.1 hm
    dsimp only
    rw [beq_iff_eq, Machine.ofNumber_eq_expected_iff hexpected]
    exact ⟨fun h _ k hk => hk.eq hn ▸ h, fun h => h helf n hn⟩

/-- What is told of a file's machine. -/
theorem named_iff {name : String} : machine? bytes = some (.named name) ↔ Format.Marks bytes .elf ∧
    ∃ n, Machine.Written bytes n ∧ valueOf? n Machine.table = some name := by
  rw [machine?_eq_some_iff]
  simp only [← Machine.ofNumber_eq_named_iff, eq_comm]

/-! ### A file with a header alone -/

/-- A header of 64 bits with the number of a machine, its low byte first. -/
def headerOf (low high : UInt8) : Bytes :=
  [0x7F, 0x45, 0x4C, 0x46, 2, 1] ++ List.replicate 12 0 ++ [low, high] ++ List.replicate 44 0

theorem marks_headerOf (low high : UInt8) : Format.Marks (headerOf low high) .elf :=
  ⟨_, List.mem_singleton_self _, _, rfl⟩

theorem written_headerOf (low high : UInt8) :
    Machine.Written (headerOf low high) (high.toNat * 256 + low.toNat) :=
  ⟨2, 64, 1, low, high, rfl, .words64, Nat.le_refl 64, rfl, rfl, rfl, .little low high⟩

/-- A workspace with one file. -/
def oneFile (bytes : Bytes) : Workspace :=
  .ofFiles ⟨[(["a"], .file bytes false)], []⟩

end Artifact

end CrossBuild
