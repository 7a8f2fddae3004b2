import CrossBuild.Text.Utf8
import Mathlib.Tactic.Common
import Mathlib.Tactic.SplitIfs

/-!
# Characters and their bytes

A step of the reader takes off exactly the UTF-8 form of a character, and takes it off whatever
comes after. The first byte of that form continues no character and all others do, so where a
character begins never depends on what stands before.
-/

namespace CrossBuild.Utf8

/-- The scalar values: everything up to the last plane but the surrogates. -/
theorem toNat_lt (c : Char) : c.toNat < 0x110000 ∧ ¬ (0xD800 ≤ c.toNat ∧ c.toNat < 0xE000) := by
  have h := c.valid
  simp only [UInt32.isValidChar, Nat.isValidChar] at h
  simp only [Char.toNat]
  omega

theorem step_encodeChar (c : Char) (r : Bytes) :
    step (String.utf8EncodeChar c ++ r) = .char c r := by
  obtain ⟨hmax, hsur⟩ := toNat_lt c
  have hc : ∀ n, n = c.toNat → Char.ofNat n = c := fun n hn => hn ▸ Char.ofNat_toNat c
  unfold String.utf8EncodeChar
  simp only [Char.toNat_val]
  generalize c.toNat = v at hmax hsur hc
  split_ifs with h1 h2 h3
  · simp only [List.cons_append, List.nil_append, step, UInt8.toNat_ofNat']
    rw [if_pos (by omega), hc _ (by omega)]
  · simp only [List.cons_append, List.nil_append, step, UInt8.toNat_ofNat', isContinuation,
      assemble, List.foldl]
    rw [if_neg (by omega), if_neg (by omega), if_pos (by omega), if_pos (by simp; omega),
      hc _ (by omega)]
  · simp only [List.cons_append, List.nil_append, step, UInt8.toNat_ofNat', isContinuation,
      mayFollow, assemble, List.foldl]
    rw [if_neg (by omega), if_neg (by omega), if_neg (by omega), if_pos (by omega),
      if_pos (by simp; omega), if_pos (by simp; omega), hc _ (by omega)]
  · simp only [List.cons_append, List.nil_append, step, UInt8.toNat_ofNat', isContinuation,
      mayFollow, assemble, List.foldl]
    rw [if_neg (by omega), if_neg (by omega), if_neg (by omega), if_neg (by omega),
      if_pos (by omega), if_pos (by simp; omega), if_pos (by simp; omega),
      if_pos (by simp; omega), hc _ (by omega)]

theorem toNat_ofNat_of_scalar {n : Nat} (h : n < 0x110000) (hs : ¬ (0xD800 ≤ n ∧ n < 0xE000)) :
    (Char.ofNat n).toNat = n := by
  have hvalid : n.isValidChar := by
    simp only [Nat.isValidChar]
    omega
  unfold Char.ofNat
  rw [dif_pos hvalid]
  show (BitVec.ofNatLT n _).toNat = n
  simp

theorem ofNat_eq_of_toNat {n : Nat} (b : UInt8) (h : n = b.toNat) : UInt8.ofNat n = b := by
  rw [h, UInt8.ofNat_toNat]

theorem isContinuation_iff {b : UInt8} : isContinuation b = true ↔ 0x80 ≤ b.toNat ∧ b.toNat < 0xC0 := by
  simp [isContinuation]

theorem mayFollow_iff {a b : UInt8} : mayFollow a b = true ↔
    (0x80 ≤ b.toNat ∧ b.toNat < 0xC0) ∧ (a.toNat = 0xE0 → 0xA0 ≤ b.toNat) ∧
      (a.toNat = 0xED → b.toNat < 0xA0) ∧ (a.toNat = 0xF0 → 0x90 ≤ b.toNat) ∧
      (a.toNat = 0xF4 → b.toNat < 0x90) := by
  simp only [mayFollow, isContinuation_iff, Bool.and_eq_true, Bool.or_eq_true, bne_iff_ne,
    decide_eq_true_eq]
  omega

/-- The bytes of a character by its number. -/
theorem encodeChar_ofNat {n : Nat} (h : n < 0x110000) (hs : ¬ (0xD800 ≤ n ∧ n < 0xE000)) :
    String.utf8EncodeChar (Char.ofNat n) =
      if n ≤ 0x7F then [.ofNat n]
      else if n ≤ 0x7FF then [.ofNat (n / 64 % 32 + 0xC0), .ofNat (n % 64 + 0x80)]
      else if n ≤ 0xFFFF then
        [.ofNat (n / 4096 % 16 + 0xE0), .ofNat (n / 64 % 64 + 0x80), .ofNat (n % 64 + 0x80)]
      else
        [.ofNat (n / 262144 % 8 + 0xF0), .ofNat (n / 4096 % 64 + 0x80), .ofNat (n / 64 % 64 + 0x80),
          .ofNat (n % 64 + 0x80)] := by
  have hn : (Char.ofNat n).val.toNat = n := toNat_ofNat_of_scalar h hs
  unfold String.utf8EncodeChar
  simp only [hn]

theorem encodeChar_two {a b : UInt8} (ha : 0xC2 ≤ a.toNat ∧ a.toNat < 0xE0)
    (hb : isContinuation b = true) :
    String.utf8EncodeChar (assemble (a.toNat % 32) [b]) = [a, b] := by
  rw [isContinuation_iff] at hb
  simp only [assemble, List.foldl]
  rw [encodeChar_ofNat (by omega) (by omega), if_neg (by omega), if_pos (by omega),
    ofNat_eq_of_toNat a (by omega), ofNat_eq_of_toNat b (by omega)]

theorem encodeChar_three {a b c : UInt8} (ha : 0xE0 ≤ a.toNat ∧ a.toNat < 0xF0)
    (hb : mayFollow a b = true) (hc : isContinuation c = true) :
    String.utf8EncodeChar (assemble (a.toNat % 16) [b, c]) = [a, b, c] := by
  rw [isContinuation_iff] at hc
  rw [mayFollow_iff] at hb
  simp only [assemble, List.foldl]
  rw [encodeChar_ofNat (by omega) (by omega), if_neg (by omega), if_neg (by omega),
    if_pos (by omega), ofNat_eq_of_toNat a (by omega), ofNat_eq_of_toNat b (by omega),
    ofNat_eq_of_toNat c (by omega)]

theorem encodeChar_four {a b c d : UInt8} (ha : 0xF0 ≤ a.toNat ∧ a.toNat < 0xF5)
    (hb : mayFollow a b = true) (hc : isContinuation c = true) (hd : isContinuation d = true) :
    String.utf8EncodeChar (assemble (a.toNat % 8) [b, c, d]) = [a, b, c, d] := by
  rw [isContinuation_iff] at hc hd
  rw [mayFollow_iff] at hb
  simp only [assemble, List.foldl]
  rw [encodeChar_ofNat (by omega) (by omega), if_neg (by omega), if_neg (by omega),
    if_neg (by omega), ofNat_eq_of_toNat a (by omega), ofNat_eq_of_toNat b (by omega),
    ofNat_eq_of_toNat c (by omega), ofNat_eq_of_toNat d (by omega)]

theorem eq_of_step {s r : Bytes} {c : Char} (h : step s = .char c r) :
    s = String.utf8EncodeChar c ++ r := by
  unfold step at h
  split at h
  · simp at h
  rename_i a t
  split_ifs at h with h1 h2 h3 h4 h5
  · simp only [Step.char.injEq] at h
    obtain ⟨rfl, rfl⟩ := h
    rw [encodeChar_ofNat (by omega) (by omega), if_pos (by omega), UInt8.ofNat_toNat]
    rfl
  · split at h
    · simp at h
    split_ifs at h with hb
    simp only [Step.char.injEq] at h
    obtain ⟨rfl, rfl⟩ := h
    rw [encodeChar_two (by omega) hb]; rfl
  · split at h
    · simp at h
    split_ifs at h with hb
    split at h
    · simp at h
    split_ifs at h with hc
    simp only [Step.char.injEq] at h
    obtain ⟨rfl, rfl⟩ := h
    rw [encodeChar_three (by omega) hb hc]; rfl
  · split at h
    · simp at h
    split_ifs at h with hb
    split at h
    · simp at h
    split_ifs at h with hc
    split at h
    · simp at h
    split_ifs at h with hd
    simp only [Step.char.injEq] at h
    obtain ⟨rfl, rfl⟩ := h
    rw [encodeChar_four (by omega) hb hc hd]; rfl

theorem eq_nil_of_step {s : Bytes} (h : step s = .done) : s = [] := by
  cases s with
  | nil => rfl
  | cons a s =>
    unfold step at h
    repeat' split at h
    all_goals simp_all

/-- The form of a character begins with a byte that continues none and goes on with bytes that do. -/
theorem encodeChar_eq_cons (c : Char) :
    ∃ a t, String.utf8EncodeChar c = a :: t ∧ isContinuation a = false ∧
      ∀ b ∈ t, isContinuation b = true := by
  obtain ⟨hmax, hsur⟩ := toNat_lt c
  unfold String.utf8EncodeChar
  simp only [Char.toNat_val]
  generalize c.toNat = v at hmax hsur
  split_ifs with h1 h2 h3
  · refine ⟨_, _, rfl, ?_, by simp⟩
    simp [isContinuation]
    omega
  · refine ⟨_, _, rfl, ?_, ?_⟩
    · simp [isContinuation]
      omega
    · simp [isContinuation]
      omega
  · refine ⟨_, _, rfl, ?_, ?_⟩
    · simp [isContinuation]
      omega
    · simp [isContinuation]
      omega
  · refine ⟨_, _, rfl, ?_, ?_⟩
    · simp [isContinuation]
      omega
    · simp [isContinuation]
      omega

/-- Whether some bytes do not begin in the middle of a character. -/
def Fresh (s : Bytes) : Prop :=
  ∀ b ∈ s.head?, isContinuation b = false

theorem fresh_encodeChar_append (c : Char) (s : Bytes) : Fresh (String.utf8EncodeChar c ++ s) := by
  obtain ⟨a, t, h, ha, -⟩ := encodeChar_eq_cons c
  intro b hb
  rw [h, List.cons_append, List.head?_cons, Option.mem_some_iff] at hb
  rw [← hb]
  exact ha

/-- A character that is read is also read with more bytes behind it. -/
theorem step_append_of_char {s r : Bytes} {c : Char} (h : step s = .char c r) (t : Bytes) :
    step (s ++ t) = .char c (r ++ t) := by
  rw [eq_of_step h, List.append_assoc, step_encodeChar]

/-- Bytes in the way stay in the way when fresh bytes come behind them. -/
theorem step_append_of_defect {s t : Bytes} {reason : Defect} {width : Nat}
    (h : step s = .defect reason width) (ht : Fresh t) :
    ∃ reason width, step (s ++ t) = .defect reason width := by
  have hne : s ≠ [] := by
    rintro rfl
    simp [step] at h
  rcases hst : step (s ++ t) with _ | ⟨c, r⟩ | ⟨reason', width'⟩
  · exact absurd (List.append_eq_nil_iff.1 (eq_nil_of_step hst)).1 hne
  · obtain ⟨a, tail, hc, -, htail⟩ := encodeChar_eq_cons c
    have heq := eq_of_step hst
    rcases List.append_eq_append_iff.1 heq with ⟨u, hu, htu⟩ | ⟨u, hu, -⟩
    · cases u with
      | nil =>
        rw [List.append_nil] at hu
        have := step_encodeChar c []
        rw [List.append_nil, hu, h] at this
        cases this
      | cons b u =>
        -- the fresh bytes would begin inside the character
        obtain ⟨first, s', rfl⟩ := List.exists_cons_of_ne_nil hne
        rw [hc, List.cons_append] at hu
        obtain ⟨-, rfl⟩ := List.cons.inj hu
        have hcont := htail b (by simp)
        rw [ht b (by simp [htu])] at hcont
        cases hcont
    · rw [hu, step_encodeChar] at h
      cases h
  · exact ⟨reason', width', rfl⟩

/-- Bytes that can be read are the UTF-8 form of what is read. -/
theorem eq_encode_of_decodeFrom {first : Nat} {s : Bytes} {cs : List Char}
    (h : decodeFrom first s = .ok cs) : s = encode cs := by
  fun_induction decodeFrom first s generalizing cs with
  | case1 first s hstep =>
    obtain rfl := Except.ok.inj h
    exact eq_nil_of_step hstep
  | case2 first s c r hstep _ cs' hrest ih =>
    obtain rfl := Except.ok.inj h
    rw [eq_of_step hstep, encode_cons, ← ih hrest]
  | case3 => cases h
  | case4 => cases h

theorem eq_encode_of_decode {s : Bytes} {cs : List Char} (h : decode s = .ok cs) : s = encode cs :=
  eq_encode_of_decodeFrom h

theorem decodeFrom_encode (first : Nat) (cs : List Char) : decodeFrom first (encode cs) = .ok cs := by
  induction cs generalizing first with
  | nil =>
    rw [decodeFrom.eq_def]
    rfl
  | cons c cs ih =>
    rw [encode_cons, decodeFrom.eq_def]
    split
    · next hstep =>
      rw [step_encodeChar] at hstep
      cases hstep
    · next hstep =>
      rw [step_encodeChar] at hstep
      cases hstep
      rw [ih]
    · next hstep =>
      rw [step_encodeChar] at hstep
      cases hstep

/-- Bytes that cannot be read are not the form of any text. -/
theorem encode_ne_of_decode {s : Bytes} {u : Undecodable} (h : decode s = .error u) (cs : List Char) :
    encode cs ≠ s := by
  rintro rfl
  cases (decodeFrom_encode 0 cs).symm.trans h

end CrossBuild.Utf8
