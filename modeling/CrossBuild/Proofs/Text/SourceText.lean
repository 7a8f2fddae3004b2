import CrossBuild.Proofs.Text.Utf8
import CrossBuild.Text.SourceText

/-!
# Reading back what was written

A source text is normal when reading its bytes gives it back. What is read from bytes is normal,
and stays so when a string in it gives way to another one: stray bytes on both sides cannot join
across the string, because a string begins with a fresh byte and the bytes in front of it are read
without regard to it.
-/

namespace CrossBuild.SourceText

open Utf8

theorem ofString_append (s t : String) : ofString (s ++ t) = ofString s ++ ofString t := by
  rw [ofString, String.toList_append, List.map_append]
  rfl

theorem ofBytes_nil : ofBytes [] = [] := by
  rw [ofBytes]
  split
  · rfl
  · next h => cases h
  · next h => cases h

theorem ofBytes_of_char {s r : Bytes} {c : Char} (h : step s = .char c r) :
    ofBytes s = .char c :: ofBytes r := by
  rw [ofBytes]
  split
  · next h' =>
    rw [h] at h'
    cases h'
  · next h' =>
    rw [h] at h'
    obtain ⟨rfl, rfl⟩ := Step.char.inj h'
    rfl
  · next h' =>
    rw [h] at h'
    cases h'

theorem ofBytes_of_defect {b : UInt8} {r : Bytes} {reason : Defect} {width : Nat}
    (h : step (b :: r) = .defect reason width) : ofBytes (b :: r) = .stray b :: ofBytes r := by
  rw [ofBytes]
  split
  · next h' =>
    rw [h] at h'
    cases h'
  · next h' =>
    rw [h] at h'
    cases h'
  · rfl

/-- A property of all byte strings, by what stands at the front. -/
theorem bytes_induction {motive : Bytes → Prop} (nil : motive [])
    (char : ∀ s c r, step s = .char c r → motive r → motive s)
    (defect : ∀ b r reason width, step (b :: r) = .defect reason width → motive r →
      motive (b :: r)) (s : Bytes) : motive s := by
  induction hlen : s.length using Nat.strongRecOn generalizing s with
  | _ n ih =>
    subst hlen
    rcases h : step s with _ | ⟨c, r⟩ | ⟨reason, width⟩
    · rw [eq_nil_of_step h]
      exact nil
    · exact char s c r h (ih r.length (length_lt_of_step h) r rfl)
    · cases s with
      | nil => simp [step] at h
      | cons b r => exact defect b r reason width h (ih r.length (by simp) r rfl)

@[simp] theorem toBytes_cons (c : SourceChar) (t : SourceText) :
    toBytes (c :: t) = charBytes c ++ toBytes t := rfl

/-- **No byte is lost**: the text of some bytes has these bytes. -/
@[simp] theorem toBytes_ofBytes (s : Bytes) : toBytes (ofBytes s) = s := by
  induction s using bytes_induction with
  | nil => rw [ofBytes_nil, toBytes_nil]
  | char s c r h ih =>
    rw [ofBytes_of_char h, toBytes_cons, ih]
    exact (eq_of_step h).symm
  | defect b r reason width h ih =>
    rw [ofBytes_of_defect h, toBytes_cons, ih]
    rfl

/-- Bytes are read without regard to fresh bytes behind them. -/
theorem ofBytes_append {t : Bytes} (ht : Fresh t) (s : Bytes) :
    ofBytes (s ++ t) = ofBytes s ++ ofBytes t := by
  induction s using bytes_induction with
  | nil => rw [ofBytes_nil, List.nil_append, List.nil_append]
  | char s c r h ih => rw [ofBytes_of_char h, ofBytes_of_char (step_append_of_char h t), ih]; rfl
  | defect b r reason width h ih =>
    obtain ⟨reason', width', h'⟩ := step_append_of_defect h ht
    rw [List.cons_append] at h' ⊢
    rw [ofBytes_of_defect h, ofBytes_of_defect h', ih]
    rfl

theorem ofBytes_ofString_append (s : String) (t : Bytes) :
    ofBytes (Bytes.ofString s ++ t) = ofString s ++ ofBytes t := by
  unfold Bytes.ofString ofString
  induction s.toList with
  | nil => rfl
  | cons c cs ih =>
    rw [encode_cons, List.append_assoc, ofBytes_of_char (step_encodeChar c _), ih]
    rfl

theorem fresh_ofString_append {s : String} (hs : s ≠ "") (t : Bytes) :
    Fresh (Bytes.ofString s ++ t) := by
  unfold Bytes.ofString
  cases h : s.toList with
  | nil => exact absurd (String.toList_eq_nil_iff.1 h) hs
  | cons c cs =>
    rw [encode_cons, List.append_assoc]
    exact fresh_encodeChar_append c _

/-! ## Normal texts -/

/-- Reading the bytes of the text gives it back. -/
def Normal (t : SourceText) : Prop :=
  ofBytes t.toBytes = t

theorem normal_ofBytes (s : Bytes) : Normal (ofBytes s) := by
  unfold Normal
  rw [toBytes_ofBytes]

theorem eq_nil_of_toBytes {t : SourceText} (h : t.toBytes = []) : t = [] := by
  cases t with
  | nil => rfl
  | cons c t =>
    rw [toBytes_cons] at h
    cases c with
    | char c =>
      obtain ⟨a, u, hc, -⟩ := encodeChar_eq_cons c
      rw [charBytes, hc] at h
      cases h
    | stray b => cases h

/-- What stands in front of a string in a normal text is normal, and so is what stands behind. -/
theorem Normal.sides {a b : SourceText} {s : String} (hs : s ≠ "")
    (h : Normal (a ++ ofString s ++ b)) : Normal a ∧ Normal b := by
  unfold Normal at h ⊢
  rw [toBytes_append, toBytes_append, toBytes_ofString, List.append_assoc,
    ofBytes_append (fresh_ofString_append hs _), ofBytes_ofString_append, List.append_assoc] at h
  -- both readings of the front are beginnings of one text and have the same bytes
  have hfront : ofBytes a.toBytes = a := by
    rcases List.append_eq_append_iff.1 h with ⟨u, hu, -⟩ | ⟨u, hu, -⟩
    · have hbytes := congrArg toBytes hu
      rw [toBytes_append, toBytes_ofBytes] at hbytes
      have hnil : u = [] := eq_nil_of_toBytes (by simpa using hbytes)
      rw [hnil, List.append_nil] at hu
      exact hu.symm
    · have hbytes := congrArg toBytes hu
      rw [toBytes_append, toBytes_ofBytes] at hbytes
      have hnil : u = [] := eq_nil_of_toBytes (by simpa using hbytes)
      rw [hnil, List.append_nil] at hu
      exact hu
  rw [hfront] at h
  exact ⟨hfront, List.append_cancel_left (List.append_cancel_left h)⟩

theorem Normal.join {a b : SourceText} (ha : Normal a) (hb : Normal b) {s : String} (hs : s ≠ "") :
    Normal (a ++ ofString s ++ b) := by
  unfold Normal at *
  rw [toBytes_append, toBytes_append, toBytes_ofString, List.append_assoc,
    ofBytes_append (fresh_ofString_append hs _), ofBytes_ofString_append, ha, hb, List.append_assoc]

end CrossBuild.SourceText
