import CrossBuild.Json.Parser
import Mathlib.Data.List.TakeWhile
import Mathlib.Tactic.Common

/-!
# What reading JSON leaves

A reading leaves an end of the text that it began with. So an integer that has too many digits is spelled by
so many digits in a row of the whole text (`hasLongDigits_of_parse`); every other failure is that of a
malformed text.
-/

namespace CrossBuild.Json

variable {α β : Type} {s t : List Char}

/-- A text has digits in a row, more of them than the integers have that are read. -/
def HasLongDigits (s : List Char) : Prop :=
  ∃ digits, digits <:+: s ∧ maxIntegerDigits < digits.length ∧ ∀ c ∈ digits, c.isDigit = true

/-- A reading of a text leaves an end of it, and finds an integer too long only in a text with as many digits
in a row. -/
def Reads (s : List Char) : Reading α → Prop
  | .ok (_, rest) => rest <:+ s
  | .error (.longInteger _) => HasLongDigits s
  | .error (.malformed ..) => True

theorem HasLongDigits.mono (ht : t <:+ s) (h : HasLongDigits t) : HasLongDigits s := by
  obtain ⟨digits, hdigits, hlong, hall⟩ := h
  exact ⟨digits, hdigits.trans ht.isInfix, hlong, hall⟩

namespace Reads

theorem ok {a : α} (h : t <:+ s) : Reads s (.ok (a, t)) := h

theorem malformed (problem : Problem) (rest : List Char) :
    Reads (α := α) s (.error (.malformed problem rest)) := trivial

theorem mono {r : Reading α} (ht : t <:+ s) (h : Reads t r) : Reads s r := by
  rcases r with (⟨problem, rest⟩ | n) | ⟨a, rest⟩
  · trivial
  · exact HasLongDigits.mono ht h
  · exact List.IsSuffix.trans h ht

/-- What is read second is read in what the first reading left. -/
theorem bind {r : Except ReadError (α × List Char)} {next : α × List Char → Except ReadError (β × List Char)}
    (h : Reads s r) (hnext : ∀ a rest, rest <:+ s → Reads s (next (a, rest))) :
    Reads s (r >>= next : Except ReadError (β × List Char)) := by
  rcases r with (⟨problem, rest⟩ | n) | ⟨a, rest⟩
  · trivial
  · exact h
  · exact hnext a rest h

theorem map {r : Reading α} {f : α × List Char → β × List Char} (h : Reads s r)
    (hf : ∀ a rest, (f (a, rest)).2 = rest) : Reads s (Except.map f r) := by
  rcases r with (⟨problem, rest⟩ | n) | ⟨a, rest⟩
  · trivial
  · exact h
  · show (f (a, rest)).2 <:+ s
    rw [hf]
    exact h

end Reads

theorem skipSpace_suffix (s : List Char) : skipSpace s <:+ s := List.dropWhile_suffix _

/-- What comes after a character, with space before it. -/
theorem suffix_of_skipSpace {c : Char} (h : skipSpace s = c :: t) : t <:+ s :=
  (List.suffix_cons c t).trans (h ▸ skipSpace_suffix s)

theorem reads_stringUnits (opening s : List Char) : Reads s (stringUnits opening s) := by
  fun_induction stringUnits opening s
  case case2 => exact .ok (List.suffix_cons _ _)
  case case5 ih =>
    refine .map (.mono ?_ ih) fun _ _ => rfl
    exact List.suffix_append ['\\', 'u', _, _, _, _] _
  case case8 ih => exact .map (.mono (List.suffix_append ['\\', _] _) ih) fun _ _ => rfl
  case case11 ih => exact .map (.mono (List.suffix_cons _ _) ih) fun _ _ => rfl
  all_goals exact .malformed _ _

theorem reads_stringBody (s : List Char) : Reads s (stringBody s) :=
  (reads_stringUnits _ s).map fun _ _ => rfl

/-! ## Numbers -/

theorem fraction?_suffix {digits : List Char} (h : fraction? s = some (digits, t)) : t <:+ s := by
  unfold fraction? at h
  split at h
  · dsimp only at h
    split at h
    · cases h
    · cases h
      exact (List.drop_suffix _ _).trans (List.suffix_cons _ _)
  · cases h

theorem exponent?_suffix {e : Int} (h : exponent? s = some (e, t)) : t <:+ s := by
  unfold exponent? at h
  split at h
  swap
  · cases h
  next first rest =>
  split at h
  swap
  · cases h
  have hleft : ∀ {value : Int} {after : List Char}, after <:+ first :: rest →
      (if (after.takeWhile Char.isDigit).isEmpty = true then none
        else some (value, after.drop (after.takeWhile Char.isDigit).length)) = some (e, t) →
          t <:+ first :: rest := by
    intro value after hafter h
    split at h
    · cases h
    · cases h
      exact (List.drop_suffix _ _).trans hafter
  dsimp only at h
  -- a sign goes with the letter
  split at h
  · exact hleft (List.suffix_append [_, _] _) h
  · exact hleft (List.suffix_append [_, _] _) h
  · exact hleft (List.suffix_cons _ _) h

theorem prefix_of_integerDigits (s : List Char) : integerDigits s <+: s := by
  unfold integerDigits
  split
  · exact List.prefix_append ['0'] _
  · exact List.takeWhile_prefix _

theorem reads_unsignedNumber (negative : Bool) (blame s : List Char) :
    Reads s (unsignedNumber negative blame s) := by
  have hdrop : s.drop (integerDigits s).length <:+ s := List.drop_suffix _ _
  have hlong : maxIntegerDigits < (integerDigits s).length → HasLongDigits s := by
    intro h
    refine ⟨integerDigits s, (prefix_of_integerDigits s).isInfix, h, fun c hc => ?_⟩
    unfold integerDigits at hc
    split at hc
    · rw [List.mem_singleton.1 hc]
      decide
    · exact List.mem_takeWhile_imp hc
  unfold unsignedNumber
  dsimp only
  split
  · exact .malformed _ _
  split
  · next digits rest hfraction =>
    have hrest := (fraction?_suffix hfraction).trans hdrop
    split
    · next hexponent => exact .ok ((exponent?_suffix hexponent).trans hrest)
    · exact .ok hrest
  split
  · next hexponent => exact .ok ((exponent?_suffix hexponent).trans hdrop)
  split
  · next h => exact hlong h
  · exact .ok hdrop

theorem reads_scalar (s : List Char) : Reads s (scalar s) := by
  unfold scalar
  split
  · exact .ok (List.drop_suffix _ _)
  split
  · exact .mono (List.suffix_cons _ _) (reads_unsignedNumber ..)
  · exact reads_unsignedNumber ..

/-! ## Values -/

theorem reads_all (fuel : Nat) : (∀ s, Reads s (value fuel s)) ∧ (∀ s, Reads s (items fuel s)) ∧
    ∀ before s, Reads s (members fuel before s) := by
  induction fuel with
  | zero =>
    refine ⟨fun s => ?_, fun s => ?_, fun before s => ?_⟩
    · rw [value]
      exact .malformed _ _
    · rw [items]
      exact .malformed _ _
    · rw [members]
      exact .malformed _ _
  | succ fuel ih =>
    obtain ⟨ihValue, ihItems, ihMembers⟩ := ih
    refine ⟨fun s => ?_, fun s => ?_, fun before s => ?_⟩
    · rw [value.eq_def]
      dsimp only
      split
      · exact .map (.mono (List.suffix_cons _ _) (reads_stringBody _)) fun _ _ => rfl
      · split
        · next h => exact .ok ((suffix_of_skipSpace h).trans (List.suffix_cons _ _))
        · refine .map (.mono ?_ (ihItems _)) fun _ _ => rfl
          exact (skipSpace_suffix _).trans (List.suffix_cons _ _)
      · split
        · next h => exact .ok ((suffix_of_skipSpace h).trans (List.suffix_cons _ _))
        · refine .map (.mono ?_ (ihMembers [] _)) fun _ _ => rfl
          exact (skipSpace_suffix _).trans (List.suffix_cons _ _)
      · exact reads_scalar _
    · rw [items]
      refine (ihValue s).bind fun item rest hrest => ?_
      dsimp only
      split
      · next h => exact .ok ((suffix_of_skipSpace h).trans hrest)
      · next rest' h =>
        have hrest' : skipSpace rest' <:+ s :=
          (skipSpace_suffix rest').trans ((suffix_of_skipSpace h).trans hrest)
        exact (Reads.mono hrest' (ihItems _)).bind fun _ _ hleft => .ok hleft
      · exact .malformed _ _
    · rw [members.eq_def]
      dsimp only
      split
      swap
      · exact .malformed _ _
      next body =>
      have hbody : body <:+ '"' :: body := List.suffix_cons _ _
      refine (Reads.mono hbody (reads_stringBody body)).bind fun key rest hrest => ?_
      dsimp only
      split
      swap
      · exact .malformed _ _
      next rest' h =>
      have hrest' : skipSpace rest' <:+ '"' :: body :=
        (skipSpace_suffix rest').trans ((suffix_of_skipSpace h).trans hrest)
      refine (Reads.mono hrest' (ihValue _)).bind fun item left hleft => ?_
      dsimp only
      split
      · next h => exact .ok ((suffix_of_skipSpace h).trans hleft)
      · next h =>
        exact .mono ((skipSpace_suffix _).trans ((suffix_of_skipSpace h).trans hleft)) (ihMembers _ _)
      · exact .malformed _ _

/-- **An integer that is too long** is spelled by a row of digits of the text. -/
theorem hasLongDigits_of_parse {n : Nat} (h : parse s = .error (.longInteger n)) : HasLongDigits s := by
  unfold parse at h
  split at h
  · cases h
  split at h
  · next e hvalue =>
    obtain rfl := Except.error.inj h
    have hreads := (reads_all (2 * s.length + 1)).1 (skipSpace s)
    rw [hvalue] at hreads
    exact HasLongDigits.mono (skipSpace_suffix s) hreads
  · split at h <;> cases h

end CrossBuild.Json
