import CrossBuild.Bytes
import CrossBuild.Text.Quoted

/-!
# UTF-8

Reading and writing of UTF-8 by single steps. A step takes one character off the bytes or says how
many bytes are in the way and why, so that strict reading and reading that lets stray bytes
through share one definition.
-/

namespace CrossBuild

namespace Utf8

/-- Why bytes are no character. -/
inductive Defect
  | start
  | continuation
  | ending
  deriving DecidableEq, Repr

def Defect.message : Defect → String
  | .start => "invalid start byte"
  | .continuation => "invalid continuation byte"
  | .ending => "unexpected end of data"

/-- What stands at the front of some bytes: nothing, a character, or `width` bytes that are no
character. -/
inductive Step
  | done
  | char (c : Char) (rest : Bytes)
  | defect (reason : Defect) (width : Nat)
  deriving DecidableEq, Repr

/-- Whether a byte continues a character. -/
def isContinuation (b : UInt8) : Bool :=
  0x80 ≤ b.toNat && b.toNat < 0xC0

/-- Whether `b` may follow the lead byte `a` of three or four: overlong forms, surrogates and
values past the last plane are ruled out by the second byte. -/
def mayFollow (a b : UInt8) : Bool :=
  isContinuation b &&
    (a.toNat != 0xE0 || 0xA0 ≤ b.toNat) && (a.toNat != 0xED || b.toNat < 0xA0) &&
    (a.toNat != 0xF0 || 0x90 ≤ b.toNat) && (a.toNat != 0xF4 || b.toNat < 0x90)

/-- The character with the six low bits of each byte after the bits `lead`. -/
def assemble (lead : Nat) (tail : Bytes) : Char :=
  Char.ofNat (tail.foldl (fun n b => n * 64 + b.toNat % 64) lead)

/-- What stands at the front. -/
def step : Bytes → Step
  | [] => .done
  | a :: r =>
    if a.toNat < 0x80 then .char (Char.ofNat a.toNat) r
    else if a.toNat < 0xC2 then .defect .start 1
    else if a.toNat < 0xE0 then
      match r with
      | [] => .defect .ending 1
      | b :: r =>
        if isContinuation b then .char (assemble (a.toNat % 32) [b]) r
        else .defect .continuation 1
    else if a.toNat < 0xF0 then
      match r with
      | [] => .defect .ending 1
      | b :: r =>
        if mayFollow a b then
          match r with
          | [] => .defect .ending 2
          | c :: r =>
            if isContinuation c then .char (assemble (a.toNat % 16) [b, c]) r
            else .defect .continuation 2
        else .defect .continuation 1
    else if a.toNat < 0xF5 then
      match r with
      | [] => .defect .ending 1
      | b :: r =>
        if mayFollow a b then
          match r with
          | [] => .defect .ending 2
          | c :: r =>
            if isContinuation c then
              match r with
              | [] => .defect .ending 3
              | d :: r =>
                if isContinuation d then .char (assemble (a.toNat % 8) [b, c, d]) r
                else .defect .continuation 3
            else .defect .continuation 2
        else .defect .continuation 1
    else .defect .start 1

/-- A character takes at least one byte. -/
theorem length_lt_of_step {s r : Bytes} {c : Char} (h : step s = .char c r) :
    r.length < s.length := by
  unfold step at h
  repeat' split at h
  all_goals simp at h
  all_goals obtain ⟨-, rfl⟩ := h; simp only [List.length_cons]; omega

/-- The bytes that could not be read, counted from the front of the text. -/
structure Undecodable where
  first : Nat
  bytes : Bytes
  reason : Defect
  deriving DecidableEq, Repr

def Undecodable.message (u : Undecodable) : String :=
  let place := match u.bytes with
    | [b] =>
      "byte 0x" ++ String.ofList (Text.hexDigits 2 b.toNat) ++ s!" in position {u.first}"
    | bytes => s!"bytes in position {u.first}-" ++ toString (u.first + bytes.length - 1)
  "'utf-8' codec can't decode " ++ place ++ ": " ++ u.reason.message

/-- Strict reading; `first` is the position of the next byte. -/
def decodeFrom (first : Nat) (s : Bytes) : Except Undecodable (List Char) :=
  match h : step s with
  | .done => .ok []
  | .char c r =>
    have := length_lt_of_step h
    match decodeFrom (first + c.utf8Size) r with
    | .ok cs => .ok (c :: cs)
    | .error e => .error e
  | .defect reason width => .error ⟨first, s.take width, reason⟩
termination_by s.length

/-- The text whose UTF-8 form the bytes are. -/
def decode (s : Bytes) : Except Undecodable (List Char) :=
  decodeFrom 0 s

/-- The UTF-8 form of a text. -/
def encode (s : List Char) : Bytes :=
  s.flatMap String.utf8EncodeChar

@[simp] theorem encode_nil : encode [] = [] := rfl

@[simp] theorem encode_cons (c : Char) (s : List Char) :
    encode (c :: s) = String.utf8EncodeChar c ++ encode s := rfl

@[simp] theorem encode_append (s t : List Char) : encode (s ++ t) = encode s ++ encode t := by
  simp [encode]

end Utf8

/-- The UTF-8 bytes of a string. -/
def Bytes.ofString (s : String) : Bytes :=
  Utf8.encode s.toList

end CrossBuild
