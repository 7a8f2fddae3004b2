/-!
# Bytes

The content of files, and numbers as bytes in both orders.
-/

namespace CrossBuild

/-- The content of a file. -/
abbrev Bytes := List UInt8

namespace Bytes

/-- A number in `width` bytes, the lowest first. -/
def littleEndian : Nat → Nat → Bytes
  | 0, _ => []
  | width + 1, n => UInt8.ofNat n :: littleEndian width (n / 256)

/-- A number in `width` bytes, the highest first. -/
def bigEndian (width n : Nat) : Bytes :=
  (littleEndian width n).reverse

/-- The number in some bytes, the lowest first. -/
def toNat (bytes : Bytes) : Nat :=
  bytes.foldr (fun b n => b.toNat + 256 * n) 0

@[simp] theorem length_littleEndian (width n : Nat) : (littleEndian width n).length = width := by
  induction width generalizing n with
  | zero => rfl
  | succ width ih => simp [littleEndian, ih]

@[simp] theorem length_bigEndian (width n : Nat) : (bigEndian width n).length = width := by
  simp [bigEndian]

/-- Reading takes the lowest byte off, and the rest is read from the number without it. -/
theorem toNat_littleEndian_succ (width n : Nat) :
    toNat (littleEndian (width + 1) n) = n % 256 + 256 * toNat (littleEndian width (n / 256)) := by
  simp [toNat, littleEndian]

end Bytes

end CrossBuild
