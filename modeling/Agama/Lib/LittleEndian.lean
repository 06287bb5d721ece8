import Mathlib.Tactic

/-!
# Little-endian numbers

`leNat` reads a byte string as a little-endian number, and `leBytes` writes a number in a fixed
count of bytes. They are inverse to each other on strings of that length and numbers that fit.
-/

namespace LittleEndian

/-- The number that a byte string encodes, least significant byte first. -/
def leNat : List UInt8 → ℕ
  | [] => 0
  | b :: bs => b.toNat + 256 * leNat bs

/-- A number in `k` bytes, least significant byte first. -/
def leBytes : ℕ → ℕ → List UInt8
  | 0, _ => []
  | k + 1, n => UInt8.ofNat n :: leBytes k (n / 256)

/-- A number has as many bytes as were asked for. -/
@[simp]
theorem length_leBytes (k n : ℕ) : (leBytes k n).length = k := by
  induction k generalizing n with
  | zero => rfl
  | succ k ih => simp [leBytes, ih]

/-- Reading back what was written gives the number, modulo the width. -/
theorem leNat_leBytes (k n : ℕ) : leNat (leBytes k n) = n % 256 ^ k := by
  induction k generalizing n with
  | zero => simp [leBytes, leNat, Nat.mod_one]
  | succ k ih =>
    rw [leBytes, leNat, ih, pow_succ, Nat.mul_comm (256 ^ k), Nat.mod_mul]
    simp

/-- Writing back what was read gives the bytes. -/
theorem leBytes_leNat (l : List UInt8) : leBytes l.length (leNat l) = l := by
  induction l with
  | nil => rfl
  | cons b l ih =>
    have hb := b.toNat_lt
    have hlow : UInt8.ofNat (b.toNat + 256 * leNat l) = b := by
      apply UInt8.toNat_inj.mp
      rw [UInt8.toNat_ofNat']
      omega
    have hrest : (b.toNat + 256 * leNat l) / 256 = leNat l := by omega
    rw [List.length_cons, leNat, leBytes, hlow, hrest, ih]

/-- Some bytes encode a number below their width. -/
theorem leNat_lt (l : List UInt8) : leNat l < 256 ^ l.length := by
  induction l with
  | nil => exact Nat.one_pos
  | cons b l ih =>
    have hb := b.toNat_lt
    rw [leNat, List.length_cons, pow_succ]
    omega

/-- Numbers in fields of given widths, one after the other. -/
def leFields (fields : List (ℕ × ℕ)) : List UInt8 := fields.flatMap fun f => leBytes f.1 f.2

/-- The fields have as many bytes as their widths add up to. -/
@[simp]
theorem length_leFields (fields : List (ℕ × ℕ)) :
    (leFields fields).length = (fields.map Prod.fst).sum := by
  simp [leFields, List.length_flatMap]

/-- A field reads back from its place, after a header and the fields before it. -/
theorem leNat_field (header : List UInt8) (before after : List (ℕ × ℕ)) (k n : ℕ) :
    leNat (((header ++ leFields (before ++ (k, n) :: after)).drop
      (header.length + (before.map Prod.fst).sum)).take k) = n % 256 ^ k := by
  have hsplit : leFields (before ++ (k, n) :: after) =
      leFields before ++ (leBytes k n ++ leFields after) := by simp [leFields]
  have hplace : header.length + (before.map Prod.fst).sum = (header ++ leFields before).length := by
    rw [List.length_append, length_leFields]
  rw [hsplit, hplace, ← List.append_assoc, List.drop_left, List.take_left' (length_leBytes k n),
    leNat_leBytes]

end LittleEndian
