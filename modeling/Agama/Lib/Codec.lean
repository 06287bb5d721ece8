import Agama.Lib.LittleEndian

/-!
# Fixed-width formats

A `Codec` writes a value in a fixed number of bytes and reads it off the front of a byte string. Its
one law says that reading gives a value exactly when the string starts with what that value is
written as, so a format made of others inherits both directions from them: what was written reads
back (`decode_encode`), and what is read was written (`decode_eq_some`). A value outside `Valid` has
no encoding of its own.
-/

/-- A format of fixed width. -/
structure Codec (α : Type) where
  /-- The number of bytes. -/
  width : ℕ
  /-- The values that the format represents. -/
  Valid : α → Prop
  encode : α → List UInt8
  /-- A value off the front of some bytes, and the bytes after it. -/
  decode : List UInt8 → Option (α × List UInt8)
  length_encode : ∀ a, (encode a).length = width
  decode_eq_some : ∀ {bs : List UInt8} {a : α} {rest : List UInt8},
    decode bs = some (a, rest) ↔ Valid a ∧ bs = encode a ++ rest

namespace Codec

open LittleEndian

variable {α β : Type}

/-! ## Laws -/

/-- What was written reads back, whatever follows it. -/
theorem decode_encode (c : Codec α) {a : α} (h : c.Valid a) (rest : List UInt8) :
    c.decode (c.encode a ++ rest) = some (a, rest) := c.decode_eq_some.mpr ⟨h, rfl⟩

/-- Too few bytes decode to nothing. -/
theorem decode_eq_none (c : Codec α) {bs : List UInt8} (h : bs.length < c.width) :
    c.decode bs = none := by
  cases hread : c.decode bs with
  | none => rfl
  | some r =>
    obtain ⟨-, rfl⟩ := c.decode_eq_some.mp hread
    rw [List.length_append, c.length_encode] at h
    omega

/-! ## Words -/

/-- A byte. -/
def byte : Codec UInt8 where
  width := 1
  Valid _ := True
  encode b := [b]
  decode
    | [] => none
    | b :: rest => some (b, rest)
  length_encode _ := rfl
  decode_eq_some := by
    intro bs a rest
    cases bs with
    | nil => simp
    | cons b bs => simp

/-- A `w`-bit word in `k` bytes, least significant first. -/
def word (w k : ℕ) (h : 256 ^ k = 2 ^ w) : Codec (Fin (2 ^ w)) where
  width := k
  Valid _ := True
  encode a := leBytes k a.val
  decode bs :=
    if hk : k ≤ bs.length then
      some (⟨leNat (bs.take k), by
        have hlt := leNat_lt (bs.take k)
        rwa [List.length_take_of_le hk, h] at hlt⟩, bs.drop k)
    else none
  length_encode a := length_leBytes k a.val
  decode_eq_some := by
    intro bs a rest
    constructor
    · intro hread
      split at hread
      · rename_i hk
        rw [Option.some.injEq, Prod.mk.injEq] at hread
        obtain ⟨rfl, rfl⟩ := hread
        have hback := leBytes_leNat (bs.take k)
        rw [List.length_take_of_le hk] at hback
        exact ⟨trivial, by rw [hback, List.take_append_drop]⟩
      · cases hread
    · rintro ⟨-, rfl⟩
      have hk : k ≤ (leBytes k a.val ++ rest).length := by simp
      rw [dif_pos hk, Option.some.injEq, Prod.mk.injEq]
      refine ⟨Fin.ext ?_, List.drop_left' (length_leBytes k a.val)⟩
      simp only [List.take_left' (length_leBytes k a.val), leNat_leBytes, h,
        Nat.mod_eq_of_lt a.isLt]

/-! ## Formats from formats -/

/-- Two values, one after the other. -/
def pair (c : Codec α) (d : Codec β) : Codec (α × β) where
  width := c.width + d.width
  Valid p := c.Valid p.1 ∧ d.Valid p.2
  encode p := c.encode p.1 ++ d.encode p.2
  decode bs := do
    let (a, bs) ← c.decode bs
    let (b, rest) ← d.decode bs
    some ((a, b), rest)
  length_encode p := by rw [List.length_append, c.length_encode, d.length_encode]
  decode_eq_some := by
    rintro bs ⟨a, b⟩ rest
    simp only [Option.bind_eq_bind, Option.bind_eq_some_iff, Option.some.injEq, Prod.mk.injEq,
      Prod.exists, c.decode_eq_some, d.decode_eq_some]
    constructor
    · rintro ⟨a, _, ⟨ha, rfl⟩, b, _, ⟨hb, rfl⟩, ⟨rfl, rfl⟩, rfl⟩
      exact ⟨⟨ha, hb⟩, (List.append_assoc ..).symm⟩
    · rintro ⟨⟨ha, hb⟩, rfl⟩
      exact ⟨a, _, ⟨ha, List.append_assoc ..⟩, b, rest, ⟨hb, rfl⟩, ⟨rfl, rfl⟩, rfl⟩

/-- Values that are represented by others: `view` reads a representation, and fails on those that
represent nothing. -/
def via (c : Codec α) (view : α → Option β) (repr : β → α) (Valid : β → Prop)
    (h : ∀ a b, view a = some b ↔ Valid b ∧ repr b = a) : Codec β where
  width := c.width
  Valid b := Valid b ∧ c.Valid (repr b)
  encode b := c.encode (repr b)
  decode bs := do
    let (a, rest) ← c.decode bs
    let b ← view a
    some (b, rest)
  length_encode b := c.length_encode (repr b)
  decode_eq_some := by
    intro bs b rest
    simp only [Option.bind_eq_bind, Option.bind_eq_some_iff, Option.some.injEq, Prod.mk.injEq,
      Prod.exists, c.decode_eq_some, h]
    constructor
    · rintro ⟨a, _, ⟨ha, rfl⟩, b, ⟨hb, rfl⟩, rfl, rfl⟩
      exact ⟨⟨hb, ha⟩, rfl⟩
    · rintro ⟨⟨hb, hr⟩, rfl⟩
      exact ⟨repr b, rest, ⟨hr, rfl⟩, b, ⟨hb, rfl⟩, rfl, rfl⟩

/-- The fields of a record. -/
def record (c : Codec α) (e : α ≃ β) : Codec β :=
  c.via (fun a => some (e a)) e.symm (fun _ => True) fun a b => by
    rw [Option.some.injEq, ← Equiv.eq_symm_apply, true_and]
    exact eq_comm

/-- An integer's residue, as a word. -/
def residue (w : ℕ) (z : ℤ) : Fin (2 ^ w) := ⟨(z % 2 ^ w).toNat, by
  have hpos : (0 : ℤ) < 2 ^ w := by positivity
  zify
  rw [Int.toNat_of_nonneg (Int.emod_nonneg z hpos.ne')]
  exact Int.emod_lt_of_pos z hpos⟩

/-- A word in two's complement. -/
def twosComplement (w : ℕ) (n : Fin (2 ^ (w + 1))) : ℤ :=
  if (n.val : ℤ) < 2 ^ w then n.val else n.val - 2 ^ (w + 1)

/-- Two's complement and the residue are inverse, for integers that fit. -/
theorem twosComplement_eq_iff {w : ℕ} {n : Fin (2 ^ (w + 1))} {z : ℤ} :
    twosComplement w n = z ↔ (-2 ^ w ≤ z ∧ z < 2 ^ w) ∧ residue (w + 1) z = n := by
  have hn : (n.val : ℤ) < 2 ^ (w + 1) := by exact_mod_cast n.isLt
  have hres : residue (w + 1) z = n ↔ z % 2 ^ (w + 1) = n.val := by
    have hnonneg : 0 ≤ z % 2 ^ (w + 1) := Int.emod_nonneg z (by positivity)
    rw [Fin.ext_iff]
    change (z % 2 ^ (w + 1)).toNat = n.val ↔ _
    omega
  rw [hres, twosComplement]
  have hdouble : (2 : ℤ) ^ (w + 1) = 2 * 2 ^ w := by rw [pow_succ, mul_comm]
  rw [hdouble] at hn ⊢
  generalize (2 : ℤ) ^ w = m at hn ⊢
  -- The residue of a negative integer is the integer, one modulus up.
  have hshift : z % (2 * m) = (z + 2 * m) % (2 * m) := (Int.add_emod_right z (2 * m)).symm
  constructor
  · intro h
    split_ifs at h with hlow
    · subst h
      exact ⟨by omega, Int.emod_eq_of_lt (by omega) (by omega)⟩
    · subst h
      rw [hshift, Int.emod_eq_of_lt (by omega) (by omega)]
      omega
  · rintro ⟨⟨hlo, hhi⟩, hz⟩
    rcases le_or_gt 0 z with hpos | hneg
    · rw [Int.emod_eq_of_lt hpos (by omega)] at hz
      rw [if_pos (by omega), hz]
    · rw [hshift, Int.emod_eq_of_lt (by omega) (by omega)] at hz
      rw [if_neg (by omega)]
      omega

/-- A signed word, in two's complement. -/
def signed (w k : ℕ) (h : 256 ^ k = 2 ^ (w + 1)) : Codec ℤ :=
  (word (w + 1) k h).via (fun n => some (twosComplement w n)) (residue (w + 1))
    (fun z => -2 ^ w ≤ z ∧ z < 2 ^ w) fun _ _ => by
      rw [Option.some.injEq, twosComplement_eq_iff]

/-- An octet. -/
def octet : Codec (Fin (2 ^ 8)) := word 8 1 rfl

/-- A truth value in a byte, which no other byte represents. -/
def bool : Codec Bool :=
  octet.via
    (fun n => if n.val = 0 then some false else if n.val = 1 then some true else none)
    (fun b => if b then ⟨1, by norm_num⟩ else ⟨0, by norm_num⟩) (fun _ => True) fun n b => by
      rw [true_and, Fin.ext_iff]
      split_ifs <;> cases b <;> simp_all <;> omega

/-- `n` values, one after the other. -/
def vector (c : Codec α) : (n : ℕ) → Codec (List.Vector α n)
  | 0 =>
    { width := 0
      Valid := fun _ => True
      encode := fun _ => []
      decode := fun bs => some (List.Vector.nil, bs)
      length_encode := fun _ => rfl
      decode_eq_some := by
        intro bs a rest
        simp only [Option.some.injEq, Prod.mk.injEq, List.Vector.eq_nil, true_and,
          List.nil_append] }
  | n + 1 => (c.pair (vector c n)).record
      ⟨fun p => p.1 ::ᵥ p.2, fun v => (v.head, v.tail), fun p => by simp, fun v => by simp⟩

/-! ## Formats of every value -/

/-- A format represents every value of its type. -/
def Total (c : Codec α) : Prop := ∀ a, c.Valid a

/-- Every byte can be written. -/
theorem total_byte : byte.Total := fun _ => trivial

/-- Every word can be written. -/
theorem total_word {w k : ℕ} {h : 256 ^ k = 2 ^ w} : (word w k h).Total := fun _ => trivial

/-- Every octet can be written. -/
theorem total_octet : octet.Total := total_word

/-- Every boolean can be written. -/
theorem total_bool : bool.Total := fun _ => ⟨trivial, trivial⟩

/-- A pair can be written when its parts can. -/
theorem Total.pair {c : Codec α} {d : Codec β} (hc : c.Total) (hd : d.Total) :
    (c.pair d).Total := fun p => ⟨hc p.1, hd p.2⟩

/-- A record can when its fields can. -/
theorem Total.record {c : Codec α} (hc : c.Total) (e : α ≃ β) : (c.record e).Total := fun _ =>
  ⟨trivial, hc _⟩

/-- A vector can when its elements can. -/
theorem Total.vector {c : Codec α} (hc : c.Total) : (n : ℕ) → (c.vector n).Total
  | 0 => fun _ => trivial
  | n + 1 => (hc.pair (hc.vector n)).record _

end Codec
