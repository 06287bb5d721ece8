import Mathlib.Tactic

/-!
# Texts

What can be read back from a byte string: a field up to the first delimiter, a decimal numeral, and
a string of known length from its base58.
-/

namespace Text

/-- A delimiter that occurs in neither of two fields ends both at the same place. -/
theorem field_unique {α : Type*} {a : α} {l l' r r' : List α} (hl : a ∉ l) (hl' : a ∉ l')
    (h : l ++ a :: r = l' ++ a :: r') : l = l' ∧ r = r' := by
  induction l generalizing l' with
  | nil =>
    cases l' with
    | nil =>
      rw [List.nil_append, List.nil_append, List.cons.injEq] at h
      exact ⟨rfl, h.2⟩
    | cons b l' =>
      rw [List.nil_append, List.cons_append, List.cons.injEq] at h
      exact absurd (List.mem_cons.mpr (.inl h.1)) hl'
  | cons b l ih =>
    cases l' with
    | nil =>
      rw [List.nil_append, List.cons_append, List.cons.injEq] at h
      exact absurd (List.mem_cons.mpr (.inl h.1.symm)) hl
    | cons b' l' =>
      rw [List.cons_append, List.cons_append, List.cons.injEq] at h
      obtain ⟨rfl, h⟩ := h
      obtain ⟨rfl, rfl⟩ := ih (List.not_mem_of_not_mem_cons hl)
        (List.not_mem_of_not_mem_cons hl') h
      exact ⟨rfl, rfl⟩

/-- The digits of a number, most significant first. Zero has one. -/
def digits (n : ℕ) : List ℕ := if n = 0 then [0] else (Nat.digits 10 n).reverse

/-- The numeral of a number in ASCII. -/
def numeral (n : ℕ) : List UInt8 := (digits n).map fun d => UInt8.ofNat (48 + d)

/-- The digits are decimal digits. -/
theorem digits_lt {n d : ℕ} (h : d ∈ digits n) : d < 10 := by
  unfold digits at h
  split at h
  · simp_all
  · exact Nat.digits_lt_base (by decide) (List.mem_reverse.mp h)

/-- The number that an ASCII numeral denotes. -/
def read (l : List UInt8) : ℕ := Nat.ofDigits 10 (l.map fun b => b.toNat - 48).reverse

/-- A numeral reads back as its number. -/
theorem read_numeral (n : ℕ) : read (numeral n) = n := by
  have hdigits : ((numeral n).map fun b => b.toNat - 48) = digits n := by
    rw [numeral, List.map_map]
    refine (List.map_congr_left fun d hd => ?_).trans (List.map_id _)
    have := digits_lt hd
    simp only [Function.comp_apply, UInt8.toNat_ofNat', id_eq]
    omega
  rw [read, hdigits, digits]
  split
  · simp_all
  · rw [List.reverse_reverse, Nat.ofDigits_digits]

/-- A numeral starts with a digit. -/
theorem exists_digit (n : ℕ) : ∃ d l, numeral n = UInt8.ofNat (48 + d) :: l ∧ d < 10 := by
  have hne : digits n ≠ [] := by
    unfold digits
    split
    · simp
    · simpa using Nat.digits_ne_nil_iff_ne_zero.mpr ‹_›
  obtain ⟨d, l, hd⟩ := List.exists_cons_of_ne_nil hne
  exact ⟨d, _, by rw [numeral, hd, List.map_cons], digits_lt (by rw [hd]; simp)⟩

/-! ## Base58 -/

/-- The alphabet, without the letters and digits that look alike. -/
def alphabet : List UInt8 :=
  "123456789ABCDEFGHJKLMNPQRSTUVWXYZabcdefghijkmnopqrstuvwxyz".toList.map fun c =>
    UInt8.ofNat c.toNat

/-- The number that a byte string encodes, most significant byte first. -/
def bigEndian (l : List UInt8) : ℕ := Nat.ofDigits 256 (l.map UInt8.toNat).reverse

/-- A byte string in base58: a `1` for each zero byte that it starts with, then its number. -/
def base58 (l : List UInt8) : List UInt8 :=
  List.replicate (l.takeWhile (· = 0)).length 49 ++
    (Nat.digits 58 (bigEndian l)).reverse.map fun d => alphabet.getD d 49

/-- A letter of the alphabet stands where it is looked up. -/
theorem idxOf_alphabet {d : ℕ} (h : d < 58) : alphabet.idxOf (alphabet.getD d 49) = d := by
  revert d
  decide +kernel

/-- No letter of the alphabet is a space. -/
theorem space_notMem_base58 (l : List UInt8) : 0x20 ∉ base58 l := by
  intro h
  rcases List.mem_append.mp h with h | h
  · exact absurd (List.eq_of_mem_replicate h) (by decide)
  · obtain ⟨d, hd, hspace⟩ := List.mem_map.mp h
    have hlt : d < 58 := Nat.digits_lt_base (by decide) (List.mem_reverse.mp hd)
    have hne : ∀ d < 58, alphabet.getD d 49 ≠ 0x20 := by decide +kernel
    exact hne d hlt hspace

/-- The letters give the number back. -/
theorem ofDigits_base58 (l : List UInt8) :
    Nat.ofDigits 58 ((base58 l).map fun b => alphabet.idxOf b).reverse = bigEndian l := by
  have hdigits : ((Nat.digits 58 (bigEndian l)).reverse.map fun d => alphabet.getD d 49).map
      (fun b => alphabet.idxOf b) = (Nat.digits 58 (bigEndian l)).reverse := by
    rw [List.map_map]
    refine (List.map_congr_left fun d hd => ?_).trans (List.map_id _)
    exact idxOf_alphabet (Nat.digits_lt_base (by decide) (List.mem_reverse.mp hd))
  have hone : alphabet.idxOf 49 = 0 := by decide +kernel
  rw [base58, List.map_append, List.map_replicate, hone, hdigits, List.reverse_append,
    List.reverse_reverse, List.reverse_replicate, Nat.ofDigits_append_replicate_zero,
    Nat.ofDigits_digits]

/-- Among strings of one length, base58 names each. -/
theorem base58_injective {l l' : List UInt8} (hlength : l.length = l'.length)
    (h : base58 l = base58 l') : l = l' := by
  have hnumber : bigEndian l = bigEndian l' := by
    rw [← ofDigits_base58 l, h, ofDigits_base58]
  have hlt (l : List UInt8) : ∀ d ∈ (l.map UInt8.toNat).reverse, d < 256 := by
    intro d hd
    obtain ⟨b, -, rfl⟩ := List.mem_map.mp (List.mem_reverse.mp hd)
    exact b.toNat_lt
  have hdigits := Nat.ofDigits_inj_of_len_eq (by decide) (by simp [hlength]) (hlt l) (hlt l')
    hnumber
  exact List.map_injective_iff.mpr (fun a b => UInt8.toNat_inj.mp)
    (List.reverse_injective hdigits)

end Text
