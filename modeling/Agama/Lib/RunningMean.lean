import Mathlib.Tactic

/-!
# Running means

A mean that is kept as one number and rounded down at every entry, against the exact mean. A lot of
`added` units at `price` enters `before` units that are held at `entry`, and the new mean is the
weighted one, floored. The floored mean never exceeds the exact one, falls behind it by less than
one for each lot, and stays between the lowest and the highest price. What leaves the holding leaves
the mean alone, and the first lot into an empty holding starts afresh.
-/

namespace RunningMean

/-- The floored weighted mean. -/
def floored (entry before added price : ℕ) : ℕ :=
  (entry * before + price * added) / (before + added)

/-- What entered since the holding was last empty: the exact mean, how many lots, and the lowest and
the highest price among them. -/
structure Record where
  mean : ℚ
  lots : ℕ
  lowest : ℕ
  highest : ℕ

/-- A lot enters. -/
def Record.enter (r : Record) (before added price : ℕ) : Record :=
  if before = 0 then ⟨price, 1, price, price⟩
  else
    { mean := (r.mean * before + price * added) / (before + added)
      lots := r.lots + 1
      lowest := min r.lowest price
      highest := max r.highest price }

/-- How the kept number follows the record, while there is something to average over. -/
structure Follows (r : Record) (entry : ℕ) : Prop where
  le_mean : (entry : ℚ) ≤ r.mean
  mean_lt : r.mean - entry < r.lots
  lowest : r.lowest ≤ entry
  highest : entry ≤ r.highest

/-- The mean of the first entry is its price. -/
theorem floored_of_empty {entry added price : ℕ} (hadded : 0 < added) :
    floored entry 0 added price = price := by
  rw [floored, Nat.mul_zero, Nat.zero_add, Nat.zero_add, Nat.mul_div_cancel _ hadded]

/-- A lot into an empty holding. -/
theorem follows_enter_of_empty (r : Record) {entry added price : ℕ} (hadded : 0 < added) :
    Follows (r.enter 0 added price) (floored entry 0 added price) := by
  rw [floored_of_empty hadded, Record.enter, if_pos rfl]
  exact ⟨le_rfl, by simp, le_rfl, le_rfl⟩

/-- Any other lot. -/
theorem Follows.enter {r : Record} {entry before added price : ℕ} (h : Follows r entry)
    (hbefore : 0 < before) :
    Follows (r.enter before added price) (floored entry before added price) := by
  have hsum : 0 < before + added := Nat.add_pos_left hbefore added
  have hpos : (0 : ℚ) < before + added := by exact_mod_cast hsum
  have hfloor : floored entry before added price * (before + added) ≤
      entry * before + price * added := Nat.div_mul_le_self _ _
  have hceil : entry * before + price * added <
      (before + added) * (floored entry before added price + 1) := Nat.lt_mul_div_succ _ hsum
  have hfloor' : (floored entry before added price : ℚ) * (before + added) ≤
      entry * before + price * added := by exact_mod_cast hfloor
  have hceil' : (entry * before + price * added : ℚ) <
      (before + added) * (floored entry before added price + 1) := by exact_mod_cast hceil
  have hbefore' : (0 : ℚ) ≤ before := Nat.cast_nonneg _
  have hadded' : (0 : ℚ) ≤ added := Nat.cast_nonneg _
  rw [Record.enter, if_neg hbefore.ne']
  refine ⟨?_, ?_, ?_, ?_⟩
  · rw [le_div_iff₀ hpos]
    have := mul_le_mul_of_nonneg_right h.le_mean hbefore'
    linarith
  · -- The old lag counts at most once, and the new remainder is below one unit.
    have hlag : (r.mean - entry) * before ≤ r.lots * (before + added) := by
      have hlots : (0 : ℚ) ≤ r.lots := Nat.cast_nonneg _
      nlinarith [h.mean_lt]
    rw [sub_lt_iff_lt_add, div_lt_iff₀ hpos]
    push_cast
    linarith
  · rw [floored, Nat.le_div_iff_mul_le hsum, Nat.mul_add]
    exact Nat.add_le_add (Nat.mul_le_mul_right _ ((min_le_left _ _).trans h.lowest))
      (Nat.mul_le_mul_right _ (min_le_right _ _))
  · refine Nat.div_le_of_le_mul ?_
    rw [Nat.add_mul, Nat.mul_comm entry, Nat.mul_comm price]
    exact Nat.add_le_add (Nat.mul_le_mul_left _ (h.highest.trans (le_max_left _ _)))
      (Nat.mul_le_mul_left _ (le_max_right _ _))

end RunningMean
