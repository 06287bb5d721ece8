import Mathlib.Tactic

/-!
# Sums of floored quotients

A sum of quotients, each rounded down, against the quotient of the sum. The parts lose their
remainders: together they are at most the whole, they are the whole exactly when the remainders add
up to less than one unit, and they miss it by less than one unit a part.

So an amount may be apportioned by weights with every share but one rounded down, and that one the
rest: the rest is its own exact share and what the others lost (`rest_mul`), which is at most a unit
for each of them.
-/

namespace FlooredSums

/-- The floored parts and their remainders make up the sum. -/
theorem sum_div_mul_add (d : ℕ) (xs : List ℕ) :
    (xs.map (· / d)).sum * d + (xs.map (· % d)).sum = xs.sum := by
  induction xs with
  | nil => simp
  | cons x xs ih =>
    have hx := Nat.div_add_mod' x d
    rw [List.map_cons, List.sum_cons, List.map_cons, List.sum_cons, List.sum_cons, Nat.add_mul]
    omega

/-- Floored parts are at most the floored whole. -/
theorem sum_div_le {d : ℕ} (hd : 0 < d) (xs : List ℕ) : (xs.map (· / d)).sum ≤ xs.sum / d := by
  rw [Nat.le_div_iff_mul_le hd]
  exact (Nat.le_add_right _ _).trans (sum_div_mul_add d xs).le

/-- Floored parts are the floored whole exactly when the remainders stay below one unit. -/
theorem sum_div_eq_iff {d : ℕ} (hd : 0 < d) (xs : List ℕ) :
    (xs.map (· / d)).sum = xs.sum / d ↔ (xs.map (· % d)).sum < d := by
  have hsum := sum_div_mul_add d xs
  have hmod := Nat.div_add_mod' xs.sum d
  constructor
  · intro heq
    rw [heq] at hsum
    have hlt := Nat.mod_lt xs.sum hd
    omega
  · intro hlt
    rw [← hsum, Nat.mul_comm, Nat.mul_add_div hd, Nat.div_eq_of_lt hlt, Nat.add_zero]

/-- Each floored part misses less than one unit. -/
theorem sum_lt {d : ℕ} (hd : 0 < d) {xs : List ℕ} (hne : xs ≠ []) :
    xs.sum < ((xs.map (· / d)).sum + xs.length) * d := by
  have hsum := sum_div_mul_add d xs
  have hrem : (xs.map (· % d)).sum < xs.length * d := by
    induction xs with
    | nil => exact absurd rfl hne
    | cons x xs ih =>
      have hx := Nat.mod_lt x hd
      rw [List.map_cons, List.sum_cons, List.length_cons, Nat.add_mul, Nat.one_mul]
      cases xs with
      | nil => simpa using hx
      | cons y ys =>
        have := ih (List.cons_ne_nil y ys) (sum_div_mul_add d _)
        omega
  rw [Nat.add_mul]
  omega

/-- The remainders are at most a unit a part. -/
theorem sum_mod_le {d : ℕ} (hd : 0 < d) (xs : List ℕ) :
    (xs.map (· % d)).sum ≤ xs.length * d := by
  have hle : (xs.map (· % d)).sum ≤ (xs.map (· % d)).length • d := by
    refine List.sum_le_card_nsmul _ d fun r hr => ?_
    obtain ⟨x, -, rfl⟩ := List.mem_map.mp hr
    exact (Nat.mod_lt x hd).le
  rwa [List.length_map, smul_eq_mul] at hle

/-! ## Apportioning by weights -/

/-- The floored shares of `a`, for the weights `ws` out of `d`. -/
def shares (a d : ℕ) (ws : List ℕ) : List ℕ := ws.map fun w => a * w / d

/-- There are no shares for nobody. -/
@[simp]
theorem shares_nil (a d : ℕ) : shares a d [] = [] := rfl

/-- The share of the first one, and those of the rest. -/
@[simp]
theorem shares_cons (a d w : ℕ) (ws : List ℕ) :
    shares a d (w :: ws) = a * w / d :: shares a d ws := rfl

section Rest

variable {a d w : ℕ} {ws : List ℕ}

/-- The shares, and what each loses, make up the weights' part of `a`. -/
theorem sum_shares_mul_add (a d : ℕ) (ws : List ℕ) :
    (shares a d ws).sum * d + (ws.map (a * · % d)).sum = a * ws.sum := by
  have hsum := sum_div_mul_add d (ws.map (a * ·))
  rwa [List.map_map, List.map_map, List.sum_map_mul_left, List.map_id'] at hsum

/-- The shares for some of the weights hand out no more than `a`. -/
theorem sum_shares_le (hd : 0 < d) (hweights : ws.sum + w = d) : (shares a d ws).sum ≤ a := by
  have hshares := sum_shares_mul_add a d ws
  have hle : a * ws.sum ≤ a * d := Nat.mul_le_mul_left a (by omega)
  exact Nat.le_of_mul_le_mul_right (by omega) hd

/-- The rest is the exact share of the weight left, and what the others lost. -/
theorem rest_mul (hweights : ws.sum + w = d) :
    (a - (shares a d ws).sum) * d = a * w + (ws.map (a * · % d)).sum := by
  have hshares := sum_shares_mul_add a d ws
  have hsplit : a * d = a * ws.sum + a * w := by rw [← hweights, Nat.mul_add]
  rw [Nat.sub_mul]
  omega

/-- A number is within `n` of a quotient when their products with the divisor are within `n` times
the divisor. -/
theorem abs_sub_div_le {x e n : ℕ} (hd : 0 < d) (hle : x * d ≤ e + n * d)
    (hge : e ≤ (x + n) * d) : |(x : ℚ) - e / d| ≤ n := by
  have hpos : (0 : ℚ) < d := by exact_mod_cast hd
  rw [abs_sub_le_iff]
  constructor
  · rw [sub_le_iff_le_add, ← sub_le_iff_le_add', le_div_iff₀ hpos, sub_mul, sub_le_iff_le_add]
    exact_mod_cast hle
  · rw [sub_le_iff_le_add, div_le_iff₀ hpos, add_comm (n : ℚ)]
    exact_mod_cast hge

/-- A floored share is within a unit of the exact one. -/
theorem share_near {n : ℕ} (hd : 0 < d) (hn : 1 ≤ n) :
    |((a * w / d : ℕ) : ℚ) - (a * w : ℕ) / d| ≤ n := by
  have hdiv := Nat.div_add_mod' (a * w) d
  have hmod := Nat.mod_lt (a * w) hd
  have hunit : 1 * d ≤ n * d := Nat.mul_le_mul_right d hn
  refine abs_sub_div_le hd (by omega) ?_
  rw [Nat.add_mul]
  omega

/-- The rest is within a unit of the exact share for each of the others. -/
theorem rest_near (hd : 0 < d) (hweights : ws.sum + w = d) :
    |((a - (shares a d ws).sum : ℕ) : ℚ) - (a * w : ℕ) / d| ≤ ws.length := by
  have hrest := rest_mul (a := a) hweights
  have hlost := sum_mod_le hd (ws.map (a * ·))
  rw [List.map_map, List.length_map] at hlost
  refine abs_sub_div_le hd (hrest.le.trans (Nat.add_le_add_left hlost _)) ?_
  rw [Nat.add_mul, hrest]
  omega

end Rest

end FlooredSums
