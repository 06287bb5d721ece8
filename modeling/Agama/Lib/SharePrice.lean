import Mathlib.Tactic

/-!
# Share prices

A pool of `N` units of value and `S` shares, whose price is `N / S`, compared across by
multiplication. Entering mints `a * S / N` shares for `a` units and leaving pays `s * N / S` units
for `s` shares, both rounded down, so neither lowers the price of the shares that stay.

The second half compares two views of one pool, `(N, S)` and `(N + n, S + m)`, where `n` units and
`m` shares are not yet in the first. Their `gap` is nonnegative exactly when the first view's price
is at most the second's. Flow that is priced on the later view never narrows it; what flow priced on
the earlier view and a revaluation of both do to it is an identity.
-/

namespace SharePrice

/-! ## One pool -/

/-- The price `N / S` is at most the price `N' / S'`. -/
def PriceLe (N S N' S' : ℤ) : Prop := N * S' ≤ N' * S

/-- A price is not below itself. -/
theorem PriceLe.refl (N S : ℤ) : PriceLe N S N S := le_refl (N * S)

/-- Minted shares are worth at most what they cost. -/
theorem mint_mul_le (a S N : ℕ) : ((a * S / N : ℕ) : ℤ) * N ≤ (a : ℤ) * S := by
  exact_mod_cast Nat.div_mul_le_self (a * S) N

/-- Entering at no less than a price keeps every price that is at least it. -/
theorem PriceLe.enter {N S N' S' a y : ℤ} (h : PriceLe N S N' S') (hy : y * N ≤ a * S) :
    PriceLe N S (N' + a) (S' + y) := by
  unfold PriceLe at *
  linarith

/-- Leaving at no more than the price does not lower it. -/
theorem PriceLe.leave {N S s x : ℤ} (hx : x * S ≤ s * N) : PriceLe N S (N - x) (S - s) := by
  unfold PriceLe
  linarith

/-- Entering at the floored price does not lower the price. -/
theorem PriceLe.mint (a S N : ℕ) : PriceLe N S ((N : ℤ) + a) ((S : ℤ) + (a * S / N : ℕ)) :=
  (PriceLe.refl _ _).enter (mint_mul_le a S N)

/-- Leaving at the floored price does not lower the price. -/
theorem PriceLe.burn (s N S : ℕ) : PriceLe N S ((N : ℤ) - (s * N / S : ℕ)) ((S : ℤ) - s) :=
  .leave (mint_mul_le s N S)

/-- Prices compare through a pool that has shares. -/
theorem PriceLe.trans {N S N' S' N'' S'' : ℤ} (h : PriceLe N S N' S') (h' : PriceLe N' S' N'' S'')
    (hS : 0 ≤ S) (hS' : 0 < S') (hS'' : 0 ≤ S'') : PriceLe N S N'' S'' := by
  refine le_of_mul_le_mul_right ?_ hS'
  calc N * S'' * S' = N * S' * S'' := by ring
    _ ≤ N' * S * S'' := mul_le_mul_of_nonneg_right h hS''
    _ = N' * S'' * S := by ring
    _ ≤ N'' * S' * S := mul_le_mul_of_nonneg_right h' hS
    _ = N'' * S * S' := by ring

/-- What shares are worth at a price, they are worth at a higher one. -/
theorem PriceLe.worth_le {N S N' S' s x : ℤ} (h : PriceLe N S N' S') (hS : 0 < S) (hS' : 0 ≤ S')
    (hs : 0 ≤ s) (hx : x * S ≤ s * N) : x * S' ≤ s * N' := by
  refine le_of_mul_le_mul_right ?_ hS
  calc x * S' * S = x * S * S' := by ring
    _ ≤ s * N * S' := mul_le_mul_of_nonneg_right hx hS'
    _ = s * (N * S') := by ring
    _ ≤ s * (N' * S) := mul_le_mul_of_nonneg_left h hs
    _ = s * N' * S := by ring

/-- What units buy at a price, they buy at a lower one. -/
theorem PriceLe.bought_le {N S N' S' a y : ℤ} (h : PriceLe N S N' S') (hN : 0 ≤ N) (hN' : 0 < N')
    (ha : 0 ≤ a) (hy : y * N' ≤ a * S') : y * N ≤ a * S := by
  refine le_of_mul_le_mul_right ?_ hN'
  calc y * N * N' = y * N' * N := by ring
    _ ≤ a * S' * N := mul_le_mul_of_nonneg_right hy hN
    _ = a * (N * S') := by ring
    _ ≤ a * (N' * S) := mul_le_mul_of_nonneg_left h ha
    _ = a * S * N' := by ring

/-- A pool whose price is at least that of one with value is not overdrawn. -/
theorem PriceLe.nonneg {N S N' S' : ℤ} (h : PriceLe N S N' S') (hN : 0 ≤ N) (hS : 0 < S)
    (hS' : 0 ≤ S') : 0 ≤ N' :=
  nonneg_of_mul_nonneg_left ((mul_nonneg hN hS').trans h) hS

/-- More value for the same shares does not lower the price. -/
theorem PriceLe.revalue {N N' S : ℤ} (hS : 0 ≤ S) (h : N ≤ N') : PriceLe N S N' S :=
  mul_le_mul_of_nonneg_right h hS

/-- Shares of a pool that are paid at a price no higher than its own are paid at most the pool's
value. -/
theorem PriceLe.paid_le {N S N' S' s x : ℤ} (h : PriceLe N S N' S') (hN : 0 ≤ N) (hS : 0 < S)
    (hs : s ≤ S') (hx : x * S ≤ s * N) : x ≤ N' := by
  refine le_of_mul_le_mul_right ?_ hS
  calc x * S ≤ s * N := hx
    _ ≤ S' * N := mul_le_mul_of_nonneg_right hs hN
    _ = N * S' := mul_comm S' N
    _ ≤ N' * S := h

/-- Leaving two pools with what the first gives keeps the order of their prices, where the second
has no more shares. -/
theorem PriceLe.leave_both {N S N' S' s x : ℤ} (h : PriceLe N S N' S') (hS : 0 < S) (hle : S' ≤ S)
    (hs : s ≤ S) (hx : x * S ≤ s * N) : PriceLe (N - x) (S - s) (N' - x) (S' - s) := by
  have hkeep : (S - s) * (N * S') ≤ (S - s) * (N' * S) :=
    mul_le_mul_of_nonneg_left h (sub_nonneg.mpr hs)
  have hpay : (S - S') * (x * S) ≤ (S - S') * (s * N) :=
    mul_le_mul_of_nonneg_left hx (sub_nonneg.mpr hle)
  refine le_of_mul_le_mul_right ?_ hS
  linarith

/-- Shares worth at most what was paid for them, of a pool whose value grew by no more than that
payment, are paid at most it back. -/
theorem round_trip_le {a S N N' s : ℕ} (hs : s * N ≤ a * S) (hN : N' ≤ N + a) :
    s * N' / (S + s) ≤ a := by
  apply Nat.div_le_of_le_mul
  calc s * N' ≤ s * (N + a) := Nat.mul_le_mul_left s hN
    _ = s * N + s * a := Nat.mul_add s N a
    _ ≤ a * S + s * a := Nat.add_le_add_right hs _
    _ = (S + s) * a := by ring

/-! ## Two views of one pool -/

/-- How far the price of `(N, S)` is below the price of `(N + n, S + m)`, times both supplies. -/
def gap (N S n m : ℤ) : ℤ := n * S - m * N

/-- The gap is the difference of the cross products. -/
theorem gap_eq (N S n m : ℤ) : gap N S n m = (N + n) * S - N * (S + m) := by
  unfold gap; ring

/-- The gap is nonnegative exactly when the first price is at most the second. -/
theorem gap_nonneg_iff {N S n m : ℤ} : 0 ≤ gap N S n m ↔ PriceLe N S (N + n) (S + m) := by
  rw [gap_eq, PriceLe]
  exact sub_nonneg

/-- Two views that agree have no gap. -/
@[simp]
theorem gap_zero (N S : ℤ) : gap N S 0 0 = 0 := by simp [gap]

/-- A revaluation by `d` that both views see. -/
theorem gap_revalue (N S n m d : ℤ) : gap (N + d) S n m = gap N S n m - m * d := by
  unfold gap; ring

/-- `a` units that enter for `y` shares and that both views see. -/
theorem gap_enter (N S n m a y : ℤ) : gap (N + a) (S + y) n m = gap N S n m + n * y - m * a := by
  unfold gap; ring

/-- `a` units that enter for `y` shares and that only the second view sees. -/
theorem gap_enter_second (N S n m a y : ℤ) :
    gap N S (n + a) (m + y) = gap N S n m + a * S - y * N := by
  unfold gap; ring

/-- Entry at the floored price of the first view, seen by both: the gap grows with the pool, except
for the remainder. -/
theorem gap_mint (a S N : ℕ) (n m : ℤ) :
    N * gap (N + a) (S + (a * S / N : ℕ)) n m =
      (N + a) * gap N S n m - n * (a * S % N : ℕ) := by
  have hdiv : (N : ℤ) * (a * S / N : ℕ) + (a * S % N : ℕ) = a * S := by
    exact_mod_cast Nat.div_add_mod (a * S) N
  unfold gap
  linear_combination n * hdiv

/-- Exit at the floored price of the first view, seen by both: the gap shrinks with the shares, and
by the remainder. -/
theorem gap_burn (s N S : ℕ) (n m : ℤ) :
    S * gap (N - (s * N / S : ℕ)) (S - s) n m =
      (S - s) * gap N S n m - m * (s * N % S : ℕ) := by
  have hdiv : (S : ℤ) * (s * N / S : ℕ) + (s * N % S : ℕ) = s * N := by
    exact_mod_cast Nat.div_add_mod (s * N) S
  unfold gap
  linear_combination m * hdiv

/-- Entry at no more than the second view's price, seen by that view only, never narrows the gap. -/
theorem gap_mint_second {N S n m a y : ℤ} (hgap : 0 ≤ gap N S n m) (hN : 0 ≤ N) (hNn : 0 < N + n)
    (ha : 0 ≤ a) (hy : y * (N + n) ≤ a * (S + m)) :
    gap N S n m ≤ gap N S (n + a) (m + y) := by
  have hprice : PriceLe N S (N + n) (S + m) := gap_nonneg_iff.mp hgap
  have hle : y * N ≤ a * S := hprice.bought_le hN hNn ha hy
  rw [gap_enter_second]
  linarith

/-- Exit at no more than the second view's price, seen by that view only, keeps the gap. -/
theorem gap_burn_second {N S n m x s : ℤ} (hgap : 0 ≤ gap N S n m) (hS : 0 ≤ S) (hSm : 0 < S + m)
    (hs : s ≤ S + m) (hx : x * (S + m) ≤ s * (N + n)) : 0 ≤ gap N S (n - x) (m - s) := by
  have hpay : x * (S + m) * S ≤ s * (N + n) * S := mul_le_mul_of_nonneg_right hx hS
  have hkeep : 0 ≤ (S + m - s) * gap N S n m := mul_nonneg (by linarith) hgap
  have hscaled : 0 ≤ (S + m) * gap N S (n - x) (m - s) := by
    have hid : (S + m) * gap N S (n - x) (m - s) =
        (S + m - s) * gap N S n m + (s * (N + n) * S - x * (S + m) * S) := by
      unfold gap; ring
    rw [hid]
    linarith
  exact nonneg_of_mul_nonneg_right hscaled hSm

end SharePrice
