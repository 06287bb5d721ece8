import Agama.Accrual

/-!
# The narrowing of the yield

`accrue` computes a pool's yield in a `u128` and narrows it with `as u64` before the saturating
addition. A yield from `2^64` on loses its high bits there, so more time can leave a smaller accrued
balance, where the saturating sum of the whole yield would be the `u64` maximum. The balance is what
it should be exactly where the yield fits a `u64`, or where what is left of it still fills the
balance up to that maximum.
-/

namespace Agama

/-- Nothing in `accrue` overflows up to the time `t`: neither the seconds in their `i64`, nor any
pool's product in its `u128`. -/
structure PoolBook.AccrualFits (b : PoolBook) (t : ℤ) : Prop where
  elapsed : t - b.lastTs < 2^63
  product : ∀ i, (b.pools.get i).earning (t - b.lastTs).toNat < 2^128

instance (b : PoolBook) (t : ℤ) : Decidable (b.AccrualFits t) :=
  decidable_of_iff (t - b.lastTs < 2^63 ∧
      ∀ i, (b.pools.get i).earning (t - b.lastTs).toNat < 2^128)
    ⟨fun h => ⟨h.1, h.2⟩, fun h => ⟨h.1, h.2⟩⟩

/-- A pool's yield over `dt` seconds, in whole units. -/
def PoolEntry.yield (p : PoolEntry) (dt : ℕ) : ℕ := p.principal.val * p.aprBps.val * dt / yieldUnit

/-- The accrued balance with the whole yield, capped at the `u64` maximum. -/
def PoolEntry.cappedAfter (p : PoolEntry) (dt : ℕ) : ℕ :=
  min (p.accrued.val + p.yield dt) (2^64 - 1)

/-- The narrowing loses nothing that the balance shows: the yield fits, or what is left of it fills
the balance all the same. -/
def PoolEntry.KeepsYield (p : PoolEntry) (dt : ℕ) : Prop :=
  p.yield dt < 2^64 ∨ 2^64 - 1 ≤ p.accrued.val + p.yield dt % 2^64

instance (p : PoolEntry) (dt : ℕ) : Decidable (p.KeepsYield dt) :=
  inferInstanceAs (Decidable (_ ∨ _))

namespace PoolEntry

variable {p : PoolEntry} {dt dt' : ℕ}

/-- What the code leaves: the low 64 bits of the yield, added up to the maximum. -/
theorem accruedAfter_eq (p : PoolEntry) (dt : ℕ) :
    (p.accruedAfter dt).val = min (p.accrued.val + p.yield dt % 2^64) (2^64 - 1) := rfl

/-- The balance is never more than with the whole yield. -/
theorem accruedAfter_le_capped (p : PoolEntry) (dt : ℕ) :
    (p.accruedAfter dt).val ≤ p.cappedAfter dt := by
  have hmod := Nat.mod_le (p.yield dt) (2^64)
  rw [accruedAfter_eq, cappedAfter]
  omega

/-- It is that exactly where the narrowing loses nothing. -/
theorem accruedAfter_eq_capped_iff :
    (p.accruedAfter dt).val = p.cappedAfter dt ↔ p.KeepsYield dt := by
  have hmod := Nat.mod_add_div (p.yield dt) (2^64)
  rw [accruedAfter_eq, cappedAfter, KeepsYield]
  omega

/-- With more time, the whole yield is no less. -/
theorem cappedAfter_mono (p : PoolEntry) (h : dt ≤ dt') : p.cappedAfter dt ≤ p.cappedAfter dt' := by
  have hyield : p.yield dt ≤ p.yield dt' := Nat.div_le_div_right (Nat.mul_le_mul_left _ h)
  rw [cappedAfter, cappedAfter]
  omega

end PoolEntry

/-! ## When `accrue` succeeds -/

/-- A loop over a vector succeeds where its body does at every index. -/
theorem exists_mmap {α β : Type} {n : ℕ} {f : α → Result β} {v : List.Vector α n}
    (h : ∀ i, ∃ b, f (v.get i) = .ok b) : ∃ w, v.mmap f = .ok w := by
  induction v with
  | nil => exact ⟨_, rfl⟩
  | @cons n a v ih =>
    obtain ⟨b, hb⟩ := h 0
    rw [List.Vector.get_zero, List.Vector.head_cons] at hb
    obtain ⟨w, hw⟩ := ih fun i => by simpa only [List.Vector.get_cons_succ] using h i.succ
    refine ⟨b ::ᵥ w, ?_⟩
    simp only [List.Vector.mmap_cons, bind_eq_ok, pure_eq_ok]
    exact ⟨b, hb, w, hw, rfl⟩

/-- One pool accrues where its product fits. -/
theorem PoolEntry.exists_accrue_iff {p : PoolEntry} {dt : ℕ} :
    (∃ p', p.accrue dt = .ok p') ↔ p.earning dt < 2^128 := by
  simp only [PoolEntry.accrue, bind_eq_ok, u128_eq_ok, pure_eq_ok]
  constructor
  · rintro ⟨p', product, ⟨hfits, -⟩, -⟩
    exact hfits
  · exact fun hfits => ⟨_, _, ⟨hfits, rfl⟩, rfl⟩

/-- From its last reading on, a book accrues exactly where nothing overflows. -/
theorem PoolBook.exists_accrue_iff {b : PoolBook} {t : ℤ} (hle : b.lastTs ≤ t) :
    (∃ b', b.accrue t = .ok b') ↔ b.AccrualFits t := by
  constructor
  · rintro ⟨b', h⟩
    unfold PoolBook.accrue at h
    split at h
    · -- No time has passed, so there is nothing to multiply.
      obtain rfl : t = b.lastTs := by omega
      exact ⟨by omega, fun i => by simp [PoolEntry.earning]⟩
    · simp only [bind_eq_ok, i64_eq_ok, pure_eq_ok] at h
      obtain ⟨dt, ⟨⟨-, helapsed⟩, rfl⟩, pools, hpools, rfl⟩ := h
      exact ⟨helapsed, fun i => PoolEntry.exists_accrue_iff.mp ⟨_, mmap_get hpools i⟩⟩
  · intro hfits
    by_cases hnow : t ≤ b.lastTs
    · exact ⟨b, accrue_of_le hnow⟩
    · obtain ⟨pools, hpools⟩ :=
        exists_mmap fun i => PoolEntry.exists_accrue_iff.mpr (hfits.product i)
      have helapsed := hfits.elapsed
      refine ⟨{ b with pools }, ?_⟩
      rw [PoolBook.accrue, if_neg hnow]
      simp only [bind_eq_ok, i64_eq_ok, pure_eq_ok]
      exact ⟨_, ⟨⟨by omega, helapsed⟩, rfl⟩, pools, hpools, rfl⟩

/-- What fits at a time fits before it. -/
theorem PoolBook.AccrualFits.mono {b : PoolBook} {t₁ t₂ : ℤ} (h : b.AccrualFits t₂)
    (hle : t₁ ≤ t₂) : b.AccrualFits t₁ := by
  refine ⟨by have := h.elapsed; omega, fun i => lt_of_le_of_lt ?_ (h.product i)⟩
  exact Nat.mul_le_mul_left _ (by omega)

/-! ## The law -/

/-- The accrued balance that the pool at `i` should have at `t`: what it had, and the floored yield
since `last_ts`, capped at the `u64` maximum. -/
def PoolBook.fullAccrual (b : PoolBook) (i : Fin poolCount) (t : ℤ) : ℕ :=
  (b.pools.get i).cappedAfter (t - b.lastTs).toNat

/-- More time never earns less, and every pool has earned its floored yield at both times, exactly
when for every pool and both times the yield fits a `u64`, or what the narrowing leaves of it still
fills the balance. -/
theorem more_time_earns_iff {b : PoolBook} {t₁ t₂ : ℤ} (hfirst : b.lastTs ≤ t₁) (hle : t₁ ≤ t₂)
    (hfits : b.AccrualFits t₂) :
    ∃ b₁ b₂, b.accrue t₁ = .ok b₁ ∧ b.accrue t₂ = .ok b₂ ∧
      ((∀ i, (b₁.pools.get i).accrued.val ≤ (b₂.pools.get i).accrued.val ∧
          (b₁.pools.get i).accrued.val = b.fullAccrual i t₁ ∧
          (b₂.pools.get i).accrued.val = b.fullAccrual i t₂) ↔
        ∀ i, (b.pools.get i).KeepsYield (t₁ - b.lastTs).toNat ∧
          (b.pools.get i).KeepsYield (t₂ - b.lastTs).toNat) := by
  obtain ⟨b₁, h₁⟩ := (PoolBook.exists_accrue_iff hfirst).mpr (hfits.mono hle)
  obtain ⟨b₂, h₂⟩ := (PoolBook.exists_accrue_iff (hfirst.trans hle)).mpr hfits
  refine ⟨b₁, b₂, h₁, h₂, forall_congr' fun i => ?_⟩
  rw [accrue_get h₁ i, accrue_get h₂ i]
  simp only [PoolBook.fullAccrual, PoolEntry.accruedAfter_eq_capped_iff]
  refine ⟨And.right, fun hkeeps => ⟨?_, hkeeps⟩⟩
  -- The later balance is the full one, and the earlier one never exceeds its own.
  rw [PoolEntry.accruedAfter_eq_capped_iff.mpr hkeeps.2]
  exact (PoolEntry.accruedAfter_le_capped _ _).trans (PoolEntry.cappedAfter_mono _ (by omega))

/-- A year of a book of 100 USDC. -/
theorem more_time_earns_iff_funded :
    ∃ b₁ b₂, fundedBook.accrue 86400 = .ok b₁ ∧ fundedBook.accrue 31536000 = .ok b₂ ∧
      ∀ i, (b₁.pools.get i).accrued.val ≤ (b₂.pools.get i).accrued.val := by
  obtain ⟨b₁, b₂, h₁, h₂, hiff⟩ :=
    @more_time_earns_iff fundedBook 86400 31536000 (by decide +kernel) (by decide)
      (by decide +kernel)
  exact ⟨b₁, b₂, h₁, h₂, fun i => (hiff.mpr (by decide +kernel) i).1⟩

/-- With 200 million USDC absorbed and the first rate at the largest that `set_apr` takes, that pool
has accrued less after a year than some weeks earlier, as its yield has passed `2^64`. -/
theorem more_time_earned_less :
    ∃ run b, (initBook devnetVault authority 0 (List.Vector.replicate poolCount (pool 1000))).replay
        [.absorb 0 200000000000000 0, .setApr 0 0 4294967295] = .ok (run, b) ∧
      b.lastTs ≤ 27000000 ∧ b.AccrualFits 31536000 ∧
      ∃ b₁ b₂ i, b.accrue 27000000 = .ok b₁ ∧ b.accrue 31536000 = .ok b₂ ∧
        ¬ (b₁.pools.get i).accrued.val ≤ (b₂.pools.get i).accrued.val ∧
        (b₂.pools.get i).accrued.val ≠ b.fullAccrual i 31536000 := by
  have hmap : ((initBook devnetVault authority 0
      (List.Vector.replicate poolCount (pool 1000))).replay
        [.absorb 0 200000000000000 0, .setApr 0 0 4294967295]).map (fun r => decide
      (r.2.lastTs ≤ 27000000 ∧ r.2.AccrualFits 31536000 ∧
        ∃ i, ¬ ((r.2.pools.get i).accruedAfter (27000000 - r.2.lastTs).toNat).val ≤
            ((r.2.pools.get i).accruedAfter (31536000 - r.2.lastTs).toNat).val ∧
          ((r.2.pools.get i).accruedAfter (31536000 - r.2.lastTs).toNat).val ≠
            r.2.fullAccrual i 31536000)) = .ok true := by decide +kernel
  obtain ⟨⟨run, b⟩, hreplay, hchecks⟩ := exists_of_map_eq_ok hmap
  obtain ⟨hfirst, hfits, i, hless, hfull⟩ := of_decide_eq_true hchecks
  obtain ⟨b₁, h₁⟩ := (PoolBook.exists_accrue_iff hfirst).mpr (hfits.mono (by decide))
  obtain ⟨b₂, h₂⟩ := (PoolBook.exists_accrue_iff (hfirst.trans (by decide))).mpr hfits
  refine ⟨run, b, hreplay, hfirst, hfits, b₁, b₂, i, h₁, h₂, ?_⟩
  rw [accrue_get h₁ i, accrue_get h₂ i]
  exact ⟨hless, hfull⟩

end Agama
