import Agama.Deployment
import Agama.Lib.FlooredSums

/-!
# Accrual

The three instructions that read the clock and accrue the book, `tick`, `absorb` and `set_apr`, over
runs of any length. Each folds in what the pools earned since `last_ts`, at the principal and rate
that they had until then, and only then changes the book. A pool earns `principal * apr_bps * dt`
over `dt` seconds, counted in `BPS * SECONDS_PER_YEAR`-ths of a unit, and each operation rounds its
part down.

The remainder is dropped, so the same time ticked more often earns less (`ticks_agree_iff`), by less
than a unit an operation (`accrued_tracks_interest`). All three write `last_ts` also when the clock
has stepped back, and then the time since is earned again (`accrued_once_iff`).
-/

namespace Agama

open FlooredSums

/-! ## What one pool earns -/

/-- How many parts of a pool's yield make one unit. -/
def yieldUnit : ℕ := bps * secondsPerYear

/-- The unit of the yield is a divisor. -/
theorem yieldUnit_pos : 0 < yieldUnit := by decide

/-- What a pool earns in `dt` seconds, in parts. -/
def PoolEntry.earning (p : PoolEntry) (dt : ℕ) : ℕ := p.principal.val * p.aprBps.val * dt

/-- A pool's accrued balance after `dt` seconds. -/
def PoolEntry.accruedAfter (p : PoolEntry) (dt : ℕ) : U64 :=
  satAdd p.accrued (wrap (p.earning dt / yieldUnit))

/-- No time earns nothing. -/
@[simp]
theorem PoolEntry.accruedAfter_zero (p : PoolEntry) : p.accruedAfter 0 = p.accrued := by
  rw [accruedAfter, earning, Nat.mul_zero, Nat.zero_div]
  exact satAdd_zero p.accrued

/-- The balance grows by at most the floored yield. -/
theorem PoolEntry.accruedAfter_le (p : PoolEntry) (dt : ℕ) :
    (p.accruedAfter dt).val ≤ p.accrued.val + p.earning dt / yieldUnit := by
  rw [accruedAfter, satAdd_val, wrap_val]
  have := Nat.mod_le (p.earning dt / yieldUnit) (2^64)
  omega

/-- The balance grows by exactly the floored yield where the sum fits. -/
theorem PoolEntry.accruedAfter_val {p : PoolEntry} {dt : ℕ}
    (hfit : p.accrued.val + p.earning dt / yieldUnit < 2^64) :
    (p.accruedAfter dt).val = p.accrued.val + p.earning dt / yieldUnit := by
  have hwrap : (wrap (p.earning dt / yieldUnit) : U64).val = p.earning dt / yieldUnit := by
    rw [wrap_val, Nat.mod_eq_of_lt (by omega)]
  rw [accruedAfter, satAdd_val_of_lt (by rwa [hwrap]), hwrap]

/-- A pool whose accrual succeeds has gained its yield, and nothing else of it moved. -/
theorem PoolEntry.accrue_eq_ok {dt : ℕ} {p p' : PoolEntry} (h : p.accrue dt = .ok p') :
    p' = { p with accrued := p.accruedAfter dt } := by
  simp only [PoolEntry.accrue, bind_eq_ok, u128_eq_ok, pure_eq_ok] at h
  obtain ⟨product, ⟨-, rfl⟩, rfl⟩ := h
  rfl

/-! ## What one operation does -/

/-- A loop over a vector runs its body at every index. -/
theorem mmap_get {α β : Type} {n : ℕ} {f : α → Result β} {v : List.Vector α n}
    {w : List.Vector β n} (h : v.mmap f = .ok w) (i : Fin n) : f (v.get i) = .ok (w.get i) := by
  induction v with
  | nil => exact i.elim0
  | cons ih =>
    simp only [List.Vector.mmap_cons, bind_eq_ok, pure_eq_ok] at h
    obtain ⟨b, hb, bs, hbs, rfl⟩ := h
    refine Fin.cases ?_ (fun j => ?_) i
    · simpa only [List.Vector.get_zero, List.Vector.head_cons] using hb
    · simpa only [List.Vector.get_cons_succ] using ih hbs j

/-- `accrue` moves every pool's accrued balance to `now`, and nothing else. -/
theorem accrue_get {b b' : PoolBook} {now : ℤ} (h : b.accrue now = .ok b') (i : Fin poolCount) :
    b'.pools.get i = { b.pools.get i with
      accrued := (b.pools.get i).accruedAfter (now - b.lastTs).toNat } := by
  unfold PoolBook.accrue at h
  split at h
  · -- Up to the last reading no time has passed.
    rename_i hle
    cases h
    rw [Int.toNat_eq_zero.mpr (by omega), PoolEntry.accruedAfter_zero]
  · simp only [bind_eq_ok, i64_eq_ok, pure_eq_ok] at h
    obtain ⟨dt, ⟨-, rfl⟩, pools, hpools, rfl⟩ := h
    exact PoolEntry.accrue_eq_ok (mmap_get hpools i)

/-- A list of pools that agrees with another on one field does so at every index. -/
theorem get_eq_of_map {β : Type} {n : ℕ} {f : PoolEntry → β} {v w : List.Vector PoolEntry n}
    (h : v.toList.map f = w.toList.map f) (i : Fin n) : f (v.get i) = f (w.get i) := by
  have hmap : v.map f = w.map f := by
    apply List.Vector.eq
    rw [List.Vector.toList_map, List.Vector.toList_map, h]
  calc f (v.get i) = (v.map f).get i := (List.Vector.get_map v f i).symm
    _ = (w.map f).get i := by rw [hmap]
    _ = f (w.get i) := List.Vector.get_map w f i

/-- `fund` leaves the accrued balances. -/
theorem fund_accrued (b : PoolBook) (amount : U64) (i : Fin poolCount) :
    ((b.fund amount).pools.get i).accrued = (b.pools.get i).accrued := by
  rw [fund_get]

/-- So does `defund`. -/
theorem defund_accrued (b : PoolBook) (amount : U64) (i : Fin poolCount) :
    ((b.defund amount).pools.get i).accrued = (b.pools.get i).accrued := by
  have hloop (rem : U64) (ps : List PoolEntry) :
      (defundLoop rem ps).map PoolEntry.accrued = ps.map PoolEntry.accrued := by
    induction ps generalizing rem with
    | nil => rfl
    | cons p ps ih =>
      unfold defundLoop
      split
      · rfl
      · simp only [List.map_cons, ih]
  have hmap : (b.defund amount).pools.toList.map PoolEntry.accrued =
      b.pools.toList.map PoolEntry.accrued := hloop _ _
  exact get_eq_of_map hmap i

/-- An operation that accrues the book, at its reading of the clock. -/
inductive BookOp where
  | tick (now : ℤ)
  | absorb (now : ℤ) (inflow outflow : U64)
  | setApr (now : ℤ) (index : U8) (aprBps : U32)

/-- The reading of the clock. -/
def BookOp.now : BookOp → ℤ
  | tick now | absorb now _ _ | setApr now _ _ => now

/-- An operation on the book. -/
def PoolBook.apply (b : PoolBook) : BookOp → Result PoolBook
  | .tick now => Agama.tick b now
  | .absorb now inflow outflow => do
    let (b, _) ← Agama.absorb b now inflow outflow
    pure b
  | .setApr now index aprBps => Agama.setApr b now index aprBps

/-- What every operation does to the clock and to the yield. -/
structure Advanced (b b' : PoolBook) (now : ℤ) : Prop where
  lastTs : b'.lastTs = now
  accrued : ∀ i, (b'.pools.get i).accrued =
    (b.pools.get i).accruedAfter (now - b.lastTs).toNat

/-- A tick advances the book to its reading of the clock. -/
theorem tick_advanced {b b' : PoolBook} {now : ℤ} (h : tick b now = .ok b') :
    Advanced b b' now := by
  simp only [tick, bind_eq_ok, pure_eq_ok] at h
  obtain ⟨c, hc, rfl⟩ := h
  exact ⟨rfl, fun i => by rw [accrue_get hc i]⟩

/-- An absorb accrues first, so it advances the book too. -/
theorem absorb_advanced {b : PoolBook} {now : ℤ} {inflow outflow : U64} {r : PoolBook × Absorbed}
    (h : absorb b now inflow outflow = .ok r) : Advanced b r.1 now := by
  simp only [absorb, bind_eq_ok, pure_eq_ok] at h
  obtain ⟨c, hc, rfl⟩ := h
  constructor
  · unfold PoolBook.absorbOut PoolBook.absorbIn
    split_ifs <;> rfl
  · intro i
    -- The accrual comes first; deploying and pulling capital leave what was accrued.
    have hacc : (c.pools.get i).accrued = _ := congrArg PoolEntry.accrued (accrue_get hc i)
    unfold PoolBook.absorbOut PoolBook.absorbIn
    split_ifs
    · exact (defund_accrued _ _ i).trans ((fund_accrued _ _ i).trans hacc)
    · exact (defund_accrued _ _ i).trans hacc
    · exact (fund_accrued _ _ i).trans hacc
    · exact hacc

/-- So does `set_apr`, at the rate of before. -/
theorem setApr_advanced {b b' : PoolBook} {now : ℤ} {index : U8} {aprBps : U32}
    (h : setApr b now index aprBps = .ok b') : Advanced b b' now := by
  unfold setApr at h
  split at h
  · simp only [bind_eq_ok, pure_eq_ok] at h
    obtain ⟨c, hc, rfl⟩ := h
    refine ⟨rfl, fun i => ?_⟩
    have hacc : (c.pools.get i).accrued = _ := congrArg PoolEntry.accrued (accrue_get hc i)
    simp only [List.Vector.get_set_eq_if]
    split
    · rename_i hi
      subst hi
      exact hacc
    · exact hacc
  · cases h

/-- Every operation reads the clock and folds in the yield up to it. -/
theorem apply_advanced {b b' : PoolBook} {op : BookOp} (h : b.apply op = .ok b') :
    Advanced b b' op.now := by
  cases op with
  | tick now => exact tick_advanced h
  | absorb now inflow outflow =>
    simp only [PoolBook.apply, bind_eq_ok, pure_eq_ok] at h
    obtain ⟨r, hr, rfl⟩ := h
    exact absorb_advanced hr
  | setApr now index aprBps => exact setApr_advanced h

/-! ## Runs -/

/-- A run of operations on the book, each with the book that it starts from. -/
inductive BookRun : PoolBook → List (PoolBook × BookOp) → PoolBook → Prop
  | nil {b : PoolBook} : BookRun b [] b
  | cons {b c b' : PoolBook} {op : BookOp} {run : List (PoolBook × BookOp)}
      (first : b.apply op = .ok c) (rest : BookRun c run b') : BookRun b ((b, op) :: run) b'

/-- What the pool at `i` earns up to an operation, at the principal and rate in force before it, in
parts. -/
def earned (i : Fin poolCount) (x : PoolBook × BookOp) : ℕ :=
  (x.1.pools.get i).earning (x.2.now - x.1.lastTs).toNat

/-- One operation raises a pool's accrued balance by at most the floored part. -/
theorem apply_accrued_le {b c : PoolBook} {op : BookOp} (h : b.apply op = .ok c)
    (i : Fin poolCount) : (c.pools.get i).accrued.val ≤
      (b.pools.get i).accrued.val + earned i (b, op) / yieldUnit := by
  rw [(apply_advanced h).accrued i]
  exact PoolEntry.accruedAfter_le _ _

/-- It raises it by exactly that part where the sum fits. -/
theorem apply_accrued_eq {b c : PoolBook} {op : BookOp} (h : b.apply op = .ok c)
    {i : Fin poolCount}
    (hfit : (b.pools.get i).accrued.val + earned i (b, op) / yieldUnit < 2^64) :
    (c.pools.get i).accrued.val =
      (b.pools.get i).accrued.val + earned i (b, op) / yieldUnit := by
  rw [(apply_advanced h).accrued i]
  exact PoolEntry.accruedAfter_val hfit

namespace BookRun

variable {b b' : PoolBook} {run : List (PoolBook × BookOp)} {i : Fin poolCount}

/-- Every operation of a run succeeds. -/
theorem apply_ok (h : BookRun b run b') : ∀ x ∈ run, ∃ c, x.1.apply x.2 = .ok c := by
  induction h with
  | nil => exact fun x hx => absurd hx List.not_mem_nil
  | cons first rest ih => exact List.forall_mem_cons.mpr ⟨⟨_, first⟩, ih⟩

/-- Along a run a pool's accrued balance grows by at most the floored parts. -/
theorem accrued_le (h : BookRun b run b') (i : Fin poolCount) :
    (b'.pools.get i).accrued.val ≤
      (b.pools.get i).accrued.val + ((run.map (earned i)).map (· / yieldUnit)).sum := by
  induction h with
  | nil => exact Nat.le_add_right _ _
  | cons first rest ih =>
    have hfirst := apply_accrued_le first i
    simp only [List.map_cons, List.sum_cons] at ih ⊢
    omega

/-- It grows by exactly those parts where each sum fits. -/
theorem accrued_eq (h : BookRun b run b')
    (hfit : ∀ x ∈ run, (x.1.pools.get i).accrued.val + earned i x / yieldUnit < 2^64) :
    (b'.pools.get i).accrued.val =
      (b.pools.get i).accrued.val + ((run.map (earned i)).map (· / yieldUnit)).sum := by
  induction h with
  | nil => rfl
  | cons first rest ih =>
    rw [List.forall_mem_cons] at hfit
    have hfirst := apply_accrued_eq first hfit.1
    have hrest := ih hfit.2
    simp only [List.map_cons, List.sum_cons] at hrest ⊢
    omega

/-- Each sum fits where the last one does. -/
theorem fits_of_sum (h : BookRun b run b')
    (hfit : (b.pools.get i).accrued.val + ((run.map (earned i)).map (· / yieldUnit)).sum < 2^64) :
    ∀ x ∈ run, (x.1.pools.get i).accrued.val + earned i x / yieldUnit < 2^64 := by
  induction h with
  | nil => exact fun x hx => absurd hx List.not_mem_nil
  | cons first rest ih =>
    simp only [List.map_cons, List.sum_cons] at hfit
    have hfirst := apply_accrued_eq (i := i) first (by omega)
    refine List.forall_mem_cons.mpr ⟨?_, ih (by omega)⟩
    simp only
    omega

/-- The readings do not step back exactly when none is before the `last_ts` that it finds. -/
theorem isChain_iff (h : BookRun b run b') :
    List.IsChain (· ≤ ·) (b.lastTs :: run.map (·.2.now)) ↔ ∀ x ∈ run, x.1.lastTs ≤ x.2.now := by
  induction h with
  | nil => simp
  | cons first rest ih =>
    rw [(apply_advanced first).lastTs] at ih
    rw [List.map_cons, List.isChain_cons_cons, ih, List.forall_mem_cons]

/-- With readings that do not step back, the seconds add up to the time between the first
`last_ts` and the last. -/
theorem elapsed (h : BookRun b run b') (hclock : ∀ x ∈ run, x.1.lastTs ≤ x.2.now) :
    b.lastTs + (run.map fun x => (x.2.now - x.1.lastTs).toNat).sum = b'.lastTs := by
  induction h with
  | nil => simp
  | cons first rest ih =>
    rw [List.forall_mem_cons] at hclock
    have hrest := ih hclock.2
    rw [(apply_advanced first).lastTs] at hrest
    have hle := hclock.1
    simp only [List.map_cons, List.sum_cons] at hle ⊢
    omega

end BookRun

/-- The run of some operations, with the book that it ends in. -/
def PoolBook.replay (b : PoolBook) : List BookOp → Result (List (PoolBook × BookOp) × PoolBook)
  | [] => .ok ([], b)
  | op :: ops => do
    let c ← b.apply op
    let (run, b') ← c.replay ops
    pure ((b, op) :: run, b')

/-- Replaying operations is a run. -/
theorem BookRun.of_replay {b b' : PoolBook} {ops : List BookOp} {run : List (PoolBook × BookOp)}
    (h : b.replay ops = .ok (run, b')) : BookRun b run b' := by
  induction ops generalizing b run with
  | nil =>
    cases h
    exact .nil
  | cons op ops ih =>
    simp only [PoolBook.replay, bind_eq_ok, pure_eq_ok, Prod.mk.injEq] at h
    obtain ⟨c, hc, ⟨rest, b''⟩, hrest, rfl, rfl⟩ := h
    exact .cons hc (ih hrest)

/-- A book of 100 USDC at a yearly rate of a tenth, at time zero. -/
def fundedBook : PoolBook :=
  let b := (initBook devnetVault authority 0
    (List.Vector.replicate poolCount (pool 1000))).absorbIn 100000000
  { b with nav := b.markedValue }

/-! ## The exact interest -/

/-- The interest of the pool at `i` over a run, without rounding: over each interval between two
readings, at the principal and rate in force before the operation that ends it. -/
def exactInterest (i : Fin poolCount) (run : List (PoolBook × BookOp)) : ℚ :=
  (run.map fun x => ((x.1.pools.get i).principal.val * (x.1.pools.get i).aprBps.val *
    (x.2.now - x.1.lastTs : ℤ) / (bps * secondsPerYear) : ℚ)).sum

/-- With readings that do not step back, it is the sum of the parts. -/
theorem exactInterest_eq {i : Fin poolCount} {run : List (PoolBook × BookOp)}
    (hclock : ∀ x ∈ run, x.1.lastTs ≤ x.2.now) :
    exactInterest i run = ((run.map (earned i)).sum : ℕ) / (yieldUnit : ℚ) := by
  induction run with
  | nil => simp [exactInterest]
  | cons x run ih =>
    rw [List.forall_mem_cons] at hclock
    have hrest := ih hclock.2
    have hdt : ((x.2.now - x.1.lastTs : ℤ) : ℚ) = ((x.2.now - x.1.lastTs).toNat : ℕ) := by
      have hcast := Int.toNat_of_nonneg (sub_nonneg.mpr hclock.1)
      exact_mod_cast hcast.symm
    unfold exactInterest at hrest ⊢
    rw [List.map_cons, List.sum_cons, hrest, List.map_cons, List.sum_cons, hdt]
    unfold earned PoolEntry.earning yieldUnit
    push_cast
    rw [add_div]

/-- Where nothing saturates and the clock does not step back, what a pool accrues over a run is
within one unit an operation of the exact interest, and never above it. -/
theorem accrued_tracks_interest {b b' : PoolBook} {run : List (PoolBook × BookOp)}
    (h : BookRun b run b') (hne : run ≠ [])
    (hclock : List.IsChain (· ≤ ·) (b.lastTs :: run.map (·.2.now)))
    (hfit : ∀ x ∈ run, ∀ i, (x.1.pools.get i).accrued.val + earned i x / yieldUnit < 2^64)
    (i : Fin poolCount) :
    exactInterest i run - run.length <
        ((b'.pools.get i).accrued.val : ℚ) - (b.pools.get i).accrued.val ∧
      ((b'.pools.get i).accrued.val : ℚ) - (b.pools.get i).accrued.val ≤ exactInterest i run := by
  have hgain := h.accrued_eq fun x hx => hfit x hx i
  have hsum := sum_div_mul_add yieldUnit (run.map (earned i))
  have hlt : (run.map (earned i)).sum < _ := sum_lt yieldUnit_pos (by simpa using hne)
  rw [List.length_map] at hlt
  have hunit : (0 : ℚ) < yieldUnit := by exact_mod_cast yieldUnit_pos
  rw [exactInterest_eq (h.isChain_iff.mp hclock), hgain, Nat.cast_add, add_sub_cancel_left]
  constructor
  · rw [sub_lt_iff_lt_add, div_lt_iff₀ hunit]
    exact_mod_cast hlt
  · rw [le_div_iff₀ hunit]
    exact_mod_cast (Nat.le_add_right _ _).trans hsum.le

/-- A tick, a new rate for the first pool, and an absorb, a hundred seconds apart. -/
theorem accrued_tracks_interest_funded :
    ∃ run b', fundedBook.replay
        [.tick 100, .setApr 200 0 2000, .absorb 300 50000000 10000000] = .ok (run, b') ∧
      ∀ i, exactInterest i run - run.length <
          ((b'.pools.get i).accrued.val : ℚ) - (fundedBook.pools.get i).accrued.val ∧
        ((b'.pools.get i).accrued.val : ℚ) - (fundedBook.pools.get i).accrued.val ≤
          exactInterest i run := by
  have hmap : (fundedBook.replay
      [.tick 100, .setApr 200 0 2000, .absorb 300 50000000 10000000]).map (fun r => decide
        (r.1 ≠ [] ∧ List.IsChain (· ≤ ·) (fundedBook.lastTs :: r.1.map (·.2.now)) ∧
          ∀ x ∈ r.1, ∀ i, (x.1.pools.get i).accrued.val + earned i x / yieldUnit < 2^64)) =
      .ok true := by decide +kernel
  obtain ⟨⟨run, b'⟩, hreplay, hchecks⟩ := exists_of_map_eq_ok hmap
  obtain ⟨hne, hclock, hfit⟩ := of_decide_eq_true hchecks
  exact ⟨run, b', hreplay,
    accrued_tracks_interest (BookRun.of_replay hreplay) hne hclock hfit⟩

/-! ## No second twice -/

/-- The latest of a first `last_ts` and some readings. -/
def latest (t₀ : ℤ) (readings : List ℤ) : ℤ := readings.foldr max t₀

/-- No reading is later than the latest. -/
theorem le_latest (t₀ : ℤ) (readings : List ℤ) :
    t₀ ≤ latest t₀ readings ∧ ∀ t ∈ readings, t ≤ latest t₀ readings := by
  induction readings with
  | nil => exact ⟨le_rfl, fun t ht => absurd ht List.not_mem_nil⟩
  | cons r readings ih =>
    refine ⟨ih.1.trans (le_max_right _ _), List.forall_mem_cons.mpr ⟨le_max_left _ _, ?_⟩⟩
    exact fun t ht => (ih.2 t ht).trans (le_max_right _ _)

/-- A run ends at its first `last_ts` or at one of its readings. -/
theorem BookRun.lastTs_mem {b b' : PoolBook} {run : List (PoolBook × BookOp)}
    (h : BookRun b run b') : b'.lastTs = b.lastTs ∨ b'.lastTs ∈ run.map (·.2.now) := by
  induction h with
  | nil => exact .inl rfl
  | cons first rest ih =>
    right
    rw [List.map_cons, List.mem_cons]
    rcases ih with hsame | hmem
    · exact .inl (hsame.trans (apply_advanced first).lastTs)
    · exact .inr hmem

/-- With readings that do not step back, a pool at a fixed principal and rate accrues no more than
the time that passed earns. -/
theorem BookRun.accrued_le_elapsed {b b' : PoolBook} {run : List (PoolBook × BookOp)}
    (h : BookRun b run b') (hclock : ∀ x ∈ run, x.1.lastTs ≤ x.2.now) {i : Fin poolCount}
    {principal : U64} {aprBps : U32}
    (hfixed : ∀ x ∈ run, (x.1.pools.get i).principal = principal ∧
      (x.1.pools.get i).aprBps = aprBps) :
    (b'.pools.get i).accrued.val ≤ (b.pools.get i).accrued.val +
      principal.val * aprBps.val * (b'.lastTs - b.lastTs).toNat / yieldUnit := by
  have hsum : (run.map (earned i)).sum =
      principal.val * aprBps.val * (b'.lastTs - b.lastTs).toNat := by
    have hearned : run.map (earned i) =
        run.map fun x => principal.val * aprBps.val * (x.2.now - x.1.lastTs).toNat := by
      refine List.map_congr_left fun x hx => ?_
      obtain ⟨hp, hr⟩ := hfixed x hx
      rw [earned, PoolEntry.earning, hp, hr]
    have helapsed := h.elapsed hclock
    rw [hearned, List.sum_map_mul_left]
    congr 1
    omega
  have hfloor := sum_div_le yieldUnit_pos (run.map (earned i))
  rw [hsum] at hfloor
  exact (h.accrued_le i).trans (Nat.add_le_add_left hfloor _)

/-- `last_ts` never decreases, and a pool at a fixed principal and rate accrues no more than the
time up to the latest reading earns, exactly when no operation reads a time before the `last_ts`
that it finds. -/
theorem accrued_once_iff {b b' : PoolBook} {run : List (PoolBook × BookOp)}
    (h : BookRun b run b') :
    ((∀ x ∈ run, ∀ c, x.1.apply x.2 = .ok c → x.1.lastTs ≤ c.lastTs) ∧
      ∀ (i : Fin poolCount) (principal : U64) (aprBps : U32),
        (∀ x ∈ run, (x.1.pools.get i).principal = principal ∧
          (x.1.pools.get i).aprBps = aprBps) →
        (b'.pools.get i).accrued.val ≤ (b.pools.get i).accrued.val +
          principal.val * aprBps.val *
            (latest b.lastTs (run.map (·.2.now)) - b.lastTs).toNat / yieldUnit) ↔
    ∀ x ∈ run, x.1.lastTs ≤ x.2.now := by
  constructor
  · rintro ⟨hforward, -⟩ x hx
    obtain ⟨c, hc⟩ := h.apply_ok x hx
    have hle := hforward x hx c hc
    rwa [(apply_advanced hc).lastTs] at hle
  · intro hclock
    refine ⟨fun x hx c hc => ?_, fun i principal aprBps hfixed => ?_⟩
    · rw [(apply_advanced hc).lastTs]
      exact hclock x hx
    · have hlatest : b'.lastTs ≤ latest b.lastTs (run.map (·.2.now)) := by
        obtain ⟨hfirst, hall⟩ := le_latest b.lastTs (run.map (·.2.now))
        rcases h.lastTs_mem with hsame | hmem
        · rw [hsame]
          exact hfirst
        · exact hall _ hmem
      refine (h.accrued_le_elapsed hclock hfixed).trans (Nat.add_le_add_left ?_ _)
      exact Nat.div_le_div_right (Nat.mul_le_mul_left _ (by omega))

/-- Two ticks that do not step back. -/
theorem accrued_once_iff_funded :
    ∃ run b', fundedBook.replay [.tick 1000, .tick 2000] = .ok (run, b') ∧
      ∀ x ∈ run, ∀ c, x.1.apply x.2 = .ok c → x.1.lastTs ≤ c.lastTs := by
  have hmap : (fundedBook.replay [.tick 1000, .tick 2000]).map (fun r => decide
      (∀ x ∈ r.1, x.1.lastTs ≤ x.2.now)) = .ok true := by decide +kernel
  obtain ⟨⟨run, b'⟩, hreplay, hclock⟩ := exists_of_map_eq_ok hmap
  exact ⟨run, b', hreplay,
    ((accrued_once_iff (BookRun.of_replay hreplay)).mpr (of_decide_eq_true hclock)).1⟩

/-- A clock that steps back from 1000 to 0 takes `last_ts` with it, and the same thousand seconds
are accrued twice. -/
theorem stepped_back_accrues_twice :
    ∃ run b', fundedBook.replay [.tick 1000, .tick 0, .tick 1000] = .ok (run, b') ∧
      (∃ x ∈ run, ∃ c, x.1.apply x.2 = .ok c ∧ c.lastTs < x.1.lastTs) ∧
      ∃ principal aprBps, ∀ i,
        (∀ x ∈ run, (x.1.pools.get i).principal = principal ∧
          (x.1.pools.get i).aprBps = aprBps) ∧
        ¬ (b'.pools.get i).accrued.val ≤ (fundedBook.pools.get i).accrued.val +
          principal.val * aprBps.val *
            (latest fundedBook.lastTs (run.map (·.2.now)) - fundedBook.lastTs).toNat /
              yieldUnit := by
  have hmap : (fundedBook.replay [.tick 1000, .tick 0, .tick 1000]).map (fun r => decide
      ((∃ x ∈ r.1, x.2.now < x.1.lastTs) ∧ ∀ i,
        (∀ x ∈ r.1, (x.1.pools.get i).principal = 25000000 ∧
          (x.1.pools.get i).aprBps = 1000) ∧
        ¬ (r.2.pools.get i).accrued.val ≤ (fundedBook.pools.get i).accrued.val +
          25000000 * 1000 *
            (latest fundedBook.lastTs (r.1.map (·.2.now)) - fundedBook.lastTs).toNat /
              yieldUnit)) = .ok true := by decide +kernel
  obtain ⟨⟨run, b'⟩, hreplay, hchecks⟩ := exists_of_map_eq_ok hmap
  obtain ⟨⟨x, hx, hback⟩, htwice⟩ := of_decide_eq_true hchecks
  obtain ⟨c, hc⟩ := (BookRun.of_replay hreplay).apply_ok x hx
  exact ⟨run, b', hreplay, ⟨x, hx, c, hc, (apply_advanced hc).lastTs.trans_lt hback⟩,
    25000000, 1000, htwice⟩

/-! ## Ticking more often -/

/-- The seconds between consecutive readings. -/
def gaps : ℤ → List ℤ → List ℕ
  | _, [] => []
  | t₀, t :: ts => (t - t₀).toNat :: gaps t ts

/-- Between readings that do not step back, the gaps add up to the whole time. -/
theorem sum_gaps {t₀ t : ℤ} {ts : List ℤ} (hclock : List.IsChain (· ≤ ·) (t₀ :: ts))
    (hlast : ts.getLast? = some t) : t₀ + (gaps t₀ ts).sum = t := by
  induction ts generalizing t₀ with
  | nil => cases hlast
  | cons r ts ih =>
    rw [List.isChain_cons_cons] at hclock
    rw [gaps, List.sum_cons]
    cases ts with
    | nil =>
      rw [List.getLast?_singleton, Option.some.injEq] at hlast
      simp only [gaps, List.sum_nil]
      omega
    | cons r' ts =>
      have hrest := ih hclock.2 (by rwa [List.getLast?_cons_cons] at hlast)
      omega

/-- A tick moves nothing in a pool but its accrued balance. -/
theorem tick_get {b b' : PoolBook} {now : ℤ} (h : tick b now = .ok b') (i : Fin poolCount) :
    b'.pools.get i = { b.pools.get i with accrued := (b'.pools.get i).accrued } := by
  simp only [tick, bind_eq_ok, pure_eq_ok] at h
  obtain ⟨c, hc, rfl⟩ := h
  rw [accrue_get hc i]

/-- Ticking at each of some readings is a run that earns over the gaps between them, at every pool's
own principal and rate. -/
theorem ticks_run {b b' : PoolBook} {ts : List ℤ} (h : ts.foldlM tick b = .ok b') :
    ∃ run, BookRun b run b' ∧
      (∀ i, run.map (earned i) = (gaps b.lastTs ts).map (b.pools.get i).earning) ∧
      ∀ i, b'.pools.get i = { b.pools.get i with accrued := (b'.pools.get i).accrued } := by
  induction ts generalizing b with
  | nil =>
    rw [List.foldlM_nil, pure_eq_ok] at h
    subst h
    exact ⟨[], .nil, fun i => rfl, fun i => rfl⟩
  | cons t ts ih =>
    rw [List.foldlM_cons, bind_eq_ok] at h
    obtain ⟨c, hc, hrest⟩ := h
    obtain ⟨run, hrun, hearned, hpools⟩ := ih hrest
    refine ⟨(b, .tick t) :: run, .cons hc hrun, fun i => ?_, fun i => ?_⟩
    · rw [List.map_cons, hearned i, (tick_advanced hc).lastTs, gaps, List.map_cons, tick_get hc i]
      rfl
    · rw [hpools i, tick_get hc i]

/-- After a tick the NAV is the value of the pools. -/
theorem ticks_nav {b b' : PoolBook} {ts : List ℤ} (h : ts.foldlM tick b = .ok b')
    (hne : ts ≠ []) : b'.nav = b'.markedValue := by
  induction ts generalizing b with
  | nil => exact absurd rfl hne
  | cons t ts ih =>
    rw [List.foldlM_cons, bind_eq_ok] at h
    obtain ⟨c, hc, hrest⟩ := h
    cases ts with
    | nil =>
      rw [List.foldlM_nil, pure_eq_ok] at hrest
      subst hrest
      exact (tick_spec hc).nav
    | cons t' ts => exact ih hrest (List.cons_ne_nil _ _)

/-- Two books whose pools differ in nothing but their accrued balances have equal pools where those
are equal. -/
theorem pools_eq_of_accrued {ps qs rs : List.Vector PoolEntry poolCount}
    (hq : ∀ i, qs.get i = { ps.get i with accrued := (qs.get i).accrued })
    (hr : ∀ i, rs.get i = { ps.get i with accrued := (rs.get i).accrued })
    (hacc : ∀ i, (qs.get i).accrued = (rs.get i).accrued) : qs = rs := by
  refine List.Vector.ext fun i => ?_
  rw [hq i, hr i, hacc i]

/-- Ticking at each of some readings that do not step back leaves the pools and the NAV of one tick
at the last exactly when every pool's remainders over the gaps stay below one unit. -/
theorem ticks_agree_iff {b b₁ b₂ : PoolBook} {ts : List ℤ} {t : ℤ}
    (hclock : List.IsChain (· ≤ ·) (b.lastTs :: ts)) (hlast : ts.getLast? = some t)
    (hticks : ts.foldlM tick b = .ok b₂) (hone : tick b t = .ok b₁)
    (hfit : ∀ i, (b.pools.get i).accrued.val +
      (b.pools.get i).earning (t - b.lastTs).toNat / yieldUnit < 2^64) :
    ((∀ i, (b₂.pools.get i).accrued = (b₁.pools.get i).accrued) ∧ b₂.nav = b₁.nav) ↔
      ∀ i, ((gaps b.lastTs ts).map fun dt =>
        (b.pools.get i).earning dt % yieldUnit).sum < yieldUnit := by
  obtain ⟨run, hrun, hearned, hpools⟩ := ticks_run hticks
  -- What is earned over the gaps is what the whole time earns.
  have hwhole (i : Fin poolCount) : ((gaps b.lastTs ts).map (b.pools.get i).earning).sum =
      (b.pools.get i).earning (t - b.lastTs).toNat := by
    have hsum := sum_gaps hclock hlast
    unfold PoolEntry.earning
    rw [List.sum_map_mul_left, List.map_id']
    congr 1
    omega
  have hmany (i : Fin poolCount) : (b₂.pools.get i).accrued.val = (b.pools.get i).accrued.val +
      (((gaps b.lastTs ts).map (b.pools.get i).earning).map (· / yieldUnit)).sum := by
    have hle := sum_div_le yieldUnit_pos (run.map (earned i))
    rw [hearned i, hwhole i] at hle
    have hfits := hrun.fits_of_sum (i := i) (by
      have := hfit i
      rw [hearned i]
      omega)
    rw [hrun.accrued_eq hfits, hearned i]
  have honce (i : Fin poolCount) : (b₁.pools.get i).accrued.val = (b.pools.get i).accrued.val +
      ((gaps b.lastTs ts).map (b.pools.get i).earning).sum / yieldUnit := by
    rw [(tick_advanced hone).accrued i, PoolEntry.accruedAfter_val (hfit i), hwhole i]
  have hpool (i : Fin poolCount) : (b₂.pools.get i).accrued = (b₁.pools.get i).accrued ↔
      ((gaps b.lastTs ts).map fun dt =>
        (b.pools.get i).earning dt % yieldUnit).sum < yieldUnit := by
    rw [Fin.ext_iff, hmany i, honce i, Nat.add_left_cancel_iff, sum_div_eq_iff yieldUnit_pos,
      List.map_map]
    rfl
  constructor
  · rintro ⟨hacc, -⟩ i
    exact (hpool i).mp (hacc i)
  · intro hrem
    have hacc (i : Fin poolCount) := (hpool i).mpr (hrem i)
    refine ⟨hacc, ?_⟩
    have hne : ts ≠ [] := by
      rintro rfl
      cases hlast
    have heq := pools_eq_of_accrued hpools (tick_get hone) hacc
    rw [ticks_nav hticks hne, (tick_spec hone).nav, PoolBook.markedValue, PoolBook.markedValue, heq]

/-- Two ticks thirteen seconds apart accrue what one tick after both does. -/
theorem ticks_agree_iff_funded :
    ∃ b₁ b₂, [13, 26].foldlM tick fundedBook = .ok b₂ ∧ tick fundedBook 26 = .ok b₁ ∧
      (∀ i, (b₂.pools.get i).accrued = (b₁.pools.get i).accrued) ∧ b₂.nav = b₁.nav := by
  have hmany : ([13, 26].foldlM tick fundedBook).map (fun _ => ()) = .ok () := by decide +kernel
  have hone : (tick fundedBook 26).map (fun _ => ()) = .ok () := by decide +kernel
  obtain ⟨b₂, hb₂, -⟩ := exists_of_map_eq_ok hmany
  obtain ⟨b₁, hb₁, -⟩ := exists_of_map_eq_ok hone
  have hrem : ∀ i, ((gaps fundedBook.lastTs [13, 26]).map fun dt =>
      (fundedBook.pools.get i).earning dt % yieldUnit).sum < yieldUnit := by decide +kernel
  exact ⟨b₁, b₂, hb₂, hb₁,
    (ticks_agree_iff (by decide +kernel) rfl hb₂ hb₁ (by decide +kernel)).mpr hrem⟩

/-- Thirteen ticks a second apart accrue nothing, and one tick after thirteen seconds does. -/
theorem ticks_disagree :
    ∃ b₁ b₂, [1, 2, 3, 4, 5, 6, 7, 8, 9, 10, 11, 12, 13].foldlM tick fundedBook = .ok b₂ ∧
      tick fundedBook 13 = .ok b₁ ∧
      (∀ i, (fundedBook.pools.get i).accrued.val +
        (fundedBook.pools.get i).earning (13 - fundedBook.lastTs).toNat / yieldUnit < 2^64) ∧
      (∀ i, (b₂.pools.get i).accrued = 0) ∧ (∀ i, (b₁.pools.get i).accrued = 1) ∧
      b₂.nav ≠ b₁.nav := by
  have hmany : ([1, 2, 3, 4, 5, 6, 7, 8, 9, 10, 11, 12, 13].foldlM tick fundedBook).map (fun b =>
      decide ((∀ i, (b.pools.get i).accrued = 0) ∧ b.nav = 100000000)) = .ok true := by
    decide +kernel
  have hone : (tick fundedBook 13).map (fun b =>
      decide ((∀ i, (b.pools.get i).accrued = 1) ∧ b.nav = 100000004)) = .ok true := by
    decide +kernel
  obtain ⟨b₂, hb₂, hchecks₂⟩ := exists_of_map_eq_ok hmany
  obtain ⟨b₁, hb₁, hchecks₁⟩ := exists_of_map_eq_ok hone
  obtain ⟨hzero, hnav₂⟩ := of_decide_eq_true hchecks₂
  obtain ⟨hyield, hnav₁⟩ := of_decide_eq_true hchecks₁
  refine ⟨b₁, b₂, hb₂, hb₁, by decide +kernel, hzero, hyield, ?_⟩
  rw [hnav₂, hnav₁]
  decide

end Agama
