import Agama.Accrual

/-!
# What `fund` hands out

`fund` gives every pool before the last its floored share of the amount, by weight or evenly where
no pool has a weight, and the last pool the rest. `fundParts` are the parts that the loop computes.
They are the floored shares of `Lib/FlooredSums.lean` and the rest (`fundParts_val`), since nothing
on the way loses anything: the weights' sum fits a `u32`, a share is at most the amount, so that the
cast to `u64` keeps it, and the shares placed never pass the amount, so that the saturating
difference is the rest. So the parts add up to the amount, and each is near its exact share.
-/

namespace Agama

open FlooredSums

/-! ## The sum of the weights -/

/-- `total_w`, summed in a `u32`. -/
def PoolBook.totalW (b : PoolBook) : Result U32 :=
  b.pools.toList.foldlM (fun acc p => u32 (acc.val + p.weightBps.val)) 0

/-- Summing weights in a `u32` is exact as long as the sum fits. -/
theorem foldlM_weights {ps : List PoolEntry} {acc : U32}
    (hfits : acc.val + (ps.map (·.weightBps.val)).sum < 2^32) :
    ∃ total, ps.foldlM (fun acc p => u32 (acc.val + p.weightBps.val)) acc = .ok total ∧
      total.val = acc.val + (ps.map (·.weightBps.val)).sum := by
  induction ps generalizing acc with
  | nil => exact ⟨acc, rfl, rfl⟩
  | cons p ps ih =>
    rw [List.map_cons, List.sum_cons] at hfits ⊢
    obtain ⟨next, hnext⟩ : ∃ next : U32, next.val = acc.val + p.weightBps.val :=
      ⟨⟨_, by omega⟩, rfl⟩
    obtain ⟨total, htotal, hval⟩ := ih (by rw [hnext]; omega)
    refine ⟨total, ?_, by rw [hval, hnext]; omega⟩
    rw [List.foldlM_cons, bind_eq_ok]
    exact ⟨next, u32_eq_ok.mpr hnext, htotal⟩

/-- Sixteen bits a pool leave room in a `u32`. -/
theorem PoolBook.weightSum_lt (b : PoolBook) : b.weightSum < 2^32 := by
  have hle : b.weightSum ≤ (b.pools.toList.map (·.weightBps.val)).length • 2^16 := by
    refine List.sum_le_card_nsmul _ _ fun w hw => ?_
    obtain ⟨p, -, rfl⟩ := List.mem_map.mp hw
    exact p.weightBps.isLt.le
  rw [List.length_map, List.Vector.toList_length, smul_eq_mul, poolCount] at hle
  omega

/-- So `total_w` is the sum of the weights. -/
theorem PoolBook.totalW_eq (b : PoolBook) :
    ∃ total, b.totalW = .ok total ∧ total.val = b.weightSum := by
  have hstart : (0 : U32).val + b.weightSum < 2^32 := by
    rw [Fin.val_zero, Nat.zero_add]
    exact b.weightSum_lt
  obtain ⟨total, htotal, hval⟩ := foldlM_weights hstart
  exact ⟨total, htotal, by rw [hval, Fin.val_zero, Nat.zero_add]; rfl⟩

/-! ## Floored shares and the rest -/

/-- What a pool counts for: its weight, or one where no pool has a weight. -/
def PoolEntry.counts (totalW : ℕ) (p : PoolEntry) : ℕ := if totalW = 0 then 1 else p.weightBps.val

/-- What the pools count for together. -/
def countTotal (totalW : ℕ) : ℕ := if totalW = 0 then poolCount else totalW

/-- The counts have something to be divided by. -/
theorem countTotal_pos (totalW : ℕ) : 0 < countTotal totalW := by
  unfold countTotal
  split
  · decide
  · omega

/-- The counts of the pools add up to what they are divided by. -/
theorem PoolBook.sum_counts (b : PoolBook) :
    (b.pools.toList.map (PoolEntry.counts b.weightSum)).sum = countTotal b.weightSum := by
  unfold countTotal
  split
  · rename_i hzero
    have hone : PoolEntry.counts b.weightSum = fun _ => 1 := funext fun p => if_pos hzero
    rw [hone, List.map_const', List.sum_replicate, List.Vector.toList_length, smul_eq_mul,
      Nat.mul_one]
  · rename_i hpos
    have hweight : PoolEntry.counts b.weightSum = fun p => p.weightBps.val :=
      funext fun p => if_neg hpos
    rw [hweight]
    rfl

/-- The loop hands out floored shares, and the last pool gets the rest, as long as the shares do not
pass the amount. -/
theorem fundParts_val {amount : U64} {totalW i : ℕ} {placed : U64} {qs : List PoolEntry}
    {p : PoolEntry} (hlen : i + qs.length = poolCount - 1)
    (hle : placed.val +
      (shares amount.val (countTotal totalW) (qs.map (PoolEntry.counts totalW))).sum ≤ amount.val) :
    (fundParts amount totalW i placed (qs ++ [p])).map Fin.val =
      shares amount.val (countTotal totalW) (qs.map (PoolEntry.counts totalW)) ++
        [amount.val - (placed.val +
          (shares amount.val (countTotal totalW) (qs.map (PoolEntry.counts totalW))).sum)] := by
  induction qs generalizing i placed with
  | nil =>
    obtain rfl : i = poolCount - 1 := by simpa using hlen
    simp [fundParts]
  | cons q qs ih =>
    rw [List.length_cons] at hlen
    rw [List.map_cons, shares_cons, List.sum_cons] at hle ⊢
    have hamount := amount.isLt
    -- Before the last pool the part is the floored share, which the cast keeps.
    obtain ⟨part, hpart, hval⟩ : ∃ part : U64,
        (if totalW = 0 then wrap (amount.val / poolCount)
          else wrap (amount.val * q.weightBps.val / totalW)) = part ∧
        part.val = amount.val * q.counts totalW / countTotal totalW := by
      refine ⟨_, rfl, ?_⟩
      unfold PoolEntry.counts countTotal at hle ⊢
      split_ifs at hle ⊢
      · rw [Nat.mul_one] at hle ⊢
        rw [wrap_val, Nat.mod_eq_of_lt (by omega)]
      · rw [wrap_val, Nat.mod_eq_of_lt (by omega)]
    have hplaced : (satAdd placed part).val = placed.val + part.val :=
      satAdd_val_of_lt (by omega)
    have hrest := @ih (i + 1) (satAdd placed part) (by omega) (by rw [hplaced, hval]; omega)
    rw [List.cons_append, fundParts, if_neg (by omega), hpart, List.map_cons, hrest, hval,
      hplaced, hval, List.cons_append, Nat.add_assoc]

/-- A book's pools before the last, and the last. -/
theorem PoolBook.exists_last (b : PoolBook) :
    ∃ qs p, b.pools.toList = qs ++ [p] ∧ qs.length = poolCount - 1 := by
  have hlen : b.pools.toList.length = poolCount := b.pools.toList_length
  obtain hnil | ⟨qs, p, hlast⟩ := List.eq_nil_or_concat b.pools.toList
  · rw [hnil] at hlen
    exact absurd hlen (by decide)
  · rw [List.concat_eq_append] at hlast
    rw [hlast, List.length_append, List.length_singleton] at hlen
    exact ⟨qs, p, hlast, by omega⟩

/-- The parts of a book's pools, and that they share the whole count. -/
theorem PoolBook.parts_val (b : PoolBook) (amount : U64) :
    ∃ qs p, b.pools.toList = qs ++ [p] ∧ qs.length = poolCount - 1 ∧
      (qs.map (PoolEntry.counts b.weightSum)).sum + p.counts b.weightSum =
        countTotal b.weightSum ∧
      (b.parts amount).toList.map Fin.val =
        shares amount.val (countTotal b.weightSum) (qs.map (PoolEntry.counts b.weightSum)) ++
          [amount.val - (shares amount.val (countTotal b.weightSum)
            (qs.map (PoolEntry.counts b.weightSum))).sum] := by
  obtain ⟨qs, p, hpools, hlen⟩ := b.exists_last
  have hcounts := b.sum_counts
  rw [hpools, List.map_append, List.sum_append, List.map_singleton, List.sum_singleton] at hcounts
  have hle := sum_shares_le (a := amount.val) (countTotal_pos b.weightSum) hcounts
  have hparts : (b.parts amount).toList = fundParts amount b.weightSum 0 0 (qs ++ [p]) := by
    rw [← hpools]
    rfl
  refine ⟨qs, p, hpools, hlen, hcounts, ?_⟩
  rw [hparts, fundParts_val (by omega) (by rwa [Fin.val_zero, Nat.zero_add]), Fin.val_zero,
    Nat.zero_add]

/-- The parts add up to the amount. -/
theorem PoolBook.parts_sum (b : PoolBook) (amount : U64) :
    ((b.parts amount).toList.map Fin.val).sum = amount.val := by
  obtain ⟨qs, p, -, -, hcounts, hparts⟩ := b.parts_val amount
  have hle := sum_shares_le (a := amount.val) (countTotal_pos b.weightSum) hcounts
  rw [hparts, List.sum_append, List.sum_singleton]
  omega

/-- Each part is within a unit of the pool's exact share for every other pool. -/
theorem PoolBook.parts_near (b : PoolBook) (amount : U64) (i : Fin poolCount) :
    |(((b.parts amount).get i).val : ℚ) -
        (amount.val * (b.pools.get i).counts b.weightSum : ℕ) / countTotal b.weightSum| ≤
      (poolCount - 1 : ℕ) := by
  obtain ⟨qs, p, hpools, hlen, hcounts, hparts⟩ := b.parts_val amount
  have hpos := countTotal_pos b.weightSum
  have hall : List.Forall₂ (fun (part : U64) (q : PoolEntry) =>
      |(part.val : ℚ) - (amount.val * q.counts b.weightSum : ℕ) / countTotal b.weightSum| ≤
        (poolCount - 1 : ℕ)) (b.parts amount).toList b.pools.toList := by
    rw [← List.forall₂_map_left_iff (f := Fin.val)
      (R := fun (x : ℕ) (q : PoolEntry) => |(x : ℚ) -
        (amount.val * q.counts b.weightSum : ℕ) / countTotal b.weightSum| ≤
          (poolCount - 1 : ℕ)), hparts, hpools]
    refine List.rel_append ?_ (.cons ?_ .nil)
    · -- A pool before the last has its floored share.
      rw [shares, List.map_map, List.forall₂_map_left_iff, List.forall₂_same]
      exact fun q _ => share_near hpos (by decide)
    · -- The last one has the rest, with a unit lost to each of the others.
      rw [← hlen]
      simpa only [List.length_map] using rest_near (a := amount.val) hpos hcounts
  rw [List.forall₂_iff_get] at hall
  rw [List.Vector.get_eq_get_toList, List.Vector.get_eq_get_toList]
  exact hall.2 i.val (by simp) (by simp)

/-! ## What the pools gain -/

/-- The exact part of the amount for the pool at `i`: by weight, or evenly where no pool has a
weight. -/
def PoolBook.exactPart (b : PoolBook) (amount : U64) (i : Fin poolCount) : ℚ :=
  if b.weightSum = 0 then amount.val / poolCount
  else amount.val * (b.pools.get i).weightBps.val / b.weightSum

/-- The exact part of a pool is the amount by its count. -/
theorem PoolBook.exactPart_eq (b : PoolBook) (amount : U64) (i : Fin poolCount) :
    b.exactPart amount i =
      (amount.val * (b.pools.get i).counts b.weightSum : ℕ) / countTotal b.weightSum := by
  unfold exactPart PoolEntry.counts countTotal
  split
  · rw [Nat.mul_one]
  · rw [Nat.cast_mul]

/-- A sum over the pools' list is the sum over their indices. -/
theorem sum_map_toList {α : Type} {n : ℕ} (v : List.Vector α n) (f : α → ℕ) :
    (v.toList.map f).sum = ∑ i, f (v.get i) := by
  rw [← List.sum_ofFn, ← v.ofFn_get, List.Vector.toList_ofFn, List.map_ofFn, List.Vector.ofFn_get]
  rfl

/-- The pools gain their parts, where no sum saturates. -/
theorem fund_principal {b : PoolBook} {amount : U64} {i : Fin poolCount}
    (hfits : (b.pools.get i).principal.val + ((b.parts amount).get i).val < 2^64) :
    ((b.fund amount).pools.get i).principal.val =
      (b.pools.get i).principal.val + ((b.parts amount).get i).val := by
  rw [fund_get]
  exact satAdd_val_of_lt hfits

/-- A weight's floored share fits a `u64`. -/
theorem PoolBook.share_fits (b : PoolBook) (amount : U64) (i : Fin poolCount) :
    amount.val * (b.pools.get i).weightBps.val / b.weightSum < 2^64 := by
  have hweight : (b.pools.get i).weightBps.val ≤ b.weightSum := by
    rw [weightSum, sum_map_toList]
    exact Finset.single_le_sum (f := fun j => (b.pools.get j).weightBps.val)
      (fun j _ => Nat.zero_le _) (Finset.mem_univ i)
  have hshare : amount.val * (b.pools.get i).weightBps.val / b.weightSum ≤ amount.val :=
    Nat.div_le_of_le_mul (by rw [Nat.mul_comm]; exact Nat.mul_le_mul_right _ hweight)
  exact hshare.trans_lt amount.isLt

/-- Where no principal saturates, `fund` raises the capital by exactly the amount, lowers no pool,
and gives each a part near its exact one. The weights' sum and the cast to `u64` are exact. -/
theorem fund_follows_weights (b : PoolBook) (amount : U64)
    (hfits : ∀ i, (b.pools.get i).principal.val + ((b.parts amount).get i).val < 2^64) :
    (∃ total, b.totalW = .ok total ∧ total.val = b.weightSum) ∧
      (∀ i, (wrap (amount.val * (b.pools.get i).weightBps.val / b.weightSum) : U64).val =
        amount.val * (b.pools.get i).weightBps.val / b.weightSum) ∧
      (b.fund amount).principal = b.principal + amount.val ∧
      ∀ i, (b.pools.get i).principal.val ≤ ((b.fund amount).pools.get i).principal.val ∧
        |(((b.fund amount).pools.get i).principal.val : ℚ) - (b.pools.get i).principal.val -
            b.exactPart amount i| ≤ poolCount - 1 := by
  refine ⟨b.totalW_eq, fun i => ?_, ?_, fun i => ?_⟩
  · rw [wrap_val, Nat.mod_eq_of_lt (b.share_fits amount i)]
  · calc (b.fund amount).principal
        = ∑ i, ((b.fund amount).pools.get i).principal.val := sum_map_toList _ _
      _ = ∑ i, ((b.pools.get i).principal.val + ((b.parts amount).get i).val) :=
          Finset.sum_congr rfl fun i _ => fund_principal (hfits i)
      _ = b.principal + ((b.parts amount).toList.map Fin.val).sum := by
          rw [Finset.sum_add_distrib, PoolBook.principal, principalSum, sum_map_toList,
            sum_map_toList]
      _ = b.principal + amount.val := by rw [b.parts_sum]
  · rw [fund_principal (hfits i), b.exactPart_eq, Nat.cast_add, add_sub_cancel_left]
    refine ⟨Nat.le_add_right _ _, ?_⟩
    have hnear := b.parts_near amount i
    rwa [Nat.cast_sub (by decide), Nat.cast_one] at hnear

/-- A book with weights of one, one, one, and none. -/
def thirdsBook : PoolBook :=
  initBook devnetVault authority 0
    (List.Vector.map (fun w => { pool 1000 with weightBps := w }) ⟨[1, 1, 1, 0], rfl⟩)

/-- Ten units for it: the floored thirds leave a unit, which goes to the pool without a weight. -/
theorem fund_follows_weights_thirds :
    (thirdsBook.fund 10).principal = thirdsBook.principal + 10 ∧
      ∀ i, |(((thirdsBook.fund 10).pools.get i).principal.val : ℚ) -
        (thirdsBook.pools.get i).principal.val - thirdsBook.exactPart 10 i| ≤ poolCount - 1 := by
  obtain ⟨-, -, htotal, hpools⟩ := fund_follows_weights thirdsBook 10 (by decide +kernel)
  exact ⟨htotal, fun i => (hpools i).2⟩

end Agama
