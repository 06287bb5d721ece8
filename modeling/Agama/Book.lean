import Agama.State

/-!
# The pool book

`PoolBook`'s methods and the three instructions that write it, `tick`, `absorb`, and `set_apr`. The
loops over the pools are recursions over their list, so the facts about them are inductions with the
loop's accumulator general. `PoolBook.principal` and `PoolBook.value` are the exact sums behind the
saturating `marked_value`: accrual keeps the one and never lowers the other, `fund` raises both by
the amount, and `defund` lowers both by as much of the amount as the principals cover.
-/

namespace Agama

/-! ## The methods -/

/-- One pool's part of `accrue`, for `dt` seconds. -/
def PoolEntry.accrue (dt : ℕ) (p : PoolEntry) : Result PoolEntry := do
  let product ← u128 (p.principal.val * p.aprBps.val * dt)
  let pending := product / (bps * secondsPerYear)
  -- The source narrows with `as u64`, which wraps where the rest of the book saturates.
  pure { p with accrued := satAdd p.accrued (wrap pending) }

/-- `PoolBook::accrue`. -/
def PoolBook.accrue (b : PoolBook) (now : ℤ) : Result PoolBook :=
  if now ≤ b.lastTs then .ok b
  else do
    let dt ← i64 (now - b.lastTs)
    let pools ← b.pools.mmap (PoolEntry.accrue dt.toNat)
    pure { b with pools }

/-- The loop of `fund` from pool `i` on, with `placed` already handed out. -/
def fundLoop (amount : U64) (totalW : ℕ) : ℕ → U64 → List PoolEntry → List PoolEntry
  | _, _, [] => []
  | i, placed, p :: ps =>
    -- The last pool takes what the floored shares left, and without weights the shares are even.
    let part : U64 :=
      if i = poolCount - 1 then satSub amount placed
      else if totalW = 0 then wrap (amount.val / poolCount)
      else wrap (amount.val * p.weightBps.val / totalW)
    { p with principal := satAdd p.principal part } ::
      fundLoop amount totalW (i + 1) (satAdd placed part) ps

/-- The loop of `fund` keeps every pool. -/
theorem length_fundLoop (amount : U64) (totalW i : ℕ) (placed : U64) (ps : List PoolEntry) :
    (fundLoop amount totalW i placed ps).length = ps.length := by
  induction ps generalizing i placed with
  | nil => rfl
  | cons p ps ih => simp [fundLoop, ih]

/-- `PoolBook::fund`. -/
def PoolBook.fund (b : PoolBook) (amount : U64) : PoolBook :=
  let totalW := (b.pools.toList.map (·.weightBps.val)).sum
  { b with
    pools := ⟨fundLoop amount totalW 0 0 b.pools.toList, by simp [length_fundLoop]⟩ }

/-- The loop of `defund`, with `rem` still to pull out. -/
def defundLoop : U64 → List PoolEntry → List PoolEntry
  | _, [] => []
  | rem, p :: ps =>
    if rem = 0 then p :: ps
    else
      let take := min rem p.principal
      { p with principal := satSub p.principal take } :: defundLoop (satSub rem take) ps

/-- The loop of `defund` keeps every pool. -/
theorem length_defundLoop (rem : U64) (ps : List PoolEntry) :
    (defundLoop rem ps).length = ps.length := by
  induction ps generalizing rem with
  | nil => rfl
  | cons p ps ih =>
    unfold defundLoop
    split
    · rfl
    · simp [ih]

/-- `PoolBook::defund`. -/
def PoolBook.defund (b : PoolBook) (amount : U64) : PoolBook :=
  { b with pools := ⟨defundLoop amount b.pools.toList, by simp [length_defundLoop]⟩ }

/-- `PoolBook::marked_value`. -/
def PoolBook.markedValue (b : PoolBook) : U64 :=
  b.pools.toList.foldl (fun acc p => satAdd (satAdd acc p.principal) p.accrued) 0

/-! ## The instructions -/

/-- `init_book`. -/
def initBook (vault authority : Pubkey) (now : ℤ) (pools : List.Vector PoolInit poolCount) :
    PoolBook where
  vault := vault
  authority := authority
  pools := pools.map fun p => ⟨p.name, p.sector, p.aprBps, p.weightBps, 0, 0⟩
  nav := 0
  markedIn := 0
  markedOut := 0
  lastTs := now
  ticks := 0

/-- `tick`. -/
def tick (b : PoolBook) (now : ℤ) : Result PoolBook := do
  let b ← b.accrue now
  pure { b with nav := b.markedValue, lastTs := now, ticks := satAdd b.ticks 1 }

/-- The event that `absorb` emits. -/
structure Absorbed where
  inflow : U64
  outflow : U64
  nav : U64

/-- The part of `absorb` that deploys the inflow. -/
def PoolBook.absorbIn (b : PoolBook) (inflow : U64) : PoolBook :=
  if 0 < inflow.val then { b.fund inflow with markedIn := satAdd b.markedIn inflow } else b

/-- The part of `absorb` that pulls the outflow. -/
def PoolBook.absorbOut (b : PoolBook) (outflow : U64) : PoolBook :=
  if 0 < outflow.val then { b.defund outflow with markedOut := satAdd b.markedOut outflow } else b

/-- `absorb`. -/
def absorb (b : PoolBook) (now : ℤ) (inflow outflow : U64) : Result (PoolBook × Absorbed) := do
  let b ← b.accrue now
  let b := { b with lastTs := now }
  -- The inflow is deployed first, so the outflow may draw on it.
  let b := (b.absorbIn inflow).absorbOut outflow
  let b := { b with nav := b.markedValue }
  pure (b, ⟨inflow, outflow, b.nav⟩)

/-- `set_apr`. -/
def setApr (b : PoolBook) (now : ℤ) (index : U8) (aprBps : U32) : Result PoolBook :=
  if h : index.val < poolCount then do
    -- Up to now the pool earned at its old rate.
    let b ← b.accrue now
    let entry := b.pools.get ⟨index.val, h⟩
    let b := { b with lastTs := now, pools := b.pools.set ⟨index.val, h⟩ { entry with aprBps } }
    pure { b with nav := b.markedValue }
  else .error (.error .badPool)

/-! ## The exact sums -/

/-- The principals of a list of pools. -/
def principalSum (ps : List PoolEntry) : ℕ := (ps.map (·.principal.val)).sum

/-- The principals and accrued balances of a list of pools. -/
def valueSum (ps : List PoolEntry) : ℕ := (ps.map fun p => p.principal.val + p.accrued.val).sum

/-- The capital in the pools. -/
def PoolBook.principal (b : PoolBook) : ℕ := principalSum b.pools.toList

/-- The pools' exact value, which `markedValue` caps. -/
def PoolBook.value (b : PoolBook) : ℕ := valueSum b.pools.toList

/-- The principals of a book with one more pool. -/
@[simp]
theorem principalSum_cons (p : PoolEntry) (ps : List PoolEntry) :
    principalSum (p :: ps) = p.principal.val + principalSum ps := rfl

/-- The values of a book with one more pool. -/
@[simp]
theorem valueSum_cons (p : PoolEntry) (ps : List PoolEntry) :
    valueSum (p :: ps) = p.principal.val + p.accrued.val + valueSum ps := rfl

/-- The capital in the pools is part of their value. -/
theorem principalSum_le_valueSum (ps : List PoolEntry) : principalSum ps ≤ valueSum ps := by
  induction ps with
  | nil => exact le_rfl
  | cons p ps ih => rw [principalSum_cons, valueSum_cons]; omega

/-- A saturating fold of nonnegative parts saturates at most once, so it caps the exact sum. -/
theorem foldl_satAdd_val (ps : List PoolEntry) (acc : U64) :
    (ps.foldl (fun acc p => satAdd (satAdd acc p.principal) p.accrued) acc).val =
      min (acc.val + valueSum ps) (2^64 - 1) := by
  induction ps generalizing acc with
  | nil =>
    have := acc.isLt
    simp only [List.foldl_nil, valueSum, List.map_nil, List.sum_nil]
    omega
  | cons p ps ih =>
    -- Once the accumulator is at the top it stays there, whatever the pools still hold.
    rw [List.foldl_cons, ih, valueSum_cons]
    simp only [satAdd_val]
    omega

/-- `marked_value` is the pools' value, capped. -/
theorem markedValue_val (b : PoolBook) : b.markedValue.val = min b.value (2^64 - 1) := by
  unfold PoolBook.markedValue PoolBook.value
  rw [foldl_satAdd_val]
  simp

/-! ## `accrue` -/

/-- `b'` is `b` with yield folded in: the same capital and marks, and no less value. -/
structure Accrued (b b' : PoolBook) : Prop where
  vault : b'.vault = b.vault
  authority : b'.authority = b.authority
  principal : b'.principal = b.principal
  value : b.value ≤ b'.value
  markedIn : b'.markedIn = b.markedIn
  markedOut : b'.markedOut = b.markedOut
  nav : b'.nav = b.nav

/-- One pool's accrual keeps its principal, and never lowers its accrued balance. -/
theorem PoolEntry.accrue_spec {dt : ℕ} {p p' : PoolEntry} (h : p.accrue dt = .ok p') :
    p'.principal = p.principal ∧ p.accrued.val ≤ p'.accrued.val := by
  simp only [PoolEntry.accrue, bind_eq_ok, pure_eq_ok] at h
  obtain ⟨product, -, rfl⟩ := h
  exact ⟨rfl, le_satAdd_left _ _⟩

/-- The accrual loop keeps the principals, and never lowers the value. -/
theorem mmap_accrue_spec {dt : ℕ} {n : ℕ} {ps ps' : List.Vector PoolEntry n}
    (h : ps.mmap (PoolEntry.accrue dt) = .ok ps') :
    principalSum ps'.toList = principalSum ps.toList ∧
      valueSum ps.toList ≤ valueSum ps'.toList := by
  induction ps with
  | nil =>
    simp only [List.Vector.mmap_nil, pure_eq_ok] at h
    subst h
    exact ⟨rfl, le_rfl⟩
  | cons ih =>
    simp only [List.Vector.mmap_cons, bind_eq_ok, pure_eq_ok] at h
    obtain ⟨p', hp, qs', hqs, rfl⟩ := h
    obtain ⟨hprin, hacc⟩ := PoolEntry.accrue_spec hp
    obtain ⟨hsum, hval⟩ := ih hqs
    simp only [List.Vector.toList_cons, principalSum_cons, valueSum_cons, hprin]
    omega

/-- `accrue` folds yield in and touches nothing else. -/
theorem accrue_spec {b b' : PoolBook} {now : ℤ} (h : b.accrue now = .ok b') : Accrued b b' := by
  unfold PoolBook.accrue at h
  split at h
  · -- The clock has not moved past the last reading.
    cases h
    exact ⟨rfl, rfl, rfl, le_rfl, rfl, rfl, rfl⟩
  · simp only [bind_eq_ok, pure_eq_ok] at h
    obtain ⟨dt, -, pools, hpools, rfl⟩ := h
    obtain ⟨hprin, hval⟩ := mmap_accrue_spec hpools
    exact ⟨rfl, rfl, hprin, hval, rfl, rfl, rfl⟩

/-- Up to its last reading of the clock, a book has nothing to accrue. -/
theorem accrue_of_le {b : PoolBook} {now : ℤ} (h : now ≤ b.lastTs) : b.accrue now = .ok b :=
  if_pos h

/-! ## `fund` and `defund` -/

/-- The parts that the loop of `fund` adds to the principals from pool `i` on, with `placed` already
handed out. -/
def fundParts (amount : U64) (totalW : ℕ) : ℕ → U64 → List PoolEntry → List U64
  | _, _, [] => []
  | i, placed, p :: ps =>
    let part : U64 :=
      if i = poolCount - 1 then satSub amount placed
      else if totalW = 0 then wrap (amount.val / poolCount)
      else wrap (amount.val * p.weightBps.val / totalW)
    part :: fundParts amount totalW (i + 1) (satAdd placed part) ps

/-- Every pool has a part of what `fund` hands out. -/
theorem length_fundParts (amount : U64) (totalW i : ℕ) (placed : U64) (ps : List PoolEntry) :
    (fundParts amount totalW i placed ps).length = ps.length := by
  induction ps generalizing i placed with
  | nil => rfl
  | cons p ps ih => simp [fundParts, ih]

/-- The loop adds each pool's part to its principal. -/
theorem fundLoop_eq (amount : U64) (totalW i : ℕ) (placed : U64) (ps : List PoolEntry) :
    fundLoop amount totalW i placed ps =
      List.zipWith (fun p part => { p with principal := satAdd p.principal part }) ps
        (fundParts amount totalW i placed ps) := by
  induction ps generalizing i placed with
  | nil => rfl
  | cons p ps ih => simp only [fundLoop, fundParts, List.zipWith_cons_cons, ih]

/-- The sum of the weights. -/
def PoolBook.weightSum (b : PoolBook) : ℕ := (b.pools.toList.map (·.weightBps.val)).sum

/-- The part that each pool gets. -/
def PoolBook.parts (b : PoolBook) (amount : U64) : List.Vector U64 poolCount :=
  ⟨fundParts amount b.weightSum 0 0 b.pools.toList, by simp [length_fundParts]⟩

/-- `fund` adds to every pool its part, and changes nothing else of it. -/
theorem fund_get (b : PoolBook) (amount : U64) (i : Fin poolCount) :
    (b.fund amount).pools.get i = { b.pools.get i with
      principal := satAdd (b.pools.get i).principal ((b.parts amount).get i) } := by
  have hlist : (b.fund amount).pools.toList = List.zipWith
      (fun p part => { p with principal := satAdd p.principal part }) b.pools.toList
        (b.parts amount).toList := fundLoop_eq _ _ _ _ _
  simp only [List.Vector.get_eq_get_toList, hlist, List.get_eq_getElem, List.getElem_zipWith]
  rfl

/-- The invariant of `fund`'s loop: what is placed before pool `i` is at most the share of the
weights passed, or of the pools passed when every weight is zero. -/
def Apportioned (amount totalW i placed : ℕ) (ps : List PoolEntry) : Prop :=
  if totalW = 0 then placed * poolCount ≤ amount * i ∧ i ≤ poolCount
  else placed * totalW + amount * (ps.map (·.weightBps.val)).sum ≤ amount * totalW

/-- The loop never hands out more than the amount. -/
theorem Apportioned.placed_le {amount totalW i placed : ℕ} {ps : List PoolEntry}
    (h : Apportioned amount totalW i placed ps) : placed ≤ amount := by
  unfold Apportioned at h
  split at h
  · have hi : amount * i ≤ amount * poolCount := Nat.mul_le_mul_left _ h.2
    exact Nat.le_of_mul_le_mul_right (h.1.trans hi) (by decide)
  · rename_i hw
    exact Nat.le_of_mul_le_mul_right ((Nat.le_add_right _ _).trans h) (Nat.pos_of_ne_zero hw)

/-- One pool before the last takes its floored share, and the invariant moves on. -/
theorem Apportioned.step {amount totalW i placed : ℕ} {p : PoolEntry} {ps : List PoolEntry}
    (h : Apportioned amount totalW i placed (p :: ps)) (hi : i + 1 ≤ poolCount) :
    Apportioned amount totalW (i + 1)
      (placed + if totalW = 0 then amount / poolCount else amount * p.weightBps.val / totalW)
      ps := by
  unfold Apportioned at h ⊢
  split
  · -- Without weights every pool takes a floored quarter.
    rename_i hw
    rw [if_pos hw] at h
    refine ⟨?_, hi⟩
    have hdiv := Nat.div_mul_le_self amount poolCount
    calc (placed + amount / poolCount) * poolCount
        = placed * poolCount + amount / poolCount * poolCount := Nat.add_mul _ _ _
      _ ≤ amount * i + amount := Nat.add_le_add h.1 hdiv
      _ = amount * (i + 1) := by ring
  · -- Otherwise a pool takes its weight's floored share, and its weight leaves the rest.
    rename_i hw
    rw [if_neg hw] at h
    have hdiv := Nat.div_mul_le_self (amount * p.weightBps.val) totalW
    rw [List.map_cons, List.sum_cons, Nat.mul_add] at h
    rw [Nat.add_mul]
    omega

/-- `fund`'s loop places the rest of the amount, all of it in principal. -/
theorem fundLoop_spec {amount : U64} {totalW i : ℕ} {placed : U64} {ps : List PoolEntry}
    (hlen : i + ps.length = poolCount) (hps : ps ≠ [])
    (h : Apportioned amount.val totalW i placed.val ps)
    (hfit : principalSum ps + amount.val < 2^64) :
    principalSum (fundLoop amount totalW i placed ps) =
        principalSum ps + (amount.val - placed.val) ∧
      valueSum (fundLoop amount totalW i placed ps) =
        valueSum ps + (amount.val - placed.val) := by
  induction ps generalizing i placed with
  | nil => exact absurd rfl hps
  | cons p ps ih =>
    have hplaced := h.placed_le
    have hamount := amount.isLt
    rw [List.length_cons] at hlen
    rw [principalSum_cons] at hfit
    by_cases hlast : i = poolCount - 1
    · -- The last pool absorbs the remainder.
      obtain rfl : ps = [] := List.eq_nil_of_length_eq_zero (by omega)
      simp only [fundLoop, if_pos hlast, principalSum_cons, valueSum_cons, satAdd_val, satSub_val]
      omega
    · -- Before it, the invariant bounds what is placed after this pool's share too.
      have hne : ps ≠ [] := by
        rintro rfl
        simp only [List.length_nil] at hlen
        omega
      have hnext := h.step (by omega)
      have hnext_le := hnext.placed_le
      simp only [fundLoop, if_neg hlast]
      generalize hpart : (if totalW = 0 then wrap (amount.val / poolCount)
        else wrap (amount.val * p.weightBps.val / totalW) : U64) = part
      -- A floored share is at most the amount, so the narrowing to `u64` is exact.
      have hpart_val : part.val =
          if totalW = 0 then amount.val / poolCount else amount.val * p.weightBps.val / totalW := by
        rw [← hpart]
        split_ifs at hnext_le ⊢
        · rw [wrap_val, Nat.mod_eq_of_lt (by omega)]
        · rw [wrap_val, Nat.mod_eq_of_lt (by omega)]
      rw [← hpart_val] at hnext hnext_le
      have hsat : (satAdd placed part).val = placed.val + part.val := by
        rw [satAdd_val]; omega
      rw [← hsat] at hnext
      obtain ⟨hprin, hval⟩ := ih (by omega) hne hnext (by omega)
      simp only [principalSum_cons, valueSum_cons, hprin, hval, hsat, satAdd_val]
      omega

/-- The weights' total starts the loop with nothing placed. -/
theorem apportioned_start (amount : ℕ) (ps : List PoolEntry) :
    Apportioned amount (ps.map (·.weightBps.val)).sum 0 0 ps := by
  unfold Apportioned
  split
  · exact ⟨by omega, Nat.zero_le _⟩
  · omega

/-- `fund` raises the capital and the value by exactly the amount. -/
theorem fund_spec (b : PoolBook) (amount : U64) (hfit : b.principal + amount.val < 2^64) :
    (b.fund amount).principal = b.principal + amount.val ∧
      (b.fund amount).value = b.value + amount.val := by
  have hlen : 0 + b.pools.toList.length = poolCount := by
    rw [List.Vector.toList_length, Nat.zero_add]
  have hne : b.pools.toList ≠ [] := by
    intro hnil
    rw [hnil] at hlen
    exact absurd hlen (by decide)
  exact fundLoop_spec hlen hne (apportioned_start _ _) hfit

/-- `defund`'s loop pulls out as much as the principals cover. -/
theorem defundLoop_spec (rem : U64) (ps : List PoolEntry) :
    principalSum (defundLoop rem ps) = principalSum ps - rem.val ∧
      valueSum (defundLoop rem ps) = valueSum ps - min rem.val (principalSum ps) := by
  induction ps generalizing rem with
  | nil => simp [defundLoop, principalSum, valueSum]
  | cons p ps ih =>
    unfold defundLoop
    split
    · -- Nothing is left to pull, and the source breaks out of the loop.
      rename_i hrem
      simp [hrem]
    · have hle := principalSum_le_valueSum ps
      have htake : (min rem p.principal).val = min rem.val p.principal.val := Fin.coe_min ..
      obtain ⟨hprin, hval⟩ := ih (satSub rem (min rem p.principal))
      simp only [principalSum_cons, valueSum_cons, hprin, hval, satSub_val, htake]
      -- Either this pool covers what is left, or it is emptied.
      rcases le_total rem.val p.principal.val with hcovers | hshort
      · rw [min_eq_left hcovers, Nat.sub_self, Nat.zero_min]
        omega
      · rw [min_eq_right hshort]
        omega

/-- `defund` lowers the capital and the value by the amount, capped by the capital. -/
theorem defund_spec (b : PoolBook) (amount : U64) :
    (b.defund amount).principal = b.principal - amount.val ∧
      (b.defund amount).value = b.value - min amount.val b.principal :=
  defundLoop_spec amount b.pools.toList

/-! ## What the instructions do to the book -/

/-- A fresh book holds nothing. -/
theorem initBook_value (vault authority : Pubkey) (now : ℤ)
    (pools : List.Vector PoolInit poolCount) : (initBook vault authority now pools).value = 0 := by
  have hzero (l : List PoolInit) :
      valueSum (l.map fun p => ⟨p.name, p.sector, p.aprBps, p.weightBps, 0, 0⟩) = 0 := by
    induction l with
    | nil => rfl
    | cons p l ih => rw [List.map_cons, valueSum_cons, ih]; rfl
  simp only [PoolBook.value, initBook, List.Vector.toList_map, hzero]

/-- `b'` is `b` re-marked: yield folded in, the same capital and marks, and the NAV computed. -/
structure Remarked (b b' : PoolBook) : Prop where
  authority : b'.authority = b.authority
  principal : b'.principal = b.principal
  value : b.value ≤ b'.value
  markedIn : b'.markedIn = b.markedIn
  markedOut : b'.markedOut = b.markedOut
  nav : b'.nav = b'.markedValue

/-- `tick` re-marks the book. -/
theorem tick_spec {b b' : PoolBook} {now : ℤ} (h : tick b now = .ok b') : Remarked b b' := by
  simp only [tick, bind_eq_ok, pure_eq_ok] at h
  obtain ⟨c, hc, rfl⟩ := h
  have hacc := accrue_spec hc
  exact ⟨hacc.authority, hacc.principal, hacc.value, hacc.markedIn, hacc.markedOut, rfl⟩

/-- Moving one pool's rate keeps the sums. -/
theorem set_aprBps_sums {n : ℕ} (ps : List.Vector PoolEntry n) (i : Fin n) (aprBps : U32) :
    principalSum (ps.set i { ps.get i with aprBps }).toList = principalSum ps.toList ∧
      valueSum (ps.set i { ps.get i with aprBps }).toList = valueSum ps.toList := by
  have hsum (f : PoolEntry → ℕ) (hf : f { ps.get i with aprBps } = f (ps.get i)) :
      ((ps.set i { ps.get i with aprBps }).toList.map f).sum = (ps.toList.map f).sum := by
    rw [List.Vector.toList_set, List.map_set, hf]
    congr 1
    apply List.ext_getElem
    · simp
    · intro j h₁ h₂
      rw [List.getElem_set]
      split
      · rename_i hj
        subst hj
        simp [List.Vector.get_eq_get_toList]
      · rfl
  exact ⟨hsum _ rfl, hsum _ rfl⟩

/-- `set_apr` re-marks the book. -/
theorem setApr_spec {b b' : PoolBook} {now : ℤ} {index : U8} {aprBps : U32}
    (h : setApr b now index aprBps = .ok b') : Remarked b b' := by
  unfold setApr at h
  split at h
  · simp only [bind_eq_ok, pure_eq_ok] at h
    obtain ⟨c, hc, rfl⟩ := h
    have hacc := accrue_spec hc
    obtain ⟨hprin, hval⟩ := set_aprBps_sums c.pools _ aprBps
    exact ⟨hacc.authority, hprin.trans hacc.principal, hacc.value.trans hval.ge, hacc.markedIn,
      hacc.markedOut, rfl⟩
  · cases h

/-- What `absorb` does to the book's marks and NAV, whatever the amounts. -/
theorem absorb_marks {b : PoolBook} {now : ℤ} {inflow outflow : U64} {r : PoolBook × Absorbed}
    (h : absorb b now inflow outflow = .ok r) :
    r.1.authority = b.authority ∧ r.1.markedIn = satAdd b.markedIn inflow ∧
      r.1.markedOut = satAdd b.markedOut outflow ∧ r.1.nav = r.1.markedValue := by
  simp only [absorb, bind_eq_ok, pure_eq_ok] at h
  obtain ⟨c, hc, rfl⟩ := h
  have hacc := accrue_spec hc
  -- A zero amount skips its branch, where adding it to the mark would change nothing either.
  have hzero (m x : U64) (hx : ¬ 0 < x.val) : satAdd m x = m := by
    apply Fin.ext
    have := m.isLt
    rw [satAdd_val]
    omega
  refine ⟨?_, ?_, ?_, rfl⟩
  · unfold PoolBook.absorbOut PoolBook.absorbIn
    split_ifs <;> exact hacc.authority
  · unfold PoolBook.absorbOut PoolBook.absorbIn
    split_ifs with hout hin hin
    · exact congrArg (satAdd · inflow) hacc.markedIn
    · exact hacc.markedIn.trans (hzero _ _ hin).symm
    · exact congrArg (satAdd · inflow) hacc.markedIn
    · exact hacc.markedIn.trans (hzero _ _ hin).symm
  · unfold PoolBook.absorbOut PoolBook.absorbIn
    split_ifs with hout hin hin
    · exact congrArg (satAdd · outflow) hacc.markedOut
    · exact congrArg (satAdd · outflow) hacc.markedOut
    · exact hacc.markedOut.trans (hzero _ _ hout).symm
    · exact hacc.markedOut.trans (hzero _ _ hout).symm

/-- Deploying an inflow that fits raises the capital and the value by it. -/
theorem absorbIn_sums (b : PoolBook) (inflow : U64) (hfit : b.principal + inflow.val < 2^64) :
    (b.absorbIn inflow).principal = b.principal + inflow.val ∧
      (b.absorbIn inflow).value = b.value + inflow.val := by
  unfold PoolBook.absorbIn
  split
  · exact fund_spec b inflow hfit
  · constructor <;> omega

/-- Pulling an outflow lowers the capital and the value by it, capped by the capital. -/
theorem absorbOut_sums (b : PoolBook) (outflow : U64) :
    (b.absorbOut outflow).principal = b.principal - outflow.val ∧
      (b.absorbOut outflow).value = b.value - min outflow.val b.principal := by
  unfold PoolBook.absorbOut
  split
  · exact defund_spec b outflow
  · constructor <;> omega

/-- What `absorb` does to the pools, for an inflow that fits: on top of the value `v` after accrual,
the inflow is placed whole, and the outflow is pulled as far as the capital goes. Accrual adds
nothing when the clock has not moved. -/
theorem absorb_sums {b : PoolBook} {now : ℤ} {inflow outflow : U64} {r : PoolBook × Absorbed}
    (h : absorb b now inflow outflow = .ok r) (hfit : b.principal + inflow.val < 2^64) :
    ∃ v, b.value ≤ v ∧ (now ≤ b.lastTs → v = b.value) ∧
      r.1.principal = b.principal + inflow.val - outflow.val ∧
      r.1.value = v + inflow.val - min outflow.val (b.principal + inflow.val) := by
  simp only [absorb, bind_eq_ok, pure_eq_ok] at h
  obtain ⟨c, hc, rfl⟩ := h
  have hacc := accrue_spec hc
  have hprin : ({ c with lastTs := now } : PoolBook).principal = b.principal := hacc.principal
  obtain ⟨hinP, hinV⟩ := absorbIn_sums { c with lastTs := now } inflow (by rw [hprin]; exact hfit)
  obtain ⟨houtP, houtV⟩ :=
    absorbOut_sums (({ c with lastTs := now } : PoolBook).absorbIn inflow) outflow
  rw [hinP, hprin] at houtP houtV
  rw [hinV] at houtV
  -- The value after accrual is the witness, and a clock that has not moved accrues nothing.
  refine ⟨c.value, hacc.value, ?_, houtP, houtV⟩
  intro hnow
  rw [accrue_of_le hnow] at hc
  cases hc
  rfl

end Agama
