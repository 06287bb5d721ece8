import Agama.Funding
import Agama.Narrowing

/-!
# Migration

`migrate_book` opens a new book as a copy of the legacy one, as Solana last saw it, for when a
rollup has lost a book that it went on ticking. What an operation does to a book is decided by the
book's `outline`, which leaves out the yield, the keys, and the count of ticks. So the copy goes on
in lockstep with what the lost book would have done, and what the lost ticks had accrued, the first
tick on the copy accrues at once. It rounds down once where they rounded every time: the copy ends
up ahead, by at most a unit for each tick that was lost.
-/

namespace Agama

open FlooredSums

/-! ## The outline of a book -/

/-- A pool without what it accrued. -/
def PoolEntry.outline (p : PoolEntry) : PoolEntry := { p with accrued := 0 }

/-- The part of a book that decides what an operation does to it. -/
def PoolBook.outline (b : PoolBook) : PoolBook where
  vault := Pubkey.default
  authority := Pubkey.default
  pools := b.pools.map PoolEntry.outline
  nav := 0
  markedIn := b.markedIn
  markedOut := b.markedOut
  lastTs := b.lastTs
  ticks := 0

namespace PoolBook

variable {b b' c : PoolBook}

/-- Books with one outline have the outlines of their pools in common. -/
theorem pools_of_outline (h : c.outline = b.outline) :
    c.pools.toList.map PoolEntry.outline = b.pools.toList.map PoolEntry.outline := by
  have hpools : c.pools.map PoolEntry.outline = b.pools.map PoolEntry.outline :=
    congrArg PoolBook.pools h
  rw [← List.Vector.toList_map, hpools, List.Vector.toList_map]

/-- Books of one outline were last accrued at the same time. -/
theorem lastTs_of_outline (h : c.outline = b.outline) : c.lastTs = b.lastTs := by
  have hlast : c.outline.lastTs = b.outline.lastTs := by rw [h]
  exact hlast

/-- They have the same marks. -/
theorem marks_of_outline (h : c.outline = b.outline) :
    c.markedIn = b.markedIn ∧ c.markedOut = b.markedOut := by
  have hin : c.outline.markedIn = b.outline.markedIn := by rw [h]
  have hout : c.outline.markedOut = b.outline.markedOut := by rw [h]
  exact ⟨hin, hout⟩

/-- Their pools, marks, and readings of the clock are all that they need. -/
theorem outline_eq
    (hpools : c.pools.toList.map PoolEntry.outline = b.pools.toList.map PoolEntry.outline)
    (hin : c.markedIn = b.markedIn) (hout : c.markedOut = b.markedOut)
    (hlast : c.lastTs = b.lastTs) : c.outline = b.outline := by
  have hmap : c.pools.map PoolEntry.outline = b.pools.map PoolEntry.outline := by
    apply List.Vector.eq
    rw [List.Vector.toList_map, List.Vector.toList_map, hpools]
  unfold outline
  rw [hmap, hin, hout, hlast]

/-- Pools have their outlines in common when they do at every index. -/
theorem pools_outline_eq (h : ∀ i, (c.pools.get i).outline = (b.pools.get i).outline) :
    c.pools.toList.map PoolEntry.outline = b.pools.toList.map PoolEntry.outline := by
  have hmap : c.pools.map PoolEntry.outline = b.pools.map PoolEntry.outline := by
    refine List.Vector.ext fun i => ?_
    rw [List.Vector.get_map, List.Vector.get_map, h i]
  rw [← List.Vector.toList_map, hmap, List.Vector.toList_map]

/-- Their pools differ in the accrued balances only. -/
theorem get_of_outline (h : c.outline = b.outline) (i : Fin poolCount) :
    c.pools.get i = { b.pools.get i with accrued := (c.pools.get i).accrued } := by
  have hpool : (c.pools.get i).outline = (b.pools.get i).outline :=
    get_eq_of_map (pools_of_outline h) i
  calc c.pools.get i
      = { (c.pools.get i).outline with accrued := (c.pools.get i).accrued } := rfl
    _ = { (b.pools.get i).outline with accrued := (c.pools.get i).accrued } := by rw [hpool]
    _ = { b.pools.get i with accrued := (c.pools.get i).accrued } := rfl

/-- So they earn the same in the same time. -/
theorem earning_of_outline (h : c.outline = b.outline) (i : Fin poolCount) (dt : ℕ) :
    (c.pools.get i).earning dt = (b.pools.get i).earning dt := by
  rw [get_of_outline h i]
  rfl

/-! ## What the operations do to it -/

/-- Accrual leaves the outline. -/
theorem accrue_outline {now : ℤ} (h : b.accrue now = .ok b') : b'.outline = b.outline := by
  have hpools : b'.pools.toList.map PoolEntry.outline =
      b.pools.toList.map PoolEntry.outline := by
    refine pools_outline_eq fun i => ?_
    rw [accrue_get h i]
    rfl
  have hlast : b'.lastTs = b.lastTs := by
    unfold PoolBook.accrue at h
    split at h
    · cases h
      rfl
    · simp only [bind_eq_ok, pure_eq_ok] at h
      obtain ⟨_, -, _, -, rfl⟩ := h
      rfl
  exact outline_eq hpools (accrue_spec h).markedIn (accrue_spec h).markedOut hlast

/-- Whether a book accrues is decided by its outline. -/
theorem exists_accrue_of_outline {now : ℤ} (h : c.outline = b.outline)
    (hb : b.accrue now = .ok b') : ∃ c', c.accrue now = .ok c' := by
  have hlast := lastTs_of_outline h
  by_cases hle : now ≤ c.lastTs
  · exact ⟨c, accrue_of_le hle⟩
  · have hfits : b.AccrualFits now := (exists_accrue_iff (by omega)).mp ⟨b', hb⟩
    refine (exists_accrue_iff (by omega)).mpr ⟨hlast ▸ hfits.elapsed, fun i => ?_⟩
    rw [earning_of_outline h i, hlast]
    exact hfits.product i

/-- The parts of an inflow are decided by the outline. -/
theorem fund_outline (h : c.outline = b.outline) (amount : U64) :
    (c.fund amount).outline = (b.fund amount).outline := by
  have hloop (w i : ℕ) (placed : U64) (ps : List PoolEntry) :
      (fundLoop amount w i placed ps).map PoolEntry.outline =
        fundLoop amount w i placed (ps.map PoolEntry.outline) := by
    induction ps generalizing i placed with
    | nil => rfl
    | cons p ps ih =>
      simp only [fundLoop, List.map_cons, ih]
      rfl
  have hpools := pools_of_outline h
  have hweights (d : PoolBook) : d.weightSum =
      ((d.pools.toList.map PoolEntry.outline).map (·.weightBps.val)).sum := by
    rw [List.map_map]
    rfl
  obtain ⟨hin, hout⟩ := marks_of_outline h
  have hlast := lastTs_of_outline h
  refine outline_eq ?_ hin hout hlast
  calc (c.fund amount).pools.toList.map PoolEntry.outline
      = fundLoop amount c.weightSum 0 0 (c.pools.toList.map PoolEntry.outline) :=
        hloop _ _ _ _
    _ = fundLoop amount b.weightSum 0 0 (b.pools.toList.map PoolEntry.outline) := by
        rw [hweights c, hweights b, hpools]
    _ = (b.fund amount).pools.toList.map PoolEntry.outline := (hloop _ _ _ _).symm

/-- So is what an outflow takes from each pool. -/
theorem defund_outline (h : c.outline = b.outline) (amount : U64) :
    (c.defund amount).outline = (b.defund amount).outline := by
  have hloop (rem : U64) (ps : List PoolEntry) :
      (defundLoop rem ps).map PoolEntry.outline =
        defundLoop rem (ps.map PoolEntry.outline) := by
    induction ps generalizing rem with
    | nil => rfl
    | cons p ps ih =>
      simp only [List.map_cons, defundLoop]
      split
      · rfl
      · simp only [List.map_cons, ih]
        rfl
  obtain ⟨hin, hout⟩ := marks_of_outline h
  have hlast := lastTs_of_outline h
  refine outline_eq ?_ hin hout hlast
  calc (c.defund amount).pools.toList.map PoolEntry.outline
      = defundLoop amount (c.pools.toList.map PoolEntry.outline) := hloop _ _
    _ = defundLoop amount (b.pools.toList.map PoolEntry.outline) := by
        rw [pools_of_outline h]
    _ = (b.defund amount).pools.toList.map PoolEntry.outline := (hloop _ _).symm

/-- Funding keeps the outline. -/
theorem absorbIn_outline (h : c.outline = b.outline) (inflow : U64) :
    (c.absorbIn inflow).outline = (b.absorbIn inflow).outline := by
  obtain ⟨hin, -⟩ := marks_of_outline h
  unfold absorbIn
  split
  · calc ({ c.fund inflow with markedIn := satAdd c.markedIn inflow } : PoolBook).outline
        = { (c.fund inflow).outline with markedIn := satAdd c.markedIn inflow } := rfl
      _ = { (b.fund inflow).outline with markedIn := satAdd b.markedIn inflow } := by
          rw [fund_outline h, hin]
      _ = ({ b.fund inflow with markedIn := satAdd b.markedIn inflow } : PoolBook).outline := rfl
  · exact h

/-- So does paying out. -/
theorem absorbOut_outline (h : c.outline = b.outline) (outflow : U64) :
    (c.absorbOut outflow).outline = (b.absorbOut outflow).outline := by
  obtain ⟨-, hout⟩ := marks_of_outline h
  unfold absorbOut
  split
  · calc ({ c.defund outflow with markedOut := satAdd c.markedOut outflow } : PoolBook).outline
        = { (c.defund outflow).outline with markedOut := satAdd c.markedOut outflow } := rfl
      _ = { (b.defund outflow).outline with markedOut := satAdd b.markedOut outflow } := by
          rw [defund_outline h, hout]
      _ = ({ b.defund outflow with markedOut := satAdd b.markedOut outflow } : PoolBook).outline :=
          rfl
  · exact h

/-- A new rate is a change of the outline. -/
theorem set_outline (h : c.outline = b.outline) (i : Fin poolCount) (aprBps : U32) :
    (c.pools.set i { c.pools.get i with aprBps }).toList.map PoolEntry.outline =
      (b.pools.set i { b.pools.get i with aprBps }).toList.map PoolEntry.outline := by
  have hentry : PoolEntry.outline { c.pools.get i with aprBps } =
      PoolEntry.outline { b.pools.get i with aprBps } := by
    rw [get_of_outline h i]
    rfl
  rw [List.Vector.toList_set, List.Vector.toList_set, List.map_set, List.map_set,
    pools_of_outline h, hentry]

/-- Whether an operation succeeds, and the outline it leaves, are decided by the outline. -/
theorem apply_outline {op : BookOp} (h : c.outline = b.outline) (hb : b.apply op = .ok b') :
    ∃ c', c.apply op = .ok c' ∧ c'.outline = b'.outline := by
  cases op with
  | tick now =>
    simp only [PoolBook.apply, tick, bind_eq_ok, pure_eq_ok] at hb ⊢
    obtain ⟨b₁, hb₁, rfl⟩ := hb
    obtain ⟨c₁, hc₁⟩ := exists_accrue_of_outline h hb₁
    have hsame : c₁.outline = b₁.outline :=
      (accrue_outline hc₁).trans (h.trans (accrue_outline hb₁).symm)
    exact ⟨_, ⟨c₁, hc₁, rfl⟩, congrArg (fun d => { d with lastTs := now }) hsame⟩
  | absorb now inflow outflow =>
    simp only [PoolBook.apply, absorb, bind_eq_ok, pure_eq_ok] at hb ⊢
    obtain ⟨_, ⟨b₁, hb₁, rfl⟩, rfl⟩ := hb
    obtain ⟨c₁, hc₁⟩ := exists_accrue_of_outline h hb₁
    have hsame : c₁.outline = b₁.outline :=
      (accrue_outline hc₁).trans (h.trans (accrue_outline hb₁).symm)
    refine ⟨_, ⟨_, ⟨c₁, hc₁, rfl⟩, rfl⟩, ?_⟩
    have hread : ({ c₁ with lastTs := now } : PoolBook).outline =
        ({ b₁ with lastTs := now } : PoolBook).outline :=
      congrArg (fun d => { d with lastTs := now }) hsame
    exact absorbOut_outline (absorbIn_outline hread inflow) outflow
  | setApr now index aprBps =>
    simp only [PoolBook.apply, setApr] at hb ⊢
    split at hb
    · rename_i hindex
      simp only [dif_pos hindex, bind_eq_ok, pure_eq_ok] at hb ⊢
      obtain ⟨b₁, hb₁, rfl⟩ := hb
      obtain ⟨c₁, hc₁⟩ := exists_accrue_of_outline h hb₁
      have hsame : c₁.outline = b₁.outline :=
        (accrue_outline hc₁).trans (h.trans (accrue_outline hb₁).symm)
      obtain ⟨hin, hout⟩ := marks_of_outline hsame
      refine ⟨_, ⟨c₁, hc₁, rfl⟩, outline_eq ?_ hin hout rfl⟩
      exact set_outline hsame _ aprBps
    · cases hb

/-- Every operation leaves the NAV at the value of the pools. -/
theorem apply_nav {op : BookOp} (h : b.apply op = .ok b') : b'.nav = b'.markedValue := by
  cases op with
  | tick now => exact (tick_spec h).nav
  | absorb now inflow outflow =>
    simp only [PoolBook.apply, bind_eq_ok, pure_eq_ok] at h
    obtain ⟨r, hr, rfl⟩ := h
    exact (absorb_marks hr).2.2.2
  | setApr now index aprBps => exact (setApr_spec h).nav

/-- So does every run of them. -/
theorem applyAll_nav {op : BookOp} {ops : List BookOp}
    (h : (op :: ops).foldlM PoolBook.apply b = .ok b') : b'.nav = b'.markedValue := by
  induction ops generalizing b op with
  | nil =>
    rw [List.foldlM_cons, bind_eq_ok] at h
    obtain ⟨b₁, hb₁, hnil⟩ := h
    rw [List.foldlM_nil, pure_eq_ok] at hnil
    exact hnil ▸ apply_nav hb₁
  | cons op' ops ih =>
    rw [List.foldlM_cons, bind_eq_ok] at h
    obtain ⟨b₁, -, hrest⟩ := h
    exact ih hrest

end PoolBook

/-! ## A book that trails another -/

/-- `c` is `b` with up to `n` more units accrued in every pool. -/
structure PoolBook.Trails (n : ℕ) (b c : PoolBook) : Prop where
  outline : c.outline = b.outline
  least : ∀ i, (b.pools.get i).accrued.val ≤ (c.pools.get i).accrued.val
  most : ∀ i, (c.pools.get i).accrued.val ≤ (b.pools.get i).accrued.val + n

namespace PoolBook.Trails

variable {n : ℕ} {b b' c : PoolBook}

/-- A book trails one that differs in its keys only, by nothing. -/
theorem of_keys (b : PoolBook) (vault authority : Pubkey) :
    b.Trails 0 { b with vault, authority } := ⟨rfl, fun _ => le_rfl, fun _ => le_rfl⟩

/-- The distances add up. -/
theorem trans {m : ℕ} {d : PoolBook} (h : b.Trails n c) (h' : c.Trails m d) :
    b.Trails (n + m) d := by
  refine ⟨h'.outline.trans h.outline, fun i => (h.least i).trans (h'.least i), fun i => ?_⟩
  have hmost := h.most i
  have hmost' := h'.most i
  omega

/-- Every operation keeps the distance: both books earn the same. -/
theorem apply {op : BookOp} (h : b.Trails n c) (hb : b.apply op = .ok b') :
    ∃ c', c.apply op = .ok c' ∧ b'.Trails n c' := by
  obtain ⟨c', hc, houtline⟩ := apply_outline h.outline hb
  have hlast := lastTs_of_outline h.outline
  have hacc (i : Fin poolCount) : ∃ earned : U64,
      (b'.pools.get i).accrued = satAdd (b.pools.get i).accrued earned ∧
        (c'.pools.get i).accrued = satAdd (c.pools.get i).accrued earned := by
    refine ⟨_, (apply_advanced hb).accrued i, ?_⟩
    rw [(apply_advanced hc).accrued i, PoolEntry.accruedAfter, hlast,
      earning_of_outline h.outline i]
  refine ⟨c', hc, houtline, fun i => ?_, fun i => ?_⟩
  · obtain ⟨earned, hb', hc'⟩ := hacc i
    have := h.least i
    rw [hb', hc', satAdd_val, satAdd_val]
    omega
  · obtain ⟨earned, hb', hc'⟩ := hacc i
    have := h.most i
    rw [hb', hc', satAdd_val, satAdd_val]
    omega

/-- So does every run of operations. -/
theorem applyAll {ops : List BookOp} (h : b.Trails n c)
    (hb : ops.foldlM PoolBook.apply b = .ok b') :
    ∃ c', ops.foldlM PoolBook.apply c = .ok c' ∧ b'.Trails n c' := by
  induction ops generalizing b c with
  | nil =>
    rw [List.foldlM_nil, pure_eq_ok] at hb
    subst hb
    exact ⟨c, rfl, h⟩
  | cons op ops ih =>
    rw [List.foldlM_cons, bind_eq_ok] at hb
    obtain ⟨b₁, hb₁, hrest⟩ := hb
    obtain ⟨c₁, hc₁, h₁⟩ := h.apply hb₁
    obtain ⟨c', hc', h'⟩ := ih h₁ hrest
    refine ⟨c', ?_, h'⟩
    rw [List.foldlM_cons, bind_eq_ok]
    exact ⟨c₁, hc₁, hc'⟩

/-- The values are within the pools' distances. -/
theorem markedValue (h : b.Trails n c) : b.markedValue.val ≤ c.markedValue.val ∧
    c.markedValue.val ≤ b.markedValue.val + poolCount * n := by
  have hsum (d : PoolBook) : d.value =
      ∑ i, ((d.pools.get i).principal.val + (d.pools.get i).accrued.val) :=
    sum_map_toList d.pools fun p => p.principal.val + p.accrued.val
  have hprincipal (i : Fin poolCount) :
      (c.pools.get i).principal = (b.pools.get i).principal := by
    rw [get_of_outline h.outline i]
  have hleast : b.value ≤ c.value := by
    rw [hsum b, hsum c]
    refine Finset.sum_le_sum fun i _ => ?_
    rw [hprincipal i]
    exact Nat.add_le_add_left (h.least i) _
  have hmost : c.value ≤ b.value + poolCount * n := by
    calc c.value
        ≤ ∑ i, ((b.pools.get i).principal.val + (b.pools.get i).accrued.val + n) := by
          rw [hsum c]
          refine Finset.sum_le_sum fun i _ => ?_
          have := h.most i
          rw [hprincipal i]
          omega
      _ = b.value + poolCount * n := by
          rw [Finset.sum_add_distrib, ← hsum b, Finset.sum_const, Finset.card_univ,
            Fintype.card_fin, smul_eq_mul]
  rw [markedValue_val, markedValue_val]
  omega

/-- Pricing accepts the one where it accepts the other, over the same supply, with a NAV within the
same distance. -/
theorem pricing (h : b.Trails n c) (hb : b.nav = b.markedValue) (hc : c.nav = c.markedValue)
    {v : Vault} {s : Shielded} {nav supply : U64}
    (hprice : navForPricing v b s = .ok (nav, supply)) :
    ∃ nav', navForPricing v c s = .ok (nav', supply) ∧ nav.val ≤ nav'.val ∧
      nav'.val ≤ nav.val + poolCount * n := by
  obtain ⟨hin, hout⟩ := marks_of_outline h.outline
  obtain ⟨hleast, hmost⟩ := h.markedValue
  rw [navForPricing_eq_ok, Prod.mk.injEq] at hprice
  obtain ⟨hwithin, hnav, hsupply⟩ := hprice
  refine ⟨_, navForPricing_eq_ok.mpr ⟨?_, Prod.ext rfl hsupply⟩, ?_⟩
  · rwa [WithinTotals, hin, hout]
  · rw [← hnav, hin, hout, hb, hc]
    simp only [satSub_val, satAdd_val]
    omega

end PoolBook.Trails

/-! ## Catching up -/

/-- There is a gap before each reading. -/
theorem length_gaps (t : ℤ) (ts : List ℤ) : (gaps t ts).length = ts.length := by
  induction ts generalizing t with
  | nil => rfl
  | cons r ts ih => rw [gaps, List.length_cons, List.length_cons, ih]

/-- Ticks keep the marks. -/
theorem ticks_marks {b b' : PoolBook} {ts : List ℤ} (h : ts.foldlM tick b = .ok b') :
    b'.markedIn = b.markedIn ∧ b'.markedOut = b.markedOut := by
  induction ts generalizing b with
  | nil =>
    rw [List.foldlM_nil, pure_eq_ok] at h
    subst h
    exact ⟨rfl, rfl⟩
  | cons t ts ih =>
    rw [List.foldlM_cons, bind_eq_ok] at h
    obtain ⟨c, hc, hrest⟩ := h
    obtain ⟨hin, hout⟩ := ih hrest
    exact ⟨hin.trans (tick_spec hc).markedIn, hout.trans (tick_spec hc).markedOut⟩

section CatchUp

variable {old : PoolBook} {now : ℤ}

/-- What a pool earns up to `now` fits its balance. -/
def PoolBook.YieldFits (old : PoolBook) (now : ℤ) : Prop :=
  ∀ i, (old.pools.get i).accrued.val +
    (old.pools.get i).earning (now - old.lastTs).toNat / yieldUnit < 2^64

/-- A book whose yield fits can be ticked. -/
theorem PoolBook.YieldFits.exists_tick (hfit : old.YieldFits now) (hfirst : old.lastTs ≤ now)
    (hspan : now - old.lastTs < 2^63) : ∃ b, tick old now = .ok b := by
  have hproduct (i : Fin poolCount) :
      (old.pools.get i).earning (now - old.lastTs).toNat < 2^128 := by
    have hquotient := hfit i
    have hlt : (old.pools.get i).earning (now - old.lastTs).toNat / yieldUnit < 2^64 := by omega
    calc (old.pools.get i).earning (now - old.lastTs).toNat
        < 2^64 * yieldUnit := (Nat.div_lt_iff_lt_mul yieldUnit_pos).mp hlt
      _ ≤ 2^128 := by decide
  obtain ⟨b, hb⟩ := (PoolBook.exists_accrue_iff hfirst).mpr ⟨hspan, hproduct⟩
  exact ⟨_, by rw [tick, hb]; rfl⟩

/-- One tick at `now` leaves a book that the ticks before it and one more at `now` trail, by at most
a unit for each of them. -/
theorem ticks_trail {lost : List ℤ} {b₁ b₂ : PoolBook}
    (hclock : List.IsChain (· ≤ ·) (old.lastTs :: (lost ++ [now]))) (hfit : old.YieldFits now)
    (hone : tick old now = .ok b₁) (hmany : (lost ++ [now]).foldlM tick old = .ok b₂) :
    b₂.Trails lost.length b₁ := by
  obtain ⟨run, hrun, hearned, hpools⟩ := ticks_run hmany
  have hlast : b₂.lastTs = now := by
    rw [List.foldlM_append, bind_eq_ok] at hmany
    obtain ⟨frozen, -, hend⟩ := hmany
    rw [List.foldlM_cons, bind_eq_ok] at hend
    obtain ⟨b, hb, hnil⟩ := hend
    rw [List.foldlM_nil, pure_eq_ok] at hnil
    rw [← hnil, (tick_advanced hb).lastTs]
  -- Both add up the yield of the whole time, the one in parts.
  have hwhole (i : Fin poolCount) :
      ((gaps old.lastTs (lost ++ [now])).map (old.pools.get i).earning).sum =
        (old.pools.get i).earning (now - old.lastTs).toNat := by
    have hsum := sum_gaps hclock List.getLast?_concat
    unfold PoolEntry.earning
    rw [List.sum_map_mul_left, List.map_id']
    congr 1
    omega
  have hb₁ (i : Fin poolCount) : (b₁.pools.get i).accrued.val = (old.pools.get i).accrued.val +
      (old.pools.get i).earning (now - old.lastTs).toNat / yieldUnit := by
    rw [(tick_advanced hone).accrued i, PoolEntry.accruedAfter_val (hfit i)]
  have hle (i : Fin poolCount) := sum_div_le yieldUnit_pos
    ((gaps old.lastTs (lost ++ [now])).map (old.pools.get i).earning)
  have hb₂ (i : Fin poolCount) : (b₂.pools.get i).accrued.val = (old.pools.get i).accrued.val +
      (((gaps old.lastTs (lost ++ [now])).map (old.pools.get i).earning).map
        (· / yieldUnit)).sum := by
    have hroom := hfit i
    have hfloor := hle i
    rw [hwhole i] at hfloor
    have hfits := hrun.fits_of_sum (i := i) (by rw [hearned i]; omega)
    rw [hrun.accrued_eq hfits, hearned i]
  refine ⟨?_, fun i => ?_, fun i => ?_⟩
  · refine PoolBook.outline_eq (PoolBook.pools_outline_eq fun i => ?_) ?_ ?_ ?_
    · rw [tick_get hone i, hpools i]
      rfl
    · rw [(tick_spec hone).markedIn, (ticks_marks hmany).1]
    · rw [(tick_spec hone).markedOut, (ticks_marks hmany).2]
    · rw [(tick_advanced hone).lastTs, hlast]
  · rw [hb₁ i, hb₂ i, ← hwhole i]
    exact Nat.add_le_add_left (hle i) _
  · -- Every part but one may have dropped up to a unit.
    have hne : (gaps old.lastTs (lost ++ [now])).map (old.pools.get i).earning ≠ [] := by
      simp [← List.length_eq_zero_iff, length_gaps]
    have hlt := sum_lt yieldUnit_pos hne
    rw [hwhole i, List.length_map, length_gaps, List.length_append,
      List.length_singleton] at hlt
    have hquotient := Nat.div_lt_of_lt_mul (Nat.mul_comm _ yieldUnit ▸ hlt)
    rw [hb₁ i, hb₂ i]
    omega

/-- A migration loses nothing. The copy of a legacy book prices as Solana's last copy of it did, and
its first tick succeeds. From that tick on, along every sequence of operations that the lost book
could have gone on with, the copy makes the same moves. It has the same principals, rates, and marks
as the lost book would have had, in every pool at least as much yield, and at most a unit more for
each tick that was lost; and it prices no lower. -/
theorem migration_catches_up {legacy : AccountInfo PoolBook} {frozen : PoolBook} {lost : List ℤ}
    (hread : readBook legacy = .ok old) (hlost : lost.foldlM tick old = .ok frozen)
    (hclock : List.IsChain (· ≤ ·) (old.lastTs :: (lost ++ [now])))
    (hspan : now - old.lastTs < 2^63) (hfit : old.YieldFits now) (vault authority : Pubkey) :
    ∃ copy, migrateBook vault authority legacy = .ok copy ∧
      (∀ v s, navForPricing v copy s = navForPricing v old s) ∧
      (∃ copy₁, tick copy now = .ok copy₁) ∧
      ∀ later frozen', (.tick now :: later).foldlM PoolBook.apply frozen = .ok frozen' →
        ∃ copy', (.tick now :: later).foldlM PoolBook.apply copy = .ok copy' ∧
          frozen'.Trails lost.length copy' ∧
          ∀ v s nav supply, navForPricing v frozen' s = .ok (nav, supply) →
            ∃ nav', navForPricing v copy' s = .ok (nav', supply) ∧ nav.val ≤ nav'.val ∧
              nav'.val ≤ nav.val + poolCount * lost.length := by
  have hfirst : old.lastTs ≤ now := by
    have hsum := sum_gaps hclock List.getLast?_concat
    omega
  have hmigrate : migrateBook vault authority legacy = .ok { old with vault, authority } := by
    rw [migrateBook, hread]
    rfl
  -- The copy ticks as the legacy book would have.
  obtain ⟨b₁, hb₁⟩ := hfit.exists_tick hfirst hspan
  have hkeys := PoolBook.Trails.of_keys old vault authority
  have htick : old.apply (.tick now) = .ok b₁ := hb₁
  obtain ⟨c₁, hc₁, hsame⟩ := hkeys.apply htick
  refine ⟨_, hmigrate, fun v s => rfl, ⟨c₁, hc₁⟩, fun later frozen' hrun => ?_⟩
  have hall := hrun
  rw [List.foldlM_cons, bind_eq_ok] at hrun
  obtain ⟨b₂, hb₂, hrest⟩ := hrun
  have hmany : (lost ++ [now]).foldlM tick old = .ok b₂ := by
    rw [List.foldlM_append, bind_eq_ok]
    refine ⟨frozen, hlost, ?_⟩
    rw [List.foldlM_cons, bind_eq_ok]
    exact ⟨b₂, hb₂, rfl⟩
  have htrail : b₂.Trails lost.length c₁ := (ticks_trail hclock hfit hb₁ hmany).trans hsame
  obtain ⟨copy', hcopy, hend⟩ := htrail.applyAll hrest
  have hcopies : (.tick now :: later).foldlM PoolBook.apply { old with vault, authority } =
      .ok copy' := by
    rw [List.foldlM_cons, bind_eq_ok]
    exact ⟨c₁, hc₁, hcopy⟩
  exact ⟨copy', hcopies, hend, fun v s nav supply hprice =>
    hend.pricing (PoolBook.applyAll_nav hall) (PoolBook.applyAll_nav hcopies) hprice⟩

end CatchUp

/-- Two ticks ten seconds apart are lost, and the copy's first tick comes ten seconds later. The
lost ticks had rounded all the yield away. -/
theorem migration_catches_up_funded :
    ∃ frozen frozen' copy copy', [10, 20].foldlM tick fundedBook = .ok frozen ∧
      tick frozen 30 = .ok frozen' ∧
      migrateBook devnetVault (key 7) ⟨delegationProgramId, some fundedBook⟩ = .ok copy ∧
      tick copy 30 = .ok copy' ∧ frozen'.Trails 2 copy' ∧
      ∀ i, (frozen'.pools.get i).accrued = 0 := by
  have hlost : ([10, 20].foldlM tick fundedBook).map (fun _ => ()) = .ok () := by decide +kernel
  obtain ⟨frozen, hfrozen, -⟩ := exists_of_map_eq_ok hlost
  have hnext : ([10, 20, 30].foldlM tick fundedBook).map
      (fun b => decide (∀ i, (b.pools.get i).accrued = 0)) = .ok true := by decide +kernel
  obtain ⟨frozen', hfrozen', hnone⟩ := exists_of_map_eq_ok hnext
  have htick : tick frozen 30 = .ok frozen' := by
    have happend : ([10, 20] ++ [30] : List ℤ).foldlM tick fundedBook = .ok frozen' := hfrozen'
    rw [List.foldlM_append, hfrozen] at happend
    simp only [List.foldlM_cons, List.foldlM_nil, bind_pure] at happend
    exact happend
  have hread : readBook ⟨delegationProgramId, some fundedBook⟩ = .ok fundedBook :=
    readAccount_eq_ok.mpr ⟨.inr rfl, rfl⟩
  have hfit : fundedBook.YieldFits 30 := by
    unfold PoolBook.YieldFits
    decide +kernel
  obtain ⟨copy, hcopy, -, -, hlater⟩ := migration_catches_up hread hfrozen (by decide) (by decide)
    hfit devnetVault (key 7)
  obtain ⟨copy', hcopy', htrails, -⟩ := hlater [] frozen' (by
    simp only [List.foldlM_cons, List.foldlM_nil, bind_pure]
    exact htick)
  simp only [List.foldlM_cons, List.foldlM_nil, bind_pure] at hcopy'
  exact ⟨frozen, frozen', copy, copy', hfrozen, htick, hcopy, hcopy', htrails,
    of_decide_eq_true hnone⟩

end Agama
