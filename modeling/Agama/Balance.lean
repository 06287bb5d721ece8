import Agama.Accrual
import Agama.Ledger

/-!
# The balance of the book

A run of `tick`, `absorb` and `set_apr` from a fresh book keeps double entry: the capital in the
pools and what was marked out add up to what was marked in, and the NAV is the pools' exact value.
Accrual moves neither side of the first equation. An absorb moves both by its inflow and its
outflow, as `fund` places the whole inflow, and `defund` pulls the whole outflow where the
principals cover it.
-/

namespace Agama

/-- What an operation deploys. -/
def BookOp.inflow : BookOp → U64
  | .absorb _ inflow _ => inflow
  | .tick _ | .setApr _ _ _ => 0

/-- What an operation pulls out. -/
def BookOp.outflow : BookOp → U64
  | .absorb _ _ outflow => outflow
  | .tick _ | .setApr _ _ _ => 0

/-- The outflow is at most the total principal after the inflow has been funded. -/
def PoolBook.Covers (b : PoolBook) (op : BookOp) : Prop :=
  op.outflow.val ≤ (b.absorbIn op.inflow).principal

/-- The mark of the inflow and the marked value do not saturate. -/
structure PoolBook.Unsaturated (b : PoolBook) (op : BookOp) : Prop where
  markedIn : b.markedIn.val + op.inflow.val < 2^64
  value : Ensures (b.apply op) fun c => c.value < 2^64

instance (b : PoolBook) (op : BookOp) : Decidable (b.Covers op) :=
  inferInstanceAs (Decidable (_ ≤ _))

instance (b : PoolBook) (op : BookOp) : Decidable (b.Unsaturated op) :=
  decidable_of_iff (b.markedIn.val + op.inflow.val < 2^64 ∧
      Ensures (b.apply op) fun c => c.value < 2^64)
    ⟨fun h => ⟨h.1, h.2⟩, fun h => ⟨h.markedIn, h.value⟩⟩

/-- The capital in the pools is `marked_in` less `marked_out`, and the NAV is the pools' value. -/
structure PoolBook.Balanced (b : PoolBook) : Prop where
  principal : b.principal + b.markedOut.val = b.markedIn.val
  nav : b.nav.val = b.value

/-- No pool's accrued balance falls, and no mark. -/
structure NoLess (b c : PoolBook) : Prop where
  accrued : ∀ i, (b.pools.get i).accrued.val ≤ (c.pools.get i).accrued.val
  marks : Ledger.MarksLe b c

/-- A fresh book is balanced: it holds nothing, and marked nothing. -/
theorem initBook_balanced (vault authority : Pubkey) (now : ℤ)
    (pools : List.Vector PoolInit poolCount) : (initBook vault authority now pools).Balanced := by
  have hvalue := initBook_value vault authority now pools
  have hprincipal : (initBook vault authority now pools).principal ≤ _ :=
    principalSum_le_valueSum (initBook vault authority now pools).pools.toList
  constructor
  · change (initBook vault authority now pools).principal + 0 = 0
    rw [PoolBook.value] at hvalue
    omega
  · rw [hvalue]
    rfl

/-- Marked at a value that fits, the NAV is that value. -/
theorem nav_of_markedValue {b : PoolBook} (hnav : b.nav = b.markedValue) (hfit : b.value < 2^64) :
    b.nav.val = b.value := by
  rw [hnav, markedValue_val]
  omega

/-- Re-marking keeps the balance. -/
theorem Remarked.balanced {b c : PoolBook} (h : Remarked b c) (hb : b.Balanced)
    (hfit : c.value < 2^64) : c.Balanced := by
  refine ⟨?_, nav_of_markedValue h.nav hfit⟩
  rw [h.principal, h.markedIn, h.markedOut]
  exact hb.principal

/-- An absorb whose outflow is covered moves the capital and the marks alike. -/
theorem absorb_balanced {b : PoolBook} {now : ℤ} {inflow outflow : U64} {r : PoolBook × Absorbed}
    (h : absorb b now inflow outflow = .ok r) (hb : b.Balanced)
    (hcovers : outflow.val ≤ (b.absorbIn inflow).principal)
    (hmark : b.markedIn.val + inflow.val < 2^64) (hfit : r.1.value < 2^64) : r.1.Balanced := by
  have hmarked := hb.principal
  -- The capital is part of what was marked in, so the funded inflow fits on top of it.
  have hfund : b.principal + inflow.val < 2^64 := by omega
  rw [(absorbIn_sums b inflow hfund).1] at hcovers
  obtain ⟨-, hin, hout, hnav⟩ := absorb_marks h
  obtain ⟨v, -, -, hprincipal, -⟩ := absorb_sums h hfund
  refine ⟨?_, nav_of_markedValue hnav hfit⟩
  have hmarkedIn : r.1.markedIn.val = b.markedIn.val + inflow.val := by
    rw [hin, satAdd_val_of_lt hmark]
  have hmarkedOut : r.1.markedOut.val = b.markedOut.val + outflow.val := by
    rw [hout, satAdd_val_of_lt (by omega)]
  rw [hprincipal, hmarkedIn, hmarkedOut]
  omega

/-- Every operation that is covered and does not saturate keeps the balance. -/
theorem apply_balanced {b c : PoolBook} {op : BookOp} (h : b.apply op = .ok c) (hb : b.Balanced)
    (hcovers : b.Covers op) (hfits : b.Unsaturated op) : c.Balanced := by
  have hfit := hfits.value c h
  cases op with
  | tick now => exact (tick_spec h).balanced hb hfit
  | absorb now inflow outflow =>
    simp only [PoolBook.apply, bind_eq_ok, pure_eq_ok] at h
    obtain ⟨r, hr, rfl⟩ := h
    exact absorb_balanced hr hb hcovers hfits.markedIn hfit
  | setApr now index aprBps => exact (setApr_spec h).balanced hb hfit

/-- No operation lowers a pool's accrued balance or a mark, whatever its amounts. -/
theorem apply_noLess {b c : PoolBook} {op : BookOp} (h : b.apply op = .ok c) : NoLess b c := by
  constructor
  · intro i
    rw [(apply_advanced h).accrued i]
    exact le_satAdd_left _ _
  · cases op with
    | tick now => exact Ledger.marksLe_of_remarked (tick_spec h)
    | absorb now inflow outflow =>
      simp only [PoolBook.apply, bind_eq_ok, pure_eq_ok] at h
      obtain ⟨r, hr, rfl⟩ := h
      exact Ledger.marksLe_absorb hr
    | setApr now index aprBps => exact Ledger.marksLe_of_remarked (setApr_spec h)

/-- A run of such operations keeps the balance after every one of them. -/
theorem BookRun.balanced {b b' : PoolBook} {run : List (PoolBook × BookOp)} (h : BookRun b run b')
    (hb : b.Balanced) (hcovers : ∀ x ∈ run, x.1.Covers x.2)
    (hfits : ∀ x ∈ run, x.1.Unsaturated x.2) :
    b'.Balanced ∧ ∀ x ∈ run, Ensures (x.1.apply x.2) PoolBook.Balanced := by
  induction h with
  | nil => exact ⟨hb, fun x hx => absurd hx List.not_mem_nil⟩
  | cons first rest ih =>
    rw [List.forall_mem_cons] at hcovers hfits
    obtain ⟨hlast, hrest⟩ := ih (apply_balanced first hb hcovers.1 hfits.1) hcovers.2 hfits.2
    exact ⟨hlast, List.forall_mem_cons.mpr
      ⟨fun c hc => apply_balanced hc hb hcovers.1 hfits.1, hrest⟩⟩

/-- The book's ledger balances. Along every run from a fresh book whose outflows are covered and
whose sums do not saturate, after every operation the principals sum to `marked_in` less
`marked_out` and the NAV is the pools' value, and no accrued balance and no mark ever falls. -/
theorem book_balances {vault authority : Pubkey} {start : ℤ}
    {pools : List.Vector PoolInit poolCount} {run : List (PoolBook × BookOp)} {b : PoolBook}
    (h : BookRun (initBook vault authority start pools) run b)
    (hcovers : ∀ x ∈ run, x.1.Covers x.2) (hfits : ∀ x ∈ run, x.1.Unsaturated x.2) :
    b.Balanced ∧ ∀ x ∈ run, ∃ c, x.1.apply x.2 = .ok c ∧ c.Balanced ∧ NoLess x.1 c := by
  obtain ⟨hlast, hall⟩ := h.balanced (initBook_balanced _ _ _ _) hcovers hfits
  refine ⟨hlast, fun x hx => ?_⟩
  obtain ⟨c, hc⟩ := h.apply_ok x hx
  exact ⟨c, hc, hall x hx c hc, apply_noLess hc⟩

/-- Capital in, a tick, a new rate, and an absorb that pulls more than it brings. -/
theorem book_balances_devnet :
    ∃ run b, (initBook devnetVault authority 0
        (List.Vector.replicate poolCount (pool 1000))).replay
        [.absorb 100 100000001 0, .tick 200000, .setApr 200100 3 0,
          .absorb 300000 5 60000006] = .ok (run, b) ∧
      b.Balanced ∧ ∀ x ∈ run, ∃ c, x.1.apply x.2 = .ok c ∧ c.Balanced ∧ NoLess x.1 c := by
  have hmap : ((initBook devnetVault authority 0
      (List.Vector.replicate poolCount (pool 1000))).replay
      [.absorb 100 100000001 0, .tick 200000, .setApr 200100 3 0,
        .absorb 300000 5 60000006]).map (fun r => decide
        ((∀ x ∈ r.1, x.1.Covers x.2) ∧ ∀ x ∈ r.1, x.1.Unsaturated x.2)) = .ok true := by
    decide +kernel
  obtain ⟨⟨run, b⟩, hreplay, hchecks⟩ := exists_of_map_eq_ok hmap
  obtain ⟨hcovers, hfits⟩ := of_decide_eq_true hchecks
  exact ⟨run, b, hreplay, book_balances (BookRun.of_replay hreplay) hcovers hfits⟩

end Agama
