import Agama.Deployment
import Agama.Lib.SharePrice
import Agama.Refinement

/-!
# The share price on one copy

What each flow does to the price that it is priced on, and the price along a run on one copy of the
accounts. A flow's shares and money are in the floored proportion of the price, accrual and
absorption never lower the book's capital, and so no step lowers the price.
-/

namespace Agama

open SharePrice

/-! ## Flows at a price -/

section Flows

variable {v : Vault} {b : PoolBook} {s : Shielded}

/-- What a deposit mints at the exact NAV: at par into an empty pool, else the floored
proportion. -/
theorem Mints.exact (fits : PricingFits v b s) {amount shares : U64}
    (h : Mints v b s amount shares) :
    ∃ nav : ℕ, (nav : ℤ) = max 0 (rawNav v b s) ∧
      (shareSupply v s = 0 ∨ nav = 0 → shares = amount) ∧
      (shareSupply v s ≠ 0 → nav ≠ 0 → shares.val = amount.val * shareSupply v s / nav) := by
  obtain ⟨-, -, nav, supply, hprice, hshares⟩ := h
  obtain ⟨hnav, hsupply⟩ := navForPricing_exact fits hprice
  refine ⟨nav.val, hnav, ?_, ?_⟩
  · intro hempty
    rw [← hsupply] at hempty
    exact (sharesFor_of_empty hempty).mp hshares
  · intro hs hn
    rw [← hsupply] at hs ⊢
    exact (sharesFor_eq_ok hs hn).mp hshares

/-- What a redemption pays at the exact NAV: the floored proportion. -/
theorem Pays.exact (fits : PricingFits v b s) {shares assets : U64}
    (h : Pays v b s shares assets) :
    ∃ nav : ℕ, (nav : ℤ) = max 0 (rawNav v b s) ∧ shareSupply v s ≠ 0 ∧
      assets.val = shares.val * nav / shareSupply v s := by
  obtain ⟨-, nav, supply, hprice, hassets⟩ := h
  obtain ⟨hnav, hsupply⟩ := navForPricing_exact fits hprice
  rw [assetsFor_eq_ok, hsupply] at hassets
  exact ⟨nav.val, hnav, hassets⟩

/-- A redemption within the supply is paid at most the NAV. -/
theorem Pays.assets_le {v : Vault} {b : PoolBook} {s : Shielded} {shares assets nav supply : U64}
    (h : Pays v b s shares assets) (hprice : navForPricing v b s = .ok (nav, supply))
    (hle : shares.val ≤ supply.val) : assets.val ≤ nav.val := by
  obtain ⟨-, nav₁, supply₁, hprice₁, hassets⟩ := h
  rw [hprice, Except.ok.injEq, Prod.mk.injEq] at hprice₁
  obtain ⟨rfl, rfl⟩ := hprice₁
  obtain ⟨hsupply, hval⟩ := assetsFor_eq_ok.mp hassets
  rw [hval]
  calc shares.val * nav.val / supply.val
      ≤ supply.val * nav.val / supply.val := Nat.div_le_div_right (Nat.mul_le_mul_right _ hle)
    _ = nav.val := Nat.mul_div_cancel_left _ (Nat.pos_of_ne_zero hsupply)

/-- A floored NAV of zero is at most every price. -/
theorem priceLe_of_nav_zero {S N' S' : ℤ} (hS : 0 ≤ S) (hN' : 0 ≤ N') : PriceLe 0 S N' S' := by
  unfold PriceLe
  rw [zero_mul]
  exact mul_nonneg hN' hS

/-- A deposit does not lower the price of the shares that are there. -/
theorem Mints.priceLe (fits : PricingFits v b s) {amount shares : U64}
    (h : Mints v b s amount shares) (hsupply : 0 < shareSupply v s) :
    PriceLe (max 0 (rawNav v b s)) (shareSupply v s)
      (max 0 (rawNav v b s + amount.val)) (shareSupply v s + shares.val) := by
  obtain ⟨nav, hnav, -, hmint⟩ := h.exact fits
  rcases Nat.eq_zero_or_pos nav with hzero | hpos
  · -- The floored NAV is zero, whatever is below it, and enters at par.
    rw [← hnav, hzero]
    exact priceLe_of_nav_zero (Int.natCast_nonneg _) (le_max_left _ _)
  · -- A positive NAV was not floored, so the deposit adds to it exactly.
    have hraw : rawNav v b s = nav := by omega
    have hafter : max 0 (rawNav v b s + amount.val) = (nav : ℤ) + amount.val := by omega
    rw [hafter, ← hnav, hmint hsupply.ne' hpos.ne']
    exact PriceLe.mint _ _ _

/-- A redemption does not lower the price of the shares that stay. -/
theorem Pays.priceLe (fits : PricingFits v b s) {shares assets : U64}
    (h : Pays v b s shares assets) :
    PriceLe (max 0 (rawNav v b s)) (shareSupply v s)
      (max 0 (rawNav v b s - assets.val)) (shareSupply v s - shares.val) := by
  obtain ⟨nav, hnav, -, hassets⟩ := h.exact fits
  rcases Nat.eq_zero_or_pos nav with hzero | hpos
  · rw [← hnav, hzero]
    exact priceLe_of_nav_zero (Int.natCast_nonneg _) (le_max_left _ _)
  · have hraw : rawNav v b s = nav := by omega
    have hburn := PriceLe.burn shares.val nav (shareSupply v s)
    rw [← hassets] at hburn
    rw [← hnav]
    -- What is left may be floored again, which only raises it.
    refine le_trans hburn (mul_le_mul_of_nonneg_right ?_ (Int.natCast_nonneg _))
    rw [hraw]
    exact le_max_right _ _

end Flows

/-! ## What a flow adds to the sums -/

section Sums

variable {v : Vault} {b : PoolBook} {s : Shielded} {shares amount assets : U64}

/-- A public deposit raises the NAV by its amount. -/
theorem rawNav_vault_deposited (h : v.totalIn.val + amount.val < 2^64) :
    rawNav (v.deposited shares amount) b s = rawNav v b s + amount.val := by
  simp only [rawNav, Vault.net, Vault.deposited, satAdd_val_of_lt h]
  push_cast
  ring

/-- A public redemption lowers it by what it pays. -/
theorem rawNav_vault_redeemed (h : v.totalOut.val + assets.val < 2^64) :
    rawNav (v.redeemed shares assets) b s = rawNav v b s - assets.val := by
  simp only [rawNav, Vault.net, Vault.redeemed, satAdd_val_of_lt h]
  push_cast
  ring

/-- A private deposit raises it by its amount. -/
theorem rawNav_shielded_deposited (h : s.totalIn.val + amount.val < 2^64) :
    rawNav v b (s.deposited shares amount) = rawNav v b s + amount.val := by
  simp only [rawNav, Shielded.net, Shielded.deposited, satAdd_val_of_lt h]
  push_cast
  ring

/-- A private redemption lowers it by what it pays. -/
theorem rawNav_shielded_redeemed (h : s.totalOut.val + assets.val < 2^64) :
    rawNav v b (s.redeemed shares assets) = rawNav v b s - assets.val := by
  simp only [rawNav, Shielded.net, Shielded.redeemed, satAdd_val_of_lt h]
  push_cast
  ring

/-- A public deposit raises the supply by what it mints. -/
theorem shareSupply_vault_deposited (h : v.shares.val + shares.val < 2^64) :
    (shareSupply (v.deposited shares amount) s : ℤ) = shareSupply v s + shares.val := by
  simp only [shareSupply, Vault.deposited, satAdd_val_of_lt h]
  omega

/-- A public redemption lowers it by what it burns. -/
theorem shareSupply_vault_redeemed (h : shares.val ≤ v.shares.val) :
    (shareSupply (v.redeemed shares assets) s : ℤ) = shareSupply v s - shares.val := by
  simp only [shareSupply, Vault.redeemed, satSub_val]
  omega

/-- A private deposit raises it by what it mints. -/
theorem shareSupply_shielded_deposited (h : s.shares.val + shares.val < 2^64) :
    (shareSupply v (s.deposited shares amount) : ℤ) = shareSupply v s + shares.val := by
  simp only [shareSupply, Shielded.deposited, satAdd_val_of_lt h]
  omega

/-- A private redemption lowers it by what it burns. -/
theorem shareSupply_shielded_redeemed (h : shares.val ≤ s.shares.val) :
    (shareSupply v (s.redeemed shares assets) : ℤ) = shareSupply v s - shares.val := by
  simp only [shareSupply, Shielded.redeemed, satSub_val]
  omega

end Sums

/-! ## The book's capital -/

/-- Re-marking does not lower the capital that the book contributes. -/
theorem bookCapital_le_of_remarked {b b' : PoolBook} (hnav : b.nav = b.markedValue)
    (h : Remarked b b') : bookCapital b ≤ bookCapital b' := by
  have hval := h.value
  have hb := markedValue_val b
  have hb' := markedValue_val b'
  -- Both NAVs are capped values, and capping keeps the order of the values.
  rw [← hnav] at hb
  rw [← h.nav] at hb'
  simp only [bookCapital, h.markedIn, h.markedOut]
  omega

/-- Absorbing flow that fits does not lower it either: the inflow is placed whole, and no more than
the outflow is pulled. -/
theorem bookCapital_le_of_absorb {b : PoolBook} {now : ℤ} {inflow outflow : U64}
    {r : PoolBook × Absorbed} (h : absorb b now inflow outflow = .ok r)
    (hnav : b.nav = b.markedValue) (hfit : b.principal + inflow.val < 2^64)
    (hin : b.markedIn.val + inflow.val < 2^64) (hout : b.markedOut.val + outflow.val < 2^64)
    (hvalue : r.1.value < 2^64) : bookCapital b ≤ bookCapital r.1 := by
  obtain ⟨-, hmin, hmout, hrnav⟩ := absorb_marks h
  obtain ⟨v, hv, -, -, hsum⟩ := absorb_sums h hfit
  have hb := markedValue_val b
  have hb' := markedValue_val r.1
  rw [← hnav] at hb
  rw [← hrnav] at hb'
  -- `defund` drops what the principals do not cover, so the NAV falls by at most the outflow.
  rw [bookCapital, bookCapital, hmin, hmout, satAdd_val_of_lt hin, satAdd_val_of_lt hout]
  push_cast
  omega

/-! ## One copy -/

namespace Ledger

/-- The public price of the ledger, on the copies on Solana. -/
def pricing (L : Ledger) : Result (U64 × U64) := navForPricing L.vault L.book.base L.shielded.base

/-- None of the counters that a move raises saturates. -/
def Fits (L : Ledger) : Move → Prop
  | .deposit amount => L.vault.totalIn.val + amount.val < 2^64 ∧
      ∀ shares, Mints L.vault L.book.base L.shielded.base amount shares →
        L.vault.shares.val + shares.val < 2^64
  | .redeem shares => ∀ assets, Pays L.vault L.book.base L.shielded.base shares assets →
      L.vault.totalOut.val + assets.val < 2^64
  | .depositPrivate amount => L.shielded.current.totalIn.val + amount.val < 2^64 ∧
      ∀ shares, Mints L.vault L.book.base L.shielded.current amount shares →
        L.shielded.current.shares.val + shares.val < 2^64
  | .redeemPrivate shares => ∀ assets,
      Pays L.vault L.book.base L.shielded.current shares assets →
        L.shielded.current.totalOut.val + assets.val < 2^64
  | .absorb _ inflow outflow => L.book.current.markedIn.val + inflow.val < 2^64 ∧
      L.book.current.markedOut.val + outflow.val < 2^64
  | _ => True

/-- Whether a move saturates a counter can be computed: a price mints or pays one amount. -/
instance (L : Ledger) : (m : Move) → Decidable (L.Fits m)
  | .deposit amount => decidable_of_iff
      (L.vault.totalIn.val + amount.val < 2^64 ∧
        Ensures (minted L.vault L.book.base L.shielded.base amount) fun shares =>
          L.vault.shares.val + shares.val < 2^64)
      (by simp only [Ensures, minted_eq_ok, Fits])
  | .redeem shares => decidable_of_iff
      (Ensures (paid L.vault L.book.base L.shielded.base shares) fun assets =>
        L.vault.totalOut.val + assets.val < 2^64)
      (by simp only [Ensures, paid_eq_ok, Fits])
  | .depositPrivate amount => decidable_of_iff
      (L.shielded.current.totalIn.val + amount.val < 2^64 ∧
        Ensures (minted L.vault L.book.base L.shielded.current amount) fun shares =>
          L.shielded.current.shares.val + shares.val < 2^64)
      (by simp only [Ensures, minted_eq_ok, Fits])
  | .redeemPrivate shares => decidable_of_iff
      (Ensures (paid L.vault L.book.base L.shielded.current shares) fun assets =>
        L.shielded.current.totalOut.val + assets.val < 2^64)
      (by simp only [Ensures, paid_eq_ok, Fits])
  | .absorb _ _ _ => inferInstanceAs (Decidable (_ ∧ _))
  | .tick _ | .setApr _ _ _ | .delegateBook | .commitBook | .undelegateBook | .delegateShielded
  | .commitShielded | .undelegateShielded | .other => .isTrue trivial

/-- An absorb keeps the marks within the combined totals. -/
def AbsorbsWithin (L : Ledger) : Move → Prop
  | .absorb _ inflow outflow =>
      L.book.base.markedIn.val + inflow.val ≤ L.vault.totalIn.val + L.shielded.base.totalIn.val ∧
      L.book.base.markedOut.val + outflow.val ≤ L.vault.totalOut.val + L.shielded.base.totalOut.val
  | _ => True

/-- Every account is on one copy, the book is marked, it is behind both custodies, and the aggregate
agrees with the positions. -/
structure OneCopy (L : Ledger) : Prop where
  book : L.book.live = none
  shielded : L.shielded.live = none
  marked : L.book.base.nav = L.book.base.markedValue
  within : WithinTotals L.vault L.book.base L.shielded.base
  shares : L.shielded.base.shares.val = L.privateShares

/-- None of the sums behind the price saturates, and there are shares. -/
structure Priced (L : Ledger) : Prop where
  fits : PricingFits L.vault L.book.base L.shielded.base
  value : L.book.base.value < 2^64
  supply : 0 < shareSupply L.vault L.shielded.base

/-- The exact price of the first ledger is at most that of the second. -/
def RawPriceLe (L L' : Ledger) : Prop :=
  PriceLe (max 0 (rawNav L.vault L.book.base L.shielded.base)) (shareSupply L.vault L.shielded.base)
    (max 0 (rawNav L'.vault L'.book.base L'.shielded.base)) (shareSupply L'.vault L'.shielded.base)

variable {L L' : Ledger} {m : Move}

/-- With one copy, a write to the book is one to Solana's. -/
theorem base_writeBook (hL : L.OneCopy) (b : PoolBook) : (L.writeBook b).book = ⟨b, none⟩ :=
  Delegable.write_of_home b hL.book

/-- So is a write to the aggregate. -/
theorem base_writeShielded (hL : L.OneCopy) (s : Shielded) (t : ℕ) :
    (L.writeShielded s t).shielded = ⟨s, none⟩ :=
  Delegable.write_of_home s hL.shielded

/-- With one copy, Solana's book is the current one. -/
theorem current_book (hL : L.OneCopy) : L.book.current = L.book.base :=
  Delegable.current_of_live_eq_none hL.book

/-- So is Solana's aggregate. -/
theorem current_shielded (hL : L.OneCopy) : L.shielded.current = L.shielded.base :=
  Delegable.current_of_live_eq_none hL.shielded

/-- Totals that move forward stay ahead of the marks. -/
theorem within_mono {v v' : Vault} {b : PoolBook} {s s' : Shielded} (h : WithinTotals v b s)
    (hin : v.totalIn.val ≤ v'.totalIn.val) (hout : v.totalOut.val ≤ v'.totalOut.val)
    (hs : TotalsLe s s') : WithinTotals v' b s' :=
  ⟨h.1.trans (satAdd_mono hin hs.1), h.2.trans (satAdd_mono hout hs.2)⟩

/-- A book with capital no lower keeps the price. -/
theorem rawPriceLe_of_book {v : Vault} {s : Shielded} {b b' : PoolBook}
    (h : bookCapital b ≤ bookCapital b') :
    PriceLe (max 0 (rawNav v b s)) (shareSupply v s) (max 0 (rawNav v b' s)) (shareSupply v s) :=
  PriceLe.revalue (Int.natCast_nonneg _) (max_le_max le_rfl (by unfold rawNav; linarith))

/-- Writing a marked book whose marks stay behind keeps the ledger on one copy. -/
theorem OneCopy.writeBook (hL : L.OneCopy) {b : PoolBook} (hnav : b.nav = b.markedValue)
    (hb : WithinTotals L.vault b L.shielded.base) (hcap : bookCapital L.book.base ≤ bookCapital b) :
    (L.writeBook b).OneCopy ∧ RawPriceLe L (L.writeBook b) := by
  have hbook := base_writeBook hL b
  refine ⟨⟨by rw [hbook], hL.shielded, by rw [hbook]; exact hnav, by rw [hbook]; exact hb,
    hL.shares⟩, ?_⟩
  rw [RawPriceLe, hbook]
  exact rawPriceLe_of_book hcap

/-- Re-marking keeps the ledger on one copy and does not lower the price. -/
theorem OneCopy.remark (hL : L.OneCopy) {b : PoolBook} (h : Remarked L.book.current b) :
    (L.writeBook b).OneCopy ∧ RawPriceLe L (L.writeBook b) := by
  rw [current_book hL] at h
  refine hL.writeBook h.nav ?_ (bookCapital_le_of_remarked hL.marked h)
  have hwithin := hL.within
  rwa [WithinTotals, ← h.markedIn, ← h.markedOut] at hwithin

/-- Absorbing within the totals keeps the ledger on one copy and does not lower the price. -/
theorem OneCopy.absorb (hL : L.OneCopy) (hp : L.Priced) {now : ℤ} {inflow outflow : U64}
    {r : PoolBook × Absorbed} (run : Agama.absorb L.book.current now inflow outflow = .ok r)
    (hwithin : L.AbsorbsWithin (.absorb now inflow outflow)) (hvalue : r.1.value < 2^64) :
    (L.writeBook r.1).OneCopy ∧ RawPriceLe L (L.writeBook r.1) := by
  rw [current_book hL] at run
  obtain ⟨hin, hout⟩ := hwithin
  obtain ⟨-, hmin, hmout, hnav⟩ := absorb_marks run
  have htin := hp.fits.totalIn
  have htout := hp.fits.totalOut
  -- The inflow is part of the unmarked money that pricing adds to the book's NAV.
  have hfit : L.book.base.principal + inflow.val < 2^64 := by
    have hprincipal : L.book.base.principal ≤ L.book.base.value := principalSum_le_valueSum _
    have hmarked := markedValue_val L.book.base
    rw [← hL.marked] at hmarked
    have hvalue' := hp.value
    have hsum := hp.fits.nav
    omega
  refine hL.writeBook hnav ?_
    (bookCapital_le_of_absorb run hL.marked hfit (by omega) (by omega) hvalue)
  rw [WithinTotals, hmin, hmout]
  simp only [satAdd_val]
  omega

/-- A public deposit keeps the ledger on one copy and does not lower the price. -/
theorem OneCopy.deposit (hL : L.OneCopy) (hp : L.Priced) {amount shares : U64}
    (hfit : L.Fits (.deposit amount))
    (mints : Mints L.vault L.book.base L.shielded.base amount shares) :
    OneCopy { L with vault := L.vault.deposited shares amount } ∧
      RawPriceLe L { L with vault := L.vault.deposited shares amount } := by
  obtain ⟨hin, hshares⟩ := hfit
  refine ⟨⟨hL.book, hL.shielded, hL.marked,
    within_mono hL.within (le_satAdd_left _ _) le_rfl (.refl _), hL.shares⟩, ?_⟩
  rw [RawPriceLe, rawNav_vault_deposited hin, shareSupply_vault_deposited (hshares _ mints)]
  exact mints.priceLe hp.fits hp.supply

/-- So does a public redemption. -/
theorem OneCopy.redeem (hL : L.OneCopy) (hp : L.Priced) {shares assets : U64}
    (hfit : L.Fits (.redeem shares)) (pays : Pays L.vault L.book.base L.shielded.base shares assets)
    (covered : shares.val ≤ L.vault.shares.val) :
    OneCopy { L with vault := L.vault.redeemed shares assets } ∧
      RawPriceLe L { L with vault := L.vault.redeemed shares assets } := by
  refine ⟨⟨hL.book, hL.shielded, hL.marked,
    within_mono hL.within le_rfl (le_satAdd_left _ _) (.refl _), hL.shares⟩, ?_⟩
  rw [RawPriceLe, rawNav_vault_redeemed (hfit _ pays), shareSupply_vault_redeemed covered]
  exact pays.priceLe hp.fits

/-- A private deposit keeps the ledger on one copy and does not lower the price. -/
theorem OneCopy.depositPrivate (hL : L.OneCopy) (hp : L.Priced) {amount shares p : U64} {t : ℕ}
    (hfit : L.Fits (.depositPrivate amount))
    (mints : Mints L.vault L.book.base L.shielded.current amount shares)
    (held : p.val ≤ L.privateShares)
    (total : t + p.val = L.privateShares + (satAdd p shares).val) :
    (L.writeShielded (L.shielded.current.deposited shares amount) t).OneCopy ∧
      RawPriceLe L (L.writeShielded (L.shielded.current.deposited shares amount) t) := by
  obtain ⟨hin, hshares⟩ := hfit
  have hnew := hshares shares mints
  have hbase := base_writeShielded hL (L.shielded.current.deposited shares amount) t
  rw [current_shielded hL] at mints hin hnew hbase ⊢
  have hsum := hL.shares
  -- One position's shares are part of the aggregate's, so its sum does not saturate either.
  rw [satAdd_val_of_lt (by omega)] at total
  refine ⟨⟨hL.book, by rw [hbase], hL.marked, ?_, ?_⟩, ?_⟩
  · rw [hbase]
    exact within_mono hL.within le_rfl le_rfl (totalsLe_deposited _ _ _)
  · rw [hbase]
    simp only [Shielded.deposited, satAdd_val_of_lt hnew, writeShielded]
    omega
  · rw [RawPriceLe, hbase]
    simp only [writeShielded]
    rw [rawNav_shielded_deposited hin, shareSupply_shielded_deposited hnew]
    exact mints.priceLe hp.fits hp.supply

/-- So does a private redemption. -/
theorem OneCopy.redeemPrivate (hL : L.OneCopy) (hp : L.Priced) {shares assets : U64} {t : ℕ}
    (hfit : L.Fits (.redeemPrivate shares))
    (pays : Pays L.vault L.book.base L.shielded.current shares assets)
    (total : t + shares.val = L.privateShares) :
    (L.writeShielded (L.shielded.current.redeemed shares assets) t).OneCopy ∧
      RawPriceLe L (L.writeShielded (L.shielded.current.redeemed shares assets) t) := by
  have hout := hfit assets pays
  have hbase := base_writeShielded hL (L.shielded.current.redeemed shares assets) t
  rw [current_shielded hL] at hbase pays hout ⊢
  have hsum := hL.shares
  -- The position covers the shares, and the aggregate counts every position.
  have hcover : shares.val ≤ L.shielded.base.shares.val := by omega
  refine ⟨⟨hL.book, by rw [hbase], hL.marked, ?_, ?_⟩, ?_⟩
  · rw [hbase]
    exact within_mono hL.within le_rfl le_rfl (totalsLe_redeemed _ _ _)
  · rw [hbase]
    simp only [Shielded.redeemed, satSub_val, writeShielded]
    omega
  · rw [RawPriceLe, hbase]
    simp only [writeShielded]
    rw [rawNav_shielded_redeemed hout, shareSupply_shielded_redeemed hcover]
    exact pays.priceLe hp.fits

/-- On one copy no step lowers the price, as long as it fits. -/
theorem Step.price (hL : L.OneCopy) (hp : L.Priced) (hp' : L'.Priced) (hfit : L.Fits m)
    (hwithin : L.AbsorbsWithin m) (hlive : L'.book.live = none ∧ L'.shielded.live = none)
    (h : Step L m L') : L'.OneCopy ∧ RawPriceLe L L' := by
  cases h with
  | deposit mints => exact hL.deposit hp hfit mints
  | redeem pays covered => exact hL.redeem hp hfit pays covered
  | depositPrivate mints held total => exact hL.depositPrivate hp hfit mints held total
  | redeemPrivate pays held total => exact hL.redeemPrivate hp hfit pays total
  | tick run => exact hL.remark (tick_spec run)
  | absorb run =>
    have hvalue := hp'.value
    rw [base_writeBook hL] at hvalue
    exact hL.absorb hp run hwithin hvalue
  | setApr run => exact hL.remark (setApr_spec run)
  -- Starting a second copy leaves the setting, and there is none to publish.
  | delegateBook run => exact absurd hlive.1 (Delegable.delegate_live_ne_none run)
  | delegateShielded run => exact absurd hlive.2 (Delegable.delegate_live_ne_none run)
  | commitBook run => rw [Delegable.commit, hL.book] at run; cases run
  | undelegateBook run => rw [Delegable.undelegate, hL.book] at run; cases run
  | commitShielded run => rw [Delegable.commit, hL.shielded] at run; cases run
  | undelegateShielded run => rw [Delegable.undelegate, hL.shielded] at run; cases run
  | other => exact ⟨hL, PriceLe.refl _ _⟩

/-- The price that pricing returns follows the exact one. -/
theorem OneCopy.pricing (hL : L.OneCopy) (hp : L.Priced) :
    ∃ nav supply, L.pricing = .ok (nav, supply) ∧
      (nav.val : ℤ) = max 0 (rawNav L.vault L.book.base L.shielded.base) ∧
      supply.val = shareSupply L.vault L.shielded.base := by
  obtain ⟨⟨nav, supply⟩, hprice⟩ := navForPricing_accepts.mpr hL.within
  exact ⟨nav, supply, hprice, navForPricing_exact hp.fits hprice⟩

end Ledger

/-! ## Runs on one copy -/

/-- A step on one copy in which no counter saturates, shares stay outstanding, and an absorb keeps
the marks within the combined totals. -/
abbrev FlowStep (rt : Runtime) : World → World → Prop := StepWith rt fun w a w' =>
  w.ledger.Fits a.move ∧ w.ledger.AbsorbsWithin a.move ∧
    (w'.book.live = none ∧ w'.shielded.live = none) ∧ w.ledger.Priced ∧ w'.ledger.Priced

/-- One such step keeps the accounts on one copy, and does not lower the price. -/
theorem flowStep_price {rt : Runtime} {w w' : World} (hw : w.ledger.OneCopy)
    (h : FlowStep rt w w') : w'.ledger.OneCopy ∧ w.ledger.RawPriceLe w'.ledger := by
  obtain ⟨a, hstep, hfit, hwithin, hlive, hp, hp'⟩ := h
  exact (World.step_ledger hstep).price hw hp hp' hfit hwithin hlive

/-- The price that pricing returns does not fall in one such step. -/
theorem flowStep_pricing {rt : Runtime} {w w' : World} (hw : w.ledger.OneCopy)
    (h : FlowStep rt w w') :
    ∃ nav supply nav' supply', w.ledger.pricing = .ok (nav, supply) ∧
      w'.ledger.pricing = .ok (nav', supply') ∧ 0 < supply.val ∧ 0 < supply'.val ∧
      nav.val * supply'.val ≤ nav'.val * supply.val := by
  obtain ⟨hw', hle⟩ := flowStep_price hw h
  obtain ⟨-, -, -, -, -, hp, hp'⟩ := h
  obtain ⟨nav, supply, hprice, hnav, hsupply⟩ := hw.pricing hp
  obtain ⟨nav', supply', hprice', hnav', hsupply'⟩ := hw'.pricing hp'
  refine ⟨nav, supply, nav', supply', hprice, hprice', hsupply ▸ hp.supply,
    hsupply' ▸ hp'.supply, ?_⟩
  rw [Ledger.RawPriceLe, ← hnav, ← hnav', ← hsupply, ← hsupply', PriceLe] at hle
  exact_mod_cast hle

/-- A run of such steps stays on one copy. -/
theorem flowRun_oneCopy {rt : Runtime} {w₀ w : World} (h₀ : w₀.ledger.OneCopy)
    (hrun : Relation.ReflTransGen (FlowStep rt) w₀ w) : w.ledger.OneCopy :=
  Runs.preserves (I := fun w => w.ledger.OneCopy) (fun hw h => (flowStep_price hw h).1) hrun h₀

/-- A positive NAV stays positive along a run. -/
theorem flowRun_nav_pos {rt : Runtime} {w₀ w : World} (h₀ : w₀.ledger.OneCopy)
    (hrun : Relation.ReflTransGen (FlowStep rt) w₀ w)
    (hpos : ∃ nav supply, w₀.ledger.pricing = .ok (nav, supply) ∧ 0 < nav.val) :
    ∃ nav supply, w.ledger.pricing = .ok (nav, supply) ∧ 0 < nav.val := by
  induction hrun with
  | refl => exact hpos
  | tail hinit hlast ih =>
    obtain ⟨nav, supply, hprice, hnav⟩ := ih
    obtain ⟨nav₁, supply₁, nav', supply', hprice₁, hprice', -, hsupply', hle⟩ :=
      flowStep_pricing (flowRun_oneCopy h₀ hinit) hlast
    rw [hprice, Except.ok.injEq, Prod.mk.injEq] at hprice₁
    obtain ⟨rfl, rfl⟩ := hprice₁
    refine ⟨nav', supply', hprice', ?_⟩
    -- A NAV of zero would put the price below a positive one.
    by_contra hzero
    rw [Nat.eq_zero_of_not_pos hzero, Nat.zero_mul] at hle
    exact absurd (Nat.mul_pos hnav hsupply') (not_lt.mpr hle)

/-- The accounts start on one copy. -/
theorem initial_oneCopy (rt : Runtime) (authority custodyOwner : Pubkey) (now : ℤ)
    (pools : List.Vector PoolInit poolCount) :
    (World.initial rt authority custodyOwner now pools).ledger.OneCopy where
  book := rfl
  shielded := rfl
  marked := by
    apply Fin.ext
    rw [markedValue_val]
    simp only [World.initial, World.start, World.ledger, Delegable.base_atHome, initBook_value]
    rfl
  within := ⟨Nat.zero_le _, Nat.zero_le _⟩
  shares := rfl

/-- The share price never falls on one copy: not in any step of a run, whatever the order, the
amounts and the readings of the clock, and a positive NAV never becomes zero. -/
theorem share_price_never_falls {rt : Runtime} {w₀ w : World} (h₀ : w₀.ledger.OneCopy)
    (hrun : Relation.ReflTransGen (FlowStep rt) w₀ w) :
    (∀ w', FlowStep rt w w' → ∃ nav supply nav' supply',
      w.ledger.pricing = .ok (nav, supply) ∧ w'.ledger.pricing = .ok (nav', supply') ∧
        nav.val * supply'.val ≤ nav'.val * supply.val) ∧
    ((∃ nav supply, w₀.ledger.pricing = .ok (nav, supply) ∧ 0 < nav.val) →
      ∃ nav supply, w.ledger.pricing = .ok (nav, supply) ∧ 0 < nav.val) := by
  refine ⟨fun w' hlast => ?_, flowRun_nav_pos h₀ hrun⟩
  obtain ⟨nav, supply, nav', supply', hprice, hprice', -, -, hle⟩ :=
    flowStep_pricing (flowRun_oneCopy h₀ hrun) hlast
  exact ⟨nav, supply, nav', supply', hprice, hprice', hle⟩

/-- A deposit of one USDC that the book has absorbed. -/
def World.invested : World :=
  (World.deployed 800).after deployment
    [.program (.alone [user] 100) (.faucet user),
      .program (.alone [user] 100) (.deposit user 1000000),
      .program (.alone [authority] 100) (.absorb authority 1000000 0)]

/-- The same a year later, ticked. -/
def World.matured : World :=
  World.invested.after deployment [.program (.alone [user] 31536100) (.tick user)]

/-- A year's tick on one deposit: the price holds there, and the NAV stays positive. -/
theorem share_price_never_falls_devnet :
    ∃ nav supply, World.matured.ledger.pricing = .ok (nav, supply) ∧ 0 < nav.val := by
  have hinvested : World.invested.ledger.OneCopy :=
    ⟨by decide, by decide, by decide, ⟨by decide, by decide⟩, by decide⟩
  have hpriced : World.invested.ledger.Priced :=
    ⟨⟨⟨by decide, by decide, by decide⟩, by decide⟩, by decide, by decide⟩
  have hpriced' : World.matured.ledger.Priced :=
    ⟨⟨⟨by decide, by decide, by decide⟩, by decide⟩, by decide, by decide⟩
  have htick : World.invested.step deployment (.program (.alone [user] 31536100) (.tick user)) =
      .ok World.matured := rfl
  have hstep : FlowStep deployment World.invested World.matured :=
    ⟨_, htick, trivial, trivial, ⟨by decide, by decide⟩, hpriced, hpriced'⟩
  exact (share_price_never_falls hinvested (.single hstep)).2 ⟨1000000, 1000000, rfl, by decide⟩

end Agama
