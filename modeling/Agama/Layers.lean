import Agama.Recovery

/-!
# The two layers

Solana prices on the last committed book and the last committed aggregate, the enclave on that book
and the live aggregate. The two prices differ by the private flow that is not committed yet: `n`
units of money (`pendingNav`) and `m` shares (`pendingShares`) on top of `N` and `S`. How far the
public price is below the private one is `slack`, the gap `n * S - m * N`.

Private flow never narrows the gap, and committing the aggregate closes it. Two things narrow it:
what a public deposit or redemption rounds off, and the yield that a book's commit publishes. Both
go to the shares that Solana counts, although pending money and pending shares own a part. `Safe`
is therefore about what is uncommitted: where something is left over, no private deposit may be
pending.
-/

namespace Agama

open SharePrice

namespace Ledger

/-- The NAV that Solana prices on, before it is floored. -/
def baseNav (L : Ledger) : ℤ := rawNav L.vault L.book.base L.shielded.base

/-- The supply that Solana prices on. -/
def baseSupply (L : Ledger) : ℕ := shareSupply L.vault L.shielded.base

/-- The private money that the committed aggregate does not show yet. -/
def pendingNav (L : Ledger) : ℤ := L.shielded.current.net - L.shielded.base.net

/-- The private shares that the committed aggregate does not show yet. -/
def pendingShares (L : Ledger) : ℤ := L.shielded.current.shares.val - L.shielded.base.shares.val

/-- How far the public price is below the private one, times both supplies. -/
def slack (L : Ledger) : ℤ := gap L.baseNav L.baseSupply L.pendingNav L.pendingShares

/-- No private deposit is uncommitted, on balance: no more money and no more shares came in than
went out. -/
def Withdrawn (L : Ledger) : Prop := L.pendingNav ≤ 0 ∧ L.pendingShares ≤ 0

instance (L : Ledger) : Decidable L.Withdrawn := inferInstanceAs (Decidable (_ ∧ _))

/-- What is uncommitted owns no part of what a move leaves to the shares that Solana counts. -/
def Safe (L : Ledger) : Move → Prop
  -- A deposit leaves what it rounds off. Where Solana counts no shares it enters at par and takes
  -- all that is committed, so the private shares must be committed and nothing withdrawn.
  | .deposit amount =>
    if L.baseSupply = 0 then L.pendingShares = 0 ∧ 0 ≤ L.pendingNav
    else L.Withdrawn ∨ amount.val * L.baseSupply % L.baseNav.toNat = 0
  | .redeem shares =>
    L.pendingShares ≤ 0 ∨ shares.val * L.baseNav.toNat % L.baseSupply = 0
  -- The enclave's first deposit enters at par, so the withdrawals before it must be committed.
  | .depositPrivate _ => L.baseSupply + L.pendingShares = 0 → L.pendingShares = 0
  -- A commit leaves the yield that it publishes.
  | .commitBook =>
    L.baseSupply = 0 ∨ L.pendingShares ≤ 0 ∨
      bookCapital L.book.current = bookCapital L.book.base
  | .undelegateBook | .undelegateShielded => False
  | _ => True

instance (L : Ledger) : (m : Move) → Decidable (L.Safe m)
  | .deposit amount => inferInstanceAs (Decidable
      (if L.baseSupply = 0 then L.pendingShares = 0 ∧ 0 ≤ L.pendingNav
        else L.Withdrawn ∨ amount.val * L.baseSupply % L.baseNav.toNat = 0))
  | .redeem _ => inferInstanceAs (Decidable (_ ∨ _))
  | .depositPrivate _ => inferInstanceAs (Decidable (_ → _))
  | .commitBook => inferInstanceAs (Decidable (_ ∨ _))
  | .undelegateBook | .undelegateShielded => .isFalse id
  | .redeemPrivate _ | .absorb _ _ _ | .tick _ | .setApr _ _ _ | .delegateBook
  | .delegateShielded | .commitShielded | .other => .isTrue trivial

/-- None of the sums behind either price saturates. -/
structure LayersFit (L : Ledger) : Prop where
  base : PricingFits L.vault L.book.base L.shielded.base
  live : PricingFits L.vault L.book.base L.shielded.current
  value : L.book.current.value < 2^64

instance (L : Ledger) : Decidable L.LayersFit :=
  decidable_of_iff
    (PricingFits L.vault L.book.base L.shielded.base ∧
      PricingFits L.vault L.book.base L.shielded.current ∧ L.book.current.value < 2^64)
    ⟨fun h => ⟨h.1, h.2.1, h.2.2⟩, fun h => ⟨h.base, h.live, h.value⟩⟩

/-- The book and the aggregate are delegated, the live book is marked and no less capital than the
committed one, and the public price is at most the private one. -/
structure Layered (L : Ledger) : Prop where
  book : L.book.live ≠ none
  shielded : L.shielded.live ≠ none
  marked : L.book.current.nav = L.book.current.markedValue
  principal : L.book.current.principal ≤ L.book.current.markedIn.val
  capital : bookCapital L.book.base ≤ bookCapital L.book.current
  shares : L.shielded.current.shares.val = L.privateShares
  baseNav : 0 ≤ L.baseNav
  liveNav : 0 ≤ L.baseNav + L.pendingNav
  order : L.baseSupply = 0 ∨ 0 ≤ L.slack

variable {L L' : Ledger} {m : Move}

/-! ## The live price in terms of the committed one -/

/-- The enclave's NAV is Solana's with what is uncommitted. -/
theorem liveNav_eq (L : Ledger) :
    rawNav L.vault L.book.base L.shielded.current = L.baseNav + L.pendingNav := by
  unfold baseNav pendingNav rawNav
  ring

/-- So is the enclave's supply. -/
theorem liveSupply_eq (L : Ledger) :
    (shareSupply L.vault L.shielded.current : ℤ) = L.baseSupply + L.pendingShares := by
  simp only [shareSupply, baseSupply, pendingShares]
  omega

/-- In order, the public price is at most the private one, as pricing returns them. -/
theorem Layered.price_le (hL : L.Layered) (hfit : L.LayersFit) {nav supply nav' supply' : U64}
    (hbase : L.pricing = .ok (nav, supply)) (hlive : L.livePricing = .ok (nav', supply'))
    (hpos : 0 < supply.val) : nav.val * supply'.val ≤ nav'.val * supply.val := by
  obtain ⟨hnav, hsupply⟩ := navForPricing_exact hfit.base hbase
  obtain ⟨hnav', hsupply'⟩ := navForPricing_exact hfit.live hlive
  rw [liveNav_eq, max_eq_right hL.liveNav] at hnav'
  replace hnav : (nav.val : ℤ) = L.baseNav := hnav.trans (max_eq_right hL.baseNav)
  replace hsupply : supply.val = L.baseSupply := hsupply
  have hsupply'' : (supply'.val : ℤ) = L.baseSupply + L.pendingShares := by
    rw [hsupply', liveSupply_eq]
  have hslack : 0 ≤ L.slack := hL.order.resolve_left (by omega)
  have hle := gap_nonneg_iff.mp hslack
  rw [PriceLe, ← hnav', ← hsupply'', ← hnav, ← hsupply] at hle
  exact_mod_cast hle

/-! ## Public flow -/

/-- Where the committed shares have no value, no more private money went out than came in. -/
theorem Layered.pendingNav_nonneg (hL : L.Layered) (hS : L.baseSupply ≠ 0)
    (hnav : L.baseNav = 0) : 0 ≤ L.pendingNav := by
  have hslack : 0 ≤ L.slack := hL.order.resolve_left hS
  rw [slack, gap, hnav, mul_zero, sub_zero] at hslack
  exact nonneg_of_mul_nonneg_left hslack (by omega)

/-- A public deposit in a safe place keeps the order. -/
theorem Layered.deposit (hL : L.Layered) (hfit : L.LayersFit) {amount shares : U64}
    (hmove : L.Fits (.deposit amount)) (hsafe : L.Safe (.deposit amount))
    (mints : Mints L.vault L.book.base L.shielded.base amount shares) :
    Layered { L with vault := L.vault.deposited shares amount } := by
  obtain ⟨hin, hshares⟩ := hmove
  have hnavAfter : Ledger.baseNav { L with vault := L.vault.deposited shares amount } =
      L.baseNav + amount.val := rawNav_vault_deposited hin
  have hsupplyAfter : (Ledger.baseSupply { L with vault := L.vault.deposited shares amount } : ℤ) =
      L.baseSupply + shares.val := shareSupply_vault_deposited (hshares shares mints)
  have hbase := hL.baseNav
  have hlive := hL.liveNav
  refine { hL with baseNav := by rw [hnavAfter]; omega, liveNav := ?_, order := .inr ?_ }
  · rw [hnavAfter]
    change 0 ≤ L.baseNav + amount.val + L.pendingNav
    omega
  · obtain ⟨nav, hnav, hpar, hmint⟩ := mints.exact hfit.base
    replace hnav : (nav : ℤ) = L.baseNav := hnav.trans (max_eq_right hL.baseNav)
    change 0 ≤ gap (Ledger.baseNav { L with vault := L.vault.deposited shares amount })
      (Ledger.baseSupply { L with vault := L.vault.deposited shares amount })
      L.pendingNav L.pendingShares
    rw [hnavAfter, hsupplyAfter]
    simp only [Safe] at hsafe
    split at hsafe
    · -- Solana counts no shares: the deposit enters at par, and nothing is pending but money.
      rename_i hzero
      obtain ⟨hm, hn⟩ := hsafe
      rw [hpar (.inl hzero), gap_enter, gap, hzero, hm]
      have hworth : 0 ≤ L.pendingNav * amount.val := mul_nonneg hn (Int.natCast_nonneg _)
      push_cast
      linarith
    · rename_i hS
      have hslack : 0 ≤ L.slack := hL.order.resolve_left hS
      rcases Nat.eq_zero_or_pos nav with hzero | hpos
      · -- Committed shares without value: then no money was withdrawn, and the deposit enters at
        -- par.
        have hn := hL.pendingNav_nonneg hS (by omega)
        rw [hpar (.inr hzero), gap_enter]
        change 0 ≤ L.slack + _ - _
        have htoNat : L.baseNav.toNat = 0 := by omega
        rw [htoNat, Nat.mod_zero] at hsafe
        have hworth : 0 ≤ L.pendingNav * amount.val := mul_nonneg hn (Int.natCast_nonneg _)
        rcases hsafe with hout | hexact
        · have hshares : L.pendingShares * amount.val ≤ 0 :=
            mul_nonpos_of_nonpos_of_nonneg hout.2 (Int.natCast_nonneg _)
          linarith
        · rw [(Nat.mul_eq_zero.mp hexact).resolve_right hS]
          simpa using hslack
      · -- The floored shares leave a remainder behind, which the pending money has no part in.
        have htoNat : L.baseNav.toNat = nav := by omega
        have hmint' : shares.val = amount.val * L.baseSupply / nav := hmint hS (by omega)
        have hgap := gap_mint amount.val L.baseSupply nav L.pendingNav L.pendingShares
        rw [hnav, ← hmint'] at hgap
        refine nonneg_of_mul_nonneg_right ?_ (by omega : 0 < L.baseNav)
        rw [hgap, sub_nonneg]
        have hgrown : 0 ≤ (L.baseNav + amount.val) * L.slack :=
          mul_nonneg (by omega) hslack
        refine le_trans ?_ hgrown
        rcases hsafe with hout | hexact
        · exact mul_nonpos_of_nonpos_of_nonneg hout.1 (Int.natCast_nonneg _)
        · rw [htoNat] at hexact
          rw [hexact, Nat.cast_zero, mul_zero]

/-- A public redemption in a safe place keeps the order. -/
theorem Layered.redeem (hL : L.Layered) (hfit : L.LayersFit) {shares assets : U64}
    (hmove : L.Fits (.redeem shares)) (hsafe : L.Safe (.redeem shares))
    (pays : Pays L.vault L.book.base L.shielded.base shares assets)
    (covered : shares.val ≤ L.vault.shares.val) :
    Layered { L with vault := L.vault.redeemed shares assets } := by
  have hnavAfter : Ledger.baseNav { L with vault := L.vault.redeemed shares assets } =
      L.baseNav - assets.val := rawNav_vault_redeemed (hmove assets pays)
  have hsupplyAfter : (Ledger.baseSupply { L with vault := L.vault.redeemed shares assets } : ℤ) =
      L.baseSupply - shares.val := shareSupply_vault_redeemed covered
  obtain ⟨nav, hnav, hsupply, hassets⟩ := pays.exact hfit.base
  replace hnav : (nav : ℤ) = L.baseNav := hnav.trans (max_eq_right hL.baseNav)
  replace hsupply : L.baseSupply ≠ 0 := hsupply
  replace hassets : assets.val = shares.val * nav / L.baseSupply := hassets
  have hSpos : (0 : ℤ) < L.baseSupply := by omega
  have hslack : 0 ≤ L.slack := hL.order.resolve_left hsupply
  have hpaid : (assets.val : ℤ) * L.baseSupply ≤ shares.val * nav := by
    rw [hassets]
    exact mint_mul_le _ _ _
  -- Both views hold at least the shares that leave, at a price no lower.
  have hS : (shares.val : ℤ) ≤ L.baseSupply := by
    have hle : L.vault.shares.val ≤ L.baseSupply := Nat.le_add_right _ _
    omega
  have hSm : (shares.val : ℤ) ≤ L.baseSupply + L.pendingShares := by
    rw [← liveSupply_eq, shareSupply]
    omega
  rw [hnav] at hpaid
  have hbaseAfter : (assets.val : ℤ) ≤ L.baseNav :=
    (PriceLe.refl _ _).paid_le hL.baseNav hSpos hS hpaid
  have hliveAfter : (assets.val : ℤ) ≤ L.baseNav + L.pendingNav :=
    (gap_nonneg_iff.mp hslack).paid_le hL.baseNav hSpos hSm hpaid
  refine { hL with baseNav := by rw [hnavAfter]; omega, liveNav := ?_, order := .inr ?_ }
  · rw [hnavAfter]
    change 0 ≤ L.baseNav - assets.val + L.pendingNav
    omega
  · change 0 ≤ gap (Ledger.baseNav { L with vault := L.vault.redeemed shares assets })
      (Ledger.baseSupply { L with vault := L.vault.redeemed shares assets })
      L.pendingNav L.pendingShares
    have htoNat : L.baseNav.toNat = nav := by omega
    simp only [Safe, htoNat] at hsafe
    have hgap := gap_burn shares.val nav L.baseSupply L.pendingNav L.pendingShares
    rw [hnav, ← hassets] at hgap
    rw [hnavAfter, hsupplyAfter]
    refine nonneg_of_mul_nonneg_right ?_ hSpos
    rw [hgap, sub_nonneg]
    -- The floored assets leave a remainder behind, which the pending shares have no part in.
    have hkept : 0 ≤ (L.baseSupply - shares.val : ℤ) * L.slack := mul_nonneg (by omega) hslack
    refine le_trans ?_ hkept
    rcases hsafe with hout | hexact
    · exact mul_nonpos_of_nonpos_of_nonneg hout (Int.natCast_nonneg _)
    · rw [hexact, Nat.cast_zero, mul_zero]

/-! ## Private flow -/

/-- A write to the delegated aggregate stays in the enclave. -/
theorem Layered.writeShielded (hL : L.Layered) (s : Shielded) (t : ℕ) :
    (L.writeShielded s t).shielded = ⟨L.shielded.base, some s⟩ :=
  Delegable.write_of_live s hL.shielded

/-- What a write to the delegated aggregate needs to keep the order. -/
theorem Layered.of_writeShielded (hL : L.Layered) {s : Shielded} {t : ℕ} {n m : ℤ}
    (hn : s.net = L.shielded.current.net + n)
    (hm : (s.shares.val : ℤ) = L.shielded.current.shares.val + m)
    (hshares : s.shares.val = t) (hlive : 0 ≤ L.baseNav + L.pendingNav + n)
    (horder : L.baseSupply = 0 ∨
      0 ≤ gap L.baseNav L.baseSupply (L.pendingNav + n) (L.pendingShares + m)) :
    (L.writeShielded s t).Layered := by
  have hwrite := hL.writeShielded s t
  have hcur : (L.writeShielded s t).shielded.current = s := by rw [hwrite]; rfl
  have hbase : (L.writeShielded s t).shielded.base = L.shielded.base := by rw [hwrite]
  have hnav : (L.writeShielded s t).baseNav = L.baseNav := by
    unfold Ledger.baseNav
    rw [hbase]
    rfl
  have hsupply : (L.writeShielded s t).baseSupply = L.baseSupply := by
    unfold Ledger.baseSupply
    rw [hbase]
    rfl
  have hpending : (L.writeShielded s t).pendingNav = L.pendingNav + n := by
    rw [pendingNav, hcur, hbase, hn, pendingNav]
    ring
  have hpendingShares : (L.writeShielded s t).pendingShares = L.pendingShares + m := by
    rw [pendingShares, hcur, hbase, hm, pendingShares]
    ring
  refine ⟨hL.book, ?_, hL.marked, hL.principal, hL.capital, ?_, ?_, ?_, ?_⟩
  · rw [hwrite]
    exact Option.some_ne_none _
  · rw [hcur]
    exact hshares
  · rw [hnav]
    exact hL.baseNav
  · rw [hnav, hpending, ← add_assoc]
    exact hlive
  · rw [slack, hnav, hsupply, hpending, hpendingShares]
    exact horder

/-- A private deposit in a safe place keeps the order. -/
theorem Layered.depositPrivate (hL : L.Layered) (hfit : L.LayersFit) {amount shares p : U64}
    {t : ℕ} (hmove : L.Fits (.depositPrivate amount)) (hsafe : L.Safe (.depositPrivate amount))
    (mints : Mints L.vault L.book.base L.shielded.current amount shares)
    (held : p.val ≤ L.privateShares)
    (total : t + p.val = L.privateShares + (satAdd p shares).val) :
    (L.writeShielded (L.shielded.current.deposited shares amount) t).Layered := by
  obtain ⟨hin, hshares⟩ := hmove
  have hnew := hshares shares mints
  have hsum := hL.shares
  rw [satAdd_val_of_lt (by omega)] at total
  have hnet : (L.shielded.current.deposited shares amount).net =
      L.shielded.current.net + amount.val := by
    simp only [Shielded.net, Shielded.deposited, satAdd_val_of_lt hin]
    push_cast
    ring
  have hval : ((L.shielded.current.deposited shares amount).shares.val : ℤ) =
      L.shielded.current.shares.val + shares.val := by
    simp only [Shielded.deposited, satAdd_val_of_lt hnew]
    push_cast
    ring
  have hlive := hL.liveNav
  refine hL.of_writeShielded hnet hval (by omega) (by omega) ?_
  -- Without shares on Solana there is no price to compare with.
  rcases Nat.eq_zero_or_pos L.baseSupply with hzero | hpos
  · exact .inl hzero
  right
  have hslack : 0 ≤ L.slack := hL.order.resolve_left hpos.ne'
  obtain ⟨nav, hnav, hpar, hmint⟩ := mints.exact hfit.live
  rw [liveNav_eq, max_eq_right hL.liveNav] at hnav
  have hsupply := liveSupply_eq L
  have hamount : (0 : ℤ) ≤ amount.val := Int.natCast_nonneg _
  have hworth : 0 ≤ (amount.val : ℤ) * L.baseSupply := mul_nonneg hamount (Int.natCast_nonneg _)
  by_cases hempty : shareSupply L.vault L.shielded.current = 0
  · -- No live share: then there would be none on Solana either.
    have hcommitted := hsafe (by omega)
    omega
  · by_cases hnone : nav = 0
    · -- Live shares without value: then Solana sees no value either, and par is safe.
      have hcross := gap_nonneg_iff.mp hslack
      rw [PriceLe, ← hnav, hnone, Nat.cast_zero, zero_mul, ← hsupply] at hcross
      have hbase : L.baseNav = 0 :=
        le_antisymm (nonpos_of_mul_nonpos_left hcross (by omega)) hL.baseNav
      have hfree : (amount.val : ℤ) * L.baseNav = 0 := by rw [hbase, mul_zero]
      rw [hpar (.inr hnone), gap_enter_second]
      change 0 ≤ L.slack + _ - _
      linarith
    · -- Shares bought at the live price do not narrow the gap.
      refine hslack.trans (gap_mint_second hslack hL.baseNav (by omega) hamount ?_)
      rw [← hnav, ← hsupply, hmint hempty hnone]
      exact mint_mul_le _ _ _

/-- A private redemption keeps the order. -/
theorem Layered.redeemPrivate (hL : L.Layered) (hfit : L.LayersFit) {shares assets : U64} {t : ℕ}
    (hmove : L.Fits (.redeemPrivate shares))
    (pays : Pays L.vault L.book.base L.shielded.current shares assets)
    (total : t + shares.val = L.privateShares) :
    (L.writeShielded (L.shielded.current.redeemed shares assets) t).Layered := by
  have hsum := hL.shares
  have hnet : (L.shielded.current.redeemed shares assets).net =
      L.shielded.current.net + -assets.val := by
    simp only [Shielded.net, Shielded.redeemed, satAdd_val_of_lt (hmove assets pays)]
    push_cast
    ring
  have hval : ((L.shielded.current.redeemed shares assets).shares.val : ℤ) =
      L.shielded.current.shares.val + -shares.val := by
    simp only [Shielded.redeemed, satSub_val]
    omega
  obtain ⟨nav, hnav, hsupply, hassets⟩ := pays.exact hfit.live
  rw [liveNav_eq, max_eq_right hL.liveNav] at hnav
  have hsupply' := liveSupply_eq L
  have hpaid : (assets.val : ℤ) * shareSupply L.vault L.shielded.current ≤ shares.val * nav := by
    rw [hassets]
    exact mint_mul_le _ _ _
  have hcover : (shares.val : ℤ) ≤ shareSupply L.vault L.shielded.current := by
    rw [shareSupply]
    omega
  have hpos : (0 : ℤ) < shareSupply L.vault L.shielded.current := by omega
  -- Within the supply, the shares are paid at most the whole NAV.
  have hle : (assets.val : ℤ) ≤ nav :=
    (PriceLe.refl _ _).paid_le (Int.natCast_nonneg _) hpos hcover hpaid
  refine hL.of_writeShielded hnet hval ?_ (by omega) ?_
  · simp only [Shielded.redeemed, satSub_val]
    omega
  · rcases hL.order with hzero | hslack
    · exact .inl hzero
    · right
      rw [hsupply'] at hpos hcover hpaid
      rw [← sub_eq_add_neg, ← sub_eq_add_neg]
      refine gap_burn_second hslack (Int.natCast_nonneg _) hpos hcover ?_
      rw [← hnav]
      exact hpaid

/-! ## The book and the commits -/

/-- A write to the delegated book that keeps it marked leaves both prices alone. -/
theorem Layered.writeBook (hL : L.Layered) {b : PoolBook} (hnav : b.nav = b.markedValue)
    (hprincipal : b.principal ≤ b.markedIn.val)
    (hcap : bookCapital L.book.current ≤ bookCapital b) : (L.writeBook b).Layered := by
  -- The write stays on the live copy, which neither price reads.
  have hwrite : (L.writeBook b).book = ⟨L.book.base, some b⟩ := Delegable.write_of_live b hL.book
  have hcur : (L.writeBook b).book.current = b := by rw [hwrite]; rfl
  have hbase : (L.writeBook b).baseNav = L.baseNav := by
    unfold Ledger.baseNav
    rw [hwrite]
    rfl
  refine ⟨by rw [hwrite]; exact Option.some_ne_none _, hL.shielded, by rw [hcur]; exact hnav,
    by rw [hcur]; exact hprincipal, ?_, hL.shares, by rw [hbase]; exact hL.baseNav,
    by rw [hbase]; exact hL.liveNav, ?_⟩
  · rw [hcur, hwrite]
    exact hL.capital.trans hcap
  · rw [slack, hbase]
    exact hL.order

/-- Re-marking the delegated book keeps the order. -/
theorem Layered.remark (hL : L.Layered) {b : PoolBook} (h : Remarked L.book.current b) :
    (L.writeBook b).Layered := by
  refine hL.writeBook h.nav ?_ (bookCapital_le_of_remarked hL.marked h)
  rw [h.principal, h.markedIn]
  exact hL.principal

/-- So does absorbing flow. -/
theorem Layered.absorb (hL : L.Layered) {now : ℤ} {inflow outflow : U64} {r : PoolBook × Absorbed}
    (run : Agama.absorb L.book.current now inflow outflow = .ok r)
    (hmove : L.Fits (.absorb now inflow outflow)) (hvalue : r.1.value < 2^64) :
    (L.writeBook r.1).Layered := by
  obtain ⟨hin, hout⟩ := hmove
  have hprincipal := hL.principal
  have hfit : L.book.current.principal + inflow.val < 2^64 := by omega
  obtain ⟨-, hmin, -, hnav⟩ := absorb_marks run
  obtain ⟨v, -, -, hafter, -⟩ := absorb_sums run hfit
  refine hL.writeBook hnav ?_ (bookCapital_le_of_absorb run hL.marked hfit hin hout hvalue)
  rw [hafter, hmin, satAdd_val_of_lt hin]
  omega

/-- Committing the book in a safe place keeps the order. -/
theorem Layered.commitBook (hL : L.Layered) (hsafe : L.Safe .commitBook) {d : Delegable PoolBook}
    (run : L.book.commit = some d) : Layered { L with book := d } := by
  obtain ⟨hbase, hcur⟩ := Delegable.commit_eq_some run
  have hlive := Delegable.commit_live_ne_none run
  have hcap := hL.capital
  -- Both prices gain what the live book earned over the committed one.
  have hnav : Ledger.baseNav { L with book := d } =
      L.baseNav + (bookCapital L.book.current - bookCapital L.book.base) := by
    unfold Ledger.baseNav rawNav
    rw [hbase]
    ring
  have hbaseNav := hL.baseNav
  have hliveNav := hL.liveNav
  refine ⟨hlive, hL.shielded, by rw [hcur]; exact hL.marked, by rw [hcur]; exact hL.principal,
    by rw [hcur, hbase], hL.shares, by rw [hnav]; linarith, ?_, ?_⟩
  · rw [hnav]
    change 0 ≤ L.baseNav + _ + L.pendingNav
    linarith
  · rcases Nat.eq_zero_or_pos L.baseSupply with hzero | hpos
    · exact .inl hzero
    · right
      change 0 ≤ gap (Ledger.baseNav { L with book := d }) L.baseSupply L.pendingNav L.pendingShares
      rw [hnav, gap_revalue, sub_nonneg]
      refine le_trans ?_ (hL.order.resolve_left hpos.ne')
      rcases hsafe.resolve_left hpos.ne' with hout | hsame
      · exact mul_nonpos_of_nonpos_of_nonneg hout (by linarith)
      · rw [hsame, sub_self, mul_zero]

/-- Committing the aggregate closes the gap. -/
theorem Layered.commitShielded (hL : L.Layered) {d : Delegable Shielded}
    (run : L.shielded.commit = some d) : Layered { L with shielded := d } := by
  obtain ⟨hbase, hcur⟩ := Delegable.commit_eq_some run
  have hlive := Delegable.commit_live_ne_none run
  -- What was pending is now in both views, and nothing is pending after it.
  have hnav : Ledger.baseNav { L with shielded := d } = L.baseNav + L.pendingNav := by
    rw [← liveNav_eq]
    unfold Ledger.baseNav
    rw [hbase]
  have hpending : Ledger.pendingNav { L with shielded := d } = 0 := by
    rw [pendingNav, hcur, hbase, sub_self]
  have hshares : Ledger.pendingShares { L with shielded := d } = 0 := by
    rw [pendingShares, hcur, hbase, sub_self]
  refine ⟨hL.book, hlive, hL.marked, hL.principal, hL.capital, by rw [hcur]; exact hL.shares,
    by rw [hnav]; exact hL.liveNav, by rw [hnav, hpending, add_zero]; exact hL.liveNav, .inr ?_⟩
  rw [slack, hpending, hshares, gap_zero]

/-- A safe step on the two layers keeps the public price at most the private one. -/
theorem Step.layered (hL : L.Layered) (hfit : L.LayersFit) (hfit' : L'.LayersFit)
    (hmove : L.Fits m) (hsafe : L.Safe m) (h : Step L m L') : L'.Layered := by
  cases h with
  | deposit mints => exact hL.deposit hfit hmove hsafe mints
  | redeem pays covered => exact hL.redeem hfit hmove hsafe pays covered
  | depositPrivate mints held total => exact hL.depositPrivate hfit hmove hsafe mints held total
  | redeemPrivate pays held total => exact hL.redeemPrivate hfit hmove pays total
  | tick run => exact hL.remark (tick_spec run)
  | absorb run =>
    have hvalue := hfit'.value
    simp only [writeBook, Delegable.current_write] at hvalue
    exact hL.absorb run hmove hvalue
  | setApr run => exact hL.remark (setApr_spec run)
  | delegateBook run => exact absurd (Delegable.delegate_live_eq_none run) hL.book
  | commitBook run => exact hL.commitBook hsafe run
  | undelegateBook run => exact hsafe.elim
  | delegateShielded run => exact absurd (Delegable.delegate_live_eq_none run) hL.shielded
  | commitShielded run => exact hL.commitShielded run
  | undelegateShielded run => exact hsafe.elim
  | other => exact hL

end Ledger

/-! ## Runs on the two layers -/

/-- A safe step on the two layers, in which nothing saturates. -/
abbrev LayerStep (rt : Runtime) : World → World → Prop := StepWith rt fun w a w' =>
  w.ledger.Fits a.move ∧ w.ledger.Safe a.move ∧ w'.ledger.LayersFit

/-- The two layers start in order. -/
theorem layered_start (rt : Runtime) (authority custodyOwner : Pubkey) (now : ℤ)
    (pools : List.Vector PoolInit poolCount) :
    (World.layered rt authority custodyOwner now pools).ledger.Layered ∧
      (World.layered rt authority custodyOwner now pools).ledger.LayersFit := by
  have hstart := initial_oneCopy rt authority custodyOwner now pools
  have hmarked : (initBook rt.vaultKey authority now pools).nav =
      (initBook rt.vaultKey authority now pools).markedValue := hstart.marked
  have hval := markedValue_val (initBook rt.vaultKey authority now pools)
  rw [← hmarked] at hval
  have hzero : (initBook rt.vaultKey authority now pools).value = 0 := by
    have hnav : (initBook rt.vaultKey authority now pools).nav.val = 0 := rfl
    omega
  have hprincipal : (initBook rt.vaultKey authority now pools).principal ≤
      (initBook rt.vaultKey authority now pools).value := principalSum_le_valueSum _
  have hfit : (0 : ℕ) < 2^64 := by decide
  refine ⟨⟨Option.some_ne_none _, Option.some_ne_none _, hmarked, ?_, le_rfl, rfl, le_rfl, le_rfl,
    .inl rfl⟩, ⟨⟨⟨hfit, hfit, hfit⟩, hfit⟩, ⟨⟨hfit, hfit, hfit⟩, hfit⟩, ?_⟩⟩
  · exact hprincipal.trans (hzero.le.trans (Nat.zero_le _))
  · exact hzero.trans_lt (by decide)

/-- Along every run of safe steps, the price that Solana uses is at most the price that the enclave
uses. -/
theorem base_price_le_live {rt : Runtime} {authority custodyOwner : Pubkey} {now : ℤ}
    {pools : List.Vector PoolInit poolCount} {w : World}
    (hrun : Relation.ReflTransGen (LayerStep rt)
      (World.layered rt authority custodyOwner now pools) w)
    {nav supply nav' supply' : U64} (hbase : w.ledger.pricing = .ok (nav, supply))
    (hlive : w.ledger.livePricing = .ok (nav', supply')) (hpos : 0 < supply.val) :
    nav.val * supply'.val ≤ nav'.val * supply.val := by
  have h := Runs.preserves (I := fun w => w.ledger.Layered ∧ w.ledger.LayersFit)
    (fun hw ⟨_, hstep, hmove, hsafe, hfit'⟩ =>
      ⟨(World.step_ledger hstep).layered hw.1 hw.2 hfit' hmove hsafe, hfit'⟩)
    hrun (layered_start rt authority custodyOwner now pools)
  exact h.1.price_le h.2 hbase hlive hpos

/-- Private flow that is pending throughout: a deposit during another public one, and, once that is
committed and the book has earned for a year, a redemption and a deposit during the book's commit
and a public redemption. -/
def pendingFlows : List Action :=
  publicDeposit ++ openPrivate ++ privateDeposit 100000000 ++
    [.program (.alone [user] 110) (.deposit user 50000000),
      .program (.alone [authority] 110) (.commitShielded authority),
      .program (.alone [authority] 120) (.absorb authority 150000000 0),
      .program (.alone [user] 31536120) (.tick user),
      .program (.alone [positionOwner] 31536120)
        (.redeemPrivate positionOwner positionOwner ⟨60000000, 1, 0, 0, 1⟩),
      .program (.alone [user] 31536130) (.commitBook user),
      .program (.alone [user] 31536140) (.redeem user 10000000)] ++
    privateDeposit 30000000

/-- Solana prices at 1.06 there, the enclave at 1.08, and the aggregate is behind. -/
theorem base_price_le_live_pending :
    ∃ (w : World) (nav supply nav' supply' : U64), w.ledger.pendingNav = -30000000 ∧
      w.ledger.pendingShares = -32222223 ∧ w.ledger.pricing = .ok (nav, supply) ∧
      w.ledger.livePricing = .ok (nav', supply') ∧
      nav.val * supply'.val ≤ nav'.val * supply.val := by
  have hrun : Relation.ReflTransGen (LayerStep deployment) World.deployedLayers
      (World.deployedLayers.after deployment pendingFlows) := run_of_replays (by decide +kernel)
  have hbase : (World.deployedLayers.after deployment pendingFlows).ledger.pricing =
      .ok (254400000, 240000000) := by decide +kernel
  have hlive : (World.deployedLayers.after deployment pendingFlows).ledger.livePricing =
      .ok (224400000, 207777777) := by decide +kernel
  exact ⟨_, _, _, _, _, by decide +kernel, by decide +kernel, hbase, hlive,
    base_price_le_live hrun hbase hlive (by decide)⟩

/-- The public deposit is absorbed and earns a tenth in a year, while a private deposit of the same
amount is not committed. Then the book is committed. -/
def uncommittedYield : List Action :=
  publicDeposit ++ openPrivate ++ privateDeposit 100000000 ++
    [.program (.alone [authority] 100) (.absorb authority 100000000 0),
      .program (.alone [user] 31536100) (.tick user),
      .program (.alone [user] 31536100) (.commitBook user)]

/-- There Solana prices at 1.1, and the enclave at 1.05. -/
theorem base_price_exceeds_live :
    ∃ (w : World) (nav supply nav' supply' : U64), Run deployment World.deployedLayers w ∧
      w.ledger.pricing = .ok (nav, supply) ∧ w.ledger.livePricing = .ok (nav', supply') ∧
      0 < supply.val ∧ 0 < supply'.val ∧ ¬ nav.val * supply'.val ≤ nav'.val * supply.val :=
  ⟨World.deployedLayers.after deployment uncommittedYield, 110000000, 100000000, 210000000,
    200000000, run_of_replays (by decide +kernel), by decide +kernel, by decide +kernel, by decide,
    by decide, by decide⟩

end Agama
