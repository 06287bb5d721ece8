import Agama.Receipts
import Agama.Recovery

/-!
# Splitting and ordering

Redemptions and deposits in sequence, from a state in which both layers price the same NAV `N` over
the same supply `S`. A redemption lowers neither layer's price, and the live view, which sees every
redemption, has paid out `X` for `T` shares at a price that stays at least `N / S`: so each
redemption pays at least its floored share at the first price, and all of them together at most
theirs. A deposit mints at a price that is at least `N / S`, so each mints at most its floored share
there, and the bound adds up. Anything that leaves the book and the flows alone may happen in
between, and the aggregate may move between the layers.
-/

namespace Agama

open SharePrice

namespace Ledger

/-- None of the sums behind either layer's price saturates. -/
structure ViewsFit (L : Ledger) : Prop where
  base : PricingFits L.vault L.book.base L.shielded.base
  live : PricingFits L.vault L.book.base L.shielded.current

instance (L : Ledger) : Decidable L.ViewsFit :=
  decidable_of_iff (PricingFits L.vault L.book.base L.shielded.base ∧
    PricingFits L.vault L.book.base L.shielded.current) ⟨fun h => ⟨h.1, h.2⟩, fun h => ⟨h.1, h.2⟩⟩

/-- Both layers price the same NAV over the same supply. -/
structure PricesBoth (L : Ledger) (N S : U64) : Prop where
  base : L.pricing = .ok (N, S)
  live : L.livePricing = .ok (N, S)

/-- A positive NAV that pricing returns was not floored. -/
theorem rawNav_of_pricing {v : Vault} {b : PoolBook} {s : Shielded} {N S : U64}
    (hfit : PricingFits v b s) (h : navForPricing v b s = .ok (N, S)) (hN : 0 < N.val) :
    rawNav v b s = N.val ∧ S.val = shareSupply v s := by
  obtain ⟨hnav, hsupply⟩ := navForPricing_exact hfit h
  exact ⟨by omega, hsupply⟩

/-! ## Steps with their receipts -/

/-- A redemption of `s` shares that pays `x`. -/
inductive Redeems (L : Ledger) : ℕ → ℕ → Ledger → Prop
  | publicly {shares assets : U64}
      (pays : Pays L.vault L.book.base L.shielded.base shares assets)
      (covered : shares.val ≤ L.vault.shares.val)
      (fits : L.vault.totalOut.val + assets.val < 2^64) :
      Redeems L shares.val assets.val { L with vault := L.vault.redeemed shares assets }
  | privately {shares assets : U64} {t : ℕ}
      (pays : Pays L.vault L.book.base L.shielded.current shares assets)
      (total : t + shares.val = L.privateShares)
      (fits : L.shielded.current.totalOut.val + assets.val < 2^64) :
      Redeems L shares.val assets.val
        (L.writeShielded (L.shielded.current.redeemed shares assets) t)

/-- A deposit of `a` that mints `y` shares. -/
inductive Deposits (L : Ledger) : ℕ → ℕ → Ledger → Prop
  | publicly {amount shares : U64}
      (mints : Mints L.vault L.book.base L.shielded.base amount shares)
      (fits : L.vault.totalIn.val + amount.val < 2^64 ∧ L.vault.shares.val + shares.val < 2^64) :
      Deposits L amount.val shares.val { L with vault := L.vault.deposited shares amount }
  | privately {amount shares : U64} {t : ℕ}
      (mints : Mints L.vault L.book.base L.shielded.current amount shares)
      (fits : L.shielded.current.totalIn.val + amount.val < 2^64 ∧
        L.shielded.current.shares.val + shares.val < 2^64) :
      Deposits L amount.val shares.val
        (L.writeShielded (L.shielded.current.deposited shares amount) t)

/-- What leaves both layers' prices alone, or brings the committed one up to the live one. -/
structure Republished (L L' : Ledger) : Prop where
  vault : L'.vault = L.vault
  book : L'.book.base = L.book.base
  current : L'.shielded.current = L.shielded.current
  base : L'.shielded.base = L.shielded.base ∨ L'.shielded.base = L.shielded.current
  privateShares : L'.privateShares = L.privateShares

end Ledger

/-- The moves that do so. -/
def Move.republishes : Move → Bool
  | .other | .delegateShielded | .commitShielded | .undelegateShielded => true
  | _ => false

namespace Ledger

variable {L L' : Ledger} {N S X T : ℕ}

/-- A move that only publishes does that. -/
theorem Step.republished {m : Move} (hm : m.republishes = true) (h : Step L m L') :
    L.Republished L' := by
  cases h with
  | other => exact ⟨rfl, rfl, rfl, .inl rfl, rfl⟩
  | delegateShielded run =>
    obtain ⟨hb, hc⟩ := Delegable.delegate_eq_some run
    exact ⟨rfl, rfl, hc, .inl hb, rfl⟩
  | commitShielded run =>
    obtain ⟨hb, hc⟩ := Delegable.commit_eq_some run
    exact ⟨rfl, rfl, hc, .inr hb, rfl⟩
  | undelegateShielded run =>
    obtain ⟨hb, hc, -⟩ := Delegable.undelegate_eq_some run
    exact ⟨rfl, rfl, hc, .inr hb, rfl⟩
  | _ => cases hm

/-! ## Redemptions -/

/-- Where the price is at least `N / S`, shares are paid at least their part of `N`, and no more
than their part of the NAV. -/
theorem pays_bounds {v : Vault} {b : PoolBook} {s : Shielded} {shares assets : U64}
    (hS : 0 < S) (hprice : PriceLe N S (rawNav v b s) (shareSupply v s)) (hnav : 0 ≤ rawNav v b s)
    (hfit : PricingFits v b s) (pays : Pays v b s shares assets) :
    shares.val * N / S ≤ assets.val ∧ 0 < shareSupply v s ∧
      (assets.val : ℤ) * shareSupply v s ≤ shares.val * rawNav v b s := by
  obtain ⟨nav, hraw, hsupply, hassets⟩ := pays.exact hfit
  rw [max_eq_right hnav] at hraw
  have hpos := Nat.pos_of_ne_zero hsupply
  refine ⟨?_, hpos, ?_⟩
  · -- The part of `N` is worth no more at the price that the redemption found.
    have hworth := hprice.worth_le (by exact_mod_cast hS) (Int.natCast_nonneg _)
      (Int.natCast_nonneg _) (mint_mul_le shares.val N S)
    rw [hassets, Nat.le_div_iff_mul_le hpos]
    rw [← hraw] at hworth
    exact_mod_cast hworth
  · rw [hassets, ← hraw]
    exact mint_mul_le _ _ _

/-- What redemptions of `T` shares for `X` leave of a NAV of `N` over a supply of `S`: the live view
saw all of them, and neither view's price has fallen. -/
structure Left (N S X T : ℕ) (L : Ledger) : Prop where
  nav : rawNav L.vault L.book.base L.shielded.current = N - X
  supply : (shareSupply L.vault L.shielded.current : ℤ) = S - T
  live : PriceLe N S (rawNav L.vault L.book.base L.shielded.current)
    (shareSupply L.vault L.shielded.current)
  base : PriceLe N S (rawNav L.vault L.book.base L.shielded.base)
    (shareSupply L.vault L.shielded.base)
  baseNav : 0 ≤ rawNav L.vault L.book.base L.shielded.base
  order : PriceLe (rawNav L.vault L.book.base L.shielded.base)
    (shareSupply L.vault L.shielded.base) (rawNav L.vault L.book.base L.shielded.current)
    (shareSupply L.vault L.shielded.current)
  pending : shareSupply L.vault L.shielded.current ≤ shareSupply L.vault L.shielded.base
  shares : L.shielded.current.shares.val = L.privateShares

/-- The live NAV is not overdrawn. -/
theorem Left.nav_nonneg (h : Left N S X T L) (hS : 0 < S) :
    0 ≤ rawNav L.vault L.book.base L.shielded.current :=
  h.live.nonneg (Int.natCast_nonneg _) (by exact_mod_cast hS) (Int.natCast_nonneg _)

/-- Together, the redemptions were paid at most their part of `N`. -/
theorem Left.paid_le (h : Left N S X T L) (hS : 0 < S) : X ≤ T * N / S := by
  have hlive := h.live
  rw [PriceLe, h.nav, h.supply] at hlive
  rw [Nat.le_div_iff_mul_le hS]
  have hpaid : (X : ℤ) * S ≤ T * N := by linarith
  exact_mod_cast hpaid

/-- A public redemption is paid at least its part, and leaves both views a price no lower. -/
theorem Left.redeemPublic (h : Left N S X T L) (hS : 0 < S) (hfit : L.ViewsFit)
    {shares assets : U64} (pays : Pays L.vault L.book.base L.shielded.base shares assets)
    (covered : shares.val ≤ L.vault.shares.val)
    (fits : L.vault.totalOut.val + assets.val < 2^64) :
    shares.val * N / S ≤ assets.val ∧
      Left N S (X + assets.val) (T + shares.val)
        { L with vault := L.vault.redeemed shares assets } := by
  obtain ⟨hleast, hpos, hpaid⟩ := pays_bounds hS h.base h.baseNav hfit.base pays
  have hcover (s : Shielded) : (shares.val : ℤ) ≤ shareSupply L.vault s := by
    rw [shareSupply]
    omega
  have hposLive : (0 : ℤ) < shareSupply L.vault L.shielded.current := by
    have := pays.1
    have := hcover L.shielded.current
    omega
  -- What the committed price pays, the live price, which is no lower, pays as well.
  have hpaidLive := h.order.worth_le (by exact_mod_cast hpos) hposLive.le (Int.natCast_nonneg _)
    hpaid
  have hnav (s : Shielded) : rawNav (L.vault.redeemed shares assets) L.book.base s =
      rawNav L.vault L.book.base s - assets.val := rawNav_vault_redeemed fits
  have hsupply (s : Shielded) : (shareSupply (L.vault.redeemed shares assets) s : ℤ) =
      shareSupply L.vault s - shares.val := shareSupply_vault_redeemed covered
  have hsubNonneg (s : Shielded) : (0 : ℤ) ≤ shareSupply L.vault s - shares.val :=
    sub_nonneg.mpr (hcover s)
  refine ⟨hleast, ?_, ?_, ?_, ?_, ?_, ?_, ?_, h.shares⟩
  · rw [hnav, h.nav]
    push_cast
    ring
  · rw [hsupply, h.supply]
    push_cast
    ring
  · rw [hnav, hsupply]
    exact h.live.trans (.leave hpaidLive) (Int.natCast_nonneg _) hposLive (hsubNonneg _)
  · rw [hnav, hsupply]
    exact h.base.trans (.leave hpaid) (Int.natCast_nonneg _) (by exact_mod_cast hpos)
      (hsubNonneg _)
  · rw [hnav]
    have := (PriceLe.refl _ _).paid_le h.baseNav (by exact_mod_cast hpos) (hcover _) hpaid
    linarith
  · rw [hnav, hnav, hsupply, hsupply]
    exact h.order.leave_both (by exact_mod_cast hpos) (by exact_mod_cast h.pending) (hcover _) hpaid
  · have := h.pending
    have := hsupply L.shielded.base
    have := hsupply L.shielded.current
    simp only at *
    omega

/-- What a change of the aggregate leaves, when it keeps the order of the prices and either keeps
the committed aggregate or publishes the live one. -/
theorem Left.of_live {X' T' : ℕ} (h : Left N S X T L) (hS : 0 < S) (hvault : L'.vault = L.vault)
    (hbook : L'.book.base = L.book.base)
    (hnav : rawNav L.vault L.book.base L'.shielded.current = N - X')
    (hsupply : (shareSupply L.vault L'.shielded.current : ℤ) = S - T')
    (hlive : PriceLe N S (rawNav L.vault L.book.base L'.shielded.current)
      (shareSupply L.vault L'.shielded.current))
    (horder : PriceLe (rawNav L.vault L.book.base L.shielded.base)
      (shareSupply L.vault L.shielded.base) (rawNav L.vault L.book.base L'.shielded.current)
      (shareSupply L.vault L'.shielded.current))
    (hle : shareSupply L.vault L'.shielded.current ≤ shareSupply L.vault L.shielded.current)
    (hbase : L'.shielded.base = L.shielded.base ∨ L'.shielded.base = L'.shielded.current)
    (hshares : L'.shielded.current.shares.val = L'.privateShares) : Left N S X' T' L' := by
  rcases hbase with hbase | hbase
  · refine ⟨?_, ?_, ?_, ?_, ?_, ?_, ?_, hshares⟩ <;> rw [hvault]
    · rwa [hbook]
    · exact hsupply
    · rwa [hbook]
    · rw [hbook, hbase]
      exact h.base
    · rw [hbook, hbase]
      exact h.baseNav
    · rw [hbook, hbase]
      exact horder
    · rw [hbase]
      exact hle.trans h.pending
  · -- The two views are one again.
    have hnonneg : 0 ≤ rawNav L.vault L.book.base L'.shielded.current :=
      hlive.nonneg (Int.natCast_nonneg _) (by exact_mod_cast hS) (Int.natCast_nonneg _)
    refine ⟨?_, ?_, ?_, ?_, ?_, ?_, ?_, hshares⟩ <;> rw [hvault]
    · rwa [hbook]
    · exact hsupply
    · rwa [hbook]
    · rwa [hbook, hbase]
    · rwa [hbook, hbase]
    · rw [hbook, hbase]
      exact .refl _ _
    · rw [hbase]

/-- A private redemption is paid at least its part, and leaves both views a price no lower. -/
theorem Left.redeemPrivate (h : Left N S X T L) (hS : 0 < S) (hfit : L.ViewsFit)
    {shares assets : U64} {t : ℕ}
    (pays : Pays L.vault L.book.base L.shielded.current shares assets)
    (total : t + shares.val = L.privateShares)
    (fits : L.shielded.current.totalOut.val + assets.val < 2^64) :
    shares.val * N / S ≤ assets.val ∧
      Left N S (X + assets.val) (T + shares.val)
        (L.writeShielded (L.shielded.current.redeemed shares assets) t) := by
  obtain ⟨hleast, hpos, hpaid⟩ := pays_bounds hS h.live (h.nav_nonneg hS) hfit.live pays
  have hsum := h.shares
  have hnav : rawNav L.vault L.book.base (L.shielded.current.redeemed shares assets) =
      rawNav L.vault L.book.base L.shielded.current - assets.val := rawNav_shielded_redeemed fits
  have hsupply : (shareSupply L.vault (L.shielded.current.redeemed shares assets) : ℤ) =
      shareSupply L.vault L.shielded.current - shares.val :=
    shareSupply_shielded_redeemed (by omega)
  have hcur : (L.writeShielded (L.shielded.current.redeemed shares assets) t).shielded.current =
      L.shielded.current.redeemed shares assets := Delegable.current_write _ _
  have hpos' : (0 : ℤ) < shareSupply L.vault L.shielded.current := by exact_mod_cast hpos
  have hleave : PriceLe (rawNav L.vault L.book.base L.shielded.current)
      (shareSupply L.vault L.shielded.current)
      (rawNav L.vault L.book.base (L.shielded.current.redeemed shares assets))
      (shareSupply L.vault (L.shielded.current.redeemed shares assets)) := by
    rw [hnav, hsupply]
    exact .leave hpaid
  refine ⟨hleast, h.of_live hS rfl rfl ?_ ?_ ?_ ?_ ?_ ?_ ?_⟩
  · rw [hcur, hnav, h.nav]
    push_cast
    ring
  · rw [hcur, hsupply, h.supply]
    push_cast
    ring
  · rw [hcur]
    exact h.live.trans hleave (Int.natCast_nonneg _) hpos' (Int.natCast_nonneg _)
  · rw [hcur]
    exact h.order.trans hleave (Int.natCast_nonneg _) hpos' (Int.natCast_nonneg _)
  · rw [hcur]
    omega
  · rw [hcur]
    exact Delegable.base_write _ _
  · rw [hcur]
    simp only [writeShielded, Shielded.redeemed, satSub_val]
    omega

/-- Every redemption is paid at least its part, and leaves both views a price no lower. -/
theorem Left.redeems (h : Left N S X T L) (hS : 0 < S) (hfit : L.ViewsFit) {s x : ℕ}
    (hL : L.Redeems s x L') : s * N / S ≤ x ∧ Left N S (X + x) (T + s) L' := by
  cases hL with
  | publicly pays covered fits => exact h.redeemPublic hS hfit pays covered fits
  | privately pays total fits => exact h.redeemPrivate hS hfit pays total fits

/-- Republishing leaves what it finds. -/
theorem Left.republished (h : Left N S X T L) (hS : 0 < S) (hL : L.Republished L') :
    Left N S X T L' := by
  refine h.of_live hS hL.vault hL.book ?_ ?_ ?_ ?_ ?_ ?_ ?_
  all_goals rw [hL.current]
  · exact h.nav
  · exact h.supply
  · exact h.live
  · exact h.order
  · exact hL.base
  · rw [hL.privateShares]
    exact h.shares

/-- Where both layers price `N` over `S`, nothing has been redeemed. -/
theorem left_start {N S : U64} (hL : L.PricesBoth N S) (hN : 0 < N.val) (hfit : L.ViewsFit)
    (hsum : L.shielded.current.shares.val = L.privateShares) : Left N.val S.val 0 0 L := by
  obtain ⟨hnav, hsupply⟩ := rawNav_of_pricing hfit.base hL.base hN
  obtain ⟨hnav', hsupply'⟩ := rawNav_of_pricing hfit.live hL.live hN
  refine ⟨?_, ?_, ?_, ?_, ?_, ?_, ?_, hsum⟩
  · simpa using hnav'
  · simpa using hsupply'.symm
  · rw [hnav', hsupply']
    exact .refl _ _
  · rw [hnav, hsupply]
    exact .refl _ _
  · rw [hnav]
    exact Int.natCast_nonneg _
  · rw [hnav, hnav', ← hsupply, ← hsupply']
    exact .refl _ _
  · rw [← hsupply, ← hsupply']

/-! ## Deposits -/

/-- A view whose price is at least `N / S`, with a NAV and shares. -/
structure Worth (N S : ℕ) (v : Vault) (b : PoolBook) (s : Shielded) : Prop where
  nav : 0 < rawNav v b s
  supply : 0 < shareSupply v s
  price : PriceLe N S (rawNav v b s) (shareSupply v s)

/-- Such a view mints no more than the part of `S` that the amount is of `N`. -/
theorem Worth.mints_le {v : Vault} {b : PoolBook} {s : Shielded} {amount shares : U64}
    (h : Worth N S v b s) (hfit : PricingFits v b s) (mints : Mints v b s amount shares) :
    (shares.val : ℤ) * N ≤ amount.val * S := by
  obtain ⟨nav, hnav, -, hmint⟩ := mints.exact hfit
  rw [max_eq_right h.nav.le] at hnav
  have hpos := h.nav
  refine h.price.bought_le (Int.natCast_nonneg _) hpos (Int.natCast_nonneg _) ?_
  rw [hmint h.supply.ne' (by omega), ← hnav]
  exact mint_mul_le _ _ _

/-- A deposit at no less than `N / S` keeps the view. -/
theorem Worth.enter {v v' : Vault} {b : PoolBook} {s s' : Shielded} {a y : ℕ}
    (h : Worth N S v b s) (hnav : rawNav v' b s' = rawNav v b s + a)
    (hsupply : (shareSupply v' s' : ℤ) = shareSupply v s + y) (hy : (y : ℤ) * N ≤ a * S) :
    Worth N S v' b s' := by
  have := h.nav
  have := h.supply
  refine ⟨by omega, by omega, ?_⟩
  rw [hnav, hsupply]
  exact h.price.enter hy

/-- Both views are worth at least `N / S`. -/
structure WorthBoth (N S : ℕ) (L : Ledger) : Prop where
  base : Worth N S L.vault L.book.base L.shielded.base
  live : Worth N S L.vault L.book.base L.shielded.current

/-- Every deposit mints at most its part, and keeps both views. -/
theorem WorthBoth.deposits (h : WorthBoth N S L) (hfit : L.ViewsFit) {a y : ℕ}
    (hL : L.Deposits a y L') : y * N ≤ a * S ∧ WorthBoth N S L' := by
  cases hL with
  | publicly mints fits =>
    have hle := h.base.mints_le hfit.base mints
    refine ⟨by exact_mod_cast hle, h.base.enter ?_ ?_ hle, h.live.enter ?_ ?_ hle⟩
    · exact rawNav_vault_deposited fits.1
    · exact shareSupply_vault_deposited fits.2
    · exact rawNav_vault_deposited fits.1
    · exact shareSupply_vault_deposited fits.2
  | privately mints fits =>
    rename_i amount shares t
    have hle := h.live.mints_le hfit.live mints
    have hlive : Worth N S L.vault L.book.base (L.shielded.current.deposited shares amount) :=
      h.live.enter (rawNav_shielded_deposited fits.1) (shareSupply_shielded_deposited fits.2) hle
    have hboth : L.shielded.Both (Worth N S L.vault L.book.base) := ⟨h.base, h.live⟩
    exact ⟨by exact_mod_cast hle, (hboth.write hlive).1, (hboth.write hlive).2⟩

/-- Republishing keeps both views. -/
theorem WorthBoth.republished (h : WorthBoth N S L) (hL : L.Republished L') :
    WorthBoth N S L' := by
  refine ⟨?_, by rw [hL.vault, hL.book, hL.current]; exact h.live⟩
  rw [hL.vault, hL.book]
  rcases hL.base with hbase | hbase
  · rw [hbase]
    exact h.base
  · rw [hbase]
    exact h.live

/-- Both views are worth the price that both layers find. -/
theorem worthBoth_start {N S : U64} (hL : L.PricesBoth N S) (hN : 0 < N.val) (hS : 0 < S.val)
    (hfit : L.ViewsFit) : WorthBoth N.val S.val L := by
  obtain ⟨hnav, hsupply⟩ := rawNav_of_pricing hfit.base hL.base hN
  obtain ⟨hnav', hsupply'⟩ := rawNav_of_pricing hfit.live hL.live hN
  refine ⟨⟨by omega, by omega, ?_⟩, ⟨by omega, by omega, ?_⟩⟩
  · rw [hnav, hsupply]
    exact .refl _ _
  · rw [hnav', hsupply']
    exact .refl _ _

end Ledger

/-! ## Runs -/

namespace World

/-- What a redemption of `s` shares pays: USDC to the user, or a ticket. -/
inductive Redeems (w w' : World) : Action → ℕ → ℕ → Prop
  | publicly {tx : Tx} {user : Pubkey} {shares : U64} {x : ℕ}
      (received : (w'.usdc user).val = (w.usdc user).val + x) :
      Redeems w w' (.program tx (.redeem user shares)) shares.val x
  | privately {tx : Tx} {ix : Ix} {o : Pubkey} {r : ExitRequest} {e : Exit}
      (asks : ix.redeemsPrivate = some (o, r))
      (opened : w'.obligations.ticket r.groupId = some e) :
      Redeems w w' (.program tx ix) r.shares.val e.assets.val

/-- What a deposit of `a` brings: agYLD to the user, or shares to the position. -/
inductive Deposits (w w' : World) : Action → ℕ → ℕ → Prop
  | publicly {tx : Tx} {user : Pubkey} {amount : U64} {y : ℕ}
      (received : (w'.agyld user).val = (w.agyld user).val + y) :
      Deposits w w' (.program tx (.deposit user amount)) amount.val y
  | privately {tx : Tx} {depositor signer position : Pubkey} {amount : U64} {y : ℕ}
      {d d' : Delegable Position} (before : w.positions.lookup position = some d)
      (after : w'.positions.lookup position = some d')
      (received : d'.current.privateShares.val = d.current.privateShares.val + y) :
      Deposits w w' (.program tx (.depositPrivate depositor signer position amount)) amount.val y

variable {rt : Runtime} {w w' : World} {a : Action}

/-- What a redemption pays its holder, the ledger pays. -/
theorem step_redeems {s x : ℕ} (h : w.step rt a = .ok w') (hs : w.Redeems w' a s x)
    (hfit : w.ledger.Fits a.move) : w.ledger.Redeems s x w'.ledger := by
  cases hs with
  | publicly received =>
    have hexec : w.exec rt _ (.redeem _ _) = .ok w' := h
    obtain ⟨nav, supply, assets, hsells⟩ := exec_redeem_sells hexec
    have hassets := TokenLedger.credit_eq_some.mp hsells.received
    have hpays : Pays w.ledger.vault w.ledger.book.base w.ledger.shielded.base _ assets :=
      ⟨hsells.positive, nav, supply, hsells.price, hsells.quoted⟩
    have hx : x = assets.val := by omega
    rw [hsells.ledger, hx]
    exact .publicly hpays hsells.covered (hfit assets hpays)
  | privately asks opened =>
    obtain ⟨ticket, hticket, hopened⟩ := exec_redeemsPrivate_ticket asks h
    obtain ⟨t, htotal, hledger⟩ := hticket.ledger
    have hsame := hopened _ opened
    subst hsame
    rw [Action.move, Ix.move_of_redeemsPrivate asks] at hfit
    rw [hledger]
    exact .privately hticket.pays htotal (hfit _ hticket.pays)

/-- What a deposit brings its holder, the ledger mints. -/
theorem step_deposits {a₀ y : ℕ} (h : w.step rt a = .ok w') (hs : w.Deposits w' a a₀ y)
    (hfit : w.ledger.Fits a.move) :
    ∃ shares, y ≤ shares ∧ w.ledger.Deposits a₀ shares w'.ledger := by
  cases hs with
  | publicly received =>
    have hexec : w.exec rt _ (.deposit _ _) = .ok w' := h
    obtain ⟨nav, supply, shares, hbuys⟩ := exec_deposit_buys hexec
    have hshares := TokenLedger.credit_eq_some.mp hbuys.received
    have hmints : Mints w.ledger.vault w.ledger.book.base w.ledger.shielded.base _ shares :=
      ⟨hbuys.positive.1, hbuys.positive.2, nav, supply, hbuys.price, hbuys.quoted⟩
    refine ⟨shares.val, by omega, ?_⟩
    rw [hbuys.ledger]
    exact .publicly hmints ⟨hfit.1, hfit.2 shares hmints⟩
  | privately before after received =>
    obtain ⟨shares, hcredits⟩ := execDepositPrivate_credits h
    obtain ⟨d, d', hd, hd', hshares, t, -, hledger⟩ := hcredits.position
    rw [before, Option.some.injEq] at hd
    rw [after, Option.some.injEq] at hd'
    subst hd hd'
    rw [hshares, satAdd_val] at received
    refine ⟨shares.val, by omega, ?_⟩
    rw [hledger]
    exact .privately hcredits.mints ⟨hfit.1, hfit.2 shares hcredits.mints⟩

end World

/-- A step of a run of redemptions that saturates no counter: a redemption with what it pays, or
anything that leaves the book and the flows alone. -/
def RedeemStep (rt : Runtime) : Option (ℕ × ℕ) → World → World → Prop
  | some (s, x), w, w' => ∃ a, w.step rt a = .ok w' ∧ w.Redeems w' a s x ∧
      w.ledger.Fits a.move ∧ w.ledger.ViewsFit
  | none, w, w' => ∃ a, w.step rt a = .ok w' ∧ a.move.republishes = true

/-- The same for deposits. -/
def DepositStep (rt : Runtime) : Option (ℕ × ℕ) → World → World → Prop
  | some (a₀, y), w, w' => ∃ a, w.step rt a = .ok w' ∧ w.Deposits w' a a₀ y ∧
      w.ledger.Fits a.move ∧ w.ledger.ViewsFit
  | none, w, w' => ∃ a, w.step rt a = .ok w' ∧ a.move.republishes = true

/-- Along a run of redemptions each is paid at least its part, and what is left accounts for all. -/
theorem redeemRun_left {rt : Runtime} {w₀ w : World} {N S : ℕ} {flows : List (ℕ × ℕ)} (hS : 0 < S)
    (h₀ : w₀.ledger.Left N S 0 0) (hrun : Runs.Log (RedeemStep rt) w₀ flows w) :
    (∀ f ∈ flows, f.1 * N / S ≤ f.2) ∧
      w.ledger.Left N S (flows.map Prod.snd).sum (flows.map Prod.fst).sum := by
  refine hrun.preserves (I := fun flows w => (∀ f ∈ flows, f.1 * N / S ≤ f.2) ∧
    w.ledger.Left N S (flows.map Prod.snd).sum (flows.map Prod.fst).sum) ⟨by simp, h₀⟩ ?_ ?_
  · rintro flows w w' ⟨hleast, hleft⟩ ⟨a, hstep, ha⟩
    exact ⟨hleast, hleft.republished hS ((World.step_ledger hstep).republished ha)⟩
  · rintro flows ⟨s, x⟩ w w' ⟨hleast, hleft⟩ ⟨a, hstep, hs, hfit, hviews⟩
    obtain ⟨hx, hleft'⟩ := hleft.redeems hS hviews (World.step_redeems hstep hs hfit)
    refine ⟨List.forall_mem_cons.mpr ⟨hx, hleast⟩, ?_⟩
    simpa only [List.map_cons, List.sum_cons, Nat.add_comm] using hleft'

/-- Along a run of deposits each mints at most its part, and so do all of them. -/
theorem depositRun_worth {rt : Runtime} {w₀ w : World} {N S : ℕ} {flows : List (ℕ × ℕ)}
    (h₀ : w₀.ledger.WorthBoth N S) (hrun : Runs.Log (DepositStep rt) w₀ flows w) :
    (∀ f ∈ flows, f.2 * N ≤ f.1 * S) ∧
      (flows.map Prod.snd).sum * N ≤ (flows.map Prod.fst).sum * S ∧ w.ledger.WorthBoth N S := by
  refine hrun.preserves (I := fun flows w => (∀ f ∈ flows, f.2 * N ≤ f.1 * S) ∧
    (flows.map Prod.snd).sum * N ≤ (flows.map Prod.fst).sum * S ∧ w.ledger.WorthBoth N S)
    ⟨by simp, by simp, h₀⟩ ?_ ?_
  · rintro flows w w' ⟨hmost, hsum, hworth⟩ ⟨a, hstep, ha⟩
    exact ⟨hmost, hsum, hworth.republished ((World.step_ledger hstep).republished ha)⟩
  · rintro flows ⟨a₀, y⟩ w w' ⟨hmost, hsum, hworth⟩ ⟨a, hstep, hd, hfit, hviews⟩
    obtain ⟨shares, hle, hdeposits⟩ := World.step_deposits hstep hd hfit
    obtain ⟨hshares, hworth'⟩ := hworth.deposits hviews hdeposits
    have hy : y * N ≤ a₀ * S := (Nat.mul_le_mul_right N hle).trans hshares
    refine ⟨List.forall_mem_cons.mpr ⟨hy, hmost⟩, ?_, hworth'⟩
    simp only [List.map_cons, List.sum_cons, Nat.add_mul]
    exact Nat.add_le_add hy hsum

/-- Splitting and ordering give no advantage: from a NAV of `N` over a supply of `S`, every
redemption of a run is paid at least its floored part whatever came before it, and all of them at
most theirs; every deposit mints at most its floored part, and so do all of them. -/
theorem splitting_gains_nothing {rt : Runtime} {w₀ : World} {N S : U64}
    (hprice : w₀.ledger.PricesBoth N S) (hN : 0 < N.val) (hS : 0 < S.val)
    (hfit : w₀.ledger.ViewsFit) (hsum : w₀.shielded.current.shares.val = w₀.privateShares) :
    (∀ flows w, Runs.Log (RedeemStep rt) w₀ flows w →
      (∀ f ∈ flows, f.1 * N.val / S.val ≤ f.2) ∧
        (flows.map Prod.snd).sum ≤ (flows.map Prod.fst).sum * N.val / S.val) ∧
    (∀ flows w, Runs.Log (DepositStep rt) w₀ flows w →
      (∀ f ∈ flows, f.2 ≤ f.1 * S.val / N.val) ∧
        (flows.map Prod.snd).sum ≤ (flows.map Prod.fst).sum * S.val / N.val) := by
  constructor
  · intro flows w hrun
    obtain ⟨hleast, hleft⟩ := redeemRun_left hS (Ledger.left_start hprice hN hfit hsum) hrun
    exact ⟨hleast, hleft.paid_le hS⟩
  · intro flows w hrun
    obtain ⟨hmost, htotal, -⟩ :=
      depositRun_worth (Ledger.worthBoth_start hprice hN hS hfit) hrun
    exact ⟨fun f hf => (Nat.le_div_iff_mul_le hN).mpr (hmost f hf),
      (Nat.le_div_iff_mul_le hN).mpr htotal⟩

/-- A public and a private deposit of 100 USDC, absorbed, grown for a year and published. -/
def World.grown : World :=
  (World.deployed 1000).after deployment <|
    [.program (.alone [user] 100) (.faucet user),
      .program (.alone [user] 100) (.deposit user 100000000)] ++
    openPrivate ++ delegatePrivate ++ privateDeposit 100000000 ++
    [.program (.alone [authority] 100) (.commitShielded authority),
      .program (.alone [authority] 100) (.absorb authority 200000000 0),
      .program (.alone [user] 31536100) (.tick user)]

/-- The two redemptions. -/
def redeemPart : Action := .program (.alone [user] 31536100) (.redeem user 30000001)

/-- A private redemption of a part. -/
def redeemPrivatePart : Action :=
  .program (.alone [positionOwner] 31536100)
    (.redeemPrivate positionOwner positionOwner ⟨30000001, 1, 0, 0, 1⟩)

/-- Some of the public shares redeemed. -/
def World.redeemedPart : World := World.grown.after deployment [redeemPart]

/-- As many private ones redeemed after that. -/
def World.redeemedParts : World := World.redeemedPart.after deployment [redeemPrivatePart]

/-- It is reached by two redemptions, with what each burned and paid. -/
theorem run_redeemedParts : Runs.Log (RedeemStep deployment) World.grown
    [(30000001, 33000001), (30000001, 33000001)] World.redeemedParts := by
  have hpublic :
      RedeemStep deployment (some (30000001, 33000001)) World.grown World.redeemedPart :=
    ⟨redeemPart, step_after (by decide +kernel), .publicly (by decide +kernel), by decide +kernel,
      by decide +kernel⟩
  have hticket :
      World.redeemedPart.Redeems World.redeemedParts redeemPrivatePart 30000001 33000001 :=
    .privately (o := positionOwner) (r := ⟨30000001, 1, 0, 0, 1⟩)
      (e := ⟨positionOwner, 33000001, 0, 0, 1, 1⟩) rfl (by decide +kernel)
  have hprivate :
      RedeemStep deployment (some (30000001, 33000001)) World.redeemedPart World.redeemedParts :=
    ⟨redeemPrivatePart, step_after (by decide +kernel), hticket, by decide +kernel,
      by decide +kernel⟩
  exact .entry (.entry .nil hpublic) hprivate

/-- Two redemptions at a price of 1.1, and every run of deposits there. -/
theorem splitting_gains_nothing_grown :
    33000001 + 33000001 ≤ (30000001 + 30000001) * 220000000 / 200000000 ∧
      ∀ flows w, Runs.Log (DepositStep deployment) World.grown flows w →
        (flows.map Prod.snd).sum ≤ (flows.map Prod.fst).sum * 200000000 / 220000000 := by
  obtain ⟨hredeem, hdeposit⟩ := @splitting_gains_nothing deployment World.grown 220000000 200000000
    ⟨rfl, rfl⟩ (by decide) (by decide) (by decide +kernel) (by decide +kernel)
  exact ⟨(hredeem _ _ run_redeemedParts).2, fun flows w hrun => (hdeposit flows w hrun).2⟩

end Agama
