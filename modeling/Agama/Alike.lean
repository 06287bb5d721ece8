import Agama.Layers
import Agama.Receipts

/-!
# The two kinds of share

A public `redeem` and a private `open_exit` of the same shares on the same vault, book and
aggregate, where both custodies cover the amount and nothing else is in the way. Both price by
`nav_for_pricing` and pay the same floored quotient, but `open_exit` asks for two things more: that
the quotient is not zero, and that the price of a share fits, which it marks the position at. So the
two agree exactly where the shares are worth a unit and the price fits (`redemptions_alike_iff`).
-/

namespace Agama

open TokenLedger

/-- The accounts of a public and of a private redemption of the same shares, with everything in
order but perhaps the price: `b` and `s` are the book and the aggregate that both read. -/
structure SideBySide (p : PublicFlow) (q : RedeemPrivate) (b : PoolBook) (s : Shielded)
    (r : ExitRequest) (now : ℤ) : Prop where
  vault : q.vault = p.vault
  book : readBook p.book = .ok b ∧ readBook q.book = .ok b
  shielded : readShielded p.shielded = .ok s ∧ q.shielded = s
  /-- Both custodies can cover the amount. -/
  covered : Ensures (paid p.vault b s r.shares) fun assets =>
    assets.val ≤ p.vaultUsdc.val ∧ assets.val ≤ (satSub s.totalIn s.totalOut).val
  /-- The holder has that many shares of each kind. -/
  held : r.shares.val ≤ p.userAgyld.val ∧ r.shares.val ≤ q.position.privateShares.val
  /-- Every agYLD that is held is in the mint's supply, and the vault counts that supply. -/
  counted : p.userAgyld.val ≤ p.agyldMint.val ∧ p.agyldMint.val ≤ p.vault.shares.val
  /-- Two accounts of one mint, whose supply is a `u64`. -/
  usdc : p.userUsdc.val + p.vaultUsdc.val < 2^64
  groupId : 0 < r.groupId.val ∧ r.groupId.val ≤ 0x00FFFFFF
  params : 0 < r.split.val ∧ r.minDelayMs.val ≤ r.maxDelayMs.val ∧
    r.maxDelayMs.val ≤ maxExitDelayMs
  unused : ∀ e ∈ q.exits.slots.toList, e.groupId ≠ r.groupId
  free : (q.exits.slots.toList.find? Exit.isFree).isSome = true
  /-- The position's mark does not overflow. -/
  mark : Ensures (navForPricing p.vault b s) fun x => Ensures (sharePrice x.1 x.2) fun price =>
    (mark { q.position with privateShares := satSub q.position.privateShares r.shares } price
      now).isOk = true

/-- What a public redemption pays and burns. -/
structure PaysOut (p : PublicFlow) (shares assets : U64) (p' : PublicFlow) : Prop where
  received : credit p.userUsdc assets = some p'.userUsdc
  burned : debit p.userAgyld shares = some p'.userAgyld
  vault : p'.vault = p.vault.redeemed shares assets

/-- Both redemptions succeed and pay the same assets, which are not zero, or both refuse. -/
def RedeemAlike (p : PublicFlow) (q : RedeemPrivate) (b : PoolBook) (r : ExitRequest)
    (destination : Pubkey) (now : ℤ) : Prop :=
  (∃ p' e q' ticket, redeem p r.shares = .ok (p', e) ∧ PaysOut p r.shares e.assets p' ∧
    openExit q r destination now = .ok q' ∧ ticket.owner = destination ∧ OpensExit q b r ticket q' ∧
    e.assets = ticket.assets ∧ 0 < e.assets.val) ∨
  (∃ f, redeem p r.shares = .error f) ∧ ∃ f, openExit q r destination now = .error f

/-- Where the shares can be priced, they are worth a unit, and the price of a share fits. -/
def WorthAUnit (v : Vault) (b : PoolBook) (s : Shielded) (shares : U64) : Prop :=
  ∀ nav supply, navForPricing v b s = .ok (nav, supply) → 0 < shares.val →
    shares.val * nav.val / supply.val < 2^64 →
    supply.val ≤ shares.val * nav.val ∧ nav.val * one.val / supply.val < 2^64

/-- A share price that fits is the price. -/
theorem exists_sharePrice {nav supply : U64} (h : nav.val * one.val / supply.val < 2^64) :
    ∃ price, sharePrice nav supply = .ok price := by
  unfold sharePrice
  split
  · exact ⟨_, rfl⟩
  · exact ⟨⟨_, h⟩, tryU64_eq_ok.mpr rfl⟩

/-- The price of a share of a pool that has some is the floored quotient. -/
theorem sharePrice_val {nav supply price : U64} (hs : supply.val ≠ 0)
    (h : sharePrice nav supply = .ok price) : price.val = nav.val * one.val / supply.val := by
  have hs' : supply ≠ 0 := fun h => hs (by rw [h]; rfl)
  rw [sharePrice, if_neg hs', tryU64_eq_ok] at h
  exact h

/-- An exit opens at a share price. -/
theorem openExit_priced {a a' : RedeemPrivate} {r : ExitRequest} {destination : Pubkey} {now : ℤ}
    {b : PoolBook} (hb : readBook a.book = .ok b) (h : openExit a r destination now = .ok a') :
    ∃ nav supply price, navForPricing a.vault b a.shielded = .ok (nav, supply) ∧
      sharePrice nav supply = .ok price := by
  simp only [openExit, hb, bind_eq_ok, Prod.exists, Except.ok.injEq] at h
  obtain ⟨_, -, _, -, _, -, _, -, b', rfl, nav, supply, hnav, _, -, _, -, _, -, price, hprice, -⟩ :=
    h
  exact ⟨nav, supply, price, hnav, hprice⟩

namespace SideBySide

variable {p : PublicFlow} {q : RedeemPrivate} {b : PoolBook} {s : Shielded} {r : ExitRequest}
  {destination : Pubkey} {now : ℤ} {assets : U64}

/-- Whatever the shares are worth, the public redemption pays it. -/
theorem redeem_pays (h : SideBySide p q b s r now) (hpays : Pays p.vault b s r.shares assets) :
    ∃ p' e, redeem p r.shares = .ok (p', e) ∧ PaysOut p r.shares e.assets p' ∧
      e.assets = assets := by
  obtain ⟨hliquid, -⟩ := h.covered assets (paid_eq_ok.mpr hpays)
  obtain ⟨hpos, nav, supply, hnav, hassets⟩ := hpays
  have hheld := h.held.1
  obtain ⟨hmint, hvault⟩ := h.counted
  have husdc := h.usdc
  obtain ⟨userAgyld, hburn⟩ : ∃ x, debit p.userAgyld r.shares = some x := by
    rw [debit, if_pos hheld]
    exact ⟨_, rfl⟩
  obtain ⟨agyldMint, hunmint⟩ : ∃ x, debit p.agyldMint r.shares = some x := by
    rw [debit, if_pos (hheld.trans hmint)]
    exact ⟨_, rfl⟩
  obtain ⟨vaultUsdc, hpaid⟩ : ∃ x, debit p.vaultUsdc assets = some x := by
    rw [debit, if_pos hliquid]
    exact ⟨_, rfl⟩
  obtain ⟨userUsdc, hreceived⟩ : ∃ x, credit p.userUsdc assets = some x := by
    rw [credit, dif_pos (by omega)]
    exact ⟨_, rfl⟩
  let p' : PublicFlow :=
    { p with
      vault := p.vault.redeemed r.shares assets
      userUsdc, userAgyld, vaultUsdc, agyldMint }
  refine ⟨p', ⟨p.user, r.shares, assets, nav⟩, ?_, ⟨hreceived, hburn, rfl⟩, rfl⟩
  simp only [redeem, bind_eq_ok, require_eq_ok, orElse_eq_ok, pure_eq_ok, Prod.exists]
  exact ⟨(), hpos, b, h.book.1, s, h.shielded.1, nav, supply, hnav, (),
    hheld.trans (hmint.trans hvault), assets, hassets, (), hliquid, userAgyld, hburn, agyldMint,
    hunmint, vaultUsdc, hpaid, userUsdc, hreceived, rfl⟩

/-- Where the shares are worth a unit at a price that fits, the private redemption opens a ticket
for them. -/
theorem openExit_pays (h : SideBySide p q b s r now) {nav supply price : U64}
    (hpos : 0 < r.shares.val) (hnav : navForPricing p.vault b s = .ok (nav, supply))
    (hassets : assetsFor nav supply r.shares = .ok assets) (hunit : 0 < assets.val)
    (hprice : sharePrice nav supply = .ok price) :
    ∃ q', openExit q r destination now = .ok q' := by
  have hpays : Pays p.vault b s r.shares assets := ⟨hpos, nav, supply, hnav, hassets⟩
  obtain ⟨-, hheld⟩ := h.covered assets (paid_eq_ok.mpr hpays)
  obtain ⟨slot, hslot⟩ := Option.isSome_iff_exists.mp h.free
  obtain ⟨marked, hmarked⟩ := exists_of_isOk (h.mark (nav, supply) hnav price hprice)
  have hshielded := h.shielded.2
  have hvault := h.vault
  let ticket : Exit := ⟨destination, assets, r.minDelayMs, r.maxDelayMs, r.groupId, r.split⟩
  refine ⟨{ q with
    position := marked
    shielded := s.redeemed r.shares assets
    exits := q.exits.replaceFirst Exit.isFree ticket }, ?_⟩
  simp only [openExit, hvault, hshielded, bind_eq_ok, require_eq_ok, orElse_eq_ok, pure_eq_ok,
    Prod.exists]
  exact ⟨(), hpos, (), h.groupId, (), h.params, (), h.held.2, b, h.book.2, nav, supply, hnav,
    assets, hassets, (), hunit, (), hheld, price, hprice, (), h.unused, slot, hslot, marked,
    hmarked, rfl⟩

/-- A ticket pays what the shares are worth by the accounts that both redemptions read. -/
theorem openExit_paid (h : SideBySide p q b s r now) {q' : RedeemPrivate}
    (hopen : openExit q r destination now = .ok q') :
    ∃ ticket, ticket.owner = destination ∧ OpensExit q b r ticket q' ∧
      Pays p.vault b s r.shares ticket.assets := by
  obtain ⟨ticket, howner, hexit⟩ := openExit_spec (readAccount_eq_ok.mp h.book.2).2 hopen
  have hpays := hexit.pays
  rw [h.vault, h.shielded.2] at hpays
  exact ⟨ticket, howner, hexit, hpays⟩

/-- If the two go alike, shares that can be priced are worth a unit at a price that fits. -/
theorem worthAUnit (h : SideBySide p q b s r now) (halike : RedeemAlike p q b r destination now) :
    WorthAUnit p.vault b s r.shares := by
  intro nav supply hnav hpos hfit
  have hsupply : supply.val ≠ 0 := by
    -- The vault counts the shares, so there is a supply to divide by.
    have hheld := h.held.1.trans (h.counted.1.trans h.counted.2)
    have hcounted := (shares_le_supply hnav).1
    omega
  obtain ⟨p₁, e₁, hred, -, -⟩ := h.redeem_pays
    ⟨hpos, nav, supply, hnav, assetsFor_eq_ok.mpr ⟨hsupply, Fin.val_mk hfit⟩⟩
  rcases halike with ⟨-, -, q', ticket, -, -, hopen, -, hexit, -, -⟩ | ⟨⟨f, hf⟩, -⟩
  · -- The ticket pays the same quotient, and it was opened at a share price.
    obtain ⟨-, nav', supply', hnav', hassets⟩ := hexit.pays
    obtain ⟨nav'', supply'', price, hnav'', hprice⟩ := openExit_priced h.book.2 hopen
    rw [h.vault, h.shielded.2, hnav, Except.ok.injEq, Prod.mk.injEq] at hnav' hnav''
    obtain ⟨rfl, rfl⟩ := hnav'
    obtain ⟨rfl, rfl⟩ := hnav''
    have hunit := hexit.positive
    rw [(assetsFor_eq_ok.mp hassets).2] at hunit
    refine ⟨(Nat.div_pos_iff.mp hunit).2, ?_⟩
    rw [← sharePrice_val hsupply hprice]
    exact price.isLt
  · rw [hf] at hred
    cases hred

/-- Shares that are worth a unit at a price that fits are paid alike. -/
theorem both_pay (h : SideBySide p q b s r now) (hworth : WorthAUnit p.vault b s r.shares)
    (hpays : Pays p.vault b s r.shares assets) : RedeemAlike p q b r destination now := by
  obtain ⟨hpos, nav, supply, hnav, hassets⟩ := id hpays
  obtain ⟨hsupply, hval⟩ := assetsFor_eq_ok.mp hassets
  obtain ⟨hunit, hfit⟩ := hworth nav supply hnav hpos (hval ▸ assets.isLt)
  obtain ⟨price, hprice⟩ := exists_sharePrice hfit
  have hassets_pos : 0 < assets.val := by
    rw [hval]
    exact Nat.div_pos hunit (Nat.pos_of_ne_zero hsupply)
  obtain ⟨p', e, hred, hout, he⟩ := h.redeem_pays hpays
  obtain ⟨q', hopen⟩ : ∃ q', openExit q r destination now = .ok q' :=
    h.openExit_pays hpos hnav hassets hassets_pos hprice
  obtain ⟨ticket, howner, hexit, hticketPays⟩ := h.openExit_paid hopen
  have hticket : ticket.assets = assets :=
    Except.ok.inj ((paid_eq_ok.mpr hticketPays).symm.trans (paid_eq_ok.mpr hpays))
  exact .inl ⟨p', e, q', ticket, hred, hout, hopen, howner, hexit, he.trans hticket.symm,
    he ▸ hassets_pos⟩

/-- Shares that cannot be priced are refused alike. -/
theorem both_refuse (h : SideBySide p q b s r now)
    (hpays : ∀ assets, ¬ Pays p.vault b s r.shares assets) :
    RedeemAlike p q b r destination now := by
  refine .inr ⟨?_, ?_⟩
  · cases hred : redeem p r.shares with
    | error f => exact ⟨f, rfl⟩
    | ok x =>
      obtain ⟨assets, hpaid, -⟩ := redeem_spec (e := x.2) (readAccount_eq_ok.mp h.book.1).2
        (readAccount_eq_ok.mp h.shielded.1).2 hred
      exact absurd hpaid (hpays assets)
  · cases hopen : openExit q r destination now with
    | error f => exact ⟨f, rfl⟩
    | ok q' =>
      obtain ⟨ticket, -, -, hpaid⟩ := h.openExit_paid hopen
      exact absurd hpaid (hpays ticket.assets)

end SideBySide

/-- On such accounts the two redemptions go alike exactly where the shares are worth a unit and the
price of a share fits. -/
theorem redemptions_alike_iff {p : PublicFlow} {q : RedeemPrivate} {b : PoolBook} {s : Shielded}
    {r : ExitRequest} {destination : Pubkey} {now : ℤ} (h : SideBySide p q b s r now) :
    RedeemAlike p q b r destination now ↔ WorthAUnit p.vault b s r.shares := by
  refine ⟨h.worthAUnit, fun hworth => ?_⟩
  by_cases hpays : ∃ assets, Pays p.vault b s r.shares assets
  · obtain ⟨assets, hpays⟩ := hpays
    exact h.both_pay hworth hpays
  · exact h.both_refuse (not_exists.mp hpays)

/-- In a state whose agYLD is backed, the mint and the vault count what a user holds. -/
theorem publicFlow_counted {w : World} (h : w.agyldSide.Backed) (user : Pubkey) :
    (w.publicFlow user).userAgyld.val ≤ (w.publicFlow user).agyldMint.val ∧
      (w.publicFlow user).agyldMint.val ≤ (w.publicFlow user).vault.shares.val :=
  ⟨h.held.le user, h.supply⟩

/-- The accounts of a private redemption by a position's owner, in the enclave. -/
def World.privateFlow (w : World) (p : Position) : RedeemPrivate :=
  ⟨p.owner, p, w.vault, World.info w.book, w.shielded.current, w.exits.current⟩

/-- Both custodies filled, and a share of each kind redeemed. -/
theorem redemptions_alike_iff_devnet :
    ∃ (w : World) (d : Delegable Position), w.positions.lookup positionOwner = some d ∧
      RedeemAlike (w.publicFlow user) (w.privateFlow d.current) w.book.base ⟨1, 2, 0, 0, 1⟩
        positionOwner 200 := by
  let w := World.deployedLayers.after deployment (publicDeposit ++ openPrivate ++
    privateDeposit 100000000 ++ [.program (.alone [authority] 100) (.commitShielded authority)])
  let p : Position := { Agama.initPosition positionOwner devnetVault with
    privateShares := 100000000
    valueUsdc := 100000000
    costBasis := 100000000
    syncedTs := 100
    syncs := 1 }
  have hd : w.positions.lookup positionOwner = some
      ⟨Agama.initPosition positionOwner devnetVault, some p⟩ := by decide +kernel
  have hnext : SideBySide (w.publicFlow user) (w.privateFlow p) w.book.base w.shielded.base
      ⟨1, 2, 0, 0, 1⟩ 200 :=
    ⟨rfl, by decide +kernel, by decide +kernel, by decide +kernel, by decide +kernel,
      by decide +kernel, by decide +kernel, by decide, by decide, by decide +kernel,
      by decide +kernel, by decide +kernel⟩
  refine ⟨w, _, hd, (redemptions_alike_iff hnext).mpr fun nav supply hnav _ _ => ?_⟩
  have hprice : navForPricing (w.publicFlow user).vault w.book.base w.shielded.base =
      .ok (200000000, 200000000) := by decide +kernel
  rw [hprice, Except.ok.injEq, Prod.mk.injEq] at hnav
  obtain ⟨rfl, rfl⟩ := hnav
  decide

/-- Half of a private deposit is redeemed in the enclave at a price of 2, as the committed yield is
shared with it, and then the whole public one on Solana at a price of 3, which leaves 50000000
private shares and no money. Into that a user deposits one unit at par. -/
def hollowPool : List Action :=
  let later := 630720100
  publicDeposit ++ openPrivate ++ privateDeposit 100000000 ++
    [.program (.alone [authority] 100) (.absorb authority 100000000 0),
      .program (.alone [user] later) (.tick user),
      .program (.alone [user] later) (.commitBook user),
      .program (.alone [positionOwner] later)
        (.redeemPrivate positionOwner positionOwner ⟨50000000, 1, 0, 0, 1⟩),
      .token (.donate user 200000000),
      .program (.alone [user] later) (.redeem user 100000000),
      .program (.alone [authority] later) (.commitShielded authority),
      .program (.alone [user] later) (.deposit user 1)]

/-- There one public share is burned for nothing, where one private share is refused. -/
theorem public_share_burned_for_nothing :
    ∃ (w : World) (d : Delegable Position), Run deployment World.deployedLayers w ∧
      w.positions.lookup positionOwner = some d ∧
      SideBySide (w.publicFlow user) (w.privateFlow d.current) w.book.base w.shielded.base
        ⟨1, 2, 0, 0, 1⟩ 630720100 ∧
      (∃ p' e, redeem (w.publicFlow user) 1 = .ok (p', e) ∧
        p'.userAgyld.val + 1 = (w.publicFlow user).userAgyld.val ∧
        p'.userUsdc = (w.publicFlow user).userUsdc) ∧
      openExit (w.privateFlow d.current) ⟨1, 2, 0, 0, 1⟩ positionOwner 630720100 =
        .error (.error .dustDeposit) ∧
      ¬ RedeemAlike (w.publicFlow user) (w.privateFlow d.current) w.book.base ⟨1, 2, 0, 0, 1⟩
        positionOwner 630720100 := by
  let w := World.deployedLayers.after deployment hollowPool
  let p : Position := { Agama.initPosition positionOwner devnetVault with
    privateShares := 50000000
    valueUsdc := 100000000
    costBasis := 50000000
    yieldUsdc := 50000000
    syncedTs := 630720100
    syncs := 2 }
  have hd : w.positions.lookup positionOwner = some
      ⟨Agama.initPosition positionOwner devnetVault, some p⟩ := by decide +kernel
  have hred : (redeem (w.publicFlow user) 1).map (fun x => decide
      (x.1.userAgyld.val + 1 = (w.publicFlow user).userAgyld.val ∧
        x.1.userUsdc = (w.publicFlow user).userUsdc)) = .ok true := by decide +kernel
  obtain ⟨⟨p', e⟩, hredeem, hburned⟩ := exists_of_map_eq_ok hred
  have hopen : openExit (w.privateFlow p) ⟨1, 2, 0, 0, 1⟩ positionOwner 630720100 =
      .error (.error .dustDeposit) :=
    eq_error_of_map (f := fun _ => ()) (by decide +kernel)
  refine ⟨w, _, run_of_replays (by decide +kernel), hd,
    ⟨rfl, by decide +kernel, by decide +kernel, by decide +kernel, by decide +kernel,
      by decide +kernel, by decide +kernel, by decide, by decide, by decide +kernel,
      by decide +kernel, by decide +kernel⟩,
    ⟨p', e, hredeem, of_decide_eq_true hburned⟩, hopen, ?_⟩
  rintro (⟨-, -, q', -, -, -, hok, -⟩ | ⟨⟨f, hf⟩, -⟩)
  · cases hopen.symm.trans hok
  · cases hf.symm.trans hredeem

end Agama
