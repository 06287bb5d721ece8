import Agama.Lib.SharePrice
import Agama.Receipts
import Agama.Shares

/-!
# Depositing and redeeming at once

A deposit mints at most what the price gives for it, and what it brings into custody raises the NAV
by no more than its amount, so redeeming its shares at once pays at most the amount. Into a pool
without shares the deposit enters at par, and then it also buys the NAV that nobody owns. Such a NAV
is left behind when the last share is redeemed and the pools go on accruing
(`ownerless_deposit_profits`). Without private deposits the supply is what the vault counts, and
that is the supply of agYLD, so it never saturates.
-/

namespace Agama

open SharePrice TokenLedger

/-! ## The price that a deposit leaves -/

/-- There is a NAV, and no share of it. -/
def Ledger.Ownerless (L : Ledger) : Prop :=
  ∃ nav supply, L.pricing = .ok (nav, supply) ∧ supply.val = 0 ∧ nav.val ≠ 0

section Quotes

variable {v : Vault} {b : PoolBook} {s : Shielded}
  {amount nav supply shares nav' supply' assets : U64}

/-- A deposit raises the NAV by its amount at most. -/
theorem nav_deposited_le (hprice : navForPricing v b s = .ok (nav, supply))
    (hprice' : navForPricing (v.deposited shares amount) b s = .ok (nav', supply')) :
    nav'.val ≤ nav.val + amount.val := by
  rw [navForPricing_eq_ok, Prod.mk.injEq] at hprice hprice'
  obtain ⟨-, rfl, -⟩ := hprice
  obtain ⟨-, rfl, -⟩ := hprice'
  refine satSub_le_add (satAdd_le_add (satSub_le_add ?_))
  simp only [Vault.deposited, satAdd_val]
  omega

/-- Sums that fit after a deposit fit before it, as they are no larger. -/
theorem PricingFits.of_deposited (h : PricingFits (v.deposited shares amount) b s) :
    PricingFits v b s := by
  have hin := le_satAdd_left v.totalIn amount
  have hshares := le_satAdd_left v.shares shares
  obtain ⟨⟨fin, fout, fshares⟩, fnav⟩ := h
  simp only [Vault.deposited] at fin fout fshares fnav
  exact ⟨⟨by omega, fout, by omega⟩, by omega⟩

/-- By exactly its amount, where no sum saturates and the NAV was not floored. -/
theorem nav_deposited (hprice : navForPricing v b s = .ok (nav, supply)) (hnav : nav.val ≠ 0)
    (hprice' : navForPricing (v.deposited shares amount) b s = .ok (nav', supply'))
    (hin : v.totalIn.val + amount.val < 2^64)
    (hfit : PricingFits (v.deposited shares amount) b s) :
    nav'.val = nav.val + amount.val := by
  have hbefore := (navForPricing_exact hfit.of_deposited hprice).1
  have hafter := (navForPricing_exact hfit hprice').1
  rw [rawNav_vault_deposited hin] at hafter
  omega

/-- Without private shares, a deposit adds its shares to the supply. -/
theorem supply_deposited (hshielded : s.shares.val = 0) (hfit : v.shares.val + shares.val < 2^64)
    (hprice : navForPricing v b s = .ok (nav, supply))
    (hprice' : navForPricing (v.deposited shares amount) b s = .ok (nav', supply')) :
    supply'.val = supply.val + shares.val := by
  rw [navForPricing_eq_ok, Prod.mk.injEq] at hprice hprice'
  obtain ⟨-, -, rfl⟩ := hprice
  obtain ⟨-, -, rfl⟩ := hprice'
  simp only [Vault.deposited, satAdd_val]
  omega

/-- Unless it buys into a NAV without shares, a deposit pays at least the price for its shares. -/
theorem quoted_mul_le (howned : supply.val = 0 → nav.val = 0)
    (h : sharesFor nav supply amount = .ok shares) :
    shares.val * nav.val ≤ amount.val * supply.val := by
  rcases Nat.eq_zero_or_pos nav.val with hnav | hnav
  · rw [hnav]
    exact Nat.zero_le _
  · have hsupply : supply.val ≠ 0 := fun hs => hnav.ne' (howned hs)
    rw [(sharesFor_eq_ok hsupply hnav.ne').mp h]
    exact Nat.div_mul_le_self _ _

end Quotes

/-! ## The supply -/

/-- Everything but private deposits, and burns of agYLD that the vault does not see. -/
def Action.keepsPublic : Action → Bool
  | .program _ (.depositPrivate _ _ _ _) | .token (.burnAgyld _ _) => false
  | _ => true

/-- Neither copy of the aggregate counts a share. -/
def Ledger.NoPrivateShares (L : Ledger) : Prop :=
  L.shielded.base.shares.val = 0 ∧ L.shielded.current.shares.val = 0

/-- Only a private deposit adds to the aggregate's shares. -/
theorem Ledger.Step.noPrivateShares {L L' : Ledger} {m : Move} (hL : L.NoPrivateShares)
    (hm : ∀ amount, m ≠ .depositPrivate amount) (h : Ledger.Step L m L') :
    L'.NoPrivateShares := by
  have hboth : L.shielded.Both fun s => s.shares.val = 0 := hL
  cases h with
  | depositPrivate => exact absurd rfl (hm _)
  | redeemPrivate pays held total =>
    refine hboth.write ?_
    simp only [Shielded.redeemed, satSub_val]
    rw [hL.2]
    exact Nat.zero_sub _
  | delegateShielded run => exact hboth.delegate run
  | commitShielded run => exact hboth.commit run
  | undelegateShielded run => exact hboth.undelegate run
  | _ => exact hL

/-- The supply that flows are priced on is the supply of agYLD, which the vault counts. -/
structure World.PublicOnly (w : World) : Prop where
  shielded : w.ledger.NoPrivateShares
  counted : w.vault.shares = w.agyldSupply

namespace World

variable {rt : Runtime} {w w' : World}

/-- Without burns that it does not see, the vault counts the supply of agYLD. -/
theorem step_counted {a : Action} (ha : a.keepsPublic = true) (h : w.step rt a = .ok w')
    (hw : w.vault.shares = w.agyldSupply) : w'.vault.shares = w'.agyldSupply := by
  cases a with
  | token t =>
    rw [step, orElse_eq_ok] at h
    cases moved_of_moveTokens h with
    | burnAgyld => cases ha
    | donate | sendUsdc | sendAgyld | shield | sendPrivate | queue | queueUsdc | deliver
    | deliverPrivate | burnUsdc => exact hw
  | program tx ix =>
    change w.exec rt tx ix = .ok w' at h
    cases ix with
    | initializeVault | initBook | migrateBook | initShielded => cases h
    | deposit user amount =>
      obtain ⟨nav, supply, shares, hbuys⟩ := exec_deposit_buys h
      have hvault : w'.vault = w.vault.deposited shares amount :=
        congrArg Ledger.vault hbuys.ledger
      have hminted := credit_eq_some.mp hbuys.minted
      have hlt := w'.agyldSupply.isLt
      apply Fin.ext
      rw [hvault, Vault.deposited, satAdd_val_of_lt (by rw [hw]; omega), hw, hminted]
    | redeem user shares =>
      obtain ⟨nav, supply, assets, hsells⟩ := exec_redeem_sells h
      have hvault : w'.vault = w.vault.redeemed shares assets :=
        congrArg Ledger.vault hsells.ledger
      have hburned := (debit_eq_some.mp hsells.unminted).2
      apply Fin.ext
      rw [hvault, Vault.redeemed, satSub_val, hw, hburned]
    | _ =>
      obtain ⟨hvault, -, hsupply⟩ := (exec_frame h).vault rfl
      rw [hvault, hsupply, hw]

/-- Such a step keeps the supply public. -/
theorem step_publicOnly {a : Action} (ha : a.keepsPublic = true) (h : w.step rt a = .ok w')
    (hw : w.PublicOnly) : w'.PublicOnly := by
  refine ⟨(step_ledger h).noPrivateShares hw.shielded ?_, step_counted ha h hw.counted⟩
  rintro amount hmove
  cases a with
  | token t => cases hmove
  | program tx ix =>
    cases ix with
    | depositPrivate => cases ha
    | _ => cases hmove

end World

/-- A run without private deposits and unseen burns. -/
abbrev PublicRun (rt : Runtime) : World → World → Prop :=
  Relation.ReflTransGen (StepWith rt fun _ a _ => a.keepsPublic = true)

/-- A run of public flow from the start has public flow only. -/
theorem publicRun_publicOnly {rt : Runtime} {authority custodyOwner : Pubkey} {book : PoolBook}
    {w : World} (hrun : PublicRun rt (World.start rt authority custodyOwner book) w) :
    w.PublicOnly :=
  Runs.preserves (I := World.PublicOnly)
    (fun hw ⟨_, ha, hkeeps⟩ => World.step_publicOnly hkeeps ha hw) hrun ⟨⟨rfl, rfl⟩, rfl⟩

/-! ## The round trip -/

/-- A deposit in a public state, and the redemption of its shares in the state that it leaves. -/
theorem World.PublicOnly.round_trip {w w₁ w₂ : World} {user : Pubkey}
    {amount nav supply shares nav' supply' assets : U64} (hw : w.PublicOnly)
    (hbuys : w.Buys user amount nav supply shares w₁)
    (hsells : w₁.Sells user shares nav' supply' assets w₂) :
    nav'.val ≤ nav.val + amount.val ∧
      assets.val = shares.val * nav'.val / (supply.val + shares.val) := by
  have hprice' := hsells.price
  rw [hbuys.ledger] at hprice'
  have hminted := credit_eq_some.mp hbuys.minted
  have hlt := w₁.agyldSupply.isLt
  have hfit : w.vault.shares.val + shares.val < 2^64 := by rw [hw.counted]; omega
  have hsupply := supply_deposited hw.shielded.1 hfit hbuys.price hprice'
  exact ⟨nav_deposited_le hbuys.price hprice',
    by rw [(assetsFor_eq_ok.mp hsells.quoted).2, hsupply]⟩

/-- Redeeming at once what a deposit minted pays at most the amount, unless the deposit found a NAV
without shares; there it pays more. -/
theorem round_trip_profits_iff {rt : Runtime} {authority custodyOwner : Pubkey} {book : PoolBook}
    {w w₁ w₂ : World} {tx tx' : Tx} {user : Pubkey} {amount shares : U64}
    (hrun : PublicRun rt (World.start rt authority custodyOwner book) w)
    (hdeposit : w.exec rt tx (.deposit user amount) = .ok w₁)
    (hminted : (w₁.agyld user).val = (w.agyld user).val + shares.val)
    (hredeem : w₁.exec rt tx' (.redeem user shares) = .ok w₂) :
    (¬ w.ledger.Ownerless → (w₂.usdc user).val ≤ (w₁.usdc user).val + amount.val) ∧
      (w.ledger.Ownerless → w.ledger.Fits (.deposit amount) →
        PricingFits w₁.vault w₁.book.base w₁.shielded.base →
        (w₁.usdc user).val + amount.val < (w₂.usdc user).val) := by
  obtain ⟨nav, supply, shares', hbuys⟩ := World.exec_deposit_buys hdeposit
  obtain ⟨nav', supply', assets, hsells⟩ := World.exec_redeem_sells hredeem
  -- The shares redeemed are the ones that the deposit minted.
  have hreceived := credit_eq_some.mp hbuys.received
  have hsame : shares' = shares := Fin.ext (by omega)
  subst hsame
  obtain ⟨hnav, hassets⟩ := (publicRun_publicOnly hrun).round_trip hbuys hsells
  have hpaid := credit_eq_some.mp hsells.received
  constructor
  · intro howned
    have hquoted : shares'.val * nav.val ≤ amount.val * supply.val := by
      refine quoted_mul_le (fun hsupply => ?_) hbuys.quoted
      by_contra hpositive
      exact howned ⟨nav, supply, hbuys.price, hsupply, hpositive⟩
    have hle := round_trip_le hquoted hnav
    omega
  · rintro ⟨nav₀, supply₀, hprice, hsupply, hpositive⟩ hfits hfit
    rw [hbuys.price, Except.ok.injEq, Prod.mk.injEq] at hprice
    obtain ⟨rfl, rfl⟩ := hprice
    -- At par the shares are the amount, and they are the whole supply.
    have hpar := (sharesFor_of_empty (.inl hsupply)).mp hbuys.quoted
    subst hpar
    have hprice' := hsells.price
    have hvault : w₁.vault = w.vault.deposited shares' shares' :=
      congrArg Ledger.vault hbuys.ledger
    have hbook : w₁.book = w.book := congrArg Ledger.book hbuys.ledger
    have hshielded : w₁.shielded = w.shielded := congrArg Ledger.shielded hbuys.ledger
    rw [hvault, hbook, hshielded] at hfit
    rw [hbuys.ledger] at hprice'
    have hexact := nav_deposited hbuys.price hpositive hprice' hfits.1 hfit
    rw [hsupply, Nat.zero_add, Nat.mul_div_cancel_left _ hbuys.positive.1, hexact] at hassets
    omega

/-- A deposit that the book absorbs and its user redeems, and a year in which its pools go on
accruing. -/
def World.abandoned : World :=
  (World.deployed 1000).after deployment
    [.program (.alone [user] 100) (.faucet user),
      .program (.alone [user] 100) (.deposit user 100000000),
      .program (.alone [authority] 100) (.absorb authority 100000000 0),
      .program (.alone [user] 100) (.redeem user 100000000),
      .program (.alone [user] 31536100) (.tick user),
      .token (.donate user 10000000)]

/-- The same after a deposit of 50 USDC. -/
def World.bought : World :=
  World.abandoned.after deployment [.program (.alone [user] 31536100) (.deposit user 50000000)]

/-- The same after the redemption of its shares. -/
def World.sold : World :=
  World.bought.after deployment [.program (.alone [user] 31536100) (.redeem user 50000000)]

/-- It is reached by public flow. -/
theorem run_abandoned : PublicRun deployment (World.deployed 1000) World.abandoned :=
  run_of_replays (by decide +kernel)

/-- The redemption pays 60 USDC. -/
theorem ownerless_deposit_profits :
    PublicRun deployment (World.deployed 1000) World.abandoned ∧
      World.abandoned.exec deployment (.alone [user] 31536100) (.deposit user 50000000) =
        .ok World.bought ∧
      (World.bought.agyld user).val = (World.abandoned.agyld user).val + 50000000 ∧
      World.bought.exec deployment (.alone [user] 31536100) (.redeem user 50000000) =
        .ok World.sold ∧
      (World.sold.usdc user).val = (World.bought.usdc user).val + 60000000 :=
  ⟨run_abandoned, exec_after (by decide +kernel), by decide +kernel,
    exec_after (by decide +kernel), by decide +kernel⟩

/-- Into the empty deployment a deposit of 50 USDC buys nothing but its own money. -/
theorem round_trip_profits_iff_empty :
    let w := (World.deployed 1000).after deployment [.program (.alone [user] 100) (.faucet user)]
    let w₁ := w.after deployment [.program (.alone [user] 100) (.deposit user 50000000)]
    let w₂ := w₁.after deployment [.program (.alone [user] 100) (.redeem user 50000000)]
    (w₂.usdc user).val ≤ (w₁.usdc user).val + 50000000 := by
  intro w w₁ w₂
  have hrun : PublicRun deployment (World.deployed 1000) w := run_of_replays (by decide +kernel)
  have hdeposit : w.exec deployment (.alone [user] 100) (.deposit user 50000000) = .ok w₁ :=
    exec_after (by decide +kernel)
  have hredeem : w₁.exec deployment (.alone [user] 100) (.redeem user 50000000) = .ok w₂ :=
    exec_after (by decide +kernel)
  refine (round_trip_profits_iff hrun hdeposit (by decide +kernel) hredeem).1 ?_
  rintro ⟨nav, supply, hprice, -, hnav⟩
  have hzero : w.ledger.pricing = .ok (0, 0) := rfl
  rw [hzero, Except.ok.injEq, Prod.mk.injEq] at hprice
  exact hnav (by rw [← hprice.1]; rfl)

end Agama
