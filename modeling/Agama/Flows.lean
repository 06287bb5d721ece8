import Agama.Lib.SlotArray
import Agama.Positions

/-!
# Deposits, redemptions and exits

The handlers that move money: `deposit` and `redeem` on Solana, `deposit_private`, `redeem_private`,
`redeem_private_to` and `settle_exit` in the enclave. Every flow is priced by `navForPricing`; what
it mints or pays at that price is `Mints` or `Pays`, and each handler's spec lemma says which price
it used and what it wrote.
-/

namespace Agama

open TokenLedger

/-! ## The counters -/

/-- A deposit's entry in the vault. -/
def Vault.deposited (v : Vault) (shares amount : U64) : Vault :=
  { v with shares := satAdd v.shares shares, totalIn := satAdd v.totalIn amount }

/-- A redemption's entry in the vault. -/
def Vault.redeemed (v : Vault) (shares assets : U64) : Vault :=
  { v with shares := satSub v.shares shares, totalOut := satAdd v.totalOut assets }

/-- A private deposit's entry in the aggregate. -/
def Shielded.deposited (s : Shielded) (shares amount : U64) : Shielded :=
  { s with shares := satAdd s.shares shares, totalIn := satAdd s.totalIn amount }

/-- A private redemption's entry in the aggregate. -/
def Shielded.redeemed (s : Shielded) (shares assets : U64) : Shielded :=
  { s with shares := satSub s.shares shares, totalOut := satAdd s.totalOut assets }

/-! ## The public flows -/

/-- The accounts of `Deposit` and `Redeem`. -/
structure PublicFlow where
  user : Pubkey
  vault : Vault
  book : AccountInfo PoolBook
  shielded : AccountInfo Shielded
  userUsdc : U64
  userAgyld : U64
  vaultUsdc : U64
  /-- The supply of the agYLD mint. -/
  agyldMint : U64

/-- The event that `deposit` emits. -/
structure Deposited where
  user : Pubkey
  assets : U64
  shares : U64
  nav : U64

/-- The event that `redeem` emits. -/
structure Redeemed where
  user : Pubkey
  shares : U64
  assets : U64
  nav : U64

/-- `deposit`. -/
def deposit (a : PublicFlow) (amount : U64) : Result (PublicFlow × Deposited) := do
  require (0 < amount.val) .zeroAmount
  let book ← readBook a.book
  let shielded ← readShielded a.shielded
  let (nav, supply) ← navForPricing a.vault book shielded
  let shares ← sharesFor nav supply amount
  require (0 < shares.val) .dustDeposit
  let userUsdc ← orElse (debit a.userUsdc amount) .external
  let vaultUsdc ← orElse (credit a.vaultUsdc amount) .external
  let agyldMint ← orElse (credit a.agyldMint shares) .external
  let userAgyld ← orElse (credit a.userAgyld shares) .external
  let vault := a.vault.deposited shares amount
  pure ({ a with vault, userUsdc, userAgyld, vaultUsdc, agyldMint },
    ⟨a.user, amount, shares, nav⟩)

/-- `redeem`. -/
def redeem (a : PublicFlow) (shares : U64) : Result (PublicFlow × Redeemed) := do
  require (0 < shares.val) .zeroAmount
  let book ← readBook a.book
  let shielded ← readShielded a.shielded
  let (nav, supply) ← navForPricing a.vault book shielded
  require (shares.val ≤ a.vault.shares.val) .insufficientShares
  let assets ← assetsFor nav supply shares
  require (assets.val ≤ a.vaultUsdc.val) .insufficientLiquidity
  let userAgyld ← orElse (debit a.userAgyld shares) .external
  let agyldMint ← orElse (debit a.agyldMint shares) .external
  let vaultUsdc ← orElse (debit a.vaultUsdc assets) .external
  let userUsdc ← orElse (credit a.userUsdc assets) .external
  let vault := a.vault.redeemed shares assets
  pure ({ a with vault, userUsdc, userAgyld, vaultUsdc, agyldMint },
    ⟨a.user, shares, assets, nav⟩)

/-- The check of `faucet` on the last claim. -/
def faucetReady (claim : FaucetClaim) (now : ℤ) : Result Unit :=
  if claim.lastTs = 0 then .ok ()
  else do
    let elapsed ← i64 (now - claim.lastTs)
    require (faucetCooldownSeconds ≤ elapsed) .faucetCooldown

/-- `faucet`, on the claim, the user's USDC and the supply of the USDC mint. -/
def faucet (user : Pubkey) (claim : FaucetClaim) (now : ℤ) (userUsdc usdcMint : U64) :
    Result (FaucetClaim × U64 × U64) := do
  faucetReady claim now
  let usdcMint ← orElse (credit usdcMint faucetAmount) .external
  let userUsdc ← orElse (credit userUsdc faucetAmount) .external
  pure (⟨user, now⟩, userUsdc, usdcMint)

/-! ## The private flows -/

/-- `DepositPrivate`. -/
structure DepositPrivate where
  depositor : Pubkey
  signer : Pubkey
  position : Position
  vault : Vault
  book : AccountInfo PoolBook
  shielded : Shielded

/-- `deposit_private`. -/
def depositPrivate (rt : Runtime) (tx : Tx) (a : DepositPrivate) (amount : U64) :
    Result DepositPrivate := do
  require (0 < amount.val) .zeroAmount
  assertMayAct a.position a.signer tx.now
  let usdc := a.vault.usdcMint
  -- The program cannot move private tokens, so it reads the transfer that the depositor made.
  let prev ← previousInstruction tx
  assertTokenTransfer prev amount (rt.ata a.depositor usdc) (rt.ata a.shielded.custodyOwner usdc)
    a.depositor
  let book ← readBook a.book
  let (nav, supply) ← navForPricing a.vault book a.shielded
  let shares ← sharesFor nav supply amount
  require (0 < shares.val) .dustDeposit
  let price ← sharePrice nav supply
  let position ← blendEntry a.position shares price
  let position := { position with privateShares := satAdd position.privateShares shares }
  let position ← mark position price tx.now
  pure { a with position, shielded := a.shielded.deposited shares amount }

/-- `RedeemPrivate`. -/
structure RedeemPrivate where
  signer : Pubkey
  position : Position
  vault : Vault
  book : AccountInfo PoolBook
  shielded : Shielded
  exits : ExitBook

/-- The arguments that `redeem_private` and `redeem_private_to` share. -/
structure ExitRequest where
  shares : U64
  groupId : U32
  minDelayMs : U64
  maxDelayMs : U64
  split : U32

/-- Write a value over the first slot that passes a test. -/
def ExitBook.replaceFirst (b : ExitBook) (p : Exit → Bool) (e : Exit) : ExitBook :=
  { b with slots := ⟨SlotArray.replaceFirst p e b.slots.toList, by simp⟩ }

/-- The test for a free slot. -/
def Exit.isFree (e : Exit) : Bool := e.groupId = 0

/-- `open_exit`. -/
def openExit (a : RedeemPrivate) (r : ExitRequest) (destination : Pubkey) (now : ℤ) :
    Result RedeemPrivate := do
  require (0 < r.shares.val) .zeroAmount
  require (0 < r.groupId.val ∧ r.groupId.val ≤ 0x00FFFFFF) .badExitParams
  require (0 < r.split.val ∧ r.minDelayMs.val ≤ r.maxDelayMs.val ∧
    r.maxDelayMs.val ≤ maxExitDelayMs) .badExitParams
  require (r.shares.val ≤ a.position.privateShares.val) .insufficientShares
  let book ← readBook a.book
  let (nav, supply) ← navForPricing a.vault book a.shielded
  let assets ← assetsFor nav supply r.shares
  require (0 < assets.val) .dustDeposit
  -- Tickets that are already open count as paid, so two exits cannot claim the same money.
  let held := satSub a.shielded.totalIn a.shielded.totalOut
  require (assets.val ≤ held.val) .insufficientLiquidity
  let price ← sharePrice nav supply
  require (∀ e ∈ a.exits.slots.toList, e.groupId ≠ r.groupId) .badExitParams
  let _slot ← orElse (a.exits.slots.toList.find? Exit.isFree) (.error .exitBookFull)
  let ticket : Exit := ⟨destination, assets, r.minDelayMs, r.maxDelayMs, r.groupId, r.split⟩
  let exits := a.exits.replaceFirst Exit.isFree ticket
  -- The subtraction is checked in the source; the shares are known to cover it.
  let position := { a.position with privateShares := satSub a.position.privateShares r.shares }
  let position ← mark position price now
  pure { a with position, shielded := a.shielded.redeemed r.shares assets, exits }

/-- `redeem_private`. -/
def redeemPrivate (a : RedeemPrivate) (now : ℤ) (r : ExitRequest) : Result RedeemPrivate := do
  assertMayAct a.position a.signer now
  openExit a r a.position.owner now

/-- `redeem_private_to`. -/
def redeemPrivateTo (a : RedeemPrivate) (now : ℤ) (r : ExitRequest) (payout : Pubkey) :
    Result RedeemPrivate := do
  require (a.signer = a.position.owner) .unauthorized
  require (payout ≠ Pubkey.default) .badExitParams
  openExit a r payout now

/-- `SettleExit`. -/
structure SettleExit where
  vault : Vault
  shielded : Shielded
  exits : ExitBook

/-- The test for the slot of an open ticket. -/
def Exit.isTicket (groupId : U32) (e : Exit) : Bool := e.groupId = groupId ∧ groupId ≠ 0

/-- `settle_exit`. -/
def settleExit (rt : Runtime) (tx : Tx) (a : SettleExit) (groupId : U32) : Result ExitBook := do
  let usdc := a.vault.usdcMint
  let custodyOwner := a.shielded.custodyOwner
  let prev ← previousInstruction tx
  let slot ← orElse (a.exits.slots.toList.find? (Exit.isTicket groupId)) (.error .unknownExit)
  assertPayment rt usdc custodyOwner slot prev
  pure (a.exits.replaceFirst (Exit.isTicket groupId) Exit.default)

/-! ## What the flows do -/

/-- `shares` are what `amount` mints at the price of these accounts. -/
def Mints (v : Vault) (b : PoolBook) (s : Shielded) (amount shares : U64) : Prop :=
  0 < amount.val ∧ 0 < shares.val ∧ ∃ nav supply,
    navForPricing v b s = .ok (nav, supply) ∧ sharesFor nav supply amount = .ok shares

/-- `assets` are what `shares` pay at the price of these accounts. -/
def Pays (v : Vault) (b : PoolBook) (s : Shielded) (shares assets : U64) : Prop :=
  0 < shares.val ∧ ∃ nav supply,
    navForPricing v b s = .ok (nav, supply) ∧ assetsFor nav supply shares = .ok assets

/-- The shares that an amount mints, computed. -/
def minted (v : Vault) (b : PoolBook) (s : Shielded) (amount : U64) : Result U64 := do
  require (0 < amount.val) .zeroAmount
  let (nav, supply) ← navForPricing v b s
  let shares ← sharesFor nav supply amount
  require (0 < shares.val) .dustDeposit
  pure shares

/-- What `deposit` mints, by its conditions. -/
theorem minted_eq_ok {v : Vault} {b : PoolBook} {s : Shielded} {amount shares : U64} :
    minted v b s amount = .ok shares ↔ Mints v b s amount shares := by
  simp only [minted, bind_eq_ok, require_eq_ok, pure_eq_ok, Prod.exists]
  constructor
  · rintro ⟨_, hpos, nav, supply, hprice, _, hshares, _, hdust, rfl⟩
    exact ⟨hpos, hdust, nav, supply, hprice, hshares⟩
  · rintro ⟨hpos, hdust, nav, supply, hprice, hshares⟩
    exact ⟨(), hpos, nav, supply, hprice, shares, hshares, (), hdust, rfl⟩

/-- The assets that shares pay, computed. -/
def paid (v : Vault) (b : PoolBook) (s : Shielded) (shares : U64) : Result U64 := do
  require (0 < shares.val) .zeroAmount
  let (nav, supply) ← navForPricing v b s
  assetsFor nav supply shares

/-- What `redeem` pays, by its conditions. -/
theorem paid_eq_ok {v : Vault} {b : PoolBook} {s : Shielded} {shares assets : U64} :
    paid v b s shares = .ok assets ↔ Pays v b s shares assets := by
  simp only [paid, bind_eq_ok, require_eq_ok, Prod.exists, exists_const, Pays]

/-- `deposit` enters the amount and what it mints into the vault. -/
theorem deposit_spec {a a' : PublicFlow} {amount : U64} {e : Deposited} {b : PoolBook}
    {s : Shielded} (hb : a.book.data = some b) (hs : a.shielded.data = some s)
    (h : deposit a amount = .ok (a', e)) :
    ∃ shares, Mints a.vault b s amount shares ∧ a'.vault = a.vault.deposited shares amount := by
  simp only [deposit, readBook, readShielded, bind_eq_ok, require_eq_ok, readAccount_eq_ok,
    pure_eq_ok, Prod.exists, Prod.mk.injEq] at h
  obtain ⟨_, hpos, b', ⟨-, hb'⟩, s', ⟨-, hs'⟩, nav, supply, hnav, shares, hshares, _, hdust,
    _, -, _, -, _, -, _, -, rfl, -⟩ := h
  rw [hb, Option.some.injEq] at hb'
  rw [hs, Option.some.injEq] at hs'
  subst hb' hs'
  exact ⟨shares, ⟨hpos, hdust, nav, supply, hnav, hshares⟩, rfl⟩

/-- `redeem` enters the shares and what they pay into the vault, which covers both. -/
theorem redeem_spec {a a' : PublicFlow} {shares : U64} {e : Redeemed} {b : PoolBook}
    {s : Shielded} (hb : a.book.data = some b) (hs : a.shielded.data = some s)
    (h : redeem a shares = .ok (a', e)) :
    ∃ assets, Pays a.vault b s shares assets ∧ shares.val ≤ a.vault.shares.val ∧
      a'.vault = a.vault.redeemed shares assets := by
  simp only [redeem, readBook, readShielded, bind_eq_ok, require_eq_ok, readAccount_eq_ok,
    pure_eq_ok, Prod.exists, Prod.mk.injEq] at h
  obtain ⟨_, hpos, b', ⟨-, hb'⟩, s', ⟨-, hs'⟩, nav, supply, hnav, _, hshares, assets, hassets,
    _, -, _, -, _, -, _, -, _, -, rfl, -⟩ := h
  rw [hb, Option.some.injEq] at hb'
  rw [hs, Option.some.injEq] at hs'
  subst hb' hs'
  exact ⟨assets, ⟨hpos, nav, supply, hnav, hassets⟩, hshares, rfl⟩

/-- What a private deposit establishes: who acted, which transfer it read, and what it wrote. -/
structure PrivateDeposit (rt : Runtime) (tx : Tx) (a : DepositPrivate) (b : PoolBook)
    (amount shares : U64) (a' : DepositPrivate) : Prop where
  mayAct : MayAct a.position a.signer tx.now
  transfer : ∃ prev, previousInstruction tx = .ok prev ∧
    assertTokenTransfer prev amount (rt.ata a.depositor a.vault.usdcMint)
      (rt.ata a.shielded.custodyOwner a.vault.usdcMint) a.depositor = .ok ()
  mints : Mints a.vault b a.shielded amount shares
  shielded : a'.shielded = a.shielded.deposited shares amount
  owner : a'.position.owner = a.position.owner
  privateShares : a'.position.privateShares = satAdd a.position.privateShares shares
  sessionKey : a'.position.sessionKey = a.position.sessionKey
  sessionExpiry : a'.position.sessionExpiry = a.position.sessionExpiry

/-- `deposit_private` credits the amount of the transfer before it, at the price of the live
aggregate. -/
theorem depositPrivate_spec {rt : Runtime} {tx : Tx} {a a' : DepositPrivate} {amount : U64}
    {b : PoolBook} (hb : a.book.data = some b) (h : depositPrivate rt tx a amount = .ok a') :
    ∃ shares, PrivateDeposit rt tx a b amount shares a' := by
  simp only [depositPrivate, readBook, bind_eq_ok, require_eq_ok, readAccount_eq_ok, pure_eq_ok,
    Prod.exists] at h
  obtain ⟨_, hpos, _, hmay, prev, hprev, _, htransfer, b', ⟨-, hb'⟩, nav, supply, hnav, shares,
    hshares, _, hdust, price, -, p, hp, q, hq, rfl⟩ := h
  rw [hb, Option.some.injEq] at hb'
  subst hb'
  have hblend := blendEntry_spec hp
  have hmark := mark_spec hq
  exact ⟨shares,
    { mayAct := assertMayAct_mayAct hmay
      transfer := ⟨prev, hprev, htransfer⟩
      mints := ⟨hpos, hdust, nav, supply, hnav, hshares⟩
      shielded := rfl
      owner := hmark.owner.trans hblend.owner
      privateShares := hmark.privateShares.trans (by rw [hblend.privateShares])
      sessionKey := hmark.sessionKey.trans hblend.sessionKey
      sessionExpiry := hmark.sessionExpiry.trans hblend.sessionExpiry }⟩

/-- What opening an exit establishes: the shares it burns and pays, and the ticket that it writes
over a free slot under an unused id. -/
structure OpensExit (a : RedeemPrivate) (b : PoolBook) (r : ExitRequest) (ticket : Exit)
    (a' : RedeemPrivate) : Prop where
  pays : Pays a.vault b a.shielded r.shares ticket.assets
  held : ticket.assets.val + a.shielded.totalOut.val ≤ a.shielded.totalIn.val
  positive : 0 < ticket.assets.val
  groupId : ticket.groupId = r.groupId
  inRange : 0 < ticket.groupId.val ∧ ticket.groupId.val ≤ 0x00FFFFFF
  unused : ∀ e ∈ a.exits.slots.toList, e.groupId ≠ ticket.groupId
  free : ∃ slot, a.exits.slots.toList.find? Exit.isFree = some slot
  exits : a'.exits = a.exits.replaceFirst Exit.isFree ticket
  shielded : a'.shielded = a.shielded.redeemed r.shares ticket.assets
  burned : a'.position.privateShares.val + r.shares.val = a.position.privateShares.val
  owner : a'.position.owner = a.position.owner
  sessionKey : a'.position.sessionKey = a.position.sessionKey
  sessionExpiry : a'.position.sessionExpiry = a.position.sessionExpiry

/-- `open_exit` burns the shares and opens a ticket to the destination for what they pay. -/
theorem openExit_spec {a a' : RedeemPrivate} {r : ExitRequest} {destination : Pubkey} {now : ℤ}
    {b : PoolBook} (hb : a.book.data = some b) (h : openExit a r destination now = .ok a') :
    ∃ ticket, ticket.owner = destination ∧ OpensExit a b r ticket a' := by
  simp only [openExit, readBook, bind_eq_ok, require_eq_ok, readAccount_eq_ok, orElse_eq_ok,
    pure_eq_ok, Prod.exists] at h
  obtain ⟨_, hpos, _, hid, _, -, _, hshares, b', ⟨-, hb'⟩, nav, supply, hnav, assets, hassets, _,
    hdust, _, hheld, price, -, _, hunused, slot, hslot, p, hp, rfl⟩ := h
  rw [hb, Option.some.injEq] at hb'
  subst hb'
  have hmark := mark_spec hp
  rw [satSub_val] at hheld
  refine ⟨⟨destination, assets, r.minDelayMs, r.maxDelayMs, r.groupId, r.split⟩, rfl,
    { pays := ⟨hpos, nav, supply, hnav, hassets⟩
      held := ?_
      positive := hdust
      groupId := rfl
      inRange := hid
      unused := hunused
      free := ⟨slot, hslot⟩
      exits := rfl
      shielded := rfl
      burned := ?_
      owner := hmark.owner
      sessionKey := hmark.sessionKey
      sessionExpiry := hmark.sessionExpiry }⟩
  · simp only
    omega
  · simp only [hmark.privateShares, satSub_val]
    omega

/-- `redeem_private` opens an exit to the owner, for whoever may act. -/
theorem redeemPrivate_spec {a a' : RedeemPrivate} {now : ℤ} {r : ExitRequest} {b : PoolBook}
    (hb : a.book.data = some b) (h : redeemPrivate a now r = .ok a') :
    MayAct a.position a.signer now ∧
      ∃ ticket, ticket.owner = a.position.owner ∧ OpensExit a b r ticket a' := by
  simp only [redeemPrivate, bind_eq_ok] at h
  obtain ⟨_, hmay, hopen⟩ := h
  exact ⟨assertMayAct_mayAct hmay, openExit_spec hb hopen⟩

/-- `redeem_private_to` opens an exit to any destination, for the owner only. -/
theorem redeemPrivateTo_spec {a a' : RedeemPrivate} {now : ℤ} {r : ExitRequest} {payout : Pubkey}
    {b : PoolBook} (hb : a.book.data = some b) (h : redeemPrivateTo a now r payout = .ok a') :
    a.signer = a.position.owner ∧ ∃ ticket, ticket.owner = payout ∧ OpensExit a b r ticket a' := by
  simp only [redeemPrivateTo, bind_eq_ok, require_eq_ok] at h
  obtain ⟨_, howner, _, -, hopen⟩ := h
  exact ⟨howner, openExit_spec hb hopen⟩

/-- `settle_exit` frees the slot of an open ticket, next to its payment. -/
theorem settleExit_spec {rt : Runtime} {tx : Tx} {a : SettleExit} {groupId : U32} {x : ExitBook}
    (h : settleExit rt tx a groupId = .ok x) :
    ∃ slot prev, a.exits.slots.toList.find? (Exit.isTicket groupId) = some slot ∧
      previousInstruction tx = .ok prev ∧
      assertPayment rt a.vault.usdcMint a.shielded.custodyOwner slot prev = .ok () ∧
      x = a.exits.replaceFirst (Exit.isTicket groupId) Exit.default := by
  simp only [settleExit, bind_eq_ok, orElse_eq_ok, pure_eq_ok] at h
  obtain ⟨prev, hprev, slot, hslot, _, hpay, rfl⟩ := h
  exact ⟨slot, prev, hslot, hprev, hpay, rfl⟩

end Agama
