import Agama.Book

/-!
# Pricing

The NAV and the share supply that every deposit and redemption prices on, and the marks that a
position keeps of its shares. `bookCapital` is the part of the NAV that the book contributes, its
own NAV with its marks taken out. The price of an accepted book is `bookCapital` plus the money that
went through both custodies, as long as no sum saturates and the result is not negative
(`navForPricing_exact`).
-/

namespace Agama

/-- `nav_for_pricing`: the NAV in USDC, and the share supply that it is divided by. -/
def navForPricing (vault : Vault) (book : PoolBook) (shielded : Shielded) : Result (U64 × U64) := do
  let totalIn := satAdd vault.totalIn shielded.totalIn
  let totalOut := satAdd vault.totalOut shielded.totalOut
  require (book.markedIn.val ≤ totalIn.val ∧ book.markedOut.val ≤ totalOut.val) .bookAheadOfVault
  -- Money that no pool has yet counts at par, and money paid out but not unmarked is taken off.
  let unmarked := satSub totalIn book.markedIn
  let unreturned := satSub totalOut book.markedOut
  let nav := satSub (satAdd book.nav unmarked) unreturned
  pure (nav, satAdd vault.shares shielded.shares)

/-- The shares that a deposit mints. -/
def sharesFor (nav supply amount : U64) : Result U64 :=
  -- Into an empty pool the deposit enters at par.
  if supply = 0 ∨ nav = 0 then .ok amount
  else tryU64 (amount.val * supply.val / nav.val)

/-- The USDC that a redemption pays. -/
def assetsFor (nav supply shares : U64) : Result U64 := do
  let assets ← udiv (shares.val * nav.val) supply.val
  tryU64 assets

/-- `share_price`, 6 decimals. -/
def sharePrice (nav supply : U64) : Result U64 :=
  if supply = 0 then .ok one else tryU64 (nav.val * one.val / supply.val)

/-- `blend_entry`: fold `added` new shares bought at `price` into the average entry. -/
def blendEntry (position : Position) (added price : U64) : Result Position := do
  let before := satAdd position.shares position.privateShares
  let after := satAdd before added
  if after = 0 then pure position
  else
    let weighted ← u128 (position.entryPrice.val * before.val + price.val * added.val)
    let entryPrice ← tryU64 (weighted / after.val)
    pure { position with entryPrice }

/-- `mark`: re-mark value, cost basis and yield over public and private shares together. -/
def mark (position : Position) (price : U64) (now : ℤ) : Result Position := do
  let total := satAdd position.shares position.privateShares
  let valueUsdc ← tryU64 (total.val * price.val / one.val)
  let costBasis ← tryU64 (total.val * position.entryPrice.val / one.val)
  pure { position with
    valueUsdc
    costBasis
    yieldUsdc := satSub valueUsdc costBasis
    syncedTs := now
    syncs := satAdd position.syncs 1 }

/-! ## What the functions return -/

/-- The NAV that the book contributes to the price: its own, less what went in, plus what went
out. -/
def bookCapital (b : PoolBook) : ℤ := b.nav.val - b.markedIn.val + b.markedOut.val

/-- The money that went through the vault's custody and stayed. -/
def Vault.net (v : Vault) : ℤ := v.totalIn.val - v.totalOut.val

/-- The money that went through the private custody and stayed. -/
def Shielded.net (s : Shielded) : ℤ := s.totalIn.val - s.totalOut.val

/-- The NAV before it is floored at zero: the book's capital and the money in both custodies. -/
def rawNav (v : Vault) (b : PoolBook) (s : Shielded) : ℤ := bookCapital b + v.net + s.net

/-- The public and the private shares. -/
def shareSupply (v : Vault) (s : Shielded) : ℕ := v.shares.val + s.shares.val

/-- Neither combined total that pricing forms saturates, nor does the supply. -/
structure TotalsFit (v : Vault) (s : Shielded) : Prop where
  totalIn : v.totalIn.val + s.totalIn.val < 2^64
  totalOut : v.totalOut.val + s.totalOut.val < 2^64
  shares : v.shares.val + s.shares.val < 2^64

/-- None of the sums that pricing forms saturates. -/
structure PricingFits (v : Vault) (b : PoolBook) (s : Shielded) : Prop extends TotalsFit v s where
  nav : b.nav.val + (v.totalIn.val + s.totalIn.val - b.markedIn.val) < 2^64

instance (v : Vault) (b : PoolBook) (s : Shielded) : Decidable (PricingFits v b s) :=
  decidable_of_iff
    ((v.totalIn.val + s.totalIn.val < 2^64 ∧ v.totalOut.val + s.totalOut.val < 2^64 ∧
      v.shares.val + s.shares.val < 2^64) ∧
      b.nav.val + (v.totalIn.val + s.totalIn.val - b.markedIn.val) < 2^64)
    ⟨fun h => ⟨⟨h.1.1, h.1.2.1, h.1.2.2⟩, h.2⟩,
      fun h => ⟨⟨h.totalIn, h.totalOut, h.shares⟩, h.nav⟩⟩

/-- Neither mark is ahead of the custodies' combined total. -/
def WithinTotals (v : Vault) (b : PoolBook) (s : Shielded) : Prop :=
  b.markedIn.val ≤ (satAdd v.totalIn s.totalIn).val ∧
    b.markedOut.val ≤ (satAdd v.totalOut s.totalOut).val

/-- Pricing accepts the book when it is behind both custodies, and then returns these two sums. -/
theorem navForPricing_eq_ok {v : Vault} {b : PoolBook} {s : Shielded} {r : U64 × U64} :
    navForPricing v b s = .ok r ↔ WithinTotals v b s ∧
      (satSub (satAdd b.nav (satSub (satAdd v.totalIn s.totalIn) b.markedIn))
          (satSub (satAdd v.totalOut s.totalOut) b.markedOut),
        satAdd v.shares s.shares) = r := by
  simp only [navForPricing, bind_eq_ok, require_eq_ok, pure_eq_ok, exists_const, WithinTotals]

/-- The supply counts the vault's shares and the aggregate's. -/
theorem shares_le_supply {v : Vault} {b : PoolBook} {s : Shielded} {nav supply : U64}
    (h : navForPricing v b s = .ok (nav, supply)) :
    v.shares.val ≤ supply.val ∧ s.shares.val ≤ supply.val := by
  rw [navForPricing_eq_ok, Prod.mk.injEq] at h
  obtain ⟨-, -, rfl⟩ := h
  rw [satAdd_val]
  omega

/-- Pricing rejects a book that is ahead of both custodies on either side. -/
theorem navForPricing_rejects {v : Vault} {b : PoolBook} {s : Shielded}
    (h : v.totalIn.val + s.totalIn.val < b.markedIn.val ∨
      v.totalOut.val + s.totalOut.val < b.markedOut.val) :
    navForPricing v b s = .error (.error .bookAheadOfVault) := by
  have hnot : ¬ (b.markedIn.val ≤ (satAdd v.totalIn s.totalIn).val ∧
      b.markedOut.val ≤ (satAdd v.totalOut s.totalOut).val) := by
    simp only [satAdd_val]
    omega
  simp only [navForPricing, require, if_neg hnot]
  rfl

/-- Pricing accepts exactly the books that are behind both custodies. -/
theorem navForPricing_accepts {v : Vault} {b : PoolBook} {s : Shielded} :
    (∃ r, navForPricing v b s = .ok r) ↔ WithinTotals v b s := by
  simp only [navForPricing_eq_ok, exists_and_left, exists_eq', and_true]

/-- Without saturation, the price counts the book's capital and the money in both custodies, floored
at zero, over both kinds of share. -/
theorem navForPricing_exact {v : Vault} {b : PoolBook} {s : Shielded} {nav supply : U64}
    (hfit : PricingFits v b s) (h : navForPricing v b s = .ok (nav, supply)) :
    (nav.val : ℤ) = max 0 (rawNav v b s) ∧ supply.val = shareSupply v s := by
  rw [navForPricing_eq_ok, Prod.mk.injEq] at h
  obtain ⟨⟨hin, hout⟩, rfl, rfl⟩ := h
  obtain ⟨⟨fin, fout, fshares⟩, fnav⟩ := hfit
  -- The book is behind, so both differences are exact, and only the last one is floored at zero.
  simp only [satAdd_val] at hin hout
  simp only [satSub_val, satAdd_val, rawNav, shareSupply, bookCapital, Vault.net, Shielded.net]
  omega

/-- The shares that a nonempty pool mints are the floored quotient. -/
theorem sharesFor_eq_ok {nav supply amount shares : U64} (hs : supply.val ≠ 0) (hn : nav.val ≠ 0) :
    sharesFor nav supply amount = .ok shares ↔
      shares.val = amount.val * supply.val / nav.val := by
  have hs' : supply ≠ 0 := fun h => hs (by rw [h]; rfl)
  have hn' : nav ≠ 0 := fun h => hn (by rw [h]; rfl)
  rw [sharesFor, if_neg (by simp [hs', hn']), tryU64_eq_ok]

/-- The shares that a pool without shares or without NAV mints are the amount. -/
theorem sharesFor_of_empty {nav supply amount shares : U64} (h : supply.val = 0 ∨ nav.val = 0) :
    sharesFor nav supply amount = .ok shares ↔ shares = amount := by
  have h' : supply = 0 ∨ nav = 0 := h.imp Fin.ext Fin.ext
  rw [sharesFor, if_pos h', Except.ok.injEq]
  exact eq_comm

/-- A redemption pays the floored quotient. -/
@[simp]
theorem assetsFor_eq_ok {nav supply shares assets : U64} :
    assetsFor nav supply shares = .ok assets ↔
      supply.val ≠ 0 ∧ assets.val = shares.val * nav.val / supply.val := by
  simp only [assetsFor, bind_eq_ok, udiv_eq_ok, tryU64_eq_ok]
  constructor
  · rintro ⟨_, ⟨hs, rfl⟩, ha⟩
    exact ⟨hs, ha⟩
  · rintro ⟨hs, ha⟩
    exact ⟨_, ⟨hs, rfl⟩, ha⟩

/-- What re-marking and blending leave alone: everything but the entry price and the marks. -/
structure SameLedger (p p' : Position) : Prop where
  owner : p'.owner = p.owner
  shares : p'.shares = p.shares
  privateShares : p'.privateShares = p.privateShares
  isPrivate : p'.isPrivate = p.isPrivate
  sessionKey : p'.sessionKey = p.sessionKey
  sessionExpiry : p'.sessionExpiry = p.sessionExpiry

/-- `blend_entry` moves the entry price only. -/
theorem blendEntry_spec {p p' : Position} {added price : U64}
    (h : blendEntry p added price = .ok p') : SameLedger p p' := by
  simp only [blendEntry] at h
  split at h
  · -- Without a share there is nothing to average over.
    rw [pure_eq_ok] at h
    subst h
    exact ⟨rfl, rfl, rfl, rfl, rfl, rfl⟩
  · simp only [bind_eq_ok, pure_eq_ok] at h
    obtain ⟨-, -, -, -, rfl⟩ := h
    exact ⟨rfl, rfl, rfl, rfl, rfl, rfl⟩

/-- `mark` moves the marks only. -/
theorem mark_spec {p p' : Position} {price : U64} {now : ℤ} (h : mark p price now = .ok p') :
    SameLedger p p' := by
  simp only [mark, bind_eq_ok, pure_eq_ok] at h
  obtain ⟨-, -, -, -, rfl⟩ := h
  exact ⟨rfl, rfl, rfl, rfl, rfl, rfl⟩

end Agama
