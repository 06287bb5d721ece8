import Agama.Lib.RunningMean
import Agama.Price

/-!
# The entry price

A position keeps one average entry price over its public and its private shares. Private shares are
blended in when they are minted, public ones when a sync finds that the owner's agYLD has grown, and
nothing else touches the average: not a redemption, not agYLD that left, not a sync that finds no
change. So along any run of the calls that write a position's shares the kept price is the floored
running mean of `RunningMean`, of the lots that were blended in since the position was last empty.
-/

namespace Agama

open RunningMean

/-- The shares of both kinds that a position counts. -/
def Position.total (p : Position) : ℕ := p.shares.val + p.privateShares.val

/-- The share price that a call finds in its accounts. -/
def priceFound (v : Vault) (b : AccountInfo PoolBook) (s : Shielded) : Result U64 := do
  let book ← readBook b
  let (nav, supply) ← navForPricing v book s
  sharePrice nav supply

/-- A call on a position, with the lot that it blends in: how many shares, at which price. -/
inductive Position.Call (p : Position) : Option (ℕ × ℕ) → Position → Prop
  | depositPrivate {rt : Runtime} {tx : Tx} {a a' : DepositPrivate} {b : PoolBook}
      {amount shares price : U64} (own : a.position = p) (book : a.book.data = some b)
      (run : Agama.depositPrivate rt tx a amount = .ok a')
      (mints : Mints a.vault b a.shielded amount shares)
      (found : priceFound a.vault a.book a.shielded = .ok price) :
      Call p (some (shares.val, price.val)) a'.position
  | redeemPrivate {a a' : RedeemPrivate} {now : ℤ} {r : ExitRequest} (own : a.position = p)
      (run : Agama.redeemPrivate a now r = .ok a') : Call p none a'.position
  | redeemPrivateTo {a a' : RedeemPrivate} {now : ℤ} {r : ExitRequest} {payout : Pubkey}
      (own : a.position = p) (run : Agama.redeemPrivateTo a now r payout = .ok a') :
      Call p none a'.position
  /-- More agYLD than at the last sync. -/
  | syncGrown {a : SyncPosition} {now : ℤ} {p' : Position} {price : U64} (own : a.position = p)
      (run : syncPosition a now = .ok p')
      (found : priceFound a.vault a.book a.shielded = .ok price)
      (grown : p.shares.val < (a.ownerAgyld.getD 0).val) :
      Call p (some ((a.ownerAgyld.getD 0).val - p.shares.val, price.val)) p'
  | syncKept {a : SyncPosition} {now : ℤ} {p' : Position} (own : a.position = p)
      (run : syncPosition a now = .ok p')
      (kept : (a.ownerAgyld.getD 0).val ≤ p.shares.val) : Call p none p'

/-! ## What each call does to the average -/

/-- A lot that fits is averaged in, rounded down. -/
theorem blendEntry_entryPrice {p p' : Position} {added price : U64} (hadded : 0 < added.val)
    (hfit : p.total + added.val < 2^64) (h : blendEntry p added price = .ok p') :
    p'.entryPrice.val = floored p.entryPrice.val p.total added.val price.val := by
  have hbefore : (satAdd p.shares p.privateShares).val = p.total := by
    unfold Position.total at *
    exact satAdd_val_of_lt (by omega)
  have hafter : (satAdd (satAdd p.shares p.privateShares) added).val = p.total + added.val := by
    rw [satAdd_val_of_lt (by omega), hbefore]
  simp only [blendEntry] at h
  split at h
  · rename_i hzero
    rw [hzero, Fin.val_zero] at hafter
    omega
  · simp only [bind_eq_ok, u128_eq_ok, tryU64_eq_ok, pure_eq_ok] at h
    obtain ⟨weighted, ⟨-, rfl⟩, entry, hentry, rfl⟩ := h
    rw [hentry, hbefore, hafter, floored]

/-- The marks leave the average alone. -/
theorem mark_entryPrice {p p' : Position} {price : U64} {now : ℤ} (h : mark p price now = .ok p') :
    p'.entryPrice = p.entryPrice := by
  simp only [mark, bind_eq_ok, pure_eq_ok] at h
  obtain ⟨-, -, -, -, rfl⟩ := h
  rfl

/-- What a call does to the shares and to the average: it blends its lot in, or it leaves the
average and adds no share. -/
def Blends (p : Position) (lot : Option (ℕ × ℕ)) (p' : Position) : Prop :=
  match lot with
  | some (added, price) => 0 < added ∧ p'.total = p.total + added ∧
      p'.entryPrice.val = floored p.entryPrice.val p.total added price
  | none => p'.total ≤ p.total ∧ p'.entryPrice = p.entryPrice

/-- A private deposit blends the shares that it mints in at the price that it found. -/
theorem depositPrivate_blends {rt : Runtime} {tx : Tx} {a a' : DepositPrivate} {b : PoolBook}
    {amount shares price : U64} (hb : a.book.data = some b)
    (mints : Mints a.vault b a.shielded amount shares)
    (found : priceFound a.vault a.book a.shielded = .ok price)
    (hfit : a.position.total + shares.val < 2^64) (h : depositPrivate rt tx a amount = .ok a') :
    Blends a.position (some (shares.val, price.val)) a'.position := by
  simp only [priceFound, readBook, bind_eq_ok, readAccount_eq_ok, Prod.exists] at found
  obtain ⟨b₁, ⟨-, hb₁⟩, nav₁, supply₁, hnav₁, hprice₁⟩ := found
  obtain ⟨-, hpos, nav₂, supply₂, hnav₂, hshares₂⟩ := mints
  simp only [depositPrivate, readBook, bind_eq_ok, require_eq_ok, readAccount_eq_ok, pure_eq_ok,
    Prod.exists] at h
  obtain ⟨_, -, _, -, prev, -, _, -, b', ⟨-, hb'⟩, nav, supply, hnav, shares', hshares, _, -,
    price', hprice, p, hp, q, hq, rfl⟩ := h
  -- The quantities that the call computes are those of the label.
  rw [hb, Option.some.injEq] at hb₁ hb'
  subst hb₁ hb'
  rw [hnav, Except.ok.injEq, Prod.mk.injEq] at hnav₁ hnav₂
  obtain ⟨rfl, rfl⟩ := hnav₁
  obtain ⟨rfl, rfl⟩ := hnav₂
  rw [hprice, Except.ok.injEq] at hprice₁
  rw [hshares, Except.ok.injEq] at hshares₂
  subst hprice₁ hshares₂
  have hblend := blendEntry_spec hp
  have hmark := mark_spec hq
  refine ⟨hpos, ?_, ?_⟩
  · have hprivate : (satAdd a.position.privateShares shares').val =
        a.position.privateShares.val + shares'.val := by
      unfold Position.total at hfit
      exact satAdd_val_of_lt (by omega)
    simp only [Position.total, hmark.shares, hmark.privateShares, hblend.shares,
      hblend.privateShares, hprivate]
    omega
  · have hentry := mark_entryPrice hq
    simp only at hentry
    rw [hentry]
    exact blendEntry_entryPrice hpos hfit hp

/-- A redemption blends nothing in. -/
theorem openExit_blends {a a' : RedeemPrivate} {r : ExitRequest} {destination : Pubkey} {now : ℤ}
    (h : openExit a r destination now = .ok a') : Blends a.position none a'.position := by
  simp only [openExit, bind_eq_ok, pure_eq_ok, Prod.exists] at h
  obtain ⟨_, -, _, -, _, -, _, -, b, -, nav, supply, -, assets, -, _, -, _, -, price, -, _, -,
    slot, -, p, hp, rfl⟩ := h
  have hmark := mark_spec hp
  have hentry := mark_entryPrice hp
  refine ⟨?_, hentry⟩
  simp only [Position.total, hmark.shares, hmark.privateShares, satSub_val]
  omega

/-- A sync that finds more agYLD blends in what arrived. -/
theorem syncPosition_grown {a : SyncPosition} {now : ℤ} {p' : Position} {price : U64}
    (found : priceFound a.vault a.book a.shielded = .ok price)
    (grown : a.position.shares.val < (a.ownerAgyld.getD 0).val)
    (hfit : a.position.total + ((a.ownerAgyld.getD 0).val - a.position.shares.val) < 2^64)
    (h : syncPosition a now = .ok p') :
    Blends a.position (some ((a.ownerAgyld.getD 0).val - a.position.shares.val, price.val)) p' := by
  simp only [priceFound, bind_eq_ok, Prod.exists] at found
  obtain ⟨b, hb, nav, supply, hnav, hprice⟩ := found
  simp only [syncPosition, bind_eq_ok, Prod.exists] at h
  obtain ⟨_, -, b', hb', nav', supply', hnav', price', hprice', q, hq, hmark⟩ := h
  rw [hb, Except.ok.injEq] at hb'
  subst hb'
  rw [hnav, Except.ok.injEq, Prod.mk.injEq] at hnav'
  obtain ⟨rfl, rfl⟩ := hnav'
  rw [hprice, Except.ok.injEq] at hprice'
  subst hprice'
  rw [blendArrived, if_pos grown] at hq
  have hblend := blendEntry_spec hq
  have hsame := mark_spec hmark
  have hentry := mark_entryPrice hmark
  simp only at hentry
  refine ⟨by omega, ?_, ?_⟩
  · simp only [Position.total, hsame.shares, hsame.privateShares, hblend.privateShares]
    omega
  · rw [hentry]
    exact blendEntry_entryPrice (by rw [satSub_val]; omega) hfit hq

/-- Any other sync leaves the average alone. -/
theorem syncPosition_kept {a : SyncPosition} {now : ℤ} {p' : Position}
    (kept : (a.ownerAgyld.getD 0).val ≤ a.position.shares.val) (h : syncPosition a now = .ok p') :
    Blends a.position none p' := by
  simp only [syncPosition, bind_eq_ok, Prod.exists] at h
  obtain ⟨_, -, b, -, nav, supply, -, price, -, q, hq, hmark⟩ := h
  rw [blendArrived, if_neg (Nat.not_lt.mpr kept)] at hq
  cases hq
  have hsame := mark_spec hmark
  have hentry := mark_entryPrice hmark
  refine ⟨?_, hentry⟩
  simp only [Position.total, hsame.shares, hsame.privateShares]
  omega

/-- Every call whose lot fits blends it in. -/
theorem Position.Call.blends {p p' : Position} {lot : Option (ℕ × ℕ)} (h : p.Call lot p')
    (hfit : ∀ l ∈ lot, p.total + l.1 < 2^64) : Blends p lot p' := by
  cases h with
  | depositPrivate own book run mints found =>
    subst own
    exact depositPrivate_blends book mints found (hfit _ rfl) run
  | redeemPrivate own run =>
    subst own
    simp only [Agama.redeemPrivate, bind_eq_ok] at run
    obtain ⟨_, -, hopen⟩ := run
    exact openExit_blends hopen
  | redeemPrivateTo own run =>
    subst own
    simp only [Agama.redeemPrivateTo, bind_eq_ok] at run
    obtain ⟨_, -, _, -, hopen⟩ := run
    exact openExit_blends hopen
  | syncGrown own run found grown =>
    subst own
    exact syncPosition_grown found grown (hfit _ rfl) run
  | syncKept own run kept =>
    subst own
    exact syncPosition_kept kept run

/-! ## Runs -/

/-- One call that overflows nothing, and what the record makes of its lot. -/
def CostStep (s s' : Position × Record) : Prop :=
  ∃ lot, s.1.Call lot s'.1 ∧ (∀ l ∈ lot, s.1.total + l.1 < 2^64) ∧
    s'.2 = lot.elim s.2 fun l => s.2.enter s.1.total l.1 l.2

/-- While the position counts a share, its average follows the record. -/
def Averages (s : Position × Record) : Prop := 0 < s.1.total → Follows s.2 s.1.entryPrice.val

/-- Every call keeps the entry price near the mean of what is recorded. -/
theorem CostStep.averages {s s' : Position × Record} (hs : Averages s) (h : CostStep s s') :
    Averages s' := by
  obtain ⟨lot, hcall, hfit, hrecord⟩ := h
  have hblends := hcall.blends hfit
  intro hheld
  cases lot with
  | none =>
    obtain ⟨htotal, hentry⟩ := hblends
    rw [hrecord, hentry]
    exact hs (hheld.trans_le htotal)
  | some l =>
    obtain ⟨hadded, htotal, hentry⟩ := hblends
    rw [hrecord, hentry]
    rcases Nat.eq_zero_or_pos s.1.total with hempty | hpos
    · -- Into an empty position, the average starts at the lot's price.
      rw [hempty]
      exact follows_enter_of_empty s.2 hadded
    · exact (hs hpos).enter hpos

/-- The entry price is the average cost: along every run from an empty position, the kept price
never exceeds the exact mean of what was blended in since the position was last empty, falls behind
it by less than the number of blends, and lies between the lowest and the highest price. -/
theorem entry_price_averages {s₀ s : Position × Record} (hempty : s₀.1.total = 0)
    (hrun : Relation.ReflTransGen CostStep s₀ s) (hheld : 0 < s.1.total) :
    (s.1.entryPrice.val : ℚ) ≤ s.2.mean ∧ s.2.mean - s.1.entryPrice.val < s.2.lots ∧
      s.2.lowest ≤ s.1.entryPrice.val ∧ s.1.entryPrice.val ≤ s.2.highest := by
  have h₀ : Averages s₀ := fun hpos => absurd hempty hpos.ne'
  obtain ⟨hle, hlt, hlow, hhigh⟩ :=
    Runs.preserves (I := Averages) (fun hs h => CostStep.averages hs h) hrun h₀ hheld
  exact ⟨hle, hlt, hlow, hhigh⟩

/-- A sync of a position by its owner, who holds `held` agYLD, on the accounts of `w`. -/
def World.syncing (w : World) (p : Position) (held : U64) : SyncPosition where
  signer := p.owner
  position := p
  vault := w.vault
  book := info w.book
  shielded := w.shielded.current
  ownerAgyld := some held

/-- A position as a sync leaves it. -/
def SyncPosition.result (a : SyncPosition) : Position :=
  (syncPosition a 100).toOption.getD a.position

/-- A fresh position that a sync finds with 100 units of agYLD, at a price of 1. -/
def firstLot : Position :=
  (World.invested.syncing (initPosition positionOwner devnetVault) 100).result

/-- The same after 200 more arrived at a price of 1.08. -/
def secondLot : Position := (World.matured.syncing firstLot 300).result

/-- What was blended in by then. -/
def firstRecord : Record := Record.enter ⟨0, 0, 0, 0⟩ 0 100 1000000

/-- The record after a second entry. -/
def secondRecord : Record := firstRecord.enter 100 200 1080000

/-- Its entry price follows both lots. -/
theorem entry_price_averages_lots :
    (secondLot.entryPrice.val : ℚ) ≤ secondRecord.mean ∧
      secondRecord.mean - secondLot.entryPrice.val < 2 ∧
      1000000 ≤ secondLot.entryPrice.val ∧ secondLot.entryPrice.val ≤ 1080000 := by
  let a₁ := World.invested.syncing (initPosition positionOwner devnetVault) 100
  let a₂ := World.matured.syncing firstLot 300
  have hfound₁ : priceFound a₁.vault a₁.book a₁.shielded = .ok 1000000 := by decide +kernel
  have hfound₂ : priceFound a₂.vault a₂.book a₂.shielded = .ok 1080000 := by decide +kernel
  have hsync₁ : syncPosition a₁ 100 = .ok firstLot := by decide +kernel
  have hsync₂ : syncPosition a₂ 100 = .ok secondLot := by decide +kernel
  have hfirst : CostStep (initPosition positionOwner devnetVault, ⟨0, 0, 0, 0⟩)
      (firstLot, firstRecord) :=
    ⟨some (100, 1000000), .syncGrown rfl hsync₁ hfound₁ (by decide +kernel), by decide +kernel, rfl⟩
  have hsecond : CostStep (firstLot, firstRecord) (secondLot, secondRecord) :=
    ⟨some (200, 1080000), .syncGrown rfl hsync₂ hfound₂ (by decide +kernel), by decide +kernel, rfl⟩
  exact entry_price_averages (s := (secondLot, secondRecord)) rfl (.tail (.single hfirst) hsecond)
    (by decide +kernel)

end Agama
