import Agama.Approval
import Agama.Marks
import Agama.Narrowing
import Agama.PaymentFormat
import Agama.Shares
import Agama.TransferFormat

/-!
# Nothing panics

The workspace is built with `overflow-checks = true`, so an `i64` or a `u128` that overflows panics,
as a division by zero and an index out of range do. Which of the handlers' computations can, depends
on what the accounts hold: `accrue` multiplies what the clock has moved, `blend_entry` multiplies
what a position says of itself, and the redemptions divide by the supply. Before 2106 no instruction
panics in any state that the program reaches, whoever sends it and with whatever arguments and
neighbours in the transaction.
-/

namespace Agama

/-- A reading of the clock from 1970 to 2106. -/
def InClock (now : ℤ) : Prop := 0 ≤ now ∧ now < 2^32

instance (now : ℤ) : Decidable (InClock now) := inferInstanceAs (Decidable (_ ∧ _))

/-- Zero is a reading of the clock. -/
theorem inClock_zero : InClock 0 := by decide

/-- A sum that is in range is the checked sum. -/
theorem avoids_i64 {z : ℤ} {f : Fault} (h : IsI64 z) : Avoids (i64 z) f := by
  unfold i64
  rw [if_pos ⟨h.1, h.2⟩]
  exact avoids_ok _

/-- A product below `2^128` does not overflow. -/
theorem avoids_u128 {n : ℕ} {f : Fault} (h : n < 2^128) : Avoids (u128 n) f := by
  rw [u128, if_pos h]
  exact avoids_ok _

/-- A computation that has a result has no fault. -/
theorem avoids_of_exists {α : Type} {x : Result α} {f : Fault} (h : ∃ a, x = .ok a) :
    Avoids x f := by
  obtain ⟨a, rfl⟩ := h
  exact avoids_ok a

/-! ## The book -/

/-- Between two readings of the clock, every product of `accrue` fits: a principal is below `2^64`,
and a rate and the seconds below `2^32` each. -/
theorem exists_accrue {b : PoolBook} {now : ℤ} (hb : InClock b.lastTs) (hnow : InClock now) :
    ∃ b', b.accrue now = .ok b' := by
  obtain ⟨hfrom, -⟩ := hb
  obtain ⟨hzero, hto⟩ := hnow
  by_cases hle : now ≤ b.lastTs
  · exact ⟨b, accrue_of_le hle⟩
  · refine (PoolBook.exists_accrue_iff (by omega)).mpr ⟨by omega, fun i => ?_⟩
    have hprincipal := (b.pools.get i).principal.isLt
    have hrate := (b.pools.get i).aprBps.isLt
    have hseconds : (now - b.lastTs).toNat < 2^32 := by omega
    calc (b.pools.get i).principal.val * (b.pools.get i).aprBps.val * (now - b.lastTs).toNat
        ≤ (2^64 - 1) * (2^32 - 1) * (2^32 - 1) :=
          Nat.mul_le_mul (Nat.mul_le_mul (by omega) (by omega)) (by omega)
      _ < 2^128 := by norm_num

/-- Accruing between two readings of the clock does not panic. -/
theorem accrue_avoids {b : PoolBook} {now : ℤ} (hb : InClock b.lastTs) (hnow : InClock now) :
    Avoids (b.accrue now) .panic := avoids_of_exists (exists_accrue hb hnow)

/-- So a book can be ticked. -/
theorem exists_tick {b : PoolBook} {now : ℤ} (hb : InClock b.lastTs) (hnow : InClock now) :
    ∃ b', tick b now = .ok b' := by
  obtain ⟨b', hb'⟩ := exists_accrue hb hnow
  exact ⟨_, by rw [tick, hb']; rfl⟩

/-- Nor does a tick. -/
theorem tick_avoids {b : PoolBook} {now : ℤ} (hb : InClock b.lastTs) (hnow : InClock now) :
    Avoids (tick b now) .panic := (accrue_avoids hb hnow).bind fun _ _ => avoids_ok _

/-- Nor does an absorb. -/
theorem absorb_avoids {b : PoolBook} {now : ℤ} {inflow outflow : U64} (hb : InClock b.lastTs)
    (hnow : InClock now) : Avoids (absorb b now inflow outflow) .panic :=
  (accrue_avoids hb hnow).bind fun _ _ => avoids_ok _

/-- Nor does `set_apr`. -/
theorem setApr_avoids {b : PoolBook} {now : ℤ} {index : U8} {aprBps : U32}
    (hb : InClock b.lastTs) (hnow : InClock now) : Avoids (setApr b now index aprBps) .panic := by
  unfold setApr
  split
  · exact (accrue_avoids hb hnow).bind fun _ _ => avoids_ok _
  · exact nofun

/-! ## The average entry -/

/-- A position's cost basis fits a `u64`, so its shares times their entry price fit. -/
theorem Position.AddsUp.entered {p : Position} (h : p.AddsUp) :
    p.entryPrice.val * p.allShares.val < 2^64 * one.val := by
  have hcost := h.costBasis
  have hfits := p.costBasis.isLt
  rw [valueAt] at hcost
  rw [hcost, Nat.div_lt_iff_lt_mul (by decide)] at hfits
  rwa [Nat.mul_comm] at hfits

/-- The blend is a sum of two products of which each is worth an amount of USDC. -/
theorem blendEntry_avoids {p : Position} {added price : U64} (hp : p.AddsUp)
    (hworth : price.val * added.val < 2^64 * one.val) :
    Avoids (blendEntry p added price) .panic := by
  unfold blendEntry
  simp only
  split
  · exact avoids_ok p
  · refine (avoids_u128 ?_).bind fun _ _ => (avoids_tryU64 (by decide)).bind fun _ _ => avoids_ok _
    have hentered : p.entryPrice.val * (satAdd p.shares p.privateShares).val < 2^64 * one.val :=
      hp.entered
    have hone : one.val = 1000000 := rfl
    omega

/-- Shares that the NAV covers are worth no more than the NAV. -/
theorem price_mul_le_nav {nav supply price n : U64} (h : sharePrice nav supply = .ok price)
    (hn : n.val ≤ supply.val) (hpos : 0 < n.val) : price.val * n.val ≤ nav.val * one.val := by
  have hsupply : supply ≠ 0 := by
    rintro rfl
    exact absurd hn (by simpa using hpos.ne')
  rw [sharePrice, if_neg hsupply, tryU64_eq_ok] at h
  calc price.val * n.val ≤ price.val * supply.val := Nat.mul_le_mul_left _ hn
    _ ≤ nav.val * one.val := by rw [h]; exact Nat.div_mul_le_self _ _

/-- What an amount mints is worth no more than the amount. -/
theorem price_mul_minted_le {nav supply amount shares price : U64}
    (hs : sharesFor nav supply amount = .ok shares) (hp : sharePrice nav supply = .ok price) :
    price.val * shares.val ≤ amount.val * one.val := by
  by_cases hsupply : supply = 0
  · rw [sharesFor, if_pos (.inl hsupply), Except.ok.injEq] at hs
    rw [sharePrice, if_pos hsupply, Except.ok.injEq] at hp
    rw [← hs, ← hp, Nat.mul_comm]
  · rw [sharePrice, if_neg hsupply, tryU64_eq_ok] at hp
    by_cases hnav : nav = 0
    · rw [hp, hnav, Fin.val_zero, Nat.zero_mul, Nat.zero_div, Nat.zero_mul]
      exact Nat.zero_le _
    · have hsupply' : 0 < supply.val := Nat.pos_of_ne_zero (Fin.val_ne_zero_iff.mpr hsupply)
      have hnav' : 0 < nav.val := Nat.pos_of_ne_zero (Fin.val_ne_zero_iff.mpr hnav)
      rw [sharesFor_eq_ok hsupply'.ne' hnav'.ne'] at hs
      have hprice : price.val * supply.val ≤ nav.val * one.val := by
        rw [hp]
        exact Nat.div_mul_le_self _ _
      have hminted : shares.val * nav.val ≤ amount.val * supply.val := by
        rw [hs]
        exact Nat.div_mul_le_self _ _
      refine Nat.le_of_mul_le_mul_right ?_ (Nat.mul_pos hsupply' hnav')
      calc price.val * shares.val * (supply.val * nav.val)
          = price.val * supply.val * (shares.val * nav.val) := by ring
        _ ≤ nav.val * one.val * (amount.val * supply.val) := Nat.mul_le_mul hprice hminted
        _ = amount.val * one.val * (supply.val * nav.val) := by ring

/-! ## The handlers -/

/-- `shares_for` fails only by its overflow. -/
theorem avoids_sharesFor {nav supply amount : U64} {f : Fault}
    (h : Fault.error .mathOverflow ≠ f) : Avoids (sharesFor nav supply amount) f := by
  unfold sharesFor
  split
  · exact avoids_ok _
  · exact avoids_tryU64 h

/-- The amount is worth the shares that it is blended in with. -/
theorem depositPrivate_avoids {rt : Runtime} {tx : Tx} {a : DepositPrivate} {amount : U64}
    (hp : a.position.AddsUp) : Avoids (depositPrivate rt tx a amount) .panic := by
  refine (avoids_require (.inr (by simp))).bind fun _ _ => ?_
  refine (avoids_assertMayAct (by simp)).bind fun _ _ => ?_
  refine (avoids_previousInstruction tx).bind fun _ _ => ?_
  refine (assertTokenTransfer_avoids _ _ _ _ _ (by simp)).bind fun _ _ => ?_
  refine (avoids_readAccount (by simp)).bind fun b _ => ?_
  refine (avoids_navForPricing (by simp)).bind fun ⟨nav, supply⟩ _ => ?_
  refine (avoids_sharesFor (by simp)).bind fun shares hshares => ?_
  refine (avoids_require (.inr (by simp))).bind fun _ _ => ?_
  refine (avoids_sharePrice (by simp)).bind fun price hprice => ?_
  have hworth : price.val * shares.val < 2^64 * one.val :=
    (price_mul_minted_le hshares hprice).trans_lt
      (Nat.mul_lt_mul_of_pos_right amount.isLt (by decide))
  refine (blendEntry_avoids hp hworth).bind fun _ _ => ?_
  exact (avoids_mark (by simp)).bind fun _ _ => avoids_ok _

/-- The agYLD that arrived is part of the supply, so the NAV is worth it. -/
theorem syncPosition_avoids {a : SyncPosition} {now : ℤ} (hp : a.position.AddsUp)
    (hheld : (a.ownerAgyld.getD 0).val ≤ a.vault.shares.val) :
    Avoids (syncPosition a now) .panic := by
  refine (avoids_assertMayAct (by simp)).bind fun _ _ => ?_
  refine (avoids_readAccount (by simp)).bind fun b _ => ?_
  refine (avoids_navForPricing (by simp)).bind fun ⟨nav, supply⟩ hnav => ?_
  refine (avoids_sharePrice (by simp)).bind fun price hprice => ?_
  have harrived : Avoids (blendArrived a.position (a.ownerAgyld.getD 0) price) .panic := by
    unfold blendArrived
    split
    · rename_i hlt
      have hsupply := (shares_le_supply hnav).1
      refine blendEntry_avoids hp ?_
      refine (price_mul_le_nav hprice ?_ ?_).trans_lt
        (Nat.mul_lt_mul_of_pos_right nav.isLt (by decide))
      all_goals
        rw [satSub_val]
        omega
    · exact avoids_ok _
  exact harrived.bind fun _ _ => avoids_mark (by simp)

/-- An authorisation does not panic. -/
theorem authorizeSession_avoids {p : Position} {now : ℤ} {key : Pubkey} (hnow : InClock now) :
    Avoids (authorizeSession p now key) .panic := by
  refine (avoids_require (.inr (by simp))).bind fun _ _ => ?_
  refine (avoids_i64 ?_).bind fun _ _ => avoids_ok _
  obtain ⟨hfrom, hto⟩ := hnow
  have httl : sessionTtl = 604800 := rfl
  exact ⟨by omega, by omega⟩

/-- Nor does a rotation. -/
theorem rotateSession_avoids {rt : Runtime} {tx : Tx} {a : RotateSession} {key : Pubkey}
    {expiry : ℤ} (hnow : InClock tx.now) : Avoids (rotateSession rt tx a key expiry) .panic := by
  refine (avoids_require (.inr (by simp))).bind fun _ _ => ?_
  refine (avoids_require (.inr (by simp))).bind fun _ _ => ?_
  refine (avoids_i64 ?_).bind fun _ _ => ?_
  · obtain ⟨hfrom, hto⟩ := hnow
    have httl : sessionTtl = 604800 := rfl
    exact ⟨by omega, by omega⟩
  refine (avoids_require (.inr (by simp))).bind fun _ _ => ?_
  refine (avoids_previousInstruction tx).bind fun _ _ => ?_
  refine (assertEd25519_avoids _ _ _).bind fun _ _ => Avoids.bind ?_ fun _ _ => avoids_ok _
  unfold rotatePermission
  split
  · exact (avoids_orElse (by simp)).bind fun _ _ => avoids_ok _
  · exact avoids_ok _

/-- A faucet claim does not panic. -/
theorem faucet_avoids {user : Pubkey} {c : FaucetClaim} {now : ℤ} {userUsdc usdcMint : U64}
    (hc : InClock c.lastTs) (hnow : InClock now) :
    Avoids (faucet user c now userUsdc usdcMint) .panic := by
  refine Avoids.bind ?_ fun _ _ => (avoids_orElse (by simp)).bind fun _ _ =>
    (avoids_orElse (by simp)).bind fun _ _ => avoids_ok _
  unfold faucetReady
  split
  · exact avoids_ok _
  · refine (avoids_i64 ?_).bind fun _ _ => avoids_require (.inr (by simp))
    obtain ⟨hfrom, hto⟩ := hc
    obtain ⟨hfrom', hto'⟩ := hnow
    exact ⟨by omega, by omega⟩

/-- A deposit does not panic. -/
theorem deposit_avoids {a : PublicFlow} {amount : U64} : Avoids (deposit a amount) .panic := by
  refine (avoids_require (.inr (by simp))).bind fun _ _ => ?_
  refine (avoids_readAccount (by simp)).bind fun _ _ => ?_
  refine (avoids_readAccount (by simp)).bind fun _ _ => ?_
  refine (avoids_navForPricing (by simp)).bind fun _ _ => ?_
  refine (avoids_sharesFor (by simp)).bind fun _ _ => ?_
  refine (avoids_require (.inr (by simp))).bind fun _ _ => ?_
  refine (avoids_orElse (by simp)).bind fun _ _ => ?_
  refine (avoids_orElse (by simp)).bind fun _ _ => ?_
  refine (avoids_orElse (by simp)).bind fun _ _ => ?_
  exact (avoids_orElse (by simp)).bind fun _ _ => avoids_ok _

/-! ## The instructions -/

/-- What the accounts hold is in range for every handler. -/
structure World.InRange (w : World) : Prop where
  book : w.book.Both fun b => InClock b.lastTs
  claims : ∀ user, InClock (w.claims user).lastTs
  positions : ∀ o d, w.positions.lookup o = some d → d.Both Position.AddsUp
  agyld : ∀ user, (w.agyld user).val ≤ w.vault.shares.val
  privateShares : w.privateShares = w.shielded.current.shares.val

namespace World

variable {rt : Runtime} {w : World} {tx : Tx}

/-- Checking a signature does not panic. -/
theorem avoids_signs (tx : Tx) (key : Pubkey) : Avoids (signs tx key) .panic :=
  avoids_constraint (by simp)

/-- Nor does checking the vault's authority. -/
theorem avoids_authoritySigns (key : Pubkey) : Avoids (w.authoritySigns tx key) .panic :=
  (avoids_signs tx key).bind fun _ _ => avoids_require (.inr (by simp))

/-- Nor does checking the book's authority. -/
theorem avoids_bookAuthoritySigns (key : Pubkey) : Avoids (w.bookAuthoritySigns tx key) .panic :=
  (avoids_signs tx key).bind fun _ _ => avoids_require (.inr (by simp))

/-- Nor does loading a position. -/
theorem avoids_loadPosition (o : Pubkey) : Avoids (w.loadPosition o) .panic :=
  (avoids_orElse (by simp)).bind fun _ _ => (avoids_constraint (by simp)).bind fun _ _ =>
    avoids_ok _

/-- The permission instructions fail with what their handler fails with. -/
theorem execPermission_avoids {signer position : Pubkey}
    {handler : PermissionCtx → ℤ → Result PermissionCtx}
    (h : ∀ a now, Avoids (handler a now) .panic) :
    Avoids (w.execPermission tx signer position handler) .panic :=
  (avoids_signs tx signer).bind fun _ _ => (avoids_loadPosition position).bind fun _ _ =>
    (h _ _).bind fun _ _ => avoids_ok _

/-- In range, no instruction panics. -/
theorem InRange.avoids (hw : w.InRange) (hnow : InClock tx.now) (ix : Ix) :
    Avoids (w.exec rt tx ix) .panic := by
  cases ix with
  | initializeVault | initBook | migrateBook | initShielded => exact nofun
  | faucet user =>
    refine (avoids_signs tx user).bind fun _ _ => ?_
    exact (faucet_avoids (hw.claims user) hnow).bind fun _ _ => avoids_ok _
  | deposit user amount =>
    exact (avoids_signs tx user).bind fun _ _ => deposit_avoids.bind fun _ _ => avoids_ok _
  | redeem user shares => exact execRedeem_avoids trivial (by simp)
  | initPosition owner =>
    refine (avoids_signs tx owner).bind fun _ _ => ?_
    exact (avoids_constraint (by simp)).bind fun _ _ => avoids_ok _
  | authorizeSession owner key =>
    refine (avoids_signs tx owner).bind fun _ _ => ?_
    refine (avoids_loadPosition owner).bind fun _ _ => ?_
    exact (authorizeSession_avoids hnow).bind fun _ _ => avoids_ok _
  | prepareForRollup owner => exact (avoids_signs tx owner).bind fun _ _ => avoids_ok _
  | delegateBook payer | delegateShielded payer | delegateExits payer | commitShielded payer
  | undelegateShielded payer =>
    refine (avoids_authoritySigns payer).bind fun _ _ => ?_
    exact (avoids_orElse (by simp)).bind fun _ _ => avoids_ok _
  | commitBook payer | undelegateBook payer =>
    refine (avoids_signs tx payer).bind fun _ _ => ?_
    exact (avoids_orElse (by simp)).bind fun _ _ => avoids_ok _
  | delegatePosition o | undelegatePosition _ o =>
    refine (avoids_signs tx _).bind fun _ _ => ?_
    refine (avoids_orElse (by simp)).bind fun _ _ => ?_
    exact (avoids_orElse (by simp)).bind fun _ _ => avoids_ok _
  | tick payer =>
    refine (avoids_signs tx payer).bind fun _ _ => ?_
    exact (tick_avoids hw.book.2 hnow).bind fun _ _ => avoids_ok _
  | absorb authority inflow outflow =>
    refine (avoids_bookAuthoritySigns authority).bind fun _ _ => ?_
    exact (absorb_avoids hw.book.2 hnow).bind fun _ _ => avoids_ok _
  | setApr authority index aprBps =>
    refine (avoids_bookAuthoritySigns authority).bind fun _ _ => ?_
    exact (setApr_avoids hw.book.2 hnow).bind fun _ _ => avoids_ok _
  | initPermission signer position viewers =>
    simp only [exec]
    refine execPermission_avoids fun a now => ?_
    refine (avoids_assertMayAct (by simp)).bind fun _ _ => ?_
    refine (avoids_require (.inr (by simp))).bind fun _ _ => ?_
    split
    all_goals exact avoids_ok _
  | setPermission signer position isPrivate viewers =>
    simp only [exec]
    refine execPermission_avoids fun a now => ?_
    refine (avoids_assertMayAct (by simp)).bind fun _ _ => ?_
    refine (avoids_require (.inr (by simp))).bind fun _ _ => ?_
    exact (avoids_orElse (by simp)).bind fun _ _ => avoids_ok _
  | closePermission signer position =>
    simp only [exec]
    refine execPermission_avoids fun a now => ?_
    refine (avoids_assertMayAct (by simp)).bind fun _ _ => ?_
    exact (avoids_orElse (by simp)).bind fun _ _ => avoids_ok _
  | syncPosition signer position withAgyld =>
    refine (avoids_signs tx signer).bind fun _ _ => ?_
    refine (avoids_loadPosition position).bind fun d hd => ?_
    refine (avoids_constraint (by simp)).bind fun _ _ => ?_
    refine (syncPosition_avoids ?_ ?_).bind fun _ _ => avoids_ok _
    · exact (hw.positions position d (loadPosition_eq_ok.mp hd).1).2
    · cases withAgyld with
      | false => exact Nat.zero_le _
      | true => exact hw.agyld position
  | rotateSession submitter position key expiry =>
    refine (avoids_signs tx submitter).bind fun _ _ => ?_
    refine (avoids_loadPosition position).bind fun _ _ => ?_
    exact (rotateSession_avoids hnow).bind fun _ _ => avoids_ok _
  | initShieldedPermission authority =>
    exact (avoids_authoritySigns authority).bind fun _ _ => avoids_ok _
  | depositPrivate depositor signer position amount =>
    refine (avoids_signs tx depositor).bind fun _ _ => ?_
    refine (avoids_signs tx signer).bind fun _ _ => ?_
    refine (avoids_loadPosition position).bind fun d hd => ?_
    refine (avoids_constraint (by simp)).bind fun _ _ => ?_
    have hadds := (hw.positions position d (loadPosition_eq_ok.mp hd).1).2
    exact (depositPrivate_avoids hadds).bind fun _ _ => avoids_ok _
  | redeemPrivate signer position request | redeemPrivateTo signer position request payout =>
    exact exec_redeemsPrivate_avoids trivial rfl hw.privateShares (by simp)
  | settleExit authority groupId =>
    refine (avoids_authoritySigns authority).bind fun _ _ => ?_
    refine (avoids_constraint (by simp)).bind fun _ _ => ?_
    exact (settleExit_avoids _ _ _ _).bind fun _ _ => avoids_ok _

end World

/-! ## The law -/

/-- An action that saturates no counter, at a reading of the clock before 2106. -/
def StaysInRange (w : World) (a : Action) (_ : World) : Prop :=
  w.ledger.Fits a.move ∧ InClock a.now

instance (w : World) (a : Action) (w' : World) : Decidable (StaysInRange w a w') :=
  inferInstanceAs (Decidable (_ ∧ _))

/-- Every state that such actions reach is in range. -/
theorem World.run_inRange {rt : Runtime} {authority custodyOwner : Pubkey} {book : PoolBook}
    {w : World} (hbook : InClock book.lastTs)
    (hrun : Relation.ReflTransGen (StepWith rt StaysInRange)
      (World.start rt authority custodyOwner book) w) : w.InRange := by
  obtain ⟨hsum, hbacked⟩ := Runs.preserves
    (I := fun w : World => w.privateShares = w.shielded.current.shares.val ∧ w.agyldSide.Backed)
    (fun hw ⟨_, ha, hP⟩ => ⟨(step_ledger ha).privateShares hw.1 hP.1, (step_agyld ha).backed hw.2⟩)
    hrun ⟨rfl, fun S => by simp [World.start, World.agyldSide], le_rfl⟩
  exact
    { book := run_lastTs And.right hrun ⟨hbook, hbook⟩
      claims := fun user => run_claims And.right hrun user inClock_zero
      positions := fun o d hd => run_positions (I := fun _ _ p => p.AddsUp) (fun _ _ hp => hp)
        (fun _ _ _ hp hwrites => hwrites.addsUp hp)
        (fun _ o => Position.addsUp_init o) hrun (fun _ _ h => by cases h) hd
      agyld := fun user => (hbacked.held.le user).trans hbacked.supply
      privateShares := hsum }

/-- Before 2106, no instruction panics in any state that the program reaches without saturating a
counter, whatever its arguments, its signers and the other instructions of its transaction. -/
theorem nothing_panics {rt : Runtime} {authority custodyOwner : Pubkey} {book : PoolBook}
    {w : World} {tx : Tx} (hbook : InClock book.lastTs)
    (hrun : Relation.ReflTransGen (StepWith rt StaysInRange)
      (World.start rt authority custodyOwner book) w) (hnow : InClock tx.now) (ix : Ix) :
    Avoids (w.exec rt tx ix) .panic := (World.run_inRange hbook hrun).avoids hnow ix

/-- At the last second of the range the rollup's book still accrues; at the last one that an `i64`
holds, a session cannot be authorised. -/
theorem nothing_panics_flows :
    Avoids (((World.deployed 800).after deployment depositAndSync).exec deployment
      (.alone [user] 4294967295) (.tick user)) .panic ∧
    ((World.deployed 800).after deployment depositAndSync).exec deployment
      (.alone [positionOwner] 9223372036854775807)
      (.authorizeSession positionOwner sessionKey) = .error .panic := by
  have hrun : Relation.ReflTransGen (StepWith deployment StaysInRange) (World.deployed 800)
      ((World.deployed 800).after deployment depositAndSync) := run_of_replays (by decide +kernel)
  exact ⟨nothing_panics inClock_zero hrun (by decide) (.tick user),
    eq_error_of_map (f := fun _ => ()) (by decide +kernel)⟩

end Agama
