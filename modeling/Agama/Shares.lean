import Agama.Deployment
import Agama.Price

/-!
# The share ledgers

Shares are counted twice: the private ones in the positions and in the aggregate, the public ones as
agYLD and in the vault. Along every run in which no counter saturates the positions add up to the
live aggregate, and agYLD never exceeds what the vault counts, which is more only by what holders
burned without redeeming. So a redemption has shares to divide by, its subtractions are exact, and a
holder is never told that the vault has too few shares (`share_ledgers_agree`).
-/

namespace Agama

open TokenLedger

/-! ## agYLD -/

/-- The agYLD accounts, the supply of the mint, and the shares that the vault counts. -/
structure Agyld where
  balances : Balances Pubkey 64
  supply : U64
  shares : U64

/-- The agYLD side of the accounts. -/
def World.agyldSide (w : World) : Agyld := ⟨w.agyld, w.agyldSupply, w.vault.shares⟩

namespace Agyld

/-- What an action can do to agYLD. -/
inductive Step (x : Agyld) : Agyld → Prop
  | same : Step x x
  | minted {user : Pubkey} {shares held supply : U64}
      (holder : credit (x.balances user) shares = some held)
      (mint : credit x.supply shares = some supply) :
      Step x ⟨Function.update x.balances user held, supply, satAdd x.shares shares⟩
  | redeemed {user : Pubkey} {shares held supply : U64}
      (holder : debit (x.balances user) shares = some held)
      (mint : debit x.supply shares = some supply) :
      Step x ⟨Function.update x.balances user held, supply, satSub x.shares shares⟩
  /-- A burn by the holder, which the vault does not see. -/
  | burned {holder : Pubkey} {amount held supply : U64}
      (own : debit (x.balances holder) amount = some held)
      (mint : debit x.supply amount = some supply) :
      Step x ⟨Function.update x.balances holder held, supply, x.shares⟩
  | sent {src dst : Pubkey} {amount : U64} {balances : Balances Pubkey 64}
      (run : transfer x.balances src dst amount = some balances) :
      Step x ⟨balances, x.supply, x.shares⟩

/-- No holders have more agYLD together than the mint's supply, nor is there more than the shares
that the vault counts. -/
structure Backed (x : Agyld) : Prop where
  held : Within x.balances x.supply.val
  supply : x.supply.val ≤ x.shares.val

/-- Every action keeps agYLD backed. -/
theorem Step.backed {x x' : Agyld} (hx : x.Backed) (h : Step x x') : x'.Backed := by
  have hsupply := hx.supply
  cases h with
  | same => exact hx
  | minted holder mint =>
    have hval := credit_eq_some.mp mint
    refine ⟨?_, ?_⟩
    · rw [hval]
      exact hx.held.credit holder
    · -- The vault's counter saturates at the top of the range, which no supply exceeds.
      rename_i supply
      have := supply.isLt
      simp only [satAdd_val]
      omega
  | redeemed holder mint =>
    have hval := (debit_eq_some.mp mint).2
    refine ⟨?_, ?_⟩
    · rw [hval]
      exact hx.held.debit holder
    · simp only [satSub_val]
      omega
  | burned own mint =>
    have hval := (debit_eq_some.mp mint).2
    refine ⟨?_, ?_⟩
    · rw [hval]
      exact hx.held.debit own
    · simp only
      omega
  | sent run => exact ⟨hx.held.transfer run, hsupply⟩

end Agyld

/-- `deposit` mints to the user what it enters into the vault. -/
theorem deposit_mints {a a' : PublicFlow} {amount : U64} {e : Deposited}
    (h : deposit a amount = .ok (a', e)) :
    a'.user = a.user ∧ ∃ shares, credit a.userAgyld shares = some a'.userAgyld ∧
      credit a.agyldMint shares = some a'.agyldMint ∧
      a'.vault = a.vault.deposited shares amount := by
  simp only [deposit, bind_eq_ok, orElse_eq_ok, pure_eq_ok, Prod.exists, Prod.mk.injEq] at h
  obtain ⟨_, -, b, -, s, -, nav, supply, -, shares, -, _, -, _, -, _, -, minted, hmint, held,
    hheld, rfl, -⟩ := h
  exact ⟨rfl, shares, hheld, hmint, rfl⟩

/-- `redeem` burns of the user's what it takes out of the vault. -/
theorem redeem_burns {a a' : PublicFlow} {shares : U64} {e : Redeemed}
    (h : redeem a shares = .ok (a', e)) :
    a'.user = a.user ∧ debit a.userAgyld shares = some a'.userAgyld ∧
      debit a.agyldMint shares = some a'.agyldMint ∧ shares.val ≤ a.vault.shares.val ∧
      ∃ assets, a'.vault = a.vault.redeemed shares assets := by
  simp only [redeem, bind_eq_ok, require_eq_ok, orElse_eq_ok, pure_eq_ok, Prod.exists,
    Prod.mk.injEq] at h
  obtain ⟨_, -, b, -, s, -, nav, supply, -, _, hshares, assets, -, _, -, held, hheld, burned,
    hburn, _, -, _, -, rfl, -⟩ := h
  exact ⟨rfl, hheld, hburn, hshares, assets, rfl⟩

namespace World

variable {rt : Runtime} {w w' : World} {tx : Tx}

/-- An action that writes neither the agYLD accounts nor the vault. -/
theorem agyld_of_eq (hb : w'.agyld = w.agyld) (hs : w'.agyldSupply = w.agyldSupply)
    (hv : w'.vault = w.vault) : Agyld.Step w.agyldSide w'.agyldSide := by
  rw [agyldSide, agyldSide, hb, hs, hv]
  exact .same

/-- `deposit` mints what the vault counts. -/
theorem execDeposit_agyld {user : Pubkey} {amount : U64}
    (h : w.execDeposit tx user amount = .ok w') : Agyld.Step w.agyldSide w'.agyldSide := by
  simp only [execDeposit, bind_eq_ok, pure_eq_ok, Prod.exists] at h
  obtain ⟨_, -, a, e, hdep, rfl⟩ := h
  obtain ⟨huser, shares, hheld, hmint, hvault⟩ := deposit_mints hdep
  rw [agyldSide, storePublicFlow, hvault, huser]
  exact .minted hheld hmint

/-- `redeem` burns what the vault counts. -/
theorem execRedeem_agyld {user : Pubkey} {shares : U64}
    (h : w.execRedeem tx user shares = .ok w') : Agyld.Step w.agyldSide w'.agyldSide := by
  simp only [execRedeem, bind_eq_ok, pure_eq_ok, Prod.exists] at h
  obtain ⟨_, -, a, e, hred, rfl⟩ := h
  obtain ⟨huser, hheld, hburn, -, assets, hvault⟩ := redeem_burns hred
  rw [agyldSide, storePublicFlow, hvault, huser]
  exact .redeemed hheld hburn

/-- Every instruction mints agYLD against new shares, burns it against redeemed ones, or leaves it
alone. -/
theorem exec_agyld {ix : Ix} (h : w.exec rt tx ix = .ok w') :
    Agyld.Step w.agyldSide w'.agyldSide := by
  cases ix with
  | initializeVault | initBook | migrateBook | initShielded => cases h
  | deposit user amount => exact execDeposit_agyld h
  | redeem user shares => exact execRedeem_agyld h
  -- The rest writes neither the agYLD accounts nor the vault.
  | faucet | prepareForRollup | initShieldedPermission | tick | absorb | setApr | delegateBook
  | commitBook | undelegateBook | delegateShielded | commitShielded | undelegateShielded
  | delegateExits | initPosition | initPermission | setPermission | closePermission | rotateSession
  | authorizeSession | delegatePosition | undelegatePosition | settleExit | syncPosition
  | depositPrivate | redeemPrivate | redeemPrivateTo =>
    obtain ⟨hvault, hagyld, hsupply⟩ := (exec_frame h).vault rfl
    exact agyld_of_eq hagyld hsupply hvault

/-- Token movements burn agYLD of its holder, send it, or leave it alone. -/
theorem moveTokens_agyld {t : TokenAction} (h : w.moveTokens rt t = some w') :
    Agyld.Step w.agyldSide w'.agyldSide := by
  cases moved_of_moveTokens h with
  | sendAgyld run => exact .sent run
  | burnAgyld debited burned => exact .burned debited burned
  | donate | sendUsdc | shield | sendPrivate | queue | queueUsdc | deliver | deliverPrivate
  | burnUsdc => exact agyld_of_eq rfl rfl rfl

/-- Every action is a step of agYLD. -/
theorem step_agyld {a : Action} (h : w.step rt a = .ok w') :
    Agyld.Step w.agyldSide w'.agyldSide := by
  cases a with
  | program tx ix => exact exec_agyld h
  | token t =>
    rw [step, orElse_eq_ok] at h
    exact moveTokens_agyld h

end World

/-! ## The private shares -/

/-- A step that saturates no counter keeps the live aggregate at the sum of the positions. -/
theorem Ledger.Step.privateShares {L L' : Ledger} {m : Move}
    (hL : L.privateShares = L.shielded.current.shares.val) (hfit : L.Fits m)
    (h : Ledger.Step L m L') : L'.privateShares = L'.shielded.current.shares.val := by
  cases h with
  | depositPrivate mints held total =>
    rename_i shares p t
    have hshares := hfit.2 _ mints
    -- A position's shares are part of the sum, so where the aggregate fits they do.
    rw [satAdd_val_of_lt (by omega)] at total
    simp only [writeShielded, Delegable.current_write, Shielded.deposited,
      satAdd_val_of_lt hshares]
    omega
  | redeemPrivate pays held total =>
    simp only [writeShielded, Delegable.current_write, Shielded.redeemed, satSub_val]
    omega
  | delegateShielded run => simpa only [(Delegable.delegate_eq_some run).2] using hL
  | commitShielded run => simpa only [(Delegable.commit_eq_some run).2] using hL
  | undelegateShielded run => simpa only [(Delegable.undelegate_eq_some run).2.1] using hL
  | _ => exact hL

/-! ## What a redemption fails with -/

section Faults

variable {f : Fault}

/-- Reading an account fails only with its own error. -/
theorem avoids_readAccount {α : Type} {info : AccountInfo α} {e : AgamaError}
    (h : Fault.error e ≠ f) : Avoids (readAccount info e) f :=
  (avoids_require (.inr h)).bind fun _ _ => avoids_orElse h

/-- `nav_for_pricing` fails only when the book is ahead. -/
theorem avoids_navForPricing {v : Vault} {b : PoolBook} {s : Shielded}
    (h : Fault.error .bookAheadOfVault ≠ f) : Avoids (navForPricing v b s) f :=
  (avoids_require (.inr h)).bind fun _ _ => avoids_ok _

/-- `assets_for` fails only by its overflow, where there are shares. -/
theorem avoids_assetsFor {nav supply shares : U64} (h : Fault.error .mathOverflow ≠ f)
    (hsupply : 0 < supply.val) : Avoids (assetsFor nav supply shares) f :=
  (avoids_udiv hsupply.ne').bind fun _ _ => avoids_tryU64 h

/-- `share_price` fails only by its overflow. -/
theorem avoids_sharePrice {nav supply : U64} (h : Fault.error .mathOverflow ≠ f) :
    Avoids (sharePrice nav supply) f := by
  unfold sharePrice
  split
  · exact avoids_ok _
  · exact avoids_tryU64 h

/-- `mark` fails only by its overflow. -/
theorem avoids_mark {p : Position} {price : U64} {now : ℤ} (h : Fault.error .mathOverflow ≠ f) :
    Avoids (mark p price now) f :=
  (avoids_tryU64 h).bind fun _ _ => (avoids_tryU64 h).bind fun _ _ => avoids_ok _

/-- `assert_may_act` fails only with `Unauthorized`. -/
theorem avoids_assertMayAct {p : Position} {signer : Pubkey} {now : ℤ}
    (h : Fault.error .unauthorized ≠ f) : Avoids (assertMayAct p signer now) f := by
  unfold assertMayAct
  split
  · exact avoids_ok ()
  · exact avoids_require (.inr h)

/-- A panic, or the refusal for too few shares. -/
def Fault.Unwarranted : Fault → Prop
  | .panic | .error .insufficientShares => True
  | _ => False

/-- The other errors are not among them. -/
theorem Fault.Unwarranted.ne {e : AgamaError} (h : f.Unwarranted)
    (he : e ≠ .insufficientShares) : Fault.error e ≠ f := by
  rintro rfl
  cases e <;> first | exact h | exact he rfl

/-- A failure of an account's constraint is warranted. -/
theorem Fault.Unwarranted.account_ne (h : f.Unwarranted) : Fault.account ≠ f := by
  rintro rfl
  exact h

/-- So is one of another program. -/
theorem Fault.Unwarranted.external_ne (h : f.Unwarranted) : Fault.external ≠ f := by
  rintro rfl
  exact h

/-- `redeem` reaches its division with shares in the vault, so it does not panic, and it refuses for
too few shares only where the vault has fewer. -/
theorem redeem_avoids {a : PublicFlow} {shares : U64} (hf : f.Unwarranted)
    (hshares : f = .error .insufficientShares → shares.val ≤ a.vault.shares.val) :
    Avoids (redeem a shares) f := by
  unfold redeem
  refine (avoids_require (.inr (hf.ne (by decide)))).bind fun _ hpos => ?_
  refine (avoids_readAccount (hf.ne (by decide))).bind fun b _ => ?_
  refine (avoids_readAccount (hf.ne (by decide))).bind fun s _ => ?_
  refine (avoids_navForPricing (hf.ne (by decide))).bind fun ⟨nav, supply⟩ hprice => ?_
  refine (avoids_require ?_).bind fun _ hcovered => ?_
  · by_cases hne : Fault.error .insufficientShares = f
    · exact .inl (hshares hne.symm)
    · exact .inr hne
  · have hsupply : 0 < supply.val := by
      rw [require_eq_ok] at hpos hcovered
      have := shares_le_supply hprice
      omega
    refine (avoids_assetsFor (hf.ne (by decide)) hsupply).bind fun assets _ => ?_
    refine (avoids_require (.inr (hf.ne (by decide)))).bind fun _ _ => ?_
    refine (avoids_orElse hf.external_ne).bind fun _ _ => ?_
    refine (avoids_orElse hf.external_ne).bind fun _ _ => ?_
    refine (avoids_orElse hf.external_ne).bind fun _ _ => ?_
    exact (avoids_orElse hf.external_ne).bind fun _ _ => avoids_ok _

/-- `open_exit` reaches its division with shares in the position; where these are in the aggregate,
it does not panic, and it refuses for too few shares only where the position has fewer. -/
theorem openExit_avoids {a : RedeemPrivate} {r : ExitRequest} {destination : Pubkey} {now : ℤ}
    (hf : f.Unwarranted) (hheld : a.position.privateShares.val ≤ a.shielded.shares.val)
    (hshares : f = .error .insufficientShares →
      r.shares.val ≤ a.position.privateShares.val) :
    Avoids (openExit a r destination now) f := by
  unfold openExit
  refine (avoids_require (.inr (hf.ne (by decide)))).bind fun _ hpos => ?_
  refine (avoids_require (.inr (hf.ne (by decide)))).bind fun _ _ => ?_
  refine (avoids_require (.inr (hf.ne (by decide)))).bind fun _ _ => ?_
  refine (avoids_require ?_).bind fun _ hcovered => ?_
  · by_cases hne : Fault.error .insufficientShares = f
    · exact .inl (hshares hne.symm)
    · exact .inr hne
  · refine (avoids_readAccount (hf.ne (by decide))).bind fun b _ => ?_
    refine (avoids_navForPricing (hf.ne (by decide))).bind fun ⟨nav, supply⟩ hprice => ?_
    have hsupply : 0 < supply.val := by
      rw [require_eq_ok] at hpos hcovered
      have := shares_le_supply hprice
      omega
    refine (avoids_assetsFor (hf.ne (by decide)) hsupply).bind fun assets _ => ?_
    refine (avoids_require (.inr (hf.ne (by decide)))).bind fun _ _ => ?_
    refine (avoids_require (.inr (hf.ne (by decide)))).bind fun _ _ => ?_
    refine (avoids_sharePrice (hf.ne (by decide))).bind fun price _ => ?_
    refine (avoids_require (.inr (hf.ne (by decide)))).bind fun _ _ => ?_
    refine (avoids_orElse (hf.ne (by decide))).bind fun _ _ => ?_
    exact (avoids_mark (hf.ne (by decide))).bind fun _ _ => avoids_ok _

end Faults

/-! ## The redemptions -/

/-- The position that an instruction redeems private shares of, and what it asks for. -/
def Ix.redeemsPrivate : Ix → Option (Pubkey × ExitRequest)
  | .redeemPrivate _ position request | .redeemPrivateTo _ position request _ =>
    some (position, request)
  | _ => none

namespace World

variable {rt : Runtime} {w w' : World} {tx : Tx} {f : Fault}

/-- Both run a handler that opens an exit, to the position's owner or at that owner's word. -/
theorem exec_redeemsPrivate {ix : Ix} {o : Pubkey} {r : ExitRequest}
    (hix : ix.redeemsPrivate = some (o, r)) (h : w.exec rt tx ix = .ok w') :
    ∃ signer handler, w.execRedeemPrivate tx signer o handler = .ok w' ∧
      ∀ {a a' b}, a.book.data = some b → handler a tx.now = .ok a' →
        ∃ ticket, (ticket.owner = a.position.owner ∨ a.signer = a.position.owner) ∧
          OpensExit a b r ticket a' := by
  cases ix with
  | redeemPrivate signer position request =>
    cases hix
    refine ⟨signer, fun a now => redeemPrivate a now r, h, fun hb hrun => ?_⟩
    obtain ⟨-, ticket, howner, hopen⟩ := redeemPrivate_spec hb hrun
    exact ⟨ticket, .inl howner, hopen⟩
  | redeemPrivateTo signer position request payout =>
    cases hix
    refine ⟨signer, fun a now => redeemPrivateTo a now r payout, h, fun hb hrun => ?_⟩
    obtain ⟨hsigner, ticket, -, hopen⟩ := redeemPrivateTo_spec hb hrun
    exact ⟨ticket, .inr hsigner, hopen⟩
  | _ => cases hix

/-- A public redemption of no more than the vault's shares has no unwarranted failure. -/
theorem execRedeem_avoids {user : Pubkey} {shares : U64} (hf : f.Unwarranted)
    (hshares : f = .error .insufficientShares → shares.val ≤ w.vault.shares.val) :
    Avoids (w.exec rt tx (.redeem user shares)) f :=
  (avoids_constraint hf.account_ne).bind fun _ _ =>
    (redeem_avoids hf hshares).bind fun _ _ => avoids_ok _

/-- A private redemption fails with what its handler fails with on the accounts that it loads. -/
theorem execRedeemPrivate_avoids {signer position : Pubkey}
    {handler : RedeemPrivate → ℤ → Result RedeemPrivate} (hf : f.Unwarranted)
    (hhandler : ∀ d, w.positions.lookup position = some d →
      Avoids (handler ⟨signer, d.current, w.vault, info w.book, w.shielded.current,
        w.exits.current⟩ tx.now) f) :
    Avoids (w.execRedeemPrivate tx signer position handler) f := by
  refine (avoids_constraint hf.account_ne).bind fun _ _ => ?_
  refine Avoids.bind ?_ fun d hd => ?_
  · refine (avoids_orElse hf.account_ne).bind fun d _ => ?_
    exact (avoids_constraint hf.account_ne).bind fun _ _ => avoids_ok _
  · rw [loadPosition_eq_ok] at hd
    refine (avoids_constraint hf.account_ne).bind fun _ _ => ?_
    refine (avoids_constraint hf.account_ne).bind fun _ _ => ?_
    exact (hhandler d hd.1).bind fun _ _ => avoids_ok _

/-- Where the positions add up to the aggregate, a private redemption does not panic, and is refused
for too few shares only where the position has fewer. -/
theorem exec_redeemsPrivate_avoids {ix : Ix} {o : Pubkey} {r : ExitRequest} (hf : f.Unwarranted)
    (hix : ix.redeemsPrivate = some (o, r))
    (hsum : w.privateShares = w.shielded.current.shares.val)
    (hshares : f = .error .insufficientShares →
      ∀ d, w.positions.lookup o = some d → r.shares.val ≤ d.current.privateShares.val) :
    Avoids (w.exec rt tx ix) f := by
  have hopen {a : RedeemPrivate} {d : Delegable Position} {destination : Pubkey}
      (hd : w.positions.lookup o = some d) (hp : a.position = d.current)
      (hs : a.shielded = w.shielded.current) : Avoids (openExit a r destination tx.now) f := by
    refine openExit_avoids hf ?_ fun hfault => ?_
    · rw [hp, hs, ← hsum]
      exact privateShares_le hd
    · rw [hp]
      exact hshares hfault d hd
  cases ix with
  | redeemPrivate signer position request =>
    cases hix
    simp only [exec]
    refine execRedeemPrivate_avoids hf fun d hd => ?_
    exact (avoids_assertMayAct (hf.ne (by decide))).bind fun _ _ => hopen hd rfl rfl
  | redeemPrivateTo signer position request payout =>
    cases hix
    simp only [exec]
    refine execRedeemPrivate_avoids hf fun d hd => ?_
    refine (avoids_require (.inr (hf.ne (by decide)))).bind fun _ _ => ?_
    exact (avoids_require (.inr (hf.ne (by decide)))).bind fun _ _ => hopen hd rfl rfl
  | _ => cases hix

/-- A redemption takes its shares out of the vault. -/
theorem execRedeem_exact {user : Pubkey} {shares : U64}
    (h : w.exec rt tx (.redeem user shares) = .ok w') :
    w'.vault.shares.val + shares.val = w.vault.shares.val := by
  simp only [exec, execRedeem, bind_eq_ok, pure_eq_ok, Prod.exists] at h
  obtain ⟨_, -, a, e, hred, rfl⟩ := h
  obtain ⟨-, -, -, hcovered, assets, hvault⟩ := redeem_burns hred
  have hle : shares.val ≤ w.vault.shares.val := hcovered
  simp only [storePublicFlow, hvault, Vault.redeemed, satSub_val]
  exact Nat.sub_add_cancel hle

/-- What a private redemption takes out of the position and of the live aggregate. -/
structure Burns (w : World) (o : Pubkey) (shares : U64) (w' : World) : Prop where
  position : ∃ d d', w.positions.lookup o = some d ∧ w'.positions.lookup o = some d' ∧
    d'.current.privateShares.val + shares.val = d.current.privateShares.val
  aggregate : w'.shielded.current.shares.val + shares.val = w.shielded.current.shares.val

/-- A handler that opens an exit burns exactly the shares that were asked for. -/
theorem execRedeemPrivate_exact {signer position : Pubkey} {r : ExitRequest}
    {handler : RedeemPrivate → ℤ → Result RedeemPrivate}
    (hsum : w.privateShares = w.shielded.current.shares.val)
    (h : w.execRedeemPrivate tx signer position handler = .ok w')
    (hspec : ∀ {a a' b}, a.book.data = some b → handler a tx.now = .ok a' →
      ∃ ticket, OpensExit a b r ticket a') : w.Burns position r.shares w' := by
  simp only [execRedeemPrivate, bind_eq_ok, loadPosition_eq_ok, pure_eq_ok] at h
  obtain ⟨_, -, d, ⟨hd, -⟩, _, -, _, -, a, hred, rfl⟩ := h
  obtain ⟨ticket, hopen⟩ := hspec (info_data w.book) hred
  have hburned : a.position.privateShares.val + r.shares.val = d.current.privateShares.val :=
    hopen.burned
  refine ⟨⟨d, d.write a.position, hd, AList.lookup_insert _, ?_⟩, ?_⟩
  · rw [Delegable.current_write]
    exact hburned
  · -- The position's shares are part of the aggregate's, so the subtraction does not stop at zero.
    have hle := privateShares_le hd
    simp only [Delegable.current_write, hopen.shielded, Shielded.redeemed, satSub_val]
    omega

/-- Where the positions add up to the aggregate, a private redemption takes its shares out of
both. -/
theorem exec_redeemsPrivate_exact {ix : Ix} {o : Pubkey} {r : ExitRequest}
    (hix : ix.redeemsPrivate = some (o, r))
    (hsum : w.privateShares = w.shielded.current.shares.val) (h : w.exec rt tx ix = .ok w') :
    w.Burns o r.shares w' := by
  obtain ⟨signer, handler, hrun, hspec⟩ := exec_redeemsPrivate hix h
  refine execRedeemPrivate_exact hsum hrun fun hb hrun => ?_
  obtain ⟨ticket, -, hopen⟩ := hspec hb hrun
  exact ⟨ticket, hopen⟩

end World

/-! ## The law -/

/-- The share ledgers agree with their aggregates, and what follows for redemptions. -/
structure SharesAgree (rt : Runtime) (w : World) : Prop where
  privateShares : w.privateShares = w.shielded.current.shares.val
  agyld : ∀ holders : Finset Pubkey, ∑ o ∈ holders, (w.agyld o).val ≤ w.vault.shares.val
  /-- Neither redemption divides by an empty supply. -/
  divides : ∀ tx user shares, Avoids (w.exec rt tx (.redeem user shares)) .panic
  dividesPrivate : ∀ tx ix o r, ix.redeemsPrivate = some (o, r) →
    Avoids (w.exec rt tx ix) .panic
  /-- Neither subtraction stops at zero. -/
  subtracts : ∀ tx user shares w', w.exec rt tx (.redeem user shares) = .ok w' →
    w'.vault.shares.val + shares.val = w.vault.shares.val
  subtractsPrivate : ∀ tx ix o r w', ix.redeemsPrivate = some (o, r) → w.exec rt tx ix = .ok w' →
    w.Burns o r.shares w'
  /-- No holder is refused for too few shares. -/
  enough : ∀ tx user shares, shares.val ≤ (w.agyld user).val →
    Avoids (w.exec rt tx (.redeem user shares)) (.error .insufficientShares)
  enoughPrivate : ∀ tx ix o r d, ix.redeemsPrivate = some (o, r) →
    w.positions.lookup o = some d → r.shares.val ≤ d.current.privateShares.val →
    Avoids (w.exec rt tx ix) (.error .insufficientShares)

/-- What the two sums give each redemption. -/
theorem SharesAgree.of_sums {rt : Runtime} {w : World}
    (hsum : w.privateShares = w.shielded.current.shares.val) (hbacked : w.agyldSide.Backed) :
    SharesAgree rt w where
  privateShares := hsum
  agyld holders := (hbacked.held holders).trans hbacked.supply
  divides _ _ _ := World.execRedeem_avoids trivial nofun
  dividesPrivate _ _ _ _ hix := World.exec_redeemsPrivate_avoids trivial hix hsum nofun
  subtracts _ _ _ _ h := World.execRedeem_exact h
  subtractsPrivate _ _ _ _ _ hix h := World.exec_redeemsPrivate_exact hix hsum h
  enough _ user _ hheld := World.execRedeem_avoids trivial fun _ =>
    hheld.trans ((hbacked.held.le user).trans hbacked.supply)
  enoughPrivate _ _ _ _ d hix hd hheld := World.exec_redeemsPrivate_avoids trivial hix hsum
    fun _ d' hd' => by rwa [← Option.some.inj (hd.symm.trans hd')]

/-- In every state of every run that saturates no counter, the share ledgers agree with their
aggregates. -/
theorem share_ledgers_agree {rt : Runtime} {authority custodyOwner : Pubkey} {book : PoolBook}
    {w : World} (hrun : Relation.ReflTransGen (StepWith rt fun w a _ => w.ledger.Fits a.move)
      (World.start rt authority custodyOwner book) w) : SharesAgree rt w := by
  obtain ⟨hsum, hbacked⟩ := Runs.preserves
    (I := fun w => w.privateShares = w.shielded.current.shares.val ∧ w.agyldSide.Backed)
    (fun hw ⟨_, ha, hfit⟩ => ⟨(World.step_ledger ha).privateShares hw.1 hfit,
      (World.step_agyld ha).backed hw.2⟩)
    hrun ⟨rfl, fun S => by simp [World.start, World.agyldSide], le_rfl⟩
  exact .of_sums hsum hbacked

/-- A public deposit, agYLD that is sent and burned, and shares redeemed out of a position. -/
def shareFlows : List Action :=
  [.program (.alone [user] 100) (.faucet user),
    .program (.alone [user] 100) (.deposit user 100000000),
    .token (.sendAgyld user (key 7) 10000000),
    .token (.burnAgyld (key 7) 4000000)] ++ openPrivate ++ delegatePrivate ++
  privateDeposit 100000000 ++
  [.program (.alone [positionOwner] 200)
    (.redeemPrivate positionOwner positionOwner ⟨30000000, 1, 0, 0, 1⟩)]

/-- The ledgers agree after those flows. -/
theorem share_ledgers_agree_flows :
    SharesAgree deployment ((World.deployed 800).after deployment shareFlows) :=
  share_ledgers_agree (run_of_replays (by decide +kernel))

end Agama
