import Agama.Copies
import Agama.Deployment
import Agama.Price

/-!
# Where the USDC is

USDC comes from the faucet, and its holders burn it. In between it moves: into the vault and out of
it, into the private accounts, between holders, and into MagicBlock's queue and out of it. `Till` is
what these movements touch, and `Till.Step` what an action does to it. Along every run the accounts
hold exactly what the faucet minted and the queue delivered, less what was queued and burned, and
the vault's holds exactly what its counters say, more only by what was donated. A user's claims on
the faucet are a minute apart.
-/

namespace Agama

open TokenLedger

/-- The USDC accounts, the mint's supply, and the vault's counters. -/
structure Till where
  usdc : Balances Pubkey 64
  vaultUsdc : U64
  privateUsdc : Balances Pubkey 64
  supply : U64
  totalIn : U64
  totalOut : U64

/-- The USDC side of the accounts. -/
def World.till (w : World) : Till :=
  ⟨w.usdc, w.vaultUsdc, w.privateUsdc, w.usdcSupply, w.vault.totalIn, w.vault.totalOut⟩

/-- What brings USDC in, takes it out, or moves it past the vault's counters. -/
inductive Flow where
  | claimed (user : Pubkey) (time : ℤ)
  | donated (amount : U64)
  | queued (amount : U64)
  | delivered (amount : U64)
  | burned (amount : U64)

/-- The flow of an action. -/
def Action.flow : Action → Option Flow
  | .program tx (.faucet user) => some (.claimed user tx.now)
  | .token (.donate _ amount) => some (.donated amount)
  | .token (.queue _ amount) | .token (.queueUsdc _ amount) => some (.queued amount)
  | .token (.deliver _ amount) | .token (.deliverPrivate _ amount) => some (.delivered amount)
  | .token (.burnUsdc _ amount) => some (.burned amount)
  | _ => none

/-- What a flow counts for as a claim. -/
def Flow.claim : Flow → ℕ
  | .claimed _ _ => 1
  | _ => 0

/-- As a donation. -/
def Flow.donation : Flow → ℕ
  | .donated amount => amount.val
  | _ => 0

/-- As a payment into the queue. -/
def Flow.payment : Flow → ℕ
  | .queued amount => amount.val
  | _ => 0

/-- As a delivery out of it. -/
def Flow.delivery : Flow → ℕ
  | .delivered amount => amount.val
  | _ => 0

/-- As a burn. -/
def Flow.burn : Flow → ℕ
  | .burned amount => amount.val
  | _ => 0

namespace Till

/-- What an action that saturates no counter of the vault can do to the USDC. -/
inductive Step (x : Till) : Option Flow → Till → Prop
  | same : Step x none x
  | deposited {user : Pubkey} {amount paid received : U64}
      (debited : debit (x.usdc user) amount = some paid)
      (credited : credit x.vaultUsdc amount = some received)
      (fits : x.totalIn.val + amount.val < 2^64) :
      Step x none { x with
        usdc := Function.update x.usdc user paid
        vaultUsdc := received
        totalIn := satAdd x.totalIn amount }
  | redeemed {user : Pubkey} {assets left received : U64}
      (debited : debit x.vaultUsdc assets = some left)
      (credited : credit (x.usdc user) assets = some received)
      (fits : x.totalOut.val + assets.val < 2^64) :
      Step x none { x with
        usdc := Function.update x.usdc user received
        vaultUsdc := left
        totalOut := satAdd x.totalOut assets }
  | claimed {user : Pubkey} {time : ℤ} {received supply : U64}
      (minted : credit x.supply faucetAmount = some supply)
      (credited : credit (x.usdc user) faucetAmount = some received) :
      Step x (some (.claimed user time)) { x with
        usdc := Function.update x.usdc user received
        supply }
  | donated {holder : Pubkey} {amount paid received : U64}
      (debited : debit (x.usdc holder) amount = some paid)
      (credited : credit x.vaultUsdc amount = some received) :
      Step x (some (.donated amount)) { x with
        usdc := Function.update x.usdc holder paid
        vaultUsdc := received }
  | sent {src dst : Pubkey} {amount : U64} {usdc : Balances Pubkey 64}
      (run : transfer x.usdc src dst amount = some usdc) : Step x none { x with usdc }
  | shielded {holder account : Pubkey} {amount paid received : U64}
      (debited : debit (x.usdc holder) amount = some paid)
      (credited : credit (x.privateUsdc account) amount = some received) :
      Step x none { x with
        usdc := Function.update x.usdc holder paid
        privateUsdc := Function.update x.privateUsdc account received }
  | sentPrivate {src dst : Pubkey} {amount : U64} {privateUsdc : Balances Pubkey 64}
      (run : transfer x.privateUsdc src dst amount = some privateUsdc) :
      Step x none { x with privateUsdc }
  | queued {account : Pubkey} {amount left : U64}
      (debited : debit (x.privateUsdc account) amount = some left) :
      Step x (some (.queued amount))
        { x with privateUsdc := Function.update x.privateUsdc account left }
  | queuedUsdc {holder : Pubkey} {amount left : U64}
      (debited : debit (x.usdc holder) amount = some left) :
      Step x (some (.queued amount)) { x with usdc := Function.update x.usdc holder left }
  | delivered {recipient : Pubkey} {amount received : U64}
      (credited : credit (x.usdc recipient) amount = some received) :
      Step x (some (.delivered amount)) { x with usdc := Function.update x.usdc recipient received }
  | deliveredPrivate {account : Pubkey} {amount received : U64}
      (credited : credit (x.privateUsdc account) amount = some received) :
      Step x (some (.delivered amount))
        { x with privateUsdc := Function.update x.privateUsdc account received }
  | burned {holder : Pubkey} {amount left supply : U64}
      (debited : debit (x.usdc holder) amount = some left)
      (run : debit x.supply amount = some supply) :
      Step x (some (.burned amount)) { x with
        usdc := Function.update x.usdc holder left
        supply }

/-! ## The books -/

/-- A sum over some flows. -/
def sumOf (f : Flow → ℕ) (ls : List Flow) : ℕ := (ls.map f).sum

/-- A sum over flows, one more of them. -/
@[simp]
theorem sumOf_cons (f : Flow → ℕ) (l : Flow) (ls : List Flow) :
    sumOf f (l :: ls) = f l + sumOf f ls := rfl

/-- After some flows, the supply is what the faucet minted, less what was burned; the accounts hold
it, less what was queued and more what was delivered; and the vault's holds what went in and not
out, and what was donated. -/
structure Balanced (x : Till) (ls : List Flow) : Prop where
  supply : x.supply.val + sumOf Flow.burn ls = faucetAmount.val * sumOf Flow.claim ls
  located : ∃ p q, Total x.usdc p ∧ Total x.privateUsdc q ∧
    p + x.vaultUsdc.val + q + sumOf Flow.payment ls = x.supply.val + sumOf Flow.delivery ls
  vault : x.vaultUsdc.val + x.totalOut.val = x.totalIn.val + sumOf Flow.donation ls

/-- The flows with what a step adds. -/
def record (ls : List Flow) : Option Flow → List Flow
  | none => ls
  | some l => l :: ls

/-- What goes into the queue or comes out of it leaves the supply and the vault's account alone. -/
theorem Balanced.queue {x : Till} {ls : List Flow} {l : Flow}
    {usdc privateUsdc : Balances Pubkey 64} {p q : ℕ} (hx : x.Balanced ls) (hclaim : l.claim = 0)
    (hburn : l.burn = 0) (hdonation : l.donation = 0) (hp : Total usdc p)
    (hq : Total privateUsdc q)
    (hall : p + x.vaultUsdc.val + q + (l.payment + sumOf Flow.payment ls) =
      x.supply.val + (l.delivery + sumOf Flow.delivery ls)) :
    Balanced { x with usdc, privateUsdc } (l :: ls) := by
  refine ⟨?_, ⟨p, q, hp, hq, hall⟩, ?_⟩
  · rw [sumOf_cons, sumOf_cons, hclaim, hburn, Nat.zero_add, Nat.zero_add]
    exact hx.supply
  · rw [sumOf_cons, hdonation, Nat.zero_add]
    exact hx.vault

/-- Every step keeps the books balanced. -/
theorem Step.balanced {x x' : Till} {l : Option Flow} {ls : List Flow} (hx : x.Balanced ls)
    (h : Step x l x') : x'.Balanced (record ls l) := by
  have ⟨hsupply, ⟨p, q, hp, hq, hall⟩, hvault⟩ := hx
  cases h with
  | same => exact ⟨hsupply, ⟨p, q, hp, hq, hall⟩, hvault⟩
  | deposited debited credited fits =>
    obtain ⟨m, hm, hp'⟩ := hp.debit debited
    rw [credit_eq_some] at credited
    refine ⟨hsupply, ⟨m, q, hp', hq, ?_⟩, ?_⟩
    · simp only [record, credited]
      omega
    · simp only [record, credited, satAdd_val_of_lt fits]
      omega
  | redeemed debited credited fits =>
    have hp' := hp.credit credited
    rw [debit_eq_some] at debited
    refine ⟨hsupply, ⟨_, q, hp', hq, ?_⟩, ?_⟩
    · simp only [record, debited.2]
      omega
    · simp only [record, debited.2, satAdd_val_of_lt fits]
      omega
  | claimed minted credited =>
    have hp' := hp.credit credited
    rw [credit_eq_some] at minted
    refine ⟨?_, ⟨_, q, hp', hq, ?_⟩, ?_⟩
    · simp only [record, sumOf_cons, Flow.claim, Flow.burn, minted, Nat.mul_add]
      omega
    · simp only [record, sumOf_cons, Flow.payment, Flow.delivery, minted]
      omega
    · simp only [record, sumOf_cons, Flow.donation]
      omega
  | donated debited credited =>
    obtain ⟨m, hm, hp'⟩ := hp.debit debited
    rw [credit_eq_some] at credited
    refine ⟨?_, ⟨m, q, hp', hq, ?_⟩, ?_⟩
    · simpa only [record, sumOf_cons, Flow.claim, Flow.burn, Nat.zero_add] using hsupply
    · simp only [record, sumOf_cons, Flow.payment, Flow.delivery, credited]
      omega
    · simp only [record, sumOf_cons, Flow.donation, credited]
      omega
  | sent run => exact ⟨hsupply, ⟨p, q, hp.transfer run, hq, hall⟩, hvault⟩
  | shielded debited credited =>
    obtain ⟨m, hm, hp'⟩ := hp.debit debited
    refine ⟨hsupply, ⟨m, _, hp', hq.credit credited, ?_⟩, hvault⟩
    simp only [record]
    omega
  | sentPrivate run => exact ⟨hsupply, ⟨p, q, hp, hq.transfer run, hall⟩, hvault⟩
  | queued debited =>
    obtain ⟨m, hm, hq'⟩ := hq.debit debited
    refine hx.queue rfl rfl rfl hp hq' ?_
    simp only [Flow.payment, Flow.delivery]
    omega
  | queuedUsdc debited =>
    obtain ⟨m, hm, hp'⟩ := hp.debit debited
    refine hx.queue rfl rfl rfl hp' hq ?_
    simp only [Flow.payment, Flow.delivery]
    omega
  | delivered credited =>
    refine hx.queue rfl rfl rfl (hp.credit credited) hq ?_
    simp only [Flow.payment, Flow.delivery]
    omega
  | deliveredPrivate credited =>
    refine hx.queue rfl rfl rfl hp (hq.credit credited) ?_
    simp only [Flow.payment, Flow.delivery]
    omega
  | burned debited run =>
    obtain ⟨m, hm, hp'⟩ := hp.debit debited
    rw [debit_eq_some] at run
    refine ⟨?_, ⟨m, q, hp', hq, ?_⟩, ?_⟩
    · simp only [record, sumOf_cons, Flow.claim, Flow.burn, run.2, Nat.zero_add]
      omega
    · simp only [record, sumOf_cons, Flow.payment, Flow.delivery, run.2]
      omega
    · simpa only [record, sumOf_cons, Flow.donation, Nat.zero_add] using hvault

end Till

/-! ## The program's steps -/

/-- `deposit` moves the amount from the user into the vault. -/
theorem deposit_pays {a a' : PublicFlow} {amount : U64} {e : Deposited}
    (h : deposit a amount = .ok (a', e)) :
    a'.user = a.user ∧ debit a.userUsdc amount = some a'.userUsdc ∧
      credit a.vaultUsdc amount = some a'.vaultUsdc ∧
      ∃ shares, a'.vault = a.vault.deposited shares amount := by
  simp only [deposit, bind_eq_ok, orElse_eq_ok, pure_eq_ok, Prod.exists, Prod.mk.injEq] at h
  obtain ⟨_, -, b, -, s, -, nav, supply, -, shares, -, _, -, paid, hpaid, received, hreceived, _, -,
    _, -, rfl, -⟩ := h
  exact ⟨rfl, hpaid, hreceived, shares, rfl⟩

/-- `redeem` moves what the shares pay from the vault to the user. -/
theorem redeem_pays {a a' : PublicFlow} {shares : U64} {e : Redeemed} {b : PoolBook} {s : Shielded}
    (hb : a.book.data = some b) (hs : a.shielded.data = some s)
    (h : redeem a shares = .ok (a', e)) :
    a'.user = a.user ∧ ∃ assets, Pays a.vault b s shares assets ∧
      debit a.vaultUsdc assets = some a'.vaultUsdc ∧
      credit a.userUsdc assets = some a'.userUsdc ∧
      a'.vault = a.vault.redeemed shares assets := by
  simp only [redeem, readBook, readShielded, bind_eq_ok, require_eq_ok, readAccount_eq_ok,
    orElse_eq_ok, pure_eq_ok, Prod.exists, Prod.mk.injEq] at h
  obtain ⟨_, hpos, b', ⟨-, hb'⟩, s', ⟨-, hs'⟩, nav, supply, hnav, _, -, assets, hassets, _, -, _, -,
    _, -, left, hleft, received, hreceived, rfl, -⟩ := h
  rw [hb, Option.some.injEq] at hb'
  rw [hs, Option.some.injEq] at hs'
  subst hb' hs'
  exact ⟨rfl, assets, ⟨hpos, nav, supply, hnav, hassets⟩, hleft, hreceived, rfl⟩

/-- A move saturates no counter of the vault. -/
def Ledger.VaultFits (L : Ledger) : Move → Prop
  | .deposit amount => L.vault.totalIn.val + amount.val < 2^64
  | .redeem shares => ∀ assets, Pays L.vault L.book.base L.shielded.base shares assets →
      L.vault.totalOut.val + assets.val < 2^64
  | _ => True

/-- Whether a redemption does can be computed: a price pays one amount. -/
theorem Ledger.vaultFits_redeem (L : Ledger) (shares : U64) :
    (Ensures (paid L.vault L.book.base L.shielded.base shares) fun assets =>
      L.vault.totalOut.val + assets.val < 2^64) ↔ L.VaultFits (.redeem shares) := by
  simp only [Ensures, paid_eq_ok, Ledger.VaultFits]

instance (L : Ledger) : (m : Move) → Decidable (L.VaultFits m)
  | .deposit _ => inferInstanceAs (Decidable (_ < _))
  | .redeem shares => decidable_of_iff _ (L.vaultFits_redeem shares)
  | .depositPrivate _ | .redeemPrivate _ | .absorb _ _ _ | .tick _ | .setApr _ _ _
  | .delegateBook | .commitBook | .undelegateBook | .delegateShielded | .commitShielded
  | .undelegateShielded | .other => .isTrue trivial

namespace World

variable {rt : Runtime} {w w' : World} {tx : Tx}

/-- What an instruction that saturates no counter of the vault does to the USDC. -/
theorem exec_till {ix : Ix} (h : w.exec rt tx ix = .ok w')
    (hfit : w.ledger.VaultFits (ix.move tx.now)) :
    Till.Step w.till (Action.program tx ix).flow w'.till := by
  cases ix with
  | initializeVault | initBook | migrateBook | initShielded => cases h
  | faucet user =>
    simp only [exec, execFaucet, faucet, bind_eq_ok, orElse_eq_ok, pure_eq_ok, Prod.exists,
      Prod.mk.injEq] at h
    obtain ⟨_, -, c, _, _, ⟨_, -, supply, hsupply, received, hreceived, rfl, rfl, rfl⟩, rfl⟩ := h
    exact .claimed hsupply hreceived
  | deposit user amount =>
    simp only [exec, execDeposit, bind_eq_ok, pure_eq_ok, Prod.exists] at h
    obtain ⟨_, -, a, e, hdep, rfl⟩ := h
    obtain ⟨huser, hpaid, hreceived, shares, hvault⟩ := deposit_pays hdep
    rw [till, storePublicFlow, hvault, huser]
    exact .deposited hpaid hreceived hfit
  | redeem user shares =>
    simp only [exec, execRedeem, bind_eq_ok, pure_eq_ok, Prod.exists] at h
    obtain ⟨_, -, a, e, hred, rfl⟩ := h
    obtain ⟨huser, assets, hpays, hleft, hreceived, hvault⟩ :=
      redeem_pays (info_data w.book) (info_data w.shielded) hred
    rw [till, storePublicFlow, hvault, huser]
    exact .redeemed hleft hreceived (hfit assets hpays)
  | prepareForRollup | initShieldedPermission =>
    simp only [exec, execInitShieldedPermission, bind_eq_ok, pure_eq_ok] at h
    obtain ⟨_, -, rfl⟩ := h
    exact .same
  | tick | absorb | setApr | delegateBook | commitBook | undelegateBook | delegateShielded
  | commitShielded | undelegateShielded | delegateExits =>
    simp only [exec, bind_eq_ok, pure_eq_ok] at h
    obtain ⟨_, -, _, -, rfl⟩ := h
    exact .same
  | initPosition =>
    simp only [exec, execInitPosition, bind_eq_ok, pure_eq_ok] at h
    obtain ⟨_, -, _, -, rfl⟩ := h
    exact .same
  | initPermission | setPermission | closePermission | rotateSession | authorizeSession
  | delegatePosition | undelegatePosition =>
    simp only [exec, execPermission, execRotateSession, execAuthorizeSession,
      execDelegatePosition, execUndelegatePosition, bind_eq_ok, pure_eq_ok] at h
    obtain ⟨_, -, _, -, _, -, rfl⟩ := h
    exact .same
  | syncPosition =>
    simp only [exec, execSyncPosition, bind_eq_ok, pure_eq_ok] at h
    obtain ⟨_, -, _, -, _, -, _, -, rfl⟩ := h
    exact .same
  | settleExit =>
    simp only [exec, execSettleExit, bind_eq_ok, pure_eq_ok] at h
    obtain ⟨_, -, _, -, _, -, rfl⟩ := h
    exact .same
  | depositPrivate | redeemPrivate | redeemPrivateTo =>
    simp only [exec, execDepositPrivate, execRedeemPrivate, bind_eq_ok, pure_eq_ok] at h
    obtain ⟨_, -, _, -, _, -, _, -, _, -, rfl⟩ := h
    exact .same

/-- What a token movement does to the USDC. -/
theorem moveTokens_till {t : TokenAction} (h : w.moveTokens rt t = some w') :
    Till.Step w.till (Action.token t).flow w'.till := by
  cases moved_of_moveTokens h with
  | donate debited credited => exact .donated debited credited
  | sendUsdc run => exact .sent run
  | sendAgyld | burnAgyld => exact .same
  | shield debited credited => exact .shielded debited credited
  | sendPrivate run =>
    simp only [processTransfer, Option.bind_eq_bind, Option.bind_eq_some_iff] at run
    obtain ⟨_, -, t, -, _, -, hrun⟩ := run
    exact .sentPrivate hrun
  | queue debited => exact .queued debited
  | queueUsdc debited => exact .queuedUsdc debited
  | deliver credited => exact .delivered credited
  | deliverPrivate credited => exact .deliveredPrivate credited
  | burnUsdc debited burned => exact .burned debited burned

/-- What an action that saturates no counter of the vault does to the USDC. -/
theorem step_till {a : Action} (h : w.step rt a = .ok w') (hfit : w.ledger.VaultFits a.move) :
    Till.Step w.till a.flow w'.till := by
  cases a with
  | program tx ix => exact exec_till h hfit
  | token t =>
    rw [step, orElse_eq_ok] at h
    exact moveTokens_till h

end World

/-! ## The faucet -/

/-- The times at which a user claimed, the last first. -/
def claimTimes (user : Pubkey) (ls : List Flow) : List ℤ :=
  ls.filterMap fun
    | .claimed u time => if u = user then some time else none
    | _ => none

/-- A user's claims are a cooldown apart, none is after the one that is recorded, and one that is
recorded was made. -/
structure Spaced (c : FaucetClaim) (times : List ℤ) : Prop where
  apart : times.Pairwise fun later earlier => earlier + faucetCooldownSeconds ≤ later
  last : ∀ t ∈ times, t ≤ c.lastTs
  made : times = [] ↔ c.lastTs = 0

/-- A claim that the faucet is ready for comes a cooldown after all before it. -/
theorem Spaced.claimed {c : FaucetClaim} {times : List ℤ} {user : Pubkey} {now : ℤ}
    (h : Spaced c times) (hpos : 0 < now) (hready : faucetReady c now = .ok ()) :
    Spaced ⟨user, now⟩ (now :: times) := by
  have hafter : ∀ t ∈ times, t + faucetCooldownSeconds ≤ now := by
    intro t ht
    have hle := h.last t ht
    have hrecorded : c.lastTs ≠ 0 := by
      intro hzero
      rw [h.made.mpr hzero] at ht
      cases ht
    rw [faucetReady, if_neg hrecorded] at hready
    simp only [bind_eq_ok, i64_eq_ok, require_eq_ok] at hready
    obtain ⟨_, ⟨-, rfl⟩, hgap⟩ := hready
    omega
  refine ⟨List.pairwise_cons.mpr ⟨hafter, h.apart⟩, ?_, by simp; omega⟩
  intro t ht
  rcases List.mem_cons.mp ht with rfl | ht
  · exact le_rfl
  · have hcooldown : faucetCooldownSeconds = 60 := rfl
    have hle := hafter t ht
    simp only
    omega

/-! ## The law -/

/-- A flow at a time that a clock can read: a claim's clock has started. -/
def Flow.Started : Flow → Prop
  | .claimed _ time => 0 < time
  | _ => True

instance : (f : Flow) → Decidable f.Started
  | .claimed _ time => inferInstanceAs (Decidable (0 < time))
  | .donated _ | .queued _ | .delivered _ | .burned _ => inferInstanceAs (Decidable True)

/-- An action that saturates no counter of the vault, at a time that a clock can read. -/
def FlowsFit (w : World) (a : Action) (_ : World) : Prop :=
  w.ledger.VaultFits a.move ∧ ∀ f ∈ a.flow, f.Started

instance (w : World) (a : Action) (w' : World) : Decidable (FlowsFit w a w') :=
  inferInstanceAs (Decidable (_ ∧ _))

/-- A step, with its flow. -/
def Metered (rt : Runtime) (l : Option Flow) (w w' : World) : Prop :=
  ∃ a, a.flow = l ∧ w.step rt a = .ok w' ∧ FlowsFit w a w'

/-- The flows of some actions, the last first. -/
def flowsOf (as : List Action) : List Flow := (as.filterMap Action.flow).reverse

/-- A list of actions that replays is a run that records its flows. -/
theorem log_of_replays {rt : Runtime} {w : World} {as : List Action}
    (h : w.replays rt FlowsFit as = true) :
    Runs.Log (Metered rt) w (flowsOf as) (w.after rt as) := by
  induction as generalizing w with
  | nil => exact .nil
  | cons a as ih =>
    unfold World.replays at h
    unfold World.after
    cases hstep : w.step rt a with
    | error e => simp [hstep] at h
    | ok w' =>
      rw [hstep] at h
      simp only [Bool.and_eq_true, decide_eq_true_eq] at h
      have hflows : flowsOf (a :: as) = flowsOf as ++ a.flow.toList := by
        cases hf : a.flow <;> simp [flowsOf, hf]
      rw [hflows]
      exact (ih h.2).head ⟨a, rfl, hstep, h.1⟩

/-- Only a user's own claim is among the user's. -/
theorem claimTimes_other {a : Action} {user : Pubkey} (ls : List Flow)
    (h : ∀ tx, a ≠ .program tx (.faucet user)) :
    claimTimes user (Till.record ls a.flow) = claimTimes user ls := by
  cases a with
  | token t => cases t <;> rfl
  | program tx ix =>
    cases ix with
    | faucet claimant =>
      have hne : claimant ≠ user := fun heq => h tx (by rw [heq])
      simp only [Action.flow, Till.record, claimTimes, List.filterMap_cons, if_neg hne]
    | _ => rfl

/-- A step keeps the books balanced. -/
theorem Metered.balanced {rt : Runtime} {l : Option Flow} {w w' : World} {ls : List Flow}
    (h : Metered rt l w w') (hw : w.till.Balanced ls) : w'.till.Balanced (Till.record ls l) := by
  obtain ⟨a, rfl, hrun, hfit, -⟩ := h
  exact (World.step_till hrun hfit).balanced hw

/-- A step's claims are spaced when those before it are. -/
theorem Metered.spaced {rt : Runtime} {l : Option Flow} {w w' : World} {ls : List Flow}
    {user : Pubkey} (h : Metered rt l w w')
    (hs : Spaced (w.claims user) (claimTimes user ls)) :
    Spaced (w'.claims user) (claimTimes user (Till.record ls l)) := by
  obtain ⟨a, rfl, hrun, -, hclock⟩ := h
  have hstep := World.step_claims hrun user
  generalize w.claims user = c at hs hstep
  generalize w'.claims user = c' at hstep ⊢
  cases hstep with
  | same other => rwa [claimTimes_other ls other]
  | @claimed tx _ signed ready =>
    have htimes : claimTimes user (Till.record ls (some (.claimed user tx.now))) =
        tx.now :: claimTimes user ls := by
      simp [Till.record, claimTimes]
    rw [Action.flow, htimes]
    exact hs.claimed (hclock _ rfl) ready

/-- In every run that saturates no counter of the vault, the supply is what the faucet minted less
what was burned, the USDC accounts hold it less what was queued and with what was delivered, the
vault's exactly what its counters and the donations say, and each user's claims are a cooldown
apart. -/
theorem usdc_accounted {rt : Runtime} {authority custodyOwner : Pubkey} {book : PoolBook}
    {ls : List Flow} {w : World}
    (hrun : Runs.Log (Metered rt) (World.start rt authority custodyOwner book) ls w) :
    w.till.Balanced ls ∧ ∀ user, Spaced (w.claims user) (claimTimes user ls) := by
  refine hrun.preserves (I := fun ls w => w.till.Balanced ls ∧
    ∀ user, Spaced (w.claims user) (claimTimes user ls)) ?_ ?_ ?_
  · refine ⟨⟨rfl, ⟨0, 0, total_zero, total_zero, rfl⟩, rfl⟩, fun user => ?_⟩
    exact ⟨.nil, nofun, by simp [claimTimes, World.start]⟩
  · rintro ls v v' ⟨hbal, hclaims⟩ hstep
    exact ⟨hstep.balanced hbal, fun user => hstep.spaced (hclaims user)⟩
  · rintro ls l v v' ⟨hbal, hclaims⟩ hstep
    exact ⟨hstep.balanced hbal, fun user => hstep.spaced (hclaims user)⟩

/-- A private deposit; a claim, a public deposit, a redemption, a donation, a burn; a payment queued
and delivered, public USDC queued; and a second claim. -/
def usdcFlows : List Action :=
  openPrivate ++ delegatePrivate ++ privateDeposit 500000000 ++
    [.program (.alone [user] 100) (.faucet user),
      .program (.alone [user] 110) (.deposit user 400000000),
      .program (.alone [user] 120) (.redeem user 100000000),
      .token (.donate user 50000000),
      .token (.burnUsdc user 7000000),
      .token (.queue depositorAccount 200000000),
      .token (.deliver user 120000000),
      .token (.queueUsdc user 30000000),
      .token (.deliverPrivate depositorAccount 30000000),
      .program (.alone [user] 160) (.faucet user)]

/-- Nine flows of every kind, two of them claims that keep the cooldown. -/
theorem usdc_accounted_flows :
    (flowsOf usdcFlows).length = 9 ∧
    ((World.deployed 1000).after deployment usdcFlows).till.Balanced (flowsOf usdcFlows) ∧
    claimTimes user (flowsOf usdcFlows) = [160, 100] ∧
    Spaced (((World.deployed 1000).after deployment usdcFlows).claims user)
      (claimTimes user (flowsOf usdcFlows)) := by
  have hrun : Runs.Log (Metered deployment) (World.deployed 1000) (flowsOf usdcFlows)
      ((World.deployed 1000).after deployment usdcFlows) := log_of_replays (by decide +kernel)
  have hlaw := usdc_accounted hrun
  exact ⟨by decide +kernel, hlaw.1, by decide +kernel, hlaw.2 user⟩

end Agama
