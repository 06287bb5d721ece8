import Agama.Accrual
import Agama.Holdings

/-!
# Each account's copies

What one action does to each account that can be delegated: the book, the aggregate, the exit book
and every position. An instruction writes the current copy, and its handler says how; beyond that a
copy is started, published or handed back. The exit book is only ever started. What every write of
an account keeps therefore holds of both its copies in every state that the program reaches.
-/

namespace Agama

/-! ## The book and the aggregate -/

/-- The reading of the clock in an action's transaction. -/
def Action.now : Action → ℤ
  | .program tx _ => tx.now
  | .token _ => 0

/-- The operation on the book that a move stands for. -/
def Move.bookOp : Move → Option BookOp
  | .tick now => some (.tick now)
  | .absorb now inflow outflow => some (.absorb now inflow outflow)
  | .setApr now index aprBps => some (.setApr now index aprBps)
  | _ => none

/-- How a move may write the book. -/
def Move.WritesBook (m : Move) (b b' : PoolBook) : Prop :=
  ∃ op, m.bookOp = some op ∧ b.apply op = .ok b'

/-- Every operation leaves the book at its reading of the clock. -/
theorem Move.WritesBook.lastTs {a : Action} {b b' : PoolBook} (h : a.move.WritesBook b b') :
    b'.lastTs = a.now := by
  obtain ⟨op, hop, hrun⟩ := h
  rw [(apply_advanced hrun).lastTs]
  cases a with
  | token t => cases hop
  | program tx ix =>
    cases ix
    case tick | absorb | setApr =>
      cases hop
      rfl
    all_goals cases hop

/-- How private flow may write the aggregate. -/
def Shielded.Writes (s s' : Shielded) : Prop :=
  ∃ shares amount, s' = s.deposited shares amount ∨ s' = s.redeemed shares amount

namespace Ledger

variable {L L' : Ledger} {m : Move}

/-- A step of the ledger does to the two copies of the book what can be done to a delegated value.
-/
theorem Step.book (h : Step L m L') : Delegable.Step m.WritesBook L.book L'.book := by
  cases h with
  | tick run => exact .write ⟨_, rfl, run⟩
  | absorb run =>
    refine .write ⟨_, rfl, ?_⟩
    rw [PoolBook.apply, run]
    rfl
  | setApr run => exact .write ⟨_, rfl, run⟩
  | delegateBook run => exact .delegate run
  | commitBook run => exact .commit run
  | undelegateBook run => exact .undelegate run
  | deposit | redeem | depositPrivate | redeemPrivate | delegateShielded | commitShielded
  | undelegateShielded | other => exact .same

/-- And to the two copies of the aggregate. -/
theorem Step.shielded (h : Step L m L') :
    Delegable.Step Shielded.Writes L.shielded L'.shielded := by
  cases h with
  | depositPrivate mints held total => exact .write ⟨_, _, .inl rfl⟩
  | redeemPrivate pays held total => exact .write ⟨_, _, .inr rfl⟩
  | delegateShielded run => exact .delegate run
  | commitShielded run => exact .commit run
  | undelegateShielded run => exact .undelegate run
  | deposit | redeem | tick | absorb | setApr | delegateBook | commitBook | undelegateBook
  | other => exact .same

end Ledger

/-! ## Positions -/

/-- An `i64`. -/
def IsI64 (z : ℤ) : Prop := -2^63 ≤ z ∧ z < 2^63

instance (z : ℤ) : Decidable (IsI64 z) := inferInstanceAs (Decidable (_ ∧ _))

/-- The share price of some accounts. -/
def PriceOf (v : Vault) (b : PoolBook) (s : Shielded) (price : U64) : Prop :=
  ∃ nav supply, navForPricing v b s = .ok (nav, supply) ∧ sharePrice nav supply = .ok price

/-- How an instruction may write a position, at a reading of the clock and a price in `Q`. -/
inductive Position.Writes (now : ℤ) (Q : U64 → Prop) (p : Position) : Position → Prop
  | session {key : Pubkey} {expiry : ℤ} (fits : IsI64 now → IsI64 expiry) :
      Writes now Q p { p with sessionKey := key, sessionExpiry := expiry }
  | gate {isPrivate : Bool} : Writes now Q p { p with isPrivate }
  /-- Every other write ends with a re-mark, and keeps the session. -/
  | marked {q p' : Position} {price : U64} (priced : Q price) (run : mark q price now = .ok p')
      (key : p'.sessionKey = p.sessionKey) (expiry : p'.sessionExpiry = p.sessionExpiry) :
      Writes now Q p p'

/-- What an instruction can do to the position at an owner's address. -/
inductive OwnerStep (rt : Runtime) (now : ℤ) (Q : U64 → Prop) (o : Pubkey) :
    Option (Delegable Position) → Option (Delegable Position) → Prop
  | same {x : Option (Delegable Position)} : OwnerStep rt now Q o x x
  | opened : OwnerStep rt now Q o none (some (.atHome (initPosition o rt.vaultKey)))
  | moved {d d' : Delegable Position} (step : Delegable.Step (Position.Writes now Q) d d') :
      OwnerStep rt now Q o (some d) (some d')

section Handlers

variable {Q : U64 → Prop}

/-- `authorize_session` writes the session. -/
theorem authorizeSession_writes {p p' : Position} {now : ℤ} {key : Pubkey}
    (h : authorizeSession p now key = .ok p') : Position.Writes now Q p p' := by
  simp only [authorizeSession, bind_eq_ok, i64_eq_ok, pure_eq_ok] at h
  obtain ⟨_, -, _, ⟨hfits, rfl⟩, rfl⟩ := h
  exact .session fun _ => hfits

/-- `rotate_session` writes the session, with an expiry between the clock and a limit that fits. -/
theorem rotateSession_writes {rt : Runtime} {tx : Tx} {a a' : RotateSession} {key : Pubkey}
    {expiry : ℤ} (h : rotateSession rt tx a key expiry = .ok a') :
    Position.Writes tx.now Q a.position a'.position := by
  simp only [rotateSession, bind_eq_ok, require_eq_ok, i64_eq_ok, exists_const, pure_eq_ok] at h
  obtain ⟨-, hlater, _, ⟨⟨-, hlt⟩, rfl⟩, ⟨hle, -⟩, prev, -, _, -, permission, -, rfl⟩ := h
  exact .session fun hnow => ⟨by have := hnow.1; omega, by omega⟩

/-- `sync_position` ends with a re-mark at the price of its accounts. -/
theorem syncPosition_writes {a : SyncPosition} {now : ℤ} {p : Position} {b : PoolBook}
    (hb : a.book.data = some b) (h : syncPosition a now = .ok p) :
    Position.Writes now (PriceOf a.vault b a.shielded) a.position p := by
  have hsame := (syncPosition_spec h).2
  simp only [syncPosition, readBook, bind_eq_ok, readAccount_eq_ok, Prod.exists] at h
  obtain ⟨_, -, b', ⟨-, hb'⟩, nav, supply, hnav, price, hprice, q, -, hmark⟩ := h
  rw [hb, Option.some.injEq] at hb'
  subst hb'
  exact .marked ⟨nav, supply, hnav, hprice⟩ hmark hsame.sessionKey hsame.sessionExpiry

/-- So does `deposit_private`. -/
theorem depositPrivate_writes {rt : Runtime} {tx : Tx} {a a' : DepositPrivate} {amount : U64}
    {b : PoolBook} (hb : a.book.data = some b) (h : depositPrivate rt tx a amount = .ok a') :
    Position.Writes tx.now (PriceOf a.vault b a.shielded) a.position a'.position := by
  obtain ⟨shares, hspec⟩ := depositPrivate_spec hb h
  simp only [depositPrivate, readBook, bind_eq_ok, readAccount_eq_ok, pure_eq_ok,
    Prod.exists] at h
  obtain ⟨_, -, _, -, _, -, _, -, b', ⟨-, hb'⟩, nav, supply, hnav, _, -, _, -, price, hprice, _, -,
    q, hmark, rfl⟩ := h
  rw [hb, Option.some.injEq] at hb'
  subst hb'
  exact .marked ⟨nav, supply, hnav, hprice⟩ hmark hspec.sessionKey hspec.sessionExpiry

/-- So does `open_exit`. -/
theorem openExit_writes {a a' : RedeemPrivate} {r : ExitRequest} {destination : Pubkey} {now : ℤ}
    {b : PoolBook} (hb : a.book.data = some b) (h : openExit a r destination now = .ok a') :
    Position.Writes now (PriceOf a.vault b a.shielded) a.position a'.position := by
  obtain ⟨ticket, -, hspec⟩ := openExit_spec hb h
  simp only [openExit, readBook, bind_eq_ok, readAccount_eq_ok, pure_eq_ok, Prod.exists] at h
  obtain ⟨_, -, _, -, _, -, _, -, b', ⟨-, hb'⟩, nav, supply, hnav, _, -, _, -, _, -, price, hprice,
    _, -, _, -, p, hmark, rfl⟩ := h
  rw [hb, Option.some.injEq] at hb'
  subst hb'
  exact .marked ⟨nav, supply, hnav, hprice⟩ hmark hspec.sessionKey hspec.sessionExpiry

/-- The permission handlers write the flag. -/
theorem initPermission_writes {a a' : PermissionCtx} {now : ℤ} {viewers : List Pubkey}
    (h : initPermission a now viewers = .ok a') :
    Position.Writes now Q a.position a'.position := by
  simp only [initPermission, bind_eq_ok] at h
  obtain ⟨_, -, _, -, h⟩ := h
  split at h
  all_goals
    rw [pure_eq_ok] at h
    subst h
    exact .gate

/-- `set_permission` writes the mirror of the gate. -/
theorem setPermission_writes {a a' : PermissionCtx} {now : ℤ} {isPrivate : Bool}
    {viewers : List Pubkey} (h : setPermission a now isPrivate viewers = .ok a') :
    Position.Writes now Q a.position a'.position := by
  simp only [setPermission, bind_eq_ok, pure_eq_ok] at h
  obtain ⟨_, -, _, -, _, -, rfl⟩ := h
  exact .gate

/-- So does `close_permission`. -/
theorem closePermission_writes {a a' : PermissionCtx} {now : ℤ}
    (h : closePermission a now = .ok a') : Position.Writes now Q a.position a'.position := by
  simp only [closePermission, bind_eq_ok, pure_eq_ok] at h
  obtain ⟨_, -, _, -, rfl⟩ := h
  exact .gate

end Handlers

namespace World

variable {rt : Runtime} {w w' : World} {tx : Tx} {ix : Ix}

/-- The share price of private flow: on the book that Solana holds and the live aggregate. -/
def Price (w : World) : U64 → Prop := PriceOf w.vault w.book.base w.shielded.current

/-- An instruction that moves one position leaves every other one. -/
theorem positions_store {a : Pubkey} {d d' : Delegable Position} {now : ℤ} {Q : U64 → Prop}
    (hd : w.positions.lookup a = some d) (hstep : Delegable.Step (Position.Writes now Q) d d')
    (hp : w'.positions = w.positions.insert a d') (o : Pubkey) :
    OwnerStep rt now Q o (w.positions.lookup o) (w'.positions.lookup o) := by
  rw [hp]
  by_cases ho : o = a
  · subst ho
    rw [AList.lookup_insert, hd]
    exact .moved hstep
  · rw [AList.lookup_insert_ne ho]
    exact .same

/-- An instruction about permissions does to each owner's position what its handler writes. -/
theorem execPermission_positions {signer position : Pubkey}
    {handler : PermissionCtx → ℤ → Result PermissionCtx}
    (h : w.execPermission tx signer position handler = .ok w')
    (hw : ∀ {a a'}, handler a tx.now = .ok a' →
      Position.Writes tx.now w.Price a.position a'.position) (o : Pubkey) :
    OwnerStep rt tx.now w.Price o (w.positions.lookup o) (w'.positions.lookup o) := by
  simp only [execPermission, bind_eq_ok, loadPosition_eq_ok, pure_eq_ok] at h
  obtain ⟨_, -, d, ⟨hd, -⟩, a, hrun, rfl⟩ := h
  have hwrites : Position.Writes tx.now w.Price d.current a.position := hw hrun
  exact positions_store hd (.write hwrites) rfl o

/-- So does a private redemption, at the price that its handler found. -/
theorem execRedeemPrivate_positions {signer position : Pubkey}
    {handler : RedeemPrivate → ℤ → Result RedeemPrivate}
    (h : w.execRedeemPrivate tx signer position handler = .ok w')
    (hw : ∀ {a a' b}, a.book.data = some b → handler a tx.now = .ok a' →
      Position.Writes tx.now (PriceOf a.vault b a.shielded) a.position a'.position) (o : Pubkey) :
    OwnerStep rt tx.now w.Price o (w.positions.lookup o) (w'.positions.lookup o) := by
  simp only [execRedeemPrivate, bind_eq_ok, loadPosition_eq_ok, pure_eq_ok] at h
  obtain ⟨_, -, d, ⟨hd, -⟩, _, -, _, -, a, hrun, rfl⟩ := h
  have hwrites : Position.Writes tx.now w.Price d.current a.position :=
    hw (info_data w.book) hrun
  exact positions_store hd (.write hwrites) rfl o

/-- What every instruction does to every position. -/
theorem exec_positions (h : w.exec rt tx ix = .ok w') (o : Pubkey) :
    OwnerStep rt tx.now w.Price o (w.positions.lookup o) (w'.positions.lookup o) := by
  cases ix with
  | initializeVault | initBook | migrateBook | initShielded => cases h
  | initPosition owner =>
    simp only [exec, execInitPosition, bind_eq_ok, constraint_eq_ok, pure_eq_ok] at h
    obtain ⟨_, -, _, hnone, rfl⟩ := h
    by_cases ho : o = owner
    · subst ho
      rw [hnone, storePosition, AList.lookup_insert]
      exact .opened
    · rw [storePosition, AList.lookup_insert_ne ho]
      exact .same
  | authorizeSession owner key =>
    simp only [exec, execAuthorizeSession, bind_eq_ok, loadPosition_eq_ok, pure_eq_ok] at h
    obtain ⟨_, -, d, ⟨hd, -⟩, p, hrun, rfl⟩ := h
    exact positions_store hd (.write (authorizeSession_writes hrun)) rfl o
  | rotateSession submitter position key expiry =>
    simp only [exec, execRotateSession, bind_eq_ok, loadPosition_eq_ok, pure_eq_ok] at h
    obtain ⟨_, -, d, ⟨hd, -⟩, a, hrun, rfl⟩ := h
    exact positions_store hd (.write (rotateSession_writes hrun)) rfl o
  | delegatePosition owner =>
    simp only [exec, execDelegatePosition, bind_eq_ok, orElse_eq_ok, pure_eq_ok] at h
    obtain ⟨_, -, d, hd, d', hrun, rfl⟩ := h
    exact positions_store hd (.delegate hrun) rfl o
  | undelegatePosition payer position =>
    simp only [exec, execUndelegatePosition, bind_eq_ok, orElse_eq_ok, pure_eq_ok] at h
    obtain ⟨_, -, d, hd, d', hrun, rfl⟩ := h
    exact positions_store hd (.undelegate hrun) rfl o
  | initPermission signer position viewers =>
    simp only [exec] at h
    exact execPermission_positions h initPermission_writes o
  | setPermission signer position isPrivate viewers =>
    simp only [exec] at h
    exact execPermission_positions h setPermission_writes o
  | closePermission signer position =>
    simp only [exec] at h
    exact execPermission_positions h closePermission_writes o
  | syncPosition signer position withAgyld =>
    simp only [exec, execSyncPosition, bind_eq_ok, loadPosition_eq_ok, pure_eq_ok] at h
    obtain ⟨_, -, d, ⟨hd, -⟩, _, -, p, hrun, rfl⟩ := h
    exact positions_store hd (.write (syncPosition_writes (info_data w.book) hrun)) rfl o
  | depositPrivate depositor signer position amount =>
    simp only [exec, execDepositPrivate, bind_eq_ok, loadPosition_eq_ok, pure_eq_ok] at h
    obtain ⟨_, -, _, -, d, ⟨hd, -⟩, _, -, a, hrun, rfl⟩ := h
    exact positions_store hd (.write (depositPrivate_writes (info_data w.book) hrun)) rfl o
  | redeemPrivate signer position request =>
    simp only [exec] at h
    refine execRedeemPrivate_positions h (fun hb hrun => ?_) o
    simp only [redeemPrivate, bind_eq_ok] at hrun
    obtain ⟨_, -, hopen⟩ := hrun
    exact openExit_writes hb hopen
  | redeemPrivateTo signer position request payout =>
    simp only [exec] at h
    refine execRedeemPrivate_positions h (fun hb hrun => ?_) o
    simp only [redeemPrivateTo, bind_eq_ok] at hrun
    obtain ⟨_, -, _, -, hopen⟩ := hrun
    exact openExit_writes hb hopen
  -- The rest writes no position.
  | faucet | deposit | redeem | prepareForRollup | initShieldedPermission | settleExit | tick
  | absorb | setApr | delegateBook | commitBook | undelegateBook | delegateShielded | commitShielded
  | undelegateShielded | delegateExits =>
    rw [((exec_frame h).holdings rfl).1]
    exact .same

/-- What every action does to every position. -/
theorem step_positions {a : Action} (h : w.step rt a = .ok w') (o : Pubkey) :
    OwnerStep rt a.now w.Price o (w.positions.lookup o) (w'.positions.lookup o) := by
  cases a with
  | program tx ix => exact exec_positions h o
  | token t =>
    rw [step, orElse_eq_ok] at h
    rw [(moveTokens_same h).positions]
    exact .same

end World

/-! ## Claims -/

/-- A user's claim on the faucet stays, or the user makes one at the time of the transaction, when
the last one allows it. -/
inductive ClaimStep (user : Pubkey) : Action → FaucetClaim → FaucetClaim → Prop
  | same {a : Action} {c : FaucetClaim} (other : ∀ tx, a ≠ .program tx (.faucet user)) :
      ClaimStep user a c c
  | claimed {tx : Tx} {c : FaucetClaim} (signed : user ∈ tx.signers)
      (ready : faucetReady c tx.now = .ok ()) :
      ClaimStep user (.program tx (.faucet user)) c ⟨user, tx.now⟩

/-- Any action does to a user's claim record nothing, or what `faucet` does. -/
theorem World.step_claims {rt : Runtime} {w w' : World} {a : Action} (h : w.step rt a = .ok w')
    (user : Pubkey) : ClaimStep user a (w.claims user) (w'.claims user) := by
  cases a with
  | token t =>
    rw [step, orElse_eq_ok] at h
    cases moved_of_moveTokens h
    all_goals exact .same fun _ heq => by cases heq
  | program tx ix =>
    simp only [step] at h
    cases ix with
    | faucet claimant =>
      simp only [exec, execFaucet, faucet, bind_eq_ok, signs_eq_ok, pure_eq_ok, Prod.exists,
        Prod.mk.injEq] at h
      obtain ⟨_, hsigned, c, _, _, ⟨_, hready, _, -, _, -, rfl, -, -⟩, rfl⟩ := h
      by_cases huser : user = claimant
      · subst huser
        simp only [Function.update_self]
        exact .claimed hsigned hready
      · simp only [Function.update_of_ne huser]
        refine .same fun _ heq => huser ?_
        cases heq
        rfl
    | initializeVault | initBook | migrateBook | initShielded => cases h
    | prepareForRollup | initShieldedPermission =>
      simp only [exec, execInitShieldedPermission, bind_eq_ok, pure_eq_ok] at h
      obtain ⟨_, -, rfl⟩ := h
      exact .same fun _ heq => by cases heq
    | tick | absorb | setApr | delegateBook | commitBook | undelegateBook | delegateShielded
    | commitShielded | undelegateShielded | delegateExits =>
      simp only [exec, bind_eq_ok, pure_eq_ok] at h
      obtain ⟨_, -, _, -, rfl⟩ := h
      exact .same fun _ heq => by cases heq
    | deposit | redeem =>
      simp only [exec, execDeposit, execRedeem, bind_eq_ok, pure_eq_ok, Prod.exists] at h
      obtain ⟨_, -, _, _, -, rfl⟩ := h
      exact .same fun _ heq => by cases heq
    | initPosition =>
      simp only [exec, execInitPosition, bind_eq_ok, pure_eq_ok] at h
      obtain ⟨_, -, _, -, rfl⟩ := h
      exact .same fun _ heq => by cases heq
    | initPermission | setPermission | closePermission | rotateSession | authorizeSession
    | delegatePosition | undelegatePosition =>
      simp only [exec, execPermission, execRotateSession, execAuthorizeSession,
        execDelegatePosition, execUndelegatePosition, bind_eq_ok, pure_eq_ok] at h
      obtain ⟨_, -, _, -, _, -, rfl⟩ := h
      exact .same fun _ heq => by cases heq
    | syncPosition =>
      simp only [exec, execSyncPosition, bind_eq_ok, pure_eq_ok] at h
      obtain ⟨_, -, _, -, _, -, _, -, rfl⟩ := h
      exact .same fun _ heq => by cases heq
    | settleExit =>
      simp only [exec, execSettleExit, bind_eq_ok, pure_eq_ok] at h
      obtain ⟨_, -, _, -, _, -, rfl⟩ := h
      exact .same fun _ heq => by cases heq
    | depositPrivate | redeemPrivate | redeemPrivateTo =>
      simp only [exec, execDepositPrivate, execRedeemPrivate, bind_eq_ok, pure_eq_ok] at h
      obtain ⟨_, -, _, -, _, -, _, -, _, -, rfl⟩ := h
      exact .same fun _ heq => by cases heq

/-! ## Runs -/

section Runs

variable {rt : Runtime} {P : World → Action → World → Prop} {w w' : World}

/-- What every write of the book keeps, along a run, holds of both its copies. -/
theorem World.run_book {I : PoolBook → Prop}
    (hkeep : ∀ {v a v' b b'}, P v a v' → I b → a.move.WritesBook b b' → I b')
    (hrun : Relation.ReflTransGen (StepWith rt P) w w') (hw : w.book.Both I) : w'.book.Both I := by
  refine Runs.preserves (I := fun w : World => w.book.Both I) ?_ hrun hw
  rintro v v' hv ⟨a, ha, hP⟩
  exact (step_ledger ha).book.both (hkeep hP) hv

/-- What holds of every reading of the clock holds of both copies' times. -/
theorem World.run_lastTs {T : ℤ → Prop} (hclock : ∀ {v a v'}, P v a v' → T a.now)
    (hrun : Relation.ReflTransGen (StepWith rt P) w w') (hw : w.book.Both fun b => T b.lastTs) :
    w'.book.Both fun b => T b.lastTs :=
  run_book (fun hP _ hwrites => hwrites.lastTs ▸ hclock hP) hrun hw

/-- And of the time of every claim. -/
theorem World.run_claims {T : ℤ → Prop} (hclock : ∀ {v a v'}, P v a v' → T a.now)
    (hrun : Relation.ReflTransGen (StepWith rt P) w w') (user : Pubkey)
    (hw : T (w.claims user).lastTs) : T (w'.claims user).lastTs := by
  refine Runs.preserves (I := fun w : World => T (w.claims user).lastTs) ?_ hrun hw
  rintro v v' hv ⟨a, ha, hP⟩
  have hstep := step_claims ha user
  generalize v.claims user = c at hstep hv
  generalize v'.claims user = c' at hstep ⊢
  cases hstep with
  | same => exact hv
  | claimed signed ready => exact hclock hP

/-- What every step keeps of the positions that it leaves, and every write of one that it writes,
holds along a run of both copies of every position. -/
theorem World.run_positions {I : World → Pubkey → Position → Prop}
    (hlater : ∀ {v a v' o p}, v.step rt a = .ok v' → P v a v' → I v o p → I v' o p)
    (hkeep : ∀ {v a v' o p p'}, Relation.ReflTransGen (StepWith rt P) w v →
      v.step rt a = .ok v' → P v a v' → I v' o p → Position.Writes a.now v.Price p p' → I v' o p')
    (hinit : ∀ w o, I w o (initPosition o rt.vaultKey))
    (hrun : Relation.ReflTransGen (StepWith rt P) w w')
    (hw : ∀ o d, w.positions.lookup o = some d → d.Both (I w o)) {o : Pubkey}
    {d : Delegable Position} (hd : w'.positions.lookup o = some d) : d.Both (I w' o) := by
  induction hrun generalizing o d with
  | refl => exact hw o d hd
  | @tail v v' hv hlast ih =>
    obtain ⟨a, ha, hP⟩ := hlast
    have hstep := step_positions ha o
    rw [hd] at hstep
    generalize hx : v.positions.lookup o = x at hstep
    cases hstep with
    | same =>
      obtain ⟨hbase, hcurrent⟩ := ih hx
      exact ⟨hlater ha hP hbase, hlater ha hP hcurrent⟩
    | opened => exact ⟨hinit v' o, hinit v' o⟩
    | moved step =>
      obtain ⟨hbase, hcurrent⟩ := ih hx
      exact step.both (hkeep hv ha hP) ⟨hlater ha hP hbase, hlater ha hP hcurrent⟩

end Runs

end Agama
