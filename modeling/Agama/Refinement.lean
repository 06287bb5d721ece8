import Agama.Ledger
import Agama.Lib.Keyed
import Agama.World

/-!
# The program refines the ledger

Every step of the program is a step of the ledger under the move that the action stands for, so what
holds along every run of the ledger holds along every run of the program.
-/

namespace Agama

/-- The private shares of the positions, each on its current copy. -/
def World.privateShares (w : World) : ℕ :=
  Keyed.total (fun d => d.current.privateShares.val) w.positions

/-- The ledger behind the accounts. -/
def World.ledger (w : World) : Ledger := ⟨w.vault, w.book, w.shielded, w.privateShares⟩

/-- What an instruction means for the ledger, at a reading of the clock. -/
def Ix.move (now : ℤ) : Ix → Move
  | .deposit _ amount => .deposit amount
  | .redeem _ shares => .redeem shares
  | .depositPrivate _ _ _ amount => .depositPrivate amount
  | .redeemPrivate _ _ request => .redeemPrivate request.shares
  | .redeemPrivateTo _ _ request _ => .redeemPrivate request.shares
  | .tick _ => .tick now
  | .absorb _ inflow outflow => .absorb now inflow outflow
  | .setApr _ index aprBps => .setApr now index aprBps
  | .delegateBook _ => .delegateBook
  | .commitBook _ => .commitBook
  | .undelegateBook _ => .undelegateBook
  | .delegateShielded _ => .delegateShielded
  | .commitShielded _ => .commitShielded
  | .undelegateShielded _ => .undelegateShielded
  | _ => .other

/-- What an action means for the ledger. -/
def Action.move : Action → Move
  | .program tx ix => ix.move tx.now
  | .token _ => .other

namespace World

/-! ## Loading -/

/-- Solana reads the home copy. -/
@[simp]
theorem info_data {α : Type} (d : Delegable α) : (info d).data = some d.base := rfl

/-- A signature that is there. -/
@[simp]
theorem signs_eq_ok {tx : Tx} {key : Pubkey} {u : Unit} :
    signs tx key = .ok u ↔ key ∈ tx.signers := constraint_eq_ok

/-- A signature of the vault's authority that is there. -/
@[simp]
theorem authoritySigns_eq_ok {w : World} {tx : Tx} {key : Pubkey} {u : Unit} :
    w.authoritySigns tx key = .ok u ↔ key ∈ tx.signers ∧ key = w.vault.authority := by
  simp only [authoritySigns, bind_eq_ok, signs_eq_ok, require_eq_ok, exists_const]

/-- A position loads from the address that its own owner derives. -/
@[simp]
theorem loadPosition_eq_ok {w : World} {owner : Pubkey} {d : Delegable Position} :
    w.loadPosition owner = .ok d ↔
      w.positions.lookup owner = some d ∧ d.current.owner = owner := by
  simp only [loadPosition, bind_eq_ok, orElse_eq_ok, constraint_eq_ok, exists_const, pure_eq_ok]
  constructor
  · rintro ⟨d', hd, howner, rfl⟩
    exact ⟨hd, howner⟩
  · rintro ⟨hd, howner⟩
    exact ⟨d, hd, howner, rfl⟩

/-! ## The private shares -/

/-- Writing a position moves the total by the change in its private shares. -/
theorem privateShares_storePosition {w : World} {o : Pubkey} {d : Delegable Position}
    (d' : Delegable Position) (h : w.positions.lookup o = some d) :
    (w.storePosition o d').privateShares + d.current.privateShares.val =
      w.privateShares + d'.current.privateShares.val :=
  Keyed.total_insert d' h

/-- A write that keeps a position's private shares keeps the total. -/
theorem privateShares_of_eq {w : World} {o : Pubkey} {d d' : Delegable Position}
    (h : w.positions.lookup o = some d)
    (hsame : d'.current.privateShares = d.current.privateShares) :
    (w.storePosition o d').privateShares = w.privateShares := by
  have hsum := privateShares_storePosition d' h
  rw [hsame] at hsum
  omega

/-- A position's private shares are part of the total. -/
theorem privateShares_le {w : World} {o : Pubkey} {d : Delegable Position}
    (h : w.positions.lookup o = some d) : d.current.privateShares.val ≤ w.privateShares :=
  Keyed.le_total (f := fun d => d.current.privateShares.val) h

/-- The ledger does not see a write that keeps a position's private shares. -/
theorem ledger_storePosition {w : World} {o : Pubkey} {d d' : Delegable Position}
    (h : w.positions.lookup o = some d)
    (hsame : d'.current.privateShares = d.current.privateShares) :
    (w.storePosition o d').ledger = w.ledger := by
  rw [ledger, ledger, privateShares_of_eq h hsame]
  rfl

/-! ## Each instruction -/

variable {rt : Runtime} {w w' : World} {tx : Tx}

/-- `deposit` is the ledger's public deposit. -/
theorem execDeposit_ledger {user : Pubkey} {amount : U64}
    (h : w.execDeposit tx user amount = .ok w') :
    Ledger.Step w.ledger (.deposit amount) w'.ledger := by
  simp only [execDeposit, bind_eq_ok, pure_eq_ok, Prod.exists] at h
  obtain ⟨_, -, a, e, hdep, rfl⟩ := h
  obtain ⟨shares, hmints, hvault⟩ := deposit_spec (info_data w.book) (info_data w.shielded) hdep
  have hledger : (w.storePublicFlow a).ledger =
      { w.ledger with vault := w.vault.deposited shares amount } := by
    rw [ledger, storePublicFlow, hvault]
    rfl
  rw [hledger]
  exact .deposit hmints

/-- `redeem` is the ledger's public redemption. -/
theorem execRedeem_ledger {user : Pubkey} {shares : U64}
    (h : w.execRedeem tx user shares = .ok w') :
    Ledger.Step w.ledger (.redeem shares) w'.ledger := by
  simp only [execRedeem, bind_eq_ok, pure_eq_ok, Prod.exists] at h
  obtain ⟨_, -, a, e, hred, rfl⟩ := h
  obtain ⟨assets, hpays, hcovered, hvault⟩ :=
    redeem_spec (info_data w.book) (info_data w.shielded) hred
  have hledger : (w.storePublicFlow a).ledger =
      { w.ledger with vault := w.vault.redeemed shares assets } := by
    rw [ledger, storePublicFlow, hvault]
    rfl
  rw [hledger]
  exact .redeem hpays hcovered

/-- What a private deposit leaves: the shares that its amount mints at the price of the current
aggregate, in the position, and both entered into the ledger. -/
structure CreditsShares (w : World) (position : Pubkey) (amount shares : U64) (w' : World) :
    Prop where
  mints : Mints w.vault w.book.base w.shielded.current amount shares
  position : ∃ d d', w.positions.lookup position = some d ∧ w'.positions.lookup position = some d' ∧
    d'.current.privateShares = satAdd d.current.privateShares shares ∧
    ∃ t, t + d.current.privateShares.val = w.privateShares + d'.current.privateShares.val ∧
      w'.ledger = w.ledger.writeShielded (w.shielded.current.deposited shares amount) t

/-- `deposit_private` credits some shares to the position that it names. -/
theorem execDepositPrivate_credits {depositor signer position : Pubkey} {amount : U64}
    (h : w.execDepositPrivate rt tx depositor signer position amount = .ok w') :
    ∃ shares, w.CreditsShares position amount shares w' := by
  simp only [execDepositPrivate, bind_eq_ok, loadPosition_eq_ok, pure_eq_ok] at h
  obtain ⟨_, -, _, -, d, ⟨hd, -⟩, _, -, a, hdep, rfl⟩ := h
  obtain ⟨shares, hspec⟩ := depositPrivate_spec (info_data w.book) hdep
  have hsum := privateShares_storePosition (d.write a.position) hd
  refine ⟨shares, hspec.mints, d, d.write a.position, hd, AList.lookup_insert _, ?_,
    (w.storePosition position (d.write a.position)).privateShares, hsum, ?_⟩
  · rw [Delegable.current_write]
    exact hspec.privateShares
  · -- The two writes of the handler are one write of the ledger, with the new total of the shares.
    rw [ledger, hspec.shielded]
    rfl

/-- It is the ledger's private deposit. -/
theorem execDepositPrivate_ledger {depositor signer position : Pubkey} {amount : U64}
    (h : w.execDepositPrivate rt tx depositor signer position amount = .ok w') :
    Ledger.Step w.ledger (.depositPrivate amount) w'.ledger := by
  obtain ⟨shares, hcredits⟩ := execDepositPrivate_credits h
  obtain ⟨d, d', hd, -, hshares, t, htotal, hledger⟩ := hcredits.position
  rw [hshares] at htotal
  rw [hledger]
  exact .depositPrivate hcredits.mints (privateShares_le hd) htotal

/-- What a private redemption leaves: a ticket for what its shares pay at the price of the current
aggregate, in the exit book, and both entered into the ledger. -/
structure OpensTicket (w : World) (r : ExitRequest) (ticket : Exit) (w' : World) : Prop where
  pays : Pays w.vault w.book.base w.shielded.current r.shares ticket.assets
  held : ticket.assets.val + w.shielded.current.totalOut.val ≤ w.shielded.current.totalIn.val
  groupId : ticket.groupId = r.groupId
  inRange : 0 < ticket.groupId.val ∧ ticket.groupId.val ≤ 0x00FFFFFF
  unused : ∀ e ∈ w.exits.current.slots.toList, e.groupId ≠ ticket.groupId
  free : ∃ slot, w.exits.current.slots.toList.find? Exit.isFree = some slot
  exits : w'.exits.current = w.exits.current.replaceFirst Exit.isFree ticket
  ledger : ∃ t, t + r.shares.val = w.privateShares ∧ w'.ledger =
    w.ledger.writeShielded (w.shielded.current.redeemed r.shares ticket.assets) t

/-- Both private redemptions come down to an opened exit. -/
theorem execRedeemPrivate_ticket {signer position : Pubkey} {r : ExitRequest}
    {handler : RedeemPrivate → ℤ → Result RedeemPrivate}
    (h : w.execRedeemPrivate tx signer position handler = .ok w')
    (hspec : ∀ {a a' b}, a.book.data = some b → handler a tx.now = .ok a' →
      ∃ ticket, OpensExit a b r ticket a') : ∃ ticket, w.OpensTicket r ticket w' := by
  simp only [execRedeemPrivate, bind_eq_ok, loadPosition_eq_ok, pure_eq_ok] at h
  obtain ⟨_, -, d, ⟨hd, -⟩, _, -, _, -, a, hred, rfl⟩ := h
  obtain ⟨ticket, hopen⟩ := hspec (info_data w.book) hred
  have hsum := privateShares_storePosition (d.write a.position) hd
  have hburned := hopen.burned
  rw [Delegable.current_write] at hsum
  refine ⟨ticket, hopen.pays, hopen.held, hopen.groupId, hopen.inRange, hopen.unused, hopen.free,
    by simp only [Delegable.current_write, hopen.exits],
    (w.storePosition position (d.write a.position)).privateShares, ?_, ?_⟩
  · simp only at hburned
    omega
  · -- The ledger does not see the exit book.
    rw [ledger, hopen.shielded]
    rfl

/-- A handler that opens an exit is the ledger's private redemption. -/
theorem execRedeemPrivate_ledger {signer position : Pubkey} {r : ExitRequest}
    {handler : RedeemPrivate → ℤ → Result RedeemPrivate}
    (h : w.execRedeemPrivate tx signer position handler = .ok w')
    (hspec : ∀ {a a' b}, a.book.data = some b → handler a tx.now = .ok a' →
      ∃ ticket, OpensExit a b r ticket a') :
    Ledger.Step w.ledger (.redeemPrivate r.shares) w'.ledger := by
  obtain ⟨ticket, hopen⟩ := execRedeemPrivate_ticket h hspec
  obtain ⟨t, htotal, hledger⟩ := hopen.ledger
  rw [hledger]
  exact .redeemPrivate hopen.pays hopen.held htotal

/-- The permission handlers leave the ledger alone. -/
theorem execPermission_ledger {signer position : Pubkey}
    {handler : PermissionCtx → ℤ → Result PermissionCtx}
    (h : w.execPermission tx signer position handler = .ok w')
    (hspec : ∀ {a a'}, handler a tx.now = .ok a' → PermissionStep a a' tx.now) :
    w'.ledger = w.ledger := by
  simp only [execPermission, bind_eq_ok, loadPosition_eq_ok, pure_eq_ok] at h
  obtain ⟨_, -, d, ⟨hd, -⟩, a, hrun, rfl⟩ := h
  have hsame : (d.write a.position).current.privateShares = d.current.privateShares := by
    rw [Delegable.current_write]
    exact (hspec hrun).same.privateShares
  exact ledger_storePosition hd hsame

/-- A mark leaves the ledger. -/
theorem execSyncPosition_ledger {signer position : Pubkey} {withAgyld : Bool}
    (h : w.execSyncPosition tx signer position withAgyld = .ok w') : w'.ledger = w.ledger := by
  simp only [execSyncPosition, bind_eq_ok, loadPosition_eq_ok, pure_eq_ok] at h
  obtain ⟨_, -, d, ⟨hd, -⟩, _, -, p, hrun, rfl⟩ := h
  have hsame : (d.write p).current.privateShares = d.current.privateShares := by
    rw [Delegable.current_write]
    exact (syncPosition_spec hrun).2.privateShares
  exact ledger_storePosition hd hsame

/-- So does a rotation. -/
theorem execRotateSession_ledger {submitter position key : Pubkey} {expiry : ℤ}
    (h : w.execRotateSession rt tx submitter position key expiry = .ok w') :
    w'.ledger = w.ledger := by
  simp only [execRotateSession, bind_eq_ok, loadPosition_eq_ok, pure_eq_ok] at h
  obtain ⟨_, -, d, ⟨hd, -⟩, a, hrun, rfl⟩ := h
  have hsame : (d.write a.position).current.privateShares = d.current.privateShares := by
    rw [Delegable.current_write, (rotateSession_spec hrun).2.2]
  exact ledger_storePosition hd hsame

/-- So does an authorisation. -/
theorem execAuthorizeSession_ledger {owner key : Pubkey}
    (h : w.execAuthorizeSession tx owner key = .ok w') : w'.ledger = w.ledger := by
  simp only [execAuthorizeSession, bind_eq_ok, loadPosition_eq_ok, pure_eq_ok] at h
  obtain ⟨_, -, d, ⟨hd, -⟩, p, hrun, rfl⟩ := h
  have hsame : (d.write p).current.privateShares = d.current.privateShares := by
    rw [Delegable.current_write, authorizeSession_spec hrun]
  exact ledger_storePosition hd hsame

/-- So does a new position. -/
theorem execInitPosition_ledger {owner : Pubkey}
    (h : w.execInitPosition rt tx owner = .ok w') : w'.ledger = w.ledger := by
  simp only [execInitPosition, bind_eq_ok, constraint_eq_ok, pure_eq_ok] at h
  obtain ⟨_, -, _, hnone, rfl⟩ := h
  -- A new position holds no private shares.
  have hsum : (w.storePosition owner (.atHome (initPosition owner rt.vaultKey))).privateShares =
      w.privateShares := Keyed.total_insert_of_not_mem _ hnone
  rw [ledger, ledger, hsum]
  rfl

/-- So does the delegation of a position. -/
theorem execDelegatePosition_ledger {owner : Pubkey}
    (h : w.execDelegatePosition tx owner = .ok w') : w'.ledger = w.ledger := by
  simp only [execDelegatePosition, bind_eq_ok, orElse_eq_ok, pure_eq_ok] at h
  obtain ⟨_, -, d, hd, d', hrun, rfl⟩ := h
  exact ledger_storePosition hd (by rw [(Delegable.delegate_eq_some hrun).2])

/-- So does its undelegation. -/
theorem execUndelegatePosition_ledger {payer position : Pubkey}
    (h : w.execUndelegatePosition tx payer position = .ok w') : w'.ledger = w.ledger := by
  simp only [execUndelegatePosition, bind_eq_ok, orElse_eq_ok, pure_eq_ok] at h
  obtain ⟨_, -, d, hd, d', hrun, rfl⟩ := h
  exact ledger_storePosition hd (by rw [(Delegable.undelegate_eq_some hrun).2.1])

/-- The accounts that this program owns are the same in both states. -/
structure SameAccounts (w w' : World) : Prop where
  vault : w'.vault = w.vault
  book : w'.book = w.book
  shielded : w'.shielded = w.shielded
  exits : w'.exits = w.exits
  positions : w'.positions = w.positions
  permissions : w'.permissions = w.permissions

/-- Token movements leave the program's accounts alone. -/
theorem moveTokens_same {t : TokenAction} (h : w.moveTokens rt t = some w') :
    SameAccounts w w' := by
  cases moved_of_moveTokens h
  all_goals exact ⟨rfl, rfl, rfl, rfl, rfl, rfl⟩

/-- Token movements leave the ledger alone. -/
theorem moveTokens_ledger {t : TokenAction} (h : w.moveTokens rt t = some w') :
    w'.ledger = w.ledger := by
  have hsame := moveTokens_same h
  rw [ledger, ledger, privateShares, privateShares, hsame.vault, hsame.book, hsame.shielded,
    hsame.positions]

/-- An instruction is a step of the ledger. -/
theorem exec_ledger {ix : Ix} (h : w.exec rt tx ix = .ok w') :
    Ledger.Step w.ledger (ix.move tx.now) w'.ledger := by
  cases ix with
  -- The accounts that these create exist, so they fail.
  | initializeVault | initBook | migrateBook | initShielded => cases h
  | faucet user =>
    simp only [exec, execFaucet, bind_eq_ok, pure_eq_ok, Prod.exists] at h
    obtain ⟨_, -, _, _, _, -, rfl⟩ := h
    exact .other
  | deposit user amount => exact execDeposit_ledger h
  | redeem user shares => exact execRedeem_ledger h
  | initPosition owner => exact execInitPosition_ledger h ▸ .other
  | delegateBook payer =>
    simp only [exec, bind_eq_ok, orElse_eq_ok, pure_eq_ok] at h
    obtain ⟨_, -, d, hd, rfl⟩ := h
    exact .delegateBook hd
  | authorizeSession owner key => exact execAuthorizeSession_ledger h ▸ .other
  | prepareForRollup owner =>
    simp only [exec, bind_eq_ok, pure_eq_ok] at h
    obtain ⟨_, -, rfl⟩ := h
    exact .other
  | delegatePosition owner => exact execDelegatePosition_ledger h ▸ .other
  | delegateShielded payer =>
    simp only [exec, bind_eq_ok, orElse_eq_ok, pure_eq_ok] at h
    obtain ⟨_, -, d, hd, rfl⟩ := h
    exact .delegateShielded hd
  | delegateExits payer =>
    simp only [exec, bind_eq_ok, orElse_eq_ok, pure_eq_ok] at h
    obtain ⟨_, -, d, hd, rfl⟩ := h
    exact .other
  | tick payer =>
    simp only [exec, bind_eq_ok, pure_eq_ok] at h
    obtain ⟨_, -, b, hb, rfl⟩ := h
    exact .tick hb
  | absorb authority inflow outflow =>
    simp only [exec, bind_eq_ok, pure_eq_ok] at h
    obtain ⟨_, -, r, hr, rfl⟩ := h
    exact .absorb hr
  | setApr authority index aprBps =>
    simp only [exec, bind_eq_ok, pure_eq_ok] at h
    obtain ⟨_, -, b, hb, rfl⟩ := h
    exact .setApr hb
  | commitBook payer =>
    simp only [exec, bind_eq_ok, orElse_eq_ok, pure_eq_ok] at h
    obtain ⟨_, -, d, hd, rfl⟩ := h
    exact .commitBook hd
  | undelegateBook payer =>
    simp only [exec, bind_eq_ok, orElse_eq_ok, pure_eq_ok] at h
    obtain ⟨_, -, d, hd, rfl⟩ := h
    exact .undelegateBook hd
  | initPermission signer position viewers =>
    simp only [exec] at h
    exact execPermission_ledger h initPermission_spec ▸ .other
  | setPermission signer position isPrivate viewers =>
    simp only [exec] at h
    exact execPermission_ledger h setPermission_spec ▸ .other
  | closePermission signer position =>
    simp only [exec] at h
    exact execPermission_ledger h closePermission_spec ▸ .other
  | syncPosition signer position withAgyld => exact execSyncPosition_ledger h ▸ .other
  | rotateSession submitter position key expiry => exact execRotateSession_ledger h ▸ .other
  | initShieldedPermission authority =>
    simp only [exec, execInitShieldedPermission, bind_eq_ok, pure_eq_ok] at h
    obtain ⟨_, -, rfl⟩ := h
    exact .other
  | depositPrivate depositor signer position amount => exact execDepositPrivate_ledger h
  | redeemPrivate signer position request =>
    simp only [exec] at h
    refine execRedeemPrivate_ledger h fun hb hrun => ?_
    obtain ⟨-, ticket, -, hopen⟩ := redeemPrivate_spec hb hrun
    exact ⟨ticket, hopen⟩
  | redeemPrivateTo signer position request payout =>
    simp only [exec] at h
    refine execRedeemPrivate_ledger h fun hb hrun => ?_
    obtain ⟨-, ticket, -, hopen⟩ := redeemPrivateTo_spec hb hrun
    exact ⟨ticket, hopen⟩
  | settleExit authority groupId =>
    simp only [exec, execSettleExit, bind_eq_ok, pure_eq_ok] at h
    obtain ⟨_, -, _, -, _, -, rfl⟩ := h
    exact .other
  | commitShielded payer =>
    simp only [exec, bind_eq_ok, orElse_eq_ok, pure_eq_ok] at h
    obtain ⟨_, -, d, hd, rfl⟩ := h
    exact .commitShielded hd
  | undelegateShielded payer =>
    simp only [exec, bind_eq_ok, orElse_eq_ok, pure_eq_ok] at h
    obtain ⟨_, -, d, hd, rfl⟩ := h
    exact .undelegateShielded hd
  | undelegatePosition payer position => exact execUndelegatePosition_ledger h ▸ .other

/-- The program refines the ledger: every action is the step that its move stands for. -/
theorem step_ledger {a : Action} (h : w.step rt a = .ok w') :
    Ledger.Step w.ledger a.move w'.ledger := by
  cases a with
  | program tx ix => exact exec_ledger h
  | token t =>
    rw [step, orElse_eq_ok] at h
    exact moveTokens_ledger h ▸ .other

/-- Along every run the copies on Solana stay behind, and the counters move forward. -/
theorem run_forward (hrun : Run rt w w') (hw : w.ledger.InOrder) :
    w'.ledger.InOrder ∧ w.ledger.Forward w'.ledger := by
  induction hrun with
  | refl => exact ⟨hw, .refl _⟩
  | tail _ hlast ih =>
    obtain ⟨a, ha, -⟩ := hlast
    obtain ⟨hord, hfwd⟩ := (step_ledger ha).forward ih.1
    exact ⟨hord, ih.2.trans hfwd⟩

/-- Nothing is published yet at the start. -/
theorem start_inOrder (rt : Runtime) (authority custodyOwner : Pubkey) (book : PoolBook) :
    (start rt authority custodyOwner book).ledger.InOrder :=
  ⟨.refl _, .refl _⟩

end World

end Agama
