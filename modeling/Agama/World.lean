import Mathlib.Data.List.AList
import Agama.Flows
import Agama.Lib.Delegable
import Agama.Lib.Runs

/-!
# The program

Every account of the program with its copies on the two layers, every instruction as a step on them,
and the runs of those steps. An instruction loads its accounts under the constraints of its context
(`exec`), runs its handler, and stores what the handler wrote. It runs on one layer: the accounts
that it writes are all at home or all delegated. The book that flows price on is the copy on Solana,
in the enclave too, where it is a clone of that copy.

What moves tokens without this program (SPL transfers and burns, shielding, payments into
MagicBlock's queue and deliveries out of it) is `TokenAction`. Lamports are left out, so topping an
account up has no effect here.
-/

namespace Agama

open TokenLedger

/-- The accounts. Positions and their permissions are named by the owner that a position's address
is derived from, base-layer token accounts by their owner, private ones by their address. -/
structure World where
  vault : Vault
  vaultUsdc : U64
  usdc : Balances Pubkey 64
  agyld : Balances Pubkey 64
  usdcSupply : U64
  agyldSupply : U64
  claims : Pubkey → FaucetClaim
  book : Delegable PoolBook
  shielded : Delegable Shielded
  exits : Delegable ExitBook
  positions : AList fun _ : Pubkey => Delegable Position
  permissions : Pubkey → Option Permission
  shieldedPermission : Option Permission
  exitsPermission : Option Permission
  privateUsdc : Balances Pubkey 64

/-- The program's instructions, with the accounts that their caller chooses. -/
inductive Ix where
  | initializeVault (payer : Pubkey)
  | initBook (authority : Pubkey) (pools : List.Vector PoolInit poolCount)
  | faucet (user : Pubkey)
  | deposit (user : Pubkey) (amount : U64)
  | redeem (user : Pubkey) (shares : U64)
  | initPosition (owner : Pubkey)
  | migrateBook (authority : Pubkey)
  | delegateBook (payer : Pubkey)
  | authorizeSession (owner sessionKey : Pubkey)
  | prepareForRollup (owner : Pubkey)
  | delegatePosition (owner : Pubkey)
  | initShielded (authority custodyOwner : Pubkey)
  | delegateShielded (payer : Pubkey)
  | delegateExits (payer : Pubkey)
  | tick (payer : Pubkey)
  | absorb (authority : Pubkey) (inflow outflow : U64)
  | setApr (authority : Pubkey) (index : U8) (aprBps : U32)
  | commitBook (payer : Pubkey)
  | undelegateBook (payer : Pubkey)
  | initPermission (signer position : Pubkey) (viewers : List Pubkey)
  | setPermission (signer position : Pubkey) (isPrivate : Bool) (viewers : List Pubkey)
  | closePermission (signer position : Pubkey)
  | syncPosition (signer position : Pubkey) (withAgyld : Bool)
  | rotateSession (submitter position sessionKey : Pubkey) (expiry : ℤ)
  | initShieldedPermission (authority : Pubkey)
  | depositPrivate (depositor signer position : Pubkey) (amount : U64)
  | redeemPrivate (signer position : Pubkey) (request : ExitRequest)
  | redeemPrivateTo (signer position : Pubkey) (request : ExitRequest) (payout : Pubkey)
  | settleExit (authority : Pubkey) (groupId : U32)
  | commitShielded (payer : Pubkey)
  | undelegateShielded (payer : Pubkey)
  | undelegatePosition (payer position : Pubkey)

/-! ## Setting up -/

/-- `initialize`. -/
def initializeVault (payer usdcMint agyldMint : Pubkey) : Vault where
  authority := payer
  usdcMint := usdcMint
  agyldMint := agyldMint
  shares := 0
  totalIn := 0
  totalOut := 0

/-- `init_shielded`. -/
def initShielded (vault custodyOwner : Pubkey) : Shielded × ExitBook :=
  (⟨vault, custodyOwner, 0, 0, 0⟩, ⟨vault, List.Vector.replicate exitSlots Exit.default⟩)

/-- `migrate_book`. -/
def migrateBook (vault authority : Pubkey) (legacyBook : AccountInfo PoolBook) :
    Result PoolBook := do
  let old ← readBook legacyBook
  pure { old with vault, authority }

/-- The accounts once the vault, the book and the private side exist. -/
def World.start (rt : Runtime) (authority custodyOwner : Pubkey) (book : PoolBook) : World where
  vault := initializeVault authority rt.usdcMint rt.agyldMint
  vaultUsdc := 0
  usdc := fun _ => 0
  agyld := fun _ => 0
  usdcSupply := 0
  agyldSupply := 0
  claims := fun user => ⟨user, 0⟩
  book := .atHome book
  shielded := .atHome (initShielded rt.vaultKey custodyOwner).1
  exits := .atHome (initShielded rt.vaultKey custodyOwner).2
  positions := ∅
  permissions := fun _ => none
  shieldedPermission := none
  exitsPermission := none
  privateUsdc := fun _ => 0

/-- The accounts as `initialize`, `init_book` and `init_shielded` leave them. -/
def World.initial (rt : Runtime) (authority custodyOwner : Pubkey) (now : ℤ)
    (pools : List.Vector PoolInit poolCount) : World :=
  .start rt authority custodyOwner (initBook rt.vaultKey authority now pools)

/-- The accounts with the book, the aggregate and the exits delegated, and nothing committed yet. -/
def World.layered (rt : Runtime) (authority custodyOwner : Pubkey) (now : ℤ)
    (pools : List.Vector PoolInit poolCount) : World :=
  let w := World.initial rt authority custodyOwner now pools
  { w with
    book := ⟨w.book.base, some w.book.base⟩
    shielded := ⟨w.shielded.base, some w.shielded.base⟩
    exits := ⟨w.exits.base, some w.exits.base⟩ }

namespace World

/-! ## Loading and storing -/

/-- The owner that Solana reports for an account of this program. -/
def ownerOf {α : Type} (d : Delegable α) : Pubkey :=
  if d.live.isSome then delegationProgramId else programId

/-- An account as Solana holds it. -/
def info {α : Type} (d : Delegable α) : AccountInfo α := ⟨ownerOf d, some d.base⟩

/-- A key signs the transaction. -/
def signs (tx : Tx) (key : Pubkey) : Result Unit := constraint (key ∈ tx.signers)

/-- The vault's authority signs. -/
def authoritySigns (w : World) (tx : Tx) (key : Pubkey) : Result Unit := do
  signs tx key
  require (key = w.vault.authority) .unauthorized

/-- The book's authority signs. -/
def bookAuthoritySigns (w : World) (tx : Tx) (key : Pubkey) : Result Unit := do
  signs tx key
  require (key = w.book.current.authority) .unauthorized

/-- The position at an address, whose seeds name its own owner. -/
def loadPosition (w : World) (owner : Pubkey) : Result (Delegable Position) := do
  let d ← orElse (w.positions.lookup owner) .account
  constraint (d.current.owner = owner)
  pure d

/-- Two accounts that one instruction writes are on one layer. -/
def sameLayer {α β : Type} (d : Delegable α) (e : Delegable β) : Result Unit :=
  constraint (d.live.isSome = e.live.isSome)

/-- An account that Anchor loads, where an instruction writes `d`: a delegated account does not load
on Solana. -/
def loads {α β : Type} (d : Delegable α) (e : Delegable β) : Result Unit :=
  constraint (d.live.isSome = true ∨ e.live.isNone = true)

/-- Write a position back. -/
def storePosition (w : World) (owner : Pubkey) (d : Delegable Position) : World :=
  { w with positions := w.positions.insert owner d }

/-- The accounts of a public flow. -/
def publicFlow (w : World) (user : Pubkey) : PublicFlow where
  user := user
  vault := w.vault
  book := info w.book
  shielded := info w.shielded
  userUsdc := w.usdc user
  userAgyld := w.agyld user
  vaultUsdc := w.vaultUsdc
  agyldMint := w.agyldSupply

/-- Write the accounts of a public flow back. -/
def storePublicFlow (w : World) (a : PublicFlow) : World :=
  { w with
    vault := a.vault
    usdc := Function.update w.usdc a.user a.userUsdc
    agyld := Function.update w.agyld a.user a.userAgyld
    vaultUsdc := a.vaultUsdc
    agyldSupply := a.agyldMint }

/-! ## The instructions on the accounts -/

/-- `Deposit`. -/
def execDeposit (w : World) (tx : Tx) (user : Pubkey) (amount : U64) : Result World := do
  signs tx user
  let (a, _) ← deposit (w.publicFlow user) amount
  pure (w.storePublicFlow a)

/-- `Redeem`. -/
def execRedeem (w : World) (tx : Tx) (user : Pubkey) (shares : U64) : Result World := do
  signs tx user
  let (a, _) ← redeem (w.publicFlow user) shares
  pure (w.storePublicFlow a)

/-- `Faucet`. -/
def execFaucet (w : World) (tx : Tx) (user : Pubkey) : Result World := do
  signs tx user
  let (claim, userUsdc, usdcSupply) ←
    faucet user (w.claims user) tx.now (w.usdc user) w.usdcSupply
  pure { w with
    claims := Function.update w.claims user claim
    usdc := Function.update w.usdc user userUsdc
    usdcSupply }

/-- `InitPosition`. -/
def execInitPosition (rt : Runtime) (w : World) (tx : Tx) (owner : Pubkey) : Result World := do
  signs tx owner
  constraint (w.positions.lookup owner = none)
  pure (w.storePosition owner (.atHome (initPosition owner rt.vaultKey)))

/-- `AuthorizeSession`. -/
def execAuthorizeSession (w : World) (tx : Tx) (owner sessionKey : Pubkey) : Result World := do
  signs tx owner
  let d ← w.loadPosition owner
  -- The position may be in the enclave, where the instruction runs on its live copy.
  let position ← authorizeSession d.current tx.now sessionKey
  pure (w.storePosition owner (d.write position))

/-- `DelegatePosition`. -/
def execDelegatePosition (w : World) (tx : Tx) (owner : Pubkey) : Result World := do
  signs tx owner
  let d ← orElse (w.positions.lookup owner) .account
  let d ← orElse d.delegate .external
  pure (w.storePosition owner d)

/-- `CommitPosition`, whose owner is named but does not sign. -/
def execUndelegatePosition (w : World) (tx : Tx) (payer position : Pubkey) : Result World := do
  signs tx payer
  let d ← orElse (w.positions.lookup position) .account
  let d ← orElse d.undelegate .external
  pure (w.storePosition position d)

/-- `Tick`, `Absorb` and `SetApr`: a write to the book. -/
def storeBook (w : World) (book : PoolBook) : World := { w with book := w.book.write book }

/-- `PermissionCtx`, around one of its three handlers. -/
def execPermission (w : World) (tx : Tx) (signer position : Pubkey)
    (handler : PermissionCtx → ℤ → Result PermissionCtx) : Result World := do
  signs tx signer
  let d ← w.loadPosition position
  let a ← handler ⟨signer, d.current, w.permissions position⟩ tx.now
  pure { w.storePosition position (d.write a.position) with
    permissions := Function.update w.permissions position a.permission }

/-- `SyncPosition`. -/
def execSyncPosition (w : World) (tx : Tx) (signer position : Pubkey) (withAgyld : Bool) :
    Result World := do
  signs tx signer
  let d ← w.loadPosition position
  loads d w.shielded
  let ownerAgyld := if withAgyld then some (w.agyld position) else none
  let p ← syncPosition
    ⟨signer, d.current, w.vault, info w.book, w.shielded.current, ownerAgyld⟩ tx.now
  pure (w.storePosition position (d.write p))

/-- `RotateSession`. -/
def execRotateSession (rt : Runtime) (w : World) (tx : Tx) (submitter position sessionKey : Pubkey)
    (expiry : ℤ) : Result World := do
  signs tx submitter
  let d ← w.loadPosition position
  let a ← rotateSession rt tx ⟨d.current, w.permissions position⟩ sessionKey expiry
  pure { w.storePosition position (d.write a.position) with
    permissions := Function.update w.permissions position a.permission }

/-- `ShieldedPermission`: each permission is created unless it exists. -/
def execInitShieldedPermission (w : World) (tx : Tx) (authority : Pubkey) : Result World := do
  w.authoritySigns tx authority
  let created : Permission := ⟨true, [⟨ownerFlags, authority⟩]⟩
  pure { w with
    shieldedPermission := some (w.shieldedPermission.getD created)
    exitsPermission := some (w.exitsPermission.getD created) }

/-- `DepositPrivate`. -/
def execDepositPrivate (rt : Runtime) (w : World) (tx : Tx) (depositor signer position : Pubkey)
    (amount : U64) : Result World := do
  -- Who pays need not be who acts on the position.
  signs tx depositor
  signs tx signer
  let d ← w.loadPosition position
  sameLayer d w.shielded
  let a ← depositPrivate rt tx
    ⟨depositor, signer, d.current, w.vault, info w.book, w.shielded.current⟩ amount
  pure { w.storePosition position (d.write a.position) with
    shielded := w.shielded.write a.shielded }

/-- `RedeemPrivate`, around one of its two handlers. -/
def execRedeemPrivate (w : World) (tx : Tx) (signer position : Pubkey)
    (handler : RedeemPrivate → ℤ → Result RedeemPrivate) : Result World := do
  signs tx signer
  let d ← w.loadPosition position
  sameLayer d w.shielded
  sameLayer d w.exits
  let a ← handler
    ⟨signer, d.current, w.vault, info w.book, w.shielded.current, w.exits.current⟩ tx.now
  pure { w.storePosition position (d.write a.position) with
    shielded := w.shielded.write a.shielded
    exits := w.exits.write a.exits }

/-- `SettleExit`. -/
def execSettleExit (rt : Runtime) (w : World) (tx : Tx) (authority : Pubkey) (groupId : U32) :
    Result World := do
  w.authoritySigns tx authority
  loads w.exits w.shielded
  let exits ← settleExit rt tx ⟨w.vault, w.shielded.current, w.exits.current⟩ groupId
  pure { w with exits := w.exits.write exits }

/-- One instruction in a transaction. -/
def exec (rt : Runtime) (w : World) (tx : Tx) : Ix → Result World
  -- These create accounts that exist.
  | .initializeVault _ | .initBook _ _ | .migrateBook _ | .initShielded _ _ => .error .account
  | .faucet user => w.execFaucet tx user
  | .deposit user amount => w.execDeposit tx user amount
  | .redeem user shares => w.execRedeem tx user shares
  | .initPosition owner => w.execInitPosition rt tx owner
  | .authorizeSession owner sessionKey => w.execAuthorizeSession tx owner sessionKey
  | .prepareForRollup owner => do
    signs tx owner
    pure w
  | .delegateBook payer => do
    w.authoritySigns tx payer
    let book ← orElse w.book.delegate .external
    pure { w with book }
  | .delegatePosition owner => w.execDelegatePosition tx owner
  | .delegateShielded payer => do
    w.authoritySigns tx payer
    let shielded ← orElse w.shielded.delegate .external
    pure { w with shielded }
  | .delegateExits payer => do
    w.authoritySigns tx payer
    let exits ← orElse w.exits.delegate .external
    pure { w with exits }
  | .tick payer => do
    -- Anyone may tick, commit the book or hand it back.
    signs tx payer
    let book ← tick w.book.current tx.now
    pure (w.storeBook book)
  | .absorb authority inflow outflow => do
    w.bookAuthoritySigns tx authority
    let (book, _) ← absorb w.book.current tx.now inflow outflow
    pure (w.storeBook book)
  | .setApr authority index aprBps => do
    w.bookAuthoritySigns tx authority
    let book ← setApr w.book.current tx.now index aprBps
    pure (w.storeBook book)
  | .commitBook payer => do
    signs tx payer
    let book ← orElse w.book.commit .external
    pure { w with book }
  | .undelegateBook payer => do
    signs tx payer
    let book ← orElse w.book.undelegate .external
    pure { w with book }
  | .initPermission signer position viewers =>
    w.execPermission tx signer position fun a now => initPermission a now viewers
  | .setPermission signer position isPrivate viewers =>
    w.execPermission tx signer position fun a now => setPermission a now isPrivate viewers
  | .closePermission signer position => w.execPermission tx signer position closePermission
  | .syncPosition signer position withAgyld => w.execSyncPosition tx signer position withAgyld
  | .rotateSession submitter position sessionKey expiry =>
    w.execRotateSession rt tx submitter position sessionKey expiry
  | .initShieldedPermission authority => w.execInitShieldedPermission tx authority
  | .depositPrivate depositor signer position amount =>
    w.execDepositPrivate rt tx depositor signer position amount
  | .redeemPrivate signer position request =>
    w.execRedeemPrivate tx signer position fun a now => redeemPrivate a now request
  | .redeemPrivateTo signer position request payout =>
    w.execRedeemPrivate tx signer position fun a now => redeemPrivateTo a now request payout
  | .settleExit authority groupId => w.execSettleExit rt tx authority groupId
  | .commitShielded payer => do
    w.authoritySigns tx payer
    let shielded ← orElse w.shielded.commit .external
    pure { w with shielded }
  | .undelegateShielded payer => do
    w.authoritySigns tx payer
    let shielded ← orElse w.shielded.undelegate .external
    pure { w with shielded }
  | .undelegatePosition payer position => w.execUndelegatePosition tx payer position

end World

/-! ## What an instruction leaves alone -/

/-- The accounts that an instruction may write: the vault with the agYLD, the positions with their
permissions, or the aggregate with the exits. -/
inductive Side where
  | vault
  | holdings
  | shielded

/-- An instruction may write the accounts of a side. -/
def Ix.writes : Ix → Side → Bool
  | .deposit _ _, .vault | .redeem _ _, .vault => true
  | .initPosition _, .holdings | .authorizeSession _ _, .holdings => true
  | .delegatePosition _, .holdings | .undelegatePosition _ _, .holdings => true
  | .initPermission _ _ _, .holdings | .setPermission _ _ _ _, .holdings => true
  | .closePermission _ _, .holdings | .rotateSession _ _ _ _, .holdings => true
  | .syncPosition _ _ _, .holdings => true
  | .depositPrivate _ _ _ _, .holdings | .depositPrivate _ _ _ _, .shielded => true
  | .redeemPrivate _ _ _, .holdings | .redeemPrivate _ _ _, .shielded => true
  | .redeemPrivateTo _ _ _ _, .holdings | .redeemPrivateTo _ _ _ _, .shielded => true
  | .settleExit _ _, .shielded | .delegateExits _, .shielded => true
  | .delegateShielded _, .shielded | .commitShielded _, .shielded => true
  | .undelegateShielded _, .shielded => true
  | _, _ => false

/-- `w'` differs from `w` at most on the sides that the instruction may write. The private token
accounts are no instruction's to write. -/
structure World.Frame (ix : Ix) (w w' : World) : Prop where
  vault : ix.writes .vault = false →
    w'.vault = w.vault ∧ w'.agyld = w.agyld ∧ w'.agyldSupply = w.agyldSupply
  holdings : ix.writes .holdings = false →
    w'.positions = w.positions ∧ w'.permissions = w.permissions
  shielded : ix.writes .shielded = false → w'.shielded = w.shielded ∧ w'.exits = w.exits
  privateUsdc : w'.privateUsdc = w.privateUsdc

/-- Every instruction keeps to its sides. -/
theorem World.exec_frame {rt : Runtime} {w w' : World} {tx : Tx} {ix : Ix}
    (h : w.exec rt tx ix = .ok w') : Frame ix w w' := by
  cases ix with
  | initializeVault | initBook | migrateBook | initShielded => cases h
  | prepareForRollup | initShieldedPermission =>
    simp only [exec, execInitShieldedPermission, bind_eq_ok, pure_eq_ok] at h
    obtain ⟨_, -, rfl⟩ := h
    exact ⟨fun _ => ⟨rfl, rfl, rfl⟩, fun _ => ⟨rfl, rfl⟩, fun _ => ⟨rfl, rfl⟩, rfl⟩
  | faucet user =>
    simp only [exec, execFaucet, bind_eq_ok, pure_eq_ok, Prod.exists] at h
    obtain ⟨_, -, _, _, _, -, rfl⟩ := h
    exact ⟨fun _ => ⟨rfl, rfl, rfl⟩, fun _ => ⟨rfl, rfl⟩, fun _ => ⟨rfl, rfl⟩, rfl⟩
  | tick | absorb | setApr | delegateBook | commitBook | undelegateBook =>
    simp only [exec, bind_eq_ok, pure_eq_ok] at h
    obtain ⟨_, -, _, -, rfl⟩ := h
    exact ⟨fun _ => ⟨rfl, rfl, rfl⟩, fun _ => ⟨rfl, rfl⟩, fun _ => ⟨rfl, rfl⟩, rfl⟩
  | deposit | redeem =>
    simp only [exec, execDeposit, execRedeem, bind_eq_ok, pure_eq_ok, Prod.exists] at h
    obtain ⟨_, -, _, _, -, rfl⟩ := h
    exact ⟨by simp [Ix.writes], fun _ => ⟨rfl, rfl⟩, fun _ => ⟨rfl, rfl⟩, rfl⟩
  | initPosition owner =>
    simp only [exec, execInitPosition, bind_eq_ok, pure_eq_ok] at h
    obtain ⟨_, -, _, -, rfl⟩ := h
    exact ⟨fun _ => ⟨rfl, rfl, rfl⟩, by simp [Ix.writes], fun _ => ⟨rfl, rfl⟩, rfl⟩
  | initPermission | setPermission | closePermission | rotateSession | authorizeSession
  | delegatePosition | undelegatePosition =>
    simp only [exec, execPermission, execRotateSession, execAuthorizeSession, execDelegatePosition,
      execUndelegatePosition, bind_eq_ok, pure_eq_ok] at h
    obtain ⟨_, -, _, -, _, -, rfl⟩ := h
    exact ⟨fun _ => ⟨rfl, rfl, rfl⟩, by simp [Ix.writes], fun _ => ⟨rfl, rfl⟩, rfl⟩
  | syncPosition =>
    simp only [exec, execSyncPosition, bind_eq_ok, pure_eq_ok] at h
    obtain ⟨_, -, _, -, _, -, _, -, rfl⟩ := h
    exact ⟨fun _ => ⟨rfl, rfl, rfl⟩, by simp [Ix.writes], fun _ => ⟨rfl, rfl⟩, rfl⟩
  | delegateShielded | commitShielded | undelegateShielded | delegateExits =>
    simp only [exec, bind_eq_ok, pure_eq_ok] at h
    obtain ⟨_, -, _, -, rfl⟩ := h
    exact ⟨fun _ => ⟨rfl, rfl, rfl⟩, fun _ => ⟨rfl, rfl⟩, by simp [Ix.writes], rfl⟩
  | settleExit =>
    simp only [exec, execSettleExit, bind_eq_ok, pure_eq_ok] at h
    obtain ⟨_, -, _, -, _, -, rfl⟩ := h
    exact ⟨fun _ => ⟨rfl, rfl, rfl⟩, fun _ => ⟨rfl, rfl⟩, by simp [Ix.writes], rfl⟩
  | depositPrivate | redeemPrivate | redeemPrivateTo =>
    simp only [exec, execDepositPrivate, execRedeemPrivate, bind_eq_ok, pure_eq_ok] at h
    obtain ⟨_, -, _, -, _, -, _, -, _, -, rfl⟩ := h
    exact ⟨fun _ => ⟨rfl, rfl, rfl⟩, by simp [Ix.writes], by simp [Ix.writes], rfl⟩

/-! ## Steps and runs -/

/-- Token movements that do not run this program. -/
inductive TokenAction where
  /-- An SPL transfer of USDC into the vault's own token account. -/
  | donate (holder : Pubkey) (amount : U64)
  | sendUsdc (src dst : Pubkey) (amount : U64)
  | sendAgyld (src dst : Pubkey) (amount : U64)
  | burnAgyld (holder : Pubkey) (amount : U64)
  /-- USDC shielded by its holder, into the holder's private account. -/
  | shield (holder : Pubkey) (amount : U64)
  /-- An SPL Token transfer between private accounts. -/
  | sendPrivate (ix : Instruction)
  /-- A private account's payment through MagicBlock's queue. -/
  | queue (account : Pubkey) (amount : U64)
  /-- A public account's payment through it, as `encryptedSendIxs` asks for. -/
  | queueUsdc (holder : Pubkey) (amount : U64)
  /-- A delivery, or a part of one, out of the queue to a recipient's public account. -/
  | deliver (recipient : Pubkey) (amount : U64)
  /-- The same, to a private account. -/
  | deliverPrivate (account : Pubkey) (amount : U64)
  | burnUsdc (holder : Pubkey) (amount : U64)

/-- A token movement on the accounts. -/
def World.moveTokens (rt : Runtime) (w : World) : TokenAction → Option World
  | .donate holder amount => do
    let paid ← debit (w.usdc holder) amount
    let vaultUsdc ← credit w.vaultUsdc amount
    pure { w with usdc := Function.update w.usdc holder paid, vaultUsdc }
  | .sendUsdc src dst amount => do
    let usdc ← transfer w.usdc src dst amount
    pure { w with usdc }
  | .sendAgyld src dst amount => do
    let agyld ← transfer w.agyld src dst amount
    pure { w with agyld }
  | .burnAgyld holder amount => do
    let left ← debit (w.agyld holder) amount
    let agyldSupply ← debit w.agyldSupply amount
    pure { w with agyld := Function.update w.agyld holder left, agyldSupply }
  | .shield holder amount => do
    -- The private account of an owner and a mint has the address of the public one.
    let account := rt.ata holder w.vault.usdcMint
    let paid ← debit (w.usdc holder) amount
    let shielded ← credit (w.privateUsdc account) amount
    pure { w with
      usdc := Function.update w.usdc holder paid
      privateUsdc := Function.update w.privateUsdc account shielded }
  | .sendPrivate ix => do
    let privateUsdc ← processTransfer w.vault.usdcMint w.privateUsdc ix
    pure { w with privateUsdc }
  | .queue account amount => do
    let left ← debit (w.privateUsdc account) amount
    pure { w with privateUsdc := Function.update w.privateUsdc account left }
  | .queueUsdc holder amount => do
    let left ← debit (w.usdc holder) amount
    pure { w with usdc := Function.update w.usdc holder left }
  | .deliver recipient amount => do
    -- What is in the queue is MagicBlock's to keep, so no account here bounds a delivery.
    let received ← credit (w.usdc recipient) amount
    pure { w with usdc := Function.update w.usdc recipient received }
  | .deliverPrivate account amount => do
    let received ← credit (w.privateUsdc account) amount
    pure { w with privateUsdc := Function.update w.privateUsdc account received }
  | .burnUsdc holder amount => do
    let left ← debit (w.usdc holder) amount
    let usdcSupply ← debit w.usdcSupply amount
    pure { w with usdc := Function.update w.usdc holder left, usdcSupply }

/-- What a token movement that succeeds does. -/
inductive World.Moved (rt : Runtime) (w : World) : TokenAction → World → Prop
  | donate {holder : Pubkey} {amount paid vaultUsdc : U64}
      (debited : debit (w.usdc holder) amount = some paid)
      (credited : credit w.vaultUsdc amount = some vaultUsdc) :
      Moved rt w (.donate holder amount)
        { w with usdc := Function.update w.usdc holder paid, vaultUsdc }
  | sendUsdc {src dst : Pubkey} {amount : U64} {usdc : Pubkey → U64}
      (run : transfer w.usdc src dst amount = some usdc) :
      Moved rt w (.sendUsdc src dst amount) { w with usdc }
  | sendAgyld {src dst : Pubkey} {amount : U64} {agyld : Pubkey → U64}
      (run : transfer w.agyld src dst amount = some agyld) :
      Moved rt w (.sendAgyld src dst amount) { w with agyld }
  | burnAgyld {holder : Pubkey} {amount left agyldSupply : U64}
      (debited : debit (w.agyld holder) amount = some left)
      (burned : debit w.agyldSupply amount = some agyldSupply) :
      Moved rt w (.burnAgyld holder amount)
        { w with agyld := Function.update w.agyld holder left, agyldSupply }
  | shield {holder : Pubkey} {amount paid shielded : U64}
      (debited : debit (w.usdc holder) amount = some paid)
      (credited : credit (w.privateUsdc (rt.ata holder w.vault.usdcMint)) amount = some shielded) :
      Moved rt w (.shield holder amount) { w with
        usdc := Function.update w.usdc holder paid
        privateUsdc :=
          Function.update w.privateUsdc (rt.ata holder w.vault.usdcMint) shielded }
  | sendPrivate {ix : Instruction} {privateUsdc : Pubkey → U64}
      (run : processTransfer w.vault.usdcMint w.privateUsdc ix = some privateUsdc) :
      Moved rt w (.sendPrivate ix) { w with privateUsdc }
  | queue {account : Pubkey} {amount left : U64}
      (debited : debit (w.privateUsdc account) amount = some left) :
      Moved rt w (.queue account amount)
        { w with privateUsdc := Function.update w.privateUsdc account left }
  | queueUsdc {holder : Pubkey} {amount left : U64}
      (debited : debit (w.usdc holder) amount = some left) :
      Moved rt w (.queueUsdc holder amount) { w with usdc := Function.update w.usdc holder left }
  | deliver {recipient : Pubkey} {amount received : U64}
      (credited : credit (w.usdc recipient) amount = some received) :
      Moved rt w (.deliver recipient amount)
        { w with usdc := Function.update w.usdc recipient received }
  | deliverPrivate {account : Pubkey} {amount received : U64}
      (credited : credit (w.privateUsdc account) amount = some received) :
      Moved rt w (.deliverPrivate account amount)
        { w with privateUsdc := Function.update w.privateUsdc account received }
  | burnUsdc {holder : Pubkey} {amount left usdcSupply : U64}
      (debited : debit (w.usdc holder) amount = some left)
      (burned : debit w.usdcSupply amount = some usdcSupply) :
      Moved rt w (.burnUsdc holder amount)
        { w with usdc := Function.update w.usdc holder left, usdcSupply }

/-- What a token action that succeeds has moved. -/
theorem World.moved_of_moveTokens {rt : Runtime} {w w' : World} {t : TokenAction}
    (h : w.moveTokens rt t = some w') : w.Moved rt t w' := by
  cases t
  all_goals
    simp only [moveTokens, Option.bind_eq_bind, Option.bind_eq_some_iff, Option.pure_def,
      Option.some.injEq] at h
  case donate =>
    obtain ⟨_, hdebit, _, hcredit, rfl⟩ := h
    exact .donate hdebit hcredit
  case burnAgyld =>
    obtain ⟨_, hdebit, _, hburn, rfl⟩ := h
    exact .burnAgyld hdebit hburn
  case shield =>
    obtain ⟨_, hdebit, _, hcredit, rfl⟩ := h
    exact .shield hdebit hcredit
  case sendUsdc =>
    obtain ⟨_, hrun, rfl⟩ := h
    exact .sendUsdc hrun
  case sendAgyld =>
    obtain ⟨_, hrun, rfl⟩ := h
    exact .sendAgyld hrun
  case sendPrivate =>
    obtain ⟨_, hrun, rfl⟩ := h
    exact .sendPrivate hrun
  case queue =>
    obtain ⟨_, hdebit, rfl⟩ := h
    exact .queue hdebit
  case queueUsdc =>
    obtain ⟨_, hdebit, rfl⟩ := h
    exact .queueUsdc hdebit
  case deliver =>
    obtain ⟨_, hcredit, rfl⟩ := h
    exact .deliver hcredit
  case deliverPrivate =>
    obtain ⟨_, hcredit, rfl⟩ := h
    exact .deliverPrivate hcredit
  case burnUsdc =>
    obtain ⟨_, hdebit, _, hburn, rfl⟩ := h
    exact .burnUsdc hdebit hburn

/-- What can happen: an instruction in some transaction, or a token movement. -/
inductive Action where
  | program (tx : Tx) (ix : Ix)
  | token (t : TokenAction)

/-- One step. -/
def World.step (rt : Runtime) (w : World) : Action → Result World
  | .program tx ix => w.exec rt tx ix
  | .token t => orElse (w.moveTokens rt t) .external

/-- An action leads from one state to the other, and `P` allows it there. -/
def StepWith (rt : Runtime) (P : World → Action → World → Prop) (w w' : World) : Prop :=
  ∃ a, w.step rt a = .ok w' ∧ P w a w'

/-- Some action leads from one state to the other. -/
abbrev Step (rt : Runtime) : World → World → Prop := StepWith rt fun _ _ _ => True

/-- A run of any length. -/
abbrev Run (rt : Runtime) : World → World → Prop := Relation.ReflTransGen (Step rt)

/-- The state that a list of actions leads to, up to the first one that fails. -/
def World.after (rt : Runtime) (w : World) : List Action → World
  | [] => w
  | a :: as =>
    match w.step rt a with
    | .ok w' => w'.after rt as
    | .error _ => w

/-- An action that succeeds leads to the state after it. -/
theorem step_after {rt : Runtime} {w : World} {a : Action} (h : (w.step rt a).isOk = true) :
    w.step rt a = .ok (w.after rt [a]) := by
  obtain ⟨w', hstep⟩ := exists_of_isOk h
  simp only [World.after, hstep]

/-- An instruction that succeeds leads to the state after it. -/
theorem exec_after {rt : Runtime} {w : World} {tx : Tx} {ix : Ix}
    (h : (w.exec rt tx ix).isOk = true) :
    w.exec rt tx ix = .ok (w.after rt [.program tx ix]) :=
  step_after (a := .program tx ix) h

/-- Every action of a list succeeds, where `P` allows it. -/
def World.replays (rt : Runtime) (P : World → Action → World → Prop)
    [∀ w a w', Decidable (P w a w')] (w : World) : List Action → Bool
  | [] => true
  | a :: as =>
    match w.step rt a with
    | .ok w' => decide (P w a w') && w'.replays rt P as
    | .error _ => false

/-- A list of actions that replays is a run. -/
theorem run_of_replays {rt : Runtime} {P : World → Action → World → Prop}
    [∀ w a w', Decidable (P w a w')] {w : World} {as : List Action}
    (h : w.replays rt P as = true) :
    Relation.ReflTransGen (StepWith rt P) w (w.after rt as) := by
  induction as generalizing w with
  | nil => exact .refl
  | cons a as ih =>
    unfold World.replays at h
    unfold World.after
    cases hstep : w.step rt a with
    | error e => simp [hstep] at h
    | ok w' =>
      -- The first action is a step, and the rest replays from where it leads.
      rw [hstep] at h
      simp only [Bool.and_eq_true, decide_eq_true_eq] at h
      exact .head ⟨a, hstep, h.1⟩ (ih h.2)

end Agama
