import Mathlib.Data.Vector.Basic
import Agama.Words

/-!
# The program's accounts

The constants and account types of `lib.rs`. A PDA's bump seed is left out of every account: it only
reproduces the account's own address, which the model names directly.
-/

namespace Agama

/-- A 32-byte public key. -/
structure Pubkey where
  bytes : List UInt8
  length_bytes : bytes.length = 32
  deriving DecidableEq

/-- `Pubkey::default()`. -/
def Pubkey.default : Pubkey := ⟨List.replicate 32 0, List.length_replicate ..⟩

/-! ## Constants -/

/-- `crate::ID`. -/
def programId : Pubkey :=
  ⟨[230, 30, 164, 34, 57, 41, 17, 89, 184, 12, 125, 92, 74, 29, 50, 105,
    128, 63, 164, 117, 11, 103, 55, 225, 11, 184, 210, 203, 55, 205, 148, 237], rfl⟩

/-- MagicBlock's delegation program, which owns a delegated account on Solana. -/
def delegationProgramId : Pubkey :=
  ⟨[181, 183, 0, 225, 242, 87, 58, 192, 204, 6, 34, 1, 52, 74, 207, 151,
    184, 53, 6, 235, 140, 229, 25, 152, 204, 98, 126, 24, 147, 128, 167, 62], rfl⟩

/-- `anchor_spl::token::ID`. -/
def tokenProgramId : Pubkey :=
  ⟨[6, 221, 246, 225, 215, 101, 161, 147, 217, 203, 225, 70, 206, 235, 121, 172,
    28, 180, 133, 237, 95, 91, 55, 145, 58, 140, 245, 133, 126, 255, 0, 169], rfl⟩

/-- `EPHEMERAL_SPL_TOKEN_PROGRAM_ID`. -/
def ephemeralSplTokenProgramId : Pubkey :=
  ⟨[6, 128, 200, 234, 115, 202, 172, 225, 29, 240, 193, 184, 192, 229, 47, 173,
    17, 234, 44, 108, 0, 194, 128, 125, 224, 239, 6, 229, 135, 199, 95, 71], rfl⟩

/-- `ED25519_PROGRAM_ID`. -/
def ed25519ProgramId : Pubkey :=
  ⟨[3, 125, 70, 214, 124, 147, 251, 190, 18, 249, 66, 143, 131, 141, 64, 255,
    5, 112, 116, 73, 39, 244, 138, 100, 252, 202, 112, 68, 128, 0, 0, 0], rfl⟩

/-- `ESPL_DEPOSIT_AND_QUEUE_TRANSFER`. -/
def esplDepositAndQueueTransfer : UInt8 := 16
/-- `SPL_TRANSFER`. -/
def splTransfer : UInt8 := 3
/-- `SPL_TRANSFER_CHECKED`. -/
def splTransferChecked : UInt8 := 12
/-- `MAX_EXIT_DELAY_MS`. -/
def maxExitDelayMs : ℕ := 24 * 3600 * 1000
/-- `EXIT_SLOTS`. -/
def exitSlots : ℕ := 16
/-- `POOL_COUNT`. -/
def poolCount : ℕ := 4
/-- `ONE`, a share price of one. -/
def one : U64 := 1000000
/-- `BPS`. -/
def bps : ℕ := 10000
/-- `SECONDS_PER_YEAR`. -/
def secondsPerYear : ℕ := 31536000
/-- `FAUCET_AMOUNT`. -/
def faucetAmount : U64 := 1000000000
/-- `FAUCET_COOLDOWN`. -/
def faucetCooldownSeconds : ℤ := 60
/-- `SESSION_TTL`. -/
def sessionTtl : ℤ := 7 * 24 * 3600
/-- `MAX_PERMISSION_MEMBERS`. -/
def maxPermissionMembers : ℕ := 4

/-! ## The public side -/

/-- `Vault`. -/
structure Vault where
  authority : Pubkey
  usdcMint : Pubkey
  agyldMint : Pubkey
  /-- agYLD supply, authoritative on the base layer. -/
  shares : U64
  /-- Cumulative USDC in and out. -/
  totalIn : U64
  totalOut : U64
  deriving DecidableEq

/-- `PoolInit`. -/
structure PoolInit where
  name : List.Vector UInt8 24
  sector : List.Vector UInt8 32
  aprBps : U32
  weightBps : U16

/-- `PoolEntry`. -/
structure PoolEntry where
  name : List.Vector UInt8 24
  sector : List.Vector UInt8 32
  aprBps : U32
  weightBps : U16
  principal : U64
  accrued : U64
  deriving DecidableEq

/-- `PoolBook`. -/
structure PoolBook where
  vault : Pubkey
  authority : Pubkey
  pools : List.Vector PoolEntry poolCount
  /-- The pools' principal and accrued balances, as of `lastTs`. -/
  nav : U64
  /-- How much of the cumulative flow this book has already absorbed. -/
  markedIn : U64
  markedOut : U64
  lastTs : ℤ
  ticks : U64
  deriving DecidableEq

/-- `FaucetClaim`. -/
structure FaucetClaim where
  owner : Pubkey
  lastTs : ℤ
  deriving DecidableEq

/-! ## The private side -/

/-- `Position`. -/
structure Position where
  owner : Pubkey
  vault : Pubkey
  /-- agYLD held, mirrored from the owner's token account at sync time. -/
  shares : U64
  /-- Shares that exist only here: minted by `depositPrivate`, burned by `redeemPrivate`. -/
  privateShares : U64
  /-- Share-weighted average entry price, 6 decimals. -/
  entryPrice : U64
  valueUsdc : U64
  costBasis : U64
  yieldUsdc : U64
  syncedTs : ℤ
  syncs : U32
  /-- Mirrors whether a permission is gating this account. -/
  isPrivate : Bool
  /-- Browser-held key allowed to act on this position. -/
  sessionKey : Pubkey
  sessionExpiry : ℤ
  deriving DecidableEq

/-- `Shielded`, the private half of the vault in aggregate. -/
structure Shielded where
  vault : Pubkey
  /-- Owns the private custody's token account. -/
  custodyOwner : Pubkey
  /-- Private shares outstanding, across every position. -/
  shares : U64
  /-- Cumulative USDC into and out of the private custody. -/
  totalIn : U64
  totalOut : U64
  deriving DecidableEq

/-- `Exit`, a private redemption the custody still owes; a `groupId` of zero is a free slot. -/
structure Exit where
  owner : Pubkey
  assets : U64
  minDelayMs : U64
  maxDelayMs : U64
  groupId : U32
  split : U32
  deriving DecidableEq

/-- `Exit::default()`, a free slot. -/
def Exit.default : Exit := ⟨Pubkey.default, 0, 0, 0, 0, 0⟩

/-- `ExitBook`. -/
structure ExitBook where
  vault : Pubkey
  slots : List.Vector Exit exitSlots
  deriving DecidableEq

/-- The rights of a permission's member. -/
inductive Flag where
  | authority
  | txLogs
  | txBalances
  | txMessage
  | accountSignatures
  deriving DecidableEq

/-- `VIEWER_FLAGS`. -/
def viewerFlags : List Flag := [.txLogs, .txBalances, .txMessage]
/-- `OWNER_FLAGS`. -/
def ownerFlags : List Flag := .authority :: viewerFlags ++ [.accountSignatures]

/-- `Member`. -/
structure Member where
  flags : List Flag
  pubkey : Pubkey
  deriving DecidableEq

/-- An `EphemeralPermission`, as the arguments that create or update it. -/
structure Permission where
  isPrivate : Bool
  members : List Member
  deriving DecidableEq

/-! ## Accounts that are read by hand -/

/-- An account that a handler reads without Anchor's typed loading: the program that owns it, and
what its bytes decode to, when they carry the type's discriminator and deserialise. -/
structure AccountInfo (α : Type) where
  owner : Pubkey
  data : Option α

/-- `read_book` and `read_shielded`, which differ in their error only: the account is owned by this
program or, while it is delegated, by the delegation program, and its bytes decode. -/
def readAccount {α : Type} (info : AccountInfo α) (e : AgamaError) : Result α := do
  require (info.owner = programId ∨ info.owner = delegationProgramId) e
  orElse info.data (.error e)

/-- `read_book`. -/
def readBook (info : AccountInfo PoolBook) : Result PoolBook := readAccount info .badBookOwner

/-- `read_shielded`. -/
def readShielded (info : AccountInfo Shielded) : Result Shielded := readAccount info .badShielded

/-- Reading succeeds on an account with an expected owner, with the value its bytes decode to. -/
@[simp]
theorem readAccount_eq_ok {α : Type} {info : AccountInfo α} {e : AgamaError} {a : α} :
    readAccount info e = .ok a ↔
      (info.owner = programId ∨ info.owner = delegationProgramId) ∧ info.data = some a := by
  simp [readAccount]

end Agama
