import Agama.World

/-!
# The devnet deployment

The addresses of the deployed program, and keys to replay it with. `key n` is the key that the
source's own tests use. The table of `deployment` holds the addresses and texts of the keys below,
as Solana derives and prints them.
-/

namespace Agama

/-- `key` of the tests: a public key of one repeated byte. -/
def key (n : UInt8) : Pubkey := ⟨List.replicate 32 n, List.length_replicate ..⟩

/-- The address of the vault. -/
def devnetVault : Pubkey :=
  ⟨[6, 103, 77, 216, 247, 165, 100, 214, 113, 255, 65, 17, 64, 97, 59, 84,
    217, 230, 117, 24, 177, 235, 97, 11, 109, 184, 239, 26, 86, 250, 29, 22], rfl⟩

/-- The address of the USDC mint. -/
def devnetUsdcMint : Pubkey :=
  ⟨[191, 205, 214, 26, 240, 150, 81, 90, 100, 52, 148, 231, 231, 160, 138, 2,
    172, 231, 97, 10, 117, 198, 250, 161, 246, 147, 179, 90, 18, 102, 210, 173], rfl⟩

/-- The address of the agYLD mint. -/
def devnetAgyldMint : Pubkey :=
  ⟨[73, 4, 95, 20, 154, 136, 236, 209, 235, 21, 255, 133, 134, 3, 255, 228,
    200, 2, 46, 107, 3, 85, 26, 40, 21, 168, 34, 214, 249, 198, 57, 137], rfl⟩

/-- The vault's authority. -/
def authority : Pubkey := key 1
/-- A user of the public side. -/
def user : Pubkey := key 2
/-- The owner of a position. -/
def positionOwner : Pubkey := key 4
/-- A session key. -/
def sessionKey : Pubkey := key 5
/-- A throwaway depositor. -/
def depositor : Pubkey := key 6
/-- The owner of the private custody. -/
def custodyOwner : Pubkey := key 9

/-- The depositor's token account. -/
def depositorAccount : Pubkey :=
  ⟨[226, 12, 194, 193, 254, 118, 0, 175, 33, 61, 127, 50, 122, 136, 92, 113,
    217, 179, 130, 124, 155, 93, 141, 108, 192, 69, 34, 188, 19, 98, 172, 122], rfl⟩

/-- The custody. -/
def custodyAccount : Pubkey :=
  ⟨[194, 165, 186, 142, 136, 171, 135, 126, 52, 233, 1, 36, 141, 188, 232, 17,
    233, 249, 47, 99, 91, 38, 140, 41, 132, 18, 58, 255, 231, 35, 228, 186], rfl⟩

/-- The address of the position. -/
def positionAccount : Pubkey :=
  ⟨[168, 250, 101, 70, 75, 176, 8, 161, 49, 154, 88, 112, 18, 109, 207, 83,
    109, 126, 168, 123, 23, 208, 219, 109, 99, 164, 177, 76, 166, 210, 2, 119], rfl⟩

/-- The deployed program's addresses and texts, on the keys above. -/
def deployment : Runtime where
  vaultKey := devnetVault
  usdcMint := devnetUsdcMint
  agyldMint := devnetAgyldMint
  ata := fun owner _ =>
    if owner = custodyOwner then custodyAccount
    else if owner = depositor then depositorAccount
    else owner
  positionKey := fun owner => if owner = positionOwner then positionAccount else owner
  base58 := fun k =>
    if k = sessionKey then ascii "LbUiWL3xVV8hTFYBVdbTNrpDo41NKS6o3LHHuDzjfcY"
    else if k = positionAccount then ascii "CNcwmr1EkQ7VniqAs7NiGhsMNvrodEYJbvLZbEME8qA6"
    else k.bytes

/-- A pool of the book: a quarter of the weight, at a yearly rate. -/
def pool (aprBps : U32) : PoolInit :=
  ⟨List.Vector.replicate 24 0, List.Vector.replicate 32 0, aprBps, 2500⟩

/-- The deployed accounts at time zero, with every pool at the same rate. -/
def World.deployed (aprBps : U32) : World :=
  .initial deployment authority custodyOwner 0 (List.Vector.replicate poolCount (pool aprBps))

/-- The deployed accounts on two layers, at a yearly rate of a tenth. -/
def World.deployedLayers : World :=
  .layered deployment authority custodyOwner 0 (List.Vector.replicate poolCount (pool 1000))

/-- A transaction of one instruction, signed by `signers` at time `now`. -/
def Tx.alone (signers : List Pubkey) (now : ℤ) : Tx := ⟨signers, now, [], 0⟩

/-- A transaction of one instruction of this program, right after `prev`. -/
def Tx.next (prev : Instruction) (signers : List Pubkey) (now : ℤ) : Tx :=
  ⟨signers, now, [prev, ⟨programId, [], []⟩], 1⟩

/-- The SPL transfer of an amount from an account into the custody, by the account's owner. -/
def custodyTransfer (owner account : Pubkey) (amount : U64) : Instruction :=
  ⟨tokenProgramId, [⟨account, false⟩, ⟨custodyAccount, false⟩, ⟨owner, true⟩],
    splTransfer :: LittleEndian.leBytes 8 amount.val⟩

/-- A public deposit of 100 USDC. -/
def publicDeposit : List Action :=
  [.program (.alone [user] 100) (.faucet user),
    .program (.alone [user] 100) (.deposit user 100000000)]

/-- A position in the enclave, and 1000 USDC in the depositor's private account. -/
def openPrivate : List Action :=
  [.program (.alone [positionOwner] 100) (.initPosition positionOwner),
    .program (.alone [positionOwner] 100) (.delegatePosition positionOwner),
    .program (.alone [depositor] 100) (.faucet depositor),
    .token (.shield depositor 1000000000)]

/-- The aggregate and the exit book, in the enclave. -/
def delegatePrivate : List Action :=
  [.program (.alone [authority] 100) (.delegateShielded authority),
    .program (.alone [authority] 100) (.delegateExits authority)]

/-- A private deposit: the transfer into the custody, and its credit. -/
def privateDeposit (amount : U64) : List Action :=
  let transfer := custodyTransfer depositor depositorAccount amount
  [.token (.sendPrivate transfer),
    .program (.next transfer [depositor, positionOwner] 100)
      (.depositPrivate depositor positionOwner positionOwner amount)]

end Agama
