import Agama.Pricing
import Agama.Lib.LittleEndian
import Agama.Lib.TokenLedger

/-!
# Instruction introspection

A transaction as the instructions sysvar shows it, and the checks that handlers make on the
instruction before their own: the SPL Token transfer that `deposit_private` credits, the Ed25519
verification that `rotate_session` acts on, and the queued payment that `settle_exit` asks for.
Reading bytes past the end panics in the source, so `slice` fails there.

The SPL Token program and the Ed25519 precompile are not part of the repository. `unpackTransfer`
and `processTransfer` follow the former's documented format and effect, and say what the transfer
that a check reads does when it runs; `precompileReading` follows the latter's, and says what it
verifies.
-/

namespace Agama

open LittleEndian

/-! ## Transactions -/

/-- `AccountMeta`. -/
structure AccountMeta where
  pubkey : Pubkey
  isSigner : Bool
  deriving DecidableEq

/-- `Instruction`. -/
structure Instruction where
  programId : Pubkey
  accounts : List AccountMeta
  data : List UInt8
  deriving DecidableEq

/-- What a handler sees of the transaction that it runs in: the keys that signed it, the clock, the
top-level instructions, and the index of the one being executed, which during a call made by that
instruction is still its own. -/
structure Tx where
  signers : List Pubkey
  now : ℤ
  instructions : List Instruction
  current : ℕ

/-- The addresses and texts that the program derives with code outside of the repository. -/
structure Runtime where
  /-- The addresses of the vault and of both mints. -/
  vaultKey : Pubkey
  usdcMint : Pubkey
  agyldMint : Pubkey
  /-- `get_associated_token_address`, of an owner and a mint. -/
  ata : Pubkey → Pubkey → Pubkey
  /-- The address of a position, from its owner. -/
  positionKey : Pubkey → Pubkey
  /-- `Display` of a public key, base58. -/
  base58 : Pubkey → List UInt8

/-- `previous_instruction`. -/
def previousInstruction (tx : Tx) : Result Instruction := do
  require (0 < tx.current) .transferMismatch
  orElse tx.instructions[tx.current - 1]? .external

/-- The bytes `d[i..i + n]`. -/
def slice (d : List UInt8) (i n : ℕ) : Result (List UInt8) :=
  if i + n ≤ d.length then .ok ((d.drop i).take n) else .error .panic

/-- The `n`-byte little-endian number at `d[i..i + n]`. -/
def leAt (d : List UInt8) (i n : ℕ) : Result ℕ := do
  let bytes ← slice d i n
  pure (leNat bytes)

/-- The account `k[i]`. -/
def accountAt (k : List AccountMeta) (i : ℕ) : Result AccountMeta := orElse k[i]? .panic

/-! ## The transfer into the custody -/

/-- Where each transfer form has its source, destination and authority, as `assert_token_transfer`
matches on the first byte. -/
def transferLayout (d : List UInt8) (k : List AccountMeta) : Result (ℕ × ℕ × ℕ) :=
  match d.head? with
  | some tag =>
    if tag = splTransfer ∧ 9 ≤ d.length ∧ 3 ≤ k.length then .ok (0, 1, 2)
    else if tag = splTransferChecked ∧ 10 ≤ d.length ∧ 4 ≤ k.length then .ok (0, 2, 3)
    else .error (.error .transferMismatch)
  | none => .error (.error .transferMismatch)

/-- `assert_token_transfer`: `ix` is an SPL Token transfer of exactly `amount` from `src` to `dst`,
authorised by `authority`. -/
def assertTokenTransfer (ix : Instruction) (amount : U64) (src dst authority : Pubkey) :
    Result Unit := do
  require (ix.programId = tokenProgramId) .transferMismatch
  let d := ix.data
  let k := ix.accounts
  let (s, t, a) ← transferLayout d k
  -- Both forms carry the amount right after the tag.
  let given ← leAt d 1 8
  let source ← accountAt k s
  let destination ← accountAt k t
  let auth ← accountAt k a
  require (given = amount.val ∧ source.pubkey = src ∧ destination.pubkey = dst ∧
    auth.pubkey = authority ∧ auth.isSigner = true) .transferMismatch

/-- A transfer as the SPL Token program reads it. The checked form also names the mint and its
decimals. -/
structure TokenTransfer where
  amount : U64
  source : Pubkey
  destination : Pubkey
  authority : AccountMeta
  checked : Option (Pubkey × UInt8)
  deriving DecidableEq

/-- The SPL Token program's reading of `Transfer` and `TransferChecked`: the tag, the amount, the
decimals of the checked form, and the accounts in each form's order. -/
def unpackTransfer (ix : Instruction) : Option TokenTransfer :=
  match ix.data, ix.accounts with
  | tag :: rest, source :: second :: third :: more =>
    if tag = splTransfer ∧ 8 ≤ rest.length then
      some ⟨wrap (leNat (rest.take 8)), source.pubkey, second.pubkey, third, none⟩
    else if tag = splTransferChecked then
      match rest[8]?, more with
      | some decimals, authority :: _ =>
        some ⟨wrap (leNat (rest.take 8)), source.pubkey, third.pubkey, authority,
          some (second.pubkey, decimals)⟩
      | _, _ => none
    else none
  | _, _ => none

/-- The SPL Token program's transfer of USDC, on the balances of the token accounts by address. The
authority signs, and the checked form names the mint and its six decimals. -/
def processTransfer (usdcMint : Pubkey) (b : TokenLedger.Balances Pubkey 64) (ix : Instruction) :
    Option (TokenLedger.Balances Pubkey 64) := do
  guard (ix.programId = tokenProgramId)
  let t ← unpackTransfer ix
  guard (t.authority.isSigner = true ∧ ∀ c, t.checked = some c → c = (usdcMint, 6))
  TokenLedger.transfer b t.source t.destination t.amount

/-! ## The session message -/

/-- The bytes of an ASCII text. -/
def ascii (s : String) : List UInt8 := s.toList.map fun c => UInt8.ofNat c.toNat

/-- `Display` of an `i64`: the decimal digits, after a minus sign when it is negative. -/
def decimal (z : ℤ) : List UInt8 :=
  let digits := if z = 0 then [0] else (Nat.digits 10 z.natAbs).reverse
  (if z < 0 then ascii "-" else []) ++ digits.map fun d => UInt8.ofNat (48 + d)

/-- `session_message`: what the owner's wallet signs. -/
def sessionMessage (rt : Runtime) (position sessionKey : Pubkey) (expiry : ℤ) : List UInt8 :=
  ascii "Agama on MagicBlock\nAuthorize session key " ++ rt.base58 sessionKey ++
    ascii " for position " ++ rt.base58 position ++ ascii " until " ++ decimal expiry

/-- `assert_ed25519`: `ix` is the Ed25519 precompile verifying one signature by `signer` over
exactly `message`, with every offset pointing into the instruction itself. -/
def assertEd25519 (ix : Instruction) (signer : Pubkey) (message : List UInt8) : Result Unit := do
  require (ix.programId = ed25519ProgramId) .badSessionRotation
  let d := ix.data
  require (16 ≤ d.length ∧ d.head? = some 1) .badSessionRotation
  let pkOff ← leAt d 6 2
  let msgOff ← leAt d 10 2
  let msgLen ← leAt d 12 2
  let sigIx ← leAt d 4 2
  let pkIx ← leAt d 8 2
  let msgIx ← leAt d 14 2
  require (sigIx = 0xFFFF ∧ pkIx = 0xFFFF ∧ msgIx = 0xFFFF) .badSessionRotation
  require (pkOff + 32 ≤ d.length ∧ msgOff + msgLen ≤ d.length) .badSessionRotation
  let pk ← slice d pkOff 32
  let msg ← slice d msgOff msgLen
  -- The signature is not compared: the precompile has verified it, or the transaction failed.
  require (pk = signer.bytes ∧ msg = message) .badSessionRotation

/-! ## The Ed25519 precompile -/

/-- A signature that the precompile reads, with the key and the message that it is checked for. -/
structure SignatureRecord where
  signature : List UInt8
  publicKey : List UInt8
  message : List UInt8
  deriving DecidableEq

/-- Bytes that a record points at: in the instruction itself for the index `0xFFFF`, else in the
transaction's instruction at that index. -/
def precompileSlice (datas : List (List UInt8)) (d : List UInt8) (index offset size : ℕ) :
    Option (List UInt8) := do
  let source ← if index = 0xFFFF then some d else datas[index]?
  guard (offset + size ≤ source.length)
  pure ((source.drop offset).take size)

/-- The record of 14 bytes at a place: the offset and the instruction of the signature, of the key
and of the message, which also has its size. -/
def signatureRecord (datas : List (List UInt8)) (d : List UInt8) (start : ℕ) :
    Option SignatureRecord := do
  let field (i : ℕ) := leNat ((d.drop (start + i)).take 2)
  let signature ← precompileSlice datas d (field 2) (field 0) 64
  let publicKey ← precompileSlice datas d (field 6) (field 4) 32
  let message ← precompileSlice datas d (field 12) (field 8) (field 10)
  pure ⟨signature, publicKey, message⟩

/-- The signatures that the precompile reads from its data: a count, a byte that it ignores, and
that many records. -/
def precompileReading (datas : List (List UInt8)) (d : List UInt8) :
    Option (List SignatureRecord) := do
  let count ← d.head?
  guard (count.toNat * 14 + 2 ≤ d.length ∧ (count = 0 → d.length = 2))
  (List.range count.toNat).mapM fun i => signatureRecord datas d (i * 14 + 2)

/-- The key and the message that the precompile verifies for its first record. -/
def verifiedPart (datas : List (List UInt8)) (d : List UInt8) :
    Option (List UInt8 × List UInt8) := do
  let field (i : ℕ) := leNat ((d.drop (2 + i)).take 2)
  let publicKey ← precompileSlice datas d (field 6) (field 4) 32
  let message ← precompileSlice datas d (field 12) (field 8) (field 10)
  pure (publicKey, message)

/-- `ix` carries an Ed25519 signature by `signer` over `message`: it is the precompile with one
record, and whatever else the transaction holds, the key and the message that the precompile
verifies for it are these. -/
def CarriesSignature (ix : Instruction) (signer : Pubkey) (message : List UInt8) : Prop :=
  ix.programId = ed25519ProgramId ∧ ix.data.head? = some 1 ∧
    ∀ datas, verifiedPart datas ix.data = some (signer.bytes, message)

/-! ## The payment of an exit -/

/-- The check of `settle_exit`: `prev` is MagicBlock's `DepositAndQueueTransfer` out of the custody
for exactly what the ticket `slot` asks. -/
def assertPayment (rt : Runtime) (usdc custodyOwner : Pubkey) (slot : Exit) (prev : Instruction) :
    Result Unit := do
  require (prev.programId = ephemeralSplTokenProgramId) .paymentMismatch
  let d := prev.data
  require (32 ≤ d.length ∧ d.head? = some esplDepositAndQueueTransfer) .paymentMismatch
  let gid ← leAt d 9 3
  let split ← leAt d 28 4
  let assets ← leAt d 1 8
  let minDelayMs ← leAt d 12 8
  let maxDelayMs ← leAt d 20 8
  require (assets = slot.assets.val ∧ gid = slot.groupId.val ∧ minDelayMs = slot.minDelayMs.val ∧
    maxDelayMs = slot.maxDelayMs.val ∧ split = slot.split.val) .paymentMismatch
  let k := prev.accounts
  require (7 ≤ k.length) .paymentMismatch
  let mint ← accountAt k 2
  let source ← accountAt k 3
  let destination ← accountAt k 5
  let owner ← accountAt k 6
  require (mint.pubkey = usdc ∧ source.pubkey = rt.ata custodyOwner usdc ∧
    destination.pubkey = slot.owner ∧ owner.pubkey = custodyOwner ∧ owner.isSigner = true)
    .paymentMismatch

/-- A queued payment as MagicBlock's program reads it. -/
structure QueueTransfer where
  mint : Pubkey
  source : Pubkey
  destination : Pubkey
  authority : AccountMeta
  amount : U64
  groupId : U32
  minDelayMs : U64
  maxDelayMs : U64
  split : U32
  deriving DecidableEq

/-- The queue's reading of `DepositAndQueueTransfer`, by the layout of `queueTransferIx`: the tag,
the amount, the group id in three bytes, both delays and the split, and the accounts by place. -/
def unpackQueueTransfer (ix : Instruction) : Option QueueTransfer := do
  let d := ix.data
  let k := ix.accounts
  guard (32 ≤ d.length ∧ d.head? = some esplDepositAndQueueTransfer)
  let mint ← k[2]?
  let source ← k[3]?
  let destination ← k[5]?
  let authority ← k[6]?
  let field (i n : ℕ) := leNat ((d.drop i).take n)
  pure ⟨mint.pubkey, source.pubkey, destination.pubkey, authority, wrap (field 1 8),
    wrap (field 9 3), wrap (field 12 8), wrap (field 20 8), wrap (field 28 4)⟩

/-- The payment that a ticket asks of an owner's account. -/
def Exit.payment (e : Exit) (mint source owner : Pubkey) : QueueTransfer :=
  ⟨mint, source, e.owner, ⟨owner, true⟩, e.assets, e.groupId, e.minDelayMs, e.maxDelayMs, e.split⟩

/-! ## What the checks accept -/

/-- A slice that is in bounds. -/
@[simp]
theorem slice_eq_ok {d : List UInt8} {i n : ℕ} {bs : List UInt8} :
    slice d i n = .ok bs ↔ i + n ≤ d.length ∧ (d.drop i).take n = bs := by
  unfold slice
  split <;> simp_all

/-- A number that is in bounds. -/
@[simp]
theorem leAt_eq_ok {d : List UInt8} {i n v : ℕ} :
    leAt d i n = .ok v ↔ i + n ≤ d.length ∧ leNat ((d.drop i).take n) = v := by
  simp only [leAt, bind_eq_ok, slice_eq_ok, pure_eq_ok]
  constructor
  · rintro ⟨_, ⟨hlen, rfl⟩, rfl⟩
    exact ⟨hlen, rfl⟩
  · rintro ⟨hlen, rfl⟩
    exact ⟨_, ⟨hlen, rfl⟩, rfl⟩

/-- An account that is in bounds. -/
@[simp]
theorem accountAt_eq_ok {k : List AccountMeta} {i : ℕ} {m : AccountMeta} :
    accountAt k i = .ok m ↔ k[i]? = some m := orElse_eq_ok

/-! Reads within the bounds do not panic. -/

/-- A slice in bounds does not fail. -/
theorem avoids_slice {d : List UInt8} {i n : ℕ} {f : Fault} (h : i + n ≤ d.length) :
    Avoids (slice d i n) f := by
  rw [slice, if_pos h]
  exact avoids_ok _

/-- Nor does reading a number in bounds. -/
theorem avoids_leAt {d : List UInt8} {i n : ℕ} {f : Fault} (h : i + n ≤ d.length) :
    Avoids (leAt d i n) f := (avoids_slice h).bind fun _ _ => avoids_ok _

/-- Nor does looking up an account in bounds. -/
theorem avoids_accountAt {k : List AccountMeta} {i : ℕ} {f : Fault} (h : i < k.length) :
    Avoids (accountAt k i) f := by
  rw [accountAt, List.getElem?_eq_getElem h]
  exact avoids_ok _

/-- Looking for the previous instruction does not panic. -/
theorem avoids_previousInstruction (tx : Tx) : Avoids (previousInstruction tx) .panic :=
  (avoids_require (.inr (by simp))).bind fun _ _ => avoids_orElse (by simp)

/-- A word that some bytes encode survives the narrowing that reads it. -/
theorem wrap_eq_of_val {k n : ℕ} {amount : Fin (2^k)} (h : n = amount.val) :
    (wrap n : Fin (2^k)) = amount := by
  apply Fin.ext
  rw [wrap_val, h, Nat.mod_eq_of_lt amount.isLt]

/-- A list with three elements shows them. -/
theorem exists_of_three_le {α : Type} {k : List α} (h : 3 ≤ k.length) :
    ∃ a b c l, k = a :: b :: c :: l := by
  obtain _ | ⟨a, _ | ⟨b, _ | ⟨c, l⟩⟩⟩ := k
  · simp at h
  · simp at h
  · simp at h
  · exact ⟨a, b, c, l, rfl⟩

/-- How the SPL Token program reads the two forms: the amount after the tag, and the accounts by
place. -/
inductive Unpacks : Instruction → TokenTransfer → Prop
  | transfer {programId : Pubkey} {source destination authority : AccountMeta}
      {more : List AccountMeta} {rest : List UInt8} (long : 8 ≤ rest.length) :
      Unpacks
        ⟨programId, source :: destination :: authority :: more, splTransfer :: rest⟩
        ⟨wrap (leNat (rest.take 8)), source.pubkey, destination.pubkey, authority, none⟩
  | transferChecked {programId : Pubkey} {source mint destination authority : AccountMeta}
      {more : List AccountMeta} {rest : List UInt8} {decimals : UInt8}
      (ends : rest[8]? = some decimals) :
      Unpacks
        ⟨programId, source :: mint :: destination :: authority :: more, splTransferChecked :: rest⟩
        ⟨wrap (leNat (rest.take 8)), source.pubkey, destination.pubkey, authority,
          some (mint.pubkey, decimals)⟩

/-- The two tags of a transfer differ. -/
theorem splTransferChecked_ne : ¬ splTransferChecked = splTransfer := by decide

/-- The token program reads the two forms of a transfer. -/
theorem unpackTransfer_eq_some {ix : Instruction} {t : TokenTransfer} :
    unpackTransfer ix = some t ↔ Unpacks ix t := by
  constructor
  · intro h
    obtain ⟨programId, accounts, data⟩ := ix
    unfold unpackTransfer at h
    split at h
    · rename_i tag rest source second third more hdata haccounts
      simp only at hdata haccounts
      subst hdata haccounts
      split_ifs at h with htransfer hchecked
      · obtain ⟨rfl, hlong⟩ := htransfer
        cases h
        exact .transfer hlong
      · subst hchecked
        split at h
        · rename_i hends
          cases h
          exact .transferChecked hends
        · cases h
    · cases h
  · intro h
    cases h with
    | transfer long => exact if_pos ⟨rfl, long⟩
    | transferChecked ends =>
      simp only [unpackTransfer, splTransferChecked_ne, ends, false_and, if_false, if_true]

/-- Where the check finds the accounts of the two forms. -/
inductive LaysOut : List UInt8 → List AccountMeta → ℕ × ℕ × ℕ → Prop
  | transfer {source destination authority : AccountMeta} {more : List AccountMeta}
      {rest : List UInt8} (long : 8 ≤ rest.length) :
      LaysOut (splTransfer :: rest) (source :: destination :: authority :: more) (0, 1, 2)
  | transferChecked {source mint destination authority : AccountMeta} {more : List AccountMeta}
      {rest : List UInt8} (long : 9 ≤ rest.length) :
      LaysOut (splTransferChecked :: rest) (source :: mint :: destination :: authority :: more)
        (0, 2, 3)

/-- The layout that `assert_token_transfer` finds is that of one of the two forms. -/
theorem transferLayout_eq_ok {d : List UInt8} {k : List AccountMeta} {x : ℕ × ℕ × ℕ} :
    transferLayout d k = .ok x ↔ LaysOut d k x := by
  constructor
  · intro h
    unfold transferLayout at h
    split at h
    · rename_i tag hhead
      obtain ⟨rest, rfl⟩ : ∃ rest, d = tag :: rest := List.head?_eq_some_iff.mp hhead
      rw [List.length_cons] at h
      split_ifs at h with htransfer hchecked
      · obtain ⟨rfl, hlong, hk⟩ := htransfer
        obtain ⟨source, destination, authority, more, rfl⟩ := exists_of_three_le hk
        cases h
        exact .transfer (by omega)
      · obtain ⟨rfl, hlong, hk⟩ := hchecked
        obtain ⟨source, k', rfl⟩ : ∃ m l, k = m :: l :=
          List.exists_cons_of_length_pos (by omega)
        obtain ⟨mint, destination, authority, more, rfl⟩ :=
          exists_of_three_le (Nat.le_of_succ_le_succ hk)
        cases h
        exact .transferChecked (by omega)
    · cases h
  · intro h
    cases h with
    | transfer long => exact if_pos ⟨rfl, by rw [List.length_cons]; omega, by simp⟩
    | @transferChecked source mint destination authority more rest long =>
      have hlength : 10 ≤ (splTransferChecked :: rest).length := by
        rw [List.length_cons]
        omega
      have hk : 4 ≤ (source :: mint :: destination :: authority :: more).length := by simp
      simp only [transferLayout, List.head?_cons, splTransferChecked_ne, hlength, hk, false_and,
        if_false, and_self, if_true]

/-- An accepted transfer is read by the SPL Token program as a transfer of the amount from `src` to
`dst` under the authority, which signed. -/
theorem assertTokenTransfer_unpack {ix : Instruction} {amount : U64} {src dst authority : Pubkey}
    (h : assertTokenTransfer ix amount src dst authority = .ok ()) :
    ix.programId = tokenProgramId ∧
      ∃ t, unpackTransfer ix = some t ∧ t.amount = amount ∧ t.source = src ∧
        t.destination = dst ∧ t.authority = ⟨authority, true⟩ := by
  obtain ⟨programId, accounts, data⟩ := ix
  simp only [assertTokenTransfer, bind_eq_ok, require_eq_ok, exists_const, leAt_eq_ok,
    accountAt_eq_ok, transferLayout_eq_ok] at h
  obtain ⟨hid, ⟨s, t, a⟩, hform, given, ⟨-, hgiven⟩, source, hs, destination, ht, auth, ha,
    rfl, rfl, rfl, rfl, hsigner⟩ := h
  have hmeta : auth = ⟨auth.pubkey, true⟩ := by rw [← hsigner]
  cases hform with
  | transfer long =>
    cases hs
    cases ht
    cases ha
    exact ⟨hid, _, unpackTransfer_eq_some.mpr (.transfer long), wrap_eq_of_val hgiven, rfl, rfl,
      hmeta⟩
  | transferChecked long =>
    cases hs
    cases ht
    cases ha
    -- The tenth byte is the decimals, which the check leaves to the token program.
    exact ⟨hid, _, unpackTransfer_eq_some.mpr (.transferChecked (List.getElem?_eq_getElem long)),
      wrap_eq_of_val hgiven, rfl, rfl, hmeta⟩

/-- What a record points at within the instruction itself. -/
theorem precompileSlice_self (datas : List (List UInt8)) {d : List UInt8} {offset size : ℕ}
    (h : offset + size ≤ d.length) :
    precompileSlice datas d 0xFFFF offset size = some ((d.drop offset).take size) := by
  simp [precompileSlice, guard, h]

/-- An accepted precompile instruction carries the signature: its indices point into itself. -/
theorem assertEd25519_carries {ix : Instruction} {signer : Pubkey} {message : List UInt8}
    (h : assertEd25519 ix signer message = .ok ()) : CarriesSignature ix signer message := by
  simp only [assertEd25519, bind_eq_ok, require_eq_ok, exists_const, leAt_eq_ok, slice_eq_ok] at h
  obtain ⟨hid, ⟨-, htag⟩, pkOff, ⟨-, hpkOff⟩, msgOff, ⟨-, hmsgOff⟩, msgLen, ⟨-, hmsgLen⟩,
    sigIx, -, pkIx, ⟨-, hpkIx⟩, msgIx, ⟨-, hmsgIx⟩, ⟨-, rfl, rfl⟩, -, pk, ⟨hpkLe, hpk⟩,
    msg, ⟨hmsgLe, hmsg⟩, rfl, rfl⟩ := h
  refine ⟨hid, htag, fun datas => ?_⟩
  simp only [verifiedPart, Nat.reduceAdd, hpkOff, hmsgOff, hmsgLen, hpkIx, hmsgIx,
    precompileSlice_self datas hpkLe, precompileSlice_self datas hmsgLe, hpk, hmsg,
    Option.bind_eq_bind, Option.bind_some, Option.pure_def]

/-- An accepted payment is read by the queue as exactly what the ticket asks of the custody, whose
owner signed. -/
theorem assertPayment_unpack {rt : Runtime} {usdc custodyOwner : Pubkey} {slot : Exit}
    {prev : Instruction} (h : assertPayment rt usdc custodyOwner slot prev = .ok ()) :
    prev.programId = ephemeralSplTokenProgramId ∧
      unpackQueueTransfer prev =
        some (slot.payment usdc (rt.ata custodyOwner usdc) custodyOwner) := by
  simp only [assertPayment, bind_eq_ok, require_eq_ok, exists_const, leAt_eq_ok,
    accountAt_eq_ok] at h
  obtain ⟨hid, hform, gid, ⟨-, hgid⟩, split, ⟨-, hsplit⟩, assets, ⟨-, hassets⟩, minDelay,
    ⟨-, hmin⟩, maxDelay, ⟨-, hmax⟩, ⟨rfl, rfl, rfl, rfl, rfl⟩, -, mint, hmint, source, hsource,
    destination, hdestination, owner, howner, rfl, hsrc, hdst, rfl, hsigner⟩ := h
  refine ⟨hid, ?_⟩
  have hmeta : owner = ⟨owner.pubkey, true⟩ := by rw [← hsigner]
  rw [Exit.payment, ← hsrc, ← hdst, ← hmeta, unpackQueueTransfer, guard, if_pos hform]
  simp only [hmint, hsource, hdestination, howner, Option.pure_def, Option.bind_eq_bind,
    Option.bind_some, wrap_eq_of_val hassets, wrap_eq_of_val hgid, wrap_eq_of_val hmin,
    wrap_eq_of_val hmax, wrap_eq_of_val hsplit]

end Agama
