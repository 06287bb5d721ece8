import Agama.Copies
import Agama.Deployment
import Agama.Lib.Codec

/-!
# The accounts' bytes

How the program's accounts are stored: an 8-byte discriminator of the type, then the fields in
Borsh, integers little-endian and keys and arrays without a length. The bump seed that the other
modules leave out is a field here. Anchor writes an account over the front of its buffer, which was
created with exactly the space that it takes, and loads it by the discriminator, ignoring what
follows the fields. `read_book` and `read_shielded` read by hand what Anchor would not load.
-/

namespace Agama

/-! ## Fields -/

namespace Format

/-- `u8`, in one byte. -/
def u8 : Codec U8 := .octet
/-- `u16`, in two. -/
def u16 : Codec U16 := .word 16 2 rfl
/-- `u32`, in four. -/
def u32 : Codec U32 := .word 32 4 rfl
/-- `u64`, in eight. -/
def u64 : Codec U64 := .word 64 8 rfl
/-- `i64`, in eight bytes of two's complement. -/
def i64 : Codec ℤ := .signed 63 8 rfl

/-- `[u8; n]`. -/
def bytes (n : ℕ) : Codec (List.Vector UInt8 n) := .vector .byte n

/-- `Pubkey`, in 32 bytes. -/
def pubkey : Codec Pubkey :=
  (bytes 32).record ⟨fun v => ⟨v.1, v.2⟩, fun k => ⟨k.bytes, k.length_bytes⟩, fun _ => rfl,
    fun _ => rfl⟩

/-! ## Accounts -/

/-- `Vault`. -/
def vault : Codec (Vault × U8) :=
  (pubkey.pair <| pubkey.pair <| pubkey.pair <| u64.pair <| u64.pair <| u64.pair u8).record
    ⟨fun (authority, usdcMint, agyldMint, shares, totalIn, totalOut, bump) =>
        (⟨authority, usdcMint, agyldMint, shares, totalIn, totalOut⟩, bump),
      fun (v, bump) =>
        (v.authority, v.usdcMint, v.agyldMint, v.shares, v.totalIn, v.totalOut, bump),
      fun _ => rfl, fun _ => rfl⟩

/-- `PoolEntry`. -/
def poolEntry : Codec PoolEntry :=
  ((bytes 24).pair <| (bytes 32).pair <| u32.pair <| u16.pair <| u64.pair u64).record
    ⟨fun (name, sector, aprBps, weightBps, principal, accrued) =>
        ⟨name, sector, aprBps, weightBps, principal, accrued⟩,
      fun p => (p.name, p.sector, p.aprBps, p.weightBps, p.principal, p.accrued),
      fun _ => rfl, fun _ => rfl⟩

/-- `PoolBook`. -/
def poolBook : Codec (PoolBook × U8) :=
  (pubkey.pair <| pubkey.pair <| (poolEntry.vector poolCount).pair <| u64.pair <| u64.pair <|
    u64.pair <| i64.pair <| u64.pair u8).record
    ⟨fun (vault, authority, pools, nav, markedIn, markedOut, lastTs, ticks, bump) =>
        (⟨vault, authority, pools, nav, markedIn, markedOut, lastTs, ticks⟩, bump),
      fun (b, bump) => (b.vault, b.authority, b.pools, b.nav, b.markedIn, b.markedOut, b.lastTs,
        b.ticks, bump),
      fun _ => rfl, fun _ => rfl⟩

/-- `Position`, whose bump comes before the session. -/
def position : Codec (Position × U8) :=
  (pubkey.pair <| pubkey.pair <| u64.pair <| u64.pair <| u64.pair <| u64.pair <| u64.pair <|
    u64.pair <| i64.pair <| u32.pair <| Codec.bool.pair <| u8.pair <| pubkey.pair i64).record
    ⟨fun (owner, vault, shares, privateShares, entryPrice, valueUsdc, costBasis, yieldUsdc,
          syncedTs, syncs, isPrivate, bump, sessionKey, sessionExpiry) =>
        (⟨owner, vault, shares, privateShares, entryPrice, valueUsdc, costBasis, yieldUsdc,
          syncedTs, syncs, isPrivate, sessionKey, sessionExpiry⟩, bump),
      fun (p, bump) => (p.owner, p.vault, p.shares, p.privateShares, p.entryPrice, p.valueUsdc,
        p.costBasis, p.yieldUsdc, p.syncedTs, p.syncs, p.isPrivate, bump, p.sessionKey,
        p.sessionExpiry),
      fun _ => rfl, fun _ => rfl⟩

/-- `FaucetClaim`. -/
def faucetClaim : Codec FaucetClaim :=
  (pubkey.pair i64).record
    ⟨fun (owner, lastTs) => ⟨owner, lastTs⟩, fun c => (c.owner, c.lastTs), fun _ => rfl,
      fun _ => rfl⟩

/-- `Shielded`. -/
def shielded : Codec (Shielded × U8) :=
  (pubkey.pair <| pubkey.pair <| u64.pair <| u64.pair <| u64.pair u8).record
    ⟨fun (vault, custodyOwner, shares, totalIn, totalOut, bump) =>
        (⟨vault, custodyOwner, shares, totalIn, totalOut⟩, bump),
      fun (s, bump) => (s.vault, s.custodyOwner, s.shares, s.totalIn, s.totalOut, bump),
      fun _ => rfl, fun _ => rfl⟩

/-- `Exit`. -/
def exit : Codec Exit :=
  (pubkey.pair <| u64.pair <| u64.pair <| u64.pair <| u32.pair u32).record
    ⟨fun (owner, assets, minDelayMs, maxDelayMs, groupId, split) =>
        ⟨owner, assets, minDelayMs, maxDelayMs, groupId, split⟩,
      fun e => (e.owner, e.assets, e.minDelayMs, e.maxDelayMs, e.groupId, e.split),
      fun _ => rfl, fun _ => rfl⟩

/-- `ExitBook`. -/
def exitBook : Codec ExitBook :=
  (pubkey.pair (exit.vector exitSlots)).record
    ⟨fun (vault, slots) => ⟨vault, slots⟩, fun b => (b.vault, b.slots), fun _ => rfl, fun _ => rfl⟩

end Format

/-- The account types. -/
inductive AccountType where
  | vault
  | poolBook
  | position
  | faucetClaim
  | shielded
  | exitBook
  deriving DecidableEq

namespace AccountType

/-- What an account of the type holds, with its bump seed if it stores one. -/
def Data : AccountType → Type
  | vault => Vault × U8
  | poolBook => PoolBook × U8
  | position => Position × U8
  | faucetClaim => FaucetClaim
  | shielded => Shielded × U8
  | exitBook => ExitBook

/-- The fields of the type. -/
def format : (t : AccountType) → Codec t.Data
  | vault => Format.vault
  | poolBook => Format.poolBook
  | position => Format.position
  | faucetClaim => Format.faucetClaim
  | shielded => Format.shielded
  | exitBook => Format.exitBook

/-- `DISCRIMINATOR`: the first 8 bytes of SHA-256 of `account:` and the type's name. -/
def discriminator : AccountType → List UInt8
  | vault => [211, 8, 232, 43, 2, 152, 117, 119]
  | poolBook => [142, 23, 165, 246, 42, 164, 234, 53]
  | position => [170, 188, 143, 228, 122, 64, 247, 208]
  | faucetClaim => [88, 39, 189, 221, 15, 215, 24, 248]
  | shielded => [146, 168, 71, 130, 210, 44, 87, 70]
  | exitBook => [231, 90, 113, 220, 149, 120, 91, 125]

/-- `INIT_SPACE`: the sizes of the fields. -/
def initSpace : AccountType → ℕ
  | vault => 32 + 32 + 32 + 8 + 8 + 8 + 1
  | poolBook => 32 + 32 + poolCount * (24 + 32 + 4 + 2 + 8 + 8) + 8 + 8 + 8 + 8 + 8 + 1
  | position => 32 + 32 + 8 + 8 + 8 + 8 + 8 + 8 + 8 + 4 + 1 + 1 + 32 + 8
  | faucetClaim => 32 + 8
  | shielded => 32 + 32 + 8 + 8 + 8 + 1
  | exitBook => 32 + exitSlots * (32 + 8 + 8 + 8 + 4 + 4)

/-- The space that an account is created with. -/
def space (t : AccountType) : ℕ := 8 + t.initSpace

/-- How Anchor writes an account back, over the front of its buffer. -/
def store (t : AccountType) (a : t.Data) (buffer : List UInt8) : List UInt8 :=
  t.discriminator ++ t.format.encode a ++ buffer.drop (8 + t.format.width)

/-- `try_deserialize`: the discriminator, then the fields, whatever follows. -/
def load (t : AccountType) (data : List UInt8) : Option t.Data :=
  if data.take 8 = t.discriminator then (t.format.decode (data.drop 8)).map Prod.fst else none

end AccountType

/-- An account as an instruction is given it. -/
structure RawAccount where
  owner : Pubkey
  data : List UInt8

/-- `read_book` and `read_shielded` on an account's bytes. -/
def readRaw (t : AccountType) (raw : RawAccount) (e : AgamaError) : Result t.Data := do
  require (raw.owner = programId ∨ raw.owner = delegationProgramId) e
  require (8 < raw.data.length) e
  require (raw.data.take 8 = t.discriminator) e
  orElse ((t.format.decode (raw.data.drop 8)).map Prod.fst) (.error e)

/-- What the bytes of an account hold, as its reader sees it. -/
def RawAccount.info (t : AccountType) (raw : RawAccount) : AccountInfo t.Data :=
  ⟨raw.owner, t.load raw.data⟩

/-! ## One type's bytes -/

namespace AccountType

/-- The fields take exactly the space that is reserved for them. -/
theorem width_format (t : AccountType) : t.format.width = t.initSpace := by
  cases t <;> rfl

/-- A discriminator has eight bytes. -/
theorem length_discriminator (t : AccountType) : t.discriminator.length = 8 := by
  cases t <;> rfl

/-- No account type is empty. -/
theorem initSpace_pos (t : AccountType) : 0 < t.initSpace := by
  cases t <;> decide

/-- The discriminators of two account types differ. -/
theorem discriminator_inj {t u : AccountType} (h : t.discriminator = u.discriminator) : t = u := by
  revert h
  cases t <;> cases u <;> decide

variable {t : AccountType} {a : t.Data} {data : List UInt8}

/-- Anchor loads exactly the strings that start with the discriminator and an encoding. -/
theorem load_eq_some : t.load data = some a ↔ t.format.Valid a ∧
    ∃ rest, data = t.discriminator ++ t.format.encode a ++ rest := by
  unfold load
  constructor
  · intro h
    split_ifs at h with hdisc
    obtain ⟨⟨b, rest⟩, hread, rfl⟩ := Option.map_eq_some_iff.mp h
    obtain ⟨hvalid, hrest⟩ := t.format.decode_eq_some.mp hread
    refine ⟨hvalid, rest, ?_⟩
    rw [← hdisc, List.append_assoc, ← hrest, List.take_append_drop]
  · rintro ⟨hvalid, rest, rfl⟩
    have hlength := t.length_discriminator
    rw [List.append_assoc, List.take_left' hlength, List.drop_left' hlength,
      t.format.decode_encode hvalid, if_pos rfl]
    rfl

/-- What was stored loads back. -/
theorem load_store (hvalid : t.format.Valid a) (buffer : List UInt8) :
    t.load (t.store a buffer) = some a := load_eq_some.mpr ⟨hvalid, _, rfl⟩

/-- Storing fills the account's space, and keeps its length. -/
theorem length_store {buffer : List UInt8} (h : buffer.length = t.space) :
    (t.store a buffer).length = t.space := by
  simp only [store, List.length_append, List.length_drop, t.length_discriminator,
    t.format.length_encode, t.width_format, h, space]
  omega

/-- What loads starts with its type's discriminator, and is as long as its space at least. -/
theorem take_of_load (h : t.load data = some a) :
    data.take 8 = t.discriminator ∧ t.space ≤ data.length := by
  obtain ⟨-, rest, rfl⟩ := load_eq_some.mp h
  have hlength := t.length_discriminator
  constructor
  · rw [List.append_assoc, List.take_left' hlength]
  · simp only [List.length_append, hlength, t.format.length_encode, t.width_format, space]
    omega

/-- Reading by hand sees an account as Anchor would load it. -/
theorem readRaw_eq (t : AccountType) (raw : RawAccount) (e : AgamaError) :
    readRaw t raw e = readAccount (raw.info t) e := by
  unfold readRaw readAccount RawAccount.info load
  by_cases hdisc : raw.data.take 8 = t.discriminator
  · by_cases hlong : 8 < raw.data.length
    · simp only [require, if_pos hdisc, if_pos hlong]
      rfl
    · -- With the discriminator alone there are no fields to decode.
      have hshort : (raw.data.drop 8).length < t.format.width := by
        have := t.initSpace_pos
        rw [t.width_format, List.length_drop]
        omega
      simp only [require, if_pos hdisc, if_neg hlong, t.format.decode_eq_none hshort]
      rfl
  · simp only [require, if_neg hdisc]
    by_cases hlong : 8 < raw.data.length
    · simp only [if_pos hlong]
      rfl
    · simp only [if_neg hlong]
      rfl

end AccountType

/-- A type's bytes: what is stored fills the account's space and loads back, what loads was stored,
nothing shorter loads, nothing loads under another type, and `read_book` and `read_shielded` read
what Anchor would load. -/
structure AccountType.Sound (t : AccountType) : Prop where
  roundTrip : ∀ a buffer, t.format.Valid a → buffer.length = t.space →
    t.load (t.store a buffer) = some a ∧ (t.store a buffer).length = t.space
  canonical : ∀ data a, t.load data = some a → t.format.Valid a ∧
    ∃ rest, data = t.discriminator ++ t.format.encode a ++ rest
  complete : ∀ data : List UInt8, data.length < t.space → t.load data = none
  distinct : ∀ u data, u ≠ t → (t.load data).isSome = true → u.load data = none
  read : ∀ raw e, readRaw t raw e = readAccount (raw.info t) e

/-- Every account type of the program is stored and read soundly. -/
theorem accounts_sound (t : AccountType) : t.Sound where
  roundTrip a buffer hvalid hlength := ⟨t.load_store hvalid buffer, t.length_store hlength⟩
  canonical data a h := AccountType.load_eq_some.mp h
  complete data hshort := by
    cases h : t.load data with
    | none => rfl
    | some a =>
      have hlong := (AccountType.take_of_load h).2
      omega
  distinct u data hne hloads := by
    obtain ⟨a, ha⟩ := Option.isSome_iff_exists.mp hloads
    cases h : u.load data with
    | none => rfl
    | some b =>
      have hsame := (AccountType.take_of_load h).1.symm.trans (AccountType.take_of_load ha).1
      exact absurd (AccountType.discriminator_inj hsame) hne
  read := t.readRaw_eq

/-! ## The accounts of the program -/

/-- An account of the program holds this value. -/
inductive World.Holds (w : World) : (t : AccountType) → t.Data → Prop
  | vault (bump : U8) : Holds w .vault (w.vault, bump)
  | book (bump : U8) : Holds w .poolBook (w.book.base, bump)
  | liveBook {b : PoolBook} (bump : U8) (live : w.book.live = some b) :
      Holds w .poolBook (b, bump)
  | shielded (bump : U8) : Holds w .shielded (w.shielded.base, bump)
  | liveShielded {s : Shielded} (bump : U8) (live : w.shielded.live = some s) :
      Holds w .shielded (s, bump)
  | exits : Holds w .exitBook w.exits.base
  | liveExits {x : ExitBook} (live : w.exits.live = some x) : Holds w .exitBook x
  | claim (user : Pubkey) : Holds w .faucetClaim (w.claims user)
  | position {o : Pubkey} {d : Delegable Position} (bump : U8)
      (found : w.positions.lookup o = some d) : Holds w .position (d.base, bump)
  | livePosition {o : Pubkey} {d : Delegable Position} {p : Position} (bump : U8)
      (found : w.positions.lookup o = some d) (live : d.live = some p) :
      Holds w .position (p, bump)

/-- The times that the accounts hold are `i64`s. -/
structure World.Timed (w : World) : Prop where
  book : w.book.Both fun b => IsI64 b.lastTs
  claims : ∀ user, IsI64 (w.claims user).lastTs
  positions : ∀ o d, w.positions.lookup o = some d →
    d.Both fun p => IsI64 p.syncedTs ∧ IsI64 p.sessionExpiry

namespace Format

/-- Every key can be written. -/
theorem total_pubkey : pubkey.Total := (Codec.total_byte.vector 32).record _

/-- Every pool can be written. -/
theorem total_poolEntry : poolEntry.Total :=
  ((Codec.total_byte.vector 24).pair <| (Codec.total_byte.vector 32).pair <|
    Codec.total_word.pair <| Codec.total_word.pair <|
      Codec.total_word.pair Codec.total_word).record _

/-- Every vault can be written. -/
theorem total_vault : vault.Total :=
  (total_pubkey.pair <| total_pubkey.pair <| total_pubkey.pair <| Codec.total_word.pair <|
    Codec.total_word.pair <| Codec.total_word.pair Codec.total_octet).record _

/-- Every aggregate can be written. -/
theorem total_shielded : shielded.Total :=
  (total_pubkey.pair <| total_pubkey.pair <| Codec.total_word.pair <| Codec.total_word.pair <|
    Codec.total_word.pair Codec.total_octet).record _

/-- Every ticket can be written. -/
theorem total_exit : exit.Total :=
  (total_pubkey.pair <| Codec.total_word.pair <| Codec.total_word.pair <|
    Codec.total_word.pair <| Codec.total_word.pair Codec.total_word).record _

/-- Every exit book can be written. -/
theorem total_exitBook : exitBook.Total := (total_pubkey.pair (total_exit.vector _)).record _

/-- A book has an encoding when its clock does. -/
theorem valid_poolBook {b : PoolBook} (h : IsI64 b.lastTs) (bump : U8) :
    poolBook.Valid (b, bump) :=
  ⟨trivial, total_pubkey _, total_pubkey _, total_poolEntry.vector _ _, trivial, trivial, trivial,
    ⟨h, trivial⟩, trivial, trivial⟩

/-- A position has an encoding when both its times do. -/
theorem valid_position {p : Position} (hsynced : IsI64 p.syncedTs)
    (hexpiry : IsI64 p.sessionExpiry) (bump : U8) : position.Valid (p, bump) :=
  ⟨trivial, total_pubkey _, total_pubkey _, trivial, trivial, trivial, trivial, trivial, trivial,
    ⟨hsynced, trivial⟩, trivial, Codec.total_bool _, trivial, total_pubkey _, hexpiry, trivial⟩

/-- A claim record can be written when its time is an `i64`. -/
theorem valid_faucetClaim {c : FaucetClaim} (h : IsI64 c.lastTs) : faucetClaim.Valid c :=
  ⟨trivial, total_pubkey _, h, trivial⟩

end Format

/-- Every value that an account of the program holds has an encoding. -/
theorem World.Timed.valid {w : World} (hw : w.Timed) {t : AccountType} {a : t.Data}
    (h : w.Holds t a) : t.format.Valid a := by
  cases h with
  | vault bump => exact Format.total_vault _
  | book bump => exact Format.valid_poolBook hw.book.1 bump
  | liveBook bump live => exact Format.valid_poolBook (hw.book.live live) bump
  | shielded bump | liveShielded bump live => exact Format.total_shielded _
  | exits | liveExits live => exact Format.total_exitBook _
  | claim user => exact Format.valid_faucetClaim (hw.claims user)
  | position bump found =>
    have htimes := (hw.positions _ _ found).1
    exact Format.valid_position htimes.1 htimes.2 bump
  | livePosition bump found live =>
    have htimes := (hw.positions _ _ found).live live
    exact Format.valid_position htimes.1 htimes.2 bump

/-- The clock is an `i64`. -/
def ClockFits (_ : World) (a : Action) (_ : World) : Prop := IsI64 a.now

instance (w : World) (a : Action) (w' : World) : Decidable (ClockFits w a w') :=
  inferInstanceAs (Decidable (IsI64 a.now))

/-- Zero is an `i64`. -/
theorem isI64_zero : IsI64 0 := by decide

/-- Every write of a position leaves times that fit. -/
theorem Position.Writes.timed {now : ℤ} {Q : U64 → Prop} {p p' : Position} (hnow : IsI64 now)
    (hp : IsI64 p.syncedTs ∧ IsI64 p.sessionExpiry) (h : Position.Writes now Q p p') :
    IsI64 p'.syncedTs ∧ IsI64 p'.sessionExpiry := by
  cases h with
  | session fits => exact ⟨hp.1, fits hnow⟩
  | gate => exact hp
  | marked priced run key expiry =>
    rw [expiry]
    simp only [mark, bind_eq_ok, pure_eq_ok] at run
    obtain ⟨_, -, _, -, rfl⟩ := run
    exact ⟨hnow, hp.2⟩

/-- In every state that the program reaches on clocks that fit, the accounts' times do. -/
theorem World.run_timed {rt : Runtime} {authority custodyOwner : Pubkey} {book : PoolBook}
    {w : World} (hbook : IsI64 book.lastTs)
    (hrun : Relation.ReflTransGen (StepWith rt ClockFits)
      (World.start rt authority custodyOwner book) w) : w.Timed where
  book := run_lastTs id hrun ⟨hbook, hbook⟩
  claims user := run_claims id hrun user isI64_zero
  positions o d hd :=
    run_positions (I := fun _ _ p => IsI64 p.syncedTs ∧ IsI64 p.sessionExpiry)
      (fun _ _ h => h) (fun _ _ hP hp hwrites => hwrites.timed hP hp)
      (fun _ _ => ⟨isI64_zero, isI64_zero⟩) hrun (fun _ _ h => by cases h) hd

/-- Reading a part of what an account holds. -/
theorem readAccount_map {α β : Type} (f : α → β) (owner : Pubkey) (a : α) (e : AgamaError) :
    (readAccount ⟨owner, some a⟩ e).map f = readAccount ⟨owner, some (f a)⟩ e := by
  unfold readAccount require
  split <;> rfl

/-- Every account of the program survives being stored, and the copies that Solana holds of the book
and the aggregate are what `read_book` and `read_shielded` read off their bytes. -/
structure World.ReadsBack (w : World) : Prop where
  accounts : ∀ t a buffer, w.Holds t a → buffer.length = t.space →
    t.load (t.store a buffer) = some a ∧ (t.store a buffer).length = t.space
  book : ∀ bump buffer,
    (readRaw .poolBook ⟨ownerOf w.book, AccountType.poolBook.store (w.book.base, bump) buffer⟩
      .badBookOwner).map Prod.fst = readBook (info w.book)
  shielded : ∀ bump buffer,
    (readRaw .shielded
      ⟨ownerOf w.shielded, AccountType.shielded.store (w.shielded.base, bump) buffer⟩
      .badShielded).map Prod.fst = readShielded (info w.shielded)

/-- In every state that the program reaches, on any clock, its accounts read back from their
bytes. -/
theorem accounts_read_back {rt : Runtime} {authority custodyOwner : Pubkey} {book : PoolBook}
    {w : World} (hbook : IsI64 book.lastTs)
    (hrun : Relation.ReflTransGen (StepWith rt ClockFits)
      (World.start rt authority custodyOwner book) w) : w.ReadsBack := by
  have htimed := World.run_timed hbook hrun
  have hread {t : AccountType} {a : t.Data} (hheld : w.Holds t a) (owner : Pubkey)
      (buffer : List UInt8) (e : AgamaError) :
      readRaw t ⟨owner, t.store a buffer⟩ e = readAccount ⟨owner, some a⟩ e := by
    rw [AccountType.readRaw_eq, RawAccount.info, t.load_store (htimed.valid hheld)]
  refine ⟨fun t a buffer hheld hlength =>
    ⟨t.load_store (htimed.valid hheld) buffer, t.length_store hlength⟩, fun bump buffer => ?_,
    fun bump buffer => ?_⟩
  · rw [hread (.book bump)]
    exact readAccount_map (fun x : PoolBook × U8 => x.1) _ _ _
  · rw [hread (.shielded bump)]
    exact readAccount_map (fun x : Shielded × U8 => x.1) _ _ _

/-- The accounts after a private deposit read back. -/
theorem accounts_read_back_deposit :
    ((World.deployed 1000).after deployment
      (openPrivate ++ delegatePrivate ++ privateDeposit 500000000)).ReadsBack :=
  accounts_read_back isI64_zero (run_of_replays (P := ClockFits) (by decide +kernel))

end Agama
