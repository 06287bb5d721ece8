import Agama.Destinations

/-!
# Paying exits

The keeper pays a ticket with one transaction, the queued payment out of the custody and then
`settle_exit`, and it takes a transaction that is not confirmed in time for lost and sends another.
So any number of such transactions are in flight, each for a ticket as it once was, and they land in
any order or not at all, while users open tickets under ids that were closed before. A transaction
is atomic, so a payment lands only where `settle_exit` accepts it: next to an open ticket that asks
for exactly that payment, and closing it.

MagicBlock's queue is not part of the repository. It is a parameter here, of which `Debits` says
what the keeper relies on.
-/

namespace Agama

open LittleEndian TokenLedger

/-! ## What the keeper sends -/

/-- What the keeper signs with, and what its scripts derive with code outside of the repository. -/
structure PrivateKeeper where
  /-- The keys that sign: the owner of the private custody, and the vault's authority. -/
  custodyOwner : Pubkey
  authority : Pubkey
  /-- `deriveTransferQueue`, of USDC and the enclave's validator. -/
  transferQueue : Pubkey
  /-- `deriveQueueVaultAta`, of the same. -/
  queueVaultAta : Pubkey
  /-- `deriveGroupReceipt`, of a queue, an owner and a group id. -/
  groupReceipt : Pubkey → Pubkey → U32 → Pubkey
  ephemeralVaultId : Pubkey
  magicProgramId : Pubkey
  /-- `program.methods.settleExit`, as Anchor's client encodes it. -/
  settleExit : U32 → Instruction

/-- `queueTransferIx`. -/
def queueTransferIx (k : PrivateKeeper) (usdcMint source owner destination : Pubkey) (amount : U64)
    (groupId : U32) (minDelayMs maxDelayMs : U64) (split : U32) : Instruction where
  programId := ephemeralSplTokenProgramId
  accounts :=
    [⟨k.transferQueue, false⟩, ⟨k.transferQueue, false⟩, ⟨usdcMint, false⟩, ⟨source, false⟩,
      ⟨k.queueVaultAta, false⟩, ⟨destination, false⟩, ⟨owner, true⟩, ⟨tokenProgramId, false⟩,
      ⟨source, false⟩, ⟨k.groupReceipt k.transferQueue owner groupId, false⟩,
      ⟨k.ephemeralVaultId, false⟩, ⟨k.magicProgramId, false⟩]
  data := esplDepositAndQueueTransfer ::
    leFields [(8, amount.val), (3, groupId.val), (8, minDelayMs.val), (8, maxDelayMs.val),
      (4, split.val)]

/-- The keeper's token account, the private custody. -/
def PrivateKeeper.custody (k : PrivateKeeper) (rt : Runtime) : Pubkey :=
  rt.ata k.custodyOwner rt.usdcMint

/-- The payment that `payExitIxs` puts first. -/
def PrivateKeeper.pay (k : PrivateKeeper) (rt : Runtime) (e : Exit) : Instruction :=
  queueTransferIx k rt.usdcMint (k.custody rt) k.custodyOwner e.owner e.assets e.groupId
    e.minDelayMs e.maxDelayMs e.split

/-- `payExitIxs`. -/
def payExitIxs (k : PrivateKeeper) (rt : Runtime) (e : Exit) : List Instruction :=
  [k.pay rt e, k.settleExit e.groupId]

/-- What `settle_exit` sees of the keeper's transaction. -/
def PrivateKeeper.tx (k : PrivateKeeper) (rt : Runtime) (now : ℤ) (e : Exit) : Tx :=
  ⟨[k.custodyOwner, k.authority], now, payExitIxs k rt e, 1⟩

/-- The `settle_exit` that comes second. -/
def PrivateKeeper.settle (k : PrivateKeeper) (rt : Runtime) (now : ℤ) (e : Exit) : Action :=
  .program (k.tx rt now e) (.settleExit k.authority e.groupId)

/-- MagicBlock's token program on the private balances. -/
abbrev QueueProgram := Balances Pubkey 64 → Instruction → Option (Balances Pubkey 64)

/-- A queued payment takes its amount out of its source. -/
def QueueProgram.Debits (queue : QueueProgram) : Prop :=
  ∀ b b' ix t, queue b ix = some b' → unpackQueueTransfer ix = some t →
    (b' t.source).val + t.amount.val = (b t.source).val

/-- The keeper's transaction for a ticket, which fails as a whole when one of its instructions
does. -/
def World.payExit (queue : QueueProgram) (k : PrivateKeeper) (rt : Runtime) (w : World) (now : ℤ)
    (e : Exit) : Result World := do
  let privateUsdc ← orElse (queue w.privateUsdc (k.pay rt e)) .external
  World.exec rt { w with privateUsdc } (k.tx rt now e) (.settleExit k.authority e.groupId)

/-- The numbers that a queued payment's data hold, each at its place. -/
structure QueueFields (d : List UInt8) (amount groupId minDelayMs maxDelayMs split : ℕ) :
    Prop where
  length : d.length = 32
  tag : d.head? = some esplDepositAndQueueTransfer
  amount : leNat ((d.drop 1).take 8) = amount
  groupId : leNat ((d.drop 9).take 3) = groupId
  minDelayMs : leNat ((d.drop 12).take 8) = minDelayMs
  maxDelayMs : leNat ((d.drop 20).take 8) = maxDelayMs
  split : leNat ((d.drop 28).take 4) = split

/-- `queueTransferIx` writes every number whole, except that it cuts the group id to three bytes. -/
theorem queueTransfer_fields (k : PrivateKeeper) (usdcMint source owner destination : Pubkey)
    (amount : U64) (groupId : U32) (minDelayMs maxDelayMs : U64) (split : U32) :
    QueueFields (queueTransferIx k usdcMint source owner destination amount groupId minDelayMs
      maxDelayMs split).data amount.val (groupId.val % 2^24) minDelayMs.val maxDelayMs.val
      split.val := by
  have hfield := leNat_field [esplDepositAndQueueTransfer]
  have hword {b : ℕ} (x : Fin (2^b)) : x.val % 2^b = x.val := Nat.mod_eq_of_lt x.isLt
  refine ⟨by simp [queueTransferIx], rfl, ?_, ?_, ?_, ?_, ?_⟩
  · exact (hfield [] _ 8 _).trans (hword amount)
  · exact hfield [(8, _)] _ 3 _
  · exact (hfield [(8, _), (3, _)] _ 8 _).trans (hword minDelayMs)
  · exact (hfield [(8, _), (3, _), (8, _)] _ 8 _).trans (hword maxDelayMs)
  · exact (hfield [(8, _), (3, _), (8, _), (8, _)] [] 4 _).trans (hword split)

/-- The queue reads a payment that the keeper built as the ticket that it was built from, with the
group id cut to three bytes. -/
theorem unpack_pay (k : PrivateKeeper) (rt : Runtime) (e : Exit) :
    unpackQueueTransfer (k.pay rt e) =
      some { e.payment rt.usdcMint (k.custody rt) k.custodyOwner with
        groupId := wrap (e.groupId.val % 2^24) } := by
  have hfields : QueueFields (k.pay rt e).data _ _ _ _ _ := queueTransfer_fields ..
  rw [unpackQueueTransfer, guard, if_pos ⟨hfields.length.ge, hfields.tag⟩]
  simp only [hfields.groupId, wrap_eq_of_val hfields.amount, wrap_eq_of_val hfields.minDelayMs,
    wrap_eq_of_val hfields.maxDelayMs, wrap_eq_of_val hfields.split]
  rfl

/-! ## What everyone else does -/

/-- An action of a transaction that the custody's key does not sign: whoever is marked as a signer
of its instructions signed it, and the token program moves nothing out of the custody. -/
def Action.SignedByOthers (custodyOwner custody : Pubkey) : Action → Prop
  | .program tx _ => custodyOwner ∉ tx.signers ∧
      ∀ ix ∈ tx.instructions, ∀ m ∈ ix.accounts, m.isSigner = true → m.pubkey ∈ tx.signers
  | .token (.sendPrivate ix) => ∀ t ∈ unpackTransfer ix, t.source ≠ custody
  | .token (.queue account _) => account ≠ custody
  | .token _ => True

/-- The instruction before the current one is one of the transaction's. -/
theorem previousInstruction_mem {tx : Tx} {prev : Instruction}
    (h : previousInstruction tx = .ok prev) : prev ∈ tx.instructions := by
  simp only [previousInstruction, bind_eq_ok, orElse_eq_ok] at h
  obtain ⟨_, -, hprev⟩ := h
  exact List.mem_of_getElem? hprev

/-- The authority of a queued payment is one of the instruction's accounts. -/
theorem authority_mem_of_unpack {ix : Instruction} {t : QueueTransfer}
    (h : unpackQueueTransfer ix = some t) : t.authority ∈ ix.accounts := by
  simp only [unpackQueueTransfer, Option.bind_eq_bind, Option.bind_eq_some_iff, Option.pure_def,
    Option.some.injEq] at h
  obtain ⟨_, -, _, -, _, -, _, -, authority, hauthority, rfl⟩ := h
  exact List.mem_of_getElem? hauthority

namespace World

variable {rt : Runtime} {w w' : World} {tx : Tx} {ix : Ix} {a : Action}

/-- Nobody else lowers the custody. -/
theorem step_custody_le {custodyOwner custody : Pubkey}
    (ha : a.SignedByOthers custodyOwner custody) (h : w.step rt a = .ok w') :
    (w.privateUsdc custody).val ≤ (w'.privateUsdc custody).val := by
  cases a with
  | program tx ix => rw [(exec_frame h).privateUsdc]
  | token t =>
    rw [step, orElse_eq_ok] at h
    cases moved_of_moveTokens h with
    | donate | sendUsdc | sendAgyld | burnAgyld | queueUsdc | deliver | burnUsdc => exact le_rfl
    | shield debited credited => exact le_of_credit credited custody
    | deliverPrivate credited => exact le_of_credit credited custody
    | sendPrivate run =>
      simp only [processTransfer, Option.bind_eq_bind, Option.bind_eq_some_iff] at run
      obtain ⟨_, -, t, ht, _, -, hmove⟩ := run
      exact le_of_transfer (Ne.symm (ha t ht)) hmove
    | @queue account amount left debited =>
      have hne : custody ≠ account := Ne.symm ha
      simp only [Function.update_of_ne hne]
      exact le_rfl

/-- Nobody else settles a ticket: the payment before it would carry the custody owner's
signature. -/
theorem step_settles_none {custodyOwner custody : Pubkey}
    (ha : a.SignedByOthers custodyOwner custody)
    (howner : w.shielded.current.custodyOwner = custodyOwner) (h : w.step rt a = .ok w') :
    a.settles = none := by
  cases hsettles : a.settles with
  | none => rfl
  | some groupId =>
    obtain ⟨tx, authority, rfl⟩ := Action.settles_exit hsettles
    obtain ⟨e, prev, -, hprev, -, hunpack, -⟩ := exec_settleExit_pays h
    obtain ⟨hunsigned, hsigners⟩ := ha
    have hmeta := authority_mem_of_unpack hunpack
    have hsigned := hsigners prev (previousInstruction_mem hprev) _ hmeta rfl
    rw [Exit.payment, howner] at hsigned
    exact absurd hsigned hunsigned

/-- A payment lands only next to the open ticket that it was built from. It closes that ticket, and
takes its assets out of the custody. -/
theorem payExit_spec {queue : QueueProgram} (hqueue : queue.Debits) {k : PrivateKeeper} {now : ℤ}
    {e : Exit} (hmint : w.vault.usdcMint = rt.usdcMint)
    (howner : w.shielded.current.custodyOwner = k.custodyOwner)
    (h : w.payExit queue k rt now e = .ok w') :
    w.obligations.ticket e.groupId = some e ∧
      unpackQueueTransfer (k.pay rt e) =
        some (e.payment rt.usdcMint (k.custody rt) k.custodyOwner) ∧
      w'.obligations = w.obligations.settling e.groupId ∧
      (w'.privateUsdc (k.custody rt)).val + e.assets.val =
        (w.privateUsdc (k.custody rt)).val := by
  simp only [payExit, bind_eq_ok, orElse_eq_ok] at h
  obtain ⟨b, hrun, hexec⟩ := h
  obtain ⟨slot, prev, hticket, hprev, -, hunpack, hw⟩ := exec_settleExit_pays hexec
  have hcustody : rt.ata w.shielded.current.custodyOwner w.vault.usdcMint = k.custody rt := by
    rw [howner, hmint, PrivateKeeper.custody]
  -- The instruction that `settle_exit` reads is the payment that ran.
  obtain rfl : k.pay rt e = prev := Except.ok.inj hprev
  have hslot : slot = e := by
    have hread := hunpack
    rw [unpack_pay, Option.some.injEq] at hread
    simp only [Exit.payment, QueueTransfer.mk.injEq] at hread
    obtain ⟨-, -, hdestination, -, hassets, -, hmin, hmax, hsplit⟩ := hread
    have hid := (Obligations.ticket_mem hticket).2
    obtain ⟨owner, assets, minDelay, maxDelay, groupId, split⟩ := slot
    simp only at hdestination hassets hmin hmax hsplit hid
    rw [← hdestination, ← hassets, ← hmin, ← hmax, ← hsplit, hid]
  subst hslot
  have hpays : unpackQueueTransfer (k.pay rt slot) =
      some (slot.payment rt.usdcMint (k.custody rt) k.custodyOwner) := by
    rw [hunpack, custody, hcustody, hmint, howner]
  refine ⟨hticket, hpays, hw, ?_⟩
  rw [(exec_frame hexec).privateUsdc]
  exact hqueue _ _ _ _ hrun hpays

/-- A payment moves neither key of the custody. -/
theorem payExit_custodyKeys {queue : QueueProgram} {k : PrivateKeeper} {now : ℤ} {e : Exit}
    (h : w.payExit queue k rt now e = .ok w') :
    w'.vault.usdcMint = w.vault.usdcMint ∧
      w'.shielded.current.custodyOwner = w.shielded.current.custodyOwner := by
  simp only [payExit, bind_eq_ok] at h
  obtain ⟨b, -, hexec⟩ := h
  obtain ⟨hmint, howner, -⟩ := (exec_ledger hexec).credits
  exact ⟨hmint, howner⟩

end World

/-! ## The keeper among the others -/

/-- The accounts with the register of tickets, the transactions in flight, by the ticket that each
was built from, what the custody paid, and the USDC that left it. -/
structure Payouts where
  world : World
  tickets : Tickets
  inFlight : List Exit
  paid : List QueueTransfer
  left : ℕ

/-- What happens next. -/
inductive PayoutEvent where
  /-- Somebody else acts. -/
  | act (a : Action)
  /-- The keeper sends the payment of a ticket, as it once read it. -/
  | send (e : Exit)
  /-- A transaction in flight lands. -/
  | land (now : ℤ) (e : Exit)
  /-- A transaction in flight expires, or fails. -/
  | lose (e : Exit)

namespace Payouts

/-- Nothing was opened and nothing is in flight. -/
def start (w : World) : Payouts := ⟨w, .empty, [], [], 0⟩

/-- An action moved the accounts. -/
def record (s : Payouts) (k : PrivateKeeper) (rt : Runtime) (a : Action) (w' : World) : Payouts :=
  { s with
    world := w'
    tickets := s.tickets.record a s.world w'
    left := s.left +
      ((s.world.privateUsdc (k.custody rt)).val - (w'.privateUsdc (k.custody rt)).val) }

/-- One event. -/
def apply (queue : QueueProgram) (k : PrivateKeeper) (rt : Runtime) (s : Payouts) :
    PayoutEvent → Result Payouts
  | .act a => do
    let w' ← s.world.step rt a
    pure (s.record k rt a w')
  | .send e => pure { s with inFlight := s.inFlight ++ [e] }
  | .land now e => do
    let w' ← s.world.payExit queue k rt now e
    pure { s.record k rt (k.settle rt now e) w' with
      inFlight := s.inFlight.erase e
      paid := s.paid ++ (unpackQueueTransfer (k.pay rt e)).toList }
  | .lose e => pure { s with inFlight := s.inFlight.erase e }

/-- The custody's key signs the keeper's transactions only, and a ticket that the keeper pays was
opened at some time. -/
def Possible (k : PrivateKeeper) (rt : Runtime) (s : Payouts) : PayoutEvent → Prop
  | .act a => a.SignedByOthers k.custodyOwner (k.custody rt)
  | .send e => e ∈ s.tickets.opened.map Opening.ticket
  | .land _ e => e ∈ s.inFlight
  | .lose e => e ∈ s.inFlight

/-- A step of the keeper among the others. -/
def Step (queue : QueueProgram) (k : PrivateKeeper) (rt : Runtime) (s s' : Payouts) : Prop :=
  ∃ event, s.Possible k rt event ∧ s.apply queue k rt event = .ok s'

/-- The tickets that were closed, oldest first. -/
def settled (s : Payouts) : List Exit := s.tickets.closed.map fun c => c.1.1.ticket

/-- The books agree: what was paid is what the closed tickets asked for. -/
structure Sound (k : PrivateKeeper) (rt : Runtime) (s : Payouts) : Prop where
  follows : s.tickets.Follows s.world
  usdcMint : s.world.vault.usdcMint = rt.usdcMint
  custodyOwner : s.world.shielded.current.custodyOwner = k.custodyOwner
  paid : s.paid =
    s.settled.map fun e => e.payment rt.usdcMint (k.custody rt) k.custodyOwner
  left : s.left = owed s.settled

variable {queue : QueueProgram} {k : PrivateKeeper} {rt : Runtime} {s s' : Payouts}

/-- An action that settles nothing closes nothing. -/
theorem settled_record {a : Action} {w' : World} (h : a.settles = none) :
    (s.record k rt a w').settled = s.settled := by
  simp only [settled, record, Tickets.record, Action.closing_eq_none h, Option.elim_none]
  cases a.opening s.world w' <;> rfl

/-- Somebody else's action leaves the books. -/
theorem Sound.act (hs : s.Sound k rt) {a : Action} {w' : World}
    (ha : a.SignedByOthers k.custodyOwner (k.custody rt)) (h : s.world.step rt a = .ok w') :
    (s.record k rt a w').Sound k rt := by
  have hsettled : (s.record k rt a w').settled = s.settled :=
    settled_record (World.step_settles_none ha hs.custodyOwner h)
  obtain ⟨hmint, howner, -⟩ := (World.step_ledger h).credits
  have hle := World.step_custody_le ha h
  refine ⟨hs.follows.step h, hmint.trans hs.usdcMint, howner.trans hs.custodyOwner, ?_, ?_⟩
  · rw [hsettled]
    exact hs.paid
  · rw [hsettled, ← hs.left, record, Nat.sub_eq_zero_of_le hle, Nat.add_zero]

/-- The register closes the open ticket that the keeper's `settle_exit` finds. -/
theorem closed_settle (hs : s.tickets.Follows s.world) (now : ℤ) {e : Exit}
    (he : s.world.obligations.ticket e.groupId = some e) (w' : World) :
    ∃ x n, (x, n) ∈ s.tickets.live ∧ x.ticket = e ∧
      (s.record k rt (k.settle rt now e) w').tickets.closed =
        s.tickets.closed ++ [((x, n), k.tx rt now e)] := by
  obtain ⟨⟨x, n⟩, hx, hxe⟩ := hs.find he
  have hclose : (s.record k rt (k.settle rt now e) w').tickets =
      s.tickets.close Opening.groupId e.groupId (k.tx rt now e) := rfl
  refine ⟨x, n, List.mem_of_find?_eq_some hx, hxe, ?_⟩
  rw [hclose, Register.close_of_find hx]

/-- What one more closed ticket adds. -/
theorem settled_of_closed {x : Opening} {n : ℕ} {tx : Tx}
    (h : s'.tickets.closed = s.tickets.closed ++ [((x, n), tx)]) :
    s'.settled = s.settled ++ [x.ticket] := by
  rw [settled, settled, h, List.map_append]
  rfl

/-- What lands pays the open ticket that it was built from, and closes it. -/
structure Lands (k : PrivateKeeper) (rt : Runtime) (now : ℤ) (e : Exit) (s s' : Payouts) :
    Prop where
  closes : ∃ x n, (x, n) ∈ s.tickets.live ∧ x.ticket = e ∧
    s'.tickets.closed = s.tickets.closed ++ [((x, n), k.tx rt now e)]
  frees : (e :: s'.world.obligations.tickets).Perm s.world.obligations.tickets
  pays : s'.paid = s.paid ++ [e.payment rt.usdcMint (k.custody rt) k.custodyOwner]
  debits : (s'.world.privateUsdc (k.custody rt)).val + e.assets.val =
    (s.world.privateUsdc (k.custody rt)).val

/-- A transaction in flight lands only on the open ticket that it was built from. -/
theorem Sound.lands (hqueue : queue.Debits) (hs : s.Sound k rt) {now : ℤ} {e : Exit}
    (h : s.apply queue k rt (.land now e) = .ok s') :
    s.Lands k rt now e s' := by
  simp only [apply, bind_eq_ok, pure_eq_ok] at h
  obtain ⟨w', hpay, rfl⟩ := h
  obtain ⟨hticket, hunpack, hw, hbalance⟩ :=
    World.payExit_spec hqueue hs.usdcMint hs.custodyOwner hpay
  refine ⟨closed_settle hs.follows now hticket w', ?_, ?_, hbalance⟩
  · change (e :: w'.obligations.tickets).Perm _
    rw [hw]
    exact Obligations.tickets_settling hticket
  · simp only [hunpack]
    rfl

/-- A payment that lands keeps the books. -/
theorem Sound.land (hqueue : queue.Debits) (hs : s.Sound k rt) {now : ℤ} {e : Exit}
    (h : s.apply queue k rt (.land now e) = .ok s') : s'.Sound k rt := by
  obtain ⟨⟨x, n, -, rfl, hclosed⟩, -, hpaid, hbalance⟩ := hs.lands hqueue h
  have hsettled := settled_of_closed hclosed
  simp only [apply, bind_eq_ok, pure_eq_ok] at h
  obtain ⟨w', hpay, rfl⟩ := h
  obtain ⟨hticket, -, hw, -⟩ := World.payExit_spec hqueue hs.usdcMint hs.custodyOwner hpay
  obtain ⟨hmint, howner⟩ := World.payExit_custodyKeys hpay
  refine ⟨hs.follows.close hticket hw (k.tx rt now x.ticket), hmint.trans hs.usdcMint,
    howner.trans hs.custodyOwner, ?_, ?_⟩
  · rw [hpaid, hsettled, List.map_append, ← hs.paid]
    rfl
  · rw [hsettled, owed_append, ← hs.left]
    simp only [record, owed, List.map_singleton, List.sum_singleton] at hbalance ⊢
    omega

/-- Every event keeps the books. -/
theorem Sound.step (hqueue : queue.Debits) (hs : s.Sound k rt) (h : Step queue k rt s s') :
    s'.Sound k rt := by
  obtain ⟨event, hpossible, happly⟩ := h
  cases event with
  | act a =>
    simp only [apply, bind_eq_ok, pure_eq_ok] at happly
    obtain ⟨w', ha, rfl⟩ := happly
    exact hs.act hpossible ha
  | land now e => exact hs.land hqueue happly
  | send e | lose e =>
    simp only [apply, pure_eq_ok] at happly
    subst happly
    exact ⟨hs.follows, hs.usdcMint, hs.custodyOwner, hs.paid, hs.left⟩

/-- The books agree at the start. -/
theorem sound_start (k : PrivateKeeper) (rt : Runtime) (authority : Pubkey) (book : PoolBook) :
    (start (.start rt authority k.custodyOwner book)).Sound k rt where
  follows := Tickets.follows_start rt authority k.custodyOwner book
  usdcMint := rfl
  custodyOwner := rfl
  paid := rfl
  left := rfl

end Payouts

/-! ## The law -/

/-- The custody pays the tickets that it closes, each once, and nothing else. -/
structure PaidOnce (queue : QueueProgram) (k : PrivateKeeper) (rt : Runtime) (s : Payouts) :
    Prop where
  /-- The register's live tickets are the open ones. -/
  remembered : (s.tickets.live.map fun x => x.1.ticket).Perm s.world.obligations.tickets
  /-- Whatever lands next pays and closes the open ticket that it was built from. -/
  lands : ∀ now e s', s.apply queue k rt (.land now e) = .ok s' → s.Lands k rt now e s'
  /-- The closed tickets are different openings. -/
  once : (s.tickets.closed.map fun c => c.1.2).Nodup
  opened : ∀ x n tx, ((x, n), tx) ∈ s.tickets.closed → s.tickets.opened[n]? = some x
  /-- They are what was paid, in this order. -/
  paid : s.paid = s.settled.map fun e => e.payment rt.usdcMint (k.custody rt) k.custodyOwner
  /-- What left the custody is what they add up to. -/
  left : s.left = owed s.settled

/-- Whatever the keeper sends again and whatever order its transactions land in, every exit is paid
once. -/
theorem exits_paid_once {queue : QueueProgram} {k : PrivateKeeper} {rt : Runtime}
    {authority : Pubkey} {book : PoolBook} {s : Payouts} (hqueue : queue.Debits)
    (hrun : Relation.ReflTransGen (Payouts.Step queue k rt)
      (.start (.start rt authority k.custodyOwner book)) s) : PaidOnce queue k rt s := by
  have hs : s.Sound k rt := Runs.preserves (I := fun s => s.Sound k rt)
    (fun hs hstep => hs.step hqueue hstep) hrun (Payouts.sound_start k rt authority book)
  exact
    { remembered := hs.follows.live
      lands := fun _ _ _ h => hs.lands hqueue h
      once := hs.follows.accounted.closed_nodup
      opened := fun _ _ _ h => hs.follows.accounted.opened_of_closed h
      paid := hs.paid
      left := hs.left }

/-! ## A stale payment -/

/-- A queue that moves the amount to its own account. -/
def depositAndQueue : QueueProgram := fun b ix => do
  guard (ix.programId = ephemeralSplTokenProgramId)
  let t ← unpackQueueTransfer ix
  let vault ← ix.accounts[4]?
  guard (t.authority.isSigner = true ∧ t.source ≠ vault.pubkey)
  transfer b t.source vault.pubkey t.amount

/-- It takes what it pays out of its source. -/
theorem depositAndQueue_debits : depositAndQueue.Debits := by
  intro b b' ix t hrun ht
  simp only [depositAndQueue, ht, Option.bind_eq_bind, Option.bind_some,
    Option.bind_eq_some_iff, Option.guard_eq_some', exists_const] at hrun
  obtain ⟨-, vault, -, ⟨-, hne⟩, hmove⟩ := hrun
  exact (transfer_of_ne hne hmove).2

instance (custodyOwner custody : Pubkey) :
    (a : Action) → Decidable (a.SignedByOthers custodyOwner custody)
  | .program tx _ => inferInstanceAs (Decidable (_ ∧ ∀ ix ∈ tx.instructions, _))
  | .token (.sendPrivate ix) => inferInstanceAs (Decidable (∀ t ∈ unpackTransfer ix, _))
  | .token (.queue _ _) => inferInstanceAs (Decidable (_ ≠ _))
  | .token (.donate _ _) | .token (.sendUsdc _ _ _) | .token (.sendAgyld _ _ _)
  | .token (.burnAgyld _ _) | .token (.shield _ _) | .token (.queueUsdc _ _)
  | .token (.deliver _ _) | .token (.deliverPrivate _ _) | .token (.burnUsdc _ _) => .isTrue trivial

namespace Payouts

variable {queue : QueueProgram} {k : PrivateKeeper} {rt : Runtime} {s s' : Payouts}

instance (s : Payouts) : (event : PayoutEvent) → Decidable (s.Possible k rt event)
  | .act a => inferInstanceAs (Decidable (a.SignedByOthers _ _))
  | .send _ | .land _ _ | .lose _ => inferInstanceAs (Decidable (_ ∈ _))

/-- An event, where it can happen. -/
def attempt (queue : QueueProgram) (k : PrivateKeeper) (rt : Runtime) (s : Payouts)
    (event : PayoutEvent) : Result Payouts := do
  constraint (s.Possible k rt event)
  s.apply queue k rt event

/-- An event that was attempted with success is a step. -/
theorem step_of_attempt {event : PayoutEvent} (h : s.attempt queue k rt event = .ok s') :
    Step queue k rt s s' := by
  rw [attempt, bind_eq_ok] at h
  obtain ⟨_, hpossible, happly⟩ := h
  rw [constraint_eq_ok] at hpossible
  exact ⟨event, hpossible, happly⟩

end Payouts

/-- A keeper of the devnet deployment. -/
def devnetKeeper : PrivateKeeper where
  custodyOwner := custodyOwner
  authority := authority
  transferQueue := key 20
  queueVaultAta := key 21
  groupReceipt := fun _ _ _ => key 22
  ephemeralVaultId := key 23
  magicProgramId := key 24
  settleExit := fun _ => ⟨programId, [], []⟩

/-- A redemption of some shares under id 1. -/
def redeemUnderOne (shares : U64) (now : ℤ) : Action :=
  .program (.alone [positionOwner] now)
    (.redeemPrivate positionOwner positionOwner ⟨shares, 1, 0, 0, 1⟩)

/-- Two exits under one id, and the payment of the first sent twice. The first copy lands; the
second one fails when it arrives, with the second exit open. -/
def stalePayment : List PayoutEvent :=
  let first : Exit := ⟨positionOwner, 30000000, 0, 0, 1, 1⟩
  let second : Exit := ⟨positionOwner, 20000000, 0, 0, 1, 1⟩
  let opened := openPrivate ++ delegatePrivate ++ privateDeposit 100000000 ++
    [redeemUnderOne 30000000 200]
  opened.map PayoutEvent.act ++
    [.send first, .send first, .land 300 first, .act (redeemUnderOne 20000000 400),
      .land 500 first, .send second, .land 600 second]

/-- Each exit was paid once, and the late copy is still in flight. -/
theorem exits_paid_once_stale :
    ∃ s : Payouts, s.paid.map QueueTransfer.amount = [30000000, 20000000] ∧ s.left = 50000000 ∧
      s.inFlight.length = 1 ∧ PaidOnce depositAndQueue devnetKeeper deployment s := by
  let attempt := Payouts.attempt depositAndQueue devnetKeeper deployment
  let s := Runs.follow attempt (.start (.deployed 800)) stalePayment
  have hrun : Relation.ReflTransGen (Payouts.Step depositAndQueue devnetKeeper deployment)
      (.start (.deployed 800)) s :=
    Runs.follow_run attempt (fun _ _ _ h => Payouts.step_of_attempt h) _ stalePayment
  exact ⟨s, by decide +kernel, by decide +kernel, by decide +kernel,
    exits_paid_once depositAndQueue_debits hrun⟩

end Agama
