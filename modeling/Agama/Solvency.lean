import Agama.ExitPasses
import Agama.PaymentFormat
import Agama.Recycling
import Agama.Transactions

/-!
# What the custody can pay

The private custody owes the open tickets, and whatever came in that no ticket has claimed. Whole
transactions of others in the enclave, with the calls of foreign programs, come between token
movements, instructions on Solana and the keeper's payments in any order. A private deposit is
credited for the transfer before it, which in the enclave moves private accounts. So the aggregate
counts no more than what came in, as long as deposits are made in the enclave and no transfer is
credited twice. Then the custody always holds what it owes (`Covered`): `settle_exit` accepts the
payment of every open ticket at any time, and one pass of the keeper pays all that are due.
-/

namespace Agama

open TokenLedger

/-! ## Transactions of others -/

/-- A top-level instruction that the custody's key does not sign for: the token program moves
nothing out of the custody. -/
def TopLevel.ByOthers (custodyOwner custody : Pubkey) : TopLevel → Prop
  | .transfer ix _ => ∀ t ∈ unpackTransfer ix, t.source ≠ custody
  | .agama _ _ _ => True
  | .foreign _ _ pdas _ => custodyOwner ∉ pdas

instance (custodyOwner custody : Pubkey) :
    (top : TopLevel) → Decidable (top.ByOthers custodyOwner custody)
  | .transfer _ _ => inferInstanceAs (Decidable (∀ t ∈ unpackTransfer _, _))
  | .agama _ _ _ => .isTrue trivial
  | .foreign _ _ _ _ => inferInstanceAs (Decidable (_ ∉ _))

/-- A transaction that the custody's key does not sign: whoever is marked as a signer of its
instructions signed it. -/
def Transaction.ByOthers (custodyOwner custody : Pubkey) (t : Transaction) : Prop :=
  custodyOwner ∉ t.signers ∧
    (∀ top ∈ t.topLevel, ∀ m ∈ top.instruction.accounts, m.isSigner = true →
      m.pubkey ∈ t.signers) ∧
    ∀ top ∈ t.topLevel, top.ByOthers custodyOwner custody

/-- No transfer is credited twice: no foreign program makes more than one private deposit under one
top-level instruction. -/
def Transaction.CreditsOnce (t : Transaction) : Prop :=
  ∀ top ∈ t.topLevel, top.deposits.length ≤ 1

/-- It makes a private deposit. -/
def Transaction.Deposits (t : Transaction) : Prop := ∃ top ∈ t.topLevel, top.deposits ≠ []

/-- What others leave of the custody's side, and what they bring in. -/
structure Kept (k : PrivateKeeper) (rt : Runtime) (inflow : ℕ) (w w' : World) : Prop where
  usdcMint : w'.vault.usdcMint = w.vault.usdcMint
  custodyOwner : w'.shielded.current.custodyOwner = w.shielded.current.custodyOwner
  authority : w'.vault.authority = w.vault.authority
  solvent : ∀ {h}, Solvent w.obligations h → ∃ h', Solvent w'.obligations h'
  owed : w'.obligations.totalOut.val + owed w.obligations.tickets =
    w.obligations.totalOut.val + owed w'.obligations.tickets
  tickets : ∀ e ∈ w.obligations.tickets, e ∈ w'.obligations.tickets
  balance : (w.privateUsdc (k.custody rt)).val + inflow ≤ (w'.privateUsdc (k.custody rt)).val

/-- What is counted as paid out moves with the open tickets, while none is settled. -/
theorem Obligations.Step.owed {a : Action} {x x' : Obligations} (h : Obligations.Step a x x')
    (hsettles : a.settles = none) :
    x'.totalOut.val + Agama.owed x.tickets = x.totalOut.val + Agama.owed x'.tickets := by
  cases h with
  | received => rfl
  | @opened ticket slot opens settles held positive inRange unused free =>
    have hperm := Obligations.tickets_opening (Exit.isOpen_of_pos inRange.1) free
    have hexact : (x.opening ticket).totalOut.val = x.totalOut.val + ticket.assets.val :=
      satAdd_val_of_lt (by have := x.totalIn.isLt; omega)
    rw [hexact, owed_perm hperm, Agama.owed, Agama.owed, List.map_cons, List.sum_cons]
    omega
  | settled opens settles found =>
    rw [settles] at hsettles
    cases hsettles

/-- An open ticket stays open, while none is settled. -/
theorem Obligations.Step.mem_tickets {a : Action} {x x' : Obligations}
    (h : Obligations.Step a x x') (hsettles : a.settles = none) {e : Exit} (he : e ∈ x.tickets) :
    e ∈ x'.tickets := by
  cases h with
  | received => exact he
  | opened opens settles held positive inRange unused free =>
    have hperm := Obligations.tickets_opening (Exit.isOpen_of_pos inRange.1) free
    exact hperm.mem_iff.mpr (List.mem_cons_of_mem _ he)
  | settled opens settles found =>
    rw [settles] at hsettles
    cases hsettles

namespace Kept

variable {k : PrivateKeeper} {rt : Runtime} {m n : ℕ} {w w' w'' : World}

/-- Doing nothing keeps everything. -/
theorem refl (w : World) : Kept k rt 0 w w :=
  ⟨rfl, rfl, rfl, fun h => ⟨_, h⟩, rfl, fun _ he => he, le_rfl⟩

/-- Two steps bring in what each does. -/
theorem trans (h : Kept k rt m w w') (h' : Kept k rt n w' w'') : Kept k rt (m + n) w w'' where
  usdcMint := h'.usdcMint.trans h.usdcMint
  custodyOwner := h'.custodyOwner.trans h.custodyOwner
  authority := h'.authority.trans h.authority
  solvent hw := by
    obtain ⟨_, hw'⟩ := h.solvent hw
    exact h'.solvent hw'
  owed := by
    have := h.owed
    have := h'.owed
    omega
  tickets e he := h'.tickets e (h.tickets e he)
  balance := by
    have := h.balance
    have := h'.balance
    omega

end Kept

namespace World

variable {k : PrivateKeeper} {rt : Runtime} {w w' : World} {tx : Tx}

/-- Any action of others. -/
theorem step_kept {a : Action} (howner : w.shielded.current.custodyOwner = k.custodyOwner)
    (ha : a.SignedByOthers k.custodyOwner (k.custody rt)) (h : w.step rt a = .ok w') :
    Kept k rt 0 w w' := by
  obtain ⟨hmint, hcustody, -⟩ := (step_ledger h).credits
  have hstep := step_obligations h
  have hsettles := step_settles_none ha howner h
  exact ⟨hmint, hcustody, (step_ledger h).authority, fun hw => ⟨_, hstep.solvent hw⟩,
    hstep.owed hsettles, fun _ he => hstep.mem_tickets hsettles he, step_custody_le ha h⟩

/-- A transfer of others brings its amount into the custody, when that is where it goes. -/
theorem transfer_kept {ix : Instruction} {isToken : ix.programId = tokenProgramId}
    (howner : w.shielded.current.custodyOwner = k.custodyOwner)
    (ha : (TopLevel.transfer ix isToken).ByOthers k.custodyOwner (k.custody rt))
    (h : w.step rt (.token (.sendPrivate ix)) = .ok w') :
    Kept k rt (((TopLevel.transfer ix isToken).inflow (k.custody rt)).elim 0 Fin.val) w w' := by
  have hkept : Kept k rt 0 w w' := step_kept (a := .token (.sendPrivate ix)) howner ha h
  refine { hkept with balance := ?_ }
  have hle := hkept.balance
  rw [step, orElse_eq_ok] at h
  cases moved_of_moveTokens h with
  | sendPrivate run =>
    simp only [processTransfer, Option.bind_eq_bind, Option.bind_eq_some_iff] at run
    obtain ⟨_, -, t, ht, _, -, hmove⟩ := run
    simp only [TopLevel.inflow, ht]
    split
    · rename_i hdst
      -- It comes from another account, so the whole amount arrives.
      have harrives := (transfer_of_ne (hdst ▸ ha t ht) hmove).1
      rw [hdst] at harrives
      exact harrives.ge
    · exact hle

/-- The calls under one top-level instruction. -/
theorem execCalls_kept {calls : List Ix} (howner : w.shielded.current.custodyOwner = k.custodyOwner)
    (ha : ∀ ix, (Action.program tx ix).SignedByOthers k.custodyOwner (k.custody rt))
    (h : w.execCalls rt tx calls = .ok w') : Kept k rt 0 w w' := by
  induction calls generalizing w with
  | nil =>
    rw [execCalls, pure_eq_ok] at h
    exact h ▸ .refl w
  | cons ix calls ih =>
    rw [execCalls, bind_eq_ok] at h
    obtain ⟨w₁, hfirst, hrest⟩ := h
    have hkept : Kept k rt 0 w w₁ := step_kept howner (ha ix) hfirst
    exact hkept.trans (ih (hkept.custodyOwner.trans howner) hrest)

/-- A top-level instruction. -/
theorem execTopLevel_kept {top : TopLevel}
    (howner : w.shielded.current.custodyOwner = k.custodyOwner)
    (hsigners : k.custodyOwner ∉ tx.signers)
    (hmetas : ∀ ix ∈ tx.instructions, ∀ m ∈ ix.accounts, m.isSigner = true → m.pubkey ∈ tx.signers)
    (ha : top.ByOthers k.custodyOwner (k.custody rt)) (h : w.execTopLevel rt tx top = .ok w') :
    Kept k rt ((top.inflow (k.custody rt)).elim 0 Fin.val) w w' := by
  cases top with
  | transfer ix isToken => exact transfer_kept howner ha h
  | agama accounts data ix => exact step_kept (a := .program tx ix) howner ⟨hsigners, hmetas⟩ h
  | foreign ix notToken pdas calls =>
    refine execCalls_kept howner (fun _ => ⟨?_, ?_⟩) h
    · rw [List.mem_append]
      exact fun hmem => hmem.elim hsigners ha
    · exact fun i hi m hm hs => List.mem_append_left _ (hmetas i hi m hm hs)

/-- The top-level instructions of a transaction from an index on. -/
theorem execFrom_kept {t : Transaction} {i : ℕ} {rest : List TopLevel}
    (howner : w.shielded.current.custodyOwner = k.custodyOwner)
    (hsigners : k.custodyOwner ∉ t.signers)
    (hmetas : ∀ top ∈ t.topLevel, ∀ m ∈ top.instruction.accounts, m.isSigner = true →
      m.pubkey ∈ t.signers)
    (ha : ∀ top ∈ rest, top.ByOthers k.custodyOwner (k.custody rt))
    (h : w.execFrom rt t i rest = .ok w') :
    Kept k rt (rest.map fun top => (top.inflow (k.custody rt)).elim 0 Fin.val).sum w w' := by
  induction rest generalizing w i with
  | nil =>
    rw [execFrom, pure_eq_ok] at h
    exact h ▸ .refl w
  | cons top rest ih =>
    rw [execFrom, bind_eq_ok] at h
    obtain ⟨w₁, hfirst, hrest⟩ := h
    have hlisted : ∀ ix ∈ (t.txAt i).instructions, ∀ m ∈ ix.accounts, m.isSigner = true →
        m.pubkey ∈ (t.txAt i).signers := by
      intro ix hix
      obtain ⟨top', htop', rfl⟩ := List.mem_map.mp hix
      exact hmetas top' htop'
    have hkept := execTopLevel_kept howner hsigners hlisted (ha top List.mem_cons_self) hfirst
    rw [List.map_cons, List.sum_cons]
    exact hkept.trans (ih (hkept.custodyOwner.trans howner)
      (fun top' htop' => ha top' (List.mem_cons_of_mem _ htop')) hrest)

/-- A transaction that credits no transfer twice counts no more than what it brings in. -/
theorem transact_credits {t : Transaction} (honce : t.CreditsOnce)
    (h : w.transact rt t = .ok w') :
    w'.totalIn.val ≤ w.totalIn.val + t.inflow (w.custody rt) := by
  obtain ⟨htotal, hread⟩ := execFrom_credits h
  refine htotal.trans (Nat.add_le_add_left (deposits_le_inflow honce ?_) _)
  intro i top htop amount hmem
  have hi := hread i top htop amount hmem
  rw [Nat.zero_add] at hi
  exact hi.inflow

end World

/-! ## What it owes -/

/-- All that the payment of a ticket needs of the accounts: the keeper's keys are theirs, and the
custody holds the open tickets. -/
structure Payable (k : PrivateKeeper) (rt : Runtime) (w : World) : Prop where
  usdcMint : w.vault.usdcMint = rt.usdcMint
  custodyOwner : w.shielded.current.custodyOwner = k.custodyOwner
  authority : w.vault.authority = k.authority
  solvent : ∃ h, Solvent w.obligations h
  holds : owed w.obligations.tickets ≤ (w.privateUsdc (k.custody rt)).val

namespace Payable

variable {k : PrivateKeeper} {rt : Runtime} {w w' : World}

/-- The account that is checked is the keeper's. -/
theorem custody (h : Payable k rt w) : w.custody rt = k.custody rt := by
  rw [World.custody, h.custodyOwner, h.usdcMint, PrivateKeeper.custody]

/-- A payment takes a ticket's assets out of the custody, and the ticket off what it owes. -/
theorem pay {queue : QueueProgram} (hqueue : queue.Debits) (h : Payable k rt w) {now : ℤ} {e : Exit}
    (hrun : w.payExit queue k rt now e = .ok w') :
    Payable k rt w' ∧ (e :: w'.obligations.tickets).Perm w.obligations.tickets ∧
      (w'.privateUsdc (k.custody rt)).val + e.assets.val =
        (w.privateUsdc (k.custody rt)).val := by
  obtain ⟨hticket, -, hw, hbalance⟩ := World.payExit_spec hqueue h.usdcMint h.custodyOwner hrun
  obtain ⟨hmint, howner⟩ := World.payExit_custodyKeys hrun
  have hauthority : w'.vault.authority = w.vault.authority := by
    simp only [World.payExit, bind_eq_ok] at hrun
    obtain ⟨b, -, hexec⟩ := hrun
    exact (World.exec_ledger hexec).authority
  have hperm : (e :: w'.obligations.tickets).Perm w.obligations.tickets := by
    rw [hw]
    exact Obligations.tickets_settling hticket
  obtain ⟨_, hsolvent⟩ := h.solvent
  refine ⟨⟨hmint.trans h.usdcMint, howner.trans h.custodyOwner, hauthority.trans h.authority,
    ⟨_, hw ▸ hsolvent.settling hticket⟩, ?_⟩, hperm, hbalance⟩
  have hholds := h.holds
  have howed := owed_perm hperm
  simp only [owed, List.map_cons, List.sum_cons] at howed hholds ⊢
  omega

/-- Each open ticket is covered. -/
theorem ticket (h : Payable k rt w) {e : Exit} (he : e ∈ w.obligations.tickets) :
    e.assets.val ≤ (w.privateUsdc (k.custody rt)).val :=
  (List.single_le_sum (fun _ _ => Nat.zero_le _) _ (List.mem_map_of_mem he)).trans h.holds

/-- The queue is all that can hold up the payment of an open ticket, which moves nothing but the
exit book and the private balances. -/
theorem exists_pay {queue : QueueProgram} (h : Payable k rt w) (hout : w.exits.live ≠ none)
    {e : Exit} (he : e ∈ w.obligations.tickets) (now : ℤ) {b : Balances Pubkey 64}
    (hb : queue w.privateUsdc (k.pay rt e) = some b) :
    ∃ exits, w.payExit queue k rt now e = .ok { w with privateUsdc := b, exits } ∧
      exits.live ≠ none := by
  obtain ⟨_, hsolvent⟩ := h.solvent
  have hid : e.groupId.val < 2^24 := Nat.lt_succ_of_le (hsolvent.sound e he).2.1
  have hfind : w.exits.current.slots.toList.find? (Exit.isTicket e.groupId) = some e :=
    Obligations.ticket_of_mem he hsolvent.distinct
  have haccepts : assertPayment rt w.vault.usdcMint w.shielded.current.custodyOwner e
      (k.pay rt e) = .ok () := by
    change assertPayment rt w.vault.usdcMint w.shielded.current.custodyOwner e
      (e.queueTransferIx k rt.usdcMint (k.custody rt) k.custodyOwner) = .ok ()
    exact (assertPayment_queueTransferIx hid).mpr ⟨⟨rfl, rfl, rfl, rfl, rfl, rfl⟩,
      h.usdcMint.symm, h.custody.symm, h.custodyOwner.symm⟩
  refine ⟨w.exits.write (w.exits.current.replaceFirst (Exit.isTicket e.groupId) Exit.default),
    ?_, Delegable.write_live_ne_none _ hout⟩
  simp only [World.payExit, World.exec, World.execSettleExit, settleExit, bind_eq_ok, orElse_eq_ok,
    World.authoritySigns_eq_ok, pure_eq_ok]
  exact ⟨b, hb, (), ⟨by simp [PrivateKeeper.tx], h.authority.symm⟩, (),
    constraint_eq_ok.mpr (.inl (Option.isSome_iff_ne_none.mpr hout)), _,
    ⟨_, rfl, e, hfind, (), haccepts, rfl⟩, rfl⟩

end Payable

/-- The custody holds what it owes: the open tickets, and what came in that no ticket has
claimed. -/
structure Covered (k : PrivateKeeper) (rt : Runtime) (w : World) : Prop where
  usdcMint : w.vault.usdcMint = rt.usdcMint
  custodyOwner : w.shielded.current.custodyOwner = k.custodyOwner
  authority : w.vault.authority = k.authority
  solvent : ∃ h, Solvent w.obligations h
  holds : w.totalIn.val + owed w.obligations.tickets ≤
    (w.privateUsdc (k.custody rt)).val + w.obligations.totalOut.val

namespace Covered

variable {k : PrivateKeeper} {rt : Runtime} {n : ℕ} {w w' : World}

/-- Then it holds the open tickets. -/
theorem payable (h : Covered k rt w) : Payable k rt w := by
  refine ⟨h.usdcMint, h.custodyOwner, h.authority, h.solvent, ?_⟩
  obtain ⟨_, hsolvent⟩ := h.solvent
  have hholds := h.holds
  have hcovered : w.obligations.totalOut.val ≤ w.totalIn.val := hsolvent.covered
  omega

/-- Nothing of what others do takes more than it brings in. -/
theorem kept (h : Covered k rt w) (hkept : Kept k rt n w w')
    (hin : w'.totalIn.val ≤ w.totalIn.val + n) : Covered k rt w' := by
  obtain ⟨_, hsolvent⟩ := h.solvent
  refine ⟨hkept.usdcMint.trans h.usdcMint, hkept.custodyOwner.trans h.custodyOwner,
    hkept.authority.trans h.authority, hkept.solvent hsolvent, ?_⟩
  have hholds := h.holds
  have howed := hkept.owed
  have hbalance := hkept.balance
  omega

/-- An action of others that is no private deposit. -/
theorem step (h : Covered k rt w) {a : Action}
    (ha : a.SignedByOthers k.custodyOwner (k.custody rt)) (hcredited : a.move.credited = 0)
    (hrun : w.step rt a = .ok w') :
    Covered k rt w' ∧ ∀ e ∈ w.obligations.tickets, e ∈ w'.obligations.tickets := by
  have hkept := World.step_kept h.custodyOwner ha hrun
  refine ⟨h.kept hkept ?_, hkept.tickets⟩
  obtain ⟨-, -, htotal⟩ := World.step_credits hrun
  rw [htotal, hcredited]
  exact (congrArg Fin.val (satAdd_zero _)).le

/-- A transaction of others. -/
theorem transact (h : Covered k rt w) {t : Transaction}
    (ha : t.ByOthers k.custodyOwner (k.custody rt)) (honce : t.CreditsOnce)
    (hrun : w.transact rt t = .ok w') :
    Covered k rt w' ∧ ∀ e ∈ w.obligations.tickets, e ∈ w'.obligations.tickets := by
  obtain ⟨hsigners, hmetas, htop⟩ := ha
  have hkept := World.execFrom_kept h.custodyOwner hsigners hmetas htop hrun
  have hin := World.transact_credits honce hrun
  rw [h.payable.custody] at hin
  exact ⟨h.kept hkept hin, hkept.tickets⟩

/-- A payment takes as much out of the custody as off what it owes. -/
theorem pay {queue : QueueProgram} (hqueue : queue.Debits) (h : Covered k rt w) {now : ℤ} {e : Exit}
    (hrun : w.payExit queue k rt now e = .ok w') :
    Covered k rt w' ∧ (e :: w'.obligations.tickets).Perm w.obligations.tickets := by
  obtain ⟨hpayable, hperm, hbalance⟩ := h.payable.pay hqueue hrun
  obtain ⟨-, -, hw, -⟩ := World.payExit_spec hqueue h.usdcMint h.custodyOwner hrun
  refine ⟨⟨hpayable.usdcMint, hpayable.custodyOwner, hpayable.authority, hpayable.solvent, ?_⟩,
    hperm⟩
  have hholds := h.holds
  have howed := owed_perm hperm
  have htotalIn : w'.obligations.totalIn = w.obligations.totalIn := hw ▸ rfl
  have htotalOut : w'.obligations.totalOut = w.obligations.totalOut := hw ▸ rfl
  change w'.obligations.totalIn.val + _ ≤ _
  change w.obligations.totalIn.val + _ ≤ _ at hholds
  rw [htotalIn, htotalOut]
  simp only [owed, List.map_cons, List.sum_cons] at howed hholds ⊢
  omega

end Covered

/-! ## A pass -/

/-- What a pass forgets first makes no open ticket due or not. -/
theorem ExitBook.due_prune (book : ExitBook) (seen : Seen) (graceS now : ℤ) :
    book.due (seen.prune (book.slots.toList.filter Exit.isOpen)) graceS now =
      book.due seen graceS now := by
  refine List.filter_congr fun e he => ?_
  rw [Seen.inGrace, Seen.inGrace, Seen.prune_of_mem he]

/-- When the payments of the tickets past their grace period succeed one after the other, the loop
makes them all. -/
theorem payLoop_of_foldlM {σ : Type} {graceS now : ℤ} {pay : σ → Exit → Result σ} {seen : Seen}
    {s s' : σ} {es : List Exit}
    (h : (es.filter fun e => !seen.inGrace graceS now e.groupId).foldlM pay s = .ok s') :
    ∃ seen', payLoop graceS now pay seen s es = ⟨seen', s', false⟩ := by
  induction es generalizing seen s with
  | nil =>
    cases h
    exact ⟨seen, rfl⟩
  | cons e es ih =>
    unfold payLoop
    simp only [Seen.inGrace_note]
    have hrest {s : σ} (h : (es.filter fun e => !seen.inGrace graceS now e.groupId).foldlM pay s =
        .ok s') : ∃ seen', payLoop graceS now pay (seen.note e.groupId now) s es =
          ⟨seen', s', false⟩ := by
      refine ih ?_
      simpa only [Seen.inGrace_note] using h
    by_cases hgrace : seen.inGrace graceS now e.groupId = true
    · rw [List.filter_cons_of_neg (by simpa using hgrace)] at h
      rw [if_pos hgrace]
      exact hrest h
    · rw [List.filter_cons_of_pos (by simpa using hgrace), List.foldlM_cons, bind_eq_ok] at h
      obtain ⟨s₁, hpay, h⟩ := h
      rw [if_neg hgrace, hpay]
      exact hrest h

/-- The queue refuses none of some tickets while the custody holds their assets. -/
def QueueProgram.Takes (queue : QueueProgram) (k : PrivateKeeper) (rt : Runtime) (es : List Exit) :
    Prop :=
  ∀ e ∈ es, ∀ b : Balances Pubkey 64, e.assets.val ≤ (b (k.custody rt)).val →
    ∃ b', queue b (k.pay rt e) = some b'

/-- Open tickets that the queue takes are paid one after the other. -/
theorem Payable.payAll {queue : QueueProgram} {k : PrivateKeeper} {rt : Runtime} {w : World}
    (hqueue : queue.Debits) (h : Payable k rt w) (hout : w.exits.live ≠ none) (now : ℤ)
    {es : List Exit} (hes : es.Subperm w.obligations.tickets) (htakes : queue.Takes k rt es) :
    ∃ w', es.foldlM (fun v e => v.payExit queue k rt now e) w = .ok w' ∧
      (es ++ w'.obligations.tickets).Perm w.obligations.tickets ∧
      (w'.privateUsdc (k.custody rt)).val + owed es = (w.privateUsdc (k.custody rt)).val := by
  induction es generalizing w with
  | nil => exact ⟨w, rfl, .refl _, rfl⟩
  | cons e es ih =>
    have he : e ∈ w.obligations.tickets := hes.subset List.mem_cons_self
    obtain ⟨b, hb⟩ := htakes e List.mem_cons_self _ (h.ticket he)
    obtain ⟨exits, hpay, hout₁⟩ := h.exists_pay hout he now hb
    obtain ⟨hpayable, hperm, hbalance⟩ := h.pay hqueue hpay
    -- What is left to pay is open after the first payment.
    have hes₁ : es.Subperm _ := (List.subperm_cons e).mp (hes.trans hperm.symm.subperm)
    obtain ⟨w', hrest, hperm', hbalance'⟩ := ih hpayable hout₁ hes₁
      fun e' he' => htakes e' (List.mem_cons_of_mem _ he')
    refine ⟨w', ?_, (hperm'.cons e).trans hperm, ?_⟩
    · rw [List.foldlM_cons, hpay]
      exact hrest
    · simp only [owed, List.map_cons, List.sum_cons] at hbalance hbalance' ⊢
      omega

/-- A pass pays every due ticket, when the queue takes them. -/
theorem Payable.pass {queue : QueueProgram} {k : PrivateKeeper} {rt : Runtime} {w : World}
    (hqueue : queue.Debits) (h : Payable k rt w) (hout : w.exits.live ≠ none) (graceS : ℤ)
    (seen : Seen) (now ts : ℤ)
    (htakes : queue.Takes k rt (w.exits.current.due seen graceS now)) :
    ∃ seen' w', payExits graceS (fun v e => v.payExit queue k rt ts e) seen w w.exits.current now =
        ⟨seen', w', false⟩ ∧
      (w.exits.current.due seen graceS now ++ w'.obligations.tickets).Perm w.obligations.tickets ∧
      (w'.privateUsdc (k.custody rt)).val + owed (w.exits.current.due seen graceS now) =
        (w.privateUsdc (k.custody rt)).val := by
  have hdue : (w.exits.current.due seen graceS now).Subperm w.obligations.tickets :=
    List.filter_sublist.subperm
  obtain ⟨w', hrun, hperm, hbalance⟩ := h.payAll hqueue hout ts hdue htakes
  rw [← ExitBook.due_prune] at hrun
  obtain ⟨seen', hpass⟩ := payLoop_of_foldlM hrun
  exact ⟨seen', w', hpass, hperm, hbalance⟩

/-! ## The law -/

/-- What happens: token movements, instructions in transactions on Solana, transactions in the
enclave, whose transfers move private accounts, and the payments of the keeper. -/
inductive CustodyEvent where
  | move (t : TokenAction)
  | act (tx : Tx) (ix : Ix)
  | transact (t : Transaction)
  | pay (now : ℤ) (e : Exit)

/-- One event. -/
def World.undergo (queue : QueueProgram) (k : PrivateKeeper) (rt : Runtime) (w : World) :
    CustodyEvent → Result World
  | .move t => w.step rt (.token t)
  | .act tx ix => w.step rt (.program tx ix)
  | .transact t => w.transact rt t
  | .pay now e => w.payExit queue k rt now e

/-- The custody's key signs the keeper's payments only, no transfer is credited twice, and private
deposits are made in the enclave, where the aggregate is then delegated. -/
def CustodyEvent.Possible (k : PrivateKeeper) (rt : Runtime) (w : World) : CustodyEvent → Prop
  | .move t => (Action.token t).SignedByOthers k.custodyOwner (k.custody rt)
  | .act tx ix =>
    (Action.program tx ix).SignedByOthers k.custodyOwner (k.custody rt) ∧ ix.credited = none
  | .transact t =>
    t.ByOthers k.custodyOwner (k.custody rt) ∧ t.CreditsOnce ∧
      (t.Deposits → w.shielded.live ≠ none)
  | .pay _ _ => True

/-- A step of the custody among the others. -/
def CustodyStep (queue : QueueProgram) (k : PrivateKeeper) (rt : Runtime) (w w' : World) : Prop :=
  ∃ event : CustodyEvent, event.Possible k rt w ∧ w.undergo queue k rt event = .ok w'

/-- An instruction that is no private deposit credits nothing. -/
theorem Ix.move_credited {ix : Ix} {now : ℤ} (h : ix.credited = none) :
    (ix.move now).credited = 0 := by
  cases ix with
  | depositPrivate => cases h
  | _ => rfl

/-- Every event keeps the custody covered, and every ticket open but one that it pays. -/
theorem Covered.undergo {queue : QueueProgram} {k : PrivateKeeper} {rt : Runtime} {w w' : World}
    (hqueue : queue.Debits) (h : Covered k rt w) {event : CustodyEvent}
    (hpossible : event.Possible k rt w) (hrun : w.undergo queue k rt event = .ok w') :
    Covered k rt w' ∧ ∀ e ∈ w.obligations.tickets,
      e ∈ w'.obligations.tickets ∨ ∃ now, event = .pay now e := by
  cases event with
  | move t =>
    obtain ⟨hcovered, htickets⟩ := h.step hpossible rfl hrun
    exact ⟨hcovered, fun e he => .inl (htickets e he)⟩
  | act tx ix =>
    obtain ⟨hcovered, htickets⟩ := h.step hpossible.1 (Ix.move_credited hpossible.2) hrun
    exact ⟨hcovered, fun e he => .inl (htickets e he)⟩
  | transact t =>
    obtain ⟨hcovered, htickets⟩ := h.transact hpossible.1 hpossible.2.1 hrun
    exact ⟨hcovered, fun e he => .inl (htickets e he)⟩
  | pay now paid =>
    obtain ⟨hcovered, hperm⟩ := h.pay hqueue hrun
    refine ⟨hcovered, fun e he => ?_⟩
    rcases List.mem_cons.mp (hperm.mem_iff.mpr he) with rfl | hleft
    · exact .inr ⟨now, rfl⟩
    · exact .inl hleft

/-- At the start it owes nothing. -/
theorem covered_start (k : PrivateKeeper) (rt : Runtime) (book : PoolBook) :
    Covered k rt (.start rt k.authority k.custodyOwner book) := by
  refine ⟨rfl, rfl, rfl, ⟨_, solvent_empty⟩, ?_⟩
  have hempty : owed Obligations.empty.tickets = 0 := by decide
  change 0 + owed Obligations.empty.tickets ≤ _
  rw [hempty]
  exact Nat.zero_le _

/-- What those who are owed can rely on. -/
structure CustodyPays (queue : QueueProgram) (k : PrivateKeeper) (rt : Runtime) (w : World) :
    Prop where
  /-- The custody holds the open tickets, and what came in that no ticket has claimed. -/
  claimed : w.obligations.totalOut.val ≤ w.obligations.totalIn.val
  holds : w.obligations.totalIn.val - w.obligations.totalOut.val + owed w.obligations.tickets ≤
    (w.privateUsdc (k.custody rt)).val
  /-- An open ticket stays open, whatever happens, until the keeper pays it. -/
  stays : ∀ event w', event.Possible k rt w → w.undergo queue k rt event = .ok w' →
    ∀ e ∈ w.obligations.tickets, e ∈ w'.obligations.tickets ∨ ∃ now, event = .pay now e
  /-- The queue is all that can hold up its payment. -/
  payable : w.exits.live ≠ none → ∀ e ∈ w.obligations.tickets, ∀ now,
    (∃ w', w.payExit queue k rt now e = .ok w') ↔ ∃ b, queue w.privateUsdc (k.pay rt e) = some b
  /-- A pass pays every ticket that is due, when the queue takes them, and leaves the others. -/
  pass : w.exits.live ≠ none → ∀ graceS seen now ts,
    queue.Takes k rt (w.exits.current.due seen graceS now) →
    ∃ seen' w', payExits graceS (fun v e => v.payExit queue k rt ts e) seen w w.exits.current now =
        ⟨seen', w', false⟩ ∧
      (w.exits.current.due seen graceS now ++ w'.obligations.tickets).Perm w.obligations.tickets ∧
      (w'.privateUsdc (k.custody rt)).val + owed (w.exits.current.due seen graceS now) =
        (w.privateUsdc (k.custody rt)).val

/-- Whatever token movements, instructions and transactions of others and payments come in whatever
order, the custody can pay. -/
theorem custody_can_pay {queue : QueueProgram} {k : PrivateKeeper} {rt : Runtime} {book : PoolBook}
    {w : World} (hqueue : queue.Debits)
    (hrun : Relation.ReflTransGen (CustodyStep queue k rt)
      (.start rt k.authority k.custodyOwner book) w) : CustodyPays queue k rt w := by
  have hw : Covered k rt w := Runs.preserves (I := Covered k rt)
    (fun h ⟨_, hpossible, happly⟩ => (h.undergo hqueue hpossible happly).1) hrun
    (covered_start k rt book)
  obtain ⟨_, hsolvent⟩ := hw.solvent
  have hholds : w.obligations.totalIn.val + owed w.obligations.tickets ≤ _ := hw.holds
  have hclaimed := hsolvent.covered
  refine ⟨hclaimed, by omega,
    fun event w' hpossible happly => (hw.undergo hqueue hpossible happly).2,
    fun hout e he now => ⟨?_, ?_⟩,
    fun hout graceS seen now ts htakes => hw.payable.pass hqueue hout graceS seen now ts htakes⟩
  · rintro ⟨w', hpay⟩
    simp only [World.payExit, bind_eq_ok, orElse_eq_ok] at hpay
    obtain ⟨b, hb, -⟩ := hpay
    exact ⟨b, hb⟩
  · rintro ⟨b, hb⟩
    obtain ⟨exits, hpay, -⟩ := hw.payable.exists_pay hout he now hb
    exact ⟨_, hpay⟩

/-- A queue whose own account is not among the private ones. -/
def drawQueue : QueueProgram := fun b ix => do
  guard (ix.programId = ephemeralSplTokenProgramId)
  let t ← unpackQueueTransfer ix
  guard (t.authority.isSigner = true)
  let left ← debit (b t.source) t.amount
  pure (Function.update b t.source left)

/-- It takes what it pays out of its source. -/
theorem drawQueue_debits : drawQueue.Debits := by
  intro b b' ix t hrun ht
  simp only [drawQueue, ht, Option.bind_eq_bind, Option.bind_some, Option.bind_eq_some_iff,
    Option.guard_eq_some', exists_const, debit_eq_some, Option.pure_def, Option.some.injEq] at hrun
  obtain ⟨-, -, left, ⟨hle, hleft⟩, rfl⟩ := hrun
  rw [Function.update_self]
  omega

/-- It refuses nothing that the custody holds. -/
theorem drawQueue_takes (k : PrivateKeeper) (rt : Runtime) (es : List Exit) :
    drawQueue.Takes k rt es := by
  intro e _ b hle
  obtain ⟨left, hleft⟩ : ∃ left, debit (b (k.custody rt)) e.assets = some left := ⟨_, if_pos hle⟩
  refine ⟨Function.update b (k.custody rt) left, ?_⟩
  simp only [drawQueue, unpack_pay, Option.bind_eq_bind, Option.bind_some, Option.bind_eq_some_iff,
    Option.guard_eq_some', exists_const]
  exact ⟨rfl, rfl, left, hleft, rfl⟩

instance (custodyOwner custody : Pubkey) (t : Transaction) :
    Decidable (t.ByOthers custodyOwner custody) :=
  inferInstanceAs (Decidable (_ ∧ (∀ top ∈ t.topLevel, ∀ m ∈ top.instruction.accounts, _) ∧
    ∀ top ∈ t.topLevel, _))

instance (t : Transaction) : Decidable t.CreditsOnce :=
  inferInstanceAs (Decidable (∀ top ∈ t.topLevel, _))

instance (t : Transaction) : Decidable t.Deposits :=
  inferInstanceAs (Decidable (∃ top ∈ t.topLevel, _))

instance (k : PrivateKeeper) (rt : Runtime) (w : World) :
    (event : CustodyEvent) → Decidable (event.Possible k rt w)
  | .move t => inferInstanceAs (Decidable ((Action.token t).SignedByOthers _ _))
  | .act tx ix => inferInstanceAs (Decidable ((Action.program tx ix).SignedByOthers _ _ ∧ _))
  | .transact t => inferInstanceAs (Decidable (_ ∧ _ ∧ (t.Deposits → _)))
  | .pay _ _ => .isTrue trivial

/-- An event, where it can happen. -/
def World.attempt (queue : QueueProgram) (k : PrivateKeeper) (rt : Runtime) (w : World)
    (event : CustodyEvent) : Result World := do
  constraint (event.Possible k rt w)
  w.undergo queue k rt event

/-- An event that was attempted with success is a step. -/
theorem World.step_of_attempt {queue : QueueProgram} {k : PrivateKeeper} {rt : Runtime}
    {w w' : World} {event : CustodyEvent} (h : w.attempt queue k rt event = .ok w') :
    CustodyStep queue k rt w w' := by
  rw [attempt, bind_eq_ok] at h
  obtain ⟨_, hpossible, hrun⟩ := h
  exact ⟨event, constraint_eq_ok.mp hpossible, hrun⟩

/-- An instruction alone in a transaction on Solana. -/
def CustodyEvent.onSolana (signers : List Pubkey) (ix : Ix) : CustodyEvent :=
  .act (.alone signers 100) ix

/-- An instruction alone in a transaction in the enclave. -/
def CustodyEvent.inEnclave (signers : List Pubkey) (ix : Ix) : CustodyEvent :=
  .transact ⟨signers, 100, [.agama [] [] ix]⟩

/-- A private deposit that a foreign program makes, and three redemptions, of which the first is
paid. -/
def relayedThenRedeemed : List CustodyEvent :=
  [.onSolana [positionOwner] (.initPosition positionOwner),
    .onSolana [positionOwner] (.delegatePosition positionOwner),
    .onSolana [depositor] (.faucet depositor), .move (.shield depositor 1000000000),
    .onSolana [authority] (.delegateShielded authority),
    .onSolana [authority] (.delegateExits authority), .transact (relayedDeposits 1),
    .inEnclave [positionOwner] (.redeemPrivate positionOwner positionOwner ⟨10000000, 1, 0, 0, 1⟩),
    .pay 110 ⟨positionOwner, 10000000, 0, 0, 1, 1⟩,
    .inEnclave [positionOwner] (.redeemPrivate positionOwner positionOwner ⟨20000000, 1, 0, 0, 1⟩),
    .inEnclave [positionOwner]
      (.redeemPrivate positionOwner positionOwner ⟨30000000, 2, 0, 0, 1⟩)]

/-- One pass pays the two tickets that are left. -/
theorem custody_can_pay_redeemed :
    ∃ w : World, w.obligations.tickets.length = 2 ∧
      (w.privateUsdc custodyAccount).val = 90000000 ∧ ∃ seen w',
        payExits exitGraceS (fun v e => v.payExit drawQueue devnetKeeper deployment 300 e)
          bothSeen w w.exits.current 20000 = ⟨seen, w', false⟩ ∧
        (w'.privateUsdc custodyAccount).val + 50000000 = 90000000 := by
  let attempt := fun w event => World.attempt drawQueue devnetKeeper deployment w event
  let w := Runs.follow attempt (World.deployed 800) relayedThenRedeemed
  have hrun : Relation.ReflTransGen (CustodyStep drawQueue devnetKeeper deployment)
      (World.deployed 800) w :=
    Runs.follow_run attempt (fun _ _ _ h => World.step_of_attempt h) _ relayedThenRedeemed
  have hpays := custody_can_pay drawQueue_debits hrun
  have hbalance : (w.privateUsdc custodyAccount).val = 90000000 := by decide +kernel
  obtain ⟨seen, w', hpass, -, hleft⟩ := hpays.pass (by decide +kernel) exitGraceS bothSeen 20000 300
    (drawQueue_takes _ _ _)
  have hdue : owed (w.exits.current.due bothSeen exitGraceS 20000) = 50000000 := by decide +kernel
  refine ⟨w, by decide +kernel, hbalance, seen, w', hpass, ?_⟩
  rw [hdue] at hleft
  exact hleft.trans hbalance

end Agama
