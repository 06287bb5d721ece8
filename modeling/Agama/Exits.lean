import Agama.Custody

/-!
# Exits

What the private custody owes. A redemption counts its assets as paid out when it opens a ticket,
and `settle_exit` frees the ticket's slot when the custody pays it; a slot with group id 0 is free.
The tickets that were ever opened are then the open ones and the settled ones, and `total_out` is
what they add up to.
-/

namespace Agama

/-! ## What an action does to the custody's obligations -/

/-- The totals of the aggregate, and the slots of the exit book. -/
structure Obligations where
  totalIn : U64
  totalOut : U64
  slots : List Exit
  deriving DecidableEq

/-- The obligations of the custody, on the current copies. -/
def World.obligations (w : World) : Obligations :=
  ⟨w.shielded.current.totalIn, w.shielded.current.totalOut, w.exits.current.slots.toList⟩

/-- A slot that holds a ticket. -/
def Exit.isOpen (e : Exit) : Bool := !e.isFree

namespace Obligations

/-- The open tickets. -/
def tickets (x : Obligations) : List Exit := x.slots.filter Exit.isOpen

/-- The open ticket under an id. -/
def ticket (x : Obligations) (groupId : U32) : Option Exit := x.slots.find? (Exit.isTicket groupId)

/-- A ticket over the first free slot, counted as paid out. -/
def opening (x : Obligations) (e : Exit) : Obligations :=
  ⟨x.totalIn, satAdd x.totalOut e.assets, SlotArray.replaceFirst Exit.isFree e x.slots⟩

/-- The slot of a ticket freed. -/
def settling (x : Obligations) (groupId : U32) : Obligations :=
  { x with slots := SlotArray.replaceFirst (Exit.isTicket groupId) Exit.default x.slots }

end Obligations

/-- The id of the ticket that an action asks to open. -/
def Action.opens : Action → Option U32
  | .program _ (.redeemPrivate _ _ request) => some request.groupId
  | .program _ (.redeemPrivateTo _ _ request _) => some request.groupId
  | _ => none

/-- The id of the ticket that an action asks to settle. -/
def Action.settles : Action → Option U32
  | .program _ (.settleExit _ groupId) => some groupId
  | _ => none

/-- What an action can do to the obligations. -/
inductive Obligations.Step (a : Action) (x : Obligations) : Obligations → Prop
  /-- Money comes in, or nothing happens. -/
  | received {totalIn : U64} (opens : a.opens = none) (settles : a.settles = none)
      (more : x.totalIn.val ≤ totalIn.val) : Step a x { x with totalIn }
  | opened {ticket slot : Exit} (opens : a.opens = some ticket.groupId) (settles : a.settles = none)
      (held : ticket.assets.val + x.totalOut.val ≤ x.totalIn.val) (positive : 0 < ticket.assets.val)
      (inRange : 0 < ticket.groupId.val ∧ ticket.groupId.val ≤ 0x00FFFFFF)
      (unused : ∀ e ∈ x.slots, e.groupId ≠ ticket.groupId)
      (free : x.slots.find? Exit.isFree = some slot) : Step a x (x.opening ticket)
  | settled {groupId : U32} {ticket : Exit} (opens : a.opens = none)
      (settles : a.settles = some groupId) (found : x.ticket groupId = some ticket) :
      Step a x (x.settling groupId)

namespace World

variable {rt : Runtime} {w w' : World} {tx : Tx} {ix : Ix} {a : Action}

/-- An action that keeps the current aggregate and the current exit book. -/
theorem obligations_of_eq (hs : w'.shielded.current = w.shielded.current)
    (he : w'.exits.current = w.exits.current) (opens : a.opens = none)
    (settles : a.settles = none) : Obligations.Step a w.obligations w'.obligations := by
  rw [show w'.obligations = w.obligations by rw [obligations, obligations, hs, he]]
  exact .received opens settles le_rfl

/-- A private deposit is received. -/
theorem execDepositPrivate_obligations {depositor signer position : Pubkey} {amount : U64}
    (h : w.execDepositPrivate rt tx depositor signer position amount = .ok w')
    (opens : a.opens = none) (settles : a.settles = none) :
    Obligations.Step a w.obligations w'.obligations := by
  simp only [execDepositPrivate, bind_eq_ok, pure_eq_ok] at h
  obtain ⟨_, -, _, -, d, -, _, -, b, hrun, rfl⟩ := h
  obtain ⟨shares, hspec⟩ := depositPrivate_spec (info_data w.book) hrun
  simp only [obligations, Delegable.current_write, hspec.shielded]
  exact .received opens settles (le_satAdd_left _ _)

/-- Both private redemptions open a ticket under the id that they are asked for. -/
theorem execRedeemPrivate_obligations {signer position : Pubkey} {r : ExitRequest}
    {handler : RedeemPrivate → ℤ → Result RedeemPrivate}
    (h : w.execRedeemPrivate tx signer position handler = .ok w')
    (hspec : ∀ {a a' b}, a.book.data = some b → handler a tx.now = .ok a' →
      ∃ ticket, OpensExit a b r ticket a')
    (opens : a.opens = some r.groupId) (settles : a.settles = none) :
    Obligations.Step a w.obligations w'.obligations := by
  simp only [execRedeemPrivate, bind_eq_ok, pure_eq_ok] at h
  obtain ⟨_, -, d, -, _, -, _, -, b, hrun, rfl⟩ := h
  obtain ⟨ticket, hopen⟩ := hspec (info_data w.book) hrun
  obtain ⟨slot, hslot⟩ := hopen.free
  simp only [obligations, Delegable.current_write, hopen.shielded, hopen.exits]
  exact .opened (hopen.groupId ▸ opens) settles hopen.held hopen.positive hopen.inRange
    hopen.unused hslot

/-- `settle_exit` settles the ticket that it names. -/
theorem execSettleExit_obligations {authority : Pubkey} {groupId : U32}
    (h : w.execSettleExit rt tx authority groupId = .ok w') (opens : a.opens = none)
    (settles : a.settles = some groupId) : Obligations.Step a w.obligations w'.obligations := by
  simp only [execSettleExit, bind_eq_ok, pure_eq_ok] at h
  obtain ⟨_, -, _, -, exits, hrun, rfl⟩ := h
  obtain ⟨slot, prev, hslot, -, -, hexits⟩ := settleExit_spec hrun
  simp only [obligations, Delegable.current_write, hexits]
  exact .settled opens settles hslot

/-- Every instruction receives money, opens a ticket or settles one. -/
theorem exec_obligations (h : w.exec rt tx ix = .ok w') :
    Obligations.Step (.program tx ix) w.obligations w'.obligations := by
  cases ix with
  | initializeVault | initBook | migrateBook | initShielded => cases h
  | depositPrivate depositor signer position amount =>
    exact execDepositPrivate_obligations h rfl rfl
  | redeemPrivate signer position request =>
    simp only [exec] at h
    refine execRedeemPrivate_obligations (r := request) h (fun hb hrun => ?_) rfl rfl
    obtain ⟨-, ticket, -, hopen⟩ := redeemPrivate_spec hb hrun
    exact ⟨ticket, hopen⟩
  | redeemPrivateTo signer position request payout =>
    simp only [exec] at h
    refine execRedeemPrivate_obligations (r := request) h (fun hb hrun => ?_) rfl rfl
    obtain ⟨-, ticket, -, hopen⟩ := redeemPrivateTo_spec hb hrun
    exact ⟨ticket, hopen⟩
  | settleExit authority groupId => exact execSettleExit_obligations h rfl rfl
  | delegateShielded payer =>
    simp only [exec, bind_eq_ok, orElse_eq_ok, pure_eq_ok] at h
    obtain ⟨_, -, d, hrun, rfl⟩ := h
    exact obligations_of_eq (Delegable.delegate_eq_some hrun).2 rfl rfl rfl
  | commitShielded payer =>
    simp only [exec, bind_eq_ok, orElse_eq_ok, pure_eq_ok] at h
    obtain ⟨_, -, d, hrun, rfl⟩ := h
    exact obligations_of_eq (Delegable.commit_eq_some hrun).2 rfl rfl rfl
  | undelegateShielded payer =>
    simp only [exec, bind_eq_ok, orElse_eq_ok, pure_eq_ok] at h
    obtain ⟨_, -, d, hrun, rfl⟩ := h
    exact obligations_of_eq (Delegable.undelegate_eq_some hrun).2.1 rfl rfl rfl
  | delegateExits payer =>
    simp only [exec, bind_eq_ok, orElse_eq_ok, pure_eq_ok] at h
    obtain ⟨_, -, d, hrun, rfl⟩ := h
    exact obligations_of_eq rfl (Delegable.delegate_eq_some hrun).2 rfl rfl
  -- The rest writes neither the aggregate nor the exit book.
  | prepareForRollup | deposit | redeem | faucet | initShieldedPermission | tick | absorb | setApr
  | delegateBook | commitBook | undelegateBook | initPosition | initPermission | setPermission
  | closePermission | rotateSession | authorizeSession | delegatePosition | undelegatePosition
  | syncPosition =>
    obtain ⟨hshielded, hexits⟩ := (exec_frame h).shielded rfl
    exact obligations_of_eq (by rw [hshielded]) (by rw [hexits]) rfl rfl

/-- Every action is a step of the obligations. -/
theorem step_obligations (h : w.step rt a = .ok w') :
    Obligations.Step a w.obligations w'.obligations := by
  cases a with
  | program tx ix => exact exec_obligations h
  | token t =>
    rw [step, orElse_eq_ok] at h
    have hsame := moveTokens_same h
    exact obligations_of_eq (by rw [hsame.shielded]) (by rw [hsame.exits]) rfl rfl

end World

/-! ## The history -/

/-- The tickets that were ever opened, and those that were settled, oldest first. -/
structure History where
  opened : List Exit
  settled : List Exit

/-- What an action adds: the ticket that it leaves open under the id it asked for, or the ticket
that was open under the id it settles. -/
def History.record (h : History) (a : Action) (x x' : Obligations) : History where
  opened := h.opened ++ (a.opens.bind x'.ticket).toList
  settled := h.settled ++ (a.settles.bind x.ticket).toList

/-- The assets of some tickets. -/
def owed (tickets : List Exit) : ℕ := (tickets.map fun e => e.assets.val).sum

/-- The custody's obligations are accounted for: every opened ticket is open or settled, `total_out`
is their sum and is covered by what came in, and the open ones have distinct ids in range and
positive assets. -/
structure Solvent (x : Obligations) (h : History) : Prop where
  accounted : h.opened.Perm (x.tickets ++ h.settled)
  totalOut : x.totalOut.val = owed h.opened
  covered : x.totalOut.val ≤ x.totalIn.val
  distinct : (x.tickets.map Exit.groupId).Nodup
  sound : ∀ e ∈ x.tickets,
    0 < e.groupId.val ∧ e.groupId.val ≤ 0x00FFFFFF ∧ 0 < e.assets.val

/-- What is owed adds up over two lists of tickets. -/
@[simp]
theorem owed_append (l l' : List Exit) : owed (l ++ l') = owed l + owed l' := by
  simp [owed]

/-- What is owed does not depend on the order of the tickets. -/
theorem owed_perm {l l' : List Exit} (h : l.Perm l') : owed l = owed l' :=
  (h.map _).sum_eq

/-- A slot is the ticket under an id exactly when it is open and has that id. -/
theorem Exit.isTicket_iff {groupId : U32} {e : Exit} :
    Exit.isTicket groupId e = true ↔ e.isOpen = true ∧ e.groupId = groupId := by
  simp only [Exit.isTicket, Exit.isOpen, Exit.isFree, decide_eq_true_eq, Bool.not_eq_true',
    decide_eq_false_iff_not]
  constructor
  · rintro ⟨rfl, hne⟩
    exact ⟨hne, rfl⟩
  · rintro ⟨hne, rfl⟩
    exact ⟨rfl, hne⟩

/-- The ticket under an id is open and has that id. -/
theorem Obligations.ticket_mem {x : Obligations} {groupId : U32} {e : Exit}
    (h : x.ticket groupId = some e) : e ∈ x.tickets ∧ e.groupId = groupId := by
  have htest := Exit.isTicket_iff.mp (List.find?_some h)
  exact ⟨List.mem_filter.mpr ⟨List.mem_of_find?_eq_some h, htest.1⟩, htest.2⟩

/-- An open ticket is found under its id, when no other open one has it. -/
theorem Obligations.ticket_of_mem {x : Obligations} {e : Exit} (hmem : e ∈ x.tickets)
    (hdistinct : (x.tickets.map Exit.groupId).Nodup) : x.ticket e.groupId = some e := by
  obtain ⟨hslot, hopen⟩ := List.mem_filter.mp hmem
  cases hfind : x.ticket e.groupId with
  | none =>
    have htest := List.find?_eq_none.mp hfind e hslot
    exact absurd (Exit.isTicket_iff.mpr ⟨hopen, rfl⟩) htest
  | some e' =>
    -- The first slot with the id need not be `e`, but distinct ids make it so.
    obtain ⟨hmem', hid⟩ := Obligations.ticket_mem hfind
    rw [List.inj_on_of_nodup_map hdistinct hmem' hmem hid]

/-- A ticket with an id in range is not a free slot. -/
theorem Exit.isOpen_of_pos {e : Exit} (h : 0 < e.groupId.val) : e.isOpen = true := by
  simp only [Exit.isOpen, Exit.isFree, Bool.not_eq_true', decide_eq_false_iff_not]
  intro hzero
  rw [hzero] at h
  exact absurd h (lt_irrefl _)

/-- An opened ticket joins the open ones. -/
theorem Obligations.tickets_opening {x : Obligations} {e slot : Exit} (hopen : e.isOpen = true)
    (hfree : x.slots.find? Exit.isFree = some slot) :
    (x.opening e).tickets.Perm (e :: x.tickets) := by
  have hslot : slot.isOpen = false := by
    rw [Exit.isOpen, List.find?_some hfree]
    rfl
  exact SlotArray.filter_replaceFirst_of_free hfree hslot hopen

/-- A settled ticket leaves the open ones. -/
theorem Obligations.tickets_settling {x : Obligations} {groupId : U32} {e : Exit}
    (hfound : x.ticket groupId = some e) : (e :: (x.settling groupId).tickets).Perm x.tickets :=
  SlotArray.filter_replaceFirst_of_used hfound (Exit.isTicket_iff.mp (List.find?_some hfound)).1 rfl

/-- Opening a covered ticket under an unused id keeps the obligations accounted for. -/
theorem Solvent.opening {x : Obligations} {h : History} {e slot : Exit} (hx : Solvent x h)
    (held : e.assets.val + x.totalOut.val ≤ x.totalIn.val) (positive : 0 < e.assets.val)
    (inRange : 0 < e.groupId.val ∧ e.groupId.val ≤ 0x00FFFFFF)
    (unused : ∀ e' ∈ x.slots, e'.groupId ≠ e.groupId)
    (free : x.slots.find? Exit.isFree = some slot) :
    Solvent (x.opening e) { h with opened := h.opened ++ [e] } ∧
      (x.opening e).ticket e.groupId = some e := by
  have hperm := Obligations.tickets_opening (Exit.isOpen_of_pos inRange.1) free
  -- `open_exit` compares the id with every slot, so with every open ticket.
  have hdistinct : ((x.opening e).tickets.map Exit.groupId).Nodup := by
    rw [(hperm.map Exit.groupId).nodup_iff, List.map_cons, List.nodup_cons]
    refine ⟨fun hmem => ?_, hx.distinct⟩
    obtain ⟨e', he', hid⟩ := List.mem_map.mp hmem
    exact unused e' (List.mem_of_mem_filter he') hid
  -- What is paid out stays within what came in, so `total_out` does not saturate.
  have hexact : (x.opening e).totalOut.val = x.totalOut.val + e.assets.val :=
    satAdd_val_of_lt (by have := x.totalIn.isLt; omega)
  refine ⟨⟨?_, ?_, ?_, hdistinct, fun e' he' => ?_⟩,
    Obligations.ticket_of_mem (hperm.mem_iff.mpr List.mem_cons_self) hdistinct⟩
  · calc (h.opened ++ [e]).Perm (e :: h.opened) := List.perm_append_singleton _ _
      _ |>.Perm (e :: (x.tickets ++ h.settled)) := hx.accounted.cons e
      _ |>.Perm ((x.opening e).tickets ++ h.settled) := hperm.symm.append_right h.settled
  · rw [hexact, hx.totalOut, owed_append]
    simp [owed]
  · rw [hexact]
    change _ ≤ x.totalIn.val
    omega
  · rcases List.mem_cons.mp (hperm.mem_iff.mp he') with rfl | hmem
    · exact ⟨inRange.1, inRange.2, positive⟩
    · exact hx.sound e' hmem

/-- Settling an open ticket keeps the obligations accounted for. -/
theorem Solvent.settling {x : Obligations} {h : History} {groupId : U32} {e : Exit}
    (hx : Solvent x h) (found : x.ticket groupId = some e) :
    Solvent (x.settling groupId) { h with settled := h.settled ++ [e] } := by
  have hperm := Obligations.tickets_settling found
  -- `total_out` counted the ticket when it was opened, and settling leaves it.
  refine ⟨?_, hx.totalOut, hx.covered, ?_, fun e' he' => ?_⟩
  · calc h.opened.Perm (x.tickets ++ h.settled) := hx.accounted
      _ |>.Perm (e :: ((x.settling groupId).tickets ++ h.settled)) :=
        hperm.symm.append_right h.settled
      _ |>.Perm ((x.settling groupId).tickets ++ h.settled ++ [e]) :=
        (List.perm_append_singleton _ _).symm
      _ = (x.settling groupId).tickets ++ (h.settled ++ [e]) := List.append_assoc _ _ _
  · have hnodup := (hperm.map Exit.groupId).nodup_iff.mpr hx.distinct
    rw [List.map_cons, List.nodup_cons] at hnodup
    exact hnodup.2
  · exact hx.sound e' (hperm.mem_iff.mp (List.mem_cons_of_mem _ he'))

/-- Every step keeps the obligations accounted for. -/
theorem Obligations.Step.solvent {a : Action} {x x' : Obligations} {h : History}
    (hx : Solvent x h) (hstep : Obligations.Step a x x') : Solvent x' (h.record a x x') := by
  cases hstep with
  | received opens settles more =>
    simp only [History.record, opens, settles, Option.bind_none, Option.toList_none,
      List.append_nil]
    exact { hx with covered := hx.covered.trans more }
  | opened opens settles held positive inRange unused free =>
    obtain ⟨hsolvent, hticket⟩ := hx.opening held positive inRange unused free
    simpa only [History.record, opens, settles, Option.bind_none, Option.toList_none,
      List.append_nil, Option.bind_some, hticket, Option.toList_some] using hsolvent
  | settled opens settles found =>
    simpa only [History.record, opens, settles, Option.bind_none, Option.toList_none,
      List.append_nil, Option.bind_some, found, Option.toList_some] using hx.settling found

/-! ## Runs -/

/-- The obligations of an empty aggregate and an empty exit book. -/
def Obligations.empty : Obligations := ⟨0, 0, List.replicate exitSlots Exit.default⟩

/-- Nothing is owed at the start. -/
theorem solvent_empty : Solvent .empty ⟨[], []⟩ := by
  have htickets : Obligations.empty.tickets = [] := by decide
  refine ⟨?_, rfl, le_rfl, ?_, ?_⟩
  · rw [htickets]
    exact .refl _
  · rw [htickets]
    exact List.nodup_nil
  · rw [htickets]
    exact fun e he => absurd he List.not_mem_nil

/-- A step of the program that the history records. -/
def Recorded (rt : Runtime) (s s' : World × History) : Prop :=
  ∃ a, s.1.step rt a = .ok s'.1 ∧ s'.2 = s.2.record a s.1.obligations s'.1.obligations

/-- Along every run from an empty private side, `total_out` is what the open tickets and the settled
ones add up to and is covered by what came in; every opened ticket is open or settled, once; and the
open ones have distinct ids in range and positive assets. -/
theorem private_custody_solvent {rt : Runtime} {w₀ w : World} {h : History}
    (hstart : w₀.obligations = .empty)
    (hrun : Relation.ReflTransGen (Recorded rt) (w₀, ⟨[], []⟩) (w, h)) :
    w.obligations.totalOut.val = owed w.obligations.tickets + owed h.settled ∧
      w.obligations.totalOut.val ≤ w.obligations.totalIn.val ∧
      h.opened.Perm (w.obligations.tickets ++ h.settled) ∧
      (w.obligations.tickets.map Exit.groupId).Nodup ∧
      ∀ e ∈ w.obligations.tickets,
        1 ≤ e.groupId.val ∧ e.groupId.val ≤ 0xFFFFFF ∧ 0 < e.assets.val := by
  have hsolvent : Solvent w.obligations h := by
    refine Runs.preserves (I := fun s : World × History => Solvent s.1.obligations s.2) ?_ hrun ?_
    · rintro s s' hs ⟨a, ha, hrecord⟩
      rw [hrecord]
      exact (World.step_obligations ha).solvent hs
    · rw [hstart]
      exact solvent_empty
  refine ⟨?_, hsolvent.covered, hsolvent.accounted, hsolvent.distinct, hsolvent.sound⟩
  rw [hsolvent.totalOut, owed_perm hsolvent.accounted, owed_append]

/-- MagicBlock's queued payment of a ticket out of the custody, in one piece and without delay. -/
def custodyPayment (owner : Pubkey) (assets : U64) (groupId : U32) : Instruction :=
  let le := LittleEndian.leBytes
  let readOnly (k : Pubkey) : AccountMeta := ⟨k, false⟩
  ⟨ephemeralSplTokenProgramId,
    [readOnly .default, readOnly .default, readOnly devnetUsdcMint, readOnly custodyAccount,
      readOnly .default, readOnly owner, ⟨custodyOwner, true⟩],
    esplDepositAndQueueTransfer ::
      (le 8 assets.val ++ le 3 groupId.val ++ le 8 0 ++ le 8 0 ++ le 4 1)⟩

/-- A private deposit of 100 USDC, a redemption of all its shares under id 1, and its settlement. -/
def depositRedeemSettle : List Action :=
  privateDeposit 100000000 ++
    [.program (.alone [positionOwner] 100)
        (.redeemPrivate positionOwner positionOwner ⟨100000000, 1, 0, 0, 1⟩),
      .program (.next (custodyPayment positionOwner 100000000 1) [authority] 100)
        (.settleExit authority 1)]

/-- The history of a list of actions, up to the first one that fails. -/
def World.recordAll (rt : Runtime) (w : World) (h : History) : List Action → World × History
  | [] => (w, h)
  | a :: as =>
    match w.step rt a with
    | .ok w' => w'.recordAll rt (h.record a w.obligations w'.obligations) as
    | .error _ => (w, h)

/-- A list of actions, recorded, is a run. -/
theorem recorded_run {rt : Runtime} (w : World) (h : History) (as : List Action) :
    Relation.ReflTransGen (Recorded rt) (w, h) (w.recordAll rt h as) := by
  induction as generalizing w h with
  | nil => exact .refl
  | cons a as ih =>
    unfold World.recordAll
    cases hstep : w.step rt a with
    | error e => exact .refl
    | ok w' => exact .head ⟨a, hstep, rfl⟩ (ih w' _)

/-- A ticket of 100 USDC that was opened and settled. -/
theorem private_custody_solvent_settled :
    ∃ (w : World) (h : History), owed h.settled = 100000000 ∧
      w.obligations.totalOut.val = owed w.obligations.tickets + owed h.settled := by
  let s := World.deployedPrivate.recordAll deployment ⟨[], []⟩ depositRedeemSettle
  have hrun : Relation.ReflTransGen (Recorded deployment) (World.deployedPrivate, ⟨[], []⟩)
      (s.1, s.2) := recorded_run _ _ _
  exact ⟨s.1, s.2, by decide +kernel,
    (private_custody_solvent (by decide +kernel) hrun).1⟩

end Agama
