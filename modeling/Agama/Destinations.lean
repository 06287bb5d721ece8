import Agama.Exits
import Agama.Holdings
import Agama.Shares
import Agama.Lib.Register

/-!
# Where exits go

A ticket is written into a slot that later tickets reuse, and it keeps only its destination. Here
every ticket is remembered with the position that it was opened from and the transaction that
opened it, and every settlement closes the one that it frees the slot of. A session key opens
tickets to the position's owner and nowhere else, and a settlement pays the ticket as it was opened.
-/

namespace Agama

/-- A ticket, with where it came from: the position, by the owner that its address derives from, the
owner that the position names, and the transaction. -/
structure Opening where
  position : Pubkey
  owner : Pubkey
  tx : Tx
  ticket : Exit

/-- The id that an opening's ticket has while it is open. -/
def Opening.groupId (x : Opening) : U32 := x.ticket.groupId

/-- The tickets that were opened, and what settled those that are closed. -/
abbrev Tickets := Register Opening Tx

/-- The opening that an action makes: the ticket that it leaves under the id that it asked for. -/
def Action.opening (w w' : World) : Action → Option Opening
  | .program tx ix => do
    let (o, r) ← ix.redeemsPrivate
    let d ← w.positions.lookup o
    let e ← w'.obligations.ticket r.groupId
    pure ⟨o, d.current.owner, tx, e⟩
  | .token _ => none

/-- The id that an action settles, and its transaction. -/
def Action.closing : Action → Option (U32 × Tx)
  | .program tx (.settleExit _ groupId) => some (groupId, tx)
  | _ => none

/-- What an action adds to the register. -/
def Tickets.record (g : Tickets) (a : Action) (w w' : World) : Tickets :=
  let g := (a.opening w w').elim g g.add
  a.closing.elim g fun c => g.close Opening.groupId c.1 c.2

/-- A step of the program that the register records. -/
def Traced (rt : Runtime) (s s' : World × Tickets) : Prop :=
  ∃ a, s.1.step rt a = .ok s'.1 ∧ s'.2 = s.2.record a s.1 s'.1

/-- Only an action that asks for a ticket opens one. -/
theorem Action.opening_eq_none {a : Action} (w w' : World) (h : a.opens = none) :
    a.opening w w' = none := by
  cases a with
  | program tx ix =>
    cases ix with
    | redeemPrivate | redeemPrivateTo => cases h
    | _ => rfl
  | token t => rfl

/-- An action that settles nothing closes nothing. -/
theorem Action.closing_eq_none {a : Action} (h : a.settles = none) : a.closing = none := by
  cases a with
  | program tx ix =>
    cases ix with
    | settleExit => cases h
    | _ => rfl
  | token t => rfl

/-- An action that asks for a ticket is a private redemption. -/
theorem Action.redeems_of_opens {a : Action} {groupId : U32} (h : a.opens = some groupId) :
    ∃ tx ix o r, a = .program tx ix ∧ ix.redeemsPrivate = some (o, r) ∧ r.groupId = groupId := by
  cases a with
  | program tx ix =>
    cases ix with
    | redeemPrivate signer position request =>
      exact ⟨tx, _, position, request, rfl, rfl, Option.some.inj h⟩
    | redeemPrivateTo signer position request payout =>
      exact ⟨tx, _, position, request, rfl, rfl, Option.some.inj h⟩
    | _ => cases h
  | token t => cases h

/-- An action that settles a ticket is `settle_exit`. -/
theorem Action.settles_exit {a : Action} {groupId : U32} (h : a.settles = some groupId) :
    ∃ tx authority, a = .program tx (.settleExit authority groupId) := by
  cases a with
  | program tx ix =>
    cases ix with
    | settleExit authority id =>
      cases h
      exact ⟨tx, authority, rfl⟩
    | _ => cases h
  | token t => cases h

/-! ## What opens and settles a ticket -/

/-- A ticket to another wallet than the position's owner was asked for by that owner. -/
def Opening.Authorised (x : Opening) : Prop := x.ticket.owner ≠ x.owner → x.owner ∈ x.tx.signers

/-- The transaction of a settlement pays a ticket: the instruction before it is the queued payment
of exactly the ticket's assets, out of the custody, to exactly its destination, and the custody's
owner signed it. -/
def PaidIn (rt : Runtime) (custodyOwner : Pubkey) (tx : Tx) (e : Exit) : Prop :=
  ∃ prev, previousInstruction tx = .ok prev ∧ prev.programId = ephemeralSplTokenProgramId ∧
    unpackQueueTransfer prev =
      some (e.payment rt.usdcMint (rt.ata custodyOwner rt.usdcMint) custodyOwner)

/-- A ticket that the obligations have room for. -/
structure Obligations.Admits (x : Obligations) (e : Exit) : Prop where
  held : e.assets.val + x.totalOut.val ≤ x.totalIn.val
  positive : 0 < e.assets.val
  inRange : 0 < e.groupId.val ∧ e.groupId.val ≤ 0x00FFFFFF
  unused : ∀ e' ∈ x.slots, e'.groupId ≠ e.groupId
  free : ∃ slot, x.slots.find? Exit.isFree = some slot

namespace World

variable {rt : Runtime} {w w' : World} {tx : Tx} {a : Action}

/-- Both private redemptions open a ticket, to the position's owner or at that owner's word. -/
theorem execRedeemPrivate_opens {signer position : Pubkey} {r : ExitRequest}
    {handler : RedeemPrivate → ℤ → Result RedeemPrivate}
    (h : w.execRedeemPrivate tx signer position handler = .ok w')
    (hspec : ∀ {a a' b}, a.book.data = some b → handler a tx.now = .ok a' →
      ∃ ticket, (ticket.owner = a.position.owner ∨ a.signer = a.position.owner) ∧
        OpensExit a b r ticket a') :
    ∃ d ticket, w.positions.lookup position = some d ∧
      (ticket.owner ≠ d.current.owner → d.current.owner ∈ tx.signers) ∧
      ticket.groupId = r.groupId ∧ w.obligations.Admits ticket ∧
      w'.obligations = w.obligations.opening ticket := by
  simp only [execRedeemPrivate, bind_eq_ok, signs_eq_ok, loadPosition_eq_ok, pure_eq_ok] at h
  obtain ⟨_, hsigned, d, ⟨hd, -⟩, _, -, _, -, a, hrun, rfl⟩ := h
  obtain ⟨ticket, hto, hopen⟩ := hspec (info_data w.book) hrun
  refine ⟨d, ticket, hd, fun hne => ?_, hopen.groupId, ⟨hopen.held, hopen.positive,
    hopen.inRange, hopen.unused, hopen.free⟩, ?_⟩
  · -- To anyone else, the signer is the owner.
    have howner : signer = d.current.owner := hto.resolve_left hne
    exact howner ▸ hsigned
  · simp only [obligations, Delegable.current_write, hopen.shielded, hopen.exits]
    rfl

/-- A private redemption opens the ticket that was asked for, with a destination other than the
position's owner only if that owner signed. -/
theorem exec_redeemsPrivate_opens {ix : Ix} {o : Pubkey} {r : ExitRequest}
    (hix : ix.redeemsPrivate = some (o, r)) (h : w.exec rt tx ix = .ok w') :
    ∃ d ticket, w.positions.lookup o = some d ∧
      (ticket.owner ≠ d.current.owner → d.current.owner ∈ tx.signers) ∧
      ticket.groupId = r.groupId ∧ w.obligations.Admits ticket ∧
      w'.obligations = w.obligations.opening ticket := by
  obtain ⟨signer, handler, hrun, hspec⟩ := exec_redeemsPrivate hix h
  exact execRedeemPrivate_opens hrun hspec

/-- `settle_exit` frees the slot of the ticket under its id, right after the queued payment of that
ticket. -/
theorem exec_settleExit_pays {authority : Pubkey} {groupId : U32}
    (h : w.exec rt tx (.settleExit authority groupId) = .ok w') :
    ∃ e prev, w.obligations.ticket groupId = some e ∧ previousInstruction tx = .ok prev ∧
      prev.programId = ephemeralSplTokenProgramId ∧
      unpackQueueTransfer prev = some (e.payment w.vault.usdcMint (w.custody rt)
        w.shielded.current.custodyOwner) ∧
      w'.obligations = w.obligations.settling groupId := by
  simp only [exec, execSettleExit, bind_eq_ok, pure_eq_ok] at h
  obtain ⟨_, -, _, -, exits, hrun, rfl⟩ := h
  obtain ⟨e, prev, hslot, hprev, hpay, hexits⟩ := settleExit_spec hrun
  obtain ⟨hid, hunpack⟩ := assertPayment_unpack hpay
  refine ⟨e, prev, hslot, hprev, hid, hunpack, ?_⟩
  simp only [obligations, Delegable.current_write, hexits]
  rfl

end World

/-! ## The register along a run -/

/-- The register follows the exit book: its live tickets are the open ones, and every ticket that it
remembers was authorised. -/
structure Tickets.Follows (g : Tickets) (w : World) : Prop where
  accounted : g.Accounted
  live : (g.live.map fun x => x.1.ticket).Perm w.obligations.tickets
  solvent : ∃ h, Solvent w.obligations h
  authorised : ∀ x ∈ g.opened, x.Authorised

namespace Tickets

variable {rt : Runtime} {g : Tickets} {w w' : World} {a : Action}

/-- A live ticket of the register is an open one. -/
theorem Follows.mem_tickets (hg : g.Follows w) {x : Opening × ℕ} (hx : x ∈ g.live) :
    x.1.ticket ∈ w.obligations.tickets :=
  hg.live.mem_iff.mp (List.mem_map.mpr ⟨x, hx, rfl⟩)

/-- The open ticket under an id is the one that the register finds there. -/
theorem Follows.find (hg : g.Follows w) {groupId : U32} {e : Exit}
    (he : w.obligations.ticket groupId = some e) :
    ∃ x, (g.live.find? fun x => x.1.groupId = groupId) = some x ∧ x.1.ticket = e := by
  obtain ⟨hmem, hid⟩ := Obligations.ticket_mem he
  obtain ⟨y, hy, hye⟩ := List.mem_map.mp (hg.live.mem_iff.mpr hmem)
  cases hfind : g.live.find? fun x => x.1.groupId = groupId with
  | none =>
    have hyid : y.1.groupId = groupId := by rw [Opening.groupId, hye, hid]
    exact absurd (decide_eq_true hyid) (List.find?_eq_none.mp hfind y hy)
  | some x =>
    -- Ids are distinct among the open tickets, so the entry that is found is that ticket.
    obtain ⟨h, hsolvent⟩ := hg.solvent
    have hx := hg.mem_tickets (List.mem_of_find?_eq_some hfind)
    have hxid := List.find?_some hfind
    have hticket := Obligations.ticket_of_mem hx hsolvent.distinct
    rw [show x.1.ticket.groupId = groupId from of_decide_eq_true hxid, he,
      Option.some.injEq] at hticket
    exact ⟨x, rfl, hticket.symm⟩

/-- An opening that the obligations admit joins both. -/
theorem Follows.add (hg : g.Follows w) {x : Opening} (hauth : x.Authorised)
    (hadmits : w.obligations.Admits x.ticket)
    (hw : w'.obligations = w.obligations.opening x.ticket) :
    Follows (g.add x) w' ∧ w'.obligations.ticket x.groupId = some x.ticket := by
  obtain ⟨h, hsolvent⟩ := hg.solvent
  obtain ⟨slot, hslot⟩ := hadmits.free
  obtain ⟨hsolvent', hticket⟩ :=
    hsolvent.opening hadmits.held hadmits.positive hadmits.inRange hadmits.unused hslot
  have hperm := Obligations.tickets_opening (Exit.isOpen_of_pos hadmits.inRange.1) hslot
  rw [hw]
  refine ⟨⟨hg.accounted.add x, ?_, ⟨_, hw ▸ hsolvent'⟩, fun y hy => ?_⟩, hticket⟩
  · rw [hw]
    calc ((g.add x).live.map fun y => y.1.ticket) =
          (g.live.map fun y => y.1.ticket) ++ [x.ticket] := by simp [Register.add]
      _ |>.Perm (x.ticket :: g.live.map fun y => y.1.ticket) := List.perm_append_singleton _ _
      _ |>.Perm (x.ticket :: w.obligations.tickets) := hg.live.cons _
      _ |>.Perm (w.obligations.opening x.ticket).tickets := hperm.symm
  · rcases List.mem_append.mp hy with hy | hy
    · exact hg.authorised y hy
    · rwa [List.mem_singleton.mp hy]

/-- A settled ticket leaves both. -/
theorem Follows.close (hg : g.Follows w) {groupId : U32} {e : Exit}
    (he : w.obligations.ticket groupId = some e)
    (hw : w'.obligations = w.obligations.settling groupId) (tx : Tx) :
    Follows (g.close Opening.groupId groupId tx) w' := by
  obtain ⟨h, hsolvent⟩ := hg.solvent
  obtain ⟨x, hx, rfl⟩ := hg.find he
  have hlive := Register.cons_eraseP_perm hx
  have hopen := Obligations.tickets_settling he
  have hclose := Register.close_of_find hx tx
  refine ⟨hg.accounted.close groupId tx, ?_, ⟨_, hw ▸ hsolvent.settling he⟩, ?_⟩
  · rw [hclose, hw]
    refine List.Perm.cons_inv (a := x.1.ticket) ?_
    exact ((hlive.map fun y => y.1.ticket).trans hg.live).trans hopen.symm
  · rw [hclose]
    exact hg.authorised

/-- Nothing is open at the start. -/
theorem follows_start (rt : Runtime) (authority custodyOwner : Pubkey) (book : PoolBook) :
    Follows .empty (World.start rt authority custodyOwner book) :=
  ⟨Register.accounted_empty, .refl _, ⟨_, solvent_empty⟩, fun _ hx => absurd hx List.not_mem_nil⟩

/-- Every step keeps the register on the exit book. -/
theorem Follows.step (hg : g.Follows w) (h : w.step rt a = .ok w') :
    (g.record a w w').Follows w' := by
  unfold Tickets.record
  have hob := World.step_obligations h
  generalize hx : w'.obligations = x' at hob
  cases hob with
  | received opens settles more =>
    rw [Action.opening_eq_none w w' opens, Action.closing_eq_none settles]
    obtain ⟨h, hsolvent⟩ := hg.solvent
    exact ⟨hg.accounted, hx ▸ hg.live,
      ⟨h, hx ▸ { hsolvent with covered := hsolvent.covered.trans more }⟩, hg.authorised⟩
  | opened opens settles =>
    rw [Action.closing_eq_none settles]
    obtain ⟨tx, ix, o, r, rfl, hix, hid⟩ := Action.redeems_of_opens opens
    obtain ⟨d, ticket, hd, hsigned, hgroup, hadmits, hw⟩ :=
      World.exec_redeemsPrivate_opens hix h
    obtain ⟨hfollows, hticket⟩ :=
      hg.add (x := ⟨o, d.current.owner, tx, ticket⟩) hsigned hadmits hw
    have hopening : Action.opening w w' (.program tx ix) =
        some ⟨o, d.current.owner, tx, ticket⟩ := by
      rw [Opening.groupId, hgroup] at hticket
      simp [Action.opening, hix, hd, hticket]
    rw [hopening]
    exact hfollows
  | settled opens settles =>
    rw [Action.opening_eq_none w w' opens]
    obtain ⟨tx, authority, rfl⟩ := Action.settles_exit settles
    obtain ⟨e, prev, he, -, -, -, hw⟩ := World.exec_settleExit_pays h
    exact hg.close he hw tx

end Tickets

/-! ## Owners stay -/

/-- The position at an address names `o` as its owner, in both copies. -/
def Holding.Names (x : Holding) (o : Pubkey) : Prop :=
  ∀ d, x.position = some d → d.Both fun p => p.owner = o

/-- No effect changes the owner that a position names. -/
theorem Holding.Step.names {rt : Runtime} {tx : Tx} {o : Pubkey} {ix : Ix} {x x' : Holding}
    (hx : x.Names o) (h : Holding.Step rt tx o ix x x') : x'.Names o := by
  rintro d' hd'
  cases h with
  | other => exact hx d' hd'
  | opened signed =>
    cases hd'
    exact ⟨rfl, rfl⟩
  | authorized signed | rotated later reads signed =>
    cases hd'
    exact (hx _ rfl).write (hx _ rfl).2
  | acted signed mayAct owner =>
    cases hd'
    exact (hx _ rfl).write (owner.trans (hx _ rfl).2)
  | delegated signed run =>
    cases hd'
    exact (hx _ rfl).delegate run
  | undelegated run =>
    cases hd'
    exact (hx _ rfl).undelegate run

/-- No effect takes a position away. -/
theorem Holding.Step.exists_position {rt : Runtime} {tx : Tx} {o : Pubkey} {ix : Ix}
    {x x' : Holding} (hx : ∃ d, x.position = some d) (h : Holding.Step rt tx o ix x x') :
    ∃ d', x'.position = some d' := by
  cases h with
  | other => exact hx
  | opened | authorized | rotated | acted | delegated | undelegated => exact ⟨_, rfl⟩

namespace World

variable {rt : Runtime} {w w' : World}

/-- What every effect on what an owner holds preserves, every run preserves. -/
theorem run_holding {o : Pubkey} {I : Holding → Prop}
    (hstep : ∀ {tx ix x x'}, I x → Holding.Step rt tx o ix x x' → I x')
    (hrun : Run rt w w') (hw : I (w.holding o)) : I (w'.holding o) := by
  refine Runs.preserves (I := fun w => I (w.holding o)) ?_ hrun hw
  rintro v v' hv ⟨a, ha, -⟩
  rcases step_holding ha o with ⟨tx, ix, -, heffect⟩ | hsame
  · exact hstep hv heffect
  · rwa [hsame]

/-- In every state that the program reaches, both copies of a position name the owner that its
address derives from. -/
theorem run_names {authority custodyOwner : Pubkey} {book : PoolBook}
    (hrun : Run rt (World.start rt authority custodyOwner book) w) (o : Pubkey) :
    (w.holding o).Names o :=
  run_holding (I := fun x => x.Names o) (fun hx heffect => heffect.names hx) hrun (by rintro d ⟨⟩)

/-- No run moves the USDC mint or the custody's owner. -/
theorem run_custodyKeys (hrun : Run rt w w') :
    w'.vault.usdcMint = w.vault.usdcMint ∧
      w'.shielded.current.custodyOwner = w.shielded.current.custodyOwner := by
  refine Runs.preserves (I := fun v => v.vault.usdcMint = w.vault.usdcMint ∧
    v.shielded.current.custodyOwner = w.shielded.current.custodyOwner) ?_ hrun ⟨rfl, rfl⟩
  rintro v v' ⟨hmint, howner⟩ ⟨a, ha, -⟩
  obtain ⟨hmint', howner', -⟩ := (step_ledger ha).credits
  exact ⟨hmint'.trans hmint, howner'.trans howner⟩

end World

/-! ## The law -/

/-- A traced run is a run. -/
theorem run_of_traced {rt : Runtime} {s s' : World × Tickets}
    (h : Relation.ReflTransGen (Traced rt) s s') : Run rt s.1 s'.1 :=
  h.lift Prod.fst fun _ _ ⟨a, ha, _⟩ => ⟨a, ha, trivial⟩

/-- No ticket goes elsewhere than its position's owner said, and none is closed without being paid
there. -/
structure Undiverted (rt : Runtime) (custodyOwner : Pubkey) (w : World) (g : Tickets) : Prop where
  /-- The register's live tickets are the open ones. -/
  remembered : (g.live.map fun x => x.1.ticket).Perm w.obligations.tickets
  /-- A ticket to another wallet than the owner's was opened under the owner's signature. -/
  redirected : ∀ x ∈ g.opened, x.ticket.owner ≠ x.owner → x.owner ∈ x.tx.signers
  /-- `settle_exit` closes a ticket as it was opened, right after its payment. -/
  settled : ∀ tx authority groupId w',
    w.exec rt tx (.settleExit authority groupId) = .ok w' →
      ∃ x n, (x, n) ∈ g.live ∧ g.opened[n]? = some x ∧ x.ticket.groupId = groupId ∧
        PaidIn rt custodyOwner tx x.ticket ∧
        (x.ticket :: w'.obligations.tickets).Perm w.obligations.tickets
  /-- A position keeps its owner. -/
  owner : ∀ o d w', w.positions.lookup o = some d → Run rt w w' →
    ∃ d', w'.positions.lookup o = some d' ∧ d'.Both fun p => p.owner = d.current.owner

/-- In every state of every run, no ticket is diverted, whoever acts on the positions. -/
theorem tickets_undiverted {rt : Runtime} {authority custodyOwner : Pubkey} {book : PoolBook}
    {w : World} {g : Tickets} (hrun : Relation.ReflTransGen (Traced rt)
      (World.start rt authority custodyOwner book, .empty) (w, g)) :
    Undiverted rt custodyOwner w g := by
  have hw : Run rt (World.start rt authority custodyOwner book) w := run_of_traced hrun
  have hg : g.Follows w := by
    refine Runs.preserves (I := fun s : World × Tickets => s.2.Follows s.1) ?_ hrun
      (Tickets.follows_start rt authority custodyOwner book)
    rintro s s' hs ⟨a, ha, hrecord⟩
    rw [hrecord]
    exact hs.step ha
  refine ⟨hg.live, hg.authorised, fun tx authority groupId w' h => ?_, fun o d w' hd hrest => ?_⟩
  · obtain ⟨e, prev, he, hprev, hid, hunpack, hw'⟩ := World.exec_settleExit_pays h
    obtain ⟨⟨x, n⟩, hx, rfl⟩ := hg.find he
    have hmem := List.mem_of_find?_eq_some hx
    -- Both keys of the custody are the ones that the program was set up with.
    obtain ⟨hmint, howner⟩ := World.run_custodyKeys hw
    rw [World.custody, hmint, howner] at hunpack
    refine ⟨x, n, hmem, hg.accounted.opened_of_live hmem, (Obligations.ticket_mem he).2,
      ⟨prev, hprev, hid, hunpack⟩, ?_⟩
    rw [hw']
    exact Obligations.tickets_settling he
  · obtain ⟨d', hd'⟩ := World.run_holding (I := fun x => ∃ d, x.position = some d)
      (fun hx heffect => heffect.exists_position hx) hrest ⟨d, hd⟩
    have hnames := World.run_names (hw.trans hrest) o d' hd'
    have howner := (World.run_names hw o d hd).2
    exact ⟨d', hd', by rwa [howner]⟩

/-- An action, traced. -/
def World.trace (rt : Runtime) (s : World × Tickets) (a : Action) : Result (World × Tickets) := do
  let w ← s.1.step rt a
  pure (w, s.2.record a s.1 w)

/-- A step that was computed with its register is one. -/
theorem traced_of_trace {rt : Runtime} {s s' : World × Tickets} {a : Action}
    (h : World.trace rt s a = .ok s') : Traced rt s s' := by
  rw [World.trace, bind_eq_ok] at h
  obtain ⟨w, ha, hs'⟩ := h
  rw [pure_eq_ok] at hs'
  subst hs'
  exact ⟨a, ha, rfl⟩

/-- Shares redeemed by a session key, and by the owner to another wallet, which the custody pays. -/
def redirectedExit : List Action :=
  openPrivate ++ delegatePrivate ++ privateDeposit 100000000 ++
  [.program (.alone [positionOwner] 100) (.authorizeSession positionOwner sessionKey),
    .program (.alone [sessionKey] 200)
      (.redeemPrivate sessionKey positionOwner ⟨30000000, 1, 0, 0, 1⟩),
    .program (.alone [positionOwner] 200)
      (.redeemPrivateTo positionOwner positionOwner ⟨20000000, 2, 0, 0, 1⟩ user),
    .program (.next (custodyPayment user 20000000 2) [authority] 300) (.settleExit authority 2)]

/-- Both tickets went where they should, and the second one was paid. -/
theorem tickets_undiverted_redirected :
    ∃ (w : World) (g : Tickets),
      g.opened.map (fun x => (x.owner, x.ticket.owner, x.tx.signers)) =
        [(positionOwner, positionOwner, [sessionKey]), (positionOwner, user, [positionOwner])] ∧
      g.closed.map (fun c => c.1.2) = [1] ∧ Undiverted deployment custodyOwner w g := by
  let s := Runs.follow (World.trace deployment) (World.deployed 800, .empty) redirectedExit
  have hrun : Relation.ReflTransGen (Traced deployment) (World.deployed 800, .empty) s :=
    Runs.follow_run (World.trace deployment) (fun _ _ _ h => traced_of_trace h) _ redirectedExit
  exact ⟨s.1, s.2, by decide +kernel, by decide +kernel, tickets_undiverted hrun⟩

end Agama
