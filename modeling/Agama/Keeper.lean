import Agama.Deployment
import Agama.Recovery

/-!
# The keeper

The absorbing part of the keeper's loop (`scripts/keeper.ts`), next to everything that can happen to
the accounts meanwhile. One pass reads the vault, the rollup's book and the committed aggregate,
each at a moment of its own, and sends an absorb for what the book has not marked. The pass then
ends with a confirmation or with an exception, which says nothing about the transaction: it may land
at any later moment, or never.

An absorb carries a delta, so the same flow must not be sent twice. It is not as long as the keeper
never reads the book while an earlier absorb may still land (`careful_absorbs_once`); the loop does
not wait for that, and a retry absorbs the flow again (`retry_absorbs_twice`).

Whoever sends the absorbs, as long as each stays within the committed totals when it lands, pricing
is never rejected on either layer (`honest_absorbs_price`).
-/

namespace Agama

/-- The accounts, what the keeper has read in this pass, and the absorbs that may still land. -/
structure Keeper where
  world : World
  vault : Option Vault
  book : Option PoolBook
  shielded : Option Shielded
  inFlight : List (U64 × U64)

/-- The keeper at the start of its loop. -/
def Keeper.start (w : World) : Keeper := ⟨w, none, none, none, []⟩

/-- The move of an absorb. -/
def Move.isAbsorb : Move → Bool
  | .absorb _ _ _ => true
  | _ => false

/-- A step of the system, when `mayRead` says where the keeper may read the book. -/
inductive KeeperStep (rt : Runtime) (mayRead : Keeper → Prop) (k : Keeper) : Keeper → Prop
  /-- Anything that is not an absorb: flow on either layer, ticks, commits, recycling. -/
  | flow {a : Action} {w : World} (notAbsorb : a.move.isAbsorb = false)
      (run : k.world.step rt a = .ok w) : KeeperStep rt mayRead k { k with world := w }
  | readVault : KeeperStep rt mayRead k { k with vault := some k.world.vault }
  | readBook (may : mayRead k) :
      KeeperStep rt mayRead k { k with book := some k.world.book.current }
  | readShielded : KeeperStep rt mayRead k { k with shielded := some k.world.shielded.base }
  /-- Send the difference, if it fits the argument's type. -/
  | send {v : Vault} {b : PoolBook} {s : Shielded} {inflow outflow : U64}
      (reads : k.vault = some v ∧ k.book = some b ∧ k.shielded = some s)
      (hin : inflow.val = v.totalIn.val + s.totalIn.val - b.markedIn.val)
      (hout : outflow.val = v.totalOut.val + s.totalOut.val - b.markedOut.val) :
      KeeperStep rt mayRead k ⟨k.world, none, none, none, (inflow, outflow) :: k.inFlight⟩
  /-- An exception, or nothing to absorb: the pass ends. -/
  | forget : KeeperStep rt mayRead k { k with vault := none, book := none, shielded := none }
  /-- A sent absorb lands. -/
  | land {before after : List (U64 × U64)} {inflow outflow : U64} {tx : Tx} {authority : Pubkey}
      {w : World} (sent : k.inFlight = before ++ (inflow, outflow) :: after)
      (run : k.world.step rt (.program tx (.absorb authority inflow outflow)) = .ok w) :
      KeeperStep rt mayRead k { k with world := w, inFlight := before ++ after }
  /-- A sent absorb is lost for good. -/
  | expire {before after : List (U64 × U64)} {x : U64 × U64}
      (sent : k.inFlight = before ++ x :: after) :
      KeeperStep rt mayRead k { k with inFlight := before ++ after }

/-- A keeper that reads the book only when no earlier absorb may still land. -/
def Careful (k : Keeper) : Prop := k.inFlight = []

/-! ## What is in flight -/

/-- The inflows that may still land. -/
def inflows (l : List (U64 × U64)) : ℕ := (l.map (·.1.val)).sum

/-- The outflows that may still land. -/
def outflows (l : List (U64 × U64)) : ℕ := (l.map (·.2.val)).sum

/-- The book has not marked more than the vault and the committed aggregate took in and paid out. -/
def Ledger.BookBehind (L : Ledger) : Prop :=
  L.book.current.markedIn.val ≤ L.vault.totalIn.val + L.shielded.base.totalIn.val ∧
    L.book.current.markedOut.val ≤ L.vault.totalOut.val + L.shielded.base.totalOut.val

/-- What a careful keeper keeps: the book stays behind with everything in flight absorbed too, what
was read is not ahead of the accounts, and while a reading of the book is held nothing is in
flight. -/
structure KeeperInv (k : Keeper) : Prop where
  inOrder : k.world.ledger.InOrder
  markedIn : k.world.book.current.markedIn.val + inflows k.inFlight ≤
    k.world.vault.totalIn.val + k.world.shielded.base.totalIn.val
  markedOut : k.world.book.current.markedOut.val + outflows k.inFlight ≤
    k.world.vault.totalOut.val + k.world.shielded.base.totalOut.val
  vault : ∀ v, k.vault = some v →
    v.totalIn.val ≤ k.world.vault.totalIn.val ∧ v.totalOut.val ≤ k.world.vault.totalOut.val
  book : ∀ b, k.book = some b → k.inFlight = [] ∧
    b.markedIn = k.world.book.current.markedIn ∧ b.markedOut = k.world.book.current.markedOut
  shielded : ∀ s, k.shielded = some s → Ledger.TotalsLe s k.world.shielded.base

/-- Only an absorb moves the marks. -/
theorem marks_of_not_absorb {L L' : Ledger} {m : Move} (hm : m.isAbsorb = false)
    (h : Ledger.Step L m L') : L'.book.current.markedIn = L.book.current.markedIn ∧
      L'.book.current.markedOut = L.book.current.markedOut := by
  have hwrite {b : PoolBook} (hb : Remarked L.book.current b) :
      (L.book.write b).current.markedIn = L.book.current.markedIn ∧
        (L.book.write b).current.markedOut = L.book.current.markedOut := by
    rw [Delegable.current_write]
    exact ⟨hb.markedIn, hb.markedOut⟩
  cases h with
  | absorb run => cases hm
  | tick run => exact hwrite (tick_spec run)
  | setApr run => exact hwrite (setApr_spec run)
  | delegateBook run => simp only [(Delegable.delegate_eq_some run).2, and_self]
  | commitBook run => simp only [(Delegable.commit_eq_some run).2, and_self]
  | undelegateBook run => simp only [(Delegable.undelegate_eq_some run).2.1, and_self]
  | _ => exact ⟨rfl, rfl⟩

/-- A landed absorb raises the marks by no more than its amounts. -/
theorem marks_of_absorb {L L' : Ledger} {now : ℤ} {inflow outflow : U64}
    (h : Ledger.Step L (.absorb now inflow outflow) L') :
    L'.book.current.markedIn.val ≤ L.book.current.markedIn.val + inflow.val ∧
      L'.book.current.markedOut.val ≤ L.book.current.markedOut.val + outflow.val := by
  cases h with
  | absorb run =>
    obtain ⟨-, hin, hout, -⟩ := absorb_marks run
    simp only [Ledger.writeBook, Delegable.current_write, hin, hout, satAdd_val]
    omega

/-- The sum over a list splits around one element. -/
theorem flows_split (before after : List (U64 × U64)) (x : U64 × U64) :
    inflows (before ++ x :: after) = inflows (before ++ after) + x.1.val ∧
      outflows (before ++ x :: after) = outflows (before ++ after) + x.2.val := by
  simp only [inflows, outflows, List.map_append, List.map_cons, List.sum_append, List.sum_cons]
  omega

/-- While an absorb is in flight, no reading of the book is held. -/
theorem KeeperInv.book_none {k : Keeper} (hk : KeeperInv k) {before after : List (U64 × U64)}
    {x : U64 × U64} (sent : k.inFlight = before ++ x :: after) : k.book = none := by
  cases hb : k.book with
  | none => rfl
  | some b =>
    have hempty := (hk.book b hb).1
    rw [sent] at hempty
    simp at hempty

/-- What was read before a step is not ahead after it. -/
theorem KeeperInv.reads_forward {k : Keeper} (hk : KeeperInv k) {w : World}
    (hfwd : k.world.ledger.Forward w.ledger) :
    (∀ v, k.vault = some v →
      v.totalIn.val ≤ w.vault.totalIn.val ∧ v.totalOut.val ≤ w.vault.totalOut.val) ∧
      ∀ s, k.shielded = some s → Ledger.TotalsLe s w.shielded.base := by
  constructor
  · intro v hv
    obtain ⟨hin, hout⟩ := hk.vault v hv
    exact ⟨hin.trans hfwd.totalIn, hout.trans hfwd.totalOut⟩
  · intro s hs
    exact (hk.shielded s hs).trans hfwd.shielded

/-- Anything but an absorb moves the totals forward under marks that stay. -/
theorem KeeperInv.flow {rt : Runtime} {k : Keeper} (hk : KeeperInv k) {a : Action} {w : World}
    (notAbsorb : a.move.isAbsorb = false) (run : k.world.step rt a = .ok w) :
    KeeperInv { k with world := w } := by
  have hstep := World.step_ledger run
  obtain ⟨hord, hfwd⟩ := hstep.forward hk.inOrder
  obtain ⟨hmin, hmout⟩ := marks_of_not_absorb notAbsorb hstep
  obtain ⟨hvault, hshielded⟩ := hk.reads_forward hfwd
  have htin : k.world.vault.totalIn.val + k.world.shielded.base.totalIn.val ≤ _ :=
    Nat.add_le_add hfwd.totalIn hfwd.shielded.1
  have htout : k.world.vault.totalOut.val + k.world.shielded.base.totalOut.val ≤ _ :=
    Nat.add_le_add hfwd.totalOut hfwd.shielded.2
  refine ⟨hord, ?_, ?_, hvault, ?_, hshielded⟩
  · exact (congrArg (·.val + inflows k.inFlight) hmin).trans_le (hk.markedIn.trans htin)
  · exact (congrArg (·.val + outflows k.inFlight) hmout).trans_le (hk.markedOut.trans htout)
  · intro b hb
    obtain ⟨hempty, hin, hout⟩ := hk.book b hb
    exact ⟨hempty, hin.trans hmin.symm, hout.trans hmout.symm⟩

/-- With nothing else in flight, the difference brings the marks up to what was read. -/
theorem KeeperInv.send {k : Keeper} (hk : KeeperInv k) {v : Vault} {b : PoolBook} {s : Shielded}
    {inflow outflow : U64} (reads : k.vault = some v ∧ k.book = some b ∧ k.shielded = some s)
    (hin : inflow.val = v.totalIn.val + s.totalIn.val - b.markedIn.val)
    (hout : outflow.val = v.totalOut.val + s.totalOut.val - b.markedOut.val) :
    KeeperInv ⟨k.world, none, none, none, (inflow, outflow) :: k.inFlight⟩ := by
  obtain ⟨hv, hb, hs⟩ := reads
  obtain ⟨hvin, hvout⟩ := hk.vault v hv
  obtain ⟨hempty, hbin, hbout⟩ := hk.book b hb
  obtain ⟨hsin, hsout⟩ := hk.shielded s hs
  have hmin := hk.markedIn
  have hmout := hk.markedOut
  rw [hempty] at hmin hmout ⊢
  rw [hbin] at hin
  rw [hbout] at hout
  simp only [inflows, outflows, List.map_nil, List.sum_nil] at hmin hmout
  refine ⟨hk.inOrder, ?_, ?_, nofun, nofun, nofun⟩
  · simp only [inflows, List.map_cons, List.map_nil, List.sum_cons, List.sum_nil]
    omega
  · simp only [outflows, List.map_cons, List.map_nil, List.sum_cons, List.sum_nil]
    omega

/-- What is taken out of the transactions in flight makes room under the totals. -/
theorem KeeperInv.marked_without {k : Keeper} (hk : KeeperInv k) {before after : List (U64 × U64)}
    {x : U64 × U64} (sent : k.inFlight = before ++ x :: after) :
    k.world.book.current.markedIn.val + x.1.val + inflows (before ++ after) ≤
        k.world.vault.totalIn.val + k.world.shielded.base.totalIn.val ∧
      k.world.book.current.markedOut.val + x.2.val + outflows (before ++ after) ≤
        k.world.vault.totalOut.val + k.world.shielded.base.totalOut.val := by
  obtain ⟨hsplitIn, hsplitOut⟩ := flows_split before after x
  have hin := hk.markedIn
  have hout := hk.markedOut
  rw [sent, hsplitIn] at hin
  rw [sent, hsplitOut] at hout
  constructor
  · omega
  · omega

/-- A landed absorb marks at most what it had in flight. -/
theorem KeeperInv.land {rt : Runtime} {k : Keeper} (hk : KeeperInv k)
    {before after : List (U64 × U64)} {inflow outflow : U64} {tx : Tx} {authority : Pubkey}
    {w : World} (sent : k.inFlight = before ++ (inflow, outflow) :: after)
    (run : k.world.step rt (.program tx (.absorb authority inflow outflow)) = .ok w) :
    KeeperInv { k with world := w, inFlight := before ++ after } := by
  have hstep := World.step_ledger run
  obtain ⟨hord, hfwd⟩ := hstep.forward hk.inOrder
  obtain ⟨hmin, hmout⟩ := marks_of_absorb hstep
  obtain ⟨hin, hout⟩ := hk.marked_without sent
  obtain ⟨hvault, hshielded⟩ := hk.reads_forward hfwd
  have htin := hfwd.totalIn
  have htout := hfwd.totalOut
  obtain ⟨hsin, hsout⟩ := hfwd.shielded
  simp only [World.ledger] at hmin hmout htin htout hsin hsout hin hout
  refine ⟨hord, ?_, ?_, hvault, fun b hb => ?_, hshielded⟩
  · simp only
    omega
  · simp only
    omega
  · exact absurd (hb.symm.trans (hk.book_none sent)) (Option.some_ne_none b)

/-- A lost absorb only makes room. -/
theorem KeeperInv.expire {k : Keeper} (hk : KeeperInv k) {before after : List (U64 × U64)}
    {x : U64 × U64} (sent : k.inFlight = before ++ x :: after) :
    KeeperInv { k with inFlight := before ++ after } := by
  obtain ⟨hin, hout⟩ := hk.marked_without sent
  refine ⟨hk.inOrder, ?_, ?_, hk.vault, fun b hb => ?_, hk.shielded⟩
  · simp only
    omega
  · simp only
    omega
  · exact absurd (hb.symm.trans (hk.book_none sent)) (Option.some_ne_none b)

/-- Every step of a careful keeper keeps the invariant. -/
theorem KeeperStep.inv {rt : Runtime} {k k' : Keeper} (hk : KeeperInv k)
    (h : KeeperStep rt Careful k k') : KeeperInv k' := by
  cases h with
  | flow notAbsorb run => exact hk.flow notAbsorb run
  | readVault =>
    refine { hk with vault := ?_ }
    rintro v ⟨rfl⟩
    exact ⟨le_rfl, le_rfl⟩
  | readBook may =>
    refine { hk with book := ?_ }
    rintro b ⟨rfl⟩
    exact ⟨may, rfl, rfl⟩
  | readShielded =>
    refine { hk with shielded := ?_ }
    rintro s ⟨rfl⟩
    exact .refl _
  | send reads hin hout => exact hk.send reads hin hout
  | forget => exact { hk with vault := nofun, book := nofun, shielded := nofun }
  | land sent run => exact hk.land sent run
  | expire sent => exact hk.expire sent

/-- A keeper that reads the book only when no earlier absorb may still land makes the book absorb
each unit of flow at most once: in every state of every run, the marks are within the totals. -/
theorem careful_absorbs_once {rt : Runtime} {authority custodyOwner : Pubkey} {now : ℤ}
    {pools : List.Vector PoolInit poolCount} {k : Keeper}
    (hrun : Relation.ReflTransGen (KeeperStep rt Careful)
      (Keeper.start (World.initial rt authority custodyOwner now pools)) k) :
    k.world.ledger.BookBehind := by
  have hstart : KeeperInv (Keeper.start (World.initial rt authority custodyOwner now pools)) :=
    ⟨World.start_inOrder .., le_rfl, le_rfl, nofun, nofun, nofun⟩
  have hk := Runs.preserves (I := KeeperInv) (fun hk h => h.inv hk) hrun hstart
  have hin := hk.markedIn
  have hout := hk.markedOut
  exact ⟨by simp only [World.ledger]; omega, by simp only [World.ledger]; omega⟩

/-- The absorb of a public deposit. -/
def absorbHundred : Action := .program (.alone [authority] 100) (.absorb authority 100000000 0)

/-- The keeper as deployed, once it has read everything after the deposit. -/
def Keeper.read : Keeper :=
  let w := (World.deployed 800).after deployment publicDeposit
  ⟨w, some w.vault, some w.book.current, some w.shielded.base, []⟩

/-- The deposit happens, and the keeper reads the vault, the book and the aggregate. -/
theorem run_read {mayRead : Keeper → Prop} (hmay : ∀ k, k.inFlight = [] → mayRead k) :
    Relation.ReflTransGen (KeeperStep deployment mayRead)
      (Keeper.start (World.deployed 800)) Keeper.read := by
  refine .head (.flow (a := .program (.alone [user] 100) (.faucet user)) rfl
    (step_after (by decide +kernel))) ?_
  refine .head (.flow (a := .program (.alone [user] 100) (.deposit user 100000000)) rfl
    (step_after (by decide +kernel))) ?_
  exact .head .readVault (.head (.readBook (hmay _ rfl)) (.single .readShielded))

/-- The keeper with nothing read, and absorbs of the deposit in flight. -/
def Keeper.sent (w : World) (count : ℕ) : Keeper :=
  ⟨w, none, none, none, List.replicate count (100000000, 0)⟩

/-- One of the absorbs in flight lands. -/
theorem land_hundred {mayRead : Keeper → Prop} {w : World} {count : ℕ}
    (h : (w.step deployment absorbHundred).isOk = true) :
    KeeperStep deployment mayRead (Keeper.sent w (count + 1))
      (Keeper.sent (w.after deployment [absorbHundred]) count) :=
  .land (show _ = [] ++ (100000000, 0) :: List.replicate count _ from rfl) (step_after h)

/-- What was read after the deposit is sent. -/
theorem send_hundred {mayRead : Keeper → Prop} (count : ℕ) :
    KeeperStep deployment mayRead
      { Keeper.read with inFlight := List.replicate count (100000000, 0) }
      (Keeper.sent Keeper.read.world (count + 1)) :=
  .send ⟨rfl, rfl, rfl⟩ (by decide +kernel) (by decide +kernel)

/-- A careful keeper absorbs that deposit once. -/
theorem careful_absorbs_once_deposit :
    (Keeper.read.world.after deployment [absorbHundred]).ledger.BookBehind :=
  careful_absorbs_once
    (((run_read fun _ h => h).tail (send_hundred 0)).tail (land_hundred (by decide +kernel)))

/-- The loop as it is reads again after an exception, while the absorb that it sent may still land:
both land, and the book has absorbed 200 USDC of the 100 that came in. -/
theorem retry_absorbs_twice :
    ∃ k, Relation.ReflTransGen (KeeperStep deployment fun _ => True)
        (Keeper.start (World.deployed 800)) k ∧ ¬ k.world.ledger.BookBehind := by
  have hfirst := (run_read (fun _ _ => trivial) : Relation.ReflTransGen
    (KeeperStep deployment fun _ => True) _ _).tail (send_hundred 0)
  -- An exception ends the pass without a word about the transaction, and the next one reads again.
  have hretry := (((hfirst.tail .readVault).tail (.readBook trivial)).tail .readShielded).tail
    (send_hundred 1)
  have hland := (hretry.tail (land_hundred (by decide +kernel))).tail
    (land_hundred (by decide +kernel))
  refine ⟨_, hland, ?_⟩
  rintro ⟨hin, -⟩
  exact absurd hin (by decide +kernel)

/-! ## Honest absorbs -/

/-- An absorb stays within what the vault and the committed aggregate took in and paid out. -/
def Ledger.Honest (L : Ledger) : Move → Prop
  | .absorb _ inflow outflow =>
    L.book.current.markedIn.val + inflow.val ≤ L.vault.totalIn.val + L.shielded.base.totalIn.val ∧
      L.book.current.markedOut.val + outflow.val ≤
        L.vault.totalOut.val + L.shielded.base.totalOut.val
  | _ => True

instance (L : Ledger) (m : Move) : Decidable (L.Honest m) :=
  match m with
  | .absorb _ _ _ => inferInstanceAs (Decidable (_ ∧ _))
  | .deposit _ | .redeem _ | .depositPrivate _ | .redeemPrivate _ | .tick _ | .setApr _ _ _
  | .delegateBook | .commitBook | .undelegateBook | .delegateShielded | .commitShielded
  | .undelegateShielded | .other => .isTrue trivial

/-- A step with honest absorbs keeps the live book behind the committed totals. -/
theorem Ledger.Step.behind {L L' : Ledger} {m : Move} (hL : L.InOrder) (hbehind : L.BookBehind)
    (hm : L.Honest m) (h : Ledger.Step L m L') : L'.BookBehind := by
  have hfwd := (h.forward hL).2
  have htotalIn := hfwd.totalIn
  have htotalOut := hfwd.totalOut
  obtain ⟨hshIn, hshOut⟩ := hfwd.shielded
  cases habs : m.isAbsorb with
  | false =>
    -- The marks stay, and the totals that they are behind only grow.
    obtain ⟨hin, hout⟩ := marks_of_not_absorb habs h
    obtain ⟨hbIn, hbOut⟩ := hbehind
    rw [BookBehind, hin, hout]
    omega
  | true =>
    cases m with
    | absorb now inflow outflow =>
      obtain ⟨hin, hout⟩ := marks_of_absorb h
      obtain ⟨hmIn, hmOut⟩ := hm
      exact ⟨by omega, by omega⟩
    | _ => cases habs

/-- A book that is behind prices on both layers: the committed book is behind the live one, and the
live aggregate is ahead of the committed one. -/
theorem Ledger.BookBehind.prices {L : Ledger} (hL : L.InOrder) (h : L.BookBehind) :
    (∃ r, L.pricing = .ok r) ∧ ∃ r, L.livePricing = .ok r := by
  obtain ⟨hin, hout⟩ := h
  obtain ⟨hbIn, hbOut⟩ := hL.book
  obtain ⟨hsIn, hsOut⟩ := hL.shielded
  have hmarkedIn := L.book.base.markedIn.isLt
  have hmarkedOut := L.book.base.markedOut.isLt
  -- A total that saturates is at the top of the range, which no mark exceeds.
  constructor
  · refine navForPricing_accepts.mpr ⟨?_, ?_⟩
    · rw [satAdd_val]
      omega
    · rw [satAdd_val]
      omega
  · refine navForPricing_accepts.mpr ⟨?_, ?_⟩
    · rw [satAdd_val]
      omega
    · rw [satAdd_val]
      omega

/-- In every state of every run whose absorbs are honest when they land, pricing accepts the book on
Solana and in the enclave. -/
theorem honest_absorbs_price {rt : Runtime} {authority custodyOwner : Pubkey} {now : ℤ}
    {pools : List.Vector PoolInit poolCount} {w : World}
    (hrun : Relation.ReflTransGen (StepWith rt fun w a _ => w.ledger.Honest a.move)
      (World.initial rt authority custodyOwner now pools) w) :
    (∃ r, w.ledger.pricing = .ok r) ∧ ∃ r, w.ledger.livePricing = .ok r := by
  have hstart : (World.initial rt authority custodyOwner now pools).ledger.InOrder ∧
      (World.initial rt authority custodyOwner now pools).ledger.BookBehind :=
    ⟨World.start_inOrder .., le_rfl, le_rfl⟩
  obtain ⟨hord, hbehind⟩ := Runs.preserves
    (I := fun w => w.ledger.InOrder ∧ w.ledger.BookBehind)
    (fun hw ⟨_, ha, hm⟩ => ⟨((World.step_ledger ha).forward hw.1).1,
      (World.step_ledger ha).behind hw.1 hw.2 hm⟩)
    hrun hstart
  exact hbehind.prices hord

/-- Public and private deposits, each absorbed once it is committed, a private redemption that the
aggregate has not committed, and a public redemption that the book has not absorbed. -/
def honestFlows : List Action :=
  publicDeposit ++ openPrivate ++ delegatePrivate ++ privateDeposit 200000000 ++
    [.program (.alone [authority] 100) (.delegateBook authority), absorbHundred,
      .program (.alone [authority] 100) (.commitBook authority),
      .program (.alone [authority] 110) (.commitShielded authority),
      .program (.alone [authority] 120) (.absorb authority 200000000 0),
      .program (.alone [authority] 31536120) (.tick authority),
      .program (.alone [positionOwner] 31536130)
        (.redeemPrivate positionOwner positionOwner ⟨60000000, 1, 0, 0, 1⟩),
      .program (.alone [user] 31536140) (.redeem user 30000000),
      .program (.alone [user] 31536150) (.commitBook user)]

/-- Both layers price there, each on its own copy of the aggregate. -/
theorem honest_absorbs_price_flows :
    ((World.deployed 800).after deployment honestFlows).shielded.base.shares ≠
        ((World.deployed 800).after deployment honestFlows).shielded.current.shares ∧
      (∃ r, ((World.deployed 800).after deployment honestFlows).ledger.pricing = .ok r) ∧
      ∃ r, ((World.deployed 800).after deployment honestFlows).ledger.livePricing = .ok r :=
  ⟨by decide +kernel, honest_absorbs_price (run_of_replays (by decide +kernel))⟩

end Agama
