import Agama.Keeper
import Agama.Solvency

/-!
# Settlement

What the keeper's loop is for (`scripts/keeper.ts`): that Solana prices on what the rollup has
marked. One iteration absorbs what the custodies have taken in and paid out, ticks, commits the
book, and then takes a step of the `PrivateKeeper`, which pays the exits before it commits the
aggregate; each of these when its turn has come. What an iteration throws is logged, so the loop
goes on whatever the network does. Where nobody else acts and everything arrives in time, the
aggregate is published first, then its flow is absorbed, and then the book is published: after as
many iterations as it takes each of the three to come round, Solana prices on the rollup's own NAV.
-/

namespace Agama

open Script

/-! ## The loop -/

/-- How many iterations lie between two turns of a kind, and the grace of a ticket: `ABSORB_EVERY`,
`COMMIT_EVERY`, `SHIELDED_COMMIT_EVERY`, `EXITS_EVERY`, `SPONSOR_EVERY` and `EXIT_GRACE_S`. -/
structure Cadence where
  absorbEvery : ℕ+
  commitEvery : ℕ+
  shieldedCommitEvery : ℕ+
  exitsEvery : ℕ+
  sponsorEvery : ℕ+
  exitGraceS : ℤ

/-- What they are where the environment sets no other. -/
def Cadence.usual : Cadence := ⟨15, 600, 600, 5, 300, Agama.exitGraceS⟩

/-- The accounts, with what `main` and its `PrivateKeeper` count and note. -/
structure KeeperLoop where
  accounts : Delegations
  n : ℕ
  commits : ℕ
  privAt : ℕ
  privCommits : ℕ
  seen : Seen

/-- A script of the keeper, with its counts. -/
abbrev LoopScript : Type → Type := Script ℤ KeeperLoop SendError

/-- `BN.max(total.sub(marked), 0)`, where it is a `u64`. -/
def outstanding (total marked : ℕ) : Option U64 :=
  if h : total - marked < 2^64 then some ⟨total - marked, h⟩ else none

/-- Absorb what Solana has taken and the book has not marked, on the committed aggregate. -/
def absorbOutstanding (rt : Runtime) (wallet : Pubkey) : KeeperScript Unit := do
  let v ← read .timedOut fun x : Delegations => x.world.vault
  let b ← read .timedOut fun x : Delegations => x.world.book.current
  let s ← read .timedOut fun x : Delegations => x.world.shielded.base
  match outstanding (v.totalIn.val + s.totalIn.val) b.markedIn.val,
    outstanding (v.totalOut.val + s.totalOut.val) b.markedOut.val with
  | some inflow, some outflow =>
    if inflow = 0 ∧ outflow = 0 then pure ()
    else send .timedOut (request rt wallet (.absorb wallet inflow outflow))
  -- An argument that does not fit is not sent.
  | _, _ => throw (.failed .external)

/-- The transaction that pays a ticket, as a request. -/
def payment (queue : QueueProgram) (k : PrivateKeeper) (rt : Runtime) (e : Exit) (now : ℤ)
    (x : Delegations) : Except SendError Delegations :=
  match x.world.payExit queue k rt now e with
  | .ok world => .ok { x with world }
  | .error f => .error (.failed f)

namespace KeeperLoop

/-- A script on the accounts. -/
def onAccounts {α : Type} (m : KeeperScript α) : LoopScript α :=
  zoom accounts (fun s x => { s with accounts := x }) m

/-- What is done whenever a count is a multiple of `every`. -/
def atTurn (count : KeeperLoop → ℕ) (every : ℕ) (m : LoopScript Unit) : LoopScript Unit := do
  if (← look count) % every = 0 then m else pure ()

section Duties

variable (c : Cadence) (queue : QueueProgram) (k : PrivateKeeper) (rt : Runtime)

/-- The absorb. -/
def absorbDuty : LoopScript Unit :=
  atTurn n c.absorbEvery (onAccounts (absorbOutstanding rt k.authority))

/-- The tick, which nobody waits for. -/
def tickDuty : LoopScript Unit := do
  onAccounts (fire .timedOut (request rt k.authority (.tick k.authority)))
  change fun s => { s with n := s.n + 1 }

/-- The look at the book, for the log. -/
def logDuty : LoopScript Unit := atTurn n 25 (wait .timedOut)

/-- The commit of the book. -/
def commitDuty : LoopScript Unit :=
  atTurn n c.commitEvery do
    let counted ← look commits
    let commits ← onAccounts (bookLane.turn rt k.authority counted)
    change fun s => { s with commits }

/-- What `main` tries first in an iteration. -/
def bookDuties : LoopScript Unit := do
  absorbDuty c k rt
  tickDuty k rt
  logDuty
  commitDuty c k rt

/-- What becomes of its failure: a recycle that did not finish is finished, if it can be. -/
def recover : SendError → LoopScript Unit
  | .notDelegated =>
    tryCatch (do
      let commits ← onAccounts (bookLane.recycleAnew rt k.authority)
      change fun s => { s with commits })
    fun _ => pure ()
  | _ => pure ()

/-- The loop of `payExits` over the open tickets, at the time `now` of the keeper's own clock. -/
def payOpen (now : ℤ) : List Exit → LoopScript Unit
  | [] => pure ()
  | e :: es => do
    change fun s => { s with seen := s.seen.note e.groupId now }
    let s ← look id
    if s.seen.inGrace c.exitGraceS now e.groupId then payOpen now es
    else
      onAccounts (send .timedOut (payment queue k rt e))
      payOpen now es

/-- `payExits`. -/
def exitsDuty (now : ℤ) : LoopScript Unit :=
  atTurn privAt c.exitsEvery do
    let book ← read .timedOut fun s : KeeperLoop => s.accounts.world.exits.current
    let opened := book.slots.toList.filter Exit.isOpen
    change fun s => { s with seen := s.seen.prune opened }
    payOpen c queue k rt now opened

/-- The commit of the aggregate. -/
def shieldedDuty : LoopScript Unit :=
  atTurn privAt c.shieldedCommitEvery do
    let counted ← look privCommits
    let privCommits ← onAccounts (shieldedLane.turn rt k.authority counted)
    change fun s => { s with privCommits }

/-- `refillSponsor`, which moves lamports only. -/
def sponsorDuty : LoopScript Unit := atTurn privAt c.sponsorEvery (wait .timedOut)

/-- `PrivateKeeper.step`, at its next count. -/
def privateStep (now : ℤ) : LoopScript Unit := do
  change fun s => { s with privAt := s.privAt + 1 }
  exitsDuty c queue k rt now
  shieldedDuty c k rt
  sponsorDuty c

/-- One iteration of `main`'s loop, in which `Date.now()` is `now`. -/
def iteration (now : ℤ) : LoopScript Unit := do
  tryCatch (bookDuties c k rt) (recover k rt)
  tryCatch (privateStep c queue k rt now) fun _ => pure ()

/-- As many iterations as `count` says, in which `Date.now()` is what `dates` says. -/
def iterations (dates : ℕ → ℤ) (count : ℕ) : LoopScript Unit :=
  repeatFrom (fun i => iteration c queue k rt (dates i)) 0 count

end Duties

end KeeperLoop

/-- Whatever the network does, the loop goes on. -/
theorem KeeperLoop.returns_iterations (c : Cadence) (queue : QueueProgram) (k : PrivateKeeper)
    (rt : Runtime) (dates : ℕ → ℤ) (count : ℕ) : Returns (iterations c queue k rt dates count) := by
  refine returns_repeatFrom (fun i => Returns.bind (returns_tryCatch fun e => ?_) fun _ =>
    returns_tryCatch fun _ => returns_pure _) 0 count
  cases e with
  | notDelegated => exact returns_tryCatch fun _ => returns_pure _
  | limit | failed | timedOut => exact returns_pure _

/-! ## The script and the pass -/

namespace KeeperLoop

/-- The state as a pass of `payExits` leaves it. -/
def passed (s : KeeperLoop) (e : PassEnd World) : KeeperLoop :=
  { s with accounts := { s.accounts with world := e.state }, seen := e.seen }

/-- Where everything arrives at once, a payment does what the program makes of it, or throws. -/
theorem payment_atOnce (queue : QueueProgram) (k : PrivateKeeper) (rt : Runtime) (ts : ℤ) (e : Exit)
    (s : KeeperLoop) : onAccounts (send .timedOut (payment queue k rt e)) (s, Net.atOnce ts) =
      match s.accounts.world.payExit queue k rt ts e with
      | .ok w => .ok () ({ s with accounts := { s.accounts with world := w } }, Net.atOnce ts)
      | .error f => .error (.failed f) (s, Net.atOnce ts) := by
  unfold onAccounts zoom
  dsimp only
  rw [send_apply rfl rfl, payment]
  dsimp only [Net.atOnce]
  cases s.accounts.world.payExit queue k rt ts e <;> rfl

/-- There the script's loop is `payLoop`. -/
theorem payOpen_atOnce (c : Cadence) (queue : QueueProgram) (k : PrivateKeeper) (rt : Runtime)
    (now ts : ℤ) (es : List Exit) (s : KeeperLoop) :
    let pass := payLoop c.exitGraceS now (fun w e => w.payExit queue k rt ts e) s.seen
      s.accounts.world es
    let run := payOpen c queue k rt now es (s, Net.atOnce ts)
    final run = (s.passed pass, Net.atOnce ts) ∧ threw run = pass.threw := by
  induction es generalizing s with
  | nil => exact ⟨rfl, rfl⟩
  | cons e es ih =>
    intro pass run
    let noted : KeeperLoop := { s with seen := s.seen.note e.groupId now }
    have hrun : run = (if noted.seen.inGrace c.exitGraceS now e.groupId then
        payOpen c queue k rt now es else do
          onAccounts (send .timedOut (payment queue k rt e))
          payOpen c queue k rt now es) (noted, Net.atOnce ts) := rfl
    have hpass : pass = if noted.seen.inGrace c.exitGraceS now e.groupId then
        payLoop c.exitGraceS now (fun w e => w.payExit queue k rt ts e) noted.seen
          s.accounts.world es
      else match s.accounts.world.payExit queue k rt ts e with
        | .ok w => payLoop c.exitGraceS now (fun w e => w.payExit queue k rt ts e) noted.seen w es
        | .error _ => ⟨noted.seen, s.accounts.world, true⟩ := by
      simp only [pass, payLoop]
      split
      · rfl
      · cases s.accounts.world.payExit queue k rt ts e <;> rfl
    rw [hrun, hpass]
    split
    · exact ih noted
    · rw [bind_apply, payment_atOnce]
      change _ ∧ _
      cases s.accounts.world.payExit queue k rt ts e with
      | ok w => exact ih { noted with accounts := { s.accounts with world := w } }
      | error f => exact ⟨rfl, rfl⟩

/-- And at its turn the keeper makes a pass of `payExits` over the exit book. -/
theorem exitsDuty_atOnce (c : Cadence) (queue : QueueProgram) (k : PrivateKeeper) (rt : Runtime)
    (now ts : ℤ) (s : KeeperLoop) (hturn : s.privAt % c.exitsEvery = 0) :
    let pass := payExits c.exitGraceS (fun w e => w.payExit queue k rt ts e) s.seen
      s.accounts.world s.accounts.world.exits.current now
    let run := exitsDuty c queue k rt now (s, Net.atOnce ts)
    final run = (s.passed pass, Net.atOnce ts) ∧ threw run = pass.threw := by
  intro pass run
  let opened := s.accounts.world.exits.current.slots.toList.filter Exit.isOpen
  have hrun : run = payOpen c queue k rt now opened
      ({ s with seen := s.seen.prune opened }, Net.atOnce ts) := by
    change (if s.privAt % c.exitsEvery = 0 then _ else _ : LoopScript Unit) (s, Net.atOnce ts) = _
    rw [if_pos hturn]
    rfl
  rw [hrun]
  exact payOpen_atOnce c queue k rt now ts opened { s with seen := s.seen.prune opened }

end KeeperLoop

/-! ## What the keeper keeps -/

/-- Everything that came in and went out is marked. -/
def PoolBook.Marks (b : PoolBook) (v : Vault) (s : Shielded) : Prop :=
  b.markedIn.val = v.totalIn.val + s.totalIn.val ∧ b.markedOut.val = v.totalOut.val + s.totalOut.val

/-- A book that has everything marked prices at its own NAV. -/
theorem PoolBook.Marks.price {b : PoolBook} {v : Vault} {s : Shielded} (h : b.Marks v s) :
    navForPricing v b s = .ok (b.nav, satAdd v.shares s.shares) := by
  obtain ⟨hin, hout⟩ := h
  have hinFits := b.markedIn.isLt
  have houtFits := b.markedOut.isLt
  have hnav : satSub (satAdd b.nav (satSub (satAdd v.totalIn s.totalIn) b.markedIn))
      (satSub (satAdd v.totalOut s.totalOut) b.markedOut) = b.nav := by
    apply Fin.ext
    simp only [satSub_val, satAdd_val]
    have := b.nav.isLt
    omega
  rw [navForPricing_eq_ok, hnav]
  refine ⟨⟨?_, ?_⟩, rfl⟩
  all_goals
    rw [satAdd_val]
    omega

/-- The book is as it was, or ticked. -/
def Ticked (b b' : PoolBook) : Prop := b' = b ∨ ∃ now, InClock now ∧ tick b now = .ok b'

/-- A tick marks no flow. -/
theorem Ticked.spec {b b' : PoolBook} (h : Ticked b b') (hb : InClock b.lastTs) :
    InClock b'.lastTs ∧ b'.authority = b.authority ∧ b'.markedIn = b.markedIn ∧
      b'.markedOut = b.markedOut := by
  rcases h with rfl | ⟨now, hnow, htick⟩
  · exact ⟨hb, rfl, rfl, rfl⟩
  · have hspec := tick_spec htick
    exact ⟨(tick_advanced htick).lastTs ▸ hnow, hspec.authority, hspec.markedIn, hspec.markedOut⟩

/-- The totals of both custodies fit a `u64` together. -/
structure Fits (v : Vault) (a : Shielded) : Prop where
  totalIn : v.totalIn.val + a.totalIn.val < 2^64
  totalOut : v.totalOut.val + a.totalOut.val < 2^64

/-- Accounts that the keeper can tend, of which nobody else moves the vault `v` and the live
aggregate `a`: the book and the aggregate are delegated, the marks are behind the committed totals
and these behind the live ones, and the queue takes the open tickets. -/
structure World.Tended (queue : QueueProgram) (k : PrivateKeeper) (rt : Runtime) (v : Vault)
    (a : Shielded) (w : World) : Prop where
  vault : w.vault = v
  shielded : w.shielded.current = a
  shieldedLive : w.shielded.live ≠ none
  bookLive : w.book.live ≠ none
  lastTs : InClock w.book.current.lastTs
  authority : w.book.current.authority = k.authority
  inflow : w.book.current.markedIn.val ≤ v.totalIn.val + w.shielded.base.totalIn.val
  outflow : w.book.current.markedOut.val ≤ v.totalOut.val + w.shielded.base.totalOut.val
  committedIn : w.shielded.base.totalIn.val ≤ a.totalIn.val
  committedOut : w.shielded.base.totalOut.val ≤ a.totalOut.val
  payable : Payable k rt w
  exitsLive : w.exits.live ≠ none
  takes : queue.Takes k rt w.obligations.tickets

/-- How far the keeper has come. -/
inductive Stage
  | start
  /-- Solana has the live aggregate. -/
  | published
  /-- The rollup's book has marked everything. -/
  | absorbed
  /-- So has Solana's, which is at its own value. -/
  | settled

/-- A stage is reached. -/
def World.Reached (v : Vault) (a : Shielded) (w : World) : Stage → Prop
  | .start => True
  | .published => w.shielded.base = a
  | .absorbed => w.shielded.base = a ∧ w.book.current.Marks v a
  | .settled => w.shielded.base = a ∧ w.book.current.Marks v a ∧ w.book.base.Marks v a ∧
      w.book.base.nav = w.book.base.markedValue

/-- What the keeper does undoes nothing. -/
structure World.Onward (queue : QueueProgram) (k : PrivateKeeper) (rt : Runtime) (v : Vault)
    (a : Shielded) (w w' : World) : Prop where
  tended : w'.Tended queue k rt v a
  reached : ∀ stage, w.Reached v a stage → w'.Reached v a stage

section Tended

variable {queue : QueueProgram} {k : PrivateKeeper} {rt : Runtime} {v : Vault} {a : Shielded}
  {w w' w'' : World}

/-- Doing nothing undoes nothing. -/
theorem World.Tended.onward (h : w.Tended queue k rt v a) : w.Onward queue k rt v a w :=
  ⟨h, fun _ hw => hw⟩

/-- Nor do two steps that undo nothing. -/
theorem World.Onward.trans (h : w.Onward queue k rt v a w') (h' : w'.Onward queue k rt v a w'') :
    w.Onward queue k rt v a w'' :=
  ⟨h'.tended, fun stage hw => h'.reached stage (h.reached stage hw)⟩

/-- The accounts stay tended under another book that is as good. -/
theorem World.Tended.withBook (h : w.Tended queue k rt v a) {d : Delegable PoolBook}
    (hlive : d.live ≠ none) (hlastTs : InClock d.current.lastTs)
    (hauthority : d.current.authority = k.authority)
    (hinflow : d.current.markedIn.val ≤ v.totalIn.val + w.shielded.base.totalIn.val)
    (houtflow : d.current.markedOut.val ≤ v.totalOut.val + w.shielded.base.totalOut.val) :
    World.Tended queue k rt v a { w with book := d } :=
  { h with
    bookLive := hlive
    lastTs := hlastTs
    authority := hauthority
    inflow := hinflow
    outflow := houtflow
    payable := { h.payable with } }

/-- What a write to the live book must keep to undo nothing. -/
theorem World.Tended.storeBook (h : w.Tended queue k rt v a) {b : PoolBook}
    (hlastTs : InClock b.lastTs) (hauthority : b.authority = k.authority)
    (hinflow : b.markedIn.val ≤ v.totalIn.val + w.shielded.base.totalIn.val)
    (houtflow : b.markedOut.val ≤ v.totalOut.val + w.shielded.base.totalOut.val)
    (hmarks : w.Reached v a .absorbed → b.Marks v a) :
    w.Onward queue k rt v a (w.storeBook b) := by
  rw [World.storeBook, Delegable.write_of_live b h.bookLive]
  refine ⟨h.withBook (Option.some_ne_none b) hlastTs hauthority hinflow houtflow, ?_⟩
  rintro (_ | _ | _ | _) hw
  · trivial
  · exact hw
  · exact ⟨hw.1, hmarks hw⟩
  · exact ⟨hw.1, hmarks ⟨hw.1, hw.2.1⟩, hw.2.2⟩

/-- A ticked book has marked what it had. -/
theorem PoolBook.Marks.ticked {b b' : PoolBook} {s : Shielded} (h : b.Marks v s)
    (hticked : Ticked b b') (hb : InClock b.lastTs) : b'.Marks v s := by
  obtain ⟨-, -, hin, hout⟩ := hticked.spec hb
  rw [PoolBook.Marks, hin, hout]
  exact h

end Tended

/-! ## What the duties do to the accounts -/

/-- What is outstanding is a `u64` when the total is. -/
theorem exists_outstanding {total : ℕ} (h : total < 2^64) (marked : ℕ) :
    ∃ d, outstanding total marked = some d ∧ d.val = total - marked :=
  ⟨_, dif_pos (by omega), rfl⟩

/-- A book can absorb anything, and is left at the reading of the clock. -/
theorem exists_absorb {b : PoolBook} {now : ℤ} (hb : InClock b.lastTs) (hnow : InClock now)
    (inflow outflow : U64) : ∃ r, absorb b now inflow outflow = .ok r ∧ r.1.lastTs = now := by
  obtain ⟨c, hc⟩ := exists_accrue hb hnow
  have hr : ∃ r, absorb b now inflow outflow = .ok r := ⟨_, by rw [absorb, hc]; rfl⟩
  obtain ⟨r, hr⟩ := hr
  have happly : b.apply (.absorb now inflow outflow) = .ok r.1 := by
    rw [PoolBook.apply, hr]
    rfl
  exact ⟨r, hr, (apply_advanced happly).lastTs⟩

section Accounts

variable {queue : QueueProgram} {k : PrivateKeeper} {rt : Runtime} {v : Vault} {a : Shielded}
  {x : Delegations}

/-- An absorb of the book's authority takes effect. -/
theorem send_absorb {wallet : Pubkey} {now : ℤ} (hwallet : wallet = x.world.book.current.authority)
    (hlastTs : InClock x.world.book.current.lastTs) (hnow : InClock now) (inflow outflow : U64) :
    ∃ b, x.send rt wallet now (.absorb wallet inflow outflow) =
        .ok { x with world := x.world.storeBook b } ∧
      b.lastTs = now ∧ b.authority = x.world.book.current.authority ∧
      b.markedIn = satAdd x.world.book.current.markedIn inflow ∧
      b.markedOut = satAdd x.world.book.current.markedOut outflow := by
  obtain ⟨r, hr, hleft⟩ := exists_absorb hlastTs hnow inflow outflow
  obtain ⟨hauthority, hmarkedIn, hmarkedOut, -⟩ := absorb_marks hr
  refine ⟨r.1, Delegations.send_of_exec ?_, hleft, hauthority, hmarkedIn, hmarkedOut⟩
  simp only [World.exec, World.bookAuthoritySigns, bind_eq_ok, World.signs_eq_ok,
    require_eq_ok, pure_eq_ok]
  exact ⟨(), ⟨(), List.mem_singleton_self wallet, hwallet⟩, r, hr, rfl⟩

/-- The absorb marks what the vault and the committed aggregate hold, all there is once that is the
live one. -/
theorem absorb_delivers (hfits : Fits v a) (h : x.world.Tended queue k rt v a) :
    Delivers InClock (absorbOutstanding rt k.authority) x fun _ y =>
      x.world.Onward queue k rt v a y.world ∧
        (x.world.shielded.base = a → y.world.book.current.Marks v a) := by
  have hbehindIn := h.inflow
  have hbehindOut := h.outflow
  have hinFits := (Nat.add_le_add_left h.committedIn v.totalIn.val).trans_lt hfits.totalIn
  have houtFits := (Nat.add_le_add_left h.committedOut v.totalOut.val).trans_lt hfits.totalOut
  obtain ⟨inflow, hinflow, hin⟩ :=
    exists_outstanding hinFits x.world.book.current.markedIn.val
  obtain ⟨outflow, houtflow, hout⟩ :=
    exists_outstanding houtFits x.world.book.current.markedOut.val
  refine delivers_read (delivers_read (delivers_read ?_))
  rw [h.vault, hinflow, houtflow]
  dsimp only
  split
  · -- Nothing is outstanding.
    rename_i hzero
    simp only [Fin.ext_iff, Fin.val_zero] at hzero
    refine delivers_pure ⟨h.onward, fun hbase => ⟨?_, ?_⟩⟩
    all_goals
      rw [hbase] at hin hout hbehindIn hbehindOut
      omega
  · refine delivers_send fun now hnow => ?_
    obtain ⟨b, hsend, hlastTs, hauthority, hmarkedIn, hmarkedOut⟩ :=
      @send_absorb rt x k.authority now h.authority.symm h.lastTs hnow inflow outflow
    refine ⟨_, hsend, ?_⟩
    have hmarks : b.Marks v x.world.shielded.base := by
      constructor
      · rw [hmarkedIn, satAdd_val]
        omega
      · rw [hmarkedOut, satAdd_val]
        omega
    refine ⟨h.storeBook (hlastTs ▸ hnow) (hauthority.trans h.authority) hmarks.1.le hmarks.2.le
      fun hw => hw.1 ▸ hmarks, fun hbase => ?_⟩
    change (x.world.book.write b).current.Marks v a
    rw [Delegable.current_write]
    exact hbase ▸ hmarks

/-- The tick leaves the book at its own value. -/
theorem tick_delivers (h : x.world.Tended queue k rt v a) :
    Delivers InClock (fire .timedOut (request rt k.authority (.tick k.authority))) x fun _ y =>
      x.world.Onward queue k rt v a y.world ∧
        y.world.book.current.nav = y.world.book.current.markedValue := by
  refine delivers_fire fun now hnow => ?_
  obtain ⟨b, hb⟩ := exists_tick h.lastTs hnow
  have hticked : Ticked x.world.book.current b := .inr ⟨now, hnow, hb⟩
  obtain ⟨hlastTs, hauthority, hin, hout⟩ := hticked.spec h.lastTs
  refine ⟨_, Delegations.send_tick hb, h.storeBook hlastTs (hauthority.trans h.authority)
    (hin ▸ h.inflow) (hout ▸ h.outflow) fun hw => hw.2.ticked hticked h.lastTs, ?_⟩
  change (x.world.book.write b).current.nav = (x.world.book.write b).current.markedValue
  rw [Delegable.current_write]
  exact (tick_spec hb).nav

/-- The commit of a book that is at its own value, and has absorbed everything, settles it. -/
theorem commitBook_delivers (h : x.world.Tended queue k rt v a)
    (hnav : x.world.book.current.nav = x.world.book.current.markedValue) (commits : ℕ) :
    Delivers InClock (bookLane.turn rt k.authority commits) x fun _ y =>
      x.world.Onward queue k rt v a y.world ∧
        (x.world.Reached v a .absorbed → y.world.Reached v a .settled) := by
  refine (bookLane_turn h.payable.authority.symm h.bookLive h.lastTs commits).mono fun _ y hy => ?_
  obtain ⟨s, rfl, hbase, hlive⟩ := hy
  have hticked : s.copy.live ≠ none ∧ Ticked x.world.book.current s.copy.current := by
    have hcurrent {b : PoolBook} (hb : s.copy.live = some b) : s.copy.current = b := by
      rw [Delegable.current, hb, Option.getD_some]
    rcases hlive with hlive | ⟨-, now, b, hnow, hb, hlive⟩
    · exact ⟨hlive ▸ Option.some_ne_none _, .inl (hcurrent hlive)⟩
    · exact ⟨hlive ▸ Option.some_ne_none _, .inr ⟨now, hnow, (hcurrent hlive).symm ▸ hb⟩⟩
  obtain ⟨hlastTs, hauthority, hin, hout⟩ := hticked.2.spec h.lastTs
  have hsettled : x.world.Reached v a .absorbed → (x.putBook s).world.Reached v a .settled :=
    fun hw => ⟨hw.1, hw.2.ticked hticked.2 h.lastTs, hbase ▸ hw.2, hbase ▸ hnav⟩
  refine ⟨⟨h.withBook hticked.1 hlastTs (hauthority.trans h.authority) (hin ▸ h.inflow)
    (hout ▸ h.outflow), ?_⟩, hsettled⟩
  rintro (_ | _ | _ | _) hw
  · trivial
  · exact hw
  · exact ⟨hw.1, (hsettled hw).2.1⟩
  · exact hsettled ⟨hw.1, hw.2.1⟩

/-- The commit of the aggregate publishes it. -/
theorem commitShielded_delivers (h : x.world.Tended queue k rt v a) (commits : ℕ) :
    Delivers InClock (shieldedLane.turn rt k.authority commits) x fun _ y =>
      x.world.Onward queue k rt v a y.world ∧ y.world.Reached v a .published := by
  refine (shieldedLane_turn h.payable.authority.symm h.shieldedLive commits).mono fun _ y hy => ?_
  obtain ⟨hshielded, hvault, hbook, hexits, -, husdc⟩ := hy.spec
  rw [h.shielded] at hshielded
  have hcurrent : y.world.shielded.current = x.world.shielded.current := by
    rw [hshielded, h.shielded]
    rfl
  have hobligations : y.world.obligations = x.world.obligations := by
    rw [World.obligations, World.obligations, hcurrent, hexits]
  have hpayable : Payable k rt y.world := by
    obtain ⟨hmint, howner, hauthority, hsolvent, hholds⟩ := h.payable
    exact ⟨hvault ▸ hmint, hcurrent ▸ howner, hvault ▸ hauthority, hobligations ▸ hsolvent,
      by rwa [hobligations, husdc]⟩
  have hbase : y.world.shielded.base = a := by rw [hshielded]
  have hin := h.inflow.trans (Nat.add_le_add_left h.committedIn _)
  have hout := h.outflow.trans (Nat.add_le_add_left h.committedOut _)
  refine ⟨⟨⟨hvault.trans h.vault, hcurrent.trans h.shielded, ?_, hbook ▸ h.bookLive,
    hbook ▸ h.lastTs, hbook ▸ h.authority, ?_, ?_, hbase ▸ le_rfl, hbase ▸ le_rfl, hpayable,
    hexits ▸ h.exitsLive, hobligations ▸ h.takes⟩, ?_⟩, hbase⟩
  · rw [hshielded]
    exact Option.some_ne_none a
  · rwa [hbook, hbase]
  · rwa [hbook, hbase]
  · rintro (_ | _ | _ | _) hw
    · trivial
    · exact hbase
    · exact ⟨hbase, hbook ▸ hw.2⟩
    · exact ⟨hbase, hbook ▸ hw.2⟩

/-- The payment of an open ticket goes through, and leaves the other ones open. -/
theorem payment_delivers (hqueue : queue.Debits) (h : x.world.Tended queue k rt v a) {e : Exit}
    (he : e ∈ x.world.obligations.tickets) :
    Delivers InClock (send .timedOut (payment queue k rt e)) x fun _ y =>
      x.world.Onward queue k rt v a y.world ∧
        (e :: y.world.obligations.tickets).Perm x.world.obligations.tickets := by
  refine delivers_send fun now _ => ?_
  obtain ⟨b, hb⟩ := h.takes e he _ (h.payable.ticket he)
  obtain ⟨exits, hpay, hlive⟩ := h.payable.exists_pay h.exitsLive he now hb
  obtain ⟨hpayable, hperm, -⟩ := h.payable.pay hqueue hpay
  refine ⟨{ x with world := { x.world with privateUsdc := b, exits } }, by rw [payment, hpay], ?_,
    hperm⟩
  refine ⟨{ h with payable := hpayable, exitsLive := hlive, takes := fun e' he' => ?_ }, ?_⟩
  · exact h.takes e' (hperm.mem_iff.mp (List.mem_cons_of_mem _ he'))
  · rintro (_ | _ | _ | _) hw <;> exact hw

end Accounts

/-! ## What an iteration comes to -/

/-- A part of an iteration undoes nothing, and counts nothing. -/
structure KeeperLoop.Onward (queue : QueueProgram) (k : PrivateKeeper) (rt : Runtime) (v : Vault)
    (a : Shielded) (s s' : KeeperLoop) : Prop where
  world : s.accounts.world.Onward queue k rt v a s'.accounts.world
  n : s'.n = s.n
  privAt : s'.privAt = s.privAt

namespace KeeperLoop

section Duties

variable {c : Cadence} {queue : QueueProgram} {k : PrivateKeeper} {rt : Runtime} {v : Vault}
  {a : Shielded} {s s' s'' : KeeperLoop}

/-- One part after the other. -/
theorem Onward.trans (h : s.Onward queue k rt v a s') (h' : s'.Onward queue k rt v a s'') :
    s.Onward queue k rt v a s'' :=
  ⟨h.world.trans h'.world, h'.n.trans h.n, h'.privAt.trans h.privAt⟩

/-- What comes of a turn, if it comes. -/
theorem atTurn_delivers {count : KeeperLoop → ℕ} {every : ℕ} {m : LoopScript Unit} {T : ℤ → Prop}
    {P : KeeperLoop → Prop} (hturn : count s % every = 0 → Delivers T m s fun _ s' => P s')
    (helse : ¬ count s % every = 0 → P s) :
    Delivers T (atTurn count every m) s fun _ s' => P s' := by
  refine delivers_look ?_
  split
  · rename_i h
    exact hturn h
  · rename_i h
    exact delivers_pure (helse h)

/-- The absorb, at its turn, marks everything that is published. -/
theorem absorbDuty_delivers (hfits : Fits v a) (h : s.accounts.world.Tended queue k rt v a) :
    Delivers InClock (absorbDuty c k rt) s fun _ s' => s.Onward queue k rt v a s' ∧
      (s.n % c.absorbEvery = 0 → s.accounts.world.Reached v a .published →
        s'.accounts.world.Reached v a .absorbed) := by
  refine atTurn_delivers (fun _ => ?_) fun hn => ⟨⟨h.onward, rfl, rfl⟩, fun hn' => absurd hn' hn⟩
  refine (absorb_delivers hfits h).zoom.mono fun _ s' hs' => ?_
  obtain ⟨x, ⟨honward, hmarks⟩, rfl⟩ := hs'
  exact ⟨⟨honward, rfl, rfl⟩, fun _ hw => ⟨honward.reached .published hw, hmarks hw⟩⟩

/-- The tick is counted, and leaves the book at its own value. -/
theorem tickDuty_delivers (h : s.accounts.world.Tended queue k rt v a) :
    Delivers InClock (tickDuty k rt) s fun _ s' =>
      s.accounts.world.Onward queue k rt v a s'.accounts.world ∧
        s'.accounts.world.book.current.nav = s'.accounts.world.book.current.markedValue ∧
        s'.n = s.n + 1 ∧ s'.privAt = s.privAt := by
  refine (tick_delivers h).zoom.bind fun _ s' hs' => ?_
  obtain ⟨x, ⟨honward, hnav⟩, rfl⟩ := hs'
  refine (delivers_change _).mono fun _ s' hs' => ?_
  subst hs'
  exact ⟨honward, hnav, rfl, rfl⟩

/-- The log changes nothing. -/
theorem logDuty_delivers : Delivers InClock logDuty s fun _ s' => s' = s :=
  atTurn_delivers (fun _ => delivers_wait) fun _ => rfl

/-- The commit of the book, at its turn, settles what is absorbed. -/
theorem commitDuty_delivers (h : s.accounts.world.Tended queue k rt v a)
    (hnav : s.accounts.world.book.current.nav = s.accounts.world.book.current.markedValue) :
    Delivers InClock (commitDuty c k rt) s fun _ s' => s.Onward queue k rt v a s' ∧
      (s.n % c.commitEvery = 0 → s.accounts.world.Reached v a .absorbed →
        s'.accounts.world.Reached v a .settled) := by
  refine atTurn_delivers (fun _ => delivers_look ?_) fun hn =>
    ⟨⟨h.onward, rfl, rfl⟩, fun hn' => absurd hn' hn⟩
  refine (commitBook_delivers h hnav s.commits).zoom.bind fun _ s' hs' => ?_
  obtain ⟨x, ⟨honward, hsettled⟩, rfl⟩ := hs'
  refine (delivers_change _).mono fun _ s' hs' => ?_
  subst hs'
  exact ⟨⟨honward, rfl, rfl⟩, fun _ hw => hsettled hw⟩

/-- The loop over open tickets pays those that are due. -/
theorem payOpen_delivers (hqueue : queue.Debits) (now : ℤ) {es : List Exit}
    (h : s.accounts.world.Tended queue k rt v a)
    (hes : es.Subperm s.accounts.world.obligations.tickets) :
    Delivers InClock (payOpen c queue k rt now es) s fun _ s' => s.Onward queue k rt v a s' := by
  induction es generalizing s with
  | nil => exact delivers_pure ⟨h.onward, rfl, rfl⟩
  | cons e es ih =>
    refine (delivers_change _).bind fun _ s₁ hs₁ => ?_
    subst hs₁
    refine delivers_look ?_
    split
    · have hrest := (List.sublist_cons_self e es).subperm.trans hes
      exact Delivers.mono (ih h hrest) fun _ s' hs' => ⟨hs'.world, hs'.n, hs'.privAt⟩
    · have he := hes.subset List.mem_cons_self
      refine Delivers.bind (Delivers.zoom (payment_delivers hqueue h he)) fun _ s₁ hs₁ => ?_
      obtain ⟨x, ⟨honward, hperm⟩, rfl⟩ := hs₁
      -- What is left to pay is open after the first payment.
      have hrest : es.Subperm x.world.obligations.tickets :=
        (List.subperm_cons e).mp (hes.trans hperm.symm.subperm)
      exact Delivers.mono (ih honward.tended hrest) fun _ s' hs' =>
        ⟨honward.trans hs'.world, hs'.n, hs'.privAt⟩

/-- Paying the exits undoes nothing. -/
theorem exitsDuty_delivers (hqueue : queue.Debits) (now : ℤ)
    (h : s.accounts.world.Tended queue k rt v a) :
    Delivers InClock (exitsDuty c queue k rt now) s fun _ s' => s.Onward queue k rt v a s' := by
  refine atTurn_delivers (fun _ => delivers_read ?_) fun _ => ⟨h.onward, rfl, rfl⟩
  refine (delivers_change _).bind fun _ s₁ hs₁ => ?_
  subst hs₁
  exact Delivers.mono (payOpen_delivers hqueue now h (List.Subperm.refl _)) fun _ s' hs' =>
    ⟨hs'.world, hs'.n, hs'.privAt⟩

/-- The commit of the aggregate, at its turn, publishes it. -/
theorem shieldedDuty_delivers (h : s.accounts.world.Tended queue k rt v a) :
    Delivers InClock (shieldedDuty c k rt) s fun _ s' => s.Onward queue k rt v a s' ∧
      (s.privAt % c.shieldedCommitEvery = 0 → s'.accounts.world.Reached v a .published) := by
  refine atTurn_delivers (fun _ => delivers_look ?_) fun hn =>
    ⟨⟨h.onward, rfl, rfl⟩, fun hn' => absurd hn' hn⟩
  refine (commitShielded_delivers h s.privCommits).zoom.bind fun _ s' hs' => ?_
  obtain ⟨x, ⟨honward, hpublished⟩, rfl⟩ := hs'
  refine (delivers_change _).mono fun _ s' hs' => ?_
  subst hs'
  exact ⟨⟨honward, rfl, rfl⟩, fun _ => hpublished⟩

/-- The sponsor's turn changes nothing. -/
theorem sponsorDuty_delivers : Delivers InClock (sponsorDuty c) s fun _ s' => s' = s :=
  atTurn_delivers (fun _ => delivers_wait) fun _ => rfl

/-- What an iteration does: it undoes nothing, counts on, and takes the accounts a stage further
when the turn for that has come. -/
structure Iterated (c : Cadence) (queue : QueueProgram) (k : PrivateKeeper) (rt : Runtime)
    (v : Vault) (a : Shielded) (s s' : KeeperLoop) : Prop where
  onward : s.accounts.world.Onward queue k rt v a s'.accounts.world
  n : s'.n = s.n + 1
  privAt : s'.privAt = s.privAt + 1
  published : (s.privAt + 1) % c.shieldedCommitEvery = 0 →
    s'.accounts.world.Reached v a .published
  absorbed : s.n % c.absorbEvery = 0 → s.accounts.world.Reached v a .published →
    s'.accounts.world.Reached v a .absorbed
  settled : (s.n + 1) % c.commitEvery = 0 → s.accounts.world.Reached v a .absorbed →
    s'.accounts.world.Reached v a .settled

/-- What `main` tries first does its part of an iteration. -/
theorem bookDuties_delivers (hfits : Fits v a) (h : s.accounts.world.Tended queue k rt v a) :
    Delivers InClock (bookDuties c k rt) s fun _ s' =>
      s.accounts.world.Onward queue k rt v a s'.accounts.world ∧ s'.n = s.n + 1 ∧
        s'.privAt = s.privAt ∧
        (s.n % c.absorbEvery = 0 → s.accounts.world.Reached v a .published →
          s'.accounts.world.Reached v a .absorbed) ∧
        ((s.n + 1) % c.commitEvery = 0 → s.accounts.world.Reached v a .absorbed →
          s'.accounts.world.Reached v a .settled) := by
  refine (absorbDuty_delivers hfits h).bind fun _ s₁ ⟨h₁, habsorbed⟩ => ?_
  refine (tickDuty_delivers h₁.world.tended).bind fun _ s₂ ⟨h₂, hnav, hn, hprivAt⟩ => ?_
  refine logDuty_delivers.bind fun _ s₃ hs₃ => ?_
  subst hs₃
  refine (commitDuty_delivers h₂.tended hnav).mono fun _ s₄ ⟨h₄, hsettled⟩ => ?_
  have h₂₄ := h₂.trans h₄.world
  rw [hn, h₁.n] at hsettled
  refine ⟨h₁.world.trans h₂₄, ?_, ?_, fun hturn hw => ?_, fun hturn hw => ?_⟩
  · rw [h₄.n, hn, h₁.n]
  · rw [h₄.privAt, hprivAt, h₁.privAt]
  · exact h₂₄.reached .absorbed (habsorbed hturn hw)
  · exact hsettled hturn (h₂.reached .absorbed (h₁.world.reached .absorbed hw))

/-- A step of the `PrivateKeeper` does the other. -/
theorem privateStep_delivers (hqueue : queue.Debits) (now : ℤ)
    (h : s.accounts.world.Tended queue k rt v a) :
    Delivers InClock (privateStep c queue k rt now) s fun _ s' =>
      s.accounts.world.Onward queue k rt v a s'.accounts.world ∧ s'.n = s.n ∧
        s'.privAt = s.privAt + 1 ∧ ((s.privAt + 1) % c.shieldedCommitEvery = 0 →
          s'.accounts.world.Reached v a .published) := by
  refine (delivers_change _).bind fun _ s₁ hs₁ => ?_
  subst hs₁
  refine Delivers.bind (exitsDuty_delivers hqueue now h) fun _ s₂ h₂ => ?_
  refine (shieldedDuty_delivers h₂.world.tended).bind fun _ s₃ ⟨h₃, hpublished⟩ => ?_
  refine sponsorDuty_delivers.mono fun _ s₄ hs₄ => ?_
  subst hs₄
  rw [h₂.privAt] at hpublished
  exact ⟨h₂.world.trans h₃.world, h₃.n.trans h₂.n, h₃.privAt.trans h₂.privAt, hpublished⟩

/-- An iteration of tended accounts throws nothing. -/
theorem iteration_delivers (hqueue : queue.Debits) (hfits : Fits v a) (now : ℤ)
    (h : s.accounts.world.Tended queue k rt v a) :
    Delivers InClock (iteration c queue k rt now) s fun _ s' => s.Iterated c queue k rt v a s' := by
  refine (bookDuties_delivers hfits h).tryCatch.bind
    fun _ s₁ ⟨h₁, hn, hprivAt, habsorbed, hsettled⟩ => ?_
  refine (privateStep_delivers hqueue now h₁.tended).tryCatch.mono
    fun _ s₂ ⟨h₂, hn₂, hprivAt₂, hpublished⟩ => ?_
  rw [hprivAt] at hprivAt₂ hpublished
  exact
    { onward := h₁.trans h₂
      n := hn₂.trans hn
      privAt := hprivAt₂
      published := hpublished
      absorbed := fun hturn hw => h₂.reached .absorbed (habsorbed hturn hw)
      settled := fun hturn hw => h₂.reached .settled (hsettled hturn hw) }

end Duties

end KeeperLoop

/-! ## When its turn comes -/

/-- A turn that comes at the multiples of `every` comes within `bound` more counts. -/
def DueWithin (every : ℕ+) (count bound : ℕ) : Prop := ∃ d < bound, (count + d) % every = 0

/-- It comes within as many as lie between two of them. -/
theorem dueWithin_self (every : ℕ+) (count : ℕ) : DueWithin every count every := by
  by_cases h : count % every = 0
  · exact ⟨0, every.pos, h⟩
  · have hlt := Nat.mod_lt count every.pos
    refine ⟨every - count % every, by omega, ?_⟩
    rw [← Nat.mod_add_mod, Nat.add_sub_cancel' hlt.le, Nat.mod_self]

/-- No turn comes within no counts. -/
theorem not_dueWithin_zero {every : ℕ+} {count : ℕ} : ¬ DueWithin every count 0 :=
  fun ⟨d, hd, _⟩ => Nat.not_lt_zero d hd

/-- A turn that comes within a bound comes within a larger one. -/
theorem DueWithin.mono {every : ℕ+} {count m n : ℕ} (h : DueWithin every count m) (hle : m ≤ n) :
    DueWithin every count n := by
  obtain ⟨d, hd, hturn⟩ := h
  exact ⟨d, hd.trans_le hle, hturn⟩

/-- It has come, or is nearer at the next count. -/
theorem DueWithin.next {every : ℕ+} {count bound : ℕ} (h : DueWithin every count (bound + 1)) :
    count % every = 0 ∨ DueWithin every (count + 1) bound := by
  obtain ⟨_ | d, hd, hturn⟩ := h
  · exact .inl hturn
  · exact .inr ⟨d, Nat.lt_of_succ_lt_succ hd, by rwa [Nat.add_assoc, Nat.add_comm 1]⟩

namespace KeeperLoop

variable {c : Cadence} {queue : QueueProgram} {k : PrivateKeeper} {rt : Runtime} {v : Vault}
  {a : Shielded} {s s' : KeeperLoop}

/-- The accounts are settled, or are as soon as the next turns have come, within `count`
iterations. -/
def Near (c : Cadence) (v : Vault) (a : Shielded) (count : ℕ) (s : KeeperLoop) : Prop :=
  s.accounts.world.Reached v a .settled ∨
  s.accounts.world.Reached v a .absorbed ∧ DueWithin c.commitEvery (s.n + 1) count ∨
  s.accounts.world.Reached v a .published ∧
    (∃ m, m + c.commitEvery ≤ count ∧ DueWithin c.absorbEvery s.n m) ∨
  ∃ m, m + c.absorbEvery + c.commitEvery ≤ count ∧
    DueWithin c.shieldedCommitEvery (s.privAt + 1) m

/-- An iteration brings them nearer. -/
theorem Near.next {count : ℕ} (h : s.Near c v a (count + 1))
    (hs : s.Iterated c queue k rt v a s') : s'.Near c v a count := by
  unfold Near
  rw [hs.n, hs.privAt]
  rcases h with hw | ⟨hw, hdue⟩ | ⟨hw, m, hle, hdue⟩ | ⟨m, hle, hdue⟩
  · exact .inl (hs.onward.reached .settled hw)
  · rcases hdue.next with hturn | hdue
    · exact .inl (hs.settled hturn hw)
    · exact .inr (.inl ⟨hs.onward.reached .absorbed hw, hdue⟩)
  · cases m with
    | zero => exact absurd hdue not_dueWithin_zero
    | succ m =>
      rcases hdue.next with hturn | hdue
      · exact .inr (.inl ⟨hs.absorbed hturn hw, (dueWithin_self _ _).mono (by omega)⟩)
      · exact .inr (.inr (.inl ⟨hs.onward.reached .published hw, m, by omega, hdue⟩))
  · cases m with
    | zero => exact absurd hdue not_dueWithin_zero
    | succ m =>
      rcases hdue.next with hturn | hdue
      · exact .inr (.inr (.inl ⟨hs.published hturn, _, by omega, dueWithin_self _ _⟩))
      · exact .inr (.inr (.inr ⟨m, by omega, hdue⟩))

/-- They are as near as one turn of each kind. -/
theorem near_start {count : ℕ}
    (h : c.shieldedCommitEvery + c.absorbEvery + c.commitEvery ≤ count) : s.Near c v a count :=
  .inr (.inr (.inr ⟨_, h, dueWithin_self _ _⟩))

/-- Accounts that no iteration has to bring nearer are settled. -/
theorem Near.settled (h : s.Near c v a 0) : s.accounts.world.Reached v a .settled := by
  rcases h with hw | ⟨-, hdue⟩ | ⟨-, m, hle, -⟩ | ⟨m, hle, -⟩
  · exact hw
  · exact absurd hdue not_dueWithin_zero
  · exact absurd hle (by have := c.commitEvery.pos; omega)
  · exact absurd hle (by have := c.commitEvery.pos; omega)

/-- Tended accounts settle. -/
theorem iterations_delivers (hqueue : queue.Debits) (hfits : Fits v a) (dates : ℕ → ℤ) {count : ℕ}
    (h : s.accounts.world.Tended queue k rt v a)
    (hcount : c.shieldedCommitEvery + c.absorbEvery + c.commitEvery ≤ count) :
    Delivers InClock (iterations c queue k rt dates count) s fun _ s' =>
      s'.accounts.world.Tended queue k rt v a ∧ s'.accounts.world.Reached v a .settled := by
  refine (delivers_repeatFrom (N := fun j s => s.accounts.world.Tended queue k rt v a ∧
    s.Near c v a j) (fun i j s hs => ?_) ⟨h, near_start hcount⟩).mono
      fun _ s' hs' => ⟨hs'.1, hs'.2.settled⟩
  exact (iteration_delivers hqueue hfits (dates i) hs.1).mono fun _ s' hs' =>
    ⟨hs'.onward.tended, hs.2.next hs'⟩

end KeeperLoop

/-! ## The law -/

/-- An action before 2106, that absorbs no more than the custodies' committed totals. -/
def HonestBeforeEnd (w : World) (a : Action) (w' : World) : Prop :=
  BeforeEnd w a w' ∧ w.ledger.Honest a.move

instance (w : World) (a : Action) (w' : World) : Decidable (HonestBeforeEnd w a w') :=
  inferInstanceAs (Decidable (_ ∧ _))

/-- No operation changes the book's authority. -/
theorem Move.WritesBook.authority {m : Move} {b b' : PoolBook} (h : m.WritesBook b b') :
    b'.authority = b.authority := by
  obtain ⟨op, -, hrun⟩ := h
  cases op with
  | tick now => exact (tick_spec hrun).authority
  | absorb now inflow outflow =>
    simp only [PoolBook.apply, bind_eq_ok, pure_eq_ok] at hrun
    obtain ⟨r, hr, rfl⟩ := hrun
    exact (absorb_marks hr).1
  | setApr now index aprBps => exact (setApr_spec hrun).authority

/-- In every state of such a run the marks are behind, both keys are the keeper's, and the tickets
are sound. -/
theorem honest_state {rt : Runtime} {k : PrivateKeeper} {since : ℤ}
    {pools : List.Vector PoolInit poolCount} {w : World}
    (hrun : Relation.ReflTransGen (StepWith rt HonestBeforeEnd)
      (World.initial rt k.authority k.custodyOwner since pools) w) :
    (w.ledger.InOrder ∧ w.ledger.BookBehind) ∧ w.book.current.authority = k.authority ∧
      w.vault.authority = k.authority ∧ w.vault.usdcMint = rt.usdcMint ∧
      w.shielded.current.custodyOwner = k.custodyOwner ∧ ∃ h, Solvent w.obligations h := by
  have hbehind := Runs.preserves
    (I := fun w : World => w.ledger.InOrder ∧ w.ledger.BookBehind)
    (fun hw ⟨_, ha, hP⟩ => ⟨((World.step_ledger ha).forward hw.1).1,
      (World.step_ledger ha).behind hw.1 hw.2 hP.2⟩)
    hrun ⟨World.start_inOrder .., le_rfl, le_rfl⟩
  have hauthority := World.run_book (I := fun b => b.authority = k.authority)
    (fun _ hb hwrites => hwrites.authority.trans hb) hrun ⟨rfl, rfl⟩
  have hcustody := Runs.preserves
    (I := fun w : World => w.vault.usdcMint = rt.usdcMint ∧
      w.shielded.current.custodyOwner = k.custodyOwner ∧ ∃ h, Solvent w.obligations h)
    (fun ⟨hmint, howner, _, hsolvent⟩ ⟨_, ha, _⟩ =>
      have hcredits := (World.step_ledger ha).credits
      ⟨hcredits.1.trans hmint, hcredits.2.1.trans howner, _,
        (World.step_obligations ha).solvent hsolvent⟩)
    hrun ⟨rfl, rfl, _, solvent_empty⟩
  exact ⟨hbehind, hauthority.2, World.run_authority hrun, hcustody⟩

/-- What the keeper's loop comes to from `s` when it gets to `s'`: every flow is marked and
published, and both layers price at the rollup's own NAV over all the shares. -/
structure KeeperLoop.Settled (s s' : KeeperLoop) : Prop where
  vault : s'.accounts.world.vault = s.accounts.world.vault
  shielded : s'.accounts.world.shielded.base = s.accounts.world.shielded.current
  shieldedLive : s'.accounts.world.shielded.live = some s.accounts.world.shielded.current
  bookLive : s'.accounts.world.book.live ≠ none
  marks : s'.accounts.world.book.base.Marks s.accounts.world.vault
    s.accounts.world.shielded.current
  nav : s'.accounts.world.book.base.nav = s'.accounts.world.book.base.markedValue
  pricing : s'.accounts.world.ledger.pricing = .ok (s'.accounts.world.book.base.nav,
    satAdd s.accounts.world.vault.shares s.accounts.world.shielded.current.shares)
  livePricing : s'.accounts.world.ledger.livePricing = s'.accounts.world.ledger.pricing

/-- Accounts that are still tended at the last stage are settled. -/
theorem KeeperLoop.settled_of_reached {queue : QueueProgram} {k : PrivateKeeper} {rt : Runtime}
    {s s' : KeeperLoop} (h : s'.accounts.world.Tended queue k rt s.accounts.world.vault
      s.accounts.world.shielded.current)
    (hreached : s'.accounts.world.Reached s.accounts.world.vault
      s.accounts.world.shielded.current .settled) : s.Settled s' := by
  obtain ⟨hbase, -, hmarks, hnav⟩ := hreached
  have hlive := Delegable.live_eq_some_current (Option.isSome_iff_ne_none.mpr h.shieldedLive)
  have hpricing : s'.accounts.world.ledger.pricing = .ok (s'.accounts.world.book.base.nav,
      satAdd s.accounts.world.vault.shares s.accounts.world.shielded.current.shares) := by
    change navForPricing s'.accounts.world.vault _ s'.accounts.world.shielded.base = _
    rw [h.vault, hbase]
    exact hmarks.price
  refine ⟨h.vault, hbase, hlive.trans (congrArg some h.shielded), h.bookLive, hmarks, hnav,
    hpricing, ?_⟩
  change navForPricing _ _ s'.accounts.world.shielded.current =
    navForPricing _ _ s'.accounts.world.shielded.base
  rw [h.shielded, hbase]

/-- From every state that honest absorbs lead to, in which the book, the aggregate and the exit book
are delegated and the custody holds the open tickets, which the queue takes, the keeper settles:
it has after as many iterations as one turn of each kind takes, and after any more, while nobody
else acts and everything arrives in time. Whatever the network does, its loop goes on. -/
theorem keeper_settles {c : Cadence} {queue : QueueProgram} {k : PrivateKeeper} {rt : Runtime}
    {since : ℤ} {pools : List.Vector PoolInit poolCount} {s : KeeperLoop} (hqueue : queue.Debits)
    (hsince : InClock since)
    (hrun : Delegations.RunWith rt HonestBeforeEnd
      ⟨World.initial rt k.authority k.custodyOwner since pools, 0, 0⟩ s.accounts)
    (hbookLive : s.accounts.world.book.live ≠ none)
    (hshieldedLive : s.accounts.world.shielded.live ≠ none)
    (hexitsLive : s.accounts.world.exits.live ≠ none)
    (hfits : Fits s.accounts.world.vault s.accounts.world.shielded.current)
    (hholds : owed s.accounts.world.obligations.tickets ≤
      (s.accounts.world.privateUsdc (k.custody rt)).val)
    (htakes : queue.Takes k rt s.accounts.world.obligations.tickets) (dates : ℕ → ℤ) :
    (∀ count, c.shieldedCommitEvery + c.absorbEvery + c.commitEvery ≤ count →
      Delivers InClock (KeeperLoop.iterations c queue k rt dates count) s
        fun _ s' => s.Settled s') ∧
      ∀ count, Returns (KeeperLoop.iterations c queue k rt dates count) := by
  obtain ⟨⟨hord, hbehind⟩, hbook, hwallet, hmint, howner, hsolvent⟩ := honest_state hrun.world
  have hlastTs : InClock s.accounts.world.book.current.lastTs :=
    (World.run_lastTs And.left hrun.world ⟨hsince, hsince⟩).2
  have htended : s.accounts.world.Tended queue k rt s.accounts.world.vault
      s.accounts.world.shielded.current :=
    ⟨rfl, rfl, hshieldedLive, hbookLive, hlastTs, hbook, hbehind.1, hbehind.2,
      hord.shielded.1, hord.shielded.2, ⟨hmint, howner, hwallet, hsolvent, hholds⟩, hexitsLive,
      htakes⟩
  refine ⟨fun count hcount => ?_, KeeperLoop.returns_iterations c queue k rt dates⟩
  exact (KeeperLoop.iterations_delivers hqueue hfits dates htended hcount).mono
    fun _ s' hs' => KeeperLoop.settled_of_reached hs'.1 hs'.2

/-- A private deposit, of which a part is redeemed again, and a public one; Solana has seen only the
money, and the book's commits are used up. -/
def unsettledFlows : List Action :=
  openPrivate ++ delegatePrivate ++
    [.program (.alone [authority] 100) (.delegateBook authority)] ++ privateDeposit 500000000 ++
    [redeemUnderOne 30000000 110, .program (.alone [user] 110) (.faucet user),
      .program (.alone [user] 110) (.deposit user 400000000)] ++
    List.replicate 10 (.program (.alone [user] 130) (.commitBook user))

/-- The keeper's next 1215 iterations settle them, with the exit's turns among them. -/
theorem keeper_settles_unsettled :
    let s : KeeperLoop := ⟨.follow deployment HonestBeforeEnd ⟨World.deployed 800, 0, 0⟩
      unsettledFlows, 7, 3, 2, 0, fun _ => none⟩
    s.accounts.bookCommits = commitLimit ∧ s.accounts.world.book.base.markedIn.val = 0 ∧
      s.accounts.world.obligations.tickets.length = 1 ∧
      ∃ s' net, KeeperLoop.iterations .usual drawQueue devnetKeeper deployment
          (fun i => 1000 * i) 1215 (s, .atOnce 31536130) = .ok () (s', net) ∧
        s.Settled s' ∧ s'.accounts.world.book.base.markedIn.val = 900000000 ∧
        s'.accounts.world.book.base.markedOut.val = 30000000 := by
  intro s
  have hrun : Delegations.RunWith deployment HonestBeforeEnd ⟨World.deployed 800, 0, 0⟩
      s.accounts := Delegations.run_follow _ _
  have hfacts : s.accounts.bookCommits = commitLimit ∧
      s.accounts.world.book.base.markedIn.val = 0 ∧
      s.accounts.world.obligations.tickets.length = 1 ∧ s.accounts.world.book.live ≠ none ∧
      s.accounts.world.shielded.live ≠ none ∧ s.accounts.world.exits.live ≠ none ∧
      s.accounts.world.vault.totalIn.val = 400000000 ∧
      s.accounts.world.shielded.current.totalIn.val = 500000000 ∧
      s.accounts.world.vault.totalOut.val = 0 ∧
      s.accounts.world.shielded.current.totalOut.val = 30000000 ∧
      owed s.accounts.world.obligations.tickets ≤
        (s.accounts.world.privateUsdc (devnetKeeper.custody deployment)).val := by decide +kernel
  obtain ⟨hcommits, hmarked, htickets, hbook, hshielded, hexits, hin, hprivateIn, hout,
    hprivateOut, hholds⟩ := hfacts
  have hclock : InClock 31536130 := by decide
  obtain ⟨hsettles, -⟩ := keeper_settles (c := .usual) (k := devnetKeeper) drawQueue_debits
    inClock_zero hrun hbook hshielded hexits ⟨by omega, by omega⟩ hholds (drawQueue_takes _ _ _)
    fun i => 1000 * i
  obtain ⟨_, s', net, hlast, -, hsettled⟩ := hsettles 1215 le_rfl _ (Net.prompt_atOnce hclock)
  refine ⟨hcommits, hmarked, htickets, s', net, hlast, hsettled, ?_, ?_⟩
  · rw [hsettled.marks.1]
    exact congrArg₂ (· + ·) hin hprivateIn
  · rw [hsettled.marks.2]
    exact congrArg₂ (· + ·) hout hprivateOut

end Agama
