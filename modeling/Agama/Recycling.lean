import Agama.Lib.Script
import Agama.Sponsorship

/-!
# Recycling

The keeper recycles a delegation whose commits are used up, that of the book (`scripts/recycle.ts`)
and that of the aggregate (`scripts/private-keeper.ts`): it undelegates, which publishes the live
copy, waits for the account to be back on Solana, delegates again, and waits for the rollup to have
it. What MagicBlock does with each request is not the keeper's to decide. A transaction may land
although its confirmation is lost, a publication may come after the script has given up waiting, and
then it throws where it stands. Each step looks first at where the account is, so the next recycle
goes on from there. `Lane` is what both scripts have in common.
-/

namespace Agama

open Script

/-- A script of the keeper, whose requests are carried out at readings of the clock. -/
abbrev KeeperScript : Type → Type := Script ℤ Delegations SendError

/-- An instruction in a transaction of the wallet's, as a request. -/
def request (rt : Runtime) (wallet : Pubkey) (ix : Ix) (now : ℤ) (x : Delegations) :
    Except SendError Delegations := x.send rt wallet now ix

/-! ## The scripts -/

/-- What the recycling of the book and that of the aggregate have in common: an account, the
instructions that take a payer, and the one that shows that the rollup has it again, with how often
that one is tried again, whether the script asks the router where to send them, and whether it tops
up the clone rent. -/
structure Lane (α : Type) where
  account : World → Delegable α
  commit : Pubkey → Ix
  undelegate : Pubkey → Ix
  delegate : Pubkey → Ix
  confirm : Pubkey → Ix
  retries : ℕ
  routed : Bool
  funded : Bool

namespace Lane

variable {α : Type} (l : Lane α) (rt : Runtime) (wallet : Pubkey)

/-- `delegationStatus(..).isDelegated`, when the router is up to date. -/
def isDelegated (x : Delegations) : Bool := (l.account x.world).live.isSome

/-- Solana reports the program as the account's owner. -/
def isHome (x : Delegations) : Bool := World.ownerOf (l.account x.world) = programId

/-- `erEndpointFor`; the enclave's endpoint is fixed. -/
def endpoint : KeeperScript Unit :=
  if l.routed then inquire .timedOut .notDelegated else pure ()

/-- Schedule the commit and undelegation, if it is still delegated. -/
def undelegateOut : KeeperScript Unit := do
  if ← survey .timedOut l.isDelegated then
    l.endpoint
    schedule .timedOut (request rt wallet (l.undelegate wallet))
  else pure ()

/-- Undelegate, and wait for the account to be back on Solana. -/
def bringHome : KeeperScript Unit := do
  l.undelegateOut rt wallet
  await .timedOut l.isHome (request rt wallet (l.undelegate wallet))

/-- Delegate, if it is not delegated. -/
def delegateHome : KeeperScript Unit := do
  if ← survey .timedOut l.isDelegated then pure ()
  else send .timedOut (request rt wallet (l.delegate wallet))

/-- Top up the clone rent, which moves lamports only. -/
def topUp : KeeperScript Unit := if l.funded then wait .timedOut else pure ()

/-- Delegate, and wait for the router, or the enclave, to have it. -/
def sendOut : KeeperScript Unit := do
  l.topUp
  l.delegateHome rt wallet
  wait .timedOut

/-- Send the confirmation, and if it fails again as often as `n` says. -/
def confirmFor : ℕ → KeeperScript Unit
  | 0 => send .timedOut (request rt wallet (l.confirm wallet))
  | n + 1 => tryCatch (send .timedOut (request rt wallet (l.confirm wallet))) fun _ => confirmFor n

/-- A recycle. -/
def recycle : KeeperScript Unit := do
  l.bringHome rt wallet
  l.sendOut rt wallet
  l.endpoint
  l.confirmFor rt wallet l.retries

/-- What the keeper starts with (`heal`, and the first lines of `main`). -/
def heal : KeeperScript Unit := do
  if ← survey .timedOut l.isDelegated then pure () else l.recycle rt wallet

/-- A commit, which the rollup accepts or refuses, and publishes while nobody waits for it. -/
def publish : KeeperScript Unit := do
  schedule .timedOut (request rt wallet (l.commit wallet))
  meanwhile .timedOut (request rt wallet (l.commit wallet))

/-- A recycle, after which nothing is counted. -/
def recycleAnew : KeeperScript ℕ := do
  l.recycle rt wallet
  l.endpoint
  pure 0

/-- The keeper's turn to publish, when it has counted `commits` of its own since it last recycled or
started. -/
def turn (commits : ℕ) : KeeperScript ℕ :=
  if commitLimit ≤ commits then l.recycleAnew rt wallet
  else
    tryCatch (do
      l.publish rt wallet
      pure (commits + 1))
    fun
      -- The only failure that a fresh delegation fixes.
      | .limit => l.recycleAnew rt wallet
      | e => throw e

end Lane

/-- The book, whose new delegation is tried with a tick, up to eleven times. -/
def bookLane : Lane PoolBook :=
  ⟨World.book, .commitBook, .undelegateBook, .delegateBook, .tick, 10, true, true⟩

/-- The aggregate, which is gated again. -/
def shieldedLane : Lane Shielded :=
  ⟨World.shielded, .commitShielded, .undelegateShielded, .delegateShielded,
    .initShieldedPermission, 0, false, false⟩

/-- `recycleBook`. -/
def recycleBook : Runtime → Pubkey → KeeperScript Unit := bookLane.recycle

/-- `PrivateKeeper.recycle`. -/
def recycleShielded : Runtime → Pubkey → KeeperScript Unit := shieldedLane.recycle

/-- What `main` does before its loop: finish the recycle of either account that was cut off. -/
def startUp (rt : Runtime) (wallet : Pubkey) : KeeperScript Unit := do
  bookLane.heal rt wallet
  bookLane.endpoint
  -- `assertTeeAttested`.
  wait .timedOut
  shieldedLane.heal rt wallet

/-! ## What the steps of a lane do -/

/-- The steps of a lane do to its account what their names say, for a wallet that is the vault's
authority, and nothing else. -/
structure Lane.Acts {α : Type} (l : Lane α) (rt : Runtime) (wallet : Pubkey)
    (view : Delegations → Sponsored α) (put : Delegations → Sponsored α → Delegations) : Prop where
  account : ∀ x, l.account x.world = (view x).copy
  view_put : ∀ x s, view (put x s) = s
  put_view : ∀ x, put x (view x) = x
  put_put : ∀ x s t, put (put x s) t = put x t
  vault : ∀ x s, (put x s).world.vault = x.world.vault
  undelegate : ∀ {x s now}, wallet = x.world.vault.authority → (view x).undelegate = some s →
    x.send rt wallet now (l.undelegate wallet) = .ok (put x s)
  delegate : ∀ {x s now}, wallet = x.world.vault.authority → (view x).delegate = some s →
    x.send rt wallet now (l.delegate wallet) = .ok (put x s)
  commit : ∀ {x s now}, wallet = x.world.vault.authority → (view x).commit commitLimit = some s →
    x.send rt wallet now (l.commit wallet) = .ok (put x s)
  spent : ∀ {x now}, wallet = x.world.vault.authority → (view x).copy.live ≠ none →
    commitLimit ≤ (view x).commits → x.send rt wallet now (l.commit wallet) = .error .limit

section Acts

variable {rt : Runtime} {wallet : Pubkey}

/-- The steps of recycling the book. -/
theorem bookLane_acts : bookLane.Acts rt wallet Delegations.book Delegations.putBook where
  account _ := rfl
  view_put _ _ := rfl
  put_view _ := rfl
  put_put _ _ _ := rfl
  vault _ _ := rfl
  undelegate {x s now} _ h := by
    obtain ⟨d, hd, rfl⟩ := Option.map_eq_some_iff.mp h
    have hexec : x.world.exec rt (.alone [wallet] now) (.undelegateBook wallet) =
        .ok { x.world with book := d } := by
      simp only [World.exec, bind_eq_ok, World.signs_eq_ok, orElse_eq_ok, pure_eq_ok]
      exact ⟨(), List.mem_singleton_self wallet, d, hd, rfl⟩
    exact x.send_of_exec hexec
  delegate {x s now} hwallet h := by
    obtain ⟨d, hd, rfl⟩ := Option.map_eq_some_iff.mp h
    have hexec : x.world.exec rt (.alone [wallet] now) (.delegateBook wallet) =
        .ok { x.world with book := d } := by
      simp only [World.exec, bind_eq_ok, World.authoritySigns_eq_ok, orElse_eq_ok, pure_eq_ok]
      exact ⟨(), ⟨List.mem_singleton_self wallet, hwallet⟩, d, hd, rfl⟩
    exact x.send_of_exec hexec
  commit {x s now} _ h := by
    unfold Sponsored.commit at h
    split at h
    · rename_i hbudget
      obtain ⟨d, hd, rfl⟩ := Option.map_eq_some_iff.mp h
      have hexec : x.world.exec rt (.alone [wallet] now) (.commitBook wallet) =
          .ok { x.world with book := d } := by
        simp only [World.exec, bind_eq_ok, World.signs_eq_ok, orElse_eq_ok, pure_eq_ok]
        exact ⟨(), List.mem_singleton_self wallet, d, hd, rfl⟩
      exact (x.send_of_exec hexec).trans (if_pos hbudget)
    · cases h
  spent {x now} _ hlive hspent := by
    obtain ⟨b, hb⟩ := Option.ne_none_iff_exists'.mp hlive
    have hexec : x.world.exec rt (.alone [wallet] now) (.commitBook wallet) =
        .ok { x.world with book := ⟨b, some b⟩ } := by
      simp only [World.exec, bind_eq_ok, World.signs_eq_ok, orElse_eq_ok, pure_eq_ok]
      exact ⟨(), List.mem_singleton_self wallet, _, congrArg _ hb, rfl⟩
    exact (x.send_of_exec hexec).trans (if_neg (Nat.not_lt.mpr hspent))

/-- The steps of recycling the aggregate. -/
theorem shieldedLane_acts :
    shieldedLane.Acts rt wallet Delegations.shielded Delegations.putShielded where
  account _ := rfl
  view_put _ _ := rfl
  put_view _ := rfl
  put_put _ _ _ := rfl
  vault _ _ := rfl
  undelegate {x s now} hwallet h := by
    obtain ⟨d, hd, rfl⟩ := Option.map_eq_some_iff.mp h
    have hexec : x.world.exec rt (.alone [wallet] now) (.undelegateShielded wallet) =
        .ok { x.world with shielded := d } := by
      simp only [World.exec, bind_eq_ok, World.authoritySigns_eq_ok, orElse_eq_ok, pure_eq_ok]
      exact ⟨(), ⟨List.mem_singleton_self wallet, hwallet⟩, d, hd, rfl⟩
    exact x.send_of_exec hexec
  delegate {x s now} hwallet h := by
    obtain ⟨d, hd, rfl⟩ := Option.map_eq_some_iff.mp h
    have hexec : x.world.exec rt (.alone [wallet] now) (.delegateShielded wallet) =
        .ok { x.world with shielded := d } := by
      simp only [World.exec, bind_eq_ok, World.authoritySigns_eq_ok, orElse_eq_ok, pure_eq_ok]
      exact ⟨(), ⟨List.mem_singleton_self wallet, hwallet⟩, d, hd, rfl⟩
    exact x.send_of_exec hexec
  commit {x s now} hwallet h := by
    unfold Sponsored.commit at h
    split at h
    · rename_i hbudget
      obtain ⟨d, hd, rfl⟩ := Option.map_eq_some_iff.mp h
      have hexec : x.world.exec rt (.alone [wallet] now) (.commitShielded wallet) =
          .ok { x.world with shielded := d } := by
        simp only [World.exec, bind_eq_ok, World.authoritySigns_eq_ok, orElse_eq_ok, pure_eq_ok]
        exact ⟨(), ⟨List.mem_singleton_self wallet, hwallet⟩, d, hd, rfl⟩
      exact (x.send_of_exec hexec).trans (if_pos hbudget)
    · cases h
  spent {x now} hwallet hlive hspent := by
    obtain ⟨s, hs⟩ := Option.ne_none_iff_exists'.mp hlive
    have hexec : x.world.exec rt (.alone [wallet] now) (.commitShielded wallet) =
        .ok { x.world with shielded := ⟨s, some s⟩ } := by
      simp only [World.exec, bind_eq_ok, World.authoritySigns_eq_ok, orElse_eq_ok, pure_eq_ok]
      exact ⟨(), ⟨List.mem_singleton_self wallet, hwallet⟩, _, congrArg _ hs, rfl⟩
    exact (x.send_of_exec hexec).trans (if_neg (Nat.not_lt.mpr hspent))

namespace Lane.Acts

variable {α : Type} {l : Lane α} {view : Delegations → Sponsored α}
  {put : Delegations → Sponsored α → Delegations} {x : Delegations} {s : Sponsored α} {T : ℤ → Prop}

/-- An account is home when it is not delegated. -/
theorem isHome_eq : l.isHome x = !l.isDelegated x := by
  rw [isHome, isDelegated, World.ownerOf]
  cases (l.account x.world).live with
  | none => rfl
  | some a => exact decide_eq_false (by decide : delegationProgramId ≠ programId)

/-- The router answers. -/
theorem endpoint : Delivers T l.endpoint x fun _ y => y = x := by
  unfold Lane.endpoint
  split
  · exact delivers_inquire
  · exact delivers_pure rfl

/-- The rent is topped up. -/
theorem topUp : Delivers T l.topUp x fun _ y => y = x := by
  unfold Lane.topUp
  split
  · exact delivers_wait
  · exact delivers_pure rfl

/-- The first step ends with the account on Solana, where it may be already. -/
theorem bringHome (h : l.Acts rt wallet view put) (hwallet : wallet = x.world.vault.authority)
    (hs : (view x).bringHome = some s) :
    Delivers T (l.bringHome rt wallet) x fun _ y => y = put x s := by
  have hout : l.isDelegated x = (view x).copy.live.isSome := by rw [isDelegated, h.account]
  unfold Sponsored.bringHome at hs
  rw [← hout] at hs
  refine Delivers.bind (P := fun _ y => y = x) ?_ fun _ y hy => ?_
  · refine delivers_survey ?_
    split
    · rename_i hdelegated
      rw [if_pos hdelegated] at hs
      refine endpoint.bind fun _ z hz => ?_
      subst hz
      exact delivers_schedule fun now _ => ⟨_, h.undelegate hwallet hs⟩
    · exact delivers_pure rfl
  · subst hy
    by_cases hdelegated : l.isDelegated y = true
    · rw [if_pos hdelegated] at hs
      refine delivers_await (by rw [isHome_eq, hdelegated]; rfl) fun now _ =>
        ⟨_, h.undelegate hwallet hs, rfl⟩
    · rw [if_neg hdelegated, Option.some.injEq] at hs
      subst hs
      rw [h.put_view]
      exact delivers_await_done (by rw [isHome_eq, Bool.eq_false_of_not_eq_true hdelegated]; rfl)

/-- The second ends with the account delegated. -/
theorem sendOut (h : l.Acts rt wallet view put) (hwallet : wallet = x.world.vault.authority)
    (hs : (view x).sendOut = some s) :
    Delivers T (l.sendOut rt wallet) x fun _ y => y = put x s := by
  have hout : l.isDelegated x = (view x).copy.live.isSome := by rw [isDelegated, h.account]
  unfold Sponsored.sendOut at hs
  rw [← hout] at hs
  refine topUp.bind fun _ z hz => ?_
  subst hz
  refine Delivers.bind (P := fun _ y => y = put z s) ?_ fun _ y hy => ?_
  · refine delivers_survey ?_
    split
    · rename_i hdelegated
      rw [if_pos hdelegated, Option.some.injEq] at hs
      subst hs
      exact delivers_pure (h.put_view z).symm
    · rename_i hdelegated
      rw [if_neg hdelegated] at hs
      exact delivers_send fun now _ => ⟨_, h.delegate hwallet hs, rfl⟩
  · exact delivers_wait.mono fun _ _ hz => hz.trans hy

/-- A recycle sends the confirmation from a state that only depends on the current copy. -/
theorem recycle (h : l.Acts rt wallet view put) (hwallet : wallet = x.world.vault.authority)
    {Q : Delegations → Prop}
    (hconfirm : ∀ now, T now →
      ∃ y, (put x ⟨⟨(view x).copy.current, some (view x).copy.current⟩, 0⟩).send rt wallet now
        (l.confirm wallet) = .ok y ∧ Q y) :
    Delivers T (l.recycle rt wallet) x fun _ y => Q y := by
  obtain ⟨s, hhome, hout⟩ := (view x).exists_bringHome
  have hout' : (view (put x s)).sendOut =
      some ⟨⟨(view x).copy.current, some (view x).copy.current⟩, 0⟩ := by rwa [h.view_put]
  have hwallet' : wallet = (put x s).world.vault.authority := by rwa [h.vault]
  refine (h.bringHome hwallet hhome).bind fun _ y hy => ?_
  subst hy
  refine (h.sendOut hwallet' hout').bind fun _ z hz => ?_
  rw [h.put_put] at hz
  subst hz
  refine endpoint.bind fun _ z hz => ?_
  subst hz
  -- The first attempt succeeds.
  cases l.retries with
  | zero => exact delivers_send hconfirm
  | succ n => exact (delivers_send hconfirm).tryCatch

/-- A turn commits, or recycles when the commits are used up. -/
theorem turn (h : l.Acts rt wallet view put) (hwallet : wallet = x.world.vault.authority)
    (hlive : (view x).copy.live ≠ none) (commits : ℕ) {Q : Delegations → Prop}
    (hcommit : ∀ s, (view x).commit commitLimit = some s → Q (put x s))
    (hrecycle : Delivers T (l.recycle rt wallet) x fun _ y => Q y) :
    Delivers T (l.turn rt wallet commits) x fun _ y => Q y := by
  have hanew : Delivers T (l.recycleAnew rt wallet) x fun _ y => Q y :=
    hrecycle.bind fun _ _ hy => endpoint.bind fun _ _ hz => delivers_pure (hz ▸ hy)
  unfold Lane.turn
  split
  · exact hanew
  · by_cases hbudget : (view x).commits < commitLimit
    · obtain ⟨a, ha⟩ := Option.ne_none_iff_exists'.mp hlive
      have hs : (view x).commit commitLimit = some ⟨⟨a, some a⟩, (view x).commits + 1⟩ := by
        rw [Sponsored.commit, if_pos hbudget, Delegable.commit, ha]
        rfl
      refine Delivers.tryCatch (Delivers.bind (P := fun _ y => Q y) ?_ fun _ _ hy =>
        delivers_pure hy)
      refine (delivers_schedule fun now _ => ⟨_, h.commit hwallet hs⟩).bind fun _ y hy => ?_
      subst hy
      exact delivers_meanwhile fun now _ => ⟨_, h.commit hwallet hs, hcommit _ hs⟩
    · have hspent : Rejects T (l.publish rt wallet) x .limit :=
        (rejects_schedule fun now _ => h.spent hwallet hlive (Nat.le_of_not_lt hbudget)).bind
      exact hspent.bind.tryCatch hanew

end Lane.Acts

end Acts

/-! ## Turns -/

/-- The gate over the aggregate and the exit book, each made unless it is there. -/
def World.gated (w : World) (authority : Pubkey) : World :=
  { w with
    shieldedPermission := some (w.shieldedPermission.getD ⟨true, [⟨ownerFlags, authority⟩]⟩)
    exitsPermission := some (w.exitsPermission.getD ⟨true, [⟨ownerFlags, authority⟩]⟩) }

/-- What a recycle leaves of the book's side: the copy is published, and ticked once on a delegation
with the whole budget. -/
def Delegations.RecycledBook (x y : Delegations) : Prop :=
  ∃ now b, InClock now ∧ tick x.world.book.current now = .ok b ∧
    y = x.putBook ⟨⟨x.world.book.current, some b⟩, 0⟩

/-- And of the aggregate's: the copy is published, and gated again. -/
def Delegations.RecycledShielded (wallet : Pubkey) (x y : Delegations) : Prop :=
  y = { x.putShielded ⟨⟨x.world.shielded.current, some x.world.shielded.current⟩, 0⟩ with
    world := ({ x.world with shielded :=
      ⟨x.world.shielded.current, some x.world.shielded.current⟩ } : World).gated wallet }

section Turns

variable {rt : Runtime} {wallet : Pubkey} {x y : Delegations}

/-- A recycled book is published, and ticked. -/
theorem recycleBook_delivers (hwallet : wallet = x.world.vault.authority)
    (hclock : InClock x.world.book.current.lastTs) :
    Delivers InClock (recycleBook rt wallet) x fun _ y => x.RecycledBook y :=
  bookLane_acts.recycle hwallet fun now hnow => by
    obtain ⟨b, hb⟩ := exists_tick hclock hnow
    exact ⟨_, Delegations.send_tick hb, now, b, hnow, hb, rfl⟩

/-- A recycled aggregate is published, and behind its gate. -/
theorem recycleShielded_delivers (hwallet : wallet = x.world.vault.authority) :
    Delivers InClock (recycleShielded rt wallet) x fun _ y => x.RecycledShielded wallet y := by
  refine shieldedLane_acts.recycle hwallet fun now _ => ⟨_, Delegations.send_of_exec ?_, rfl⟩
  simp only [shieldedLane, World.exec, World.execInitShieldedPermission, bind_eq_ok,
    World.authoritySigns_eq_ok, pure_eq_ok]
  exact ⟨(), ⟨List.mem_singleton_self wallet, hwallet⟩, rfl⟩

/-- What a turn for the book leaves: it is published, and delegated as it was, or ticked on a
delegation with the whole budget. -/
def Delegations.PublishedBook (x y : Delegations) : Prop :=
  ∃ s, y = x.putBook s ∧ s.copy.base = x.world.book.current ∧
    (s.copy.live = some x.world.book.current ∨
      s.commits = 0 ∧ ∃ now b, InClock now ∧ tick x.world.book.current now = .ok b ∧
        s.copy.live = some b)

/-- And a turn for the aggregate: it is published, and delegated as it was, or gated again on a
delegation with the whole budget. -/
def Delegations.PublishedShielded (wallet : Pubkey) (x y : Delegations) : Prop :=
  y = x.putShielded ⟨⟨x.world.shielded.current, some x.world.shielded.current⟩,
    x.shieldedCommits + 1⟩ ∨ x.RecycledShielded wallet y

/-- Of the rest no more is written than the gate. -/
structure Delegations.KeepsRest (x y : Delegations) : Prop where
  vault : y.world.vault = x.world.vault
  book : y.world.book = x.world.book
  exits : y.world.exits = x.world.exits
  positions : y.world.positions = x.world.positions
  privateUsdc : y.world.privateUsdc = x.world.privateUsdc

/-- A turn for the aggregate publishes it, and leaves the rest. -/
theorem Delegations.PublishedShielded.spec (h : x.PublishedShielded wallet y) :
    y.world.shielded = ⟨x.world.shielded.current, some x.world.shielded.current⟩ ∧
      x.KeepsRest y := by
  rcases h with rfl | rfl
  · exact ⟨rfl, rfl, rfl, rfl, rfl, rfl⟩
  · exact ⟨rfl, rfl, rfl, rfl, rfl, rfl⟩

/-- A turn for a delegated book publishes it. -/
theorem bookLane_turn (hwallet : wallet = x.world.vault.authority)
    (hlive : x.world.book.live ≠ none) (hclock : InClock x.world.book.current.lastTs)
    (commits : ℕ) :
    Delivers InClock (bookLane.turn rt wallet commits) x fun _ y => x.PublishedBook y := by
  refine bookLane_acts.turn hwallet hlive commits (fun s hs => ?_) ?_
  · obtain rfl := Sponsored.commit_eq_some hs
    exact ⟨_, rfl, rfl, .inl rfl⟩
  · refine (recycleBook_delivers hwallet hclock).mono fun _ y hy => ?_
    obtain ⟨now, b, hnow, hb, rfl⟩ := hy
    exact ⟨_, rfl, rfl, .inr ⟨rfl, now, b, hnow, hb, rfl⟩⟩

/-- A turn for a delegated aggregate publishes it. -/
theorem shieldedLane_turn (hwallet : wallet = x.world.vault.authority)
    (hlive : x.world.shielded.live ≠ none) (commits : ℕ) :
    Delivers InClock (shieldedLane.turn rt wallet commits) x fun _ y =>
      x.PublishedShielded wallet y := by
  refine shieldedLane_acts.turn hwallet hlive commits (fun s hs => .inl ?_) ?_
  · rw [Sponsored.commit_eq_some hs]
    rfl
  · exact (recycleShielded_delivers hwallet).mono fun _ y hy => .inr hy

/-- What the keeper starts its loop with: both accounts delegated, the book ticked if it was not. -/
def Delegations.Started (x y : Delegations) : Prop :=
  (y.world.book.live = some x.world.book.current ∨
    ∃ now b, InClock now ∧ tick x.world.book.current now = .ok b ∧ y.world.book.live = some b) ∧
  y.world.shielded.live = some x.world.shielded.current

/-- The keeper starts, wherever it finds the accounts. -/
theorem startUp_delivers (hwallet : wallet = x.world.vault.authority)
    (hclock : InClock x.world.book.current.lastTs) :
    Delivers InClock (startUp rt wallet) x fun _ y => x.Started y := by
  refine Delivers.bind (P := fun _ y => ∃ s, y = x.putBook s ∧
    (s.copy.live = some x.world.book.current ∨
      ∃ now b, InClock now ∧ tick x.world.book.current now = .ok b ∧ s.copy.live = some b)) ?_ ?_
  · refine delivers_survey ?_
    split
    · rename_i hout
      exact delivers_pure ⟨x.book, rfl, .inl (Delegable.live_eq_some_current hout)⟩
    · refine (recycleBook_delivers hwallet hclock).mono fun _ z hz => ?_
      obtain ⟨now, b, hnow, hb, rfl⟩ := hz
      exact ⟨_, rfl, .inr ⟨now, b, hnow, hb, rfl⟩⟩
  · rintro - y ⟨s, rfl, hs⟩
    refine Lane.Acts.endpoint.bind fun _ y hy => ?_
    subst hy
    refine delivers_wait.bind fun _ y hy => ?_
    subst hy
    refine delivers_survey ?_
    split
    · rename_i hout
      exact delivers_pure ⟨hs, Delegable.live_eq_some_current hout⟩
    · refine (recycleShielded_delivers (x := x.putBook s) hwallet).mono fun _ z hz => ?_
      subst hz
      exact ⟨hs, rfl⟩

end Turns

/-! ## Whatever the network does -/

/-- The instructions that a lane's scripts send. -/
def Lane.sends {α : Type} (l : Lane α) (wallet : Pubkey) : List Ix :=
  [l.commit wallet, l.undelegate wallet, l.delegate wallet, l.confirm wallet]

/-- One of the two lanes' instructions is carried out, before 2106. -/
def Delegations.Sent (rt : Runtime) (wallet : Pubkey) (x y : Delegations) : Prop :=
  ∃ now ix, InClock now ∧ ix ∈ bookLane.sends wallet ++ shieldedLane.sends wallet ∧
    x.send rt wallet now ix = .ok y

section Sent

variable {α : Type} {l : Lane α} {rt : Runtime} {wallet : Pubkey}

/-- A lane whose instructions are among them. -/
theorem Lane.within_request (rt : Runtime)
    (hl : l.sends wallet ⊆ bookLane.sends wallet ++ shieldedLane.sends wallet) (ix : Ix)
    (hix : ix ∈ l.sends wallet) : ∀ now x y, InClock now → request rt wallet ix now x = .ok y →
      Delegations.Sent rt wallet x y := fun now _ _ hnow h => ⟨now, ix, hnow, hl hix, h⟩

/-- Asking the router does nothing to the accounts. -/
theorem Lane.within_endpoint {R : Delegations → Delegations → Prop} :
    Within InClock R l.endpoint := by
  unfold endpoint
  split
  · exact within_inquire
  · exact within_pure _

/-- Nor does topping up the rent. -/
theorem Lane.within_topUp {R : Delegations → Delegations → Prop} : Within InClock R l.topUp := by
  unfold topUp
  split
  · exact within_wait
  · exact within_pure _

/-- A recycle sends nothing else, wherever it ends. -/
theorem Lane.within_recycle
    (hl : l.sends wallet ⊆ bookLane.sends wallet ++ shieldedLane.sends wallet) :
    Within InClock (Delegations.Sent rt wallet) (l.recycle rt wallet) := by
  have hundelegate := within_request rt hl (l.undelegate wallet) (by simp [sends])
  have hdelegate := within_request rt hl (l.delegate wallet) (by simp [sends])
  have hconfirm := within_request rt hl (l.confirm wallet) (by simp [sends])
  refine Within.bind (Within.bind ?_ fun _ => within_await hundelegate) fun _ =>
    Within.bind (within_topUp.bind fun _ => Within.bind ?_ fun _ => within_wait) fun _ =>
      within_endpoint.bind fun _ => ?_
  · refine within_survey.bind fun out => ?_
    split
    · exact within_endpoint.bind fun _ => within_schedule
    · exact within_pure _
  · refine within_survey.bind fun out => ?_
    split
    · exact within_pure _
    · exact within_send hdelegate
  · generalize l.retries = n
    induction n with
    | zero => exact within_send hconfirm
    | succ n ih => exact (within_send hconfirm).tryCatch fun _ => ih

/-- So does a turn. -/
theorem Lane.within_turn
    (hl : l.sends wallet ⊆ bookLane.sends wallet ++ shieldedLane.sends wallet) (commits : ℕ) :
    Within InClock (Delegations.Sent rt wallet) (l.turn rt wallet commits) := by
  have hcommit := within_request rt hl (l.commit wallet) (by simp [sends])
  have hanew : Within InClock (Delegations.Sent rt wallet) (l.recycleAnew rt wallet) :=
    (within_recycle hl).bind fun _ => within_endpoint.bind fun _ => within_pure _
  unfold turn
  split
  · exact hanew
  · refine Within.tryCatch (Within.bind (within_schedule.bind fun _ => within_meanwhile hcommit)
      fun _ => within_pure _) fun e => ?_
    cases e with
    | limit => exact hanew
    | failed f => exact within_throw _
    | timedOut => exact within_throw _
    | notDelegated => exact within_throw _

/-- And what the keeper starts with. -/
theorem Lane.within_heal
    (hl : l.sends wallet ⊆ bookLane.sends wallet ++ shieldedLane.sends wallet) :
    Within InClock (Delegations.Sent rt wallet) (l.heal rt wallet) := by
  refine within_survey.bind fun out => ?_
  split
  · exact within_pure _
  · exact within_recycle hl

/-- What the keeper starts with sends nothing else either. -/
theorem within_startUp : Within InClock (Delegations.Sent rt wallet) (startUp rt wallet) :=
  (bookLane.within_heal (List.subset_append_left _ _)).bind fun _ =>
    bookLane.within_endpoint.bind fun _ => within_wait.bind fun _ =>
      shieldedLane.within_heal (List.subset_append_right _ _)

end Sent

/-- An action at a reading of the clock before 2106. -/
def BeforeEnd (_ : World) (a : Action) (_ : World) : Prop := InClock a.now

instance (w : World) (a : Action) (w' : World) : Decidable (BeforeEnd w a w') :=
  inferInstanceAs (Decidable (InClock _))

/-- Nothing is lost: the accounts come by a run of the program, which leaves the vault and the
aggregate's current copy, and at most ticks the book's. -/
structure Delegations.Keeps (rt : Runtime) (x y : Delegations) : Prop where
  run : RunWith rt BeforeEnd x y
  vault : y.world.vault = x.world.vault
  shielded : y.world.shielded.current = x.world.shielded.current
  book : Relation.ReflTransGen (fun b c => ∃ now, tick b now = .ok c) x.world.book.current
    y.world.book.current

/-- The moves of what the lanes send. -/
def Move.OfLane : Move → Prop
  | .tick _ | .delegateBook | .commitBook | .undelegateBook | .delegateShielded
  | .commitShielded | .undelegateShielded | .other => True
  | _ => False

/-- Such a move leaves the vault and the aggregate's current copy, and at most ticks the book's. -/
theorem Ledger.Step.ofLane {L L' : Ledger} {m : Move} (hm : m.OfLane) (h : Ledger.Step L m L') :
    L'.vault = L.vault ∧ L'.shielded.current = L.shielded.current ∧
      (L'.book.current = L.book.current ∨ ∃ now, Agama.tick L.book.current now =
        .ok L'.book.current) := by
  cases h with
  | deposit | redeem | depositPrivate | redeemPrivate | absorb | setApr => exact hm.elim
  | @tick now b run =>
    refine ⟨rfl, rfl, .inr ⟨now, ?_⟩⟩
    rw [writeBook, Delegable.current_write]
    exact run
  | delegateBook run => exact ⟨rfl, rfl, .inl (Delegable.delegate_eq_some run).2⟩
  | commitBook run => exact ⟨rfl, rfl, .inl (Delegable.commit_eq_some run).2⟩
  | undelegateBook run => exact ⟨rfl, rfl, .inl (Delegable.undelegate_eq_some run).2.1⟩
  | delegateShielded run => exact ⟨rfl, (Delegable.delegate_eq_some run).2, .inl rfl⟩
  | commitShielded run => exact ⟨rfl, (Delegable.commit_eq_some run).2, .inl rfl⟩
  | undelegateShielded run => exact ⟨rfl, (Delegable.undelegate_eq_some run).2.1, .inl rfl⟩
  | other => exact ⟨rfl, rfl, .inl rfl⟩

namespace Delegations

variable {rt : Runtime} {wallet : Pubkey} {x y z : Delegations}

/-- Doing nothing loses nothing. -/
theorem Keeps.refl (x : Delegations) : x.Keeps rt x := ⟨.refl, rfl, rfl, .refl⟩

/-- Nor do two steps that lose nothing. -/
theorem Keeps.trans (h : x.Keeps rt y) (h' : y.Keeps rt z) : x.Keeps rt z :=
  ⟨Relation.ReflTransGen.trans h.run h'.run, h'.vault.trans h.vault, h'.shielded.trans h.shielded,
    h.book.trans h'.book⟩

/-- What the keeper sends loses nothing. -/
theorem Sent.keeps (h : Sent rt wallet x y) : x.Keeps rt y := by
  obtain ⟨now, ix, hnow, hix, hrun⟩ := h
  have hlane : (ix.move now).OfLane := by
    simp only [Lane.sends, bookLane, shieldedLane, List.cons_append, List.nil_append,
      List.mem_cons, List.not_mem_nil, or_false] at hix
    rcases hix with rfl | rfl | rfl | rfl | rfl | rfl | rfl | rfl <;> trivial
  obtain ⟨hvault, hshielded, hbook⟩ := (World.step_ledger (step_world hrun).1).ofLane hlane
  refine ⟨.single ⟨_, hrun, hnow⟩, hvault, hshielded, ?_⟩
  rcases hbook with hsame | hticked
  · rw [show y.world.book.current = x.world.book.current from hsame]
  · exact .single hticked

/-- A script that sends nothing else loses nothing, whatever the network does. -/
def KeptBy {α : Type} (rt : Runtime) (x : Delegations) (m : KeeperScript α) : Prop :=
  ∀ net, net.Timed InClock → x.Keeps rt (final (m (x, net))).1

/-- What only sends what the lanes send loses nothing. -/
theorem keptBy_of_within {α : Type} {m : KeeperScript α}
    (h : Within InClock (Sent rt wallet) m) (x : Delegations) : KeptBy rt x m := fun net hnet =>
  Runs.preserves (I := fun y => x.Keeps rt y) (fun hx hs => hx.trans hs.keeps) (h x net hnet).1
    (.refl x)

end Delegations

/-! ## The law -/

/-- What the keeper can rely on in a state, whatever it has counted itself. -/
structure KeepsPublishing (rt : Runtime) (wallet : Pubkey) (x : Delegations) : Prop where
  /-- When everything arrives in time, every turn publishes the rollup's book and the live
  aggregate, and leaves them delegated. -/
  book : x.world.book.live ≠ none → ∀ commits,
    Delivers InClock (bookLane.turn rt wallet commits) x fun _ y => x.PublishedBook y
  shielded : x.world.shielded.live ≠ none → ∀ commits,
    Delivers InClock (shieldedLane.turn rt wallet commits) x fun _ y =>
      x.PublishedShielded wallet y
  /-- Then a recycle finishes from wherever an earlier one was cut off, and so the keeper starts. -/
  recycledBook : Delivers InClock (recycleBook rt wallet) x fun _ y => x.RecycledBook y
  recycledShielded :
    Delivers InClock (recycleShielded rt wallet) x fun _ y => x.RecycledShielded wallet y
  started : Delivers InClock (startUp rt wallet) x fun _ y => x.Started y
  /-- Otherwise they throw, or their publications come later, but they lose nothing. -/
  kept : (∀ commits, x.KeptBy rt (bookLane.turn rt wallet commits)) ∧
    (∀ commits, x.KeptBy rt (shieldedLane.turn rt wallet commits)) ∧
    x.KeptBy rt (recycleBook rt wallet) ∧ x.KeptBy rt (recycleShielded rt wallet) ∧
    x.KeptBy rt (startUp rt wallet)
  /-- Without a recycle, a book whose commits are used up is never published again. -/
  stale : commitLimit ≤ x.bookCommits → x.world.book.live ≠ none →
    ∀ y, x.StaysDelegated rt y → y.world.book.base = x.world.book.base

/-- In every state that is reached before 2106, by whatever interleaving of the program's actions,
commits and recycles cut off anywhere, the keeper's next turn publishes, when MagicBlock does its
part in time. -/
theorem keeper_never_stuck {rt : Runtime} {wallet custodyOwner : Pubkey} {book : PoolBook}
    {x : Delegations} (hbook : InClock book.lastTs)
    (hrun : Delegations.RunWith rt BeforeEnd ⟨World.start rt wallet custodyOwner book, 0, 0⟩ x) :
    KeepsPublishing rt wallet x := by
  have hclock : InClock x.world.book.current.lastTs :=
    (World.run_lastTs id hrun.world ⟨hbook, hbook⟩).2
  have hwallet : wallet = x.world.vault.authority := (World.run_authority hrun.world).symm
  have hbookLane := List.subset_append_left (bookLane.sends wallet) (shieldedLane.sends wallet)
  have hshieldedLane := List.subset_append_right (bookLane.sends wallet) (shieldedLane.sends wallet)
  exact
    { book := fun hlive => bookLane_turn hwallet hlive hclock
      shielded := fun hlive => shieldedLane_turn hwallet hlive
      recycledBook := recycleBook_delivers hwallet hclock
      recycledShielded := recycleShielded_delivers hwallet
      started := startUp_delivers hwallet hclock
      kept := ⟨fun commits => Delegations.keptBy_of_within (Lane.within_turn hbookLane commits) x,
        fun commits => Delegations.keptBy_of_within (Lane.within_turn hshieldedLane commits) x,
        Delegations.keptBy_of_within (Lane.within_recycle hbookLane) x,
        Delegations.keptBy_of_within (Lane.within_recycle hshieldedLane) x,
        Delegations.keptBy_of_within within_startUp x⟩
      stale := fun hspent hlive y hy => Delegations.stale hspent hlive hy }

/-- The book's ten commits, and a year of yield that none of them has published. -/
def tenCommits : List Action :=
  delegatePrivate ++
    [.program (.alone [authority] 100) (.delegateBook authority),
      .program (.alone [user] 110) (.faucet user),
      .program (.alone [user] 110) (.deposit user 400000000),
      .program (.alone [authority] 120) (.absorb authority 400000000 0)] ++
    List.replicate 10 (.program (.alone [user] 130) (.commitBook user)) ++
    [.program (.alone [user] 31536120) (.tick user)]

/-- A network on which the undelegation is accepted, and does not land while the recycle waits. -/
def slowNet : Net ℤ := fun i => ⟨31536130, i ≤ 3, true⟩

/-- The keeper publishes that too, although its delegation sponsors no commit any more; and where
the undelegation does not land in time it throws, and nothing is lost. -/
theorem keeper_never_stuck_spent :
    let x := Delegations.follow deployment BeforeEnd ⟨World.deployed 800, 0, 0⟩ tenCommits
    x.bookCommits = commitLimit ∧ x.world.book.base.nav.val = 400000000 ∧
      (∃ commits y net,
        bookLane.turn deployment authority 3 (x, .atOnce 31536130) = .ok commits (y, net) ∧
          y.world.book.base.nav.val = 432000000) ∧
      threw (bookLane.turn deployment authority 3 (x, slowNet)) = true ∧
      x.Keeps deployment (final (bookLane.turn deployment authority 3 (x, slowNet))).1 := by
  intro x
  have hlaw : KeepsPublishing deployment authority x :=
    keeper_never_stuck inClock_zero (Delegations.run_follow _ _)
  have hfacts : x.bookCommits = commitLimit ∧ x.world.book.base.nav.val = 400000000 ∧
      x.world.book.live ≠ none ∧ x.world.book.current.nav.val = 432000000 := by decide +kernel
  obtain ⟨hcommits, hbase, hlive, hcurrent⟩ := hfacts
  have hclock : InClock 31536130 := by decide
  obtain ⟨commits, y, net, hturn, -, s, rfl, hpublished, -⟩ :=
    hlaw.book hlive 3 _ (Net.prompt_atOnce hclock)
  refine ⟨hcommits, hbase, ⟨commits, _, net, hturn, ?_⟩, by decide +kernel,
    hlaw.kept.1 3 slowNet fun _ => hclock⟩
  change s.copy.base.nav.val = _
  rw [hpublished, hcurrent]

end Agama
