import Agama.Deployment
import Agama.Refinement

/-!
# What Solana learns

Positions, tickets and sessions live in the enclave, and Solana sees the vault and the committed
copies of the book and of the aggregate. These move by a function of themselves and of the amounts,
the share counts and the clock alone, so two runs that differ only in whose positions the private
steps name look the same on Solana; and between two commits a private step does not show there
at all.
-/

namespace Agama

/-! ## The accounts that everyone shares -/

/-- The vault, the book and the aggregate, on both layers. -/
structure Shared where
  vault : Vault
  book : Delegable PoolBook
  shielded : Delegable Shielded
  deriving DecidableEq

/-- The shared accounts of the ledger. -/
def Ledger.shared (L : Ledger) : Shared := ⟨L.vault, L.book, L.shielded⟩

/-- What a move makes of the shared accounts. -/
def Shared.next (x : Shared) : Move → Result Shared
  | .deposit amount => do
    let shares ← minted x.vault x.book.base x.shielded.base amount
    pure { x with vault := x.vault.deposited shares amount }
  | .redeem shares => do
    let assets ← paid x.vault x.book.base x.shielded.base shares
    pure { x with vault := x.vault.redeemed shares assets }
  | .depositPrivate amount => do
    let shares ← minted x.vault x.book.base x.shielded.current amount
    pure { x with shielded := x.shielded.write (x.shielded.current.deposited shares amount) }
  | .redeemPrivate shares => do
    let assets ← paid x.vault x.book.base x.shielded.current shares
    pure { x with shielded := x.shielded.write (x.shielded.current.redeemed shares assets) }
  | .tick now => do
    let book ← tick x.book.current now
    pure { x with book := x.book.write book }
  | .absorb now inflow outflow => do
    let (book, _) ← absorb x.book.current now inflow outflow
    pure { x with book := x.book.write book }
  | .setApr now index aprBps => do
    let book ← setApr x.book.current now index aprBps
    pure { x with book := x.book.write book }
  | .delegateBook => do
    let book ← orElse x.book.delegate .external
    pure { x with book }
  | .commitBook => do
    let book ← orElse x.book.commit .external
    pure { x with book }
  | .undelegateBook => do
    let book ← orElse x.book.undelegate .external
    pure { x with book }
  | .delegateShielded => do
    let shielded ← orElse x.shielded.delegate .external
    pure { x with shielded }
  | .commitShielded => do
    let shielded ← orElse x.shielded.commit .external
    pure { x with shielded }
  | .undelegateShielded => do
    let shielded ← orElse x.shielded.undelegate .external
    pure { x with shielded }
  | .other => pure x

/-- A step of the ledger moves the shared accounts by their own function. -/
theorem Ledger.Step.next {L L' : Ledger} {m : Move} (h : Ledger.Step L m L') :
    L.shared.next m = .ok L'.shared := by
  cases h with
  | deposit mints =>
    simp only [Shared.next, bind_eq_ok, pure_eq_ok]
    exact ⟨_, minted_eq_ok.mpr mints, rfl⟩
  | redeem pays covered =>
    simp only [Shared.next, bind_eq_ok, pure_eq_ok]
    exact ⟨_, paid_eq_ok.mpr pays, rfl⟩
  | depositPrivate mints held total =>
    simp only [Shared.next, bind_eq_ok, pure_eq_ok]
    exact ⟨_, minted_eq_ok.mpr mints, rfl⟩
  | redeemPrivate pays held total =>
    simp only [Shared.next, bind_eq_ok, pure_eq_ok]
    exact ⟨_, paid_eq_ok.mpr pays, rfl⟩
  | tick run | absorb run | setApr run =>
    simp only [Shared.next, bind_eq_ok, pure_eq_ok]
    exact ⟨_, run, rfl⟩
  | delegateBook run | commitBook run | undelegateBook run | delegateShielded run
  | commitShielded run | undelegateShielded run =>
    simp only [Shared.next, bind_eq_ok, orElse_eq_ok, pure_eq_ok]
    exact ⟨_, run, rfl⟩
  | other => rfl

/-- The moves of private steps. -/
def Move.isPrivate : Move → Bool
  | .depositPrivate _ | .redeemPrivate _ | .other => true
  | _ => false

/-- The shared accounts. -/
def World.shared (w : World) : Shared := w.ledger.shared

/-- What Solana shows of them. -/
structure Visible where
  vault : Vault
  book : PoolBook
  shielded : Shielded
  deriving DecidableEq

/-- The vault, the committed book and the committed aggregate. -/
def Shared.visible (x : Shared) : Visible := ⟨x.vault, x.book.base, x.shielded.base⟩

/-- A write to a live aggregate does not show. -/
theorem Shared.visible_write {x : Shared} (s : Shielded) (hlive : x.shielded.live ≠ none) :
    Shared.visible { x with shielded := x.shielded.write s } = x.visible := by
  simp only [visible, Delegable.write_of_live s hlive]

/-- What a private move does to a live aggregate does not show. -/
theorem Shared.visible_of_next {x x' : Shared} {m : Move} (hm : m.isPrivate = true)
    (hlive : m ≠ .other → x.shielded.live ≠ none) (h : x.next m = .ok x') :
    x'.visible = x.visible := by
  cases m with
  | depositPrivate amount =>
    simp only [next, bind_eq_ok, pure_eq_ok] at h
    obtain ⟨shares, -, rfl⟩ := h
    exact visible_write _ (hlive (by simp))
  | redeemPrivate shares =>
    simp only [next, bind_eq_ok, pure_eq_ok] at h
    obtain ⟨assets, -, rfl⟩ := h
    exact visible_write _ (hlive (by simp))
  | other =>
    cases h
    rfl
  | _ => cases hm

/-! ## Steps that differ in names -/

/-- The private instructions, which run in the enclave on a position or on the exit book. -/
def Ix.isPrivate : Ix → Bool
  | .depositPrivate .. | .redeemPrivate .. | .redeemPrivateTo .. | .syncPosition ..
  | .initPermission .. | .setPermission .. | .closePermission .. | .authorizeSession ..
  | .rotateSession .. | .settleExit .. => true
  | _ => false

/-- The position that a private instruction acts on. -/
def Ix.actsOn : Ix → Option Pubkey
  | .depositPrivate _ _ position _ | .redeemPrivate _ position _ | .redeemPrivateTo _ position _ _
  | .syncPosition _ position _ | .initPermission _ position _ | .setPermission _ position _ _
  | .closePermission _ position | .rotateSession _ position _ _ => some position
  | .authorizeSession owner _ => some owner
  | _ => none

/-- The same instruction, for private ones up to the keys and ids that they name, with the same
amount or share count. -/
inductive Ix.SameStep : Ix → Ix → Prop
  | same (ix : Ix) : SameStep ix ix
  | depositPrivate (depositor depositor' signer signer' position position' : Pubkey)
      (amount : U64) : SameStep (.depositPrivate depositor signer position amount)
        (.depositPrivate depositor' signer' position' amount)
  | redeemPrivate (signer signer' position position' : Pubkey) (r r' : ExitRequest)
      (shares : r.shares = r'.shares) :
      SameStep (.redeemPrivate signer position r) (.redeemPrivate signer' position' r')
  | redeemPrivateTo (signer signer' position position' : Pubkey) (r r' : ExitRequest)
      (payout payout' : Pubkey) (shares : r.shares = r'.shares) :
      SameStep (.redeemPrivateTo signer position r payout)
        (.redeemPrivateTo signer' position' r' payout')
  | syncPosition (signer signer' position position' : Pubkey) (withAgyld withAgyld' : Bool) :
      SameStep (.syncPosition signer position withAgyld)
        (.syncPosition signer' position' withAgyld')
  | initPermission (signer signer' position position' : Pubkey) (viewers viewers' : List Pubkey) :
      SameStep (.initPermission signer position viewers)
        (.initPermission signer' position' viewers')
  | setPermission (signer signer' position position' : Pubkey) (isPrivate isPrivate' : Bool)
      (viewers viewers' : List Pubkey) :
      SameStep (.setPermission signer position isPrivate viewers)
        (.setPermission signer' position' isPrivate' viewers')
  | closePermission (signer signer' position position' : Pubkey) :
      SameStep (.closePermission signer position) (.closePermission signer' position')
  | authorizeSession (owner owner' key key' : Pubkey) :
      SameStep (.authorizeSession owner key) (.authorizeSession owner' key')
  | rotateSession (submitter submitter' position position' key key' : Pubkey)
      (expiry expiry' : ℤ) : SameStep (.rotateSession submitter position key expiry)
        (.rotateSession submitter' position' key' expiry')
  | settleExit (authority authority' : Pubkey) (groupId groupId' : U32) :
      SameStep (.settleExit authority groupId) (.settleExit authority' groupId')

/-- The same action at the same time, up to names; private token movements differ freely. -/
inductive Action.SameStep : Action → Action → Prop
  | program {tx tx' : Tx} {ix ix' : Ix} (now : tx.now = tx'.now) (same : ix.SameStep ix') :
      SameStep (.program tx ix) (.program tx' ix')
  | token (t t' : TokenAction) : SameStep (.token t) (.token t')

/-- Actions that differ in names only mean the same for the ledger. -/
theorem Action.SameStep.move {a a' : Action} (h : a.SameStep a') : a.move = a'.move := by
  cases h with
  | @program tx tx' _ _ now same =>
    simp only [Action.move, now]
    cases same with
    | redeemPrivate _ _ _ _ r r' shares => simp only [Ix.move, shares]
    | redeemPrivateTo _ _ _ _ r r' _ _ shares => simp only [Ix.move, shares]
    | _ => rfl
  | token t t' => rfl

/-- Two runs of the program that take the same steps up to names. -/
abbrev Twins (rt : Runtime) : World × World → World × World → Prop :=
  Runs.Lockstep (fun a w w' => w.step rt a = .ok w') Action.SameStep

namespace World

variable {rt : Runtime} {w w' : World} {tx : Tx} {ix : Ix}

/-- Every action moves the shared accounts by their own function. -/
theorem step_shared {a : Action} (h : w.step rt a = .ok w') :
    w.shared.next a.move = .ok w'.shared := (step_ledger h).next

/-! ## Private steps -/

/-- A private step on a position that is in the enclave, or a token movement. -/
def Private (w : World) (a : Action) (_ : World) : Prop :=
  match a with
  | .program _ ix => ix.isPrivate = true ∧
      ∀ o ∈ ix.actsOn, ∀ d ∈ w.positions.lookup o, d.live ≠ none
  | .token _ => True

instance (w : World) (w' : World) : (a : Action) → Decidable (w.Private a w')
  | .program _ ix => inferInstanceAs (Decidable (_ ∧
      ∀ o ∈ ix.actsOn, ∀ d ∈ w.positions.lookup o, d.live ≠ none))
  | .token _ => .isTrue trivial

/-- A flow of a position in the enclave writes the live aggregate. -/
theorem live_of_sameLayer {d : Delegable Position} {u : Unit}
    (hsame : sameLayer d w.shielded = .ok u) (hd : d.live ≠ none) : w.shielded.live ≠ none := by
  rw [sameLayer, constraint_eq_ok] at hsame
  rw [← Option.isSome_iff_ne_none, ← hsame]
  exact Option.isSome_iff_ne_none.mpr hd

/-- The private flows of a position in the enclave run next to a live aggregate. -/
theorem live_of_private (hix : ix.isPrivate = true)
    (hlive : ∀ o ∈ ix.actsOn, ∀ d ∈ w.positions.lookup o, d.live ≠ none)
    (hmove : ix.move tx.now ≠ .other) (h : w.exec rt tx ix = .ok w') : w.shielded.live ≠ none := by
  cases ix with
  | depositPrivate depositor signer position amount =>
    simp only [exec, execDepositPrivate, bind_eq_ok, loadPosition_eq_ok] at h
    obtain ⟨_, -, _, -, d, ⟨hd, -⟩, _, hsame, -⟩ := h
    exact live_of_sameLayer hsame (hlive position rfl d hd)
  | redeemPrivate signer position | redeemPrivateTo signer position =>
    simp only [exec, execRedeemPrivate, bind_eq_ok, loadPosition_eq_ok] at h
    obtain ⟨_, -, d, ⟨hd, -⟩, _, hsame, -⟩ := h
    exact live_of_sameLayer hsame (hlive position rfl d hd)
  | syncPosition | initPermission | setPermission | closePermission | authorizeSession
  | rotateSession | settleExit => exact absurd rfl hmove
  | _ => cases hix

/-- A private instruction is a private move. -/
theorem isPrivate_move (hix : ix.isPrivate = true) (now : ℤ) : (ix.move now).isPrivate = true := by
  cases ix with
  | depositPrivate | redeemPrivate | redeemPrivateTo | syncPosition | initPermission
  | setPermission | closePermission | authorizeSession | rotateSession | settleExit => rfl
  | _ => cases hix

/-- Solana sees nothing of a private step. -/
theorem visible_of_private {a : Action} (hprivate : w.Private a w') (h : w.step rt a = .ok w') :
    w'.shared.visible = w.shared.visible := by
  cases a with
  | program tx ix =>
    obtain ⟨hix, hlive⟩ := hprivate
    exact Shared.visible_of_next (isPrivate_move hix tx.now)
      (fun hmove => live_of_private hix hlive hmove h) (step_shared h)
  | token t => exact Shared.visible_of_next rfl (fun hmove => absurd rfl hmove) (step_shared h)

end World

/-! ## The law -/

/-- Two runs from one state that take the same steps up to names look the same on Solana after every
step, and private steps of positions in the enclave do not show there. -/
theorem solana_learns_aggregate (rt : Runtime) :
    (∀ w v v' : World, Relation.ReflTransGen (Twins rt) (w, w) (v, v') →
      v.shared.visible = v'.shared.visible) ∧
      ∀ w w' : World, Relation.ReflTransGen (StepWith rt World.Private) w w' →
        w'.shared.visible = w.shared.visible := by
  constructor
  · intro w v v' hrun
    have hshared : v.shared = v'.shared :=
      Runs.view_lockstep hrun World.step_shared Action.SameStep.move rfl
    rw [hshared]
  · intro w w' hrun
    refine Runs.preserves (I := fun v : World => v.shared.visible = w.shared.visible) ?_ hrun rfl
    rintro v v' hv ⟨a, ha, hprivate⟩
    exact (World.visible_of_private hprivate ha).trans hv

/-- Two lists of actions that are the same up to names, and that both succeed, are twin runs. -/
theorem twins_run {rt : Runtime} {as as' : List Action} (h : List.Forall₂ Action.SameStep as as')
    {w w' : World} (hw : w.replays rt (fun _ _ _ => True) as = true)
    (hw' : w'.replays rt (fun _ _ _ => True) as' = true) :
    Relation.ReflTransGen (Twins rt) (w, w') (w.after rt as, w'.after rt as') := by
  induction h generalizing w w' with
  | nil => exact .refl
  | @cons a a' as as' hsame _ ih =>
    unfold World.replays at hw hw'
    unfold World.after
    cases hstep : w.step rt a with
    | error e => simp [hstep] at hw
    | ok v =>
      cases hstep' : w'.step rt a' with
      | error e => simp [hstep'] at hw'
      | ok v' =>
        simp only [hstep, decide_true, Bool.true_and] at hw
        simp only [hstep', decide_true, Bool.true_and] at hw'
        exact .head ⟨a, a', hsame, hstep, hstep'⟩ (ih hw hw')

/-- Two positions in the enclave, with the aggregate and the exit book. -/
def World.twoPositions : World :=
  (World.deployed 800).after deployment (openPrivate ++ delegatePrivate ++
    [.program (.alone [key 8] 100) (.initPosition (key 8)),
      .program (.alone [key 8] 100) (.delegatePosition (key 8))])

/-- A private deposit into an owner's position, and a redemption under an id. -/
def privateFlows (owner : Pubkey) (groupId : U32) : List Action :=
  let transfer := custodyTransfer depositor depositorAccount 100000000
  [.token (.sendPrivate transfer),
    .program (.next transfer [depositor, owner] 100)
      (.depositPrivate depositor owner owner 100000000),
    .program (.alone [owner] 200) (.redeemPrivate owner owner ⟨30000000, groupId, 0, 0, 1⟩)]

/-- The commit that publishes them. -/
def commitFlows : List Action := [.program (.alone [authority] 300) (.commitShielded authority)]

/-- Whichever of two owners deposits and redeems, Solana sees nothing until the commit, and then the
same aggregate. -/
theorem solana_learns_aggregate_twins :
    let before := World.twoPositions.after deployment (privateFlows positionOwner 1)
    let v := World.twoPositions.after deployment (privateFlows positionOwner 1 ++ commitFlows)
    let v' := World.twoPositions.after deployment (privateFlows (key 8) 2 ++ commitFlows)
    v.positions.lookup positionOwner ≠ v'.positions.lookup positionOwner ∧
      v.shared.visible.shielded.totalIn = 100000000 ∧ v.shared.visible = v'.shared.visible ∧
      before.shared.visible = World.twoPositions.shared.visible := by
  intro before v v'
  obtain ⟨htwins, hprivate⟩ := solana_learns_aggregate deployment
  have hsame : List.Forall₂ Action.SameStep (privateFlows positionOwner 1 ++ commitFlows)
      (privateFlows (key 8) 2 ++ commitFlows) :=
    .cons (.token _ _) (.cons (.program rfl (.depositPrivate ..)) (.cons
      (.program rfl (.redeemPrivate _ _ _ _ _ _ rfl)) (.cons (.program rfl (.same _)) .nil)))
  exact ⟨by decide +kernel, by decide +kernel,
    htwins _ _ _ (twins_run hsame (by decide +kernel) (by decide +kernel)),
    hprivate _ _ (run_of_replays (by decide +kernel))⟩

end Agama
