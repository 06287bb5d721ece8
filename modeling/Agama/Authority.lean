import Agama.Deployment
import Agama.Holdings

/-!
# Who controls an account

A position and its permission move under its owner's authority: the owner's signature, a live
session key's, or the signed message of a rotation. The aggregate is published by the vault's
authority. The contexts that hand a position or the book back to Solana check neither:
`CommitPosition` compares the owner that it is given with the position's without asking for a
signature, and `CommitBook` takes any payer.
-/

namespace Agama

/-- The transaction carries the authority of a position's owner: the owner signs, or the session key
does before it expires. -/
def SignedFor (tx : Tx) (p : Position) : Prop :=
  p.owner ∈ tx.signers ∨ p.sessionKey ∈ tx.signers ∧ tx.now < p.sessionExpiry

instance (tx : Tx) (p : Position) : Decidable (SignedFor tx p) :=
  inferInstanceAs (Decidable (_ ∨ _ ∧ _))

/-- An instruction that rotates the session, right after the owner's signature of its message. -/
def RotatesFor (rt : Runtime) (tx : Tx) (ix : Ix) (p : Position) : Prop :=
  ∃ submitter o key expiry prev, ix = .rotateSession submitter o key expiry ∧
    previousInstruction tx = .ok prev ∧
    CarriesSignature prev p.owner (sessionMessage rt (rt.positionKey p.owner) key expiry)

/-- An account's live copy is published: Solana's copy changes under it, or it is handed back. -/
def Published {α : Type} (d d' : Delegable α) : Prop :=
  d.live ≠ none ∧ (d'.base ≠ d.base ∨ d'.live = none)

/-- The instructions that publish the aggregate. -/
def Ix.PublishesShielded (ix : Ix) : Prop :=
  ∃ payer, ix = .commitShielded payer ∨ ix = .undelegateShielded payer

/-- Every account that the instruction touches moves under the authority that it belongs to. -/
structure Controlled (rt : Runtime) (tx : Tx) (ix : Ix) (w w' : World) : Prop where
  position : ∀ o d, w.positions.lookup o = some d → w'.holding o ≠ w.holding o →
    SignedFor tx d.current ∨ RotatesFor rt tx ix d.current
  shielded : ix.PublishesShielded ∨ Published w.shielded w'.shielded →
    w.vault.authority ∈ tx.signers
  book : w.book.live ≠ none → w'.book.live = none → w.book.current.authority ∈ tx.signers

/-- The two instructions that check no authority are sent by whom the account belongs to. -/
structure HandedBackByOwner (tx : Tx) (ix : Ix) (w : World) : Prop where
  position : ∀ payer o d, ix = .undelegatePosition payer o → w.positions.lookup o = some d →
    SignedFor tx d.current
  book : ∀ payer, ix = .undelegateBook payer → w.book.current.authority ∈ tx.signers

/-! ## Positions -/

/-- Whoever may act on a position and signed, signed for it. -/
theorem MayAct.signedFor {tx : Tx} {p : Position} {signer : Pubkey} (h : MayAct p signer tx.now)
    (hsigned : signer ∈ tx.signers) : SignedFor tx p := by
  rcases h with rfl | ⟨rfl, hlive⟩
  · exact .inl hsigned
  · exact .inr ⟨hsigned, hlive⟩

/-- Whatever changes what an owner holds is authorised, or hands the position back. -/
theorem Holding.Step.authorised {rt : Runtime} {tx : Tx} {o : Pubkey} {ix : Ix} {x x' : Holding}
    {d : Delegable Position} (hx : x.OwnedBy o) (hd : x.position = some d) (hne : x' ≠ x)
    (h : Holding.Step rt tx o ix x x') :
    SignedFor tx d.current ∨ RotatesFor rt tx ix d.current ∨
      ∃ payer, ix = .undelegatePosition payer o := by
  -- The owner that signs is the one that the address derives from, and the position names it.
  have howner : d.current.owner = o := hx d hd
  cases h with
  | other => exact absurd rfl hne
  | opened signed => cases hd
  | authorized signed | delegated signed run => exact .inl (.inl (howner ▸ signed))
  | @rotated d' submitter key expiry prev _ _ later reads signed =>
    cases hd
    exact .inr (.inl ⟨submitter, o, key, expiry, prev, rfl, reads, signed⟩)
  | acted signed mayAct =>
    cases hd
    exact .inl (mayAct.signedFor signed)
  | @undelegated d d' payer => exact .inr (.inr ⟨payer, rfl⟩)

namespace World

variable {rt : Runtime} {w w' : World} {tx : Tx} {ix : Ix}

/-- Handing a position back changes what its owner holds. -/
theorem undelegatePosition_changes {payer o : Pubkey}
    (h : w.exec rt tx (.undelegatePosition payer o) = .ok w') : w'.holding o ≠ w.holding o := by
  simp only [exec, execUndelegatePosition, bind_eq_ok, orElse_eq_ok, pure_eq_ok] at h
  obtain ⟨_, -, d, hd, d', hrun, rfl⟩ := h
  intro heq
  have hlookup : some d' = some d := by
    have hpos := congrArg Holding.position heq
    rwa [holding, holding, storePosition, AList.lookup_insert, hd] at hpos
  cases hlookup
  exact Delegable.undelegate_live_ne_none hrun (Delegable.undelegate_eq_some hrun).2.2

end World

/-! ## The book and the aggregate -/

/-- Only a commit or an undelegation publishes the aggregate. -/
theorem Ledger.Step.publishes {L L' : Ledger} {m : Move} (h : Ledger.Step L m L')
    (hpub : Published L.shielded L'.shielded) : m = .commitShielded ∨ m = .undelegateShielded := by
  obtain ⟨hlive, hpub⟩ := hpub
  have hsame : ¬ (L.shielded.base ≠ L.shielded.base ∨ L.shielded.live = none) :=
    not_or.mpr ⟨not_not.mpr rfl, hlive⟩
  have hwrite (s : Shielded) :
      ¬ ((L.shielded.write s).base ≠ L.shielded.base ∨ (L.shielded.write s).live = none) := by
    rw [Delegable.write_of_live s hlive]
    exact not_or.mpr ⟨not_not.mpr rfl, Option.some_ne_none s⟩
  cases h with
  | commitShielded run => exact .inl rfl
  | undelegateShielded run => exact .inr rfl
  -- Private flow writes the live copy, which publishes nothing.
  | depositPrivate mints held total => exact absurd hpub (hwrite _)
  | redeemPrivate pays held total => exact absurd hpub (hwrite _)
  | delegateShielded run => exact absurd (Delegable.delegate_live_eq_none run) hlive
  | deposit | redeem | tick | absorb | setApr | delegateBook | commitBook | undelegateBook
  | other =>
    exact absurd hpub hsame

/-- Only an undelegation hands the book back. -/
theorem Ledger.Step.handsBack {L L' : Ledger} {m : Move} (h : Ledger.Step L m L')
    (hlive : L.book.live ≠ none) (hback : L'.book.live = none) : m = .undelegateBook := by
  cases h with
  | undelegateBook run => rfl
  | tick run | absorb run | setApr run =>
    rw [writeBook, Delegable.write_of_live _ hlive] at hback
    cases hback
  | delegateBook run => exact absurd (Delegable.delegate_live_eq_none run) hlive
  | commitBook run => exact absurd hback (Delegable.commit_live_ne_none run)
  | deposit | redeem | depositPrivate | redeemPrivate | delegateShielded | commitShielded
  | undelegateShielded | other => exact absurd hback hlive

/-- Only two instructions make a move that publishes the aggregate. -/
theorem Ix.publishesShielded_of_move {ix : Ix} {now : ℤ}
    (h : ix.move now = .commitShielded ∨ ix.move now = .undelegateShielded) :
    ix.PublishesShielded := by
  cases ix with
  | commitShielded payer => exact ⟨payer, .inl rfl⟩
  | undelegateShielded payer => exact ⟨payer, .inr rfl⟩
  | _ => rcases h with h | h <;> cases h

/-- Only one makes the move that undelegates the book. -/
theorem Ix.eq_undelegateBook_of_move {ix : Ix} {now : ℤ} (h : ix.move now = .undelegateBook) :
    ∃ payer, ix = .undelegateBook payer := by
  cases ix with
  | undelegateBook payer => exact ⟨payer, rfl⟩
  | _ => cases h

namespace World

variable {rt : Runtime} {w w' : World} {tx : Tx} {ix : Ix}

/-- The aggregate is published with the vault authority's signature. -/
theorem publishes_signed (h : w.exec rt tx ix = .ok w') (hpub : ix.PublishesShielded) :
    w.vault.authority ∈ tx.signers := by
  obtain ⟨payer, rfl | rfl⟩ := hpub
  all_goals
    simp only [exec, bind_eq_ok, authoritySigns_eq_ok] at h
    obtain ⟨_, ⟨hsigned, rfl⟩, -⟩ := h
    exact hsigned

/-- Handing the book back leaves no live copy. -/
theorem undelegateBook_handsBack {payer : Pubkey}
    (h : w.exec rt tx (.undelegateBook payer) = .ok w') :
    w.book.live ≠ none ∧ w'.book.live = none := by
  simp only [exec, bind_eq_ok, orElse_eq_ok, pure_eq_ok] at h
  obtain ⟨_, -, d, hrun, rfl⟩ := h
  exact ⟨Delegable.undelegate_live_ne_none hrun, (Delegable.undelegate_eq_some hrun).2.2⟩

end World

/-! ## The law -/

/-- In every reachable state, an instruction moves positions, the aggregate and the book under the
authority that they belong to, exactly when the two instructions that hand an account back without
checking it are sent by whom the account belongs to. -/
theorem controlled_iff_handed_back_by_owner {rt : Runtime} {authority custodyOwner : Pubkey}
    {book : PoolBook} {w w' : World} {tx : Tx} {ix : Ix}
    (hrun : Run rt (World.start rt authority custodyOwner book) w)
    (h : w.exec rt tx ix = .ok w') :
    Controlled rt tx ix w w' ↔ HandedBackByOwner tx ix w := by
  constructor
  · rintro ⟨hposition, -, hbook⟩
    constructor
    · -- Handing back changes the holding, and it is not a rotation.
      rintro payer o d rfl hd
      rcases hposition o d hd (World.undelegatePosition_changes h) with hsigned | hrotates
      · exact hsigned
      · obtain ⟨_, _, _, _, _, hix, -⟩ := hrotates
        cases hix
    · rintro payer rfl
      obtain ⟨hlive, hback⟩ := World.undelegateBook_handsBack h
      exact hbook hlive hback
  · rintro ⟨hposition, hbook⟩
    refine ⟨fun o d hd hne => ?_, fun hpub => ?_, fun hlive hback => ?_⟩
    · -- Only a position that is handed back is not authorised by its own instruction.
      have hstep := World.exec_holding h o
      rcases hstep.authorised (World.run_ownedBy hrun o) hd hne with
        hsigned | hrotates | ⟨payer, hix⟩
      · exact .inl hsigned
      · exact .inr hrotates
      · exact .inl (hposition payer o d hix hd)
    · refine World.publishes_signed h (hpub.elim id fun hpub => ?_)
      exact Ix.publishesShielded_of_move ((World.exec_ledger h).publishes hpub)
    · obtain ⟨payer, hix⟩ :=
        Ix.eq_undelegateBook_of_move ((World.exec_ledger h).handsBack hlive hback)
      exact hbook payer hix

/-- The accounts with the book and a position in the rollups. -/
def World.deployedPosition : World :=
  (World.deployed 1000).after deployment
    [.program (.alone [authority] 100) (.delegateBook authority),
      .program (.alone [positionOwner] 100) (.initPosition positionOwner),
      .program (.alone [positionOwner] 100) (.delegatePosition positionOwner)]

/-- It is reached by a run of the program. -/
theorem World.deployedPosition_run :
    Run deployment (World.deployed 1000) World.deployedPosition :=
  run_of_replays (by decide +kernel)

/-- The owner hands the position back. -/
theorem handed_back_by_owner_controlled :
    ∃ w', Controlled deployment (.alone [positionOwner] 200)
      (.undelegatePosition positionOwner positionOwner) World.deployedPosition w' := by
  have hstep : World.deployedPosition.exec deployment (.alone [positionOwner] 200)
      (.undelegatePosition positionOwner positionOwner) = .ok _ := exec_after (by decide +kernel)
  refine ⟨_, (controlled_iff_handed_back_by_owner World.deployedPosition_run hstep).mpr
    ⟨fun payer o d hix hd => ?_, fun payer hix => by cases hix⟩⟩
  cases hix
  have howner := World.run_ownedBy World.deployedPosition_run positionOwner d hd
  exact .inl (howner ▸ List.mem_singleton_self positionOwner)

/-- A stranger hands the position back, and another transaction of the stranger the book. -/
theorem stranger_hands_back :
    Run deployment (World.deployed 1000) World.deployedPosition ∧ ∃ w₁ w₂ : World,
      World.deployedPosition.exec deployment (.alone [user] 200)
        (.undelegatePosition user positionOwner) = .ok w₁ ∧
      ¬ Controlled deployment (.alone [user] 200) (.undelegatePosition user positionOwner)
        World.deployedPosition w₁ ∧
      World.deployedPosition.exec deployment (.alone [user] 200) (.undelegateBook user) = .ok w₂ ∧
      ¬ Controlled deployment (.alone [user] 200) (.undelegateBook user)
        World.deployedPosition w₂ := by
  have hposition : World.deployedPosition.exec deployment (.alone [user] 200)
      (.undelegatePosition user positionOwner) = .ok _ := exec_after (by decide +kernel)
  have hbook : World.deployedPosition.exec deployment (.alone [user] 200) (.undelegateBook user) =
      .ok _ := exec_after (by decide +kernel)
  refine ⟨World.deployedPosition_run, _, _, hposition, fun hcontrolled => ?_, hbook,
    fun hcontrolled => ?_⟩
  · let p := initPosition positionOwner devnetVault
    have hd : World.deployedPosition.positions.lookup positionOwner = some ⟨p, some p⟩ := by
      decide +kernel
    have hchange := World.undelegatePosition_changes hposition
    rcases hcontrolled.position _ _ hd hchange with hsigned | hrotates
    · exact absurd hsigned (by decide +kernel)
    · obtain ⟨_, _, _, _, _, hix, -⟩ := hrotates
      cases hix
  · obtain ⟨hlive, hback⟩ := World.undelegateBook_handsBack hbook
    exact absurd (hcontrolled.book hlive hback) (by decide +kernel)

end Agama
