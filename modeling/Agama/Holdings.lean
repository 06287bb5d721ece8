import Agama.Refinement

/-!
# What an owner holds

The position at an owner's address and its permission, and everything that an instruction can do to
them. `Holding.Step` names, for each effect, the keys that signed for it; the laws about who
controls a position and about its session follow from it, without another look at the instructions.
-/

namespace Agama

/-- The position at an owner's address, and its permission. -/
structure Holding where
  position : Option (Delegable Position)
  permission : Option Permission

/-- What an owner holds. -/
def World.holding (w : World) (o : Pubkey) : Holding := ⟨w.positions.lookup o, w.permissions o⟩

/-- What a transaction with the instruction `ix` can do to what `o` holds. -/
inductive Holding.Step (rt : Runtime) (tx : Tx) (o : Pubkey) : Ix → Holding → Holding → Prop
  /-- Nothing. -/
  | other {ix : Ix} {x : Holding} : Step rt tx o ix x x
  | opened {q : Option Permission} (signed : o ∈ tx.signers) :
      Step rt tx o (.initPosition o) ⟨none, q⟩ ⟨some (.atHome (initPosition o rt.vaultKey)), q⟩
  | authorized {d : Delegable Position} {key : Pubkey} {q : Option Permission}
      (signed : o ∈ tx.signers) :
      Step rt tx o (.authorizeSession o key) ⟨some d, q⟩
        ⟨some (d.write
          { d.current with sessionKey := key, sessionExpiry := tx.now + sessionTtl }), q⟩
  | rotated {d : Delegable Position} {submitter key : Pubkey} {expiry : ℤ} {prev : Instruction}
      {q q' : Option Permission} (later : d.current.sessionExpiry < expiry)
      (reads : previousInstruction tx = .ok prev)
      (signed : CarriesSignature prev d.current.owner
        (sessionMessage rt (rt.positionKey d.current.owner) key expiry)) :
      Step rt tx o (.rotateSession submitter o key expiry) ⟨some d, q⟩
        ⟨some (d.write { d.current with sessionKey := key, sessionExpiry := expiry }), q'⟩
  /-- An instruction of whoever may act on the position. -/
  | acted {ix : Ix} {d : Delegable Position} {p : Position} {signer : Pubkey}
      {q q' : Option Permission} (signed : signer ∈ tx.signers)
      (mayAct : MayAct d.current signer tx.now) (owner : p.owner = d.current.owner)
      (key : p.sessionKey = d.current.sessionKey)
      (expiry : p.sessionExpiry = d.current.sessionExpiry) :
      Step rt tx o ix ⟨some d, q⟩ ⟨some (d.write p), q'⟩
  | delegated {d d' : Delegable Position} {q : Option Permission} (signed : o ∈ tx.signers)
      (run : d.delegate = some d') : Step rt tx o (.delegatePosition o) ⟨some d, q⟩ ⟨some d', q⟩
  /-- Whoever signs as the payer. -/
  | undelegated {d d' : Delegable Position} {payer : Pubkey} {q : Option Permission}
      (run : d.undelegate = some d') :
      Step rt tx o (.undelegatePosition payer o) ⟨some d, q⟩ ⟨some d', q⟩

namespace World

variable {rt : Runtime} {w w' : World} {tx : Tx} {ix : Ix}

/-- An instruction that writes no position and no permission. -/
theorem holding_of_eq (hp : w'.positions = w.positions) (hq : w'.permissions = w.permissions)
    (o : Pubkey) : Holding.Step rt tx o ix (w.holding o) (w'.holding o) := by
  rw [holding, holding, hp, hq]
  exact .other

/-- An instruction that writes one position and its permission. -/
theorem holding_of_write {a : Pubkey} {d : Delegable Position} {q : Option Permission}
    (hp : w'.positions = w.positions.insert a d)
    (hq : w'.permissions = Function.update w.permissions a q)
    (hstep : Holding.Step rt tx a ix (w.holding a) ⟨some d, q⟩) (o : Pubkey) :
    Holding.Step rt tx o ix (w.holding o) (w'.holding o) := by
  unfold holding at hstep ⊢
  rw [hp, hq]
  by_cases ho : o = a
  · subst ho
    rw [AList.lookup_insert, Function.update_self]
    exact hstep
  · -- Every other owner keeps both.
    rw [AList.lookup_insert_ne ho, Function.update_of_ne ho]
    exact .other

/-- An instruction that writes one position. -/
theorem holding_storePosition {a : Pubkey} {d : Delegable Position}
    (hstep : Holding.Step rt tx a ix (w.holding a) ⟨some d, w.permissions a⟩) (o : Pubkey) :
    Holding.Step rt tx o ix (w.holding o) ((w.storePosition a d).holding o) := by
  refine holding_of_write ?_ ?_ hstep o
  · rfl
  · exact (Function.update_eq_self a w.permissions).symm

/-- What an owner with a position holds. -/
theorem holding_eq {a : Pubkey} {d : Delegable Position} (h : w.positions.lookup a = some d) :
    w.holding a = ⟨some d, w.permissions a⟩ := by
  rw [holding, h]

/-! ## Each instruction -/

/-- `init_position` opens a holding. -/
theorem execInitPosition_holding {owner : Pubkey} (h : w.execInitPosition rt tx owner = .ok w')
    (o : Pubkey) : Holding.Step rt tx o (.initPosition owner) (w.holding o) (w'.holding o) := by
  simp only [execInitPosition, bind_eq_ok, signs_eq_ok, constraint_eq_ok, pure_eq_ok] at h
  obtain ⟨_, hsigned, _, hnone, rfl⟩ := h
  refine holding_storePosition ?_ o
  rw [holding, hnone]
  exact .opened hsigned

/-- `authorize_session` sets the session of the owner's holding. -/
theorem execAuthorizeSession_holding {owner key : Pubkey}
    (h : w.execAuthorizeSession tx owner key = .ok w') (o : Pubkey) :
    Holding.Step rt tx o (.authorizeSession owner key) (w.holding o) (w'.holding o) := by
  simp only [execAuthorizeSession, bind_eq_ok, signs_eq_ok, loadPosition_eq_ok, pure_eq_ok] at h
  obtain ⟨_, hsigned, d, ⟨hd, -⟩, p, hrun, rfl⟩ := h
  refine holding_storePosition ?_ o
  rw [holding_eq hd, authorizeSession_spec hrun]
  exact .authorized hsigned

/-- `rotate_session` sets the session of the holding that it names. -/
theorem execRotateSession_holding {submitter position key : Pubkey} {expiry : ℤ}
    (h : w.execRotateSession rt tx submitter position key expiry = .ok w') (o : Pubkey) :
    Holding.Step rt tx o (.rotateSession submitter position key expiry) (w.holding o)
      (w'.holding o) := by
  simp only [execRotateSession, bind_eq_ok, loadPosition_eq_ok, pure_eq_ok] at h
  obtain ⟨_, -, d, ⟨hd, -⟩, a, hrun, rfl⟩ := h
  -- Whoever submits it, a rotation stands on the owner's message before it.
  obtain ⟨hlater, ⟨prev, hprev, hsig⟩, hp⟩ := rotateSession_spec hrun
  refine holding_of_write rfl rfl ?_ o
  rw [holding_eq hd, hp]
  exact .rotated hlater hprev hsig

/-- `delegate_position` moves a holding to the enclave. -/
theorem execDelegatePosition_holding {owner : Pubkey}
    (h : w.execDelegatePosition tx owner = .ok w') (o : Pubkey) :
    Holding.Step rt tx o (.delegatePosition owner) (w.holding o) (w'.holding o) := by
  simp only [execDelegatePosition, bind_eq_ok, signs_eq_ok, orElse_eq_ok, pure_eq_ok] at h
  obtain ⟨_, hsigned, d, hd, d', hrun, rfl⟩ := h
  refine holding_storePosition ?_ o
  rw [holding_eq hd]
  exact .delegated hsigned hrun

/-- `undelegate_position` moves it back. -/
theorem execUndelegatePosition_holding {payer position : Pubkey}
    (h : w.execUndelegatePosition tx payer position = .ok w') (o : Pubkey) :
    Holding.Step rt tx o (.undelegatePosition payer position) (w.holding o) (w'.holding o) := by
  simp only [execUndelegatePosition, bind_eq_ok, orElse_eq_ok, pure_eq_ok] at h
  obtain ⟨_, -, d, hd, d', hrun, rfl⟩ := h
  refine holding_storePosition ?_ o
  rw [holding_eq hd]
  exact .undelegated hrun

/-- The permission handlers act for whoever may act on the position. -/
theorem execPermission_holding {signer position : Pubkey}
    {handler : PermissionCtx → ℤ → Result PermissionCtx}
    (h : w.execPermission tx signer position handler = .ok w')
    (hspec : ∀ {a a'}, handler a tx.now = .ok a' → PermissionStep a a' tx.now) (o : Pubkey) :
    Holding.Step rt tx o ix (w.holding o) (w'.holding o) := by
  simp only [execPermission, bind_eq_ok, signs_eq_ok, loadPosition_eq_ok, pure_eq_ok] at h
  obtain ⟨_, hsigned, d, ⟨hd, -⟩, a, hrun, rfl⟩ := h
  refine holding_of_write rfl rfl ?_ o
  rw [holding_eq hd]
  have hs := hspec hrun
  exact .acted hsigned hs.mayAct hs.same.owner hs.same.sessionKey hs.same.sessionExpiry

/-- A mark changes nobody's session. -/
theorem execSyncPosition_holding {signer position : Pubkey} {withAgyld : Bool}
    (h : w.execSyncPosition tx signer position withAgyld = .ok w') (o : Pubkey) :
    Holding.Step rt tx o ix (w.holding o) (w'.holding o) := by
  simp only [execSyncPosition, bind_eq_ok, signs_eq_ok, loadPosition_eq_ok, pure_eq_ok] at h
  obtain ⟨_, hsigned, d, ⟨hd, -⟩, _, -, p, hrun, rfl⟩ := h
  obtain ⟨hmay, hsame⟩ := syncPosition_spec hrun
  refine holding_storePosition ?_ o
  rw [holding_eq hd]
  exact .acted hsigned hmay hsame.owner hsame.sessionKey hsame.sessionExpiry

/-- Neither does a private deposit. -/
theorem execDepositPrivate_holding {depositor signer position : Pubkey} {amount : U64}
    (h : w.execDepositPrivate rt tx depositor signer position amount = .ok w') (o : Pubkey) :
    Holding.Step rt tx o ix (w.holding o) (w'.holding o) := by
  simp only [execDepositPrivate, bind_eq_ok, signs_eq_ok, loadPosition_eq_ok, pure_eq_ok] at h
  obtain ⟨_, -, _, hsigned, d, ⟨hd, -⟩, _, -, a, hrun, rfl⟩ := h
  obtain ⟨shares, hspec⟩ := depositPrivate_spec (info_data w.book) hrun
  -- A holding does not show the aggregate that is written too.
  change Holding.Step rt tx o ix (w.holding o)
    ((w.storePosition position (d.write a.position)).holding o)
  refine holding_storePosition ?_ o
  rw [holding_eq hd]
  exact .acted hsigned hspec.mayAct hspec.owner hspec.sessionKey hspec.sessionExpiry

/-- Both private redemptions act for whoever may act on the position. -/
theorem execRedeemPrivate_holding {signer position : Pubkey} {r : ExitRequest}
    {handler : RedeemPrivate → ℤ → Result RedeemPrivate}
    (h : w.execRedeemPrivate tx signer position handler = .ok w')
    (hspec : ∀ {a a' b}, a.book.data = some b → handler a tx.now = .ok a' →
      MayAct a.position a.signer tx.now ∧ ∃ ticket, OpensExit a b r ticket a') (o : Pubkey) :
    Holding.Step rt tx o ix (w.holding o) (w'.holding o) := by
  simp only [execRedeemPrivate, bind_eq_ok, signs_eq_ok, loadPosition_eq_ok, pure_eq_ok] at h
  obtain ⟨_, hsigned, d, ⟨hd, -⟩, _, -, _, -, a, hrun, rfl⟩ := h
  obtain ⟨hmay, ticket, hopen⟩ := hspec (info_data w.book) hrun
  change Holding.Step rt tx o ix (w.holding o)
    ((w.storePosition position (d.write a.position)).holding o)
  refine holding_storePosition ?_ o
  rw [holding_eq hd]
  exact .acted hsigned hmay hopen.owner hopen.sessionKey hopen.sessionExpiry

/-- Every instruction is one of the named effects on what an owner holds. -/
theorem exec_holding (h : w.exec rt tx ix = .ok w') (o : Pubkey) :
    Holding.Step rt tx o ix (w.holding o) (w'.holding o) := by
  cases ix with
  | initializeVault | initBook | migrateBook | initShielded => cases h
  | initPosition owner => exact execInitPosition_holding h o
  | authorizeSession owner key => exact execAuthorizeSession_holding h o
  | rotateSession submitter position key expiry => exact execRotateSession_holding h o
  | delegatePosition owner => exact execDelegatePosition_holding h o
  | undelegatePosition payer position => exact execUndelegatePosition_holding h o
  | initPermission signer position viewers =>
    simp only [exec] at h
    exact execPermission_holding h initPermission_spec o
  | setPermission signer position isPrivate viewers =>
    simp only [exec] at h
    exact execPermission_holding h setPermission_spec o
  | closePermission signer position =>
    simp only [exec] at h
    exact execPermission_holding h closePermission_spec o
  | syncPosition signer position withAgyld => exact execSyncPosition_holding h o
  | depositPrivate depositor signer position amount => exact execDepositPrivate_holding h o
  | redeemPrivate signer position request =>
    simp only [exec] at h
    refine execRedeemPrivate_holding (r := request) h (fun hb hrun => ?_) o
    obtain ⟨hmay, ticket, -, hopen⟩ := redeemPrivate_spec hb hrun
    exact ⟨hmay, ticket, hopen⟩
  | redeemPrivateTo signer position request payout =>
    simp only [exec] at h
    refine execRedeemPrivate_holding (r := request) h (fun hb hrun => ?_) o
    obtain ⟨howner, ticket, -, hopen⟩ := redeemPrivateTo_spec hb hrun
    exact ⟨.inl howner, ticket, hopen⟩
  -- The rest writes neither positions nor permissions.
  | faucet | deposit | redeem | prepareForRollup | initShieldedPermission | settleExit | tick
  | absorb | setApr | delegateBook | commitBook | undelegateBook | delegateShielded | commitShielded
  | undelegateShielded | delegateExits =>
    obtain ⟨hpositions, hpermissions⟩ := (exec_frame h).holdings rfl
    exact holding_of_eq hpositions hpermissions o

/-- Token movements leave every holding alone. -/
theorem moveTokens_holding {t : TokenAction} (h : w.moveTokens rt t = some w') (o : Pubkey) :
    w'.holding o = w.holding o := by
  have hsame := moveTokens_same h
  rw [holding, holding, hsame.positions, hsame.permissions]

/-- An action is an instruction's effect on what an owner holds, or leaves it alone. -/
theorem step_holding {a : Action} (h : w.step rt a = .ok w') (o : Pubkey) :
    (∃ tx ix, a = .program tx ix ∧ Holding.Step rt tx o ix (w.holding o) (w'.holding o)) ∨
      w'.holding o = w.holding o := by
  cases a with
  | program tx ix => exact .inl ⟨tx, ix, rfl, exec_holding h o⟩
  | token t =>
    rw [step, orElse_eq_ok] at h
    exact .inr (moveTokens_holding h o)

end World

/-! ## Positions stay with their owners -/

/-- A position names the owner that its address derives from. -/
def Holding.OwnedBy (x : Holding) (o : Pubkey) : Prop :=
  ∀ d, x.position = some d → d.current.owner = o

/-- Every effect keeps a position with its owner. -/
theorem Holding.Step.ownedBy {rt : Runtime} {tx : Tx} {o : Pubkey} {ix : Ix} {x x' : Holding}
    (hx : x.OwnedBy o) (h : Holding.Step rt tx o ix x x') : x'.OwnedBy o := by
  rintro d' hd'
  cases h with
  | other => exact hx d' hd'
  | opened signed =>
    cases hd'
    rfl
  | authorized signed | rotated later reads signed =>
    cases hd'
    rw [Delegable.current_write]
    exact hx _ rfl
  | acted signed mayAct owner =>
    cases hd'
    rw [Delegable.current_write, owner]
    exact hx _ rfl
  | delegated signed run =>
    cases hd'
    rw [(Delegable.delegate_eq_some run).2]
    exact hx _ rfl
  | undelegated run =>
    cases hd'
    rw [(Delegable.undelegate_eq_some run).2.1]
    exact hx _ rfl

/-- In every state that the program reaches, positions are with their owners. -/
theorem World.run_ownedBy {rt : Runtime} {authority custodyOwner : Pubkey} {book : PoolBook}
    {w : World} (hrun : Run rt (World.start rt authority custodyOwner book) w) (o : Pubkey) :
    (w.holding o).OwnedBy o := by
  refine Runs.preserves (I := fun w => (w.holding o).OwnedBy o) ?_ hrun ?_
  · rintro v v' hv ⟨a, ha, -⟩
    rcases step_holding ha o with ⟨tx, ix, -, hstep⟩ | hsame
    · exact hstep.ownedBy hv
    · rwa [hsame]
  · rintro d ⟨⟩

end Agama
