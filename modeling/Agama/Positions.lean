import Agama.Introspection

/-!
# Positions

The handlers that open a position, authorise its session keys, gate it, and re-mark it. Each takes
the accounts that it reads and returns the ones that it writes; who signs, and which account is at
which address, is checked where the accounts are loaded.

The permission program is not part of the repository: a permission is created with the arguments it
is given, an update overwrites them, and closing removes it.
-/

namespace Agama

/-! ## Who may act -/

/-- `assert_may_act`. -/
def assertMayAct (position : Position) (signer : Pubkey) (now : ℤ) : Result Unit :=
  if signer = position.owner then .ok ()
  else
    require (signer = position.sessionKey ∧ position.sessionKey ≠ Pubkey.default ∧
      now < position.sessionExpiry) .unauthorized

/-- The owner may act, and so may the session key before it expires. -/
def MayAct (position : Position) (signer : Pubkey) (now : ℤ) : Prop :=
  signer = position.owner ∨ signer = position.sessionKey ∧ now < position.sessionExpiry

/-- Whoever passes the check may act. -/
theorem assertMayAct_mayAct {position : Position} {signer : Pubkey} {now : ℤ}
    (h : assertMayAct position signer now = .ok ()) : MayAct position signer now := by
  unfold assertMayAct at h
  split at h
  · rename_i howner
    exact .inl howner
  · rw [require_eq_ok] at h
    exact .inr ⟨h.1, h.2.2⟩

/-! ## Opening a position and authorising a session -/

/-- `init_position`. -/
def initPosition (owner vault : Pubkey) : Position where
  owner := owner
  vault := vault
  shares := 0
  privateShares := 0
  entryPrice := one
  valueUsdc := 0
  costBasis := 0
  yieldUsdc := 0
  syncedTs := 0
  syncs := 0
  isPrivate := false
  sessionKey := Pubkey.default
  sessionExpiry := 0

/-- `authorize_session`. -/
def authorizeSession (position : Position) (now : ℤ) (sessionKey : Pubkey) : Result Position := do
  require (sessionKey ≠ Pubkey.default) .unauthorized
  let sessionExpiry ← i64 (now + sessionTtl)
  pure { position with sessionKey, sessionExpiry }

/-! ## Permissions -/

/-- `members_args`. -/
def membersArgs (isPrivate : Bool) (owner sessionKey : Pubkey) (viewers : List Pubkey) :
    Permission where
  isPrivate := isPrivate
  members := ⟨ownerFlags, owner⟩ ::
    ((if sessionKey = Pubkey.default then [] else [⟨viewerFlags, sessionKey⟩]) ++
      viewers.map fun v => ⟨viewerFlags, v⟩)

/-- `PermissionCtx`, with the permission if it exists. -/
structure PermissionCtx where
  signer : Pubkey
  position : Position
  permission : Option Permission

/-- `init_permission`. -/
def initPermission (a : PermissionCtx) (now : ℤ) (viewers : List Pubkey) :
    Result PermissionCtx := do
  assertMayAct a.position a.signer now
  require (viewers.length + 1 ≤ maxPermissionMembers) .tooManyMembers
  let position := { a.position with isPrivate := true }
  -- A permission that exists is kept as it is, so a second call changes the flag only.
  match a.permission with
  | some _ => pure { a with position }
  | none =>
    let args := membersArgs true a.position.owner a.position.sessionKey viewers
    pure { a with position, permission := some args }

/-- `set_permission`. -/
def setPermission (a : PermissionCtx) (now : ℤ) (isPrivate : Bool) (viewers : List Pubkey) :
    Result PermissionCtx := do
  assertMayAct a.position a.signer now
  require (viewers.length + 2 ≤ maxPermissionMembers) .tooManyMembers
  let _existing ← orElse a.permission .external
  let args := membersArgs isPrivate a.position.owner a.position.sessionKey viewers
  pure { a with position := { a.position with isPrivate }, permission := some args }

/-- `close_permission`. -/
def closePermission (a : PermissionCtx) (now : ℤ) : Result PermissionCtx := do
  assertMayAct a.position a.signer now
  let _existing ← orElse a.permission .external
  pure { a with position := { a.position with isPrivate := false }, permission := none }

/-! ## Rotating a session -/

/-- `RotateSession`. -/
structure RotateSession where
  position : Position
  permission : Option Permission

/-- The permission that `rotate_session` leaves: of a private position, rewritten with the new key
in place of the old one, and every other member kept as a viewer. -/
def rotatePermission (a : RotateSession) (sessionKey : Pubkey) : Result (Option Permission) :=
  if a.position.isPrivate then do
    let permission ← orElse a.permission (.error .badSessionRotation)
    let viewers := (permission.members.map (·.pubkey)).filter fun k =>
      k ≠ a.position.owner ∧ k ≠ a.position.sessionKey
    pure (some (membersArgs true a.position.owner sessionKey viewers))
  else pure a.permission

/-- `rotate_session`. -/
def rotateSession (rt : Runtime) (tx : Tx) (a : RotateSession) (sessionKey : Pubkey)
    (expiry : ℤ) : Result RotateSession := do
  let positionKey := rt.positionKey a.position.owner
  require (sessionKey ≠ Pubkey.default) .badSessionRotation
  require (tx.now < expiry) .badSessionRotation
  -- An hour past what `authorize_session` sets.
  let limit ← i64 (tx.now + sessionTtl + 3600)
  require (expiry ≤ limit ∧ a.position.sessionExpiry < expiry) .badSessionRotation
  let prev ← previousInstruction tx
  assertEd25519 prev a.position.owner (sessionMessage rt positionKey sessionKey expiry)
  let permission ← rotatePermission a sessionKey
  pure { position := { a.position with sessionKey, sessionExpiry := expiry }, permission }

/-! ## Re-marking a position -/

/-- `SyncPosition`; a fully private depositor has no agYLD account. -/
structure SyncPosition where
  signer : Pubkey
  position : Position
  vault : Vault
  book : AccountInfo PoolBook
  shielded : Shielded
  ownerAgyld : Option U64

/-- The public leg of `sync_position`: the agYLD that arrived since the last sync, blended in. -/
def blendArrived (position : Position) (held price : U64) : Result Position :=
  if position.shares.val < held.val then blendEntry position (satSub held position.shares) price
  else .ok position

/-- `sync_position`. -/
def syncPosition (a : SyncPosition) (now : ℤ) : Result Position := do
  assertMayAct a.position a.signer now
  let book ← readBook a.book
  let (nav, supply) ← navForPricing a.vault book a.shielded
  let price ← sharePrice nav supply
  let held := a.ownerAgyld.getD 0
  let position ← blendArrived a.position held price
  mark { position with shares := held } price now

/-! ## What the handlers do to a position -/

/-- What `p'` keeps of `p` under the handlers that do not touch the session: the owner, the private
shares and the session itself. -/
structure SameSession (p p' : Position) : Prop where
  owner : p'.owner = p.owner
  privateShares : p'.privateShares = p.privateShares
  sessionKey : p'.sessionKey = p.sessionKey
  sessionExpiry : p'.sessionExpiry = p.sessionExpiry

/-- `authorize_session` sets the key and an expiry one session ahead, and nothing else. -/
theorem authorizeSession_spec {p p' : Position} {now : ℤ} {key : Pubkey}
    (h : authorizeSession p now key = .ok p') :
    p' = { p with sessionKey := key, sessionExpiry := now + sessionTtl } := by
  simp only [authorizeSession, bind_eq_ok, i64_eq_ok, pure_eq_ok] at h
  obtain ⟨_, -, _, ⟨-, rfl⟩, rfl⟩ := h
  rfl

/-- `rotate_session` needs the owner's signature over the message that names the position, the key
and the expiry, and an expiry later than the current one; it then sets the key and the expiry. -/
theorem rotateSession_spec {rt : Runtime} {tx : Tx} {a a' : RotateSession} {key : Pubkey}
    {expiry : ℤ} (h : rotateSession rt tx a key expiry = .ok a') :
    a.position.sessionExpiry < expiry ∧
      (∃ prev, previousInstruction tx = .ok prev ∧ CarriesSignature prev a.position.owner
        (sessionMessage rt (rt.positionKey a.position.owner) key expiry)) ∧
      a'.position = { a.position with sessionKey := key, sessionExpiry := expiry } := by
  simp only [rotateSession, bind_eq_ok, require_eq_ok, exists_const, pure_eq_ok] at h
  obtain ⟨-, -, _, -, ⟨-, hlater⟩, prev, hprev, _, hsig, permission, -, rfl⟩ := h
  exact ⟨hlater, ⟨prev, hprev, assertEd25519_carries hsig⟩, rfl⟩

/-- `sync_position` is for whoever may act, and keeps the session. -/
theorem syncPosition_spec {a : SyncPosition} {now : ℤ} {p : Position}
    (h : syncPosition a now = .ok p) :
    MayAct a.position a.signer now ∧ SameSession a.position p := by
  simp only [syncPosition, bind_eq_ok] at h
  obtain ⟨_, hmay, _, -, _, -, _, -, q, hq, hmark⟩ := h
  refine ⟨assertMayAct_mayAct hmay, ?_⟩
  have hm := mark_spec hmark
  unfold blendArrived at hq
  split at hq
  · -- Blending comes before the re-mark, and both keep the session.
    have hb := blendEntry_spec hq
    exact ⟨hm.owner.trans hb.owner, hm.privateShares.trans hb.privateShares,
      hm.sessionKey.trans hb.sessionKey, hm.sessionExpiry.trans hb.sessionExpiry⟩
  · cases hq
    exact ⟨hm.owner, hm.privateShares, hm.sessionKey, hm.sessionExpiry⟩

/-- The permission handlers are for whoever may act. -/
structure PermissionStep (a a' : PermissionCtx) (now : ℤ) : Prop where
  mayAct : MayAct a.position a.signer now
  same : SameSession a.position a'.position

/-- `init_permission` is a step on the permission. -/
theorem initPermission_spec {a a' : PermissionCtx} {now : ℤ} {viewers : List Pubkey}
    (h : initPermission a now viewers = .ok a') : PermissionStep a a' now := by
  simp only [initPermission, bind_eq_ok] at h
  obtain ⟨_, hmay, _, -, h⟩ := h
  -- Created or kept, the permission does not reach the position.
  split at h
  all_goals
    rw [pure_eq_ok] at h
    subst h
    exact ⟨assertMayAct_mayAct hmay, rfl, rfl, rfl, rfl⟩

/-- `set_permission` is one. -/
theorem setPermission_spec {a a' : PermissionCtx} {now : ℤ} {isPrivate : Bool}
    {viewers : List Pubkey} (h : setPermission a now isPrivate viewers = .ok a') :
    PermissionStep a a' now := by
  simp only [setPermission, bind_eq_ok, pure_eq_ok] at h
  obtain ⟨_, hmay, _, -, _, -, rfl⟩ := h
  exact ⟨assertMayAct_mayAct hmay, rfl, rfl, rfl, rfl⟩

/-- `close_permission` is one. -/
theorem closePermission_spec {a a' : PermissionCtx} {now : ℤ}
    (h : closePermission a now = .ok a') : PermissionStep a a' now := by
  simp only [closePermission, bind_eq_ok, pure_eq_ok] at h
  obtain ⟨_, hmay, _, -, rfl⟩ := h
  exact ⟨assertMayAct_mayAct hmay, rfl, rfl, rfl, rfl⟩

end Agama
