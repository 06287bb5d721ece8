import Agama.Lib.MemberList
import Agama.Sessions

/-!
# The gate

The flag and the session key of a position, and the permission that gates it: two accounts that four
handlers keep in step. `GateCall` is one of their calls (or `authorize_session`, which writes the
session key alone), `Gate.run` what it does, and every action of the program is one call on one
position's gate or leaves all of them.

The flag tells the truth as long as `init_permission` finds no permission that is marked public.
-/

namespace Agama

open MemberList

/-! ## The gate of a position -/

/-- A position's owner, session key and flag, and its permission. -/
structure Gate where
  owner : Pubkey
  sessionKey : Pubkey
  isPrivate : Bool
  permission : Option Permission

/-- The gate of a position, on its current copy. -/
def Position.gate (p : Position) (q : Option Permission) : Gate :=
  ⟨p.owner, p.sessionKey, p.isPrivate, q⟩

/-- The gate at an owner's address. A position that is not open yet counts as a new one, which is
not private and has no session. -/
def World.gate (w : World) (o : Pubkey) : Gate :=
  ((w.positions.lookup o).elim (initPosition o Pubkey.default) Delegable.current).gate
    (w.permissions o)

/-- The calls that write a gate. -/
inductive GateCall where
  | init (viewers : List Pubkey)
  | set (isPrivate : Bool) (viewers : List Pubkey)
  | close
  | rotate (sessionKey : Pubkey)
  | authorize (sessionKey : Pubkey)

/-- The keys that a permission lists. -/
def Permission.listed (q : Permission) : List Pubkey := q.members.map (·.pubkey)

/-- What a call leaves of a gate, when it succeeds. -/
def Gate.run (g : Gate) : GateCall → Option Gate
  | .init viewers => some { g with
      isPrivate := true
      permission := some (g.permission.getD (membersArgs true g.owner g.sessionKey viewers)) }
  | .set isPrivate viewers => g.permission.map fun _ => { g with
      isPrivate
      permission := some (membersArgs isPrivate g.owner g.sessionKey viewers) }
  | .close => g.permission.map fun _ => { g with isPrivate := false, permission := none }
  | .rotate sessionKey =>
    if sessionKey = Pubkey.default then none
    else if g.isPrivate then g.permission.map fun q => { g with
      sessionKey
      permission := some
        (membersArgs true g.owner sessionKey (others g.owner g.sessionKey q.listed)) }
    else some { g with sessionKey }
  | .authorize sessionKey =>
    if sessionKey = Pubkey.default then none else some { g with sessionKey }

/-- The call that an instruction makes, and the position that it is on. -/
def Ix.gateCall : Ix → Option (Pubkey × GateCall)
  | .initPermission _ position viewers => some (position, .init viewers)
  | .setPermission _ position isPrivate viewers => some (position, .set isPrivate viewers)
  | .closePermission _ position => some (position, .close)
  | .rotateSession _ position sessionKey _ => some (position, .rotate sessionKey)
  | .authorizeSession owner sessionKey => some (owner, .authorize sessionKey)
  | _ => none

/-- The call that an action makes. -/
def Action.gateCall : Action → Option (Pubkey × GateCall)
  | .program _ ix => ix.gateCall
  | .token _ => none

/-- What an action can do to the gate of `o`. -/
inductive Gate.Step (a : Action) (o : Pubkey) (g : Gate) : Gate → Prop
  | same (other : ∀ c, a.gateCall ≠ some (o, c)) : Step a o g g
  | called {c : GateCall} {g' : Gate} (calls : a.gateCall = some (o, c))
      (run : g.run c = some g') : Step a o g g'

/-- What a call that succeeds does: an `init_permission` creates the permission or keeps the one
that it finds, and a rotation rewrites the list of a private position only. -/
inductive Gate.Ran (g : Gate) : GateCall → Gate → Prop
  | created {viewers : List Pubkey} (absent : g.permission = none) :
      Ran g (.init viewers) { g with
        isPrivate := true
        permission := some (membersArgs true g.owner g.sessionKey viewers) }
  | kept {viewers : List Pubkey} {q : Permission} (present : g.permission = some q) :
      Ran g (.init viewers) { g with isPrivate := true }
  | set {isPrivate : Bool} {viewers : List Pubkey} {q : Permission}
      (present : g.permission = some q) :
      Ran g (.set isPrivate viewers) { g with
        isPrivate
        permission := some (membersArgs isPrivate g.owner g.sessionKey viewers) }
  | closed {q : Permission} (present : g.permission = some q) :
      Ran g .close { g with isPrivate := false, permission := none }
  | rotated {sessionKey : Pubkey} {q : Permission} (named : sessionKey ≠ Pubkey.default)
      (listed : g.isPrivate = true) (present : g.permission = some q) :
      Ran g (.rotate sessionKey) { g with
        sessionKey
        permission := some
          (membersArgs true g.owner sessionKey (others g.owner g.sessionKey q.listed)) }
  | rekeyed {sessionKey : Pubkey} (unlisted : g.isPrivate = false) :
      Ran g (.rotate sessionKey) { g with sessionKey }
  | authorized {sessionKey : Pubkey} : Ran g (.authorize sessionKey) { g with sessionKey }

/-- A call that succeeds does one of these. -/
theorem Gate.ran_of_run {g g' : Gate} {c : GateCall} (h : g.run c = some g') : g.Ran c g' := by
  obtain ⟨owner, session, isPrivate, permission⟩ := g
  cases c with
  | init viewers =>
    cases h
    cases permission with
    | none => exact .created rfl
    | some q => exact .kept rfl
  | set isPrivate viewers =>
    obtain ⟨q, hq, rfl⟩ := Option.map_eq_some_iff.mp h
    exact .set hq
  | close =>
    obtain ⟨q, hq, rfl⟩ := Option.map_eq_some_iff.mp h
    exact .closed hq
  | rotate key =>
    obtain ⟨hkey, h⟩ := Option.ite_none_left_eq_some.mp h
    cases isPrivate with
    | false =>
      cases h
      exact .rekeyed rfl
    | true =>
      obtain ⟨q, hq, rfl⟩ := Option.map_eq_some_iff.mp h
      exact .rotated hkey rfl hq
  | authorize key =>
    obtain ⟨-, h⟩ := Option.ite_none_left_eq_some.mp h
    cases h
    exact .authorized

/-! ## What the handlers do to the gate -/

/-- `init_permission` is the gate's call of that name. -/
theorem initPermission_gate {a a' : PermissionCtx} {now : ℤ} {viewers : List Pubkey}
    (h : initPermission a now viewers = .ok a') :
    (a.position.gate a.permission).run (.init viewers) =
      some (a'.position.gate a'.permission) := by
  simp only [initPermission, bind_eq_ok] at h
  obtain ⟨_, -, _, -, h⟩ := h
  obtain ⟨signer, p, _ | q⟩ := a
  all_goals
    rw [pure_eq_ok] at h
    subst h
    rfl

/-- `set_permission` is the gate's call of that name. -/
theorem setPermission_gate {a a' : PermissionCtx} {now : ℤ} {isPrivate : Bool}
    {viewers : List Pubkey} (h : setPermission a now isPrivate viewers = .ok a') :
    (a.position.gate a.permission).run (.set isPrivate viewers) =
      some (a'.position.gate a'.permission) := by
  simp only [setPermission, bind_eq_ok, orElse_eq_ok, pure_eq_ok] at h
  obtain ⟨_, -, _, -, q, hq, rfl⟩ := h
  rw [hq]
  rfl

/-- `close_permission` is the gate's call of that name. -/
theorem closePermission_gate {a a' : PermissionCtx} {now : ℤ}
    (h : closePermission a now = .ok a') :
    (a.position.gate a.permission).run .close = some (a'.position.gate a'.permission) := by
  simp only [closePermission, bind_eq_ok, orElse_eq_ok, pure_eq_ok] at h
  obtain ⟨_, -, q, hq, rfl⟩ := h
  rw [hq]
  rfl

/-- `rotate_session` is the gate's call of that name. -/
theorem rotateSession_gate {rt : Runtime} {tx : Tx} {a a' : RotateSession} {key : Pubkey}
    {expiry : ℤ} (h : rotateSession rt tx a key expiry = .ok a') :
    (a.position.gate a.permission).run (.rotate key) =
      some (a'.position.gate a'.permission) := by
  simp only [rotateSession, bind_eq_ok, require_eq_ok, pure_eq_ok] at h
  obtain ⟨_, hkey, _, -, _, -, _, -, prev, -, _, -, q, hq, rfl⟩ := h
  unfold rotatePermission at hq
  unfold Position.gate Gate.run
  simp only [if_neg hkey]
  split at hq
  · rename_i hprivate
    simp only [bind_eq_ok, orElse_eq_ok, pure_eq_ok] at hq
    obtain ⟨listed, hlisted, rfl⟩ := hq
    rw [if_pos hprivate, hlisted]
    rfl
  · rename_i hpublic
    rw [pure_eq_ok] at hq
    rw [if_neg hpublic, hq]

/-- `authorize_session` is the gate's call of that name. -/
theorem authorizeSession_gate {p p' : Position} {now : ℤ} {key : Pubkey}
    (h : authorizeSession p now key = .ok p') (q : Option Permission) :
    (p.gate q).run (.authorize key) = some (p'.gate q) := by
  simp only [authorizeSession, bind_eq_ok, require_eq_ok, pure_eq_ok] at h
  obtain ⟨_, hkey, expiry, -, rfl⟩ := h
  exact if_neg hkey

/-- The handlers that mark a position, or move its shares, leave its gate. -/
theorem syncPosition_gate {a : SyncPosition} {now : ℤ} {p : Position}
    (h : syncPosition a now = .ok p) (q : Option Permission) : p.gate q = a.position.gate q := by
  have hsame := (syncPosition_spec h).2
  simp only [syncPosition, bind_eq_ok] at h
  obtain ⟨_, -, _, -, _, -, _, -, p', hp', hmark⟩ := h
  have hprivate : p'.isPrivate = a.position.isPrivate := by
    unfold blendArrived at hp'
    split at hp'
    · exact (blendEntry_spec hp').isPrivate
    · cases hp'
      rfl
  rw [Position.gate, Position.gate, hsame.owner, hsame.sessionKey,
    (mark_spec hmark).isPrivate.trans hprivate]

/-- A private deposit leaves the gate. -/
theorem depositPrivate_gate {rt : Runtime} {tx : Tx} {a a' : DepositPrivate} {amount : U64}
    (h : depositPrivate rt tx a amount = .ok a') (q : Option Permission) :
    a'.position.gate q = a.position.gate q := by
  simp only [depositPrivate, bind_eq_ok, pure_eq_ok, Prod.exists] at h
  obtain ⟨_, -, _, -, prev, -, _, -, b, -, nav, supply, -, shares, -, _, -, price, -, p, hp, p',
    hp', rfl⟩ := h
  have hblend := blendEntry_spec hp
  have hmark := mark_spec hp'
  simp only [Position.gate, hmark.owner, hmark.sessionKey, hmark.isPrivate, hblend.owner,
    hblend.sessionKey, hblend.isPrivate]

/-- So does the opening of an exit. -/
theorem openExit_gate {a a' : RedeemPrivate} {r : ExitRequest} {destination : Pubkey} {now : ℤ}
    (h : openExit a r destination now = .ok a') (q : Option Permission) :
    a'.position.gate q = a.position.gate q := by
  simp only [openExit, bind_eq_ok, pure_eq_ok, Prod.exists] at h
  obtain ⟨_, -, _, -, _, -, _, -, b, -, nav, supply, -, assets, -, _, -, _, -, price, -, _, -,
    slot, -, p, hp, rfl⟩ := h
  have hmark := mark_spec hp
  simp only [Position.gate, hmark.owner, hmark.sessionKey, hmark.isPrivate]

/-! ## What an action does to a gate -/

namespace World

variable {rt : Runtime} {w w' : World} {tx : Tx} {a : Action}

/-- The gate of a position that is there. -/
theorem gate_eq {o : Pubkey} {d : Delegable Position} (h : w.positions.lookup o = some d) :
    w.gate o = d.current.gate (w.permissions o) := by
  rw [gate, h]
  rfl

/-- An action that makes no call makes none on `o`'s gate. -/
theorem not_calls (other : a.gateCall = none) (o : Pubkey) (c : GateCall) :
    a.gateCall ≠ some (o, c) := by
  rw [other]
  exact (Option.some_ne_none _).symm

/-- An action that calls on one position's gate calls on no other. -/
theorem calls_one {b : Pubkey} {c : GateCall} (calls : a.gateCall = some (b, c)) (o : Pubkey)
    (ho : o ≠ b) (c' : GateCall) : a.gateCall ≠ some (o, c') := by
  rw [calls, Ne, Option.some.injEq, Prod.mk.injEq]
  exact fun h => ho h.1.symm

/-- An action that writes no position and no permission. -/
theorem gate_of_eq (hp : w'.positions = w.positions) (hq : w'.permissions = w.permissions)
    (other : a.gateCall = none) (o : Pubkey) : Gate.Step a o (w.gate o) (w'.gate o) := by
  rw [gate, gate, hp, hq]
  exact .same (not_calls other o)

/-- An action that writes one position and its permission. -/
theorem gate_of_write {b : Pubkey} {d : Delegable Position} {q : Option Permission}
    (hp : w'.positions = w.positions.insert b d)
    (hq : w'.permissions = Function.update w.permissions b q)
    (other : ∀ o, o ≠ b → ∀ c, a.gateCall ≠ some (o, c))
    (hstep : Gate.Step a b (w.gate b) (d.current.gate q)) (o : Pubkey) :
    Gate.Step a o (w.gate o) (w'.gate o) := by
  by_cases ho : o = b
  · subst ho
    rw [show w'.gate o = d.current.gate q by
      rw [gate, hp, hq, AList.lookup_insert, Function.update_self]
      rfl]
    exact hstep
  · rw [show w'.gate o = w.gate o by
      rw [gate, gate, hp, hq, AList.lookup_insert_ne ho, Function.update_of_ne ho]]
    exact .same (other o ho)

/-- An action that writes one position. -/
theorem gate_storePosition {b : Pubkey} {d : Delegable Position}
    (other : ∀ o, o ≠ b → ∀ c, a.gateCall ≠ some (o, c))
    (hstep : Gate.Step a b (w.gate b) (d.current.gate (w.permissions b))) (o : Pubkey) :
    Gate.Step a o (w.gate o) ((w.storePosition b d).gate o) := by
  refine gate_of_write ?_ ?_ other hstep o
  · rfl
  · exact (Function.update_eq_self b w.permissions).symm

/-- An action that writes one position and leaves its gate. -/
theorem gate_kept {b : Pubkey} {d d' : Delegable Position} (hd : w.positions.lookup b = some d)
    (other : a.gateCall = none)
    (hkept : d'.current.gate (w.permissions b) = d.current.gate (w.permissions b)) (o : Pubkey) :
    Gate.Step a o (w.gate o) ((w.storePosition b d').gate o) := by
  refine gate_storePosition (fun o _ => not_calls other o) ?_ o
  rw [gate_eq hd, hkept]
  exact .same (not_calls other b)

/-- A permission handler is the call that it stands for. -/
theorem execPermission_gate {signer position : Pubkey} {c : GateCall}
    {handler : PermissionCtx → ℤ → Result PermissionCtx}
    (h : w.execPermission tx signer position handler = .ok w')
    (calls : a.gateCall = some (position, c))
    (hspec : ∀ {x x'}, handler x tx.now = .ok x' →
      (x.position.gate x.permission).run c = some (x'.position.gate x'.permission)) (o : Pubkey) :
    Gate.Step a o (w.gate o) (w'.gate o) := by
  simp only [execPermission, bind_eq_ok, loadPosition_eq_ok, pure_eq_ok] at h
  obtain ⟨_, -, d, ⟨hd, -⟩, x, hrun, rfl⟩ := h
  refine gate_of_write rfl rfl (calls_one calls) ?_ o
  rw [gate_eq hd, Delegable.current_write]
  exact .called calls (hspec hrun)

/-- A rotation calls the gate of the position that it names, and leaves the others. -/
theorem execRotateSession_gate {submitter position key : Pubkey} {expiry : ℤ}
    (h : w.execRotateSession rt tx submitter position key expiry = .ok w')
    (calls : a.gateCall = some (position, .rotate key)) (o : Pubkey) :
    Gate.Step a o (w.gate o) (w'.gate o) := by
  simp only [execRotateSession, bind_eq_ok, loadPosition_eq_ok, pure_eq_ok] at h
  obtain ⟨_, -, d, ⟨hd, -⟩, x, hrun, rfl⟩ := h
  refine gate_of_write rfl rfl (calls_one calls) ?_ o
  rw [gate_eq hd, Delegable.current_write]
  exact .called calls (rotateSession_gate hrun)

/-- So does an authorisation. -/
theorem execAuthorizeSession_gate {owner key : Pubkey}
    (h : w.execAuthorizeSession tx owner key = .ok w')
    (calls : a.gateCall = some (owner, .authorize key)) (o : Pubkey) :
    Gate.Step a o (w.gate o) (w'.gate o) := by
  simp only [execAuthorizeSession, bind_eq_ok, loadPosition_eq_ok, pure_eq_ok] at h
  obtain ⟨_, -, d, ⟨hd, -⟩, p, hrun, rfl⟩ := h
  refine gate_storePosition (calls_one calls) ?_ o
  rw [gate_eq hd, Delegable.current_write]
  exact .called calls (authorizeSession_gate hrun _)

/-- A new position calls no gate. -/
theorem execInitPosition_gate {owner : Pubkey} (h : w.execInitPosition rt tx owner = .ok w')
    (other : a.gateCall = none) (o : Pubkey) :
    Gate.Step a o (w.gate o) (w'.gate o) := by
  simp only [execInitPosition, bind_eq_ok, constraint_eq_ok, pure_eq_ok] at h
  obtain ⟨_, -, _, hnone, rfl⟩ := h
  refine gate_storePosition (fun o _ => not_calls other o) ?_ o
  rw [gate, hnone]
  exact .same (not_calls other owner)

/-- Nor does a mark of a position. -/
theorem execSyncPosition_gate {signer position : Pubkey} {withAgyld : Bool}
    (h : w.execSyncPosition tx signer position withAgyld = .ok w')
    (other : a.gateCall = none) (o : Pubkey) :
    Gate.Step a o (w.gate o) (w'.gate o) := by
  simp only [execSyncPosition, bind_eq_ok, loadPosition_eq_ok, pure_eq_ok] at h
  obtain ⟨_, -, d, ⟨hd, -⟩, _, -, p, hrun, rfl⟩ := h
  refine gate_kept hd other ?_ o
  rw [Delegable.current_write]
  exact syncPosition_gate hrun _

/-- Nor does a private deposit. -/
theorem execDepositPrivate_gate {depositor signer position : Pubkey} {amount : U64}
    (h : w.execDepositPrivate rt tx depositor signer position amount = .ok w')
    (other : a.gateCall = none) (o : Pubkey) :
    Gate.Step a o (w.gate o) (w'.gate o) := by
  simp only [execDepositPrivate, bind_eq_ok, loadPosition_eq_ok, pure_eq_ok] at h
  obtain ⟨_, -, _, -, d, ⟨hd, -⟩, _, -, x, hrun, rfl⟩ := h
  -- A gate does not show the aggregate that is written too.
  change Gate.Step a o (w.gate o) ((w.storePosition position (d.write x.position)).gate o)
  refine gate_kept hd other ?_ o
  rw [Delegable.current_write]
  exact depositPrivate_gate hrun _

/-- Both private redemptions leave the gate. -/
theorem execRedeemPrivate_gate {signer position : Pubkey}
    {handler : RedeemPrivate → ℤ → Result RedeemPrivate}
    (h : w.execRedeemPrivate tx signer position handler = .ok w')
    (hspec : ∀ {x x'}, handler x tx.now = .ok x' →
      ∃ r destination, openExit x r destination tx.now = .ok x')
    (other : a.gateCall = none) (o : Pubkey) :
    Gate.Step a o (w.gate o) (w'.gate o) := by
  simp only [execRedeemPrivate, bind_eq_ok, loadPosition_eq_ok, pure_eq_ok] at h
  obtain ⟨_, -, d, ⟨hd, -⟩, _, -, _, -, x, hrun, rfl⟩ := h
  obtain ⟨r, destination, hopen⟩ := hspec hrun
  change Gate.Step a o (w.gate o) ((w.storePosition position (d.write x.position)).gate o)
  refine gate_kept hd other ?_ o
  rw [Delegable.current_write]
  exact openExit_gate hopen _

/-- Every instruction is one call on one gate, or leaves the gates. -/
theorem exec_gate {ix : Ix} (h : w.exec rt tx ix = .ok w') (o : Pubkey) :
    Gate.Step (.program tx ix) o (w.gate o) (w'.gate o) := by
  cases ix with
  | initializeVault | initBook | migrateBook | initShielded => cases h
  | initPermission signer position viewers =>
    simp only [exec] at h
    exact execPermission_gate h rfl initPermission_gate o
  | setPermission signer position isPrivate viewers =>
    simp only [exec] at h
    exact execPermission_gate h rfl setPermission_gate o
  | closePermission signer position =>
    simp only [exec] at h
    exact execPermission_gate h rfl closePermission_gate o
  | rotateSession submitter position key expiry => exact execRotateSession_gate h rfl o
  | authorizeSession owner key => exact execAuthorizeSession_gate h rfl o
  | initPosition owner => exact execInitPosition_gate h rfl o
  | syncPosition signer position withAgyld => exact execSyncPosition_gate h rfl o
  | depositPrivate depositor signer position amount => exact execDepositPrivate_gate h rfl o
  | redeemPrivate signer position request =>
    simp only [exec] at h
    refine execRedeemPrivate_gate h (fun hrun => ?_) rfl o
    simp only [redeemPrivate, bind_eq_ok] at hrun
    obtain ⟨_, -, hopen⟩ := hrun
    exact ⟨_, _, hopen⟩
  | redeemPrivateTo signer position request payout =>
    simp only [exec] at h
    refine execRedeemPrivate_gate h (fun hrun => ?_) rfl o
    simp only [redeemPrivateTo, bind_eq_ok] at hrun
    obtain ⟨_, -, _, -, hopen⟩ := hrun
    exact ⟨_, _, hopen⟩
  | delegatePosition owner =>
    simp only [exec, execDelegatePosition, bind_eq_ok, orElse_eq_ok, pure_eq_ok] at h
    obtain ⟨_, -, d, hd, d', hrun, rfl⟩ := h
    exact gate_kept hd rfl (by rw [(Delegable.delegate_eq_some hrun).2]) o
  | undelegatePosition payer position =>
    simp only [exec, execUndelegatePosition, bind_eq_ok, orElse_eq_ok, pure_eq_ok] at h
    obtain ⟨_, -, d, hd, d', hrun, rfl⟩ := h
    exact gate_kept hd rfl (by rw [(Delegable.undelegate_eq_some hrun).2.1]) o
  -- The rest writes neither positions nor permissions.
  | faucet | deposit | redeem | prepareForRollup | initShieldedPermission | settleExit | tick
  | absorb | setApr | delegateBook | commitBook | undelegateBook | delegateShielded | commitShielded
  | undelegateShielded | delegateExits =>
    obtain ⟨hpositions, hpermissions⟩ := (exec_frame h).holdings rfl
    exact gate_of_eq hpositions hpermissions rfl o

/-- Every action is one call on one gate, or leaves the gates. -/
theorem step_gate (h : w.step rt a = .ok w') (o : Pubkey) :
    Gate.Step a o (w.gate o) (w'.gate o) := by
  cases a with
  | program tx ix => exact exec_gate h o
  | token t =>
    rw [step, orElse_eq_ok] at h
    have hsame := moveTokens_same h
    exact gate_of_eq hsame.positions hsame.permissions rfl o

end World

/-! ## The flag -/

/-- The flag is set exactly when the permission exists and is marked private. -/
def Gate.Truthful (g : Gate) : Prop :=
  g.isPrivate = true ↔ ∃ q, g.permission = some q ∧ q.isPrivate = true

/-- A call that is not an `init_permission` on a permission marked public. -/
def Gate.InitsPrivate (g : Gate) : GateCall → Prop
  | .init _ => ∀ q ∈ g.permission, q.isPrivate = true
  | _ => True

instance (g : Gate) : (c : GateCall) → Decidable (g.InitsPrivate c)
  | .init _ => inferInstanceAs (Decidable (∀ q ∈ g.permission, q.isPrivate = true))
  | .set _ _ | .close | .rotate _ | .authorize _ => .isTrue trivial

/-- From a truthful gate, a call leaves a truthful one exactly when it is no `init_permission` on a
permission marked public. -/
theorem Gate.run_truthful_iff {g g' : Gate} {c : GateCall} (hg : g.Truthful)
    (h : g.run c = some g') : g'.Truthful ↔ g.InitsPrivate c := by
  cases ran_of_run h with
  | created absent => simp [Truthful, InitsPrivate, membersArgs, absent]
  -- The early return keeps a permission as it is, and sets the flag all the same.
  | kept present => simp [Truthful, InitsPrivate, present]
  | set present => simp [Truthful, InitsPrivate, membersArgs]
  | closed present => simp [Truthful, InitsPrivate]
  | rotated named listed present => simp [Truthful, InitsPrivate, membersArgs, listed]
  | rekeyed unlisted => exact iff_of_true hg trivial
  | authorized => exact iff_of_true hg trivial

/-- An action that calls `init_permission` on no permission marked public. -/
def InitsPrivate (w : World) (a : Action) (_ : World) : Prop :=
  ∀ x ∈ a.gateCall, (w.gate x.1).InitsPrivate x.2

instance (w : World) (a : Action) (w' : World) : Decidable (InitsPrivate w a w') :=
  inferInstanceAs (Decidable (∀ x ∈ a.gateCall, (w.gate x.1).InitsPrivate x.2))

/-- In every state of every run whose `init_permission`s find no permission marked public, a
position's flag is set exactly when its permission exists and is marked private. -/
theorem isPrivate_tells_truth {rt : Runtime} {authority custodyOwner : Pubkey} {book : PoolBook}
    {w : World} (hrun : Relation.ReflTransGen (StepWith rt InitsPrivate)
      (World.start rt authority custodyOwner book) w) {o : Pubkey} {d : Delegable Position}
    (hd : w.positions.lookup o = some d) :
    d.current.isPrivate = true ↔ ∃ q, w.permissions o = some q ∧ q.isPrivate = true := by
  have htruth : (w.gate o).Truthful := by
    refine Runs.preserves (I := fun w => (w.gate o).Truthful) ?_ hrun ?_
    · rintro v v' hv ⟨a, ha, hinits⟩
      have hstep := World.step_gate ha o
      generalize v'.gate o = g' at hstep ⊢
      cases hstep with
      | same other => exact hv
      | called calls run => exact (Gate.run_truthful_iff hv run).mpr (hinits _ calls)
    · simp [Gate.Truthful, World.gate, World.start, Position.gate, initPosition]
  rwa [World.gate_eq hd] at htruth

/-- A position whose gate is published for a while and then closed and made again, with a viewer. -/
def publishForAWhile : List Action :=
  [.program (.alone [positionOwner] 100) (.initPosition positionOwner),
    .program (.alone [positionOwner] 100) (.delegatePosition positionOwner),
    .program (.alone [positionOwner] 100) (.initPermission positionOwner positionOwner []),
    .program (.alone [positionOwner] 100) (.setPermission positionOwner positionOwner false []),
    .program (.alone [positionOwner] 100) (.closePermission positionOwner positionOwner),
    .program (.alone [positionOwner] 100) (.initPermission positionOwner positionOwner [key 8])]

/-- The flag tells the truth there. -/
theorem isPrivate_tells_truth_reopened :
    ∃ d, ((World.deployed 1000).after deployment publishForAWhile).positions.lookup
        positionOwner = some d ∧
      (d.current.isPrivate = true ↔ ∃ q, ((World.deployed 1000).after deployment
        publishForAWhile).permissions positionOwner = some q ∧ q.isPrivate = true) := by
  have hsome : (((World.deployed 1000).after deployment publishForAWhile).positions.lookup
      positionOwner).isSome = true := by decide +kernel
  obtain ⟨d, hd⟩ := Option.isSome_iff_exists.mp hsome
  exact ⟨d, hd, isPrivate_tells_truth (run_of_replays (by decide +kernel)) hd⟩

/-- An `init_permission` that is sent again after the gate was published. -/
def retryInit : List Action :=
  [.program (.alone [positionOwner] 100) (.initPosition positionOwner),
    .program (.alone [positionOwner] 100) (.delegatePosition positionOwner),
    .program (.alone [positionOwner] 100) (.initPermission positionOwner positionOwner []),
    .program (.alone [positionOwner] 100) (.setPermission positionOwner positionOwner false []),
    .program (.alone [positionOwner] 100) (.initPermission positionOwner positionOwner [])]

/-- The retry sets the flag of a position that everybody can read. -/
theorem published_claims_private :
    ∃ w d q, Run deployment (World.deployed 1000) w ∧
      w.positions.lookup positionOwner = some d ∧ d.current.isPrivate = true ∧
      w.permissions positionOwner = some q ∧ q.isPrivate = false := by
  let p : Position := { initPosition positionOwner devnetVault with isPrivate := true }
  refine ⟨(World.deployed 1000).after deployment retryInit,
    ⟨initPosition positionOwner devnetVault, some p⟩, ⟨false, [⟨ownerFlags, positionOwner⟩]⟩,
    run_of_replays (by decide +kernel), by decide +kernel, rfl, by decide +kernel, rfl⟩

end Agama
