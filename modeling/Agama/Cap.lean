import Agama.Admission

/-!
# The cap on a permission's members

`MAX_PERMISSION_MEMBERS` sizes the rent that a position funds for its permission. Three handlers
write the member list. `set_permission` counts the owner, the session key and the viewers.
`init_permission` counts the owner and the viewers, and `members_args` adds the session key all the
same. `rotate_session` counts nothing: it keeps whoever it finds listed besides the owner and the
stored session key, which `authorize_session` may have changed since the list was written. So the
lists stay within the cap exactly as long as the calls leave room for the session key.
-/

namespace Agama

open MemberList

/-- The length guards that a call has passed. -/
def GateCall.Accepted : GateCall → Prop
  | .init viewers => viewers.length + 1 ≤ maxPermissionMembers
  | .set _ viewers => viewers.length + 2 ≤ maxPermissionMembers
  | .close | .rotate _ | .authorize _ => True

/-- A call that leaves room for the session key: an `init_permission` that creates the list has a
place for it, if there is one, and a rotation finds at most two places of the list taken by others
than the owner and the stored session key. -/
def Gate.LeavesRoom (g : Gate) : GateCall → Prop
  | .init viewers => g.permission = none →
      g.sessionKey = Pubkey.default ∨ viewers.length + 2 ≤ maxPermissionMembers
  | .rotate _ => g.isPrivate = true → ∀ q ∈ g.permission,
      q.listed.countP (fun k => k ≠ g.owner ∧ k ≠ g.sessionKey) + 2 ≤ maxPermissionMembers
  | .set _ _ | .close | .authorize _ => True

instance (g : Gate) : (c : GateCall) → Decidable (g.LeavesRoom c)
  | .init viewers => inferInstanceAs (Decidable (g.permission = none →
      g.sessionKey = Pubkey.default ∨ viewers.length + 2 ≤ maxPermissionMembers))
  | .rotate _ => inferInstanceAs (Decidable (g.isPrivate = true → ∀ q ∈ g.permission,
      q.listed.countP (fun k => k ≠ g.owner ∧ k ≠ g.sessionKey) + 2 ≤ maxPermissionMembers))
  | .set _ _ | .close | .authorize _ => .isTrue trivial

/-- The permission, if there is one, is within the cap. -/
def Gate.Capped (g : Gate) : Prop :=
  ∀ q ∈ g.permission, q.members.length ≤ maxPermissionMembers

/-! ## One call -/

/-- `members_args` lists the owner, the session key if there is one, and the viewers. -/
theorem length_membersArgs (isPrivate : Bool) (owner session : Pubkey) (viewers : List Pubkey) :
    (membersArgs isPrivate owner session viewers).members.length =
      (if session = Pubkey.default then 1 else 2) + viewers.length := by
  unfold membersArgs
  split
  · simp only [List.nil_append, List.length_cons, List.length_map]
    omega
  · simp only [List.cons_append, List.nil_append, List.length_cons, List.length_map]
    omega

/-- A rotation keeps every place of the list but the owner's and the old key's. -/
theorem length_rotatedArgs (owner old : Pubkey) {new : Pubkey} (listed : List Pubkey)
    (hnew : new ≠ Pubkey.default) :
    (membersArgs true owner new (others owner old listed)).members.length =
      listed.countP (fun k => k ≠ owner ∧ k ≠ old) + 2 := by
  rw [← length_rotated owner old new, length_membersArgs, if_neg hnew, rotated, List.length_cons,
    List.length_cons]
  omega

/-- A gate with a permission is capped if that is within the cap. -/
theorem Gate.capped_iff {g : Gate} {q : Permission} (hq : g.permission = some q) :
    g.Capped ↔ q.members.length ≤ maxPermissionMembers := by
  simp only [Capped, hq, Option.mem_def, Option.some.injEq, forall_eq']

/-- On a permission within the cap, a call that passes its guards leaves one within the cap exactly
when it leaves room for the session key. -/
theorem Gate.run_capped_iff {g g' : Gate} {c : GateCall} (hg : g.Capped) (hc : c.Accepted)
    (h : g.run c = some g') : g'.Capped ↔ g.LeavesRoom c := by
  cases ran_of_run h with
  | created absent =>
    simp only [GateCall.Accepted] at hc
    rw [capped_iff rfl, length_membersArgs, LeavesRoom, imp_iff_right absent]
    split
    · rename_i hnone
      exact iff_of_true (by omega) (.inl hnone)
    · rename_i hsome
      rw [or_iff_right hsome, Nat.add_comm]
  | kept present =>
    -- A list that exists is kept.
    refine iff_of_true hg fun hnone => ?_
    exact absurd (present.symm.trans hnone) (Option.some_ne_none _)
  | set present =>
    simp only [GateCall.Accepted] at hc
    refine iff_of_true ?_ trivial
    rw [capped_iff rfl, length_membersArgs]
    split <;> omega
  | closed present => exact iff_of_true (fun q' hq' => absurd hq' (Option.not_mem_none q')) trivial
  | rotated named listed present =>
    rw [capped_iff rfl, length_rotatedArgs _ _ _ named, LeavesRoom, imp_iff_right listed]
    simp only [present, Option.mem_def, Option.some.injEq, forall_eq']
  | rekeyed unlisted =>
    exact iff_of_true hg fun hprivate => absurd (unlisted.symm.trans hprivate) Bool.false_ne_true
  | authorized => exact iff_of_true hg trivial

/-! ## Every action -/

namespace World

variable {rt : Runtime} {w w' : World} {a : Action}

/-- A permission handler that succeeds has passed its guards. -/
theorem execPermission_accepted {tx : Tx} {signer position : Pubkey} {c : GateCall}
    {handler : PermissionCtx → ℤ → Result PermissionCtx}
    (h : w.execPermission tx signer position handler = .ok w')
    (hspec : ∀ {x x'}, handler x tx.now = .ok x' → c.Accepted) : c.Accepted := by
  simp only [execPermission, bind_eq_ok] at h
  obtain ⟨_, -, d, -, x, hrun, -⟩ := h
  exact hspec hrun

/-- An action that succeeds has passed the guards of the call that it makes. -/
theorem step_accepted (h : w.step rt a = .ok w') {o : Pubkey} {c : GateCall}
    (calls : a.gateCall = some (o, c)) : c.Accepted := by
  cases a with
  | token t => cases calls
  | program tx ix =>
    cases ix with
    | initPermission signer position viewers =>
      cases calls
      simp only [step, exec] at h
      refine execPermission_accepted (c := .init viewers) h fun hrun => ?_
      simp only [initPermission, bind_eq_ok, require_eq_ok] at hrun
      obtain ⟨_, -, _, hlength, -⟩ := hrun
      exact hlength
    | setPermission signer position isPrivate viewers =>
      cases calls
      simp only [step, exec] at h
      refine execPermission_accepted (c := .set isPrivate viewers) h fun hrun => ?_
      simp only [setPermission, bind_eq_ok, require_eq_ok] at hrun
      obtain ⟨_, -, _, hlength, -⟩ := hrun
      exact hlength
    | closePermission | rotateSession | authorizeSession =>
      cases calls
      trivial
    | _ => cases calls

/-- Every permission of a position is within the cap. -/
def Capped (w : World) : Prop :=
  ∀ o q, w.permissions o = some q → q.members.length ≤ maxPermissionMembers

/-- An action whose call, if it makes one, leaves room for the session key. -/
def LeavesRoom (w : World) (a : Action) (_ : World) : Prop :=
  ∀ x ∈ a.gateCall, (w.gate x.1).LeavesRoom x.2

instance (w : World) (a : Action) (w' : World) : Decidable (w.LeavesRoom a w') :=
  inferInstanceAs (Decidable (∀ x ∈ a.gateCall, (w.gate x.1).LeavesRoom x.2))

/-- From permissions within the cap, an action leaves them within it exactly when its call leaves
room for the session key. -/
theorem step_capped_iff (hw : w.Capped) (h : w.step rt a = .ok w') :
    w'.Capped ↔ w.LeavesRoom a w' := by
  constructor
  · rintro hw' ⟨o, c⟩ calls
    have hbefore : (w.gate o).Capped := hw o
    have hafter : (w'.gate o).Capped := hw' o
    have hstep := step_gate h o
    generalize w'.gate o = g' at hstep hafter
    cases hstep with
    | same other => exact absurd calls (other c)
    | called calls' run =>
      cases calls.symm.trans calls'
      exact (Gate.run_capped_iff hbefore (step_accepted h calls) run).mp hafter
  · intro hroom o
    have hbefore : (w.gate o).Capped := hw o
    have hstep := step_gate h o
    change (w'.gate o).Capped
    generalize w'.gate o = g' at hstep ⊢
    cases hstep with
    | same other => exact hbefore
    | called calls run =>
      exact (Gate.run_capped_iff hbefore (step_accepted h calls) run).mpr (hroom _ calls)

end World

/-- In every state of every run whose calls leave room for the session key, every permission that
the program wrote is within the cap, and the next call keeps them so exactly when it leaves room
too. -/
theorem permissions_capped_iff {rt : Runtime} {authority custodyOwner : Pubkey} {book : PoolBook}
    {w : World} (hrun : Relation.ReflTransGen (StepWith rt World.LeavesRoom)
      (World.start rt authority custodyOwner book) w) :
    w.Capped ∧ ∀ a w', w.step rt a = .ok w' → (w'.Capped ↔ w.LeavesRoom a w') := by
  have hcapped : w.Capped := Runs.preserves
    (fun hv ⟨_, hstep, hroom⟩ => (World.step_capped_iff hv hstep).mpr hroom) hrun
    fun o q hq => absurd hq.symm (Option.some_ne_none q)
  exact ⟨hcapped, fun a w' h => World.step_capped_iff hcapped h⟩

/-- A position with a session and two viewers, and its next session. -/
theorem permissions_capped_iff_rotated :
    ∃ w, w = (World.deployed 1000).after deployment
        (gatePosition [key 9, key 10] ++ [rotation 140 latestExpiry]) ∧
      (w.permissions positionOwner).map (·.members.length) = some maxPermissionMembers ∧
      w.Capped ∧ ∀ a w', w.step deployment a = .ok w' → (w'.Capped ↔ w.LeavesRoom a w') :=
  ⟨_, rfl, by decide +kernel, permissions_capped_iff (run_of_replays (by decide +kernel))⟩

/-- With a session authorised, three viewers make five members. -/
theorem permission_outgrows_cap :
    ∃ w q, Run deployment (World.deployed 1000) w ∧ w.permissions positionOwner = some q ∧
      q.members.length = 5 ∧ ¬ w.Capped := by
  let q := membersArgs true positionOwner (key 8) [key 9, key 10, key 11]
  have hq : ((World.deployed 1000).after deployment
      (gatePosition [key 9, key 10, key 11])).permissions positionOwner = some q := by
    decide +kernel
  exact ⟨_, q, run_of_replays (by decide +kernel), hq, rfl,
    fun hcapped => absurd (hcapped _ q hq) (by decide)⟩

end Agama
