import Agama.Gate

/-!
# Whom a gate admits

The member list of a permission against the viewers that the last `init_permission` or
`set_permission` wrote it with, which the accounts do not record. `rotate_session` finds the viewers
again by taking the owner and the stored session key off the list. It leaves the owner, the new key
and the viewers, once each, exactly when these are different keys and the list names no session but
the stored one: after an `authorize_session` it names the one before.
-/

namespace Agama

open MemberList

/-! ## The member list -/

/-- The list holds the owner with its flags, and the session key and the admitted viewers with
theirs, each once and nobody else. -/
def Permission.Admits (q : Permission) (owner session : Pubkey) (admitted : List Pubkey) : Prop :=
  Exactly owner session admitted q.listed ∧
    ∀ m ∈ q.members, m.flags = if m.pubkey = owner then ownerFlags else viewerFlags

/-- The list that `members_args` writes. -/
theorem membersArgs_listed {isPrivate : Bool} {owner session : Pubkey} {viewers : List Pubkey}
    (hsession : session ≠ Pubkey.default) :
    (membersArgs isPrivate owner session viewers).listed = owner :: session :: viewers := by
  simp [membersArgs, Permission.listed, if_neg hsession, Function.comp_def]

/-- Every viewer that `members_args` is given is on the list. -/
theorem mem_membersArgs_listed {isPrivate : Bool} {owner session v : Pubkey}
    {viewers : List Pubkey} (h : v ∈ viewers) :
    v ∈ (membersArgs isPrivate owner session viewers).listed := by
  simp only [membersArgs, Permission.listed, List.map_cons, List.map_append, List.map_map,
    List.mem_cons, List.mem_append]
  exact .inr (.inr (List.mem_map.mpr ⟨v, h, rfl⟩))

/-- Where every viewer is listed, the rewritten list is right exactly when the old one is clean. -/
theorem admits_rotated_iff (owner old : Pubkey) {new : Pubkey} {admitted listed : List Pubkey}
    (hlisted : ∀ v ∈ admitted, v ∈ listed) (hnew : new ≠ Pubkey.default) :
    (membersArgs true owner new (others owner old listed)).Admits owner new admitted ↔
      Clean owner old new admitted listed := by
  have hexactly := exactly_rotated_iff owner old new hlisted
  rw [Permission.Admits, membersArgs_listed hnew]
  constructor
  · exact fun h => hexactly.mp h.1
  · intro hclean
    refine ⟨hexactly.mpr hclean, fun m hm => ?_⟩
    -- The first member is the owner, and no other one is.
    simp only [membersArgs, if_neg hnew, List.mem_cons, List.mem_append, List.not_mem_nil,
      or_false, List.mem_map] at hm
    rcases hm with rfl | rfl | ⟨v, hv, rfl⟩
    · rw [if_pos rfl]
    · rw [if_neg hclean.notOwner]
    · rw [if_neg (mem_others.mp hv).2.1]

/-! ## The viewers that were admitted -/

/-- The viewers admitted after a call: those that it wrote the list with, or the ones before. -/
def Gate.admits (g : Gate) (admitted : List Pubkey) : GateCall → List Pubkey
  | .init viewers => if g.permission.isSome then admitted else viewers
  | .set _ viewers => viewers
  | .close => []
  | .rotate _ | .authorize _ => admitted

/-- A call that does not rotate the session of a private position, or rewrites a clean list. -/
def Gate.RotatesClean (g : Gate) (admitted : List Pubkey) : GateCall → Prop
  | .rotate key => g.isPrivate = true → ∀ q ∈ g.permission,
      Clean g.owner g.sessionKey key admitted q.listed
  | _ => True

instance (g : Gate) (admitted : List Pubkey) : (c : GateCall) →
    Decidable (g.RotatesClean admitted c)
  | .rotate key => inferInstanceAs (Decidable (g.isPrivate = true → ∀ q ∈ g.permission,
      Clean g.owner g.sessionKey key admitted q.listed))
  | .init _ | .set _ _ | .close | .authorize _ => .isTrue trivial

/-- Every admitted viewer is on the list. -/
def Gate.Lists (g : Gate) (admitted : List Pubkey) : Prop :=
  ∀ q ∈ g.permission, ∀ v ∈ admitted, v ∈ q.listed

/-- A call that rewrites clean lists only keeps every admitted viewer on the list. -/
theorem Gate.run_lists {g g' : Gate} {c : GateCall} {admitted : List Pubkey}
    (hg : g.Lists admitted) (hclean : g.RotatesClean admitted c) (h : g.run c = some g') :
    g'.Lists (g.admits admitted c) := by
  cases ran_of_run h with
  | created absent =>
    rintro q ⟨⟩ v hv
    simp only [admits, absent, Option.isSome_none, Bool.false_eq_true, if_false] at hv
    exact mem_membersArgs_listed hv
  | kept present =>
    rw [admits, if_pos (Option.isSome_of_eq_some present)]
    exact hg
  | set present =>
    rintro q' ⟨⟩ v hv
    exact mem_membersArgs_listed hv
  | closed present => exact nofun
  | rotated named listed present =>
    rintro q' ⟨⟩ v hv
    -- Rewritten from a clean list, the new one names every viewer.
    have hadmits := (admits_rotated_iff _ _ (hg _ present) named).mpr (hclean listed _ present)
    exact (hadmits.1.2 v).mpr (.inr (.inr hv))
  | rekeyed unlisted => exact hg
  | authorized => exact hg

/-! ## Runs -/

/-- The accounts, and the viewers that each permission was last written with. -/
structure Admitting where
  world : World
  admitted : Pubkey → List Pubkey

namespace Admitting

/-- Nobody is admitted at the start. -/
def start (w : World) : Admitting := ⟨w, fun _ => []⟩

/-- The viewers after an action. -/
def record (x : Admitting) (a : Action) : Pubkey → List Pubkey :=
  match a.gateCall with
  | some (o, c) => Function.update x.admitted o ((x.world.gate o).admits (x.admitted o) c)
  | none => x.admitted

/-- An action, where `P` allows it. -/
def Step (rt : Runtime) (P : Admitting → Action → Prop) (x x' : Admitting) : Prop :=
  ∃ a w', x.world.step rt a = .ok w' ∧ P x a ∧ x' = ⟨w', x.record a⟩

/-- An action that rotates no session of a private position whose list is not clean. -/
def RotatesClean (x : Admitting) (a : Action) : Prop :=
  ∀ y ∈ a.gateCall, (x.world.gate y.1).RotatesClean (x.admitted y.1) y.2

instance (x : Admitting) (a : Action) : Decidable (x.RotatesClean a) :=
  inferInstanceAs (Decidable
    (∀ y ∈ a.gateCall, (x.world.gate y.1).RotatesClean (x.admitted y.1) y.2))

/-- On every permission's list is every viewer that it was last written with. -/
def Lists (x : Admitting) : Prop := ∀ o, (x.world.gate o).Lists (x.admitted o)

/-- A step whose rotations are clean keeps every viewer listed. -/
theorem Step.lists {rt : Runtime} {x x' : Admitting} (hx : x.Lists)
    (h : Step rt RotatesClean x x') : x'.Lists := by
  obtain ⟨a, w', hstep, hclean, rfl⟩ := h
  intro o
  have hgate := World.step_gate hstep o
  unfold record
  simp only
  generalize w'.gate o = g' at hgate ⊢
  cases hgate with
  | same other =>
    -- What is recorded is about the gate that is called, which is another one.
    cases calls : a.gateCall with
    | none => exact hx o
    | some y =>
      have hne : o ≠ y.1 := by
        rintro rfl
        exact other y.2 calls
      simp only [Function.update_of_ne hne]
      exact hx o
  | called calls run =>
    rw [calls]
    simp only [Function.update_self]
    exact Gate.run_lists (hx o) (hclean _ calls) run

/-- The viewers that were admitted along some actions, as far as each succeeds where `P` allows
it. -/
def replay (rt : Runtime) (P : Admitting → Action → Prop) [∀ x a, Decidable (P x a)]
    (x : Admitting) : List Action → Option Admitting
  | [] => some x
  | a :: as =>
    match x.world.step rt a with
    | .ok w' => if P x a then replay rt P ⟨w', x.record a⟩ as else none
    | .error _ => none

/-- Replaying actions is a run. -/
theorem run_of_replay {rt : Runtime} {P : Admitting → Action → Prop} [∀ x a, Decidable (P x a)]
    {x x' : Admitting} {as : List Action} (h : x.replay rt P as = some x') :
    Relation.ReflTransGen (Step rt P) x x' := by
  induction as generalizing x with
  | nil =>
    cases h
    exact .refl
  | cons a as ih =>
    unfold replay at h
    cases hstep : x.world.step rt a with
    | error e => simp [hstep] at h
    | ok w' =>
      rw [hstep] at h
      obtain ⟨hP, hrest⟩ := Option.ite_none_right_eq_some.mp h
      exact .head ⟨a, w', hstep, hP, rfl⟩ (ih hrest)

end Admitting

/-! ## The law -/

/-- A rotation finds the position at its owner's address, and calls its gate. -/
theorem World.rotateSession_calls {rt : Runtime} {w w' : World} {tx : Tx}
    {submitter o key : Pubkey} {expiry : ℤ}
    (h : w.exec rt tx (.rotateSession submitter o key expiry) = .ok w') :
    key ≠ Pubkey.default ∧ (w.gate o).owner = o ∧
      (w.gate o).run (.rotate key) = some (w'.gate o) := by
  have hstep := exec_gate h o
  simp only [exec, execRotateSession, bind_eq_ok, loadPosition_eq_ok, pure_eq_ok] at h
  obtain ⟨_, -, d, ⟨hd, howner⟩, x, -, -⟩ := h
  generalize w'.gate o = g' at hstep ⊢
  cases hstep with
  | same other => exact absurd rfl (other (.rotate key))
  | called calls run =>
    cases calls
    refine ⟨(Option.ite_none_left_eq_some.mp run).1, ?_, run⟩
    rw [gate_eq hd]
    exact howner

/-- In every run whose rotations of private positions find clean lists, whether the next rotation
leaves the right list depends on the list that it finds: it leaves the owner, the new key and the
admitted viewers, once each, exactly when that list is clean too. -/
theorem rotation_admits_iff {rt : Runtime} {authority custodyOwner : Pubkey} {book : PoolBook}
    {x : Admitting} (hrun : Relation.ReflTransGen (Admitting.Step rt Admitting.RotatesClean)
      (Admitting.start (World.start rt authority custodyOwner book)) x)
    {w' : World} {tx : Tx} {submitter o key : Pubkey} {expiry : ℤ} {d : Delegable Position}
    (h : x.world.exec rt tx (.rotateSession submitter o key expiry) = .ok w')
    (hd : x.world.positions.lookup o = some d) (hprivate : d.current.isPrivate = true) :
    (∃ q, w'.permissions o = some q ∧ q.Admits o key (x.admitted o)) ↔
      ∃ q, x.world.permissions o = some q ∧
        Clean o d.current.sessionKey key (x.admitted o) q.listed := by
  have hlists : x.Lists := Runs.preserves (I := Admitting.Lists) (fun hx h => h.lists hx) hrun
    fun o q _ v hv => absurd hv List.not_mem_nil
  obtain ⟨hkey, howner, hcall⟩ := World.rotateSession_calls h
  have hpermission : (w'.gate o).permission = w'.permissions o := rfl
  rw [← hpermission]
  have hlisted := hlists o
  rw [World.gate_eq hd] at howner hcall hlisted
  obtain ⟨-, hcall⟩ := Option.ite_none_left_eq_some.mp hcall
  rw [if_pos (show (d.current.gate _).isPrivate = true from hprivate)] at hcall
  obtain ⟨q, hq, hgate⟩ := Option.map_eq_some_iff.mp hcall
  have hq' : x.world.permissions o = some q := hq
  rw [howner] at hgate
  have hiff := admits_rotated_iff o d.current.sessionKey (hlisted q hq) hkey
  rw [← hgate, hq']
  simp only [Option.some.injEq, exists_eq_left']
  exact hiff

/-- A private position with a session and some viewers. -/
def gatePosition (viewers : List Pubkey) : List Action :=
  [.program (.alone [positionOwner] 100) (.initPosition positionOwner),
    .program (.alone [positionOwner] 100) (.authorizeSession positionOwner (key 8)),
    .program (.alone [positionOwner] 100) (.delegatePosition positionOwner),
    .program (.alone [positionOwner] 100) (.initPermission positionOwner positionOwner viewers)]

/-- A rotation right after leaves the owner, the new key and the viewer. -/
theorem rotation_admits_iff_gated :
    ∃ x w' q, (Admitting.start (World.deployed 1000)).replay deployment Admitting.RotatesClean
        (gatePosition [key 9]) = some x ∧
      x.world.step deployment (rotation 140 latestExpiry) = .ok w' ∧
      w'.permissions positionOwner = some q ∧ q.Admits positionOwner sessionKey [key 9] := by
  have hmap : ((Admitting.start (World.deployed 1000)).replay deployment Admitting.RotatesClean
      (gatePosition [key 9])).map (fun x => (x.admitted positionOwner,
        (x.world.step deployment (rotation 140 latestExpiry)).isOk,
        (x.world.positions.lookup positionOwner).map fun d =>
          (d.current.isPrivate, d.current.sessionKey),
        x.world.permissions positionOwner)) =
      some ([key 9], true, some (true, key 8),
        some (membersArgs true positionOwner (key 8) [key 9])) := by decide +kernel
  obtain ⟨x, hx, hfacts⟩ := Option.map_eq_some_iff.mp hmap
  simp only [Prod.mk.injEq] at hfacts
  obtain ⟨hadmitted, hok, hposition, hpermission⟩ := hfacts
  obtain ⟨d, hd, hfields⟩ := Option.map_eq_some_iff.mp hposition
  obtain ⟨hprivate, hsession⟩ := Prod.mk.inj hfields
  have hstep := step_after hok
  have hclean : Clean positionOwner (key 8) sessionKey [key 9]
      (membersArgs true positionOwner (key 8) [key 9]).listed := by decide +kernel
  have hiff := rotation_admits_iff (Admitting.run_of_replay hx) hstep hd hprivate
  rw [hadmitted, hsession] at hiff
  obtain ⟨q, hq, hadmits⟩ := hiff.mpr ⟨_, hpermission, hclean⟩
  exact ⟨x, _, q, hx, hstep, hq, hadmits⟩

/-- The owner gates a position, authorises another session key on Solana, and then rotates to a
third one: the first session key, which no call admitted as a viewer, stays on the list. -/
theorem rotation_keeps_former_session :
    ∃ x w' q, (Admitting.start (World.deployed 1000)).replay deployment (fun _ _ => True)
        (gatePosition [] ++ authorizeAnother 110) = some x ∧
      x.world.step deployment (rotation 140 latestExpiry) = .ok w' ∧
      (x.world.gate positionOwner).isPrivate = true ∧ x.admitted positionOwner = [] ∧
      w'.permissions positionOwner = some q ∧ key 8 ∈ q.listed ∧
      ¬ q.Admits positionOwner sessionKey [] := by
  let rotated := membersArgs true positionOwner sessionKey [key 8]
  have hmap : ((Admitting.start (World.deployed 1000)).replay deployment (fun _ _ => True)
      (gatePosition [] ++ authorizeAnother 110)).map (fun x => (x.admitted positionOwner,
        (x.world.step deployment (rotation 140 latestExpiry)).isOk,
        (x.world.gate positionOwner).isPrivate,
        (x.world.after deployment [rotation 140 latestExpiry]).permissions positionOwner)) =
      some ([], true, true, some rotated) := by decide +kernel
  obtain ⟨x, hx, hfacts⟩ := Option.map_eq_some_iff.mp hmap
  simp only [Prod.mk.injEq] at hfacts
  obtain ⟨hadmitted, hok, hprivate, hpermission⟩ := hfacts
  refine ⟨x, _, rotated, hx, step_after hok, hprivate, hadmitted, hpermission,
    by decide +kernel, fun hadmits => ?_⟩
  have hlisted : key 8 ∈ rotated.listed := by decide +kernel
  exact absurd ((hadmits.1.2 (key 8)).mp hlisted) (by decide +kernel)

end Agama
