import Agama.Deployment
import Agama.Holdings

/-!
# Sessions

Whether the owner's signed message of a rotation can be used twice. `rotate_session` asks for an
expiry later than the current one, so a message is spent as long as the expiry does not fall again.
`authorize_session` sets it one `SESSION_TTL` ahead of the clock, an hour short of what a rotation
may ask for.
-/

namespace Agama

/-- An owner whose position has a session that expires at `expiry` or later. -/
def Holding.SessionReaches (x : Holding) (expiry : ℤ) : Prop :=
  ∃ d, x.position = some d ∧ expiry ≤ d.current.sessionExpiry

/-- No effect brings a session's expiry back, unless it authorises a session that ends before. -/
theorem Holding.Step.sessionReaches {rt : Runtime} {tx : Tx} {o : Pubkey} {ix : Ix}
    {x x' : Holding} {expiry : ℤ} (hx : x.SessionReaches expiry)
    (hlate : ∀ key, ix = .authorizeSession o key → expiry ≤ tx.now + sessionTtl)
    (h : Holding.Step rt tx o ix x x') : x'.SessionReaches expiry := by
  obtain ⟨d, hd, hle⟩ := hx
  cases h with
  | other => exact ⟨d, hd, hle⟩
  | opened signed => cases hd
  -- The one effect that sets the expiry without comparing it with the current one.
  | authorized signed =>
    refine ⟨_, rfl, ?_⟩
    rw [Delegable.current_write]
    exact hlate _ rfl
  | rotated later reads signed =>
    cases hd
    refine ⟨_, rfl, ?_⟩
    rw [Delegable.current_write]
    exact hle.trans later.le
  | acted signed mayAct owner key kept =>
    cases hd
    refine ⟨_, rfl, ?_⟩
    rwa [Delegable.current_write, kept]
  | delegated signed run =>
    cases hd
    exact ⟨_, rfl, by rwa [(Delegable.delegate_eq_some run).2]⟩
  | undelegated run =>
    cases hd
    exact ⟨_, rfl, by rwa [(Delegable.undelegate_eq_some run).2.1]⟩

/-- A rotation moves the session's expiry forward, to the one it names. -/
theorem World.rotateSession_moves {rt : Runtime} {w w' : World} {tx : Tx}
    {submitter o key : Pubkey} {expiry : ℤ}
    (h : w.exec rt tx (.rotateSession submitter o key expiry) = .ok w') :
    ¬ (w.holding o).SessionReaches expiry ∧ (w'.holding o).SessionReaches expiry := by
  simp only [exec, execRotateSession, bind_eq_ok, loadPosition_eq_ok, pure_eq_ok] at h
  obtain ⟨_, -, d, ⟨hd, -⟩, a, hrun, rfl⟩ := h
  obtain ⟨hlater, -, hp⟩ := rotateSession_spec hrun
  constructor
  · rintro ⟨d', hd', hle⟩
    rw [holding_eq hd, Option.some.injEq] at hd'
    subst hd'
    exact absurd hlater (not_lt.mpr hle)
  · refine ⟨d.write a.position, AList.lookup_insert _, ?_⟩
    rw [Delegable.current_write, hp]

/-- The session key that an instruction authorises for a position. -/
def Ix.authorizes (o : Pubkey) : Ix → Option Pubkey
  | .authorizeSession o' key => if o' = o then some key else none
  | _ => none

/-- It is `authorize_session` that authorises one. -/
theorem Ix.authorizes_eq_some {ix : Ix} {o key : Pubkey} :
    ix.authorizes o = some key ↔ ix = .authorizeSession o key := by
  constructor
  · intro h
    cases ix with
    | authorizeSession o' key' =>
      simp only [authorizes, Option.ite_none_right_eq_some, Option.some.injEq] at h
      rw [h.1, h.2]
    | _ => cases h
  · rintro rfl
    exact if_pos rfl

/-- An action that authorises no session of `o` ending before `expiry`. -/
def AuthorizesLate (o : Pubkey) (expiry : ℤ) (_ : World) (a : Action) (_ : World) : Prop :=
  ∀ tx key, a = .program tx (.authorizeSession o key) → expiry ≤ tx.now + sessionTtl

/-- Only an `authorize_session` has to be looked at. -/
instance (o : Pubkey) (expiry : ℤ) (w : World) (w' : World) :
    (a : Action) → Decidable (AuthorizesLate o expiry w a w')
  | .program tx ix =>
    decidable_of_iff (∀ k ∈ ix.authorizes o, expiry ≤ tx.now + sessionTtl)
      ⟨fun h _ k ha => by cases ha; exact h k (if_pos rfl), fun h k hk => h tx k (by
        rw [Ix.authorizes_eq_some.mp hk])⟩
  | .token _ => .isTrue fun _ _ ha => by cases ha

/-- Along such a run, a session that reaches the expiry keeps reaching it. -/
theorem World.run_sessionReaches {rt : Runtime} {w w' : World} {o : Pubkey} {expiry : ℤ}
    (hrun : Relation.ReflTransGen (StepWith rt (AuthorizesLate o expiry)) w w')
    (h : (w.holding o).SessionReaches expiry) : (w'.holding o).SessionReaches expiry := by
  refine Runs.preserves (I := fun w => (w.holding o).SessionReaches expiry) ?_ hrun h
  rintro v v' hv ⟨a, ha, hlate⟩
  rcases step_holding ha o with ⟨tx, ix, rfl, hstep⟩ | hsame
  · exact hstep.sessionReaches hv fun key hix => hlate tx key (hix ▸ rfl)
  · rwa [hsame]

/-! ## A signed message -/

/-- The Ed25519 precompile's instruction that verifies one signature over a message. What the
signature bytes are is the precompile's to check. -/
def ed25519Verify (signer : Pubkey) (message : List UInt8) : Instruction :=
  let le := LittleEndian.leBytes 2
  ⟨ed25519ProgramId, [],
    [1, 0] ++ le 48 ++ le 0xFFFF ++ le 16 ++ le 0xFFFF ++ le 112 ++ le message.length ++
      le 0xFFFF ++ signer.bytes ++ List.replicate 64 0 ++ message⟩

/-- A rotation to the session key at time `now`, signed by the owner. -/
def rotation (now expiry : ℤ) : Action :=
  .program
    (.next
      (ed25519Verify positionOwner (sessionMessage deployment positionAccount sessionKey expiry))
      [user] now)
    (.rotateSession user positionOwner sessionKey expiry)

/-- The latest expiry that a rotation at time 100 may ask for. -/
def latestExpiry : ℤ := 100 + sessionTtl + 3600

/-- A position in the enclave, before its session is rotated. -/
def World.deployedSession : World :=
  (World.deployed 1000).after deployment
    [.program (.alone [positionOwner] 100) (.initPosition positionOwner),
      .program (.alone [positionOwner] 100) (.delegatePosition positionOwner)]

/-- The session key of the position. -/
def World.sessionKeyOf (w : World) (o : Pubkey) : Option Pubkey :=
  (w.positions.lookup o).map fun d => d.current.sessionKey

/-- The owner takes the position back to Solana, authorises another key there, and delegates the
position again. -/
def authorizeAnother (now : ℤ) : List Action :=
  [.program (.alone [positionOwner] now) (.undelegatePosition positionOwner positionOwner),
    .program (.alone [positionOwner] (now + 10)) (.authorizeSession positionOwner (key 7)),
    .program (.alone [positionOwner] (now + 20)) (.delegatePosition positionOwner)]

/-! ## The law -/

/-- Once a rotation has succeeded, no rotation of that position to the same key and expiry succeeds
again, in any run in which every later `authorize_session` on the position is made when a session of
`SESSION_TTL` reaches that expiry. -/
theorem rotation_works_once {rt : Runtime} {w₁ w₂ w₃ : World} {tx tx' : Tx}
    {submitter submitter' o key : Pubkey} {expiry : ℤ}
    (h : w₁.exec rt tx (.rotateSession submitter o key expiry) = .ok w₂)
    (hrun : Relation.ReflTransGen (StepWith rt (AuthorizesLate o expiry)) w₂ w₃) (w₄ : World) :
    w₃.exec rt tx' (.rotateSession submitter' o key expiry) ≠ .ok w₄ := by
  intro hreplay
  -- The rotation spends its message: from then on the session reaches the expiry it names.
  have hspent := World.run_sessionReaches hrun (World.rotateSession_moves h).2
  exact (World.rotateSession_moves hreplay).1 hspent

/-- An hour after the rotation the owner authorises another key, and the same message is refused. -/
theorem rotation_works_once_replay :
    ∃ w₂, World.deployedSession.step deployment (rotation 100 latestExpiry) = .ok w₂ ∧
      ∃ w₃, w₃ = w₂.after deployment (authorizeAnother 3690) ∧
        w₃.sessionKeyOf positionOwner = some (key 7) ∧
        ∀ w₄, w₃.step deployment (rotation 3720 latestExpiry) ≠ .ok w₄ := by
  let w₂ := World.deployedSession.after deployment [rotation 100 latestExpiry]
  have hrotate : World.deployedSession.step deployment (rotation 100 latestExpiry) = .ok w₂ :=
    step_after (by decide +kernel)
  have hrun : Relation.ReflTransGen
      (StepWith deployment (AuthorizesLate positionOwner latestExpiry)) w₂
      (w₂.after deployment (authorizeAnother 3690)) := run_of_replays (by decide +kernel)
  exact ⟨w₂, hrotate, _, rfl, by decide +kernel, rotation_works_once hrotate hrun⟩

/-- After a rotation to the latest expiry, the owner authorises another key, which ends an hour
earlier; the same message then puts the first key back. -/
theorem rotation_replayed :
    ∃ w₂ w₃ w₄ : World, Run deployment (World.deployed 1000) World.deployedSession ∧
      World.deployedSession.step deployment (rotation 100 latestExpiry) = .ok w₂ ∧
      w₂.sessionKeyOf positionOwner = some sessionKey ∧
      Run deployment w₂ w₃ ∧ w₃ = w₂.after deployment (authorizeAnother 110) ∧
      w₃.sessionKeyOf positionOwner = some (key 7) ∧
      w₃.step deployment (rotation 140 latestExpiry) = .ok w₄ ∧
      w₄.sessionKeyOf positionOwner = some sessionKey := by
  let w₂ := World.deployedSession.after deployment [rotation 100 latestExpiry]
  let w₃ := w₂.after deployment (authorizeAnother 110)
  let w₄ := w₃.after deployment [rotation 140 latestExpiry]
  have hruns : (World.deployed 1000).replays deployment (fun _ _ _ => True)
        [.program (.alone [positionOwner] 100) (.initPosition positionOwner),
          .program (.alone [positionOwner] 100) (.delegatePosition positionOwner)] = true ∧
      (World.deployedSession.step deployment (rotation 100 latestExpiry)).isOk = true ∧
      w₂.sessionKeyOf positionOwner = some sessionKey ∧
      w₂.replays deployment (fun _ _ _ => True) (authorizeAnother 110) = true ∧
      w₃.sessionKeyOf positionOwner = some (key 7) ∧
      (w₃.step deployment (rotation 140 latestExpiry)).isOk = true ∧
      w₄.sessionKeyOf positionOwner = some sessionKey := by decide +kernel
  obtain ⟨hrun, hrotate, hkey₂, hrun₂, hkey₃, hrotate₃, hkey₄⟩ := hruns
  exact ⟨w₂, w₃, w₄, run_of_replays hrun, step_after hrotate, hkey₂, run_of_replays hrun₂, rfl,
    hkey₃, step_after hrotate₃, hkey₄⟩

end Agama
