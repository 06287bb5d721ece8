import Agama.Deployment
import Agama.Lib.Sponsored
import Agama.Panics

/-!
# Sponsorship

A delegation sponsors ten commits. `Delegations` are the accounts with the commits that the book's
and the aggregate's delegations have sponsored, and their runs are those of the accounts in which no
commit exceeds the limit. Past it Solana's book is stale: whatever is done with a delegated book,
nothing of it is published any more.
-/

namespace Agama

/-- `COMMIT_LIMIT`. -/
def commitLimit : ℕ := 10

/-- The accounts, and the commits that the book's and the aggregate's delegation have sponsored. -/
structure Delegations where
  world : World
  bookCommits : ℕ
  shieldedCommits : ℕ

/-- Why a transaction that was sent did not confirm. -/
inductive SendError where
  /-- The sponsored commit limit, custom error `0xa0000000`. -/
  | limit
  | failed (f : Fault)
  /-- An answer, or what a script waits for, did not come in time. -/
  | timedOut
  /-- The router has no endpoint for an account that "is not delegated". -/
  | notDelegated

namespace Delegations

/-- The book, with its delegation's commits. -/
def book (x : Delegations) : Sponsored PoolBook := ⟨x.world.book, x.bookCommits⟩

/-- The aggregate, with its delegation's commits. -/
def shielded (x : Delegations) : Sponsored Shielded := ⟨x.world.shielded, x.shieldedCommits⟩

/-- What the sponsorship makes of an action that leads to `world`: a commit fails past the limit,
and a delegation starts to count anew. -/
def counted (x : Delegations) (world : World) : Action → Except SendError Delegations
  | .program _ (.commitBook _) =>
    if x.bookCommits < commitLimit then .ok { x with world, bookCommits := x.bookCommits + 1 }
    else .error .limit
  | .program _ (.commitShielded _) =>
    if x.shieldedCommits < commitLimit then
      .ok { x with world, shieldedCommits := x.shieldedCommits + 1 }
    else .error .limit
  | .program _ (.delegateBook _) => .ok { x with world, bookCommits := 0 }
  | .program _ (.delegateShielded _) => .ok { x with world, shieldedCommits := 0 }
  | _ => .ok { x with world }

/-- One action. -/
def step (rt : Runtime) (x : Delegations) (a : Action) : Except SendError Delegations :=
  match x.world.step rt a with
  | .error f => .error (.failed f)
  | .ok world => x.counted world a

/-- A transaction of the wallet's alone, at a reading of the clock. -/
def send (rt : Runtime) (wallet : Pubkey) (now : ℤ) (x : Delegations) (ix : Ix) :
    Except SendError Delegations := x.step rt (.program (.alone [wallet] now) ix)

/-- Another book, with the commits of its delegation. -/
def putBook (x : Delegations) (s : Sponsored PoolBook) : Delegations :=
  { x with world := { x.world with book := s.copy }, bookCommits := s.commits }

/-- Another aggregate, with the commits of its delegation. -/
def putShielded (x : Delegations) (s : Sponsored Shielded) : Delegations :=
  { x with world := { x.world with shielded := s.copy }, shieldedCommits := s.commits }

end Delegations

section Send

variable {rt : Runtime} {wallet : Pubkey}

/-- What an instruction that succeeds comes to. -/
theorem Delegations.send_of_exec {x : Delegations} {now : ℤ} {ix : Ix} {w : World}
    (h : x.world.exec rt (.alone [wallet] now) ix = .ok w) :
    x.send rt wallet now ix = x.counted w (.program (.alone [wallet] now) ix) := by
  simp only [send, step, World.step, h]

/-- A tick writes the ticked book. -/
theorem Delegations.send_tick {x : Delegations} {now : ℤ} {b : PoolBook}
    (ht : tick x.world.book.current now = .ok b) :
    x.send rt wallet now (.tick wallet) = .ok { x with world := x.world.storeBook b } := by
  refine Delegations.send_of_exec ?_
  simp only [World.exec, bind_eq_ok, World.signs_eq_ok, pure_eq_ok]
  exact ⟨(), List.mem_singleton_self wallet, b, ht, rfl⟩

end Send

/-! ## Runs -/

namespace Delegations

variable {rt : Runtime} {x x' : Delegations} {w : World} {a : Action}

/-- What is counted, and when. -/
theorem counted_spec (h : x.counted w a = .ok x') :
    x'.world = w ∧
    (a.move = .commitBook → x.bookCommits < commitLimit ∧ x'.bookCommits = x.bookCommits + 1) ∧
    (a.move = .delegateBook → x'.bookCommits = 0) ∧
    (a.move ≠ .commitBook → a.move ≠ .delegateBook → x'.bookCommits = x.bookCommits) := by
  cases a with
  | token t =>
    cases h
    exact ⟨rfl, by simp [Action.move], by simp [Action.move], fun _ _ => rfl⟩
  | program tx ix =>
    cases ix
    case commitBook | commitShielded =>
      simp only [counted] at h
      split at h
      · cases h
        simp_all [Action.move, Ix.move]
      · cases h
    all_goals
      cases h
      simp [Action.move, Ix.move]

/-- A step of the accounts with their delegations is one of the accounts. -/
theorem step_world (h : x.step rt a = .ok x') :
    x.world.step rt a = .ok x'.world ∧ x.counted x'.world a = .ok x' := by
  unfold step at h
  split at h
  · cases h
  · rename_i w hw
    rw [hw, (counted_spec h).1]
    exact ⟨rfl, h⟩

end Delegations

/-- A ledger's step does to the book, with its delegation's commits, what can be done to a sponsored
value. -/
theorem Ledger.Step.sponsored {L L' : Ledger} {m : Move} {n n' : ℕ} (h : Ledger.Step L m L')
    (hcommit : m = .commitBook → n < commitLimit ∧ n' = n + 1)
    (hdelegate : m = .delegateBook → n' = 0)
    (helse : m ≠ .commitBook → m ≠ .delegateBook → n' = n) :
    Sponsored.Step commitLimit m.WritesBook ⟨L.book, n⟩ ⟨L'.book, n'⟩ := by
  cases h with
  | delegateBook run =>
    obtain rfl := hdelegate rfl
    exact .delegate (Option.map_eq_some_iff.mpr ⟨_, run, rfl⟩)
  | commitBook run =>
    obtain ⟨hbudget, rfl⟩ := hcommit rfl
    refine .commit ?_
    rw [Sponsored.commit, if_pos hbudget]
    exact Option.map_eq_some_iff.mpr ⟨_, run, rfl⟩
  | undelegateBook run =>
    obtain rfl := helse (by simp) (by simp)
    exact .undelegate (Option.map_eq_some_iff.mpr ⟨_, run, rfl⟩)
  | tick run =>
    obtain rfl := helse (by simp) (by simp)
    exact .write ⟨_, rfl, run⟩
  | absorb run =>
    obtain rfl := helse (by simp) (by simp)
    refine .write ⟨_, rfl, ?_⟩
    rw [PoolBook.apply]
    dsimp only
    rw [run]
    rfl
  | setApr run =>
    obtain rfl := helse (by simp) (by simp)
    exact .write ⟨_, rfl, run⟩
  | deposit | redeem | depositPrivate | redeemPrivate | delegateShielded | commitShielded
  | undelegateShielded | other =>
    obtain rfl := helse (by simp) (by simp)
    exact .same

namespace Delegations

variable {rt : Runtime} {x x' : Delegations} {a : Action}

/-- So does every action. -/
theorem step_book (h : x.step rt a = .ok x') :
    Sponsored.Step commitLimit a.move.WritesBook x.book x'.book := by
  obtain ⟨hw, hcounted⟩ := step_world h
  obtain ⟨-, hcommit, hdelegate, helse⟩ := counted_spec hcounted
  exact (World.step_ledger hw).sponsored hcommit hdelegate helse

/-- A run of actions that `P` allows. -/
def RunWith (rt : Runtime) (P : World → Action → World → Prop) : Delegations → Delegations → Prop :=
  Relation.ReflTransGen fun x x' => ∃ a, x.step rt a = .ok x' ∧ P x.world a x'.world

/-- It is a run of the accounts. -/
theorem RunWith.world {P : World → Action → World → Prop} (h : RunWith rt P x x') :
    Relation.ReflTransGen (StepWith rt P) x.world x'.world :=
  Relation.ReflTransGen.lift Delegations.world
    (fun _ _ ⟨a, ha, hP⟩ => ⟨a, (step_world ha).1, hP⟩) _ _ h

/-- Actions that leave the book delegated. -/
def StaysDelegated (rt : Runtime) : Delegations → Delegations → Prop :=
  Relation.ReflTransGen fun x x' => ∃ a, x.step rt a = .ok x' ∧ x'.world.book.live ≠ none

/-- With the commits used up, the book on Solana stays as it is as long as the book stays
delegated. -/
theorem stale (hspent : commitLimit ≤ x.bookCommits) (hlive : x.world.book.live ≠ none)
    (hrun : StaysDelegated rt x x') : x'.world.book.base = x.world.book.base := by
  have hkept := Runs.preserves
    (I := fun y : Delegations => commitLimit ≤ y.bookCommits ∧ y.world.book.live ≠ none ∧
      y.world.book.base = x.world.book.base) ?_ hrun ⟨hspent, hlive, rfl⟩
  · exact hkept.2.2
  · rintro y y' ⟨hspent, hlive, hbase⟩ ⟨a, ha, hlive'⟩
    obtain ⟨hspent', hbase'⟩ := (step_book ha).spent hspent hlive hlive'
    exact ⟨hspent', hlive', hbase'.trans hbase⟩

end Delegations

/-- No step changes the vault's authority. -/
theorem Ledger.Step.authority {L L' : Ledger} {m : Move} (h : Ledger.Step L m L') :
    L'.vault.authority = L.vault.authority := by
  cases h <;> rfl

/-- No action changes the vault's authority. -/
theorem World.run_authority {rt : Runtime} {P : World → Action → World → Prop} {w w' : World}
    (hrun : Relation.ReflTransGen (StepWith rt P) w w') :
    w'.vault.authority = w.vault.authority := by
  refine Runs.preserves (I := fun v : World => v.vault.authority = w.vault.authority) ?_ hrun rfl
  rintro v v' hv ⟨a, ha, -⟩
  exact (step_ledger ha).authority.trans hv

/-- The state that the actions lead to that `P` allows and that confirm. -/
def Delegations.follow (rt : Runtime) (P : World → Action → World → Prop)
    [∀ w a w', Decidable (P w a w')] : Delegations → List Action → Delegations :=
  Runs.follow fun x a => do
    let x' ← x.step rt a
    if P x.world a x'.world then .ok x' else .error .timedOut

/-- It is reached by such a run. -/
theorem Delegations.run_follow {rt : Runtime} {P : World → Action → World → Prop}
    [∀ w a w', Decidable (P w a w')] (x : Delegations) (as : List Action) :
    RunWith rt P x (x.follow rt P as) := by
  refine Runs.follow_run _ (fun x a x' h => ?_) x as
  cases hstep : x.step rt a with
  | error e =>
    rw [hstep] at h
    cases h
  | ok y =>
    rw [hstep] at h
    change (if P x.world a y.world then _ else _) = _ at h
    split at h
    · rename_i hP
      cases h
      exact ⟨a, hstep, hP⟩
    · cases h

end Agama
