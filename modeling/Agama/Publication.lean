import Agama.Copies
import Agama.Deployment

/-!
# What Solana shows

While the book and the aggregate are away, Solana holds what was last published of them, and public
flow is priced on that. So every copy on Solana is a live state that there really was: the one of
the last time that both copies agreed, which never moves back (`solana_shows_the_past`). The exit
book is delegated and never published, so Solana's copy of it stays as it was before.
-/

namespace Agama

open Delegable

/-! ## The exit book -/

/-- No instruction publishes the exit book. -/
theorem World.exec_exits {rt : Runtime} {w w' : World} {tx : Tx} {ix : Ix}
    (h : w.exec rt tx ix = .ok w') (hlive : w.exits.live ≠ none) :
    w'.exits.base = w.exits.base ∧ w'.exits.live ≠ none := by
  have hwrite (x : ExitBook) :
      (w.exits.write x).base = w.exits.base ∧ (w.exits.write x).live ≠ none := by
    rw [write_of_live x hlive]
    exact ⟨rfl, Option.some_ne_none x⟩
  cases ix with
  | initializeVault | initBook | migrateBook | initShielded => cases h
  | settleExit authority groupId =>
    simp only [exec, execSettleExit, bind_eq_ok, pure_eq_ok] at h
    obtain ⟨_, -, _, -, exits, -, rfl⟩ := h
    exact hwrite exits
  | redeemPrivate | redeemPrivateTo =>
    simp only [exec, execRedeemPrivate, bind_eq_ok, pure_eq_ok] at h
    obtain ⟨_, -, d, -, _, -, _, -, a, -, rfl⟩ := h
    exact hwrite a.exits
  | depositPrivate =>
    simp only [exec, execDepositPrivate, bind_eq_ok, pure_eq_ok] at h
    obtain ⟨_, -, _, -, d, -, _, -, a, -, rfl⟩ := h
    exact ⟨rfl, hlive⟩
  | delegateExits payer =>
    simp only [exec, bind_eq_ok, orElse_eq_ok, pure_eq_ok] at h
    obtain ⟨_, -, d, hrun, rfl⟩ := h
    exact absurd (delegate_live_eq_none hrun) hlive
  | delegateShielded | commitShielded | undelegateShielded =>
    simp only [exec, bind_eq_ok, pure_eq_ok] at h
    obtain ⟨_, -, d, -, rfl⟩ := h
    exact ⟨rfl, hlive⟩
  -- The rest writes neither the aggregate nor the exits.
  | faucet | deposit | redeem | prepareForRollup | initShieldedPermission | tick | absorb | setApr
  | delegateBook | commitBook | undelegateBook | initPosition | initPermission | setPermission
  | closePermission | rotateSession | authorizeSession | delegatePosition | undelegatePosition
  | syncPosition =>
    rw [((exec_frame h).shielded rfl).2]
    exact ⟨rfl, hlive⟩

/-- Nor does a token movement. -/
theorem World.step_exits {rt : Runtime} {w w' : World} {a : Action} (h : w.step rt a = .ok w')
    (hlive : w.exits.live ≠ none) : w'.exits.base = w.exits.base ∧ w'.exits.live ≠ none := by
  cases a with
  | program tx ix => exact exec_exits h hlive
  | token t =>
    rw [step, orElse_eq_ok] at h
    rw [(moveTokens_same h).exits]
    exact ⟨rfl, hlive⟩

/-! ## Prices -/

/-- A move's flow is priced on a book `b`, and public flow on an aggregate `s`. Private flow is
priced on the live aggregate. -/
def World.PricedOn (w w' : World) (b : PoolBook) (s : Shielded) : Move → Prop
  | .deposit amount => ∃ shares, Mints w.vault b s amount shares ∧
      w'.vault = w.vault.deposited shares amount
  | .redeem shares => ∃ assets, Pays w.vault b s shares assets ∧
      w'.vault = w.vault.redeemed shares assets
  | .depositPrivate amount => ∃ shares, Mints w.vault b w.shielded.current amount shares ∧
      w'.shielded.current = w.shielded.current.deposited shares amount
  | .redeemPrivate shares => ∃ assets, Pays w.vault b w.shielded.current shares assets ∧
      w'.shielded.current = w.shielded.current.redeemed shares assets
  | _ => True

/-- Every flow is priced on the copies on Solana. -/
theorem World.pricedOn_base {rt : Runtime} {w w' : World} {a : Action}
    (h : w.step rt a = .ok w') : w.PricedOn w' w.book.base w.shielded.base a.move := by
  have hstep := step_ledger h
  generalize hL : w'.ledger = L' at hstep
  generalize hm : a.move = m at hstep
  have hvault : w'.vault = L'.vault := congrArg Ledger.vault hL
  have hshielded : w'.shielded = L'.shielded := congrArg Ledger.shielded hL
  cases hstep with
  | deposit mints => exact ⟨_, mints, hvault⟩
  | redeem pays covered => exact ⟨_, pays, hvault⟩
  | depositPrivate mints held total =>
    exact ⟨_, mints, by rw [hshielded, Ledger.writeShielded, current_write]; rfl⟩
  | redeemPrivate pays held total =>
    exact ⟨_, pays, by rw [hshielded, Ledger.writeShielded, current_write]; rfl⟩
  | tick | absorb | setApr | delegateBook | commitBook | undelegateBook | delegateShielded
  | commitShielded | undelegateShielded | other => trivial

/-! ## The law -/

/-- The states that a list of actions leads through. -/
def World.path (rt : Runtime) (w : World) (as : List Action) (i : ℕ) : World :=
  w.after rt (as.take i)

/-- A list of actions that replays leads from each state to the next. -/
theorem World.path_step {rt : Runtime} {w : World} {as : List Action}
    (h : w.replays rt (fun _ _ _ => True) as = true) {i : ℕ} (hi : i < as.length) :
    Step rt (w.path rt as i) (w.path rt as (i + 1)) := by
  induction as generalizing w i with
  | nil => cases hi
  | cons a as ih =>
    unfold World.replays at h
    cases hstep : w.step rt a with
    | error e => simp [hstep] at h
    | ok w' =>
      rw [hstep] at h
      simp only [decide_true, Bool.true_and] at h
      have hpath (i : ℕ) : w.path rt (a :: as) (i + 1) = w'.path rt as i := by
        simp only [path, List.take_succ_cons, World.after, hstep]
      rw [hpath i]
      cases i with
      | zero => exact ⟨a, hstep, trivial⟩
      | succ i =>
        rw [hpath i]
        exact ih h (by simpa using hi)

/-- A private deposit and a tick in the enclave and on the rollup, both published, and public
deposits before and after that. -/
def publishedFlows : List Action :=
  openPrivate ++ delegatePrivate ++
    [.program (.alone [authority] 100) (.delegateBook authority),
      .program (.alone [user] 100) (.faucet user)] ++
    privateDeposit 500000000 ++
    [.program (.alone [user] 110) (.deposit user 400000000),
      .program (.alone [authority] 120) (.absorb authority 400000000 0),
      .program (.alone [authority] 130) (.commitShielded authority),
      .program (.alone [user] 140) (.commitBook user),
      .program (.alone [user] 31536140) (.tick user),
      .program (.alone [user] 31536140) (.deposit user 100000000)]

/-- Along a run, Solana's book and aggregate are live ones of the times that `p` and `q` name, which
never move back and catch up whenever the copies agree. Every flow is priced on them. A delegated
exit book stays on Solana as it is. -/
structure ShowsThePast (rt : Runtime) (w : ℕ → World) (n : ℕ) (p q : ℕ → ℕ) : Prop where
  forward : Monotone p ∧ Monotone q
  past : ∀ i ≤ n, p i ≤ i ∧ q i ≤ i
  book : ∀ i ≤ n, (w i).book.base = (w (p i)).book.current
  shielded : ∀ i ≤ n, (w i).shielded.base = (w (q i)).shielded.current
  bookFresh : ∀ i ≤ n, (w i).book.base = (w i).book.current → p i = i
  shieldedFresh : ∀ i ≤ n, (w i).shielded.base = (w i).shielded.current → q i = i
  priced : ∀ i < n, ∀ a, (w i).step rt a = .ok (w (i + 1)) →
    (w i).PricedOn (w (i + 1)) (w (p i)).book.current (w (q i)).shielded.current a.move
  exits : ∀ i j, i ≤ j → j ≤ n → (w i).exits.live ≠ none → (w j).exits.base = (w i).exits.base

/-- In every run of the program, whatever its interleaving, Solana shows past live states of the
book and the aggregate, in order, prices on them, and learns nothing of the exits. -/
theorem solana_shows_the_past {rt : Runtime} {authority custodyOwner : Pubkey} {book : PoolBook}
    {w : ℕ → World} {n : ℕ} (hstart : w 0 = World.start rt authority custodyOwner book)
    (hrun : ∀ i < n, Step rt (w i) (w (i + 1))) : ∃ p q, ShowsThePast rt w n p q := by
  have hbook {i : ℕ} (hi : i ≤ n) :=
    base_eq_lastInStep (d := fun i => (w i).book) (by simp only [hstart]; rfl)
      (fun i hi => by
        obtain ⟨a, ha, -⟩ := hrun i hi
        exact (World.step_ledger ha).book.base) hi
  have hshielded {i : ℕ} (hi : i ≤ n) :=
    base_eq_lastInStep (d := fun i => (w i).shielded) (by simp only [hstart]; rfl)
      (fun i hi => by
        obtain ⟨a, ha, -⟩ := hrun i hi
        exact (World.step_ledger ha).shielded.base) hi
  refine ⟨lastInStep fun i => (w i).book, lastInStep fun i => (w i).shielded,
    { forward := ⟨lastInStep_mono _, lastInStep_mono _⟩
      past := fun i _ => ⟨lastInStep_le _ i, lastInStep_le _ i⟩
      book := fun i hi => hbook hi
      shielded := fun i hi => hshielded hi
      bookFresh := fun i _ h => lastInStep_self h
      shieldedFresh := fun i _ h => lastInStep_self h
      priced := ?_
      exits := ?_ }⟩
  · intro i hi a ha
    have hpriced := World.pricedOn_base ha
    rwa [hbook hi.le, hshielded hi.le] at hpriced
  · -- From the delegation on, by induction on the steps since.
    intro i j hij hj hlive
    suffices h : (w j).exits.base = (w i).exits.base ∧ (w j).exits.live ≠ none from h.1
    induction j, hij using Nat.le_induction with
    | base => exact ⟨rfl, hlive⟩
    | succ j hij ih =>
      obtain ⟨hbase, hkept⟩ := ih (by omega)
      obtain ⟨a, ha, -⟩ := hrun j (by omega)
      obtain ⟨hbase', hlive'⟩ := World.step_exits ha hkept
      exact ⟨hbase'.trans hbase, hlive'⟩

/-- The second deposit is priced on the book and the aggregate of the last commits. -/
theorem solana_shows_the_past_flows :
    ∃ p q, ShowsThePast deployment ((World.deployed 1000).path deployment publishedFlows)
      publishedFlows.length p q :=
  solana_shows_the_past rfl fun _ hi => World.path_step (by decide +kernel) hi

end Agama
