import Agama.Price

/-!
# Absorption

Runs of the public side in which every absorb reports exactly the outstanding flow. Pricing counts
that flow at par, so an absorb that adds no yield should leave the NAV alone. It does as long as the
pools' principals cover the outflow: `defund` pulls from principal only and drops the rest, while
the marks take the whole outflow (`absorb_neutral_iff`).
-/

namespace Agama

namespace Ledger

/-- The money that came in and is not marked into a pool. -/
def unmarked (L : Ledger) : U64 :=
  satSub (satAdd L.vault.totalIn L.shielded.base.totalIn) L.book.base.markedIn

/-- The money that went out and is not marked out of a pool. -/
def unreturned (L : Ledger) : U64 :=
  satSub (satAdd L.vault.totalOut L.shielded.base.totalOut) L.book.base.markedOut

/-- The moves of the public side, each absorb for exactly the outstanding flow. -/
def PublicMove (L : Ledger) : Move → Prop
  | .deposit _ | .redeem _ | .tick _ | .setApr _ _ _ | .other => True
  | .absorb _ inflow outflow => inflow = L.unmarked ∧ outflow = L.unreturned
  | _ => False

instance (L : Ledger) : (m : Move) → Decidable (L.PublicMove m)
  | .absorb _ inflow outflow =>
    inferInstanceAs (Decidable (inflow = L.unmarked ∧ outflow = L.unreturned))
  | .deposit _ | .redeem _ | .tick _ | .setApr _ _ _ | .other => .isTrue trivial
  | .depositPrivate _ | .redeemPrivate _ | .delegateBook | .commitBook | .undelegateBook
  | .delegateShielded | .commitShielded | .undelegateShielded => .isFalse id

/-- What holds along such runs: the marks cover the principals, and the pools and the outstanding
inflow cover the outstanding outflow. -/
structure Absorbing (L : Ledger) : Prop where
  book : L.book.live = none
  marked : L.book.base.nav = L.book.base.markedValue
  within : WithinTotals L.vault L.book.base L.shielded.base
  principal : L.book.base.principal ≤ L.book.base.markedIn.val
  covered : L.unreturned.val ≤ L.book.base.value + L.unmarked.val

variable {L L' : Ledger} {m : Move}

/-- The price of a book that is behind both custodies. -/
theorem Absorbing.pricing (hL : L.Absorbing) :
    L.pricing = .ok (satSub (satAdd L.book.base.nav L.unmarked) L.unreturned,
      satAdd L.vault.shares L.shielded.base.shares) :=
  navForPricing_eq_ok.mpr ⟨hL.within, rfl⟩

/-- The outstanding inflow fits on top of the principals and the mark. -/
theorem Absorbing.inflow_fits (hL : L.Absorbing) :
    L.book.base.principal + L.unmarked.val < 2^64 ∧
      (satAdd L.book.base.markedIn L.unmarked).val =
        (satAdd L.vault.totalIn L.shielded.base.totalIn).val ∧
      (satAdd L.book.base.markedOut L.unreturned).val =
        (satAdd L.vault.totalOut L.shielded.base.totalOut).val := by
  have hprincipal := hL.principal
  obtain ⟨hin, hout⟩ := hL.within
  have htin := (satAdd L.vault.totalIn L.shielded.base.totalIn).isLt
  have htout := (satAdd L.vault.totalOut L.shielded.base.totalOut).isLt
  simp only [unmarked, unreturned, satAdd_val, satSub_val] at *
  omega

/-- What an exact absorb leaves: the pools' new sums, and nothing outstanding. -/
theorem Absorbing.absorb (hL : L.Absorbing) {now : ℤ} {r : PoolBook × Absorbed}
    (run : Agama.absorb L.book.current now L.unmarked L.unreturned = .ok r) :
    (L.writeBook r.1).Absorbing ∧ (L.writeBook r.1).unmarked.val = 0 ∧
      (L.writeBook r.1).unreturned.val = 0 := by
  rw [Delegable.current_of_live_eq_none hL.book] at run
  obtain ⟨hfit, hin, hout⟩ := hL.inflow_fits
  obtain ⟨-, hmin, hmout, hnav⟩ := absorb_marks run
  obtain ⟨v, -, -, hprincipal, -⟩ := absorb_sums run hfit
  have hbook : (L.writeBook r.1).book = ⟨r.1, none⟩ := Delegable.write_of_home r.1 hL.book
  have hmin' : r.1.markedIn.val = (satAdd L.vault.totalIn L.shielded.base.totalIn).val := by
    rw [hmin, hin]
  have hmout' : r.1.markedOut.val = (satAdd L.vault.totalOut L.shielded.base.totalOut).val := by
    rw [hmout, hout]
  have hunmarked : (L.writeBook r.1).unmarked.val = 0 := by
    rw [unmarked, hbook, satSub_val, hmin']
    exact Nat.sub_self _
  have hunreturned : (L.writeBook r.1).unreturned.val = 0 := by
    rw [unreturned, hbook, satSub_val, hmout']
    exact Nat.sub_self _
  refine ⟨⟨by rw [hbook], by rw [hbook]; exact hnav, ?_, ?_, ?_⟩, hunmarked, hunreturned⟩
  · rw [hbook]
    exact ⟨hmin'.le, hmout'.le⟩
  · -- The inflow is placed whole and marked whole.
    rw [hbook, hprincipal, hmin, satAdd_val]
    have := hL.principal
    omega
  · rw [hunreturned]
    exact Nat.zero_le _

/-- Re-marking keeps what holds along the runs. -/
theorem Absorbing.remark (hL : L.Absorbing) {b : PoolBook} (h : Remarked L.book.current b) :
    (L.writeBook b).Absorbing := by
  rw [Delegable.current_of_live_eq_none hL.book] at h
  have hbook : (L.writeBook b).book = ⟨b, none⟩ := Delegable.write_of_home b hL.book
  have hunmarked : (L.writeBook b).unmarked = L.unmarked := by
    rw [unmarked, unmarked, hbook, h.markedIn]
    rfl
  have hunreturned : (L.writeBook b).unreturned = L.unreturned := by
    rw [unreturned, unreturned, hbook, h.markedOut]
    rfl
  refine ⟨by rw [hbook], by rw [hbook]; exact h.nav, ?_, ?_, ?_⟩
  · rw [hbook, WithinTotals, h.markedIn, h.markedOut]
    exact hL.within
  · rw [hbook, h.principal, h.markedIn]
    exact hL.principal
  · have hvalue := h.value
    have hcovered := hL.covered
    rw [hunmarked, hunreturned, hbook]
    change L.unreturned.val ≤ b.value + L.unmarked.val
    omega

/-- Every step of the public side keeps it. -/
theorem Step.absorbing (hL : L.Absorbing) (hm : L.PublicMove m) (h : Step L m L') :
    L'.Absorbing := by
  have hcovered := hL.covered
  cases h with
  | deposit mints =>
    refine ⟨hL.book, hL.marked, within_mono hL.within (le_satAdd_left _ _) le_rfl (.refl _),
      hL.principal, ?_⟩
    simp only [unmarked, unreturned, Vault.deposited, satAdd_val, satSub_val] at hcovered ⊢
    omega
  | redeem pays covered =>
    refine ⟨hL.book, hL.marked, within_mono hL.within le_rfl (le_satAdd_left _ _) (.refl _),
      hL.principal, ?_⟩
    -- The NAV is what the pools and the inflow hold on top of the outflow, and it pays no more.
    have hpaid := pays.assets_le hL.pricing (covered.trans (le_satAdd_left _ _))
    have hnav := markedValue_val L.book.base
    rw [← hL.marked] at hnav
    simp only [unmarked, unreturned, Vault.redeemed, satAdd_val, satSub_val] at hcovered hpaid ⊢
    omega
  | tick run => exact hL.remark (tick_spec run)
  | absorb run =>
    obtain ⟨rfl, rfl⟩ := hm
    exact (hL.absorb run).1
  | setApr run => exact hL.remark (setApr_spec run)
  | other => exact hL
  | _ => exact hm.elim

/-- The pools cover the outflow: nothing is going out, or the principals with the inflow cover it
and the pools' value with the inflow fits. -/
def OutflowCovered (L : Ledger) : Prop :=
  L.unreturned.val = 0 ∨
    L.unreturned.val ≤ L.book.base.principal + L.unmarked.val ∧
      L.book.base.value + L.unmarked.val < 2^64

/-- An exact absorb without accrual keeps the NAV exactly when the pools cover the outflow. -/
theorem Absorbing.neutral_iff (hL : L.Absorbing) {now : ℤ} {r : PoolBook × Absorbed}
    (run : Agama.absorb L.book.current now L.unmarked L.unreturned = .ok r)
    (hnow : now ≤ L.book.current.lastTs) :
    ∃ nav supply nav' supply', L.pricing = .ok (nav, supply) ∧
      (L.writeBook r.1).pricing = .ok (nav', supply') ∧ (nav' = nav ↔ L.OutflowCovered) := by
  obtain ⟨hL', hunmarked, hunreturned⟩ := hL.absorb run
  refine ⟨_, _, _, _, hL.pricing, hL'.pricing, ?_⟩
  have hbook : (L.writeBook r.1).book.base = r.1 :=
    congrArg Delegable.base (Delegable.write_of_home r.1 hL.book)
  rw [Delegable.current_of_live_eq_none hL.book] at run hnow
  obtain ⟨-, -, -, hnav'⟩ := absorb_marks run
  obtain ⟨v, -, hv, -, hvalue⟩ := absorb_sums run hL.inflow_fits.1
  -- Before, the NAV counts both outstanding flows; after, it is the pools' value alone.
  have hnav := markedValue_val L.book.base
  have hafter := markedValue_val r.1
  rw [← hL.marked] at hnav
  rw [← hnav', hvalue, hv hnow] at hafter
  have hcovered := hL.covered
  have hprincipal : L.book.base.principal ≤ L.book.base.value := principalSum_le_valueSum _
  rw [OutflowCovered, Fin.ext_iff, hbook]
  simp only [satSub_val, satAdd_val, hunmarked, hunreturned]
  omega

end Ledger

/-! ## Runs of the public side -/

/-- A step of the public side, each absorb for exactly the outstanding flow. -/
abbrev PublicStep (rt : Runtime) : World → World → Prop :=
  StepWith rt fun w a _ => w.ledger.PublicMove a.move

/-- Every state that the public side reaches from the start. -/
theorem publicRun_absorbing {rt : Runtime} {authority custodyOwner : Pubkey} {now : ℤ}
    {pools : List.Vector PoolInit poolCount} {w : World}
    (hrun : Relation.ReflTransGen (PublicStep rt)
      (World.initial rt authority custodyOwner now pools) w) : w.ledger.Absorbing := by
  have hstart := initial_oneCopy rt authority custodyOwner now pools
  refine Runs.preserves (I := fun w => w.ledger.Absorbing) ?_ hrun
    ⟨hstart.book, hstart.marked, hstart.within, ?_, Nat.zero_le _⟩
  · rintro s t hs ⟨a, hstep, hm⟩
    exact (World.step_ledger hstep).absorbing hs hm
  · have hnav := markedValue_val (initBook rt.vaultKey authority now pools)
    have hle : (initBook rt.vaultKey authority now pools).principal ≤
        (initBook rt.vaultKey authority now pools).value := principalSum_le_valueSum _
    have hzero : (initBook rt.vaultKey authority now pools).markedValue.val = 0 := by
      rw [← show _ = (initBook rt.vaultKey authority now pools).markedValue from hstart.marked]
      rfl
    change (initBook rt.vaultKey authority now pools).principal ≤ 0
    omega

/-- Absorbing exactly the outstanding flow, with no time passed since the last mark, leaves the NAV
alone exactly when the pools cover the outflow, in every state that the public side reaches. -/
theorem absorb_neutral_iff {rt : Runtime} {authority custodyOwner : Pubkey} {start : ℤ}
    {pools : List.Vector PoolInit poolCount} {w w' : World} {tx : Tx} {signer : Pubkey}
    (hrun : Relation.ReflTransGen (PublicStep rt)
      (World.initial rt authority custodyOwner start pools) w)
    (hnow : tx.now = w.book.current.lastTs)
    (h : w.step rt (.program tx (.absorb signer w.ledger.unmarked w.ledger.unreturned)) =
      .ok w') :
    ∃ nav supply nav' supply', w.ledger.pricing = .ok (nav, supply) ∧
      w'.ledger.pricing = .ok (nav', supply') ∧ (nav' = nav ↔ w.ledger.OutflowCovered) := by
  simp only [World.step, World.exec, bind_eq_ok, pure_eq_ok] at h
  obtain ⟨-, -, r, hr, rfl⟩ := h
  exact (publicRun_absorbing hrun).neutral_iff hr hnow.le

/-- A deposit of 100 USDC at a yearly rate of one, with a donation that makes its yield liquid:
after a year, 90 of its 100 shares are redeemed for 180 USDC. -/
def redeemedYield : List Action :=
  [.program (.alone [user] 100) (.faucet user),
    .program (.alone [user] 100) (.deposit user 100000000),
    .program (.alone [authority] 100) (.absorb authority 100000000 0),
    .token (.donate user 100000000),
    .program (.alone [user] 31536100) (.tick user),
    .program (.alone [user] 31536100) (.redeem user 90000000)]

/-- The absorb of exactly the outstanding flow, at the book's last reading of the clock. -/
def World.exactAbsorb (w : World) : Action :=
  .program (.alone [authority] w.book.current.lastTs)
    (.absorb authority w.ledger.unmarked w.ledger.unreturned)

/-- After that redemption, the absorb steps the NAV from 20 USDC to 100. -/
theorem absorb_steps_nav :
    ∃ w w' nav supply nav' supply',
      Relation.ReflTransGen (PublicStep deployment) (World.deployed 10000) w ∧
      w.step deployment w.exactAbsorb = .ok w' ∧
      w.ledger.pricing = .ok (nav, supply) ∧ w'.ledger.pricing = .ok (nav', supply') ∧
      nav' ≠ nav :=
  ⟨(World.deployed 10000).after deployment redeemedYield, _, 20000000, 10000000, 100000000,
    10000000, run_of_replays (by decide +kernel), step_after (by decide +kernel),
    by decide +kernel, by decide +kernel, by decide⟩

/-- Before it, the absorb of the deposit leaves the NAV at 100 USDC. -/
theorem absorb_neutral_iff_deposit :
    ∃ (w : World) (nav supply nav' supply' : U64), w.ledger.pricing = .ok (nav, supply) ∧
      (w.after deployment [w.exactAbsorb]).ledger.pricing = .ok (nav', supply') ∧
      (nav' = nav ↔ w.ledger.OutflowCovered) := by
  refine ⟨(World.deployed 10000).after deployment (redeemedYield.take 2), ?_⟩
  exact absorb_neutral_iff (run_of_replays (by decide +kernel)) rfl
    (step_after (by decide +kernel))

end Agama
