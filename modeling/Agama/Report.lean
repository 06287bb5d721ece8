import Agama.Balance
import Agama.Funding
import Agama.Publication

/-!
# The report

`scripts/state.ts` reads the book on both layers and prints the NAV of each "as the program computes
it", with what accrued in between as the drift. It computes with unbounded signed numbers where the
program saturates and stops at zero, and it awaits its reads one after another while anything may
move the accounts.

Along every run whose absorbs are covered and saturate nothing, whatever comes between the reads,
both NAVs are what went into the custodies that were read, less what went out, and the yield of the
copy that was read. So the drift is the yield since the commit that was read, pool by pool, and the
program prices what was read on the NAV that the report prints.
-/

namespace Agama

/-! ## The script -/

/-- `navOf`: the NAV of one copy of the book, on the custodies as Solana knows them. -/
def navOf (v : Vault) (s : Shielded) (b : PoolBook) : ℤ :=
  let totalIn : ℤ := v.totalIn.val + s.totalIn.val
  let totalOut : ℤ := v.totalOut.val + s.totalOut.val
  b.nav.val + (totalIn - b.markedIn.val) - (totalOut - b.markedOut.val)

/-- The accounts that the script fetched: the vault, the book on Solana and on the rollup, and the
committed aggregate. -/
structure Readings where
  vault : Vault
  settled : PoolBook
  live : PoolBook
  shielded : Shielded

/-- Each is awaited in turn, and reads the state that it finds. -/
def Readings.of (w₁ w₂ w₃ w₄ : World) : Readings :=
  ⟨w₁.vault, w₂.book.base, w₃.book.current, w₄.shielded.base⟩

/-- What the script prints of both layers. -/
structure Report where
  shares : U64
  privateShares : U64
  settledNav : ℤ
  liveNav : ℤ
  drift : ℤ
  deriving DecidableEq

/-- The supply that the script divides both NAVs by. -/
def Report.supply (r : Report) : ℕ := r.shares.val + r.privateShares.val

/-- `main`, from what it fetched. -/
def report (r : Readings) : Report :=
  let settledNav := navOf r.vault r.shielded r.settled
  let liveNav := navOf r.vault r.shielded r.live
  ⟨r.vault.shares, r.shielded.shares, settledNav, liveNav, liveNav - settledNav⟩

/-! ## What a balanced book contributes -/

/-- The yield in all pools. -/
def PoolBook.accruedTotal (b : PoolBook) : ℕ := ∑ i, (b.pools.get i).accrued.val

/-- The value of the pools is their capital and their yield. -/
theorem PoolBook.value_eq (b : PoolBook) : b.value = b.principal + b.accruedTotal := by
  have hvalue : b.value = ∑ i, ((b.pools.get i).principal.val + (b.pools.get i).accrued.val) :=
    sum_map_toList b.pools fun p => p.principal.val + p.accrued.val
  have hprincipal : b.principal = ∑ i, (b.pools.get i).principal.val :=
    sum_map_toList b.pools fun p => p.principal.val
  rw [hvalue, hprincipal, Finset.sum_add_distrib, accruedTotal]

/-- On top of the money in the custodies, a balanced book counts its yield. -/
theorem PoolBook.Balanced.navOf {b : PoolBook} (h : b.Balanced) (v : Vault) (s : Shielded) :
    navOf v s b = v.net + s.net + b.accruedTotal := by
  have hprincipal := h.principal
  have hnav := h.nav
  have hvalue := b.value_eq
  simp only [Agama.navOf, Vault.net, Shielded.net]
  omega

/-- The script's NAV is the one that pricing floors at zero. -/
theorem navOf_eq_rawNav (v : Vault) (s : Shielded) (b : PoolBook) :
    navOf v s b = rawNav v b s := by
  simp only [navOf, rawNav, bookCapital, Vault.net, Shielded.net]
  omega

/-! ## Both copies -/

/-- No pool of `c` has less yield than in `b`. -/
def PoolBook.AccruedLe (b c : PoolBook) : Prop :=
  ∀ i, (b.pools.get i).accrued.val ≤ (c.pools.get i).accrued.val

/-- A book has accrued what it has. -/
theorem PoolBook.AccruedLe.refl (b : PoolBook) : b.AccruedLe b := fun _ => le_rfl

/-- What an action does to the book is covered, and saturates nothing. -/
def KeepsBalance (w : World) (a : Action) (_ : World) : Prop :=
  ∀ op ∈ a.move.bookOp, w.book.current.Covers op ∧ w.book.current.Unsaturated op

instance (w : World) (a : Action) (w' : World) : Decidable (KeepsBalance w a w') :=
  inferInstanceAs (Decidable (∀ op ∈ a.move.bookOp, _))

namespace World

variable {rt : Runtime} {w w' : World} {a : Action}

/-- Such an action keeps both copies balanced. -/
theorem step_balanced (h : w.step rt a = .ok w') (hkeeps : KeepsBalance w a w')
    (hw : w.book.Both PoolBook.Balanced) : w'.book.Both PoolBook.Balanced := by
  refine (step_ledger h).book.from_current.both ?_ hw
  rintro b b' hb ⟨rfl, op, hop, hrun⟩
  obtain ⟨hcovers, hfits⟩ := hkeeps op hop
  exact apply_balanced hrun hb hcovers hfits

/-- No action takes yield from the current copy's pools. -/
theorem step_accrues (h : w.step rt a = .ok w') : w.book.current.AccruedLe w'.book.current := by
  rcases (step_ledger h).book.current with hsame | ⟨op, -, hrun⟩
  · change w'.book.current = w.book.current at hsame
    exact hsame ▸ .refl _
  · exact (apply_noLess hrun).accrued

/-- Solana's copy never has more than the rollup's. -/
theorem step_accruedLe (h : w.step rt a = .ok w')
    (hw : w.book.base.AccruedLe w.book.current) : w'.book.base.AccruedLe w'.book.current := by
  rcases (step_ledger h).book.base with hsame | hpublished
  · change w'.book.base = w.book.base at hsame
    exact hsame ▸ fun i => (hw i).trans (step_accrues h i)
  · change w'.book.base = w'.book.current at hpublished
    exact hpublished ▸ .refl _

end World

/-! ## The law -/

/-- Where no sum saturates, a price on `b` and the rest that was read is of `nav`, floored at zero,
over the printed supply. -/
def Readings.PricedAt (r : Readings) (b : PoolBook) (nav : ℤ) : Prop :=
  PricingFits r.vault b r.shielded →
    ∀ n supply, navForPricing r.vault b r.shielded = .ok (n, supply) →
      (n.val : ℤ) = max 0 nav ∧ supply.val = (report r).supply

/-- Along a run whose absorbs are covered and saturate nothing, both copies are balanced, and the
later the book is read the more each pool has accrued. -/
theorem run_accrues {rt : Runtime} {w w' : World}
    (hrun : Relation.ReflTransGen (StepWith rt KeepsBalance) w w')
    (hw : w.book.Both PoolBook.Balanced) (hle : w.book.base.AccruedLe w.book.current) :
    w'.book.Both PoolBook.Balanced ∧ w'.book.base.AccruedLe w'.book.current ∧
      w.book.current.AccruedLe w'.book.current := by
  refine Runs.preserves (I := fun v : World => v.book.Both PoolBook.Balanced ∧
    v.book.base.AccruedLe v.book.current ∧ w.book.current.AccruedLe v.book.current) ?_ hrun
    ⟨hw, hle, fun _ => le_rfl⟩
  rintro v v' ⟨hv, hord, hsince⟩ ⟨a, ha, hkeeps⟩
  exact ⟨World.step_balanced ha hkeeps hv, World.step_accruedLe ha hord,
    fun i => (hsince i).trans (World.step_accrues ha i)⟩

/-- The report adds up. Along every run from the start, by any interleaving of both layers, whose
absorbs are covered and saturate nothing, and whatever of it comes between the reads of the two
books, with the vault and the aggregate read at any moment: the NAV that the script prints for
either layer is the money that went into the custodies, as read, less what went out, and the yield
on that layer's copy of the book; the drift is what each pool has accrued since the commit that was
read, none of them less than nothing; and the program prices the accounts that were read on the one
NAV, and on the other if the live book were committed. -/
theorem report_adds_up {rt : Runtime} {authority custodyOwner : Pubkey} {start : ℤ}
    {pools : List.Vector PoolInit poolCount} {w₁ w₂ w₃ w₄ : World} {r : Readings}
    (hrun : Relation.ReflTransGen (StepWith rt KeepsBalance)
      (World.initial rt authority custodyOwner start pools) w₂)
    (hlater : Relation.ReflTransGen (StepWith rt KeepsBalance) w₂ w₃)
    (hr : r = .of w₁ w₂ w₃ w₄) :
    (report r).settledNav = r.vault.net + r.shielded.net + r.settled.accruedTotal ∧
      (report r).liveNav = r.vault.net + r.shielded.net + r.live.accruedTotal ∧
      (report r).drift = ∑ i, (((r.live.pools.get i).accrued.val : ℤ) -
        (r.settled.pools.get i).accrued.val) ∧
      r.settled.AccruedLe r.live ∧
      r.PricedAt r.settled (report r).settledNav ∧
      r.PricedAt r.live (report r).liveNav := by
  have hfresh := initBook_balanced rt.vaultKey authority start pools
  obtain ⟨hbalanced₂, hord₂, -⟩ := run_accrues hrun ⟨hfresh, hfresh⟩
    (PoolBook.AccruedLe.refl _)
  obtain ⟨hbalanced₃, -, hsince⟩ := run_accrues hlater hbalanced₂ hord₂
  subst hr
  have hsettled : (report (.of w₁ w₂ w₃ w₄)).settledNav = _ :=
    hbalanced₂.1.navOf w₁.vault w₄.shielded.base
  have hlive : (report (.of w₁ w₂ w₃ w₄)).liveNav = _ :=
    hbalanced₃.2.navOf w₁.vault w₄.shielded.base
  have hpriced (b : PoolBook) :
      Readings.PricedAt (.of w₁ w₂ w₃ w₄) b (navOf w₁.vault w₄.shielded.base b) := by
    intro hfits nav supply hprice
    rw [navOf_eq_rawNav]
    exact navForPricing_exact hfits hprice
  refine ⟨hsettled, hlive, ?_, fun i => (hord₂ i).trans (hsince i), hpriced w₂.book.base,
    hpriced w₃.book.current⟩
  have hdrift : (report (.of w₁ w₂ w₃ w₄)).drift =
      (report (.of w₁ w₂ w₃ w₄)).liveNav - (report (.of w₁ w₂ w₃ w₄)).settledNav := rfl
  rw [hdrift, hsettled, hlive, Finset.sum_sub_distrib]
  simp only [PoolBook.accruedTotal, Nat.cast_sum, Readings.of]
  omega

/-- After a year without a commit, with a public deposit and another year between the reads, the
drift is the yield of both years. -/
theorem report_adds_up_flows :
    let w := (World.deployed 1000).after deployment publishedFlows
    let w' := w.after deployment
      [.program (.alone [user] 31536150) (.deposit user 100000000)]
    let r := Readings.of w w'
      (w'.after deployment [.program (.alone [user] 63072140) (.tick user)]) w
    0 < (report r).drift ∧
      (report r).drift = ∑ i, (((r.live.pools.get i).accrued.val : ℤ) -
        (r.settled.pools.get i).accrued.val) ∧
      r.PricedAt r.settled (report r).settledNav := by
  intro w w' r
  have hruns : Relation.ReflTransGen (StepWith deployment KeepsBalance) (World.deployed 1000) w' :=
    .trans (b := w) (run_of_replays (by decide +kernel)) (run_of_replays (by decide +kernel))
  have hlater : Relation.ReflTransGen (StepWith deployment KeepsBalance) w'
      (w'.after deployment [.program (.alone [user] 63072140) (.tick user)]) :=
    run_of_replays (by decide +kernel)
  obtain ⟨-, -, hdrift, -, hpriced, -⟩ := report_adds_up hruns hlater (r := r) rfl
  exact ⟨by decide +kernel, hdrift, hpriced⟩

end Agama
