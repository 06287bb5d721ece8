import Agama.Copies
import Agama.Deployment

/-!
# What a position says of itself

A position's marks are redundant: the cost basis and the yield follow from its shares, its entry
price and its value, and the value is that of its shares at one share price. Every instruction that
moves the shares or the entry price ends with `mark`, so no position is ever seen between the two.
-/

namespace Agama

/-- The shares that `mark` counts, public and private together. -/
def Position.allShares (p : Position) : U64 := satAdd p.shares p.privateShares

/-- The value of all the shares at a price. -/
def Position.valueAt (p : Position) (price : U64) : ℕ := p.allShares.val * price.val / one.val

/-- A position's cost basis is its shares at their entry price, and its yield is what its value is
above that. -/
structure Position.AddsUp (p : Position) : Prop where
  costBasis : p.costBasis.val = p.valueAt p.entryPrice
  yieldUsdc : p.yieldUsdc.val = p.valueUsdc.val - p.costBasis.val

/-- `mark` makes a position add up, at the price and the time that it is given. -/
theorem mark_addsUp {q p : Position} {price : U64} {now : ℤ} (h : mark q price now = .ok p) :
    p.AddsUp ∧ p.valueUsdc.val = p.valueAt price ∧ p.syncedTs = now := by
  simp only [mark, bind_eq_ok, tryU64_eq_ok, pure_eq_ok] at h
  obtain ⟨value, hvalue, cost, hcost, rfl⟩ := h
  exact ⟨⟨hcost, rfl⟩, hvalue, rfl⟩

/-- A new position holds no shares. -/
theorem Position.allShares_init {rt : Runtime} (o : Pubkey) :
    (initPosition o rt.vaultKey).allShares.val = 0 := congrArg Fin.val (satAdd_zero (0 : U64))

/-- A new position adds up: it holds nothing. -/
theorem Position.addsUp_init {rt : Runtime} (o : Pubkey) :
    (initPosition o rt.vaultKey).AddsUp := by
  refine ⟨?_, rfl⟩
  rw [valueAt, Position.allShares_init, Nat.zero_mul, Nat.zero_div]
  rfl

/-- A write keeps a position adding up: it keeps what the marks depend on, or re-marks. -/
theorem Position.Writes.addsUp {now : ℤ} {Q : U64 → Prop} {p p' : Position} (hp : p.AddsUp)
    (h : Position.Writes now Q p p') : p'.AddsUp := by
  cases h with
  | session fits => exact ⟨hp.costBasis, hp.yieldUsdc⟩
  | gate => exact ⟨hp.costBasis, hp.yieldUsdc⟩
  | marked priced run key expiry => exact (mark_addsUp run).1

/-- A run from `start` to `w` in which the position was marked: at the price that private flow had
then, and at the reading of the clock of that transaction. -/
structure MarkedBy (rt : Runtime) (start w : World) (p : Position) : Prop where
  step : ∃ v a v' price, Run rt start v ∧ v.step rt a = .ok v' ∧ Run rt v' w ∧ v.Price price ∧
    p.valueUsdc.val = p.valueAt price ∧ p.syncedTs = a.now

/-- What a position says is right: it adds up, and its value is that of its shares at the price of
the moment it names, unless it was never marked, and then it holds no share. -/
structure Position.Truthful (rt : Runtime) (start w : World) (p : Position) : Prop where
  addsUp : p.AddsUp
  value : (p.syncs.val = 0 ∧ p.allShares.val = 0 ∧ p.valueUsdc.val = 0) ∨ MarkedBy rt start w p

variable {rt : Runtime} {start w w' : World} {p p' : Position}

/-- A new position is truthful: it holds nothing. -/
theorem Position.truthful_init (o : Pubkey) :
    (initPosition o rt.vaultKey).Truthful rt start w :=
  ⟨Position.addsUp_init o, .inl ⟨rfl, Position.allShares_init o, rfl⟩⟩

/-- A truthful position stays so as long as nothing writes it. -/
theorem Position.Truthful.later (hp : p.Truthful rt start w) (h : Step rt w w') :
    p.Truthful rt start w' := by
  refine ⟨hp.addsUp, hp.value.imp id ?_⟩
  rintro ⟨v, a, v', price, hv, ha, hw, hmarked⟩
  exact ⟨v, a, v', price, hv, ha, hw.tail h, hmarked⟩

/-- A write of a truthful position leaves it so: it keeps what the marks depend on, or re-marks. -/
theorem Position.Truthful.writes {a : Action} (hrun : Run rt start w) (ha : w.step rt a = .ok w')
    (hp : p.Truthful rt start w') (h : Position.Writes a.now w.Price p p') :
    p'.Truthful rt start w' := by
  refine ⟨h.addsUp hp.addsUp, ?_⟩
  cases h with
  | session fits => exact hp.value.imp id fun ⟨hmarked⟩ => ⟨hmarked⟩
  | gate => exact hp.value.imp id fun ⟨hmarked⟩ => ⟨hmarked⟩
  | marked priced run key expiry =>
    obtain ⟨-, hvalue, hsynced⟩ := mark_addsUp run
    exact .inr ⟨w, a, w', _, hrun, ha, .refl, priced, hvalue, hsynced⟩

/-- In every state that the program reaches, both copies of every position are truthful. -/
theorem positions_truthful {authority custodyOwner : Pubkey} {book : PoolBook} {o : Pubkey}
    {d : Delegable Position} (hrun : Run rt (World.start rt authority custodyOwner book) w)
    (hd : w.positions.lookup o = some d) :
    d.Both (Position.Truthful rt (World.start rt authority custodyOwner book) w) :=
  World.run_positions (I := fun w _ => Position.Truthful rt _ w)
    (fun ha _ hp => hp.later ⟨_, ha, trivial⟩)
    (fun hv ha _ hp hwrites => hp.writes hv ha hwrites) (fun _ o => Position.truthful_init o) hrun
    (fun _ _ h => by cases h) hd

/-- A private deposit, re-marked after a year of yield has been committed. -/
def depositAndSync : List Action :=
  openPrivate ++ delegatePrivate ++ privateDeposit 500000000 ++
    [.program (.alone [authority] 200) (.absorb authority 500000000 0),
      .program (.alone [user] 31536200) (.tick user),
      .program (.alone [positionOwner] 31536300) (.syncPosition positionOwner positionOwner false)]

/-- The position that is deposited into and re-marked. -/
theorem positions_truthful_synced : ∃ d,
    ((World.deployed 1000).after deployment depositAndSync).positions.lookup positionOwner =
      some d ∧ d.current.yieldUsdc = 50000000 ∧
    d.Both (Position.Truthful deployment (World.deployed 1000)
      ((World.deployed 1000).after deployment depositAndSync)) := by
  have hfound : ∃ d, ((World.deployed 1000).after deployment depositAndSync).positions.lookup
      positionOwner = some d ∧ d.current.yieldUsdc = 50000000 := by
    have hsome : (((World.deployed 1000).after deployment depositAndSync).positions.lookup
        positionOwner).map (fun d => d.current.yieldUsdc) = some 50000000 := by decide +kernel
    exact Option.map_eq_some_iff.mp hsome
  obtain ⟨d, hd, hyield⟩ := hfound
  exact ⟨d, hd, hyield, positions_truthful
    (run_of_replays (P := fun _ _ _ => True) (by decide +kernel)) hd⟩

end Agama
