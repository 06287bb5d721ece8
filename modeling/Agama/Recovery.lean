import Agama.Price

/-!
# A book ahead of the custodies

Pricing rejects a book that claims to have absorbed more than both custodies ever took in or paid
out. The rejection stops every flow that could raise the totals again, while the marks never move
back, so no run of the program leaves it.
-/

namespace Agama

namespace Ledger

/-- The private price of the ledger, on the book on Solana and the live aggregate. -/
def livePricing (L : Ledger) : Result (U64 × U64) :=
  navForPricing L.vault L.book.base L.shielded.current

/-- A mark of the committed book exceeds the vault's and the live aggregate's total. -/
def Ahead (L : Ledger) : Prop :=
  L.vault.totalIn.val + L.shielded.current.totalIn.val < L.book.base.markedIn.val ∨
    L.vault.totalOut.val + L.shielded.current.totalOut.val < L.book.base.markedOut.val

variable {L L' : Ledger} {m : Move}

/-- Both layers reject the price of a book that is ahead. -/
theorem Ahead.rejects (hord : L.InOrder) (h : L.Ahead) :
    L.pricing = .error (.error .bookAheadOfVault) ∧
      L.livePricing = .error (.error .bookAheadOfVault) := by
  -- The committed aggregate is behind the live one, so the book is ahead of it too.
  obtain ⟨hin, hout⟩ := hord.shielded
  refine ⟨navForPricing_rejects ?_, navForPricing_rejects h⟩
  rcases h with h | h
  · left; omega
  · right; omega

/-- A rejected price mints nothing. -/
theorem not_mints {v : Vault} {b : PoolBook} {s : Shielded} {f : Fault} {amount shares : U64}
    (h : navForPricing v b s = .error f) : ¬ Mints v b s amount shares := by
  rintro ⟨-, -, nav, supply, hprice, -⟩
  rw [h] at hprice
  cases hprice

/-- A rejected price pays nothing. -/
theorem not_pays {v : Vault} {b : PoolBook} {s : Shielded} {f : Fault} {shares assets : U64}
    (h : navForPricing v b s = .error f) : ¬ Pays v b s shares assets := by
  rintro ⟨-, nav, supply, hprice, -⟩
  rw [h] at hprice
  cases hprice

/-- Marks that move forward over frozen totals stay ahead. -/
theorem Ahead.of_frozen (h : L.Ahead) (hfwd : Forward L L') (hvault : L'.vault = L.vault)
    (hshielded : L'.shielded.current = L.shielded.current) : L'.Ahead := by
  obtain ⟨hin, hout⟩ := hfwd.book
  rw [Ahead, hvault, hshielded]
  rcases h with h | h
  · left; omega
  · right; omega

/-- No step leaves the rejection: the flows that raise a total are rejected, and the rest only
moves the marks forward. -/
theorem Step.ahead (hord : L.InOrder) (hahead : L.Ahead) (h : Step L m L') : L'.Ahead := by
  obtain ⟨hbase, hlive⟩ := hahead.rejects hord
  have hfwd := (h.forward hord).2
  cases h with
  -- Each flow is priced before it moves anything, on one layer or the other.
  | deposit mints => exact absurd mints (not_mints hbase)
  | redeem pays covered => exact absurd pays (not_pays hbase)
  | depositPrivate mints held total => exact absurd mints (not_mints hlive)
  | redeemPrivate pays held total => exact absurd pays (not_pays hlive)
  -- The rest keeps both totals, and the current aggregate where it moves between the layers.
  | tick | absorb | setApr | delegateBook | commitBook | undelegateBook =>
    exact hahead.of_frozen hfwd rfl rfl
  | delegateShielded run => exact hahead.of_frozen hfwd rfl (Delegable.delegate_eq_some run).2
  | commitShielded run => exact hahead.of_frozen hfwd rfl (Delegable.commit_eq_some run).2
  | undelegateShielded run =>
    exact hahead.of_frozen hfwd rfl (Delegable.undelegate_eq_some run).2.1
  | other => exact hahead

end Ledger

/-- A book that is ahead stays ahead along every run. -/
theorem run_ahead {rt : Runtime} {w w' : World} (hord : w.ledger.InOrder) (h : w.ledger.Ahead)
    (hrun : Run rt w w') : w'.ledger.InOrder ∧ w'.ledger.Ahead :=
  Runs.preserves (I := fun w => w.ledger.InOrder ∧ w.ledger.Ahead)
    (fun hw ⟨_, ha, _⟩ =>
      ⟨((World.step_ledger ha).forward hw.1).1, (World.step_ledger ha).ahead hw.1 hw.2⟩)
    hrun ⟨hord, h⟩

/-- From every reachable state whose committed book is ahead, no run ever prices again: every state
that it reaches rejects on both layers. -/
theorem ahead_never_prices {rt : Runtime} {authority custodyOwner : Pubkey} {book : PoolBook}
    {w w' : World} (hreach : Run rt (World.start rt authority custodyOwner book) w)
    (hahead : w.ledger.Ahead) (hrun : Run rt w w') :
    w'.ledger.pricing = .error (.error .bookAheadOfVault) ∧
      w'.ledger.livePricing = .error (.error .bookAheadOfVault) := by
  have hord := (World.run_forward hreach (World.start_inOrder ..)).1
  obtain ⟨hord', hahead'⟩ := run_ahead hord hahead hrun
  exact hahead'.rejects hord'

/-- With everything delegated, the authority absorbs a unit that never came in, and the book is
committed. -/
def overMark : List Action :=
  [.program (.alone [authority] 100) (.delegateBook authority),
    .program (.alone [authority] 100) (.delegateShielded authority),
    .program (.alone [authority] 100) (.absorb authority 1 0),
    .program (.alone [authority] 100) (.commitBook authority)]

/-- The state after that over-mark. -/
def World.overMarked : World := (World.deployed 800).after deployment overMark

/-- It is reached by a run of the program. -/
theorem run_overMarked : Run deployment (World.deployed 800) World.overMarked :=
  run_of_replays (by decide +kernel)

/-- Its book is ahead of the vault. -/
theorem overMarked_ahead : World.overMarked.ledger.Ahead := by
  left
  decide +kernel

/-- The over-marked state is one from which no run prices again, by a transaction of any user or of
the authority. -/
theorem overMark_unrecoverable :
    Run deployment (World.deployed 800) World.overMarked ∧ World.overMarked.ledger.Ahead ∧
      ¬ ∃ w r, Run deployment World.overMarked w ∧
        (w.ledger.pricing = .ok r ∨ w.ledger.livePricing = .ok r) := by
  refine ⟨run_overMarked, overMarked_ahead, ?_⟩
  rintro ⟨w, r, hrun, hprice⟩
  have hord := (World.run_forward run_overMarked (World.start_inOrder ..)).1
  obtain ⟨hord', hahead'⟩ := run_ahead hord overMarked_ahead hrun
  obtain ⟨hbase, hlive⟩ := hahead'.rejects hord'
  rcases hprice with h | h
  · rw [hbase] at h; cases h
  · rw [hlive] at h; cases h

/-- In particular the over-marked state itself rejects. -/
theorem overMarked_never_prices :
    World.overMarked.ledger.pricing = .error (.error .bookAheadOfVault) ∧
      World.overMarked.ledger.livePricing = .error (.error .bookAheadOfVault) :=
  ahead_never_prices run_overMarked overMarked_ahead .refl

end Agama
