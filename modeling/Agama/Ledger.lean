import Agama.Flows
import Agama.Lib.Delegable
import Agama.Lib.Runs

/-!
# The ledger

What pricing depends on, and nothing else: the vault, the two copies of the book and of the
aggregate, and the total of the private shares that positions hold. A `Move` is what an action means
for the ledger, and `Ledger.Step` says everything that a move can do to it. The marks of the book
and the totals of the aggregate only move forward, so the copy on Solana is never ahead of the live
one (`InOrder`).
-/

namespace Agama

/-- The accounts that decide the price. -/
structure Ledger where
  vault : Vault
  book : Delegable PoolBook
  shielded : Delegable Shielded
  /-- The private shares of every position, on its current copy. -/
  privateShares : ℕ

/-- What an action means for the ledger. -/
inductive Move where
  | deposit (amount : U64)
  | redeem (shares : U64)
  | depositPrivate (amount : U64)
  | redeemPrivate (shares : U64)
  | tick (now : ℤ)
  | absorb (now : ℤ) (inflow outflow : U64)
  | setApr (now : ℤ) (index : U8) (aprBps : U32)
  | delegateBook
  | commitBook
  | undelegateBook
  | delegateShielded
  | commitShielded
  | undelegateShielded
  /-- Anything that leaves the ledger alone. -/
  | other

namespace Ledger

/-- A write to the current copy of the book. -/
def writeBook (L : Ledger) (b : PoolBook) : Ledger := { L with book := L.book.write b }

/-- A write to the current copy of the aggregate. -/
def writeShielded (L : Ledger) (s : Shielded) (privateShares : ℕ) : Ledger :=
  { L with shielded := L.shielded.write s, privateShares }

/-- What a move can do. Public flows are priced on the copies on Solana, private flows on the book
there and the current aggregate. -/
inductive Step (L : Ledger) : Move → Ledger → Prop
  | deposit {amount shares : U64}
      (mints : Mints L.vault L.book.base L.shielded.base amount shares) :
      Step L (.deposit amount) { L with vault := L.vault.deposited shares amount }
  | redeem {shares assets : U64} (pays : Pays L.vault L.book.base L.shielded.base shares assets)
      (covered : shares.val ≤ L.vault.shares.val) :
      Step L (.redeem shares) { L with vault := L.vault.redeemed shares assets }
  | depositPrivate {amount shares p : U64} {t : ℕ}
      (mints : Mints L.vault L.book.base L.shielded.current amount shares)
      (held : p.val ≤ L.privateShares)
      (total : t + p.val = L.privateShares + (satAdd p shares).val) :
      Step L (.depositPrivate amount)
        (L.writeShielded (L.shielded.current.deposited shares amount) t)
  | redeemPrivate {shares assets : U64} {t : ℕ}
      (pays : Pays L.vault L.book.base L.shielded.current shares assets)
      (held : assets.val + L.shielded.current.totalOut.val ≤ L.shielded.current.totalIn.val)
      (total : t + shares.val = L.privateShares) :
      Step L (.redeemPrivate shares)
        (L.writeShielded (L.shielded.current.redeemed shares assets) t)
  | tick {now : ℤ} {b : PoolBook} (run : Agama.tick L.book.current now = .ok b) :
      Step L (.tick now) (L.writeBook b)
  | absorb {now : ℤ} {inflow outflow : U64} {r : PoolBook × Absorbed}
      (run : Agama.absorb L.book.current now inflow outflow = .ok r) :
      Step L (.absorb now inflow outflow) (L.writeBook r.1)
  | setApr {now : ℤ} {index : U8} {aprBps : U32} {b : PoolBook}
      (run : Agama.setApr L.book.current now index aprBps = .ok b) :
      Step L (.setApr now index aprBps) (L.writeBook b)
  | delegateBook {d : Delegable PoolBook} (run : L.book.delegate = some d) :
      Step L .delegateBook { L with book := d }
  | commitBook {d : Delegable PoolBook} (run : L.book.commit = some d) :
      Step L .commitBook { L with book := d }
  | undelegateBook {d : Delegable PoolBook} (run : L.book.undelegate = some d) :
      Step L .undelegateBook { L with book := d }
  | delegateShielded {d : Delegable Shielded} (run : L.shielded.delegate = some d) :
      Step L .delegateShielded { L with shielded := d }
  | commitShielded {d : Delegable Shielded} (run : L.shielded.commit = some d) :
      Step L .commitShielded { L with shielded := d }
  | undelegateShielded {d : Delegable Shielded} (run : L.shielded.undelegate = some d) :
      Step L .undelegateShielded { L with shielded := d }
  | other : Step L .other L

/-! ## What only moves forward -/

/-- Up to the writes, a book's marks only move forward. -/
def MarksLe (b b' : PoolBook) : Prop :=
  b.markedIn.val ≤ b'.markedIn.val ∧ b.markedOut.val ≤ b'.markedOut.val

/-- The totals of an aggregate only move forward. -/
def TotalsLe (s s' : Shielded) : Prop :=
  s.totalIn.val ≤ s'.totalIn.val ∧ s.totalOut.val ≤ s'.totalOut.val

/-- A book's marks are at its marks. -/
theorem MarksLe.refl (b : PoolBook) : MarksLe b b := ⟨le_rfl, le_rfl⟩

/-- Marks move forward step by step. -/
theorem MarksLe.trans {b c d : PoolBook} (h : MarksLe b c) (h' : MarksLe c d) : MarksLe b d :=
  ⟨h.1.trans h'.1, h.2.trans h'.2⟩

/-- An aggregate's totals are at its totals. -/
theorem TotalsLe.refl (s : Shielded) : TotalsLe s s := ⟨le_rfl, le_rfl⟩

/-- Totals move forward step by step. -/
theorem TotalsLe.trans {s t u : Shielded} (h : TotalsLe s t) (h' : TotalsLe t u) : TotalsLe s u :=
  ⟨h.1.trans h'.1, h.2.trans h'.2⟩

/-- Re-marking moves no mark. -/
theorem marksLe_of_remarked {b b' : PoolBook} (h : Remarked b b') : MarksLe b b' :=
  ⟨h.markedIn ▸ le_rfl, h.markedOut ▸ le_rfl⟩

/-- An absorb moves the marks forward. -/
theorem marksLe_absorb {b : PoolBook} {now : ℤ} {inflow outflow : U64} {r : PoolBook × Absorbed}
    (h : Agama.absorb b now inflow outflow = .ok r) : MarksLe b r.1 := by
  obtain ⟨-, hin, hout, -⟩ := absorb_marks h
  rw [MarksLe, hin, hout]
  exact ⟨le_satAdd_left _ _, le_satAdd_left _ _⟩

/-- A private deposit moves the totals forward. -/
theorem totalsLe_deposited (s : Shielded) (shares amount : U64) :
    TotalsLe s (s.deposited shares amount) := ⟨le_satAdd_left _ _, le_rfl⟩

/-- So does a private redemption. -/
theorem totalsLe_redeemed (s : Shielded) (shares assets : U64) :
    TotalsLe s (s.redeemed shares assets) := ⟨le_rfl, le_satAdd_left _ _⟩

/-- The copies on Solana are not ahead of the current ones. -/
structure InOrder (L : Ledger) : Prop where
  book : MarksLe L.book.base L.book.current
  shielded : TotalsLe L.shielded.base L.shielded.current

/-- What a step moves forward: the vault's totals, and both copies of the marks and of the
aggregate's totals. -/
structure Forward (L L' : Ledger) : Prop where
  totalIn : L.vault.totalIn.val ≤ L'.vault.totalIn.val
  totalOut : L.vault.totalOut.val ≤ L'.vault.totalOut.val
  book : MarksLe L.book.base L'.book.base
  liveBook : MarksLe L.book.current L'.book.current
  shielded : TotalsLe L.shielded.base L'.shielded.base
  liveShielded : TotalsLe L.shielded.current L'.shielded.current

/-- A ledger is at itself. -/
theorem Forward.refl (L : Ledger) : Forward L L :=
  ⟨le_rfl, le_rfl, .refl _, .refl _, .refl _, .refl _⟩

/-- A ledger moves forward step by step. -/
theorem Forward.trans {L L' L'' : Ledger} (h : Forward L L') (h' : Forward L' L'') :
    Forward L L'' :=
  ⟨h.totalIn.trans h'.totalIn, h.totalOut.trans h'.totalOut, h.book.trans h'.book,
    h.liveBook.trans h'.liveBook, h.shielded.trans h'.shielded,
    h.liveShielded.trans h'.liveShielded⟩

/-- A book that moves its marks forward keeps the ledger in order. -/
theorem book_forward {L : Ledger} {d : Delegable PoolBook} (hL : L.InOrder)
    (h : L.book.Forward MarksLe d) :
    InOrder { L with book := d } ∧ Forward L { L with book := d } :=
  ⟨⟨h.order, hL.shielded⟩, le_rfl, le_rfl, h.base, h.current, .refl _, .refl _⟩

/-- An aggregate that moves its totals forward keeps the ledger in order. -/
theorem shielded_forward {L : Ledger} {d : Delegable Shielded} (hL : L.InOrder)
    (h : L.shielded.Forward TotalsLe d) (t : ℕ) :
    InOrder { L with shielded := d, privateShares := t } ∧
      Forward L { L with shielded := d, privateShares := t } :=
  ⟨⟨hL.book, h.order⟩, le_rfl, le_rfl, .refl _, .refl _, h.base, h.current⟩

/-- A write that moves the book's marks forward keeps the ledger in order. -/
theorem writeBook_forward {L : Ledger} {b : PoolBook} (hL : L.InOrder)
    (h : MarksLe L.book.current b) : (L.writeBook b).InOrder ∧ Forward L (L.writeBook b) :=
  book_forward hL (.write MarksLe.refl MarksLe.trans hL.book h)

/-- A write that moves the aggregate's totals forward keeps the ledger in order. -/
theorem writeShielded_forward {L : Ledger} {s : Shielded} {t : ℕ} (hL : L.InOrder)
    (h : TotalsLe L.shielded.current s) :
    (L.writeShielded s t).InOrder ∧ Forward L (L.writeShielded s t) :=
  shielded_forward hL (.write TotalsLe.refl TotalsLe.trans hL.shielded h) t

/-- Every step keeps the ledger in order and moves it forward. -/
theorem Step.forward {L L' : Ledger} {m : Move} (hL : L.InOrder) (h : Step L m L') :
    L'.InOrder ∧ Forward L L' := by
  cases h with
  -- Public flow writes the vault only, and its totals saturate upwards.
  | deposit mints =>
    exact ⟨⟨hL.book, hL.shielded⟩,
      le_satAdd_left _ _, le_rfl, .refl _, .refl _, .refl _, .refl _⟩
  | redeem pays covered =>
    exact ⟨⟨hL.book, hL.shielded⟩,
      le_rfl, le_satAdd_left _ _, .refl _, .refl _, .refl _, .refl _⟩
  -- The other writes move a current copy forward.
  | depositPrivate mints held total =>
    exact writeShielded_forward hL (totalsLe_deposited _ _ _)
  | redeemPrivate pays held total => exact writeShielded_forward hL (totalsLe_redeemed _ _ _)
  | tick run => exact writeBook_forward hL (marksLe_of_remarked (tick_spec run))
  | absorb run => exact writeBook_forward hL (marksLe_absorb run)
  | setApr run => exact writeBook_forward hL (marksLe_of_remarked (setApr_spec run))
  -- Moving between the layers publishes the current copy or keeps the one at home.
  | delegateBook run => exact book_forward hL (.delegate MarksLe.refl hL.book run)
  | commitBook run => exact book_forward hL (.commit MarksLe.refl hL.book run)
  | undelegateBook run => exact book_forward hL (.undelegate MarksLe.refl hL.book run)
  | delegateShielded run =>
    exact shielded_forward hL (.delegate TotalsLe.refl hL.shielded run) L.privateShares
  | commitShielded run =>
    exact shielded_forward hL (.commit TotalsLe.refl hL.shielded run) L.privateShares
  | undelegateShielded run =>
    exact shielded_forward hL (.undelegate TotalsLe.refl hL.shielded run) L.privateShares
  | other => exact ⟨hL, .refl _⟩

end Ledger

end Agama
