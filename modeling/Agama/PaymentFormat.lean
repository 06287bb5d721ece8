import Agama.Payouts

/-!
# The format of a payment

`queueTransferIx` writes a ticket into the bytes and accounts of a queued payment, and `settle_exit`
reads them back. On the tickets that `open_exit` writes, whose ids fit the three bytes that the
format has for them, the two agree: the payment of a ticket settles it, and settles no ticket that
differs from it in anything that the payment carries. No instruction makes the reader index out of
its range.
-/

namespace Agama

/-- A ticket that `open_exit` can write. -/
def Exit.Issued (e : Exit) : Prop :=
  ∃ a r destination now a', openExit a r destination now = .ok a' ∧
    e ∈ a'.exits.slots.toList ∧ e ∉ a.exits.slots.toList

/-- `open_exit` bounds the ids that it writes. -/
theorem Exit.Issued.inRange {e : Exit} (h : e.Issued) :
    0 < e.groupId.val ∧ e.groupId.val ≤ 0x00FFFFFF := by
  obtain ⟨a, r, destination, now, a', hopen, hnew, hold⟩ := h
  obtain ⟨b, hb⟩ : ∃ b, a.book.data = some b := by
    simp only [openExit, readBook, bind_eq_ok, readAccount_eq_ok] at hopen
    obtain ⟨_, -, _, -, _, -, _, -, b, ⟨-, hb⟩, -⟩ := hopen
    exact ⟨b, hb⟩
  obtain ⟨ticket, -, hspec⟩ := openExit_spec hb hopen
  obtain ⟨slot, hslot⟩ := hspec.free
  -- The only new slot is the ticket.
  have hperm := SlotArray.cons_replaceFirst_perm ticket hslot
  rw [hspec.exits] at hnew
  rcases List.mem_cons.mp (hperm.subset (List.mem_cons_of_mem _ hnew)) with rfl | hmem
  · exact hspec.inRange
  · exact absurd hmem hold

/-- The fields of a ticket that its payment carries. -/
structure Exit.Agrees (e e' : Exit) : Prop where
  owner : e.owner = e'.owner
  assets : e.assets = e'.assets
  groupId : e.groupId = e'.groupId
  minDelayMs : e.minDelayMs = e'.minDelayMs
  maxDelayMs : e.maxDelayMs = e'.maxDelayMs
  split : e.split = e'.split

/-- The payment of a ticket, from any account and owner. -/
def Exit.queueTransferIx (e : Exit) (k : PrivateKeeper) (usdcMint source owner : Pubkey) :
    Instruction :=
  Agama.queueTransferIx k usdcMint source owner e.owner e.assets e.groupId e.minDelayMs e.maxDelayMs
    e.split

/-- What `settle_exit` accepts of the payments that the keeper builds: exactly those of tickets that
agree, out of the custody. -/
theorem assertPayment_queueTransferIx {rt : Runtime} {usdc custodyOwner : Pubkey} {slot e : Exit}
    {k : PrivateKeeper} {usdcMint source owner : Pubkey} (hid : e.groupId.val < 2^24) :
    assertPayment rt usdc custodyOwner slot (e.queueTransferIx k usdcMint source owner) = .ok () ↔
      e.Agrees slot ∧ usdcMint = usdc ∧ source = rt.ata custodyOwner usdc ∧
        owner = custodyOwner := by
  have hfields : QueueFields (e.queueTransferIx k usdcMint source owner).data _ _ _ _ _ :=
    queueTransfer_fields ..
  rw [Nat.mod_eq_of_lt hid] at hfields
  have hlength := hfields.length
  simp only [assertPayment, bind_eq_ok, require_eq_ok, exists_const, leAt_eq_ok, accountAt_eq_ok]
  constructor
  · rintro ⟨-, -, gid, ⟨-, hgid⟩, split, ⟨-, hsplit⟩, assets, ⟨-, hassets⟩, minDelay, ⟨-, hmin⟩,
      maxDelay, ⟨-, hmax⟩, ⟨rfl, rfl, rfl, rfl, rfl⟩, -, mint, hmint, src, hsrc, dst, hdst, own,
      hown, rfl, hsource, hdestination, rfl, -⟩
    rw [hfields.groupId] at hgid
    rw [hfields.split] at hsplit
    rw [hfields.amount] at hassets
    rw [hfields.minDelayMs] at hmin
    rw [hfields.maxDelayMs] at hmax
    -- The accounts are read from the places that the builder puts them at.
    cases hmint
    cases hsrc
    cases hdst
    cases hown
    exact ⟨⟨hdestination, Fin.ext hassets, Fin.ext hgid, Fin.ext hmin, Fin.ext hmax,
      Fin.ext hsplit⟩, rfl, hsource, rfl⟩
  · rintro ⟨⟨howner, hassets, hgid, hmin, hmax, hsplit⟩, rfl, rfl, rfl⟩
    refine ⟨rfl, ⟨hlength.ge, hfields.tag⟩, _, ⟨by omega, hfields.groupId⟩, _,
      ⟨by omega, hfields.split⟩, _, ⟨by omega, hfields.amount⟩, _, ⟨by omega, hfields.minDelayMs⟩,
      _, ⟨by omega, hfields.maxDelayMs⟩, ⟨by rw [hassets], by rw [hgid], by rw [hmin], by rw [hmax],
        by rw [hsplit]⟩, by simp [Exit.queueTransferIx, Agama.queueTransferIx], _, rfl, _, rfl, _,
      rfl, _, rfl, rfl, rfl, howner, rfl, rfl⟩

/-- `settle_exit` reads within the bounds that it has checked, whatever the instruction. -/
theorem assertPayment_avoids {rt : Runtime} {usdc custodyOwner : Pubkey} {slot : Exit}
    {prev : Instruction} : Avoids (assertPayment rt usdc custodyOwner slot prev) .panic := by
  refine (avoids_require (.inr (by simp))).bind fun _ _ => ?_
  refine (avoids_require (.inr (by simp))).bind fun _ hlength => ?_
  obtain ⟨hlength, -⟩ := require_eq_ok.mp hlength
  refine (avoids_leAt (by omega)).bind fun _ _ => ?_
  refine (avoids_leAt (by omega)).bind fun _ _ => ?_
  refine (avoids_leAt (by omega)).bind fun _ _ => ?_
  refine (avoids_leAt (by omega)).bind fun _ _ => ?_
  refine (avoids_leAt (by omega)).bind fun _ _ => ?_
  refine (avoids_require (.inr (by simp))).bind fun _ _ => ?_
  refine (avoids_require (.inr (by simp))).bind fun _ haccounts => ?_
  replace haccounts := require_eq_ok.mp haccounts
  refine (avoids_accountAt (by omega)).bind fun _ _ => ?_
  refine (avoids_accountAt (by omega)).bind fun _ _ => ?_
  refine (avoids_accountAt (by omega)).bind fun _ _ => ?_
  refine (avoids_accountAt (by omega)).bind fun _ _ => ?_
  exact avoids_require (.inr (by simp))

/-- `settle_exit` does not panic. -/
theorem settleExit_avoids (rt : Runtime) (tx : Tx) (a : SettleExit) (groupId : U32) :
    Avoids (settleExit rt tx a groupId) .panic := by
  refine (avoids_previousInstruction tx).bind fun _ _ => ?_
  refine (avoids_orElse (by simp)).bind fun _ _ => ?_
  exact assertPayment_avoids.bind fun _ _ => avoids_ok _

/-- The keeper's payment of a ticket and `settle_exit` agree on the format. -/
theorem payment_format_agrees (rt : Runtime) (k : PrivateKeeper) :
    (∀ (tx : Tx) (a : SettleExit) (e : Exit), e.Issued →
      a.exits.slots.toList.find? (Exit.isTicket e.groupId) = some e →
      previousInstruction tx = .ok (e.queueTransferIx k a.vault.usdcMint
        (rt.ata a.shielded.custodyOwner a.vault.usdcMint) a.shielded.custodyOwner) →
      ∃ x, settleExit rt tx a e.groupId = .ok x) ∧
    (∀ (tx : Tx) (a : SettleExit) (e e' : Exit) (usdcMint source owner : Pubkey) (x : ExitBook),
      e'.Issued → a.exits.slots.toList.find? (Exit.isTicket e.groupId) = some e →
      previousInstruction tx = .ok (e'.queueTransferIx k usdcMint source owner) →
      settleExit rt tx a e.groupId = .ok x → e'.Agrees e) ∧
    ∀ (tx : Tx) (a : SettleExit) (groupId : U32), Avoids (settleExit rt tx a groupId) .panic := by
  refine ⟨?_, ?_, settleExit_avoids rt⟩
  · intro tx a e he hfind hprev
    have hid : e.groupId.val < 2^24 := Nat.lt_succ_of_le he.inRange.2
    have haccepts : assertPayment rt a.vault.usdcMint a.shielded.custodyOwner e
        (e.queueTransferIx k a.vault.usdcMint (rt.ata a.shielded.custodyOwner a.vault.usdcMint)
          a.shielded.custodyOwner) = .ok () :=
      (assertPayment_queueTransferIx hid).mpr ⟨⟨rfl, rfl, rfl, rfl, rfl, rfl⟩, rfl, rfl, rfl⟩
    refine ⟨a.exits.replaceFirst (Exit.isTicket e.groupId) Exit.default, ?_⟩
    simp only [settleExit, bind_eq_ok, orElse_eq_ok, pure_eq_ok]
    exact ⟨_, hprev, e, hfind, (), haccepts, trivial⟩
  · intro tx a e e' usdcMint source owner x he' hfind hprev hsettle
    have hid : e'.groupId.val < 2^24 := Nat.lt_succ_of_le he'.inRange.2
    obtain ⟨slot, prev, hslot, hprev', hpay, -⟩ := settleExit_spec hsettle
    rw [hfind, Option.some.injEq] at hslot
    rw [hprev, Except.ok.injEq] at hprev'
    subst hslot hprev'
    exact ((assertPayment_queueTransferIx hid).mp hpay).1

/-- A position of 100 USDC in the private custody, and nothing else. -/
def privateHolding : RedeemPrivate where
  signer := positionOwner
  position := { initPosition positionOwner devnetVault with privateShares := 100000000 }
  vault := (World.deployed 800).vault
  book := World.info (World.deployed 800).book
  shielded := ⟨devnetVault, custodyOwner, 100000000, 100000000, 0⟩
  exits := (World.deployed 800).exits.base

/-- The ticket with the largest id there is. -/
def lastTicket : Exit := ⟨positionOwner, 30000000, 1000, 60000, 0x00FFFFFF, 3⟩

/-- It is a ticket that the program can issue. -/
theorem lastTicket_issued : lastTicket.Issued := by
  have hmap : (openExit privateHolding ⟨30000000, 0x00FFFFFF, 1000, 60000, 3⟩ positionOwner 200).map
      (fun a => decide (lastTicket ∈ a.exits.slots.toList)) = .ok true := by decide +kernel
  obtain ⟨a, hopen, hmem⟩ := exists_of_map_eq_ok hmap
  exact ⟨_, _, _, _, a, hopen, of_decide_eq_true hmem, by decide +kernel⟩

/-- Its payment settles it. -/
theorem payment_format_agrees_last :
    ∃ x, settleExit deployment
      (.next (lastTicket.queueTransferIx devnetKeeper devnetUsdcMint custodyAccount custodyOwner)
        [authority] 200)
      ⟨privateHolding.vault, privateHolding.shielded,
        privateHolding.exits.replaceFirst Exit.isFree lastTicket⟩ 0x00FFFFFF = .ok x :=
  (payment_format_agrees deployment devnetKeeper).1 _ _ lastTicket lastTicket_issued
    (by decide +kernel) rfl

end Agama
