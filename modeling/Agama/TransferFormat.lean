import Agama.Deployment

/-!
# The format of a token transfer

`assert_token_transfer` against the SPL Token program's own reading of an instruction,
`unpackTransfer`. The check accepts exactly what the program reads as the transfer, in either form:
where the program does not care (bytes after the last field, accounts after the authority), neither
does the check, and everything else is refused with `TransferMismatch`, without an index out of
range.
-/

namespace Agama

open LittleEndian

/-- The SPL Token program's encoding of a transfer, in the form that it has. -/
def TokenTransfer.encode (t : TokenTransfer) : Instruction :=
  let amount := leBytes 8 t.amount.val
  match t.checked with
  | none =>
    ⟨tokenProgramId, [⟨t.source, false⟩, ⟨t.destination, false⟩, t.authority],
      splTransfer :: amount⟩
  | some (mint, decimals) =>
    ⟨tokenProgramId, [⟨t.source, false⟩, ⟨mint, false⟩, ⟨t.destination, false⟩, t.authority],
      splTransferChecked :: (amount ++ [decimals])⟩

/-- Eight bytes that carry an amount read back as it. -/
theorem wrap_leBytes (amount : U64) : wrap (leNat (leBytes 8 amount.val)) = amount :=
  wrap_eq_of_val (by
    rw [leNat_leBytes, Nat.mod_eq_of_lt (amount.isLt.trans_eq (by norm_num))])

/-- The program reads every transfer back from its encoding. -/
theorem unpackTransfer_encode (t : TokenTransfer) : unpackTransfer t.encode = some t := by
  obtain ⟨amount, source, destination, authority, checked⟩ := t
  have hlength : (leBytes 8 amount.val).length = 8 := length_leBytes 8 amount.val
  rw [unpackTransfer_eq_some]
  cases checked with
  | none =>
    have hreads : Unpacks (TokenTransfer.encode ⟨amount, source, destination, authority, none⟩) _ :=
      .transfer hlength.ge
    rwa [List.take_of_length_le hlength.le, wrap_leBytes] at hreads
  | some c =>
    obtain ⟨mint, decimals⟩ := c
    have hends : (leBytes 8 amount.val ++ [decimals])[8]? = some decimals := by
      rw [List.getElem?_append_right hlength.le, hlength]
      rfl
    have hreads : Unpacks (TokenTransfer.encode
        ⟨amount, source, destination, authority, some (mint, decimals)⟩) _ :=
      .transferChecked hends
    rwa [List.take_left' hlength, wrap_leBytes] at hreads

/-- Eight bytes are within a `u64`, so the program narrows nothing away. -/
theorem wrap_leNat_take (rest : List UInt8) :
    (wrap (leNat (rest.take 8)) : U64).val = leNat (rest.take 8) := by
  have hlt := leNat_lt (rest.take 8)
  have hlength : 256 ^ (rest.take 8).length ≤ 256 ^ 8 :=
    Nat.pow_le_pow_right (by decide) (List.length_take_le 8 rest)
  rw [wrap_val, Nat.mod_eq_of_lt (hlt.trans_le (hlength.trans_eq (by norm_num)))]

/-- What the program reads as a signed transfer, the check accepts as that transfer. -/
theorem assertTokenTransfer_of_unpack {ix : Instruction} {t : TokenTransfer}
    (hid : ix.programId = tokenProgramId) (h : unpackTransfer ix = some t)
    (hsigned : t.authority.isSigner = true) :
    assertTokenTransfer ix t.amount t.source t.destination t.authority.pubkey = .ok () := by
  simp only [assertTokenTransfer, bind_eq_ok, require_eq_ok, exists_const, leAt_eq_ok,
    accountAt_eq_ok, transferLayout_eq_ok]
  refine ⟨hid, ?_⟩
  cases unpackTransfer_eq_some.mp h with
  | transfer long =>
    exact ⟨_, .transfer long, _, ⟨by rw [List.length_cons]; omega, rfl⟩, _, rfl, _, rfl, _, rfl,
      (wrap_leNat_take _).symm, rfl, rfl, rfl, hsigned⟩
  | transferChecked ends =>
    have hlong := (List.getElem?_eq_some_iff.mp ends).1
    exact ⟨_, .transferChecked hlong, _, ⟨by rw [List.length_cons]; omega, rfl⟩, _, rfl, _, rfl, _,
      rfl, (wrap_leNat_take _).symm, rfl, rfl, rfl, hsigned⟩

/-- The accounts that a layout points at are there, and so is the amount. -/
theorem transferLayout_bounds {d : List UInt8} {k : List AccountMeta} {s t a : ℕ}
    (h : transferLayout d k = .ok (s, t, a)) :
    1 + 8 ≤ d.length ∧ s < k.length ∧ t < k.length ∧ a < k.length := by
  cases transferLayout_eq_ok.mp h with
  | transfer long => simp only [List.length_cons]; omega
  | transferChecked long => simp only [List.length_cons]; omega

/-- The check refuses with `TransferMismatch` only, whatever the instruction. -/
theorem assertTokenTransfer_avoids (ix : Instruction) (amount : U64) (src dst authority : Pubkey)
    {f : Fault} (hf : Fault.error .transferMismatch ≠ f) :
    Avoids (assertTokenTransfer ix amount src dst authority) f := by
  refine (avoids_require (.inr hf)).bind fun _ _ => ?_
  have hlayout : Avoids (transferLayout ix.data ix.accounts) f := by
    unfold transferLayout
    split
    · split_ifs
      · exact avoids_ok _
      · exact avoids_ok _
      · exact fun he => hf (Except.error.inj he)
    · exact fun he => hf (Except.error.inj he)
  refine hlayout.bind fun ⟨s, t, a⟩ hform => ?_
  obtain ⟨hlength, hs, ht, ha⟩ := transferLayout_bounds hform
  refine (avoids_leAt hlength).bind fun _ _ => ?_
  refine (avoids_accountAt hs).bind fun _ _ => ?_
  refine (avoids_accountAt ht).bind fun _ _ => ?_
  refine (avoids_accountAt ha).bind fun _ _ => ?_
  exact avoids_require (.inr hf)

/-- The check accepts exactly what the program reads as the transfer, by a signing authority. -/
theorem assertTokenTransfer_eq_ok {ix : Instruction} {amount : U64} {src dst authority : Pubkey} :
    assertTokenTransfer ix amount src dst authority = .ok () ↔ ix.programId = tokenProgramId ∧
      ∃ checked, unpackTransfer ix = some ⟨amount, src, dst, ⟨authority, true⟩, checked⟩ := by
  constructor
  · intro h
    obtain ⟨hid, ⟨amount', source, destination, signer, checked⟩, hunpack, rfl, rfl, rfl, rfl⟩ :=
      assertTokenTransfer_unpack h
    exact ⟨hid, checked, hunpack⟩
  · rintro ⟨hid, checked, hunpack⟩
    have haccepted := assertTokenTransfer_of_unpack hid hunpack rfl
    exact haccepted

/-! ## The law -/

/-- `assert_token_transfer` recognises exactly the transfers: it never indexes out of range, it
accepts an instruction if and only if the SPL Token program reads it as the transfer, in either
form, and so it accepts both encodings of every transfer and no other instruction of the program. -/
theorem transfer_recognised (amount : U64) (src dst authority : Pubkey) :
    (∀ ix, Avoids (assertTokenTransfer ix amount src dst authority) .panic) ∧
    (∀ ix, assertTokenTransfer ix amount src dst authority = .ok () ↔
      ix.programId = tokenProgramId ∧
        ∃ checked, unpackTransfer ix = some ⟨amount, src, dst, ⟨authority, true⟩, checked⟩) ∧
    (∀ checked, assertTokenTransfer
      (TokenTransfer.encode ⟨amount, src, dst, ⟨authority, true⟩, checked⟩) amount src dst
        authority = .ok ()) ∧
    ∀ ix, ix.data.head? ≠ some splTransfer → ix.data.head? ≠ some splTransferChecked →
      assertTokenTransfer ix amount src dst authority = .error (.error .transferMismatch) := by
  refine ⟨fun ix => assertTokenTransfer_avoids ix amount src dst authority (by simp),
    fun ix => assertTokenTransfer_eq_ok, fun checked => ?_, fun ix htransfer hchecked => ?_⟩
  · refine assertTokenTransfer_eq_ok.mpr ⟨?_, checked, unpackTransfer_encode _⟩
    cases checked <;> rfl
  · cases h : assertTokenTransfer ix amount src dst authority with
    | ok u =>
      obtain ⟨-, checked, hunpack⟩ := assertTokenTransfer_eq_ok.mp h
      cases unpackTransfer_eq_some.mp hunpack with
      | transfer long => exact absurd rfl htransfer
      | transferChecked ends => exact absurd rfl hchecked
    | error f =>
      by_contra hf
      exact assertTokenTransfer_avoids ix amount src dst authority
        (fun he => hf (congrArg Except.error he.symm)) h

/-- An approval of the same bytes and accounts is no transfer. -/
theorem transfer_recognised_approve :
    assertTokenTransfer ⟨tokenProgramId,
      [⟨depositorAccount, false⟩, ⟨custodyAccount, false⟩, ⟨depositor, true⟩],
      4 :: leBytes 8 500⟩ 500 depositorAccount custodyAccount depositor =
        .error (.error .transferMismatch) :=
  (transfer_recognised 500 depositorAccount custodyAccount depositor).2.2.2 _ (by decide)
    (by decide)

end Agama
