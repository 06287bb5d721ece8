import Agama.Lib.Text
import Agama.Sessions

/-!
# Approvals

What the owner's signature of a rotation binds. The precompile reads a count, and for each signature
a record of offsets that may point anywhere in any instruction. On what `assert_ed25519` accepts
there is one record, it points into the instruction itself, and both read the same key and the same
message. That message names the position, the session key and the expiry without
ambiguity, since base58 has no spaces.
-/

namespace Agama

open LittleEndian

/-! ## The precompile -/

/-- The precompile lets the transaction go on: it can read every signature, and each verifies. -/
def PrecompileAccepts (verify : SignatureRecord → Bool) (datas : List (List UInt8))
    (d : List UInt8) : Prop :=
  ∃ records, precompileReading datas d = some records ∧ ∀ r ∈ records, verify r = true

/-- A count of one leaves one record. -/
theorem precompileReading_of_one {datas : List (List UInt8)} {d : List UInt8}
    {records : List SignatureRecord} (hcount : d.head? = some 1)
    (h : precompileReading datas d = some records) :
    ∃ r, signatureRecord datas d 2 = some r ∧ records = [r] := by
  simp only [precompileReading, hcount, Option.bind_eq_bind, Option.bind_some,
    Option.bind_eq_some_iff] at h
  obtain ⟨_, -, h⟩ := h
  rw [show (1 : UInt8).toNat = 1 from rfl, List.range_one, List.mapM_cons, List.mapM_nil] at h
  simp only [Option.bind_eq_bind, Option.bind_eq_some_iff, Option.pure_def, Option.some.injEq] at h
  obtain ⟨r, hr, _, rfl, rfl⟩ := h
  exact ⟨r, hr, rfl⟩

/-- What the precompile reads of an instruction that carries a signature is that signature. -/
theorem CarriesSignature.reading {datas : List (List UInt8)} {ix : Instruction} {signer : Pubkey}
    {message : List UInt8} {records : List SignatureRecord}
    (h : CarriesSignature ix signer message)
    (hreading : precompileReading datas ix.data = some records) :
    ∃ signature, records = [⟨signature, signer.bytes, message⟩] := by
  obtain ⟨-, htag, hpart⟩ := h
  obtain ⟨r, hr, rfl⟩ := precompileReading_of_one htag hreading
  have hpart := hpart datas
  simp only [verifiedPart, Option.bind_eq_bind, Option.bind_eq_some_iff, Option.pure_def,
    Option.some.injEq, Prod.mk.injEq] at hpart
  obtain ⟨_, hkey, _, hmessage, rfl, rfl⟩ := hpart
  -- The signature may be anywhere; the key and the message are what the record points at.
  simp only [signatureRecord, hkey, hmessage, Option.bind_eq_bind, Option.bind_some,
    Option.bind_eq_some_iff, Option.pure_def, Option.some.injEq] at hr
  obtain ⟨signature, -, rfl⟩ := hr
  exact ⟨signature, rfl⟩

/-! ## The message -/

/-- The decimal text of an integer is its sign and the numeral of its size. -/
theorem decimal_eq (z : ℤ) :
    decimal z = (if z < 0 then ascii "-" else []) ++ Text.numeral z.natAbs := by
  simp only [decimal, Text.numeral, Text.digits, Int.natAbs_eq_zero]

/-- A decimal names one number. -/
theorem decimal_injective : Function.Injective decimal := by
  intro z z' h
  rw [decimal_eq, decimal_eq] at h
  obtain ⟨d, l, hd, hlt⟩ := Text.exists_digit z.natAbs
  obtain ⟨d', l', hd', hlt'⟩ := Text.exists_digit z'.natAbs
  -- No digit is the minus sign.
  have hminus {d : ℕ} (hlt : d < 10) : UInt8.ofNat (48 + d) ≠ 45 := by
    intro heq
    have := congrArg UInt8.toNat heq
    simp only [UInt8.toNat_ofNat', UInt8.reduceToNat] at this
    omega
  have hsign : ascii "-" = [45] := rfl
  have hread {m n : ℕ} (heq : Text.numeral m = Text.numeral n) : m = n := by
    rw [← Text.read_numeral m, heq, Text.read_numeral]
  by_cases hz : z < 0 <;> by_cases hz' : z' < 0
  · simp only [hz, hz', if_true, List.append_cancel_left_eq] at h
    have := hread h
    omega
  · simp only [hz, hz', if_true, if_false, hsign, hd', List.cons_append, List.nil_append,
      List.cons.injEq] at h
    exact absurd h.1.symm (hminus hlt')
  · simp only [hz, hz', if_true, if_false, hsign, hd, List.cons_append, List.nil_append,
      List.cons.injEq] at h
    exact absurd h.1 (hminus hlt)
  · simp only [hz, hz', if_false, List.nil_append] at h
    have := hread h
    omega

/-- Rendered in base58, which has no spaces, a message names one position, one key and one
expiry. -/
theorem sessionMessage_injective {rt : Runtime} (hinjective : Function.Injective rt.base58)
    (hspace : ∀ k, 0x20 ∉ rt.base58 k) {position position' sessionKey sessionKey' : Pubkey}
    {expiry expiry' : ℤ}
    (h : sessionMessage rt position sessionKey expiry =
      sessionMessage rt position' sessionKey' expiry') :
    position = position' ∧ sessionKey = sessionKey' ∧ expiry = expiry' := by
  have hfor : ascii " for position " = 0x20 :: ascii "for position " := rfl
  have huntil : ascii " until " = 0x20 :: ascii "until " := rfl
  simp only [sessionMessage, hfor, huntil, List.append_assoc, List.cons_append] at h
  -- Each key ends at the space after it.
  obtain ⟨hkey, h⟩ := Text.field_unique (hspace _) (hspace _) (List.append_cancel_left h)
  obtain ⟨hposition, h⟩ := Text.field_unique (hspace _) (hspace _) (List.append_cancel_left h)
  exact ⟨hinjective hposition, hinjective hkey, decimal_injective (List.append_cancel_left h)⟩

/-! ## The law -/

/-- The check reads within the bounds that it has checked, whatever the instruction. -/
theorem assertEd25519_avoids (ix : Instruction) (signer : Pubkey) (message : List UInt8) :
    Avoids (assertEd25519 ix signer message) .panic := by
  refine (avoids_require (.inr (by simp))).bind fun _ _ => ?_
  refine (avoids_require (.inr (by simp))).bind fun _ hlength => ?_
  obtain ⟨hlength, -⟩ := require_eq_ok.mp hlength
  refine (avoids_leAt (by omega)).bind fun _ _ => ?_
  refine (avoids_leAt (by omega)).bind fun _ _ => ?_
  refine (avoids_leAt (by omega)).bind fun _ _ => ?_
  refine (avoids_leAt (by omega)).bind fun _ _ => ?_
  refine (avoids_leAt (by omega)).bind fun _ _ => ?_
  refine (avoids_leAt (by omega)).bind fun _ _ => ?_
  refine (avoids_require (.inr (by simp))).bind fun _ _ => ?_
  refine (avoids_require (.inr (by simp))).bind fun _ hbounds => ?_
  obtain ⟨hkey, hmessage⟩ := require_eq_ok.mp hbounds
  refine (avoids_slice hkey).bind fun _ _ => ?_
  refine (avoids_slice hmessage).bind fun _ _ => ?_
  exact avoids_require (.inr (by simp))

/-- An approval is bound to what the owner signed: where the check of a rotation passes, the
precompile has verified one signature, by the owner over the message, and no instruction with that
message passes the check for another position, key or expiry. No data makes the check panic. -/
theorem approval_binds {rt : Runtime} (hinjective : Function.Injective rt.base58)
    (hspace : ∀ k, 0x20 ∉ rt.base58 k) :
    (∀ verify datas ix owner position sessionKey expiry,
      assertEd25519 ix owner (sessionMessage rt position sessionKey expiry) = .ok () →
      PrecompileAccepts verify datas ix.data →
      ∃ r, precompileReading datas ix.data = some [r] ∧ verify r = true ∧
        r.publicKey = owner.bytes ∧
        ∀ datas' ix' owner' position' sessionKey' expiry' r',
          precompileReading datas' ix'.data = some [r'] → r'.message = r.message →
          assertEd25519 ix' owner' (sessionMessage rt position' sessionKey' expiry') = .ok () →
          position' = position ∧ sessionKey' = sessionKey ∧ expiry' = expiry) ∧
    ∀ ix signer message, Avoids (assertEd25519 ix signer message) .panic := by
  refine ⟨?_, assertEd25519_avoids⟩
  intro verify datas ix owner position sessionKey expiry hcheck haccepts
  obtain ⟨records, hreading, hverified⟩ := haccepts
  obtain ⟨signature, rfl⟩ := (assertEd25519_carries hcheck).reading hreading
  refine ⟨_, hreading, hverified _ (List.mem_singleton.mpr rfl), rfl, ?_⟩
  intro datas' ix' owner' position' sessionKey' expiry' r' hreading' hmessage hcheck'
  obtain ⟨signature', hread'⟩ := (assertEd25519_carries hcheck').reading hreading'
  rw [(List.cons.inj hread').1] at hmessage
  exact sessionMessage_injective hinjective hspace hmessage

/-- The deployment with base58 itself. -/
def deployment58 : Runtime := { deployment with base58 := fun k => Text.base58 k.bytes }

example : deployment58.base58 sessionKey = deployment.base58 sessionKey := by decide +kernel

/-- The message of a rotation until time 700. -/
def approvedMessage : List UInt8 := sessionMessage deployment58 positionAccount sessionKey 700

/-- The instruction that carries the owner's signature binds that rotation. -/
theorem approval_binds_rotation :
    ∃ r, precompileReading [] (ed25519Verify positionOwner approvedMessage).data = some [r] ∧
      r.publicKey = positionOwner.bytes ∧
      ∀ datas ix owner position key expiry r',
        precompileReading datas ix.data = some [r'] → r'.message = r.message →
        assertEd25519 ix owner (sessionMessage deployment58 position key expiry) = .ok () →
        position = positionAccount ∧ key = sessionKey ∧ expiry = 700 := by
  have hinjective : Function.Injective deployment58.base58 := by
    rintro ⟨l, hl⟩ ⟨l', hl'⟩ h
    have hbytes : l = l' := Text.base58_injective (hl.trans hl'.symm) h
    subst hbytes
    rfl
  have hspace (k : Pubkey) : 0x20 ∉ deployment58.base58 k := Text.space_notMem_base58 k.bytes
  -- A verifier that knows this one signature.
  let signed : SignatureRecord :=
    ⟨List.replicate 64 0, positionOwner.bytes, approvedMessage⟩
  obtain ⟨r, hr, -, hkey, hbinds⟩ := (approval_binds hinjective hspace).1
    (fun r => decide (r = signed)) [] (ed25519Verify positionOwner approvedMessage) positionOwner
    positionAccount sessionKey 700 (by decide +kernel)
    ⟨[signed], by decide +kernel, by decide +kernel⟩
  exact ⟨r, hr, hkey, hbinds⟩

end Agama
