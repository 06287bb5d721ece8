import Agama.Deployment
import Agama.Refinement

/-!
# The private custody

What a private deposit credits, against the transfer that it read. A check on the bytes of the
instruction before it says that the transfer moves the amount out of the depositor's account and
into the custody; it does not say that these are two accounts.
-/

namespace Agama

/-! ## What came into the custody -/

/-- What a move adds to the money that the aggregate counts as received. -/
def Move.credited : Move → U64
  | .depositPrivate amount => amount
  | _ => 0

/-- Only a private deposit moves the aggregate's `total_in`, and nothing moves the keys that the
custody's address derives from. -/
theorem Ledger.Step.credits {L L' : Ledger} {m : Move} (h : Ledger.Step L m L') :
    L'.vault.usdcMint = L.vault.usdcMint ∧
      L'.shielded.current.custodyOwner = L.shielded.current.custodyOwner ∧
      L'.shielded.current.totalIn = satAdd L.shielded.current.totalIn m.credited := by
  have hsame {s : Shielded} (hs : s = L.shielded.current) :
      s.custodyOwner = L.shielded.current.custodyOwner ∧
        s.totalIn = satAdd L.shielded.current.totalIn 0 := by
    rw [hs, satAdd_zero]
    exact ⟨rfl, rfl⟩
  cases h with
  | depositPrivate mints held total =>
    rw [writeShielded, Delegable.current_write]
    exact ⟨rfl, rfl, rfl⟩
  | redeemPrivate pays held total =>
    rw [writeShielded, Delegable.current_write]
    exact ⟨rfl, rfl, (satAdd_zero _).symm⟩
  | delegateShielded run => exact ⟨rfl, hsame (Delegable.delegate_eq_some run).2⟩
  | commitShielded run => exact ⟨rfl, hsame (Delegable.commit_eq_some run).2⟩
  | undelegateShielded run => exact ⟨rfl, hsame (Delegable.undelegate_eq_some run).2.1⟩
  | deposit | redeem | tick | absorb | setApr | delegateBook | commitBook | undelegateBook
  | other =>
    exact ⟨rfl, hsame rfl⟩

namespace World

variable {rt : Runtime} {w w' : World}

/-- The token account of the private custody. -/
def custody (rt : Runtime) (w : World) : Pubkey :=
  rt.ata w.shielded.current.custodyOwner w.vault.usdcMint

/-- What the aggregate counts as received. -/
def totalIn (w : World) : U64 := w.shielded.current.totalIn

/-- What the custody holds. -/
def custodyBalance (rt : Runtime) (w : World) : U64 := w.privateUsdc (w.custody rt)

/-- No step moves the custody elsewhere, and only a private deposit is credited. -/
theorem step_credits {a : Action} (h : w.step rt a = .ok w') :
    w'.vault.usdcMint = w.vault.usdcMint ∧ w'.custody rt = w.custody rt ∧
      w'.totalIn = satAdd w.totalIn a.move.credited := by
  obtain ⟨hmint, howner, htotal⟩ := (step_ledger h).credits
  exact ⟨hmint, congrArg₂ rt.ata howner hmint, htotal⟩

/-- A private deposit reads a transfer of its amount, from the depositor's account into the
custody, and moves no tokens itself. -/
theorem depositPrivate_reads {tx : Tx} {depositor signer position : Pubkey} {amount : U64}
    (h : w.exec rt tx (.depositPrivate depositor signer position amount) = .ok w') :
    0 < amount.val ∧ w'.privateUsdc = w.privateUsdc ∧
      ∃ prev, previousInstruction tx = .ok prev ∧
        assertTokenTransfer prev amount (rt.ata depositor w.vault.usdcMint) (w.custody rt)
          depositor = .ok () := by
  simp only [exec, execDepositPrivate, bind_eq_ok, loadPosition_eq_ok, pure_eq_ok] at h
  obtain ⟨_, -, _, -, d, -, _, -, a, hdep, rfl⟩ := h
  obtain ⟨shares, hspec⟩ := depositPrivate_spec (info_data w.book) hdep
  exact ⟨hspec.mints.1, rfl, hspec.transfer⟩

end World

/-! ## The effect of the transfer -/

/-- A transfer that passes the check, run by the token program, raises the destination's balance by
the amount exactly when it is not the source. -/
theorem processTransfer_raises_iff {ix : Instruction} {amount : U64}
    {src dst authority mint : Pubkey} {b b' : TokenLedger.Balances Pubkey 64}
    (hpos : 0 < amount.val)
    (hcheck : assertTokenTransfer ix amount src dst authority = .ok ())
    (hrun : processTransfer mint b ix = some b') :
    (b' dst).val = (b dst).val + amount.val ↔ src ≠ dst := by
  obtain ⟨-, t, ht, rfl, rfl, rfl, -⟩ := assertTokenTransfer_unpack hcheck
  simp only [processTransfer, ht, Option.bind_eq_bind, Option.bind_eq_some_iff, Option.some.injEq,
    exists_eq_left'] at hrun
  obtain ⟨_, -, _, -, hmove⟩ := hrun
  constructor
  · -- A transfer of an account to itself succeeds and leaves the balance.
    intro hraised heq
    rw [heq] at hmove
    rw [TokenLedger.transfer_self hmove] at hraised
    omega
  · intro hne
    exact (TokenLedger.transfer_of_ne hne hmove).1

/-- A transfer that a private deposit reads, and then the deposit that it is credited by. -/
def CreditedBy (rt : Runtime) (depositor : Pubkey) (amount : U64) (w w₁ w' : World) : Prop :=
  ∃ tx prev signer position, previousInstruction tx = .ok prev ∧
    w.step rt (.token (.sendPrivate prev)) = .ok w₁ ∧
    w₁.step rt (.program tx (.depositPrivate depositor signer position amount)) = .ok w'

section Credited

variable {rt : Runtime} {depositor : Pubkey} {amount : U64} {w w₁ w' : World}

/-- The custody and the mint stay, the deposit moves no tokens, and `total_in` counts the amount. -/
theorem CreditedBy.frame (h : CreditedBy rt depositor amount w w₁ w') :
    w'.custody rt = w.custody rt ∧ w'.custodyBalance rt = w₁.privateUsdc (w.custody rt) ∧
      w'.totalIn = satAdd w.totalIn amount := by
  obtain ⟨tx, prev, signer, position, -, htransfer, hdeposit⟩ := h
  obtain ⟨-, hcustody, htotal⟩ := World.step_credits htransfer
  obtain ⟨-, hcustody', htotal'⟩ := World.step_credits hdeposit
  obtain ⟨-, hsame, -⟩ := World.depositPrivate_reads hdeposit
  have htotal₁ : w₁.totalIn = w.totalIn := htotal.trans (satAdd_zero _)
  refine ⟨hcustody'.trans hcustody, ?_, ?_⟩
  · rw [World.custodyBalance, hsame, hcustody', hcustody]
  · rw [← htotal₁]
    exact htotal'

/-- The transfer raised the custody by what is credited, unless the depositor's account is the
custody. -/
theorem CreditedBy.raised_iff (h : CreditedBy rt depositor amount w w₁ w') :
    (w₁.privateUsdc (w.custody rt)).val = (w.custodyBalance rt).val + amount.val ↔
      rt.ata depositor w.vault.usdcMint ≠ w.custody rt := by
  obtain ⟨tx, prev, signer, position, hprev, htransfer, hdeposit⟩ := h
  obtain ⟨hmint, hcustody, -⟩ := World.step_credits htransfer
  obtain ⟨hpos, -, prev', hprev', hcheck⟩ := World.depositPrivate_reads hdeposit
  -- The deposit reads the very instruction that ran as the transfer.
  rw [hprev, Except.ok.injEq] at hprev'
  subst hprev'
  rw [hmint, hcustody] at hcheck
  rw [World.step, orElse_eq_ok] at htransfer
  cases World.moved_of_moveTokens htransfer with
  | sendPrivate run => exact processTransfer_raises_iff hpos hcheck run

end Credited

/-- A private deposit out of another account than the custody. -/
def DepositsOwn (rt : Runtime) (w w' : World) : Prop :=
  ∃ depositor amount w₁, CreditedBy rt depositor amount w w₁ w' ∧
    rt.ata depositor w.vault.usdcMint ≠ w.custody rt

/-- Along a run of private deposits out of other accounts, `total_in` and the custody move
together. -/
theorem totalIn_eq_raised {rt : Runtime} {w w' : World}
    (hrun : Relation.ReflTransGen (DepositsOwn rt) w w') (hstart : w.totalIn = 0) :
    w'.custody rt = w.custody rt ∧
      w'.totalIn.val + (w.custodyBalance rt).val = (w'.custodyBalance rt).val := by
  refine Runs.preserves (I := fun v => v.custody rt = w.custody rt ∧
    v.totalIn.val + (w.custodyBalance rt).val = (v.custodyBalance rt).val) ?_ hrun
    ⟨rfl, by rw [hstart, Fin.val_zero, Nat.zero_add]⟩
  rintro v v' ⟨hcustody, hsum⟩ ⟨depositor, amount, v₁, hcredit, hne⟩
  obtain ⟨hcustody', hbalance, htotal⟩ := hcredit.frame
  have hraised := hcredit.raised_iff.mpr hne
  rw [← hbalance] at hraised
  -- The balance is a word, so the sum behind `total_in` fits in one.
  have hfit := (v'.custodyBalance rt).isLt
  have hexact : v'.totalIn.val = v.totalIn.val + amount.val := by
    rw [htotal, satAdd_val_of_lt (by omega)]
  exact ⟨hcustody'.trans hcustody, by omega⟩

/-- A private deposit is backed by what its transfer added to the custody exactly when the depositor
does not pay out of the custody itself; and `total_in` is what came in, along every run of such
deposits. -/
theorem private_credit_backed (rt : Runtime) :
    (∀ (depositor : Pubkey) (amount : U64) (w w₁ w' : World),
      CreditedBy rt depositor amount w w₁ w' →
        ((w₁.privateUsdc (w.custody rt)).val = (w.custodyBalance rt).val + amount.val ↔
          rt.ata depositor w.vault.usdcMint ≠ w.custody rt)) ∧
      ∀ w w' : World, Relation.ReflTransGen (DepositsOwn rt) w w' → w.totalIn = 0 →
        w'.totalIn.val + (w.custodyBalance rt).val = (w'.custodyBalance rt).val :=
  ⟨fun _ _ _ _ _ h => h.raised_iff, fun _ _ hrun hstart => (totalIn_eq_raised hrun hstart).2⟩

/-- The accounts with a position in the enclave, and 1000 USDC in the depositor's private
account. -/
def World.deployedPrivate : World := World.deployedLayers.after deployment openPrivate

/-- A private deposit of 100 USDC out of the depositor's own account brings 100 USDC in. -/
theorem private_credit_backed_deposit :
    ∃ w₁ w' : World,
      (w₁.privateUsdc (World.deployedPrivate.custody deployment)).val =
        (World.deployedPrivate.custodyBalance deployment).val + 100000000 ∧
      w'.totalIn.val + (World.deployedPrivate.custodyBalance deployment).val =
        (w'.custodyBalance deployment).val := by
  let transfer := custodyTransfer depositor depositorAccount 100000000
  let w₁ := World.deployedPrivate.after deployment [.token (.sendPrivate transfer)]
  let w' := w₁.after deployment [.program (.next transfer [depositor, positionOwner] 100)
    (.depositPrivate depositor positionOwner positionOwner 100000000)]
  have hcredit : CreditedBy deployment depositor 100000000 World.deployedPrivate w₁ w' :=
    ⟨_, transfer, positionOwner, positionOwner, rfl, step_after (by decide +kernel),
      step_after (by decide +kernel)⟩
  have hne : deployment.ata depositor World.deployedPrivate.vault.usdcMint ≠
      World.deployedPrivate.custody deployment := by decide +kernel
  obtain ⟨hraised, htotal⟩ := private_credit_backed deployment
  exact ⟨w₁, w', (hraised depositor 100000000 _ _ _ hcredit).mpr hne,
    htotal _ _ (.single ⟨depositor, 100000000, w₁, hcredit, hne⟩) (by decide +kernel)⟩

/-- The custody's owner deposits out of the custody: the transfer of the custody to itself changes
nothing, and 100 USDC are credited. -/
theorem self_transfer_credited :
    ∃ w w₁ w' : World, Run deployment World.deployedLayers w ∧
      CreditedBy deployment custodyOwner 100000000 w w₁ w' ∧
      (w₁.privateUsdc (w.custody deployment)).val ≠
        (w.custodyBalance deployment).val + 100000000 ∧
      w'.totalIn.val + (w.custodyBalance deployment).val ≠ (w'.custodyBalance deployment).val := by
  let fund : List Action := openPrivate ++
    [.program (.alone [custodyOwner] 100) (.faucet custodyOwner),
      .token (.shield custodyOwner 100000000)]
  let transfer := custodyTransfer custodyOwner custodyAccount 100000000
  let w := World.deployedLayers.after deployment fund
  let w₁ := w.after deployment [.token (.sendPrivate transfer)]
  let w' := w₁.after deployment [.program (.next transfer [custodyOwner, positionOwner] 100)
    (.depositPrivate custodyOwner positionOwner positionOwner 100000000)]
  exact ⟨w, w₁, w', run_of_replays (by decide +kernel),
    ⟨_, transfer, positionOwner, positionOwner, rfl, step_after (by decide +kernel),
      step_after (by decide +kernel)⟩, by decide +kernel, by decide +kernel⟩

end Agama
