import Agama.Custody

/-!
# Transactions

A transaction as its top-level instructions, run in order: SPL Token transfers, instructions of this
program, and foreign programs that call this program any number of times. During such a call the
instructions sysvar still reports the index of the top-level instruction, so every call made by one
of them reads the same instruction before it, and the same transfer.
-/

namespace Agama

/-- A top-level instruction. A foreign program calls instructions of this program in turn, and may
sign for addresses of its own. -/
inductive TopLevel where
  | transfer (ix : Instruction) (isToken : ix.programId = tokenProgramId)
  | agama (accounts : List AccountMeta) (data : List UInt8) (ix : Ix)
  | foreign (ix : Instruction) (notToken : ix.programId ≠ tokenProgramId) (pdas : List Pubkey)
      (calls : List Ix)

namespace TopLevel

/-- The instruction as the sysvar lists it. -/
def instruction : TopLevel → Instruction
  | transfer ix _ => ix
  | agama accounts data _ => ⟨programId, accounts, data⟩
  | foreign ix _ _ _ => ix

/-- The instructions of this program that run under it. -/
def calls : TopLevel → List Ix
  | transfer _ _ => []
  | agama _ _ ix => [ix]
  | foreign _ _ _ calls => calls

end TopLevel

/-- The amount that an instruction credits to the private side. -/
def Ix.credited : Ix → Option U64
  | .depositPrivate _ _ _ amount => some amount
  | _ => none

namespace TopLevel

/-- The amounts of the private deposits that run under a top-level instruction. -/
def deposits (top : TopLevel) : List U64 := top.calls.filterMap Ix.credited

/-- The amount of a transfer into the custody. -/
def inflow (custody : Pubkey) : TopLevel → Option U64
  | transfer ix _ =>
    match unpackTransfer ix with
    | some t => if t.destination = custody then some t.amount else none
    | none => none
  | _ => none

end TopLevel

/-- A transaction: the keys that signed it, the clock, and its top-level instructions. -/
structure Transaction where
  signers : List Pubkey
  now : ℤ
  topLevel : List TopLevel

namespace Transaction

/-- What a handler sees while the top-level instruction at an index runs. -/
def txAt (t : Transaction) (i : ℕ) : Tx :=
  ⟨t.signers, t.now, t.topLevel.map TopLevel.instruction, i⟩

/-- How many private deposits credit the transfer at an index: those that run under the top-level
instruction after it. -/
def credits (t : Transaction) (i : ℕ) : ℕ := (t.topLevel[i + 1]?.elim [] TopLevel.deposits).length

/-- The transfers into the custody, in total. -/
def inflow (t : Transaction) (custody : Pubkey) : ℕ :=
  (t.topLevel.map fun top => ((top.inflow custody).elim 0 Fin.val)).sum

end Transaction

namespace World

/-- Calls of this program, one after the other. -/
def execCalls (rt : Runtime) (w : World) (tx : Tx) : List Ix → Result World
  | [] => pure w
  | ix :: calls => do
    let w ← w.exec rt tx ix
    w.execCalls rt tx calls

/-- A top-level instruction. A transfer is one of private accounts, as in the enclave. -/
def execTopLevel (rt : Runtime) (w : World) (tx : Tx) : TopLevel → Result World
  | .transfer ix _ => w.step rt (.token (.sendPrivate ix))
  | .agama _ _ ix => w.exec rt tx ix
  | .foreign _ _ pdas calls => w.execCalls rt { tx with signers := tx.signers ++ pdas } calls

/-- The top-level instructions from an index on. -/
def execFrom (rt : Runtime) (w : World) (t : Transaction) (i : ℕ) : List TopLevel → Result World
  | [] => pure w
  | top :: rest => do
    let w ← w.execTopLevel rt (t.txAt i) top
    w.execFrom rt t (i + 1) rest

/-- A transaction, which fails as a whole when one of its instructions does. -/
def transact (rt : Runtime) (w : World) (t : Transaction) : Result World :=
  w.execFrom rt t 0 t.topLevel

end World

/-! ## What a credit reads -/

/-- A private deposit of `amount` accepts the instruction before the current one as its transfer
into the custody. -/
def ReadsTransfer (tx : Tx) (custody : Pubkey) (amount : U64) : Prop :=
  ∃ prev src depositor, previousInstruction tx = .ok prev ∧
    assertTokenTransfer prev amount src custody depositor = .ok ()

/-- The sum of a list of words. -/
def sumVal (amounts : List U64) : ℕ := (amounts.map Fin.val).sum

/-- What the calls under one top-level instruction do to the custody's account: it stays, `total_in`
moves by at most the deposits, and every deposit read a transfer. -/
structure CreditsAt (rt : Runtime) (tx : Tx) (deposits : List U64) (w w' : World) : Prop where
  custody : w'.custody rt = w.custody rt
  totalIn : w'.totalIn.val ≤ w.totalIn.val + sumVal deposits
  reads : ∀ amount ∈ deposits, ReadsTransfer tx (w.custody rt) amount

namespace World

variable {rt : Runtime} {w w' : World} {tx : Tx}

/-- One instruction of this program. -/
theorem exec_creditsAt {ix : Ix} (h : w.exec rt tx ix = .ok w') :
    CreditsAt rt tx ix.credited.toList w w' := by
  have hstep : w.step rt (.program tx ix) = .ok w' := h
  obtain ⟨-, hcustody, htotal⟩ := step_credits hstep
  have hle : w'.totalIn.val ≤ w.totalIn.val + (ix.move tx.now).credited.val := by
    rw [htotal, satAdd_val]
    exact min_le_left _ _
  cases ix with
  | depositPrivate depositor signer position amount =>
    obtain ⟨-, -, prev, hprev, hcheck⟩ := depositPrivate_reads h
    refine ⟨hcustody, hle, fun a ha => ?_⟩
    rw [List.mem_singleton.mp ha]
    exact ⟨prev, _, depositor, hprev, hcheck⟩
  | _ => exact ⟨hcustody, hle, fun a ha => absurd ha List.not_mem_nil⟩

/-- The calls of one top-level instruction, which all read the same instruction. -/
theorem execCalls_creditsAt {calls : List Ix} (h : w.execCalls rt tx calls = .ok w') :
    CreditsAt rt tx (calls.filterMap Ix.credited) w w' := by
  -- `tx` stays fixed in the induction: every call sees the same index.
  induction calls generalizing w with
  | nil =>
    rw [execCalls, pure_eq_ok] at h
    subst h
    exact ⟨rfl, le_rfl, fun a ha => absurd ha List.not_mem_nil⟩
  | cons ix calls ih =>
    rw [execCalls, bind_eq_ok] at h
    obtain ⟨w₁, hfirst, hrest⟩ := h
    have hf := exec_creditsAt hfirst
    have hr := ih hrest
    have hsplit : (ix :: calls).filterMap Ix.credited =
        ix.credited.toList ++ calls.filterMap Ix.credited := by
      cases hix : ix.credited <;> simp [hix]
    rw [hsplit]
    refine ⟨hr.custody.trans hf.custody, ?_, fun a ha => ?_⟩
    · have hle := hf.totalIn
      have hle' := hr.totalIn
      simp only [sumVal, List.map_append, List.sum_append] at hle hle' ⊢
      omega
    · rcases List.mem_append.mp ha with ha | ha
      · exact hf.reads a ha
      · exact hf.custody ▸ hr.reads a ha

/-- A top-level instruction. -/
theorem execTopLevel_creditsAt {top : TopLevel} (h : w.execTopLevel rt tx top = .ok w') :
    CreditsAt rt tx top.deposits w w' := by
  cases top with
  | transfer ix isToken =>
    have hstep : w.step rt (.token (.sendPrivate ix)) = .ok w' := h
    obtain ⟨-, hcustody, htotal⟩ := step_credits hstep
    refine ⟨hcustody, ?_, fun a ha => absurd ha List.not_mem_nil⟩
    rw [htotal]
    exact (congrArg Fin.val (satAdd_zero _)).le
  | agama accounts data ix =>
    have hone : TopLevel.deposits (.agama accounts data ix) = ix.credited.toList := by
      cases hix : ix.credited <;> simp [TopLevel.deposits, TopLevel.calls, hix]
    rw [hone]
    exact exec_creditsAt h
  | foreign ix notToken pdas calls =>
    -- The keys that the foreign program signs for do not change what the sysvar shows.
    have hcalls := execCalls_creditsAt h
    exact ⟨hcalls.custody, hcalls.totalIn, hcalls.reads⟩

/-- The top-level instructions from an index on: every deposit read the instruction before the one
that it ran under. -/
theorem execFrom_credits {t : Transaction} {i : ℕ} {rest : List TopLevel}
    (h : w.execFrom rt t i rest = .ok w') :
    w'.totalIn.val ≤ w.totalIn.val + (rest.map fun top => sumVal top.deposits).sum ∧
      ∀ k top, rest[k]? = some top → ∀ amount ∈ top.deposits,
        ReadsTransfer (t.txAt (i + k)) (w.custody rt) amount := by
  induction rest generalizing w i with
  | nil =>
    rw [execFrom, pure_eq_ok] at h
    subst h
    exact ⟨le_rfl, fun k top htop => absurd htop (by simp)⟩
  | cons top rest ih =>
    rw [execFrom, bind_eq_ok] at h
    obtain ⟨w₁, hfirst, hrest⟩ := h
    have hf := execTopLevel_creditsAt hfirst
    obtain ⟨hle, hreads⟩ := ih hrest
    constructor
    · have hle' := hf.totalIn
      rw [List.map_cons, List.sum_cons]
      omega
    · rintro (_ | k) top' htop amount hmem
      · rw [List.getElem?_cons_zero, Option.some.injEq] at htop
        subst htop
        exact hf.reads amount hmem
      · rw [List.getElem?_cons_succ] at htop
        have h := hreads k top' htop amount hmem
        rwa [hf.custody, Nat.add_right_comm] at h

end World

/-- What a deposit reads in a transaction is a top-level transfer of its amount into the custody, at
the index before its own. -/
theorem ReadsTransfer.inflow {t : Transaction} {k : ℕ} {custody : Pubkey} {amount : U64}
    (h : ReadsTransfer (t.txAt k) custody amount) :
    ∃ j top, k = j + 1 ∧ t.topLevel[j]? = some top ∧ top.inflow custody = some amount := by
  obtain ⟨prev, src, depositor, hprev, hcheck⟩ := h
  simp only [previousInstruction, bind_eq_ok, require_eq_ok, orElse_eq_ok, exists_const] at hprev
  obtain ⟨hpos, hprev⟩ := hprev
  simp only [Transaction.txAt, List.getElem?_map, Option.map_eq_some_iff] at hpos hprev
  obtain ⟨top, htop, rfl⟩ := hprev
  obtain ⟨htoken, tr, htr, rfl, -, rfl, -⟩ := assertTokenTransfer_unpack hcheck
  refine ⟨k - 1, top, by omega, htop, ?_⟩
  cases top with
  | transfer ix isToken =>
    have hread : unpackTransfer ix = some tr := htr
    simp [TopLevel.inflow, hread]
  -- The check asks for the token program's id, which no other instruction has.
  | agama accounts data ix => exact absurd htoken (by decide +kernel : programId ≠ tokenProgramId)
  | foreign ix notToken pdas calls => exact absurd htoken notToken

/-- Where each element is bounded by the one before it, so are the sums. -/
theorem sum_le_of_isChain {α : Type} {f g : α → ℕ} {a : α} {l : List α}
    (h : List.IsChain (fun a b => f b ≤ g a) (a :: l)) :
    (l.map f).sum ≤ ((a :: l).map g).sum := by
  induction l generalizing a with
  | nil => exact Nat.zero_le _
  | cons b l ih =>
    rw [List.isChain_cons_cons] at h
    have hrest := ih h.2
    rw [List.map_cons, List.sum_cons, List.map_cons, List.sum_cons]
    exact Nat.add_le_add h.1 hrest

/-- When no top-level instruction makes more than one deposit, the deposits add up to at most the
transfers into the custody. -/
theorem deposits_le_inflow {custody : Pubkey} {l : List TopLevel}
    (hone : ∀ top ∈ l, top.deposits.length ≤ 1)
    (hreads : ∀ k top, l[k]? = some top → ∀ amount ∈ top.deposits,
      ∃ j prev, k = j + 1 ∧ l[j]? = some prev ∧ prev.inflow custody = some amount) :
    (l.map fun top => sumVal top.deposits).sum ≤
      (l.map fun top => ((top.inflow custody).elim 0 Fin.val)).sum := by
  cases l with
  | nil => exact le_rfl
  | cons first rest =>
    -- Nothing comes before the first instruction, so it cannot deposit.
    have hfirst : sumVal first.deposits = 0 := by
      cases hd : first.deposits with
      | nil => rfl
      | cons amount more =>
        obtain ⟨j, _, hj, -⟩ := hreads 0 first rfl amount (by simp [hd])
        omega
    -- Every other one deposits at most the transfer right before it.
    have hchain : List.IsChain
        (fun a b : TopLevel => sumVal b.deposits ≤ (a.inflow custody).elim 0 Fin.val)
        (first :: rest) := by
      refine List.isChain_iff_getElem.mpr fun i hi => ?_
      have hlen := hone _ (List.getElem_mem hi)
      have hbacked := hreads (i + 1) _ (List.getElem?_eq_getElem hi)
      match hd : (first :: rest)[i + 1].deposits, hlen with
      | [], _ => exact Nat.zero_le _
      | [amount], _ =>
        obtain ⟨j, prev, hj, hprev, hin⟩ := hbacked amount (hd ▸ List.mem_singleton_self amount)
        obtain rfl : i = j := by omega
        rw [List.getElem?_eq_getElem (by omega), Option.some.injEq] at hprev
        rw [hprev, hin]
        exact le_rfl
    rw [List.map_cons, List.sum_cons, hfirst, Nat.zero_add]
    exact sum_le_of_isChain hchain

/-- In a transaction that succeeds, every transfer into the custody is credited at most once, and no
more is credited than came in, exactly when no foreign program makes more than one private deposit
under one top-level instruction. -/
theorem transfer_credited_once {rt : Runtime} {w w' : World} {t : Transaction}
    (h : w.transact rt t = .ok w') :
    ((∀ i top amount, t.topLevel[i]? = some top → top.inflow (w.custody rt) = some amount →
        t.credits i ≤ 1) ∧
      w'.totalIn.val ≤ w.totalIn.val + t.inflow (w.custody rt)) ↔
    ∀ ix notToken pdas calls, .foreign ix notToken pdas calls ∈ t.topLevel →
      (calls.filterMap Ix.credited).length ≤ 1 := by
  obtain ⟨htotal, hread⟩ := World.execFrom_credits h
  have hreads : ∀ k top, t.topLevel[k]? = some top → ∀ amount ∈ top.deposits,
      ∃ j prev, k = j + 1 ∧ t.topLevel[j]? = some prev ∧
        prev.inflow (w.custody rt) = some amount := by
    intro k top htop amount hmem
    have hk := hread k top htop amount hmem
    rw [Nat.zero_add] at hk
    exact hk.inflow
  constructor
  · -- A foreign program's deposits all credit the transfer before it, which is credited once.
    rintro ⟨honce, -⟩ ix notToken pdas calls hmem
    obtain ⟨k, htop⟩ := List.mem_iff_getElem?.mp hmem
    cases hd : calls.filterMap Ix.credited with
    | nil => exact Nat.zero_le _
    | cons amount more =>
      obtain ⟨j, prev, rfl, hprev, hin⟩ := hreads k _ htop amount
        (by simp [TopLevel.deposits, TopLevel.calls, hd])
      have hcount := honce j prev amount hprev hin
      rw [Transaction.credits, htop] at hcount
      rw [← hd]
      exact hcount
  · intro hforeign
    have hone : ∀ top ∈ t.topLevel, top.deposits.length ≤ 1 := by
      intro top hmem
      cases top with
      | transfer ix isToken => exact Nat.zero_le _
      -- An instruction of this program that is top-level makes one call.
      | agama accounts data ix => exact List.length_filterMap_le _ _
      | foreign ix notToken pdas calls => exact hforeign ix notToken pdas calls hmem
    refine ⟨fun i top amount _ _ => ?_, htotal.trans ?_⟩
    · cases hnext : t.topLevel[i + 1]? with
      | none => simp [Transaction.credits, hnext]
      | some next =>
        rw [Transaction.credits, hnext]
        exact hone next (List.mem_of_getElem? hnext)
    · exact Nat.add_le_add_left (deposits_le_inflow hone hreads) _

/-- A transfer of 100 USDC into the custody, then a foreign program that deposits it `n` times. -/
def relayedDeposits (n : ℕ) : Transaction where
  signers := [depositor, positionOwner]
  now := 100
  topLevel :=
    [.transfer (custodyTransfer depositor depositorAccount 100000000) rfl,
      .foreign ⟨key 7, [], []⟩ (by decide +kernel) []
        (List.replicate n (.depositPrivate depositor positionOwner positionOwner 100000000))]

/-- One deposit credits the transfer once. -/
theorem transfer_credited_once_relayed :
    ∃ w', World.deployedPrivate.transact deployment (relayedDeposits 1) = .ok w' ∧
      w'.totalIn.val ≤ World.deployedPrivate.totalIn.val +
        (relayedDeposits 1).inflow (World.deployedPrivate.custody deployment) := by
  have hmap : (World.deployedPrivate.transact deployment (relayedDeposits 1)).map World.totalIn =
      .ok 100000000 := by decide +kernel
  obtain ⟨w', hrun, -⟩ := exists_of_map_eq_ok hmap
  refine ⟨w', hrun, ((transfer_credited_once hrun).mpr ?_).2⟩
  intro ix notToken pdas calls hmem
  simp only [relayedDeposits, List.mem_cons, TopLevel.foreign.injEq, reduceCtorEq, false_or,
    List.not_mem_nil, or_false] at hmem
  rw [hmem.2.2]
  decide

/-- Two calls of one foreign instruction read the same transfer, and 200 USDC are credited for
100. -/
theorem transfer_credited_twice :
    Run deployment World.deployedLayers World.deployedPrivate ∧
      ∃ w', World.deployedPrivate.transact deployment (relayedDeposits 2) = .ok w' ∧
        (relayedDeposits 2).credits 0 = 2 ∧
        ¬ w'.totalIn.val ≤ World.deployedPrivate.totalIn.val +
          (relayedDeposits 2).inflow (World.deployedPrivate.custody deployment) := by
  have hmap : (World.deployedPrivate.transact deployment (relayedDeposits 2)).map World.totalIn =
      .ok 200000000 := by decide +kernel
  obtain ⟨w', hrun, htotal⟩ := exists_of_map_eq_ok hmap
  refine ⟨run_of_replays (by decide +kernel), w', hrun, by decide, ?_⟩
  rw [htotal]
  decide +kernel

end Agama
