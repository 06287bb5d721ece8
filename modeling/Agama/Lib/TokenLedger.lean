import Mathlib.Tactic

/-!
# Token balances

Token accounts with `w`-bit balances, and the transfer of a token program: it debits the source and
credits the destination, fails when the source is short or the destination would overflow, and
changes nothing when the two are one account.
-/

namespace TokenLedger

/-- The balance of each token account. -/
abbrev Balances (κ : Type) (w : ℕ) := κ → Fin (2^w)

variable {κ : Type} [DecidableEq κ] {w : ℕ}

/-- What a debit leaves fits. -/
theorem left_lt (balance amount : Fin (2^w)) : balance.val - amount.val < 2^w := by
  have := balance.isLt
  omega

/-- A debit, which fails on a short balance. -/
def debit (balance amount : Fin (2^w)) : Option (Fin (2^w)) :=
  if amount.val ≤ balance.val then some ⟨balance.val - amount.val, left_lt balance amount⟩
  else none

/-- A credit, which fails on an overflow. -/
def credit (balance amount : Fin (2^w)) : Option (Fin (2^w)) :=
  if h : balance.val + amount.val < 2^w then some ⟨balance.val + amount.val, h⟩ else none

/-- A transfer of `amount` from `src` to `dst`. -/
def transfer (b : Balances κ w) (src dst : κ) (amount : Fin (2^w)) : Option (Balances κ w) := do
  let debited ← debit (b src) amount
  if src = dst then pure b
  else
    let credited ← credit (b dst) amount
    pure (Function.update (Function.update b src debited) dst credited)

/-- A debit of what is there. -/
@[simp]
theorem debit_eq_some {balance amount x : Fin (2^w)} :
    debit balance amount = some x ↔
      amount.val ≤ balance.val ∧ x.val = balance.val - amount.val := by
  unfold debit
  split
  · rename_i h
    rw [Option.some.injEq, Fin.ext_iff]
    exact ⟨fun e => ⟨h, e.symm⟩, fun e => e.2.symm⟩
  · simp_all

/-- A credit that fits. -/
@[simp]
theorem credit_eq_some {balance amount x : Fin (2^w)} :
    credit balance amount = some x ↔ x.val = balance.val + amount.val := by
  unfold credit
  split
  · rw [Option.some.injEq, Fin.ext_iff]
    exact eq_comm
  · rename_i h
    have := x.isLt
    simp only [reduceCtorEq, false_iff]
    omega

/-- A transfer between two accounts moves the amount. -/
theorem transfer_of_ne {b b' : Balances κ w} {src dst : κ} {amount : Fin (2^w)} (hne : src ≠ dst)
    (h : transfer b src dst amount = some b') :
    (b' dst).val = (b dst).val + amount.val ∧ (b' src).val + amount.val = (b src).val := by
  simp only [transfer, if_neg hne, Option.bind_eq_bind, Option.bind_eq_some_iff, debit_eq_some,
    credit_eq_some, Option.pure_def, Option.some.injEq] at h
  obtain ⟨debited, ⟨hle, hd⟩, credited, hc, rfl⟩ := h
  rw [Function.update_self, Function.update_of_ne hne, Function.update_self, hc, hd]
  exact ⟨rfl, by omega⟩

/-- A transfer of an account to itself changes nothing. -/
theorem transfer_self {b b' : Balances κ w} {a : κ} {amount : Fin (2^w)}
    (h : transfer b a a amount = some b') : b' = b := by
  simp only [transfer, if_true, Option.bind_eq_bind, Option.bind_eq_some_iff, Option.pure_def,
    Option.some.injEq] at h
  obtain ⟨-, -, rfl⟩ := h
  rfl

/-- A credit lowers no account. -/
theorem le_of_credit {b : Balances κ w} {a : κ} {amount x : Fin (2^w)}
    (h : credit (b a) amount = some x) (c : κ) : (b c).val ≤ (Function.update b a x c).val := by
  rw [credit_eq_some] at h
  by_cases hc : c = a
  · subst hc
    rw [Function.update_self, h]
    exact Nat.le_add_right _ _
  · rw [Function.update_of_ne hc]

/-- A transfer lowers its source only. -/
theorem le_of_transfer {b b' : Balances κ w} {src dst c : κ} {amount : Fin (2^w)} (hc : c ≠ src)
    (h : transfer b src dst amount = some b') : (b c).val ≤ (b' c).val := by
  by_cases hself : src = dst
  · subst hself
    rw [transfer_self h]
  · simp only [transfer, if_neg hself, Option.bind_eq_bind, Option.bind_eq_some_iff,
      Option.pure_def, Option.some.injEq] at h
    obtain ⟨debited, -, credited, hcredit, rfl⟩ := h
    have hdst : credit (Function.update b src debited dst) amount = some credited := by
      rwa [Function.update_of_ne (Ne.symm hself)]
    have hle := le_of_credit hdst c
    rwa [Function.update_of_ne hc] at hle

/-! ## What accounts hold together -/

/-- No accounts hold more than `n` together. -/
def Within (b : Balances κ w) (n : ℕ) : Prop := ∀ S : Finset κ, ∑ a ∈ S, (b a).val ≤ n

/-- One account's balance changes the sum by the difference. -/
theorem sum_update (b : Balances κ w) {a : κ} {S : Finset κ} (x : Fin (2^w)) (ha : a ∈ S) :
    ∑ c ∈ S, (Function.update b a x c).val + (b a).val = ∑ c ∈ S, (b c).val + x.val := by
  have hsame : ∑ c ∈ S.erase a, (Function.update b a x c).val = ∑ c ∈ S.erase a, (b c).val := by
    refine Finset.sum_congr rfl fun c hc => ?_
    rw [Function.update_of_ne (Finset.ne_of_mem_erase hc)]
  have hold := Finset.add_sum_erase S (fun c => (b c).val) ha
  have hnew := Finset.add_sum_erase S (fun c => (Function.update b a x c).val) ha
  simp only [Function.update_self] at hold hnew
  omega

section Within

variable {b : Balances κ w} {n : ℕ} {a : κ} {amount x : Fin (2^w)}

omit [DecidableEq κ] in
/-- One account holds no more. -/
theorem Within.le (h : Within b n) (a : κ) : (b a).val ≤ n := by
  have hone := h {a}
  rwa [Finset.sum_singleton] at hone

/-- A sum over some accounts is at most the sum with one more. -/
theorem sum_le_insert (b : Balances κ w) (a : κ) (S : Finset κ) :
    ∑ c ∈ S, (b c).val ≤ ∑ c ∈ insert a S, (b c).val :=
  Finset.sum_le_sum_of_subset (Finset.subset_insert a S)

/-- A credit raises what they hold by its amount. -/
theorem Within.credit (h : Within b n) (hx : credit (b a) amount = some x) :
    Within (Function.update b a x) (n + amount.val) := by
  intro S
  rw [credit_eq_some] at hx
  have hle := sum_le_insert (Function.update b a x) a S
  have hsum := sum_update b x (Finset.mem_insert_self a S)
  have hall := h (insert a S)
  omega

/-- A debit lowers it by its amount. -/
theorem Within.debit (h : Within b n) (hx : debit (b a) amount = some x) :
    Within (Function.update b a x) (n - amount.val) := by
  intro S
  rw [debit_eq_some] at hx
  have hle := sum_le_insert (Function.update b a x) a S
  have hsum := sum_update b x (Finset.mem_insert_self a S)
  have hall := h (insert a S)
  omega

/-- A transfer keeps it. -/
theorem Within.transfer {b' : Balances κ w} {src dst : κ} (h : Within b n)
    (hrun : transfer b src dst amount = some b') : Within b' n := by
  by_cases hne : src = dst
  · subst hne
    rwa [transfer_self hrun]
  · simp only [TokenLedger.transfer, if_neg hne, Option.bind_eq_bind, Option.bind_eq_some_iff,
      Option.pure_def, Option.some.injEq] at hrun
    obtain ⟨debited, hd, credited, hc, rfl⟩ := hrun
    have hsrc := (debit_eq_some.mp hd).1.trans (h.le src)
    have hdst : TokenLedger.credit (Function.update b src debited dst) amount = some credited := by
      rwa [Function.update_of_ne (Ne.symm hne)]
    have hboth := (h.debit hd).credit hdst
    rwa [Nat.sub_add_cancel hsrc] at hboth

end Within

/-! ## The total -/

/-- Finitely many accounts hold anything, and together they hold `n`. -/
def Total (b : Balances κ w) (n : ℕ) : Prop :=
  ∃ S : Finset κ, (∀ a ∉ S, (b a).val = 0) ∧ ∑ a ∈ S, (b a).val = n

section Total

variable {b b' : Balances κ w} {n : ℕ} {a : κ} {amount x : Fin (2^w)}

omit [DecidableEq κ] in
/-- Empty accounts hold nothing. -/
theorem total_zero [NeZero (2^w)] : Total (fun _ : κ => (0 : Fin (2^w))) 0 :=
  ⟨∅, fun _ _ => rfl, rfl⟩

/-- Whatever some accounts hold, they hold with any others besides. -/
theorem Total.insert (h : Total b n) (a : κ) :
    ∃ S : Finset κ, a ∈ S ∧ (∀ c ∉ S, (b c).val = 0) ∧ ∑ c ∈ S, (b c).val = n := by
  obtain ⟨S, hzero, hsum⟩ := h
  refine ⟨Insert.insert a S, Finset.mem_insert_self a S, fun c hc => ?_, ?_⟩
  · exact hzero c fun hS => hc (Finset.mem_insert_of_mem hS)
  · by_cases ha : a ∈ S
    · rw [Finset.insert_eq_of_mem ha, hsum]
    · rw [Finset.sum_insert ha, hsum, hzero a ha, Nat.zero_add]

/-- One account holds no more than all of them. -/
theorem Total.le (h : Total b n) (a : κ) : (b a).val ≤ n := by
  obtain ⟨S, ha, -, rfl⟩ := h.insert a
  exact Finset.single_le_sum (f := fun c => (b c).val) (fun _ _ => Nat.zero_le _) ha

/-- Another balance of one account changes the total by the difference. -/
theorem Total.update (h : Total b n) {m : ℕ} (hm : m + (b a).val = n + x.val) :
    Total (Function.update b a x) m := by
  obtain ⟨S, ha, hzero, rfl⟩ := h.insert a
  refine ⟨S, fun c hc => ?_, ?_⟩
  · have hne : c ≠ a := fun heq => hc (heq ▸ ha)
    rw [Function.update_of_ne hne, hzero c hc]
  · have hsum := sum_update b x ha
    omega

/-- A credit raises the total by its amount. -/
theorem Total.credit (h : Total b n) (hx : credit (b a) amount = some x) :
    Total (Function.update b a x) (n + amount.val) := by
  rw [credit_eq_some] at hx
  exact h.update (by omega)

/-- A debit lowers it by its amount, which the account had. -/
theorem Total.debit (h : Total b n) (hx : debit (b a) amount = some x) :
    ∃ m, m + amount.val = n ∧ Total (Function.update b a x) m := by
  rw [debit_eq_some] at hx
  have hle := h.le a
  exact ⟨n - amount.val, by omega, h.update (by omega)⟩

/-- A transfer keeps it. -/
theorem Total.transfer {src dst : κ} (h : Total b n)
    (hrun : transfer b src dst amount = some b') : Total b' n := by
  by_cases hne : src = dst
  · subst hne
    rwa [transfer_self hrun]
  · simp only [TokenLedger.transfer, if_neg hne, Option.bind_eq_bind, Option.bind_eq_some_iff,
      Option.pure_def, Option.some.injEq] at hrun
    obtain ⟨debited, hd, credited, hc, rfl⟩ := hrun
    have hdst : TokenLedger.credit (Function.update b src debited dst) amount = some credited := by
      rwa [Function.update_of_ne (Ne.symm hne)]
    obtain ⟨m, rfl, hm⟩ := h.debit hd
    exact hm.credit hdst

end Total

end TokenLedger
