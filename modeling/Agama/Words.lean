import Mathlib.Tactic

/-!
# Machine integers and failing computations

The program's unsigned integers are `Fin (2^w)`, and the arithmetic that its source writes is named
after Rust's: `satAdd` and `satSub` are `saturating_add` and `saturating_sub`, `wrap` is an `as`
cast, `tryU64` is `u64::try_from`. The workspace is built with `overflow-checks = true`, so an
overflowing `u128` product, `u32` or `i64` sum stops the transaction: `u128`, `u32`, and `i64` check
the range. Signed times are integers, kept in range by those checks. Statements are about the
numbers that the words carry, `x.val`.

A handler returns `Result`: its new accounts, or the fault that makes Solana revert the whole
transaction.
-/

namespace Agama

/-- `u8`. -/
abbrev U8 := Fin (2^8)
/-- `u16`. -/
abbrev U16 := Fin (2^16)
/-- `u32`. -/
abbrev U32 := Fin (2^32)
/-- `u64`. -/
abbrev U64 := Fin (2^64)

-- Literals of each width share one proof that the width is inhabited.
instance neZero_u8 : NeZero (2^8) := ⟨by decide⟩
instance neZero_u16 : NeZero (2^16) := ⟨by decide⟩
instance neZero_u32 : NeZero (2^32) := ⟨by decide⟩
instance neZero_u64 : NeZero (2^64) := ⟨by decide⟩

/-- The program's own error codes. -/
inductive AgamaError where
  | zeroAmount
  | dustDeposit
  | insufficientShares
  | insufficientLiquidity
  | mathOverflow
  | badPool
  | badMint
  | unauthorized
  | tooManyMembers
  | faucetCooldown
  | badBookOwner
  | bookAheadOfVault
  | badShielded
  | badExitParams
  | transferMismatch
  | paymentMismatch
  | unknownExit
  | exitBookFull
  | badSessionRotation
  deriving DecidableEq, Repr

/-- Why a transaction fails. -/
inductive Fault where
  /-- One of the program's error codes. -/
  | error (e : AgamaError)
  /-- A panic: an overflow, a division by zero or an index out of range. -/
  | panic
  /-- An account constraint: a missing signature, an absent or existing account, an account that
  is not writable where the instruction runs, or a key that its seeds do not derive. -/
  | account
  /-- A program that the handler calls, or the instructions sysvar, refuses. -/
  | external
  deriving DecidableEq, Repr

/-- `Result`, of Anchor. -/
abbrev Result := Except Fault

/-- `require!`. -/
def require (c : Prop) [Decidable c] (e : AgamaError) : Result Unit :=
  if c then .ok () else .error (.error e)

/-- A constraint on the accounts that the instruction is given. -/
def constraint (c : Prop) [Decidable c] : Result Unit :=
  if c then .ok () else .error .account

/-- `ok_or`: the value of an option, or the fault. -/
def orElse {α : Type} (o : Option α) (f : Fault) : Result α :=
  match o with
  | some a => .ok a
  | none => .error f

/-- A computation succeeds when its first step does and the rest succeeds on its result. -/
@[simp]
theorem bind_eq_ok {α β : Type} {x : Result α} {f : α → Result β} {b : β} :
    (x >>= f) = .ok b ↔ ∃ a, x = .ok a ∧ f a = .ok b := by
  cases x with
  | error e => simp [bind, Except.bind]
  | ok a => simp [bind, Except.bind]

/-- What `pure` returns. -/
@[simp]
theorem pure_eq_ok {α : Type} {a b : α} : (pure a : Result α) = .ok b ↔ a = b := by
  simp [pure, Except.pure]

/-- `require!` passes where its condition holds. -/
@[simp]
theorem require_eq_ok {c : Prop} [Decidable c] {e : AgamaError} {u : Unit} :
    require c e = .ok u ↔ c := by
  unfold require
  split <;> simp_all

/-- So does a constraint. -/
@[simp]
theorem constraint_eq_ok {c : Prop} [Decidable c] {u : Unit} : constraint c = .ok u ↔ c := by
  unfold constraint
  split <;> simp_all

/-- `ok_or` passes on what is there. -/
@[simp]
theorem orElse_eq_ok {α : Type} {o : Option α} {f : Fault} {a : α} :
    orElse o f = .ok a ↔ o = some a := by
  cases o with
  | none => simp [orElse]
  | some b => simp [orElse]

/-- What a computation's result maps to, it has a result for. -/
theorem exists_of_map_eq_ok {α β : Type} {x : Result α} {f : α → β} {b : β}
    (h : x.map f = .ok b) : ∃ a, x = .ok a ∧ f a = b := by
  cases x with
  | error e => cases h
  | ok a =>
    cases h
    exact ⟨a, rfl, rfl⟩

/-- What a computation's result maps to fails as the computation does. -/
theorem eq_error_of_map {α β : Type} {x : Result α} {f : α → β} {e : Fault}
    (h : x.map f = .error e) : x = .error e := by
  cases x with
  | error e' => exact congrArg Except.error (Except.error.inj h)
  | ok a => cases h

/-- A computation that succeeds has a result. -/
theorem exists_of_isOk {α : Type} {x : Result α} (h : x.isOk = true) : ∃ a, x = .ok a := by
  cases x with
  | error e => cases h
  | ok a => exact ⟨a, rfl⟩

/-- A computation's result, if it has one, satisfies `p`. -/
def Ensures {α : Type} (x : Result α) (p : α → Prop) : Prop := ∀ a, x = .ok a → p a

instance {α : Type} (x : Result α) (p : α → Prop) [DecidablePred p] : Decidable (Ensures x p) :=
  match x with
  | .ok a => decidable_of_iff (p a) ⟨fun h _ hb => Except.ok.inj hb ▸ h, fun h => h a rfl⟩
  | .error _ => .isTrue nofun

/-! ## Faults -/

/-- A computation does not fail with a fault. -/
def Avoids {α : Type} (x : Result α) (f : Fault) : Prop := x ≠ .error f

section Avoids

variable {α β : Type} {f : Fault}

/-- A success is no fault. -/
theorem avoids_ok (a : α) : Avoids (.ok a) f := nofun

/-- A computation avoids a fault when its first step does, and the rest does on its result. -/
theorem Avoids.bind {x : Result α} {k : α → Result β} (hx : Avoids x f)
    (hk : ∀ a, x = .ok a → Avoids (k a) f) : Avoids (x >>= k) f := by
  cases x with
  | error e => exact fun h => hx (by cases h; rfl)
  | ok a => exact hk a rfl

/-- `require!` fails only with its own error, and only where its condition does not hold. -/
theorem avoids_require {c : Prop} [Decidable c] {e : AgamaError} (h : c ∨ Fault.error e ≠ f) :
    Avoids (require c e) f := by
  unfold require
  split
  · exact avoids_ok ()
  · rename_i hc
    exact fun he => (h.resolve_left hc) (Except.error.inj he)

/-- A constraint fails only as one. -/
theorem avoids_constraint {c : Prop} [Decidable c] (h : Fault.account ≠ f) :
    Avoids (constraint c) f := by
  unfold constraint
  split
  · exact avoids_ok ()
  · exact fun he => h (Except.error.inj he)

/-- `ok_or` fails only with its own fault. -/
theorem avoids_orElse {o : Option α} {g : Fault} (h : g ≠ f) : Avoids (orElse o g) f := by
  cases o with
  | none => exact fun he => h (Except.error.inj he)
  | some a => exact avoids_ok a

end Avoids

/-! ## Words -/

/-- `saturating_add`. -/
def satAdd {w : ℕ} (a b : Fin (2^w)) : Fin (2^w) :=
  ⟨min (a.val + b.val) (2^w - 1), by have := Nat.two_pow_pos w; omega⟩

/-- A difference that stops at zero is no wider than its left operand. -/
theorem val_sub_lt {w : ℕ} (a b : Fin (2^w)) : a.val - b.val < 2^w := by
  have := a.isLt
  omega

/-- `saturating_sub`. -/
def satSub {w : ℕ} (a b : Fin (2^w)) : Fin (2^w) := ⟨a.val - b.val, val_sub_lt a b⟩

/-- An `as` cast to a narrower unsigned type. -/
def wrap {w : ℕ} (n : ℕ) : Fin (2^w) := ⟨n % 2^w, Nat.mod_lt _ (Nat.two_pow_pos w)⟩

/-- `u64::try_from`, with the error that the source maps its failure to. -/
def tryU64 (n : ℕ) : Result U64 :=
  if h : n < 2^64 then .ok ⟨n, h⟩ else .error (.error .mathOverflow)

/-- The checked result of a `u128` sum or product. -/
def u128 (n : ℕ) : Result ℕ := if n < 2^128 then .ok n else .error .panic

/-- The checked result of a `u32` sum. -/
def u32 (n : ℕ) : Result U32 := if h : n < 2^32 then .ok ⟨n, h⟩ else .error .panic

/-- A `u128` quotient, checked for a zero divisor. -/
def udiv (n d : ℕ) : Result ℕ := if d = 0 then .error .panic else .ok (n / d)

/-- The checked result of an `i64` sum or difference. -/
def i64 (z : ℤ) : Result ℤ := if -2^63 ≤ z ∧ z < 2^63 then .ok z else .error .panic

/-- The value of a saturating sum. -/
@[simp]
theorem satAdd_val {w : ℕ} (a b : Fin (2^w)) :
    (satAdd a b).val = min (a.val + b.val) (2^w - 1) := rfl

/-- The value of a saturating difference. -/
@[simp]
theorem satSub_val {w : ℕ} (a b : Fin (2^w)) : (satSub a b).val = a.val - b.val := rfl

/-- The value of a truncating cast. -/
@[simp]
theorem wrap_val {w : ℕ} (n : ℕ) : (wrap n : Fin (2^w)).val = n % 2^w := rfl

/-- Adding nothing does not saturate. -/
@[simp]
theorem satAdd_zero {w : ℕ} (a : Fin (2^w)) : satAdd a 0 = a := by
  apply Fin.ext
  rw [satAdd_val, Fin.val_zero]
  omega

/-- A sum that fits does not saturate. -/
theorem satAdd_val_of_lt {w : ℕ} {a b : Fin (2^w)} (h : a.val + b.val < 2^w) :
    (satAdd a b).val = a.val + b.val := by
  rw [satAdd_val]; omega

/-- A saturating sum is at least its left operand. -/
theorem le_satAdd_left {w : ℕ} (a b : Fin (2^w)) : a.val ≤ (satAdd a b).val := by
  rw [satAdd_val]; omega

/-- A saturating sum is monotone in both operands. -/
theorem satAdd_mono {w : ℕ} {a a' b b' : Fin (2^w)} (ha : a.val ≤ a'.val) (hb : b.val ≤ b'.val) :
    (satAdd a b).val ≤ (satAdd a' b').val := by
  rw [satAdd_val, satAdd_val]; omega

/-- A saturating sum grows by no more than its operand. -/
theorem satAdd_le_add {w d : ℕ} {a b b' : Fin (2^w)} (h : b'.val ≤ b.val + d) :
    (satAdd a b').val ≤ (satAdd a b).val + d := by
  rw [satAdd_val, satAdd_val]; omega

/-- So does a saturating difference. -/
theorem satSub_le_add {w d : ℕ} {a a' b : Fin (2^w)} (h : a'.val ≤ a.val + d) :
    (satSub a' b).val ≤ (satSub a b).val + d := by
  rw [satSub_val, satSub_val]; omega

/-- `u64::try_from` of a number that fits. -/
@[simp]
theorem tryU64_eq_ok {n : ℕ} {x : U64} : tryU64 n = .ok x ↔ x.val = n := by
  unfold tryU64
  split
  · rw [Except.ok.injEq, Fin.ext_iff]
    exact eq_comm
  · rename_i h
    have := x.isLt
    simp only [reduceCtorEq, false_iff]
    omega

/-- A `u128` result that does not overflow. -/
@[simp]
theorem u128_eq_ok {n m : ℕ} : u128 n = .ok m ↔ n < 2^128 ∧ n = m := by
  unfold u128
  split <;> simp_all

/-- A `u32` result that does not overflow. -/
@[simp]
theorem u32_eq_ok {n : ℕ} {x : U32} : u32 n = .ok x ↔ x.val = n := by
  unfold u32
  split
  · rw [Except.ok.injEq, Fin.ext_iff]
    exact eq_comm
  · rename_i h
    have := x.isLt
    simp only [reduceCtorEq, false_iff]
    omega

/-- A division by something. -/
@[simp]
theorem udiv_eq_ok {n d q : ℕ} : udiv n d = .ok q ↔ d ≠ 0 ∧ n / d = q := by
  unfold udiv
  split <;> simp_all

/-- An `i64` result that does not overflow. -/
@[simp]
theorem i64_eq_ok {z y : ℤ} : i64 z = .ok y ↔ (-2^63 ≤ z ∧ z < 2^63) ∧ z = y := by
  unfold i64
  split <;> simp_all

/-- `u64::try_from` fails only with `MathOverflow`. -/
theorem avoids_tryU64 {n : ℕ} {f : Fault} (h : Fault.error .mathOverflow ≠ f) :
    Avoids (tryU64 n) f := by
  unfold tryU64
  split
  · exact avoids_ok _
  · exact fun he => h (Except.error.inj he)

/-- A division by anything but zero fails with nothing. -/
theorem avoids_udiv {n d : ℕ} {f : Fault} (h : d ≠ 0) : Avoids (udiv n d) f := by
  rw [udiv, if_neg h]
  exact avoids_ok _

end Agama
