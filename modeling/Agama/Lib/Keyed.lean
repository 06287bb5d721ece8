import Mathlib.Data.List.AList
import Mathlib.Tactic

/-!
# Totals of keyed stores

The total of a measure over the values of an `AList` with values of one type. Writing one key moves
the total by that value's difference alone.
-/

namespace Keyed

variable {κ β : Type*}

/-- The total of `f` over the values of a store. -/
def total (f : β → ℕ) (s : AList fun _ : κ => β) : ℕ := (s.entries.map fun e => f e.2).sum

variable [DecidableEq κ]

/-- Erasing a key takes its value out of the sum. -/
theorem sum_kerase (f : β → ℕ) {k : κ} {u : β} {l : List (Σ _ : κ, β)}
    (h : l.dlookup k = some u) :
    f u + ((l.kerase k).map fun e => f e.2).sum = (l.map fun e => f e.2).sum := by
  induction l with
  | nil => simp at h
  | cons e l ih =>
    obtain ⟨k', v⟩ := e
    by_cases hk : k = k'
    · subst hk
      rw [List.dlookup_cons_eq, Option.some.injEq] at h
      subst h
      simp
    · rw [List.dlookup_cons_ne _ _ hk] at h
      rw [List.kerase_cons_ne hk, List.map_cons, List.sum_cons, List.map_cons, List.sum_cons,
        ← ih h]
      omega

/-- Replacing the value of a key moves the total by the difference. -/
theorem total_insert {f : β → ℕ} {s : AList fun _ : κ => β} {k : κ} {u : β} (v : β)
    (h : s.lookup k = some u) : total f (s.insert k v) + f u = total f s + f v := by
  have hsum := sum_kerase f h
  simp only [total, AList.entries_insert, List.map_cons, List.sum_cons]
  omega

/-- A new key adds its value. -/
theorem total_insert_of_not_mem {f : β → ℕ} {s : AList fun _ : κ => β} {k : κ} (v : β)
    (h : s.lookup k = none) : total f (s.insert k v) = total f s + f v := by
  have hmem : k ∉ s := AList.lookup_eq_none.mp h
  unfold total
  rw [AList.entries_insert_of_notMem hmem, List.map_cons, List.sum_cons, Nat.add_comm]

/-- Each value is part of the total. -/
theorem le_total {f : β → ℕ} {s : AList fun _ : κ => β} {k : κ} {u : β}
    (h : s.lookup k = some u) : f u ≤ total f s := by
  have hsum := sum_kerase f h
  unfold total
  omega

end Keyed
