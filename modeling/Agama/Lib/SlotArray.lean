import Mathlib.Data.List.Perm.Basic

/-!
# Slot arrays

A fixed array in which a value is written over the first slot that passes a test, as in
`*slots.iter_mut().find(p) = v`. The write swaps one element for another and moves nothing else,
which `cons_replaceFirst_perm` says as a permutation; what a test counts or a sum adds up then
follows from the permutation.
-/

namespace SlotArray

variable {α : Type*}

/-- Write `v` over the first element that passes `p`. -/
def replaceFirst (p : α → Bool) (v : α) : List α → List α
  | [] => []
  | a :: l => if p a then v :: l else a :: replaceFirst p v l

/-- Replacing a slot keeps the number of slots. -/
@[simp]
theorem length_replaceFirst (p : α → Bool) (v : α) (l : List α) :
    (replaceFirst p v l).length = l.length := by
  induction l with
  | nil => rfl
  | cons a l ih => unfold replaceFirst; split <;> simp [ih]

/-- The write takes the element that it finds out of the array and puts `v` in. -/
theorem cons_replaceFirst_perm {p : α → Bool} {a : α} (v : α) {l : List α}
    (h : l.find? p = some a) : (a :: replaceFirst p v l).Perm (v :: l) := by
  induction l with
  | nil => simp at h
  | cons b l ih =>
    rw [List.find?_cons] at h
    unfold replaceFirst
    by_cases hb : p b = true
    · simp only [hb, if_true, Option.some.injEq] at h ⊢
      subst h
      exact List.Perm.swap _ _ _
    · simp only [hb] at h
      rw [if_neg hb]
      calc (a :: b :: replaceFirst p v l).Perm (b :: a :: replaceFirst p v l) := .swap _ _ _
        _ |>.Perm (b :: v :: l) := (ih h).cons b
        _ |>.Perm (v :: b :: l) := .swap _ _ _

/-- Taking a free slot adds the value to the used ones. -/
theorem filter_replaceFirst_of_free {used p : α → Bool} {a v : α} {l : List α}
    (h : l.find? p = some a) (ha : used a = false) (hv : used v = true) :
    ((replaceFirst p v l).filter used).Perm (v :: l.filter used) := by
  have hperm := (cons_replaceFirst_perm v h).filter used
  simpa [List.filter_cons, ha, hv] using hperm

/-- Freeing a used slot removes its value from the used ones. -/
theorem filter_replaceFirst_of_used {used p : α → Bool} {a v : α} {l : List α}
    (h : l.find? p = some a) (ha : used a = true) (hv : used v = false) :
    (a :: (replaceFirst p v l).filter used).Perm (l.filter used) := by
  have hperm := (cons_replaceFirst_perm v h).filter used
  simpa [List.filter_cons, ha, hv] using hperm

end SlotArray
