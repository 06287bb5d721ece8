import Agama.Lib.Delegable
import Mathlib.Logic.Relation

/-!
# Sponsored delegations

A delegated value whose delegation pays for a limited number of commits. Once these are used up
nothing publishes the live copy but undelegation, which publishes on the way out, and a fresh
delegation has a fresh budget. Recycling is the two, each only where it is still to be done: it ends
in the same state wherever an earlier one was cut off.
-/

/-- A delegated value, and the commits that its delegation has paid for. -/
structure Sponsored (α : Type*) where
  copy : Delegable α
  commits : ℕ

namespace Sponsored

variable {α : Type*} {limit : ℕ} {W : α → α → Prop} {s s' : Sponsored α}

/-- A commit within the budget. -/
def commit (limit : ℕ) (s : Sponsored α) : Option (Sponsored α) :=
  if s.commits < limit then s.copy.commit.map fun d => ⟨d, s.commits + 1⟩ else none

/-- A delegation starts with nothing used up. -/
def delegate (s : Sponsored α) : Option (Sponsored α) := s.copy.delegate.map fun d => ⟨d, 0⟩

/-- Undelegation needs no budget. -/
def undelegate (s : Sponsored α) : Option (Sponsored α) :=
  s.copy.undelegate.map fun d => ⟨d, s.commits⟩

/-- A commit publishes the live copy and keeps it, and uses one up. -/
theorem commit_eq_some (h : s.commit limit = some s') :
    s' = ⟨⟨s.copy.current, some s.copy.current⟩, s.commits + 1⟩ := by
  unfold commit at h
  split at h
  · obtain ⟨d, hd, rfl⟩ := Option.map_eq_some_iff.mp h
    obtain ⟨⟨b, _ | a⟩, n⟩ := s <;> cases hd
    rfl
  · cases h

/-- What can happen, where `W` says what a write may make of the current copy. -/
inductive Step (limit : ℕ) (W : α → α → Prop) (s : Sponsored α) : Sponsored α → Prop
  | same : Step limit W s s
  | write {a : α} (run : W s.copy.current a) : Step limit W s ⟨s.copy.write a, s.commits⟩
  | delegate {s' : Sponsored α} (run : s.delegate = some s') : Step limit W s s'
  | commit {s' : Sponsored α} (run : s.commit limit = some s') : Step limit W s s'
  | undelegate {s' : Sponsored α} (run : s.undelegate = some s') : Step limit W s s'

/-- The budget is never overdrawn. -/
theorem Step.within (hs : s.commits ≤ limit) (h : Step limit W s s') : s'.commits ≤ limit := by
  cases h with
  | same => exact hs
  | write run => exact hs
  | delegate run =>
    obtain ⟨d, -, rfl⟩ := Option.map_eq_some_iff.mp run
    exact Nat.zero_le _
  | commit run =>
    unfold Sponsored.commit at run
    split at run
    · obtain ⟨d, -, rfl⟩ := Option.map_eq_some_iff.mp run
      assumption
    · cases run
  | undelegate run =>
    obtain ⟨d, -, rfl⟩ := Option.map_eq_some_iff.mp run
    exact hs

/-- With the budget used up, a step that leaves the value delegated publishes nothing. -/
theorem Step.spent (hspent : limit ≤ s.commits) (hlive : s.copy.live ≠ none)
    (h : Step limit W s s') (hlive' : s'.copy.live ≠ none) :
    limit ≤ s'.commits ∧ s'.copy.base = s.copy.base := by
  cases h with
  | same => exact ⟨hspent, rfl⟩
  | write run =>
    rw [Delegable.write_of_live _ hlive]
    exact ⟨hspent, rfl⟩
  | delegate run =>
    obtain ⟨d, hd, -⟩ := Option.map_eq_some_iff.mp run
    exact absurd (Delegable.delegate_live_eq_none hd) hlive
  | commit run =>
    rw [Sponsored.commit, if_neg (by omega)] at run
    cases run
  | undelegate run =>
    obtain ⟨d, hd, rfl⟩ := Option.map_eq_some_iff.mp run
    exact absurd (Delegable.undelegate_eq_some hd).2.2 hlive'

/-! ## Recycling -/

/-- Undelegate, unless that has been done. -/
def bringHome (s : Sponsored α) : Option (Sponsored α) :=
  if s.copy.live.isSome then s.undelegate else some s

/-- Delegate, unless that has been done. -/
def sendOut (s : Sponsored α) : Option (Sponsored α) :=
  if s.copy.live.isSome then some s else s.delegate

/-- Home, and out again. -/
def recycle (s : Sponsored α) : Option (Sponsored α) := s.bringHome >>= sendOut

/-- A recycled value has its current copy published, and the whole budget. -/
theorem recycle_eq (s : Sponsored α) :
    s.recycle = some ⟨⟨s.copy.current, some s.copy.current⟩, 0⟩ := by
  obtain ⟨⟨b, _ | a⟩, n⟩ := s <;> rfl

/-- Both steps succeed. -/
theorem exists_bringHome (s : Sponsored α) :
    ∃ s', s.bringHome = some s' ∧
      s'.sendOut = some ⟨⟨s.copy.current, some s.copy.current⟩, 0⟩ :=
  Option.bind_eq_some_iff.mp s.recycle_eq

end Sponsored
