import Mathlib.Tactic

/-!
# Delegated accounts

A value with a home copy and, while it is delegated, a live copy elsewhere. Writes go to the copy
that is current, the live one while there is one. A commit publishes the live copy to the home
copy, undelegation publishes it and drops it, and delegation starts a live copy from the home one.
None of the three changes the current value.
-/

/-- A value at home, and its live copy while it is delegated. -/
structure Delegable (α : Type*) where
  /-- The home copy: the last committed value while the value is delegated. -/
  base : α
  /-- The live copy, while the value is delegated. -/
  live : Option α
  deriving DecidableEq

namespace Delegable

variable {α : Type*}

/-- The copy that is written: the live one, or the home copy when nothing is delegated. -/
def current (d : Delegable α) : α := d.live.getD d.base

/-- A value at home. -/
def atHome (a : α) : Delegable α := ⟨a, none⟩

/-- A write to the current copy. -/
def write (d : Delegable α) (a : α) : Delegable α :=
  match d.live with
  | some _ => ⟨d.base, some a⟩
  | none => ⟨a, none⟩

/-- Publish the live copy and keep it. -/
def commit (d : Delegable α) : Option (Delegable α) := d.live.map fun a => ⟨a, some a⟩

/-- Publish the live copy and drop it. -/
def undelegate (d : Delegable α) : Option (Delegable α) := d.live.map fun a => ⟨a, none⟩

/-- Start a live copy, when there is none. -/
def delegate (d : Delegable α) : Option (Delegable α) :=
  match d.live with
  | some _ => none
  | none => some ⟨d.base, some d.base⟩

/-- The home copy of a value at home. -/
@[simp]
theorem base_atHome (a : α) : (atHome a).base = a := rfl

/-- What is written is current. -/
@[simp]
theorem current_write (d : Delegable α) (a : α) : (d.write a).current = a := by
  unfold write
  split <;> rfl

/-- A commit publishes the current value. -/
theorem commit_eq_some {d d' : Delegable α} (h : d.commit = some d') :
    d'.base = d.current ∧ d'.current = d.current := by
  obtain ⟨b, _ | a⟩ := d <;> simp only [commit, Option.map_none, Option.map_some,
    Option.some.injEq, reduceCtorEq] at h
  subst h
  exact ⟨rfl, rfl⟩

/-- So does undelegation, which ends the live copy. -/
theorem undelegate_eq_some {d d' : Delegable α} (h : d.undelegate = some d') :
    d'.base = d.current ∧ d'.current = d.current ∧ d'.live = none := by
  obtain ⟨b, _ | a⟩ := d <;> simp only [undelegate, Option.map_none, Option.map_some,
    Option.some.injEq, reduceCtorEq] at h
  subst h
  exact ⟨rfl, rfl, rfl⟩

/-- Delegation changes no value. -/
theorem delegate_eq_some {d d' : Delegable α} (h : d.delegate = some d') :
    d'.base = d.base ∧ d'.current = d.current := by
  obtain ⟨b, _ | a⟩ := d <;> simp only [delegate, Option.some.injEq, reduceCtorEq] at h
  subst h
  exact ⟨rfl, rfl⟩

/-- A started copy is live. -/
theorem delegate_live_ne_none {d d' : Delegable α} (h : d.delegate = some d') : d'.live ≠ none := by
  obtain ⟨b, _ | a⟩ := d <;> simp only [delegate, Option.some.injEq, reduceCtorEq] at h
  subst h
  exact Option.some_ne_none _

/-- Only a copy that is not live can be started. -/
theorem delegate_live_eq_none {d d' : Delegable α} (h : d.delegate = some d') : d.live = none := by
  obtain ⟨b, _ | a⟩ := d
  · rfl
  · cases h

/-- Only a live copy can be handed back. -/
theorem undelegate_live_ne_none {d d' : Delegable α} (h : d.undelegate = some d') :
    d.live ≠ none := by
  obtain ⟨b, _ | a⟩ := d
  · cases h
  · exact Option.some_ne_none _

/-- A committed copy stays live. -/
theorem commit_live_ne_none {d d' : Delegable α} (h : d.commit = some d') : d'.live ≠ none := by
  obtain ⟨b, _ | a⟩ := d <;> simp only [commit, Option.map_none, Option.map_some,
    Option.some.injEq, reduceCtorEq] at h
  subst h
  exact Option.some_ne_none _

/-- While there is a live copy, it is the current one. -/
theorem live_eq_some_current {d : Delegable α} (h : d.live.isSome) : d.live = some d.current := by
  obtain ⟨a, ha⟩ := Option.isSome_iff_exists.mp h
  rw [current, ha]
  rfl

/-- With nothing delegated, the home copy is the current one. -/
theorem current_of_live_eq_none {d : Delegable α} (h : d.live = none) : d.current = d.base := by
  unfold current
  rw [h]
  rfl

/-- With nothing delegated, a write goes to the home copy. -/
theorem write_of_home {d : Delegable α} (a : α) (h : d.live = none) : d.write a = ⟨a, none⟩ := by
  unfold write
  rw [h]

/-- A write to a live copy leaves the home copy, and stays live. -/
theorem write_of_live {d : Delegable α} (a : α) (h : d.live ≠ none) :
    d.write a = ⟨d.base, some a⟩ := by
  obtain ⟨b, _ | c⟩ := d
  · exact absurd rfl h
  · rfl

/-- A write to a live copy stays live. -/
theorem write_live_ne_none {d : Delegable α} (a : α) (h : d.live ≠ none) :
    (d.write a).live ≠ none := by
  rw [write_of_live a h]
  exact Option.some_ne_none a

/-- A write leaves the home copy, or replaces it together with the current one. -/
theorem base_write (d : Delegable α) (a : α) :
    (d.write a).base = d.base ∨ (d.write a).base = a := by
  unfold write
  split
  · exact .inl rfl
  · exact .inr rfl

/-! ## Both copies -/

/-- The home copy and the current one satisfy `p`. -/
def Both (p : α → Prop) (d : Delegable α) : Prop := p d.base ∧ p d.current

/-- What both copies satisfy, the live one does. -/
theorem Both.live {p : α → Prop} {d : Delegable α} {a : α} (h : d.Both p)
    (hlive : d.live = some a) : p a := by
  have hcurrent := h.2
  rwa [current, hlive] at hcurrent

/-- A write of such a value keeps what holds of both copies. -/
theorem Both.write {p : α → Prop} {d : Delegable α} {a : α} (h : d.Both p) (ha : p a) :
    (d.write a).Both p := by
  refine ⟨?_, by rwa [current_write]⟩
  rcases base_write d a with hbase | hbase
  · rw [hbase]
    exact h.1
  · rwa [hbase]

/-- A delegation keeps what holds of both copies. -/
theorem Both.delegate {p : α → Prop} {d d' : Delegable α} (h : d.Both p)
    (hrun : d.delegate = some d') : d'.Both p := by
  obtain ⟨hbase, hcurrent⟩ := delegate_eq_some hrun
  exact ⟨hbase ▸ h.1, hcurrent ▸ h.2⟩

/-- So does a commit. -/
theorem Both.commit {p : α → Prop} {d d' : Delegable α} (h : d.Both p)
    (hrun : d.commit = some d') : d'.Both p := by
  obtain ⟨hbase, hcurrent⟩ := commit_eq_some hrun
  exact ⟨hbase ▸ h.2, hcurrent ▸ h.2⟩

/-- So does undelegation. -/
theorem Both.undelegate {p : α → Prop} {d d' : Delegable α} (h : d.Both p)
    (hrun : d.undelegate = some d') : d'.Both p := by
  obtain ⟨hbase, hcurrent, -⟩ := undelegate_eq_some hrun
  exact ⟨hbase ▸ h.2, hcurrent ▸ h.2⟩

/-! ## Moving forward -/

/-- Both copies move forward in `R`, and the home copy stays behind the current one. -/
structure Forward (R : α → α → Prop) (d d' : Delegable α) : Prop where
  order : R d'.base d'.current
  base : R d.base d'.base
  current : R d.current d'.current

section Forward

variable {R : α → α → Prop} {d d' : Delegable α} (hrefl : ∀ a, R a a)
include hrefl

/-- A write that moves the current copy forward leaves the home copy, or brings it along. -/
theorem Forward.write (htrans : ∀ {a b c}, R a b → R b c → R a c) (hd : R d.base d.current) {a : α}
    (h : R d.current a) : Forward R d (d.write a) := by
  refine ⟨?_, ?_, by rwa [current_write]⟩
  all_goals rcases base_write d a with hbase | hbase
  · rw [hbase, current_write]
    exact htrans hd h
  · rw [hbase, current_write]
    exact hrefl a
  · rw [hbase]
    exact hrefl d.base
  · rw [hbase]
    exact htrans hd h

/-- A delegation moves forward. -/
theorem Forward.delegate (hd : R d.base d.current) (hrun : d.delegate = some d') :
    Forward R d d' := by
  obtain ⟨hbase, hcurrent⟩ := delegate_eq_some hrun
  rw [← hbase, ← hcurrent] at hd
  exact ⟨hd, hbase ▸ hrefl _, hcurrent ▸ hrefl _⟩

/-- What is published is the current copy. -/
theorem Forward.publish (hd : R d.base d.current) (hbase : d'.base = d.current)
    (hcurrent : d'.current = d.current) : Forward R d d' :=
  ⟨by rw [hbase, hcurrent]; exact hrefl _, hbase ▸ hd, hcurrent ▸ hrefl _⟩

/-- So does a commit. -/
theorem Forward.commit (hd : R d.base d.current) (hrun : d.commit = some d') : Forward R d d' :=
  .publish hrefl hd (commit_eq_some hrun).1 (commit_eq_some hrun).2

/-- So does undelegation. -/
theorem Forward.undelegate (hd : R d.base d.current) (hrun : d.undelegate = some d') :
    Forward R d d' :=
  .publish hrefl hd (undelegate_eq_some hrun).1 (undelegate_eq_some hrun).2.1

end Forward

/-! ## Steps -/

/-- What can happen to a delegated value, where `W` says what a write may make of the current
copy. -/
inductive Step (W : α → α → Prop) (d : Delegable α) : Delegable α → Prop
  | same : Step W d d
  | write {a : α} (run : W d.current a) : Step W d (d.write a)
  | delegate {d' : Delegable α} (run : d.delegate = some d') : Step W d d'
  | commit {d' : Delegable α} (run : d.commit = some d') : Step W d d'
  | undelegate {d' : Delegable α} (run : d.undelegate = some d') : Step W d d'

section Step

variable {W : α → α → Prop} {d d' : Delegable α}

/-- What every write keeps of the current copy holds of both copies. -/
theorem Step.both {p : α → Prop} (hw : ∀ {a b}, p a → W a b → p b) (hd : d.Both p)
    (h : Step W d d') : d'.Both p := by
  cases h with
  | same => exact hd
  | write run => exact hd.write (hw hd.2 run)
  | delegate run => exact hd.delegate run
  | commit run => exact hd.commit run
  | undelegate run => exact hd.undelegate run

/-- A write may count on whatever the current copy satisfies. -/
theorem Step.from_current (h : Step W d d') :
    Step (fun a b => a = d.current ∧ W a b) d d' := by
  cases h with
  | same => exact .same
  | write run => exact .write ⟨rfl, run⟩
  | delegate run => exact .delegate run
  | commit run => exact .commit run
  | undelegate run => exact .undelegate run

/-- The home copy stays as it is, or becomes the current one. -/
theorem Step.base (h : Step W d d') : d'.base = d.base ∨ d'.base = d'.current := by
  cases h with
  | same => exact .inl rfl
  | write run =>
    rw [current_write]
    exact base_write d _
  | delegate run => exact .inl (delegate_eq_some run).1
  | commit run =>
    obtain ⟨hbase, hcurrent⟩ := commit_eq_some run
    exact .inr (hbase.trans hcurrent.symm)
  | undelegate run =>
    obtain ⟨hbase, hcurrent, -⟩ := undelegate_eq_some run
    exact .inr (hbase.trans hcurrent.symm)

/-- The current copy stays as it is, or is written. -/
theorem Step.current (h : Step W d d') : d'.current = d.current ∨ W d.current d'.current := by
  cases h with
  | same => exact .inl rfl
  | write run =>
    rw [current_write]
    exact .inr run
  | delegate run => exact .inl (delegate_eq_some run).2
  | commit run => exact .inl (commit_eq_some run).2
  | undelegate run => exact .inl (undelegate_eq_some run).2.1

end Step

/-! ## Snapshots -/

section Snapshots

variable [DecidableEq α] {d : ℕ → Delegable α} {n i : ℕ}

/-- The last time up to `i` at which the home copy was the current one. -/
def lastInStep (d : ℕ → Delegable α) (i : ℕ) : ℕ :=
  Nat.findGreatest (fun j => (d j).base = (d j).current) i

/-- The last time of publication is not in the future. -/
theorem lastInStep_le (d : ℕ → Delegable α) (i : ℕ) : lastInStep d i ≤ i :=
  Nat.findGreatest_le i

/-- The last time of publication does not go back. -/
theorem lastInStep_mono (d : ℕ → Delegable α) : Monotone (lastInStep d) := fun _ _ h =>
  Nat.findGreatest_mono_right _ h

/-- Whenever the home copy is the current one, that is the last time. -/
theorem lastInStep_self (h : (d i).base = (d i).current) : lastInStep d i = i :=
  Nat.findGreatest_eq h

/-- A home copy that only changes by catching up is the current copy of the last time that it
did. -/
theorem base_eq_lastInStep (h0 : (d 0).base = (d 0).current)
    (hstep : ∀ i < n, (d (i + 1)).base = (d i).base ∨ (d (i + 1)).base = (d (i + 1)).current)
    (hi : i ≤ n) : (d i).base = (d (lastInStep d i)).current := by
  induction i with
  | zero => rw [lastInStep_self h0, h0]
  | succ i ih =>
    by_cases hnow : (d (i + 1)).base = (d (i + 1)).current
    · rw [lastInStep_self hnow, hnow]
    · -- Nothing was published, so both the home copy and the last time stay.
      have hlast : lastInStep d (i + 1) = lastInStep d i := Nat.findGreatest_of_not hnow
      rw [(hstep i (by omega)).resolve_right hnow, hlast, ih (by omega)]

end Snapshots

end Delegable
