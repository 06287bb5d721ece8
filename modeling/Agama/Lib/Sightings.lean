import Mathlib.Tactic

/-!
# Sightings

A watcher of entries that live under keys, where a key may be used again once its entry is gone. In
each of its passes it sees every live entry, and what it keeps from a pass is a time for a key. Such
a time stands for the entry as long as whatever lives under the key was seen by then.
-/

namespace Sightings

/-- A pass, with the entries that it sees. -/
structure Pass (τ α : Type*) where
  time : τ
  live : List α

variable {τ α κ : Type*} [Preorder τ] {key : α → κ} {passes : List (Pass τ α)} {live : List α}
  {k : κ} {t : τ}

/-- Whatever lives under a key was seen in a pass by a time. -/
def SeenBy (key : α → κ) (passes : List (Pass τ α)) (live : List α) (k : κ) (t : τ) : Prop :=
  ∀ x ∈ live, key x = k → ∃ p ∈ passes, x ∈ p.live ∧ p.time ≤ t

/-- A pass sees whatever lives. -/
theorem seenBy_pass (hp : ⟨t, live⟩ ∈ passes) : SeenBy key passes live k t :=
  fun _ hx _ => ⟨_, hp, hx, le_rfl⟩

/-- It was seen by any later time too. -/
theorem SeenBy.later {u : τ} (h : SeenBy key passes live k t) (hle : t ≤ u) :
    SeenBy key passes live k u := by
  intro x hx hk
  obtain ⟨p, hp, hxp, ht⟩ := h x hx hk
  exact ⟨p, hp, hxp, ht.trans hle⟩

/-- It still was after more passes. -/
theorem SeenBy.append (h : SeenBy key passes live k t) (more : List (Pass τ α)) :
    SeenBy key (passes ++ more) live k t := by
  intro x hx hk
  obtain ⟨p, hp, hxp, ht⟩ := h x hx hk
  exact ⟨p, List.mem_append_left _ hp, hxp, ht⟩

/-- Entries come and go as long as none comes under the key. -/
theorem SeenBy.of_live {live' : List α} (h : SeenBy key passes live k t)
    (hsub : ∀ x ∈ live', key x = k → x ∈ live) : SeenBy key passes live' k t :=
  fun x hx hk => h x (hsub x hx hk) hk

end Sightings
