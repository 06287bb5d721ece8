import Mathlib.Tactic

/-!
# Member lists

A list of keys with an owner, a session key and some admitted viewers, and its rewriting for a new
session key: the owner, the new key, and whoever was listed besides the owner and the old key. The
rewritten list holds the owner, the new key and the viewers, each once, exactly when no two of these
roles had fallen on one key, and no key of an older session was left on the list.
-/

namespace MemberList

variable {κ : Type*} [DecidableEq κ]

/-- Whoever is listed besides the owner and a session key. -/
def others (owner session : κ) (listed : List κ) : List κ :=
  listed.filter fun k => k ≠ owner ∧ k ≠ session

/-- The list with a new session key in place of the old one. -/
def rotated (owner old new : κ) (listed : List κ) : List κ :=
  owner :: new :: others owner old listed

/-- The rewritten list has the owner, the new key, and every place of the old list that is neither
the owner's nor the old key's. -/
theorem length_rotated (owner old new : κ) (listed : List κ) :
    (rotated owner old new listed).length =
      listed.countP (fun k => k ≠ owner ∧ k ≠ old) + 2 := by
  rw [rotated, others, List.length_cons, List.length_cons, List.countP_eq_length_filter]

/-- The owner, the session key and the admitted viewers are listed once each, and nobody else is. -/
def Exactly (owner session : κ) (admitted listed : List κ) : Prop :=
  listed.Nodup ∧ ∀ k, k ∈ listed ↔ k = owner ∨ k = session ∨ k ∈ admitted

/-- What a list and the keys must be for the rewriting to leave exactly whom it should. -/
structure Clean (owner old new : κ) (admitted listed : List κ) : Prop where
  notOwner : new ≠ owner
  notListed : new ∈ listed → new = old
  notViewer : old ∈ admitted → old = owner ∨ old = new
  accounted : ∀ k ∈ listed, k = owner ∨ k = old ∨ k ∈ admitted
  distinct : (others owner old listed).Nodup

instance (owner old new : κ) (admitted listed : List κ) :
    Decidable (Clean owner old new admitted listed) :=
  decidable_of_iff (new ≠ owner ∧ (new ∈ listed → new = old) ∧
      (old ∈ admitted → old = owner ∨ old = new) ∧
      (∀ k ∈ listed, k = owner ∨ k = old ∨ k ∈ admitted) ∧ (others owner old listed).Nodup)
    ⟨fun ⟨h₁, h₂, h₃, h₄, h₅⟩ => ⟨h₁, h₂, h₃, h₄, h₅⟩,
      fun ⟨h₁, h₂, h₃, h₄, h₅⟩ => ⟨h₁, h₂, h₃, h₄, h₅⟩⟩

/-- The others are those listed that are neither the owner nor the session key. -/
@[simp]
theorem mem_others {owner session k : κ} {listed : List κ} :
    k ∈ others owner session listed ↔ k ∈ listed ∧ k ≠ owner ∧ k ≠ session := by
  simp only [others, List.mem_filter, decide_eq_true_eq]

/-- Where every viewer is listed, the rewriting leaves exactly whom it should if and only if it is
clean. -/
theorem exactly_rotated_iff (owner old new : κ) {admitted listed : List κ}
    (hlisted : ∀ v ∈ admitted, v ∈ listed) :
    Exactly owner new admitted (rotated owner old new listed) ↔
      Clean owner old new admitted listed := by
  simp only [Exactly, rotated, List.nodup_cons, List.mem_cons, mem_others, not_or]
  constructor
  · rintro ⟨⟨⟨howner, -⟩, hnew, hothers⟩, hmem⟩
    refine ⟨Ne.symm howner, fun hin => ?_, fun hin => ?_, fun k hk => ?_, hothers⟩
    · by_contra hne
      exact hnew ⟨hin, Ne.symm howner, hne⟩
    · rcases (hmem old).mpr (.inr (.inr hin)) with h | h | h
      · exact .inl h
      · exact .inr h
      · exact absurd rfl h.2.2
    · by_contra hnone
      rw [not_or, not_or] at hnone
      obtain ⟨hk₁, hk₂, hk₃⟩ := hnone
      rcases (hmem k).mp (.inr (.inr ⟨hk, hk₁, hk₂⟩)) with h | h | h
      · exact hk₁ h
      · -- The new key is not among the others, or it would be listed twice.
        subst h
        exact hnew ⟨hk, hk₁, hk₂⟩
      · exact hk₃ h
  · intro h
    refine ⟨⟨⟨Ne.symm h.notOwner, fun hin => hin.2.1 rfl⟩, fun hin => ?_, h.distinct⟩,
      fun k => ⟨?_, ?_⟩⟩
    · exact hin.2.2 (h.notListed hin.1)
    · rintro (rfl | rfl | ⟨hk, hk₁, hk₂⟩)
      · exact .inl rfl
      · exact .inr (.inl rfl)
      · rcases h.accounted k hk with h' | h' | h'
        · exact absurd h' hk₁
        · exact absurd h' hk₂
        · exact .inr (.inr h')
    · rintro (rfl | rfl | hk)
      · exact .inl rfl
      · exact .inr (.inl rfl)
      · by_cases hold : k = old
        · subst hold
          rcases h.notViewer hk with h' | h'
          · exact .inl h'
          · exact .inr (.inl h')
        · by_cases howner : k = owner
          · exact .inl howner
          · exact .inr (.inr ⟨hlisted k hk, howner, hold⟩)

end MemberList
