import Mathlib.Logic.Relation
import Mathlib.Tactic

/-!
# Runs

The runs of a step relation are its reflexive transitive closure, `Relation.ReflTransGen`, and what
every step preserves, every run preserves.
-/

namespace Runs

open Relation

variable {σ : Type*} {R : σ → σ → Prop} {s t : σ}

/-- What every step preserves holds along every run. -/
theorem preserves {I : σ → Prop} (hstep : ∀ {s t}, I s → R s t → I t) (hrun : ReflTransGen R s t)
    (hs : I s) : I t := by
  induction hrun with
  | refl => exact hs
  | tail _ hlast ih => exact hstep ih hlast

/-! ## The last event -/

section Log

variable {μ : Type*} {R : Option μ → σ → σ → Prop} {ls : List μ}

/-- A run with what its steps record, the last entry first. Some steps record nothing. -/
inductive Log (R : Option μ → σ → σ → Prop) (s : σ) : List μ → σ → Prop
  | nil : Log R s [] s
  | silent {ls : List μ} {t u : σ} (run : Log R s ls t) (step : R none t u) : Log R s ls u
  | entry {ls : List μ} {l : μ} {t u : σ} (run : Log R s ls t) (step : R (some l) t u) :
      Log R s (l :: ls) u

/-- A run from where its first step leads, with what that step records, is a run. -/
theorem Log.head {l : Option μ} (hstep : R l s t) {u : σ} (hrun : Log R t ls u) :
    Log R s (ls ++ l.toList) u := by
  induction hrun with
  | nil =>
    cases l with
    | none => exact .silent .nil hstep
    | some l => exact .entry .nil hstep
  | silent _ hlast ih => exact .silent ih hlast
  | entry _ hlast ih => exact .entry ih hlast

/-- What holds of the empty record, and every step and its entry preserve, holds of every record. -/
theorem Log.preserves {I : List μ → σ → Prop} (hrun : Log R s ls t) (hs : I [] s)
    (hsilent : ∀ {ls t u}, I ls t → R none t u → I ls u)
    (hentry : ∀ {ls l t u}, I ls t → R (some l) t u → I (l :: ls) u) : I ls t := by
  induction hrun with
  | nil => exact hs
  | silent _ hlast ih => exact hsilent ih hlast
  | entry _ hlast ih => exact hentry ih hlast

end Log

/-! ## Replays -/

section Follow

variable {α ε : Type*}

/-- The state that a list of actions leads to, without those that fail. -/
def follow (next : σ → α → Except ε σ) (s : σ) : List α → σ
  | [] => s
  | a :: as =>
    match next s a with
    | .ok t => follow next t as
    | .error _ => follow next s as

/-- Where every action that succeeds is a step, it is a run. -/
theorem follow_run (next : σ → α → Except ε σ) (hstep : ∀ s a t, next s a = .ok t → R s t)
    (s : σ) (as : List α) : ReflTransGen R s (follow next s as) := by
  induction as generalizing s with
  | nil => exact .refl
  | cons a as ih =>
    unfold follow
    cases hnext : next s a with
    | error e => exact ih s
    | ok t => exact .head (hstep s a t hnext) (ih t)

end Follow

/-! ## Two runs -/

section Lockstep

variable {α β μ ε : Type*} {R : α → σ → σ → Prop} {same : α → α → Prop} {view : σ → β}
  {label : α → μ} {next : β → μ → Except ε β}

/-- Two runs take one step each, by actions that `same` relates. -/
def Lockstep (R : α → σ → σ → Prop) (same : α → α → Prop) (s t : σ × σ) : Prop :=
  ∃ a b, same a b ∧ R a s.1 t.1 ∧ R b s.2 t.2

/-- A view that moves by a function of itself and of what related actions share stays the same in
both runs. -/
theorem view_lockstep {s t : σ × σ} (hrun : ReflTransGen (Lockstep R same) s t)
    (hview : ∀ {a s t}, R a s t → next (view s) (label a) = .ok (view t))
    (hlabel : ∀ {a b}, same a b → label a = label b) (hs : view s.1 = view s.2) :
    view t.1 = view t.2 := by
  refine preserves (I := fun s : σ × σ => view s.1 = view s.2) ?_ hrun hs
  rintro s t hs ⟨a, b, hsame, hleft, hright⟩
  have hl := hview hleft
  rw [hlabel hsame, hs, hview hright, Except.ok.injEq] at hl
  exact hl.symm

end Lockstep

end Runs
