import Mathlib.Tactic

/-!
# Registers

Entries that are opened under keys and closed by key, where a key may be used again once its entry
is closed. A register remembers every entry that was opened, by its number in that order, and tells
the live entries from the closed ones, with what closed them. Whatever the keys, an entry is closed
at most once.
-/

/-- The entries that were ever opened, those that are live, with their numbers, and those that were
closed, with what closed them. -/
structure Register (α γ : Type*) where
  opened : List α
  live : List (α × ℕ)
  closed : List ((α × ℕ) × γ)

namespace Register

variable {α κ γ : Type*}

/-- Nothing was opened. -/
def empty : Register α γ := ⟨[], [], []⟩

/-- An entry is opened. -/
def add (g : Register α γ) (a : α) : Register α γ :=
  { g with opened := g.opened ++ [a], live := g.live ++ [(a, g.opened.length)] }

/-- The first live entry under a key is closed. -/
def close [DecidableEq κ] (key : α → κ) (g : Register α γ) (k : κ) (c : γ) : Register α γ :=
  match g.live.find? fun x => key x.1 = k with
  | some x => { g with
      live := g.live.eraseP fun x => key x.1 = k
      closed := g.closed ++ [(x, c)] }
  | none => g

/-- What closing does to the entry that it finds. -/
theorem close_of_find [DecidableEq κ] {key : α → κ} {g : Register α γ} {k : κ} {x : α × ℕ}
    (h : (g.live.find? fun x => key x.1 = k) = some x) (c : γ) :
    g.close key k c = { g with
      live := g.live.eraseP fun x => key x.1 = k
      closed := g.closed ++ [(x, c)] } := by
  rw [close, h]

/-- Every entry that was opened is live or closed, once. -/
def Accounted (g : Register α γ) : Prop :=
  g.opened.zipIdx.Perm (g.live ++ g.closed.map Prod.fst)

/-- Erasing the first element that passes a test takes out the one that is found. -/
theorem cons_eraseP_perm {p : α → Bool} {a : α} {l : List α} (h : l.find? p = some a) :
    (a :: l.eraseP p).Perm l := by
  induction l with
  | nil => cases h
  | cons b l ih =>
    by_cases hb : p b = true
    · rw [List.find?_cons_of_pos hb, Option.some.injEq] at h
      rw [List.eraseP_cons_of_pos hb, h]
    · rw [List.find?_cons_of_neg hb] at h
      rw [List.eraseP_cons_of_neg hb]
      exact (List.Perm.swap _ _ _).trans ((ih h).cons b)

/-- An empty register is accounted for. -/
theorem accounted_empty : (empty : Register α γ).Accounted := .refl _

/-- It stays so when something is entered. -/
theorem Accounted.add {g : Register α γ} (hg : g.Accounted) (a : α) : (g.add a).Accounted := by
  have hnumber : (g.opened ++ [a]).zipIdx = g.opened.zipIdx ++ [(a, g.opened.length)] := by
    simp [List.zipIdx_append]
  rw [Accounted, Register.add, hnumber]
  -- The new entry stands after the live ones, before the closed ones.
  calc (g.opened.zipIdx ++ [(a, g.opened.length)]).Perm
        ((a, g.opened.length) :: g.opened.zipIdx) := List.perm_append_singleton _ _
    _ |>.Perm ((a, g.opened.length) :: (g.live ++ g.closed.map Prod.fst)) := hg.cons _
    _ |>.Perm (g.live ++ (a, g.opened.length) :: g.closed.map Prod.fst) :=
      List.perm_middle.symm
    _ = g.live ++ [(a, g.opened.length)] ++ g.closed.map Prod.fst := by simp

/-- It stays so when something is closed. -/
theorem Accounted.close [DecidableEq κ] {key : α → κ} {g : Register α γ} (hg : g.Accounted)
    (k : κ) (c : γ) : (g.close key k c).Accounted := by
  unfold Register.close
  split
  · rename_i x hx
    have hperm := cons_eraseP_perm hx
    rw [Accounted]
    calc g.opened.zipIdx.Perm (g.live ++ g.closed.map Prod.fst) := hg
      _ |>.Perm (x :: (g.live.eraseP (fun x => key x.1 = k) ++ g.closed.map Prod.fst)) :=
        hperm.symm.append_right _
      _ |>.Perm (g.live.eraseP (fun x => key x.1 = k) ++ g.closed.map Prod.fst ++ [x]) :=
        (List.perm_append_singleton _ _).symm
      _ = g.live.eraseP (fun x => key x.1 = k) ++ (g.closed ++ [(x, c)]).map Prod.fst := by simp
  · exact hg

/-- No entry is closed twice. -/
theorem Accounted.closed_nodup {g : Register α γ} (hg : g.Accounted) :
    (g.closed.map fun c => c.1.2).Nodup := by
  have hnumbers : (g.opened.zipIdx.map Prod.snd).Nodup := by
    rw [List.zipIdx_map_snd]
    exact List.nodup_range'
  rw [(hg.map Prod.snd).nodup_iff, List.map_append, List.map_map] at hnumbers
  exact hnumbers.of_append_right

/-- A closed entry was opened, under its number. -/
theorem Accounted.opened_of_closed {g : Register α γ} (hg : g.Accounted) {x : α × ℕ} {c : γ}
    (hx : (x, c) ∈ g.closed) : g.opened[x.2]? = some x.1 := by
  have hmem : x ∈ g.opened.zipIdx :=
    hg.mem_iff.mpr (List.mem_append_right _ (List.mem_map.mpr ⟨_, hx, rfl⟩))
  exact List.mk_mem_zipIdx_iff_getElem?.mp hmem

/-- So was a live one. -/
theorem Accounted.opened_of_live {g : Register α γ} (hg : g.Accounted) {x : α × ℕ}
    (hx : x ∈ g.live) : g.opened[x.2]? = some x.1 :=
  List.mk_mem_zipIdx_iff_getElem?.mp (hg.mem_iff.mpr (List.mem_append_left _ hx))

end Register
