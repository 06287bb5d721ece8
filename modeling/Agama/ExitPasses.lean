import Agama.Lib.Sightings
import Agama.Payouts

/-!
# The keeper's passes over the exit book

`payExits` reads the exit book and pays, one by one, the open tickets that it first saw
`EXIT_GRACE_S` seconds ago or earlier. A payment that throws ends the pass, so the pass pays the due
tickets up to the first one that cannot be paid, however often it is tried again
(`pays_every_due_iff`).

When it first saw a ticket, it keeps by the ticket's id, and forgets it at the start of a pass that
does not find the id open. A ticket that is opened under the id of one that was closed in between
inherits its time, and is paid without any grace. Where no ticket is opened under an id that the
keeper still goes by, the grace holds in every run (`grace_respected`).
-/

namespace Agama

open Sightings

/-! ## One pass -/

/-- `EXIT_GRACE_S`, where the environment sets no other. -/
def exitGraceS : ℤ := 20

/-- When the keeper first saw the open tickets, in milliseconds, by their ids. -/
abbrev Seen := U32 → Option ℤ

/-- Forget every id that is not open. -/
def Seen.prune (seen : Seen) (opened : List Exit) : Seen := fun id =>
  if ∃ e ∈ opened, e.groupId = id then seen id else none

/-- Note an id, unless it is noted already. -/
def Seen.note (seen : Seen) (id : U32) (now : ℤ) : Seen :=
  if (seen id).isSome then seen else Function.update seen id (some now)

/-- The ticket under an id was first seen too short a time ago; an id that is not noted yet is seen
now. -/
def Seen.inGrace (seen : Seen) (graceS now : ℤ) (id : U32) : Bool :=
  now - (seen id).getD now < graceS * 1000

/-- How a pass ends: with the times that it leaves, what its payments did, and whether one threw. -/
structure PassEnd (σ : Type) where
  seen : Seen
  state : σ
  threw : Bool

/-- The loop of `payExits` over the open tickets. -/
def payLoop {σ : Type} (graceS now : ℤ) (pay : σ → Exit → Result σ) :
    Seen → σ → List Exit → PassEnd σ
  | seen, s, [] => ⟨seen, s, false⟩
  | seen, s, e :: es =>
    let seen := seen.note e.groupId now
    if seen.inGrace graceS now e.groupId then payLoop graceS now pay seen s es
    else
      match pay s e with
      | .ok s => payLoop graceS now pay seen s es
      -- Nothing in the loop catches what `sendAndPoll` throws.
      | .error _ => ⟨seen, s, true⟩

/-- `payExits`, on the exit book that it fetched. -/
def payExits {σ : Type} (graceS : ℤ) (pay : σ → Exit → Result σ) (seen : Seen) (s : σ)
    (book : ExitBook) (now : ℤ) : PassEnd σ :=
  let opened := book.slots.toList.filter Exit.isOpen
  payLoop graceS now pay (seen.prune opened) s opened

/-- A noted id has a time. -/
theorem Seen.note_self (seen : Seen) (id : U32) (now : ℤ) :
    seen.note id now id = some ((seen id).getD now) := by
  unfold note
  split
  · rename_i hsome
    obtain ⟨t, ht⟩ := Option.isSome_iff_exists.mp hsome
    rw [ht, Option.getD_some]
  · rename_i hnone
    rw [Function.update_self, Option.not_isSome_iff_eq_none.mp hnone, Option.getD_none]

/-- Noting leaves the other ids. -/
theorem Seen.note_of_ne {seen : Seen} {id id' : U32} (now : ℤ) (h : id' ≠ id) :
    seen.note id now id' = seen id' := by
  unfold note
  split
  · rfl
  · exact Function.update_of_ne h _ _

/-- Noting an id makes no ticket due or not. -/
theorem Seen.inGrace_note (seen : Seen) (graceS now : ℤ) (id id' : U32) :
    (seen.note id now).inGrace graceS now id' = seen.inGrace graceS now id' := by
  unfold inGrace
  by_cases h : id' = id
  · rw [h, note_self, Option.getD_some]
  · rw [note_of_ne now h]

/-- Pruning leaves the times of the open tickets. -/
theorem Seen.prune_of_mem {seen : Seen} {opened : List Exit} {e : Exit} (h : e ∈ opened) :
    seen.prune opened e.groupId = seen e.groupId :=
  if_pos ⟨e, h, rfl⟩

/-! ## A payment that fails -/

/-- The elements of a list that pass a test are its first ones exactly when none that fails stands
before one that passes. -/
theorem takeWhile_eq_filter_iff {α : Type} {p : α → Bool} {l : List α} :
    l.takeWhile p = l.filter p ↔ l.Pairwise fun a b => p b = true → p a = true := by
  induction l with
  | nil => simp
  | cons a l ih =>
    rw [List.pairwise_cons]
    by_cases ha : p a = true
    · rw [List.takeWhile_cons_of_pos ha, List.filter_cons_of_pos ha, List.cons_inj_right, ih]
      exact ⟨fun h => ⟨fun _ _ _ => ha, h⟩, And.right⟩
    · rw [List.takeWhile_cons_of_neg ha, List.filter_cons_of_neg ha, eq_comm,
        List.filter_eq_nil_iff]
      constructor
      · intro h
        refine ⟨fun b hb hpb => absurd hpb (h b hb), ?_⟩
        exact List.pairwise_of_forall_mem_list fun x _ y hy hpy => absurd hpy (h y hy)
      · exact fun h b hb hpb => ha (h.1 b hb hpb)

/-- Payments of which those of some tickets succeed, whatever the others do; the state is what was
paid. -/
def payWhere (succeeds : Exit → Bool) (paid : List Exit) (e : Exit) : Result (List Exit) :=
  if succeeds e then .ok (paid ++ [e]) else .error .external

/-- The open tickets past their grace period, in slot order. -/
def ExitBook.due (book : ExitBook) (seen : Seen) (graceS now : ℤ) : List Exit :=
  (book.slots.toList.filter Exit.isOpen).filter fun e => !seen.inGrace graceS now e.groupId

/-- The loop pays the due tickets up to the first one whose payment fails. -/
theorem payLoop_state (graceS now : ℤ) (succeeds : Exit → Bool) (seen : Seen)
    (paid es : List Exit) :
    (payLoop graceS now (payWhere succeeds) seen paid es).state =
      paid ++ (es.filter fun e => !seen.inGrace graceS now e.groupId).takeWhile succeeds := by
  induction es generalizing seen paid with
  | nil => simp [payLoop]
  | cons e es ih =>
    have hrest (paid : List Exit) := ih (seen.note e.groupId now) paid
    simp only [Seen.inGrace_note] at hrest
    unfold payLoop
    simp only [Seen.inGrace_note]
    by_cases hgrace : seen.inGrace graceS now e.groupId = true
    · rw [if_pos hgrace, hrest, List.filter_cons_of_neg (by simpa using hgrace)]
    · rw [if_neg hgrace, List.filter_cons_of_pos (by simpa using hgrace)]
      by_cases hpays : succeeds e = true
      · simp only [payWhere, if_pos hpays, hrest, List.takeWhile_cons_of_pos hpays,
          List.append_assoc, List.singleton_append]
      · simp only [payWhere, if_neg hpays, List.takeWhile_cons_of_neg hpays, List.append_nil]

/-- A pass pays the due tickets up to the first one whose payment fails. -/
theorem payExits_state (graceS now : ℤ) (succeeds : Exit → Bool) (seen : Seen) (book : ExitBook) :
    (payExits graceS (payWhere succeeds) seen [] book now).state =
      (book.due seen graceS now).takeWhile succeeds := by
  have hdue : ((book.slots.toList.filter Exit.isOpen).filter fun e =>
      !(seen.prune (book.slots.toList.filter Exit.isOpen)).inGrace graceS now e.groupId) =
        book.due seen graceS now := by
    refine List.filter_congr fun e he => ?_
    rw [Seen.inGrace, Seen.inGrace, Seen.prune_of_mem he]
  rw [payExits, payLoop_state, hdue, List.nil_append]

/-- A pass pays every due ticket whose own payment succeeds, and no other, exactly when in slot
order no due ticket whose payment fails stands before one whose payment succeeds. -/
theorem pays_every_due_iff (graceS now : ℤ) (succeeds : Exit → Bool) (seen : Seen)
    (book : ExitBook) :
    (payExits graceS (payWhere succeeds) seen [] book now).state =
        (book.due seen graceS now).filter succeeds ↔
      (book.due seen graceS now).Pairwise fun e f => succeeds f = true → succeeds e = true := by
  rw [payExits_state, takeWhile_eq_filter_iff]

/-- Two tickets of the devnet book, in its first two slots. -/
def twoTickets : ExitBook :=
  ⟨devnetVault, ⟨⟨key 7, 30000000, 0, 0, 1, 1⟩ :: ⟨key 8, 20000000, 0, 0, 2, 1⟩ ::
    List.replicate 14 Exit.default, rfl⟩⟩

/-- Both tickets were seen at time zero. -/
def bothSeen : Seen := fun id => if id = 1 ∨ id = 2 then some 0 else none

/-- From 20 seconds on, both are due. -/
theorem twoTickets_due {now : ℤ} (h : 20000 ≤ now) :
    twoTickets.due bothSeen exitGraceS now =
      [⟨key 7, 30000000, 0, 0, 1, 1⟩, ⟨key 8, 20000000, 0, 0, 2, 1⟩] := by
  have hlate : ¬ now - 0 < exitGraceS * 1000 := by
    rw [exitGraceS]
    omega
  have hfirst : bothSeen.inGrace exitGraceS now 1 = false := decide_eq_false hlate
  have hsecond : bothSeen.inGrace exitGraceS now 2 = false := decide_eq_false hlate
  have hopen : twoTickets.slots.toList.filter Exit.isOpen =
      [⟨key 7, 30000000, 0, 0, 1, 1⟩, ⟨key 8, 20000000, 0, 0, 2, 1⟩] := by decide +kernel
  simp only [ExitBook.due, hopen, List.filter_cons, hfirst, hsecond, List.filter_nil]
  rfl

/-- The payment of the first ticket fails: the second one is due, and its own payment would succeed,
but neither the pass at 20000 ms nor any later one pays it. -/
theorem failing_ticket_starves_next :
    (twoTickets.due bothSeen exitGraceS 20000).filter (fun e => e.groupId ≠ 1) =
        [⟨key 8, 20000000, 0, 0, 2, 1⟩] ∧
      ∀ now, 20000 ≤ now →
        (payExits exitGraceS (payWhere fun e => e.groupId ≠ 1) bothSeen [] twoTickets now).state =
          [] := by
  refine ⟨?_, fun now hnow => ?_⟩
  · rw [twoTickets_due le_rfl]
    decide +kernel
  · rw [payExits_state, twoTickets_due hnow]
    decide +kernel

/-! ## Passes among the others -/

/-- The accounts with the register of tickets, and the tickets that were paid, each with the time of
the pass that sent its payment. -/
structure Books where
  world : World
  tickets : Tickets
  paid : List (ℤ × (Opening × ℕ))

/-- A payment of a ticket, as the pass at time `now` read it, lands: it closes and pays whichever
ticket is open under the id. -/
def Books.pay (queue : QueueProgram) (k : PrivateKeeper) (rt : Runtime) (ts now : ℤ) (b : Books)
    (e : Exit) : Result Books := do
  let world ← b.world.payExit queue k rt ts e
  pure {
    world
    tickets := b.tickets.record (k.settle rt ts e) b.world world
    paid := b.paid ++
      ((b.tickets.live.find? fun x => x.1.groupId = e.groupId).map fun x => (now, x)).toList }

/-- The keeper among the others. -/
structure Passes where
  books : Books
  seen : Seen
  /-- The time of the pass in progress, and the tickets that it has not come to. -/
  pass : Option (ℤ × List Exit)
  /-- Payments that a pass gave up on, with its time, and that may still land. -/
  late : List (ℤ × Exit)
  /-- The passes that began, each with the tickets that were open. -/
  log : List (Pass ℤ (Opening × ℕ))

/-- What happens next. -/
inductive PassEvent where
  /-- Somebody acts, between two passes or during one. -/
  | act (a : Action)
  /-- `payExits` fetches the exit book. -/
  | begin (now : ℤ)
  /-- Its loop comes to a ticket in its grace period. -/
  | skip
  /-- It comes to one that is due, and the payment lands in time. -/
  | pay (ts : ℤ)
  /-- It comes to one that is due, and `sendAndPoll` throws. -/
  | throw
  | finish
  /-- A payment that was given up lands after all. -/
  | land (ts : ℤ) (x : ℤ × Exit)
  | lose (x : ℤ × Exit)

namespace Passes

/-- The keeper has seen nothing. -/
def start (w : World) : Passes := ⟨⟨w, .empty, []⟩, fun _ => none, none, [], []⟩

/-- The loop comes to its next ticket: the pass's time, the ticket, and the state with the ticket
noted. -/
def next (s : Passes) : Result (ℤ × Exit × Passes) :=
  match s.pass with
  | some (now, e :: es) =>
    .ok (now, e, { s with seen := s.seen.note e.groupId now, pass := some (now, es) })
  | _ => .error .external

/-- One event. -/
def apply (queue : QueueProgram) (k : PrivateKeeper) (rt : Runtime) (graceS : ℤ) (s : Passes) :
    PassEvent → Result Passes
  | .act a => do
    let world ← s.books.world.step rt a
    let tickets := s.books.tickets.record a s.books.world world
    pure { s with books := { s.books with world, tickets } }
  | .begin now => do
    -- The keeper waits for one pass to end before it begins another.
    constraint (s.pass = none)
    let opened := s.books.world.obligations.tickets
    pure { s with
      seen := s.seen.prune opened
      pass := some (now, opened)
      log := s.log ++ [⟨now, s.books.tickets.live⟩] }
  | .skip => do
    let (now, e, s) ← s.next
    constraint (s.seen.inGrace graceS now e.groupId = true)
    pure s
  | .pay ts => do
    let (now, e, s) ← s.next
    constraint (s.seen.inGrace graceS now e.groupId = false)
    let books ← s.books.pay queue k rt ts now e
    pure { s with books }
  | .throw => do
    let (now, e, s) ← s.next
    constraint (s.seen.inGrace graceS now e.groupId = false)
    pure { s with pass := none, late := s.late ++ [(now, e)] }
  | .finish => do
    constraint (s.pass.map Prod.snd = some [])
    pure { s with pass := none }
  | .land ts x => do
    constraint (x ∈ s.late)
    let books ← s.books.pay queue k rt ts x.1 x.2
    pure { s with books, late := s.late.erase x }
  | .lose x => pure { s with late := s.late.erase x }

/-- The keeper still goes by an id: it holds a time for it, the pass in progress has not come to it,
or a payment under it may still land. -/
def GoesBy (s : Passes) (id : U32) : Prop :=
  (s.seen id).isSome = true ∨ (∃ x ∈ s.pass, ∃ e ∈ x.2, e.groupId = id) ∨
    ∃ x ∈ s.late, x.2.groupId = id

instance (s : Passes) (id : U32) : Decidable (s.GoesBy id) :=
  inferInstanceAs (Decidable (_ ∨ (∃ x ∈ s.pass, ∃ e ∈ x.2, e.groupId = id) ∨ _))

/-- Nobody opens a ticket under an id that the keeper still goes by. -/
def OpensFresh (s : Passes) : PassEvent → Prop
  | .act a => ∀ id ∈ a.opens, ¬ s.GoesBy id
  | _ => True

instance (s : Passes) : (event : PassEvent) → Decidable (s.OpensFresh event)
  -- Not by trying every id.
  | .act a => decidable_of_iff ((a.opens.toList.all fun id => !decide (s.GoesBy id)) = true)
    (by simp [OpensFresh])
  | .begin _ | .skip | .pay _ | .throw | .finish | .land _ _ | .lose _ => .isTrue trivial

/-- A step, where `P` allows it. -/
def StepWith (queue : QueueProgram) (k : PrivateKeeper) (rt : Runtime) (graceS : ℤ)
    (P : Passes → PassEvent → Prop) (s s' : Passes) : Prop :=
  ∃ event, P s event ∧ s.apply queue k rt graceS event = .ok s'

end Passes

/-! ## What was seen when -/

/-- The id of a remembered ticket. -/
def idOf (x : Opening × ℕ) : U32 := x.1.groupId

/-- A ticket is opened under the id that was asked for. -/
theorem Action.opens_of_opening {a : Action} {w w' : World} {x : Opening}
    (h : a.opening w w' = some x) : a.opens = some x.groupId := by
  cases a with
  | token t => cases h
  | program tx ix =>
    simp only [Action.opening, Option.bind_eq_bind, Option.bind_eq_some_iff, Option.pure_def,
      Option.some.injEq] at h
    obtain ⟨⟨o, r⟩, hix, d, -, e, he, rfl⟩ := h
    have hid : e.groupId = r.groupId := (Obligations.ticket_mem he).2
    rw [Opening.groupId, hid]
    cases ix with
    | redeemPrivate | redeemPrivateTo =>
      cases hix
      rfl
    | _ => cases hix

/-- A ticket that is live after an action was live before it, or was opened by it. -/
theorem Tickets.mem_live_record {g : Tickets} {a : Action} {w w' : World} {y : Opening × ℕ}
    (h : y ∈ (g.record a w w').live) : y ∈ g.live ∨ a.opens = some (idOf y) := by
  have hclose (g : Tickets) (c : U32 × Tx) (hy : y ∈ (g.close Opening.groupId c.1 c.2).live) :
      y ∈ g.live := by
    unfold Register.close at hy
    split at hy
    · exact List.mem_of_mem_eraseP hy
    · exact hy
  have hopened : y ∈ ((a.opening w w').elim g g.add).live := by
    unfold Tickets.record at h
    cases hclosing : a.closing with
    | none => simpa only [hclosing, Option.elim_none] using h
    | some c =>
      simp only [hclosing, Option.elim_some] at h
      exact hclose _ c h
  cases hopening : a.opening w w' with
  | none =>
    rw [hopening] at hopened
    exact .inl hopened
  | some x =>
    rw [hopening, Option.elim_some, Register.add, List.mem_append, List.mem_singleton] at hopened
    rcases hopened with hold | rfl
    · exact .inl hold
    · exact .inr (Action.opens_of_opening hopening)

/-- The keeper's transaction settles the ticket that is open under its id. -/
theorem World.payExit_settles {queue : QueueProgram} {k : PrivateKeeper} {rt : Runtime}
    {w w' : World} {ts : ℤ} {e : Exit} (h : w.payExit queue k rt ts e = .ok w') :
    ∃ e', w.obligations.ticket e.groupId = some e' ∧
      w'.obligations = w.obligations.settling e.groupId := by
  simp only [payExit, bind_eq_ok] at h
  obtain ⟨b, -, hexec⟩ := h
  obtain ⟨e', -, he, -, -, -, hw⟩ := exec_settleExit_pays hexec
  exact ⟨e', he, hw⟩

/-- A payment that lands pays a live ticket under its id, and opens none. -/
theorem Books.pay_spec {queue : QueueProgram} {k : PrivateKeeper} {rt : Runtime} {ts now : ℤ}
    {b b' : Books} {e : Exit} (hb : b.tickets.Follows b.world)
    (h : b.pay queue k rt ts now e = .ok b') :
    b'.tickets.Follows b'.world ∧ (∀ y ∈ b'.tickets.live, y ∈ b.tickets.live) ∧
      ∃ x ∈ b.tickets.live, idOf x = e.groupId ∧ b'.paid = b.paid ++ [(now, x)] := by
  simp only [pay, bind_eq_ok, pure_eq_ok] at h
  obtain ⟨w', hpay, rfl⟩ := h
  obtain ⟨e', he, hw⟩ := World.payExit_settles hpay
  obtain ⟨x, hx, -⟩ := hb.find he
  have hid := List.find?_some hx
  refine ⟨hb.close he hw (k.tx rt ts e), fun y hy => ?_, x, List.mem_of_find?_eq_some hx,
    of_decide_eq_true hid, ?_⟩
  · exact (Tickets.mem_live_record hy).resolve_right (Option.some_ne_none _).symm
  · simp only [hx, Option.map_some, Option.toList_some]

namespace Passes

/-- What the keeper goes by is sound: its times, and the time of the pass for the tickets that the
pass has not come to, are times by which the ticket under the id was seen, and what is paid or may
still land was seen a grace period before. -/
structure Sound (graceS : ℤ) (s : Passes) : Prop where
  follows : s.books.tickets.Follows s.books.world
  seen : ∀ id t, s.seen id = some t → SeenBy idOf s.log s.books.tickets.live id t
  ahead : ∀ x ∈ s.pass, ∀ e ∈ x.2, SeenBy idOf s.log s.books.tickets.live e.groupId x.1
  late : ∀ x ∈ s.late,
    SeenBy idOf s.log s.books.tickets.live x.2.groupId (x.1 - graceS * 1000)
  paid : ∀ y ∈ s.books.paid, ∃ p ∈ s.log, y.2 ∈ p.live ∧ p.time + graceS * 1000 ≤ y.1

variable {queue : QueueProgram} {k : PrivateKeeper} {rt : Runtime} {graceS : ℤ} {s s' : Passes}

/-- It stays sound as long as no ticket comes under an id that the keeper goes by. -/
theorem Sound.of_books (hs : s.Sound graceS) {books : Books}
    (hfollows : books.tickets.Follows books.world)
    (hlive : ∀ x ∈ books.tickets.live, x ∈ s.books.tickets.live ∨ ¬ s.GoesBy (idOf x))
    (hpaid : ∀ y ∈ books.paid, ∃ p ∈ s.log, y.2 ∈ p.live ∧ p.time + graceS * 1000 ≤ y.1) :
    ({ s with books } : Passes).Sound graceS := by
  have hkept {id : U32} {t : ℤ} (hid : s.GoesBy id)
      (h : SeenBy idOf s.log s.books.tickets.live id t) :
      SeenBy idOf s.log books.tickets.live id t :=
    h.of_live fun x hx hk => (hlive x hx).resolve_right (not_not_intro (hk ▸ hid))
  refine ⟨hfollows, fun id t ht => ?_, fun x hx e he => ?_, fun x hx => ?_, hpaid⟩
  · exact hkept (.inl (Option.isSome_of_eq_some ht)) (hs.seen id t ht)
  · exact hkept (.inr (.inl ⟨x, hx, e, he, rfl⟩)) (hs.ahead x hx e he)
  · exact hkept (.inr (.inr ⟨x, hx, rfl⟩)) (hs.late x hx)

/-- Somebody's action keeps it sound where it opens no ticket under such an id. -/
theorem Sound.act (hs : s.Sound graceS) {a : Action} (hfresh : s.OpensFresh (.act a))
    {world : World} (h : s.books.world.step rt a = .ok world) :
    ({ s with books := { s.books with
      world
      tickets := s.books.tickets.record a s.books.world world } } : Passes).Sound graceS := by
  refine hs.of_books (hs.follows.step h) (fun x hx => ?_) hs.paid
  rcases Tickets.mem_live_record hx with hold | hopens
  · exact .inl hold
  · exact .inr (hfresh _ hopens)

/-- So does a payment of a ticket that was seen a grace period ago. -/
theorem Sound.pay (hs : s.Sound graceS) {ts now : ℤ} {e : Exit} {books : Books}
    (hseen : SeenBy idOf s.log s.books.tickets.live e.groupId (now - graceS * 1000))
    (h : s.books.pay queue k rt ts now e = .ok books) :
    ({ s with books } : Passes).Sound graceS := by
  obtain ⟨hfollows, hlive, x, hx, hid, hpaid⟩ := Books.pay_spec hs.follows h
  refine hs.of_books hfollows (fun y hy => .inl (hlive y hy)) fun y hy => ?_
  rw [hpaid, List.mem_append, List.mem_singleton] at hy
  rcases hy with hold | rfl
  · exact hs.paid y hold
  · obtain ⟨p, hp, hxp, ht⟩ := hseen x hx hid
    exact ⟨p, hp, hxp, by simp only; omega⟩

/-- So does noting the next ticket, and if that is due then, it was seen a grace period ago. -/
theorem Sound.next (hs : s.Sound graceS) {now : ℤ} {e : Exit} (h : s.next = .ok (now, e, s')) :
    s'.Sound graceS ∧ (s'.seen.inGrace graceS now e.groupId = false →
      SeenBy idOf s'.log s'.books.tickets.live e.groupId (now - graceS * 1000)) := by
  unfold Passes.next at h
  split at h
  · rename_i now' e' es hpass
    cases h
    have hahead := hs.ahead _ hpass
    have hnoted (id : U32) (t : ℤ) (ht : s.seen.note e.groupId now id = some t) :
        SeenBy idOf s.log s.books.tickets.live id t := by
      by_cases hid : id = e.groupId
      · subst hid
        rw [Seen.note_self, Option.some.injEq] at ht
        cases hseen : s.seen e.groupId with
        | some t' =>
          rw [hseen, Option.getD_some] at ht
          exact ht ▸ hs.seen _ _ hseen
        | none =>
          -- Noted just now, the ticket was open when the pass began.
          rw [hseen, Option.getD_none] at ht
          exact ht ▸ hahead e List.mem_cons_self
      · rw [Seen.note_of_ne now hid] at ht
        exact hs.seen id t ht
    refine ⟨⟨hs.follows, hnoted, ?_, hs.late, hs.paid⟩, fun hdue => ?_⟩
    · rintro x ⟨⟩ f hf
      exact hahead f (List.mem_cons_of_mem _ hf)
    · have hself := Seen.note_self s.seen e.groupId now
      refine (hnoted _ _ hself).later ?_
      simp only [Seen.inGrace, hself, Option.getD_some, decide_eq_false_iff_not] at hdue
      omega
  · cases h

/-- Every event keeps it sound. -/
theorem Sound.step (hs : s.Sound graceS) (h : StepWith queue k rt graceS OpensFresh s s') :
    s'.Sound graceS := by
  obtain ⟨event, hfresh, happly⟩ := h
  cases event with
  | act a =>
    simp only [apply, bind_eq_ok, pure_eq_ok] at happly
    obtain ⟨world, hstep, rfl⟩ := happly
    exact hs.act hfresh hstep
  | begin now =>
    simp only [apply, bind_eq_ok, pure_eq_ok] at happly
    obtain ⟨_, -, rfl⟩ := happly
    refine ⟨hs.follows, fun id t ht => ?_, ?_, fun x hx => (hs.late x hx).append _,
      fun y hy => ?_⟩
    · exact (hs.seen id t (Option.ite_none_right_eq_some.mp ht).2).append _
    · rintro x ⟨⟩ e -
      exact seenBy_pass (List.mem_append_right _ List.mem_cons_self)
    · obtain ⟨p, hp, hlive, ht⟩ := hs.paid y hy
      exact ⟨p, List.mem_append_left _ hp, hlive, ht⟩
  | skip =>
    simp only [apply, bind_eq_ok, pure_eq_ok, Prod.exists] at happly
    obtain ⟨now, e, t, hnext, _, -, rfl⟩ := happly
    exact (hs.next hnext).1
  | pay ts =>
    simp only [apply, bind_eq_ok, constraint_eq_ok, pure_eq_ok, Prod.exists] at happly
    obtain ⟨now, e, t, hnext, _, hdue, books, hpay, rfl⟩ := happly
    obtain ⟨ht, hseen⟩ := hs.next hnext
    exact ht.pay (hseen hdue) hpay
  | throw =>
    simp only [apply, bind_eq_ok, constraint_eq_ok, pure_eq_ok, Prod.exists] at happly
    obtain ⟨now, e, t, hnext, _, hdue, rfl⟩ := happly
    obtain ⟨ht, hseen⟩ := hs.next hnext
    refine ⟨ht.follows, ht.seen, fun x hx => absurd hx (Option.not_mem_none x), fun x hx => ?_,
      ht.paid⟩
    rcases List.mem_append.mp hx with hold | hnew
    · exact ht.late x hold
    · rw [List.mem_singleton.mp hnew]
      exact hseen hdue
  | finish =>
    simp only [apply, bind_eq_ok, pure_eq_ok] at happly
    obtain ⟨_, -, rfl⟩ := happly
    exact ⟨hs.follows, hs.seen, fun x hx => absurd hx (Option.not_mem_none x), hs.late, hs.paid⟩
  | land ts x =>
    simp only [apply, bind_eq_ok, constraint_eq_ok, pure_eq_ok] at happly
    obtain ⟨_, hx, books, hpay, rfl⟩ := happly
    have hpaid := hs.pay (hs.late x hx) hpay
    exact ⟨hpaid.follows, hpaid.seen, hpaid.ahead,
      fun y hy => hpaid.late y (List.mem_of_mem_erase hy), hpaid.paid⟩
  | lose x =>
    simp only [apply, pure_eq_ok] at happly
    subst happly
    exact ⟨hs.follows, hs.seen, hs.ahead, fun y hy => hs.late y (List.mem_of_mem_erase hy),
      hs.paid⟩

/-- Nothing was seen and nothing paid at the start. -/
theorem sound_start (graceS : ℤ) (rt : Runtime) (authority custodyOwner : Pubkey)
    (book : PoolBook) : (start (.start rt authority custodyOwner book)).Sound graceS where
  follows := Tickets.follows_start rt authority custodyOwner book
  seen _ _ h := absurd h.symm (Option.some_ne_none _)
  ahead x hx := absurd hx (Option.not_mem_none x)
  late _ hx := absurd hx List.not_mem_nil
  paid _ hy := absurd hy List.not_mem_nil

/-! ## A pass without interruption -/

/-- From its next ticket on, a pass that nobody interrupts does what the loop of `payExits` does. -/
theorem payLoop_run (ts : ℤ) {now : ℤ} {es : List Exit} {s : Passes}
    (hpass : s.pass = some (now, es)) :
    ∃ s', Relation.ReflTransGen (StepWith queue k rt graceS OpensFresh) s s' ∧ s'.pass = none ∧
      s'.log = s.log ∧ ∃ threw, payLoop graceS now (fun b e => b.pay queue k rt ts now e) s.seen
        s.books es = ⟨s'.seen, s'.books, threw⟩ := by
  induction es generalizing s with
  | nil =>
    refine ⟨{ s with pass := none }, .single ⟨.finish, trivial, ?_⟩, rfl, rfl, false, rfl⟩
    simp [apply, hpass, constraint]
  | cons e es ih =>
    let s₁ : Passes := { s with seen := s.seen.note e.groupId now, pass := some (now, es) }
    have hnext : s.next = .ok (now, e, s₁) := by
      rw [next, hpass]
    unfold payLoop
    by_cases hgrace : (s.seen.note e.groupId now).inGrace graceS now e.groupId = true
    · obtain ⟨s', hrun, hrest⟩ := ih (s := s₁) rfl
      refine ⟨s', .head ⟨.skip, trivial, ?_⟩ hrun, ?_⟩
      · simp only [apply, bind_eq_ok, constraint_eq_ok, pure_eq_ok, Prod.exists]
        exact ⟨now, e, s₁, hnext, (), hgrace, rfl⟩
      · simpa only [if_pos hgrace] using hrest
    · have hdue : s₁.seen.inGrace graceS now e.groupId = false := Bool.eq_false_iff.mpr hgrace
      simp only [if_neg hgrace]
      cases hpay : s.books.pay queue k rt ts now e with
      | ok books =>
        obtain ⟨s', hrun, hrest⟩ := ih (s := { s₁ with books }) rfl
        refine ⟨s', .head ⟨.pay ts, trivial, ?_⟩ hrun, hrest⟩
        simp only [apply, bind_eq_ok, constraint_eq_ok, pure_eq_ok, Prod.exists]
        exact ⟨now, e, s₁, hnext, (), hdue, books, hpay, rfl⟩
      | error f =>
        refine ⟨{ s₁ with pass := none, late := s.late ++ [(now, e)] },
          .single ⟨.throw, trivial, ?_⟩, rfl, rfl, true, rfl⟩
        simp only [apply, bind_eq_ok, constraint_eq_ok, pure_eq_ok, Prod.exists]
        exact ⟨now, e, s₁, hnext, (), hdue, rfl⟩

/-- A pass that nobody interrupts does what `payExits` does. -/
theorem payExits_run (ts now : ℤ) {s : Passes} (hidle : s.pass = none) :
    ∃ s', Relation.ReflTransGen (StepWith queue k rt graceS OpensFresh) s s' ∧ s'.pass = none ∧
      s'.log = s.log ++ [⟨now, s.books.tickets.live⟩] ∧
      ∃ threw, payExits graceS (fun b e => b.pay queue k rt ts now e) s.seen s.books
        s.books.world.exits.current now = ⟨s'.seen, s'.books, threw⟩ := by
  let opened := s.books.world.obligations.tickets
  let begun : Passes := { s with
    seen := s.seen.prune opened
    pass := some (now, opened)
    log := s.log ++ [⟨now, s.books.tickets.live⟩] }
  obtain ⟨s', hrun, hrest⟩ := @payLoop_run queue k rt graceS ts now opened begun rfl
  refine ⟨s', .head ⟨.begin now, trivial, ?_⟩ hrun, hrest⟩
  simp only [apply, bind_eq_ok, constraint_eq_ok, pure_eq_ok]
  exact ⟨(), hidle, rfl⟩

end Passes

/-! ## The law -/

/-- In every run in which nobody opens a ticket under an id that the keeper still goes by, a ticket
is paid in a pass only if it was already open in a pass that began a grace period earlier, whatever
the clock reads. -/
theorem grace_respected {queue : QueueProgram} {k : PrivateKeeper} {rt : Runtime} {graceS : ℤ}
    {authority custodyOwner : Pubkey} {book : PoolBook} {s : Passes}
    (hrun : Relation.ReflTransGen (Passes.StepWith queue k rt graceS Passes.OpensFresh)
      (.start (.start rt authority custodyOwner book)) s) :
    (s.books.tickets.live.map fun x => x.1.ticket).Perm s.books.world.obligations.tickets ∧
      ∀ now x, (now, x) ∈ s.books.paid →
        ∃ p ∈ s.log, x ∈ p.live ∧ p.time + graceS * 1000 ≤ now := by
  have hs : s.Sound graceS := Runs.preserves (I := Passes.Sound graceS)
    (fun hs hstep => hs.step hstep) hrun (Passes.sound_start graceS rt authority custodyOwner book)
  exact ⟨hs.follows.live, fun now x hx => hs.paid (now, x) hx⟩

namespace Passes

/-- An event, where `P` allows it. -/
def attempt (graceS : ℤ) (P : Passes → PassEvent → Prop) [∀ s event, Decidable (P s event)]
    (s : Passes) (event : PassEvent) : Result Passes := do
  constraint (P s event)
  s.apply depositAndQueue devnetKeeper deployment graceS event

/-- The devnet keeper after some events. -/
def replay (P : Passes → PassEvent → Prop) [∀ s event, Decidable (P s event)]
    (events : List PassEvent) : Passes :=
  Runs.follow (attempt exitGraceS P) (.start (.deployed 800)) events

/-- Replaying events is a run. -/
theorem run_replay (P : Passes → PassEvent → Prop) [∀ s event, Decidable (P s event)]
    (events : List PassEvent) :
    Relation.ReflTransGen (StepWith depositAndQueue devnetKeeper deployment exitGraceS P)
      (.start (.deployed 800)) (replay P events) := by
  refine Runs.follow_run (attempt exitGraceS P) (fun s event s' h => ?_) _ events
  rw [attempt, bind_eq_ok] at h
  obtain ⟨_, hallowed, happly⟩ := h
  exact ⟨event, constraint_eq_ok.mp hallowed, happly⟩

end Passes

/-- An exit under id 1, a pass that sees it, and one that pays it 20 seconds later. -/
def seenThenPaid : List PassEvent :=
  (openPrivate ++ delegatePrivate ++ privateDeposit 100000000 ++
    [redeemUnderOne 30000000 200]).map PassEvent.act ++
  [.begin 0, .skip, .finish, .begin 20000, .pay 220, .finish]

/-- It was paid with its grace. -/
theorem grace_respected_once :
    ∃ s : Passes, s.books.paid.map (fun y => (y.1, y.2.2)) = [(20000, 0)] ∧
      ∀ now x, (now, x) ∈ s.books.paid →
        ∃ p ∈ s.log, x ∈ p.live ∧ p.time + exitGraceS * 1000 ≤ now :=
  ⟨Passes.replay Passes.OpensFresh seenThenPaid, by decide +kernel,
    (grace_respected (Passes.run_replay Passes.OpensFresh seenThenPaid)).2⟩

/-- Another exit under id 1 after that, which the next pass finds: it is paid five seconds after the
first exit's payment, in the first pass that sees it. -/
theorem reused_id_skips_grace :
    ∃ s : Passes, Relation.ReflTransGen
        (Passes.StepWith depositAndQueue devnetKeeper deployment exitGraceS fun _ _ => True)
        (.start (.deployed 800)) s ∧
      s.log.map Pass.time = [0, 20000, 25000] ∧
      ∃ x, (25000, x) ∈ s.books.paid ∧
        ¬ ∃ p ∈ s.log, x ∈ p.live ∧ p.time + exitGraceS * 1000 ≤ 25000 := by
  let events := seenThenPaid ++
    [.act (redeemUnderOne 20000000 221), .begin 25000, .pay 226, .finish]
  let s := Passes.replay (fun _ _ => True) events
  have hpaid : s.books.paid.map (fun y => (y.1, y.2.2)) = [(20000, 0), (25000, 1)] := by
    decide +kernel
  have hmem : ((25000, 1) : ℤ × ℕ) ∈ s.books.paid.map fun y => (y.1, y.2.2) := by
    rw [hpaid]
    decide
  obtain ⟨⟨now, x⟩, hx, heq⟩ := List.mem_map.mp hmem
  obtain ⟨rfl, hnumber⟩ := Prod.mk.inj heq
  have htimes : s.log.map Pass.time = [0, 20000, 25000] := by decide +kernel
  refine ⟨s, Passes.run_replay _ events, htimes, x, hx, ?_⟩
  rintro ⟨p, hp, hlive, ht⟩
  -- The only pass that early saw the first exit, which has another number.
  have hearly : ∀ p ∈ s.log, p.time + exitGraceS * 1000 ≤ 25000 → ∀ y ∈ p.live, y.2 ≠ 1 := by
    decide +kernel
  exact hearly p hp ht x hlive hnumber

end Agama
