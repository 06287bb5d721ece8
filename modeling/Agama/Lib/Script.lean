import Mathlib.Logic.Relation
import Mathlib.Tactic

/-!
# Scripts on a network

A script sends requests, and gives up on an answer that does not come in time. Whether a request
takes effect, when, and whether the script hears of it, is the network's to say, so a script is a
program over a state and a stream of replies. Two predicates speak of the same program: what its
state goes through whatever the network does (`Within`), and what it achieves on a network where
everything takes effect and is answered in time (`Delivers`). A script that throws keeps the state
that it has reached.
-/

/-- What becomes of a request: the moment at which it is carried out, whether it takes effect (for a
question, whether the answer is right), and whether the script hears of it in time. -/
structure Reply (τ : Type) where
  moment : τ
  landed : Bool
  answered : Bool

/-- What becomes of the requests, in their order. -/
abbrev Net (τ : Type) := ℕ → Reply τ

/-- A script over the states `σ`, which may throw an `ε`. -/
abbrev Script (τ σ ε : Type) : Type → Type := EStateM ε (σ × Net τ)

namespace Net

variable {τ : Type}

/-- What becomes of the requests after the first. -/
def rest (net : Net τ) : Net τ := fun i => net (i + 1)

/-- Every moment is one of `T`. -/
def Timed (T : τ → Prop) (net : Net τ) : Prop := ∀ i, T (net i).moment

/-- Everything takes effect and is answered in time. -/
structure Prompt (T : τ → Prop) (net : Net τ) : Prop where
  timed : net.Timed T
  landed : ∀ i, (net i).landed = true
  answered : ∀ i, (net i).answered = true

/-- Everything takes effect and is answered, at one moment. -/
def atOnce (t : τ) : Net τ := fun _ => ⟨t, true, true⟩

/-- That is prompt. -/
theorem prompt_atOnce {T : τ → Prop} {t : τ} (h : T t) : (atOnce t).Prompt T :=
  ⟨fun _ => h, fun _ => rfl, fun _ => rfl⟩

/-- What holds of all moments holds of the later ones. -/
theorem Timed.rest {T : τ → Prop} {net : Net τ} (h : net.Timed T) : net.rest.Timed T :=
  fun i => h (i + 1)

/-- A prompt network stays prompt. -/
theorem Prompt.rest {T : τ → Prop} {net : Net τ} (h : net.Prompt T) : net.rest.Prompt T :=
  ⟨h.timed.rest, fun i => h.landed (i + 1), fun i => h.answered (i + 1)⟩

end Net

namespace Script

variable {τ σ ε α β : Type}

/-! ## Requests -/

/-- The next reply. -/
def ask : Script τ σ ε (Reply τ) := fun (s, net) => .ok (net 0) (s, net.rest)

/-- A part of the state. -/
def look (f : σ → α) : Script τ σ ε α := fun (s, net) => .ok (f s) (s, net)

/-- A change of the state. -/
def change (f : σ → σ) : Script τ σ ε Unit := fun (s, net) => .ok () (f s, net)

/-- What a request does, or why it fails, and then it does nothing. -/
def carryOut (run : σ → Except ε σ) : Script τ σ ε (Except ε Unit) := fun (s, net) =>
  match run s with
  | .ok s' => .ok (.ok ()) (s', net)
  | .error e => .ok (.error e) (s, net)

/-- What a request does if it takes effect. -/
def land (lost : ε) (r : Reply τ) (run : τ → σ → Except ε σ) : Script τ σ ε (Except ε Unit) :=
  if r.landed then carryOut (run r.moment) else pure (.error lost)

/-- A result that throws when it is an error. -/
def ofExcept : Except ε α → Script τ σ ε α
  | .ok a => pure a
  | .error e => throw e

/-- A request that is sent and polled for. It may take effect although its answer is lost. -/
def send (lost : ε) (run : τ → σ → Except ε σ) : Script τ σ ε Unit := do
  let r ← ask
  let outcome ← land lost r run
  if r.answered then ofExcept outcome else throw lost

/-- A request that is accepted or refused now, and takes effect later. -/
def schedule (lost : ε) (run : τ → σ → Except ε σ) : Script τ σ ε Unit := do
  let r ← ask
  let outcome ← look (run r.moment)
  if r.landed && r.answered then ofExcept (outcome.map fun _ => ()) else throw lost

/-- A scheduled request may take effect while nobody waits for it. -/
def meanwhile (lost : ε) (run : τ → σ → Except ε σ) : Script τ σ ε Unit := do
  let r ← ask
  let _ ← land lost r run
  pure ()

/-- A request that is sent and not polled for, so the script learns nothing of its fate. -/
def fire (lost : ε) (run : τ → σ → Except ε σ) : Script τ σ ε Unit := do
  let r ← ask
  let _ ← land lost r run
  if r.answered then pure () else throw lost

/-- Wait for something that the script has no part in. -/
def wait (lost : ε) : Script τ σ ε Unit := do
  let r ← ask
  if r.answered then pure () else throw lost

/-- Wait for a scheduled request to take effect, unless that is over. It may take effect as the
script gives up. -/
def await (lost : ε) (done : σ → Bool) (run : τ → σ → Except ε σ) : Script τ σ ε Unit := do
  if ← look done then wait lost else send lost run

/-- A question about the state, to which the answer may be out of date, or not come. -/
def survey (lost : ε) (f : σ → Bool) : Script τ σ ε Bool := do
  let r ← ask
  if r.answered then look fun s => f s == r.landed else throw lost

/-- A question that may be answered by a refusal. -/
def inquire (lost refused : ε) : Script τ σ ε Unit := do
  let r ← ask
  if r.answered then (if r.landed then pure () else throw refused) else throw lost

/-- A read, which may fail. -/
def read (lost : ε) (f : σ → α) : Script τ σ ε α := do
  let r ← ask
  if r.answered then look f else throw lost

/-- What throws is not followed by anything. -/
theorem bind_apply (m : Script τ σ ε α) (f : α → Script τ σ ε β) (s : σ × Net τ) :
    (m >>= f) s = match m s with
      | .ok a s => f a s
      | .error e s => .error e s := by
  change EStateM.bind m f s = _
  unfold EStateM.bind
  cases m s <;> rfl

/-- What is caught goes on from the state in which it was thrown. -/
theorem tryCatch_apply (m : Script τ σ ε α) (f : ε → Script τ σ ε α) (s : σ × Net τ) :
    tryCatch m f s = match m s with
      | .ok a s => .ok a s
      | .error e s => f e s := by
  change EStateM.tryCatch m f s = _
  unfold EStateM.tryCatch
  cases m s <;> rfl

/-- A request that takes effect and is answered. -/
theorem send_apply {lost : ε} {run : τ → σ → Except ε σ} {net : Net τ}
    (hlanded : (net 0).landed = true) (hanswered : (net 0).answered = true) (s : σ) :
    send lost run (s, net) = match run (net 0).moment s with
      | .ok s' => .ok () (s', net.rest)
      | .error e => .error e (s, net.rest) := by
  have hcarried : send lost run (s, net) =
      (carryOut (run (net 0).moment) >>= ofExcept : Script τ σ ε Unit) (s, net.rest) := by
    change (land lost (net 0) run >>= fun outcome =>
      if (net 0).answered then ofExcept outcome else throw lost : Script τ σ ε Unit)
        (s, net.rest) = _
    simp only [land, hlanded, hanswered, if_true]
  rw [hcarried, bind_apply]
  unfold carryOut
  cases hrun : run (net 0).moment s with
  | ok s' => simp only [hrun]; rfl
  | error e => simp only [hrun]; rfl

/-! ## Whatever the network does -/

/-- Where a script leaves the state, whether it returns or throws. -/
def final : EStateM.Result ε (σ × Net τ) α → σ × Net τ
  | .ok _ s => s
  | .error _ s => s

/-- Whether it throws. -/
def threw : EStateM.Result ε (σ × Net τ) α → Bool
  | .ok _ _ => false
  | .error _ _ => true

/-- Whatever the network does, the state only takes steps of `R`. -/
def Within (T : τ → Prop) (R : σ → σ → Prop) (m : Script τ σ ε α) : Prop :=
  ∀ s net, net.Timed T →
    Relation.ReflTransGen R s (final (m (s, net))).1 ∧ (final (m (s, net))).2.Timed T

section Within

variable {T : τ → Prop} {R : σ → σ → Prop} {m : Script τ σ ε α} {f : α → Script τ σ ε β}

/-- A script that returns does nothing to the state. -/
theorem within_pure (a : α) : Within T R (pure a : Script τ σ ε α) := fun _ _ h => ⟨.refl, h⟩

/-- Nor does one that throws. -/
theorem within_throw (e : ε) : Within T R (throw e : Script τ σ ε α) := fun _ _ h => ⟨.refl, h⟩

/-- Looking does nothing to the state. -/
theorem within_look (g : σ → α) : Within T R (look g : Script τ σ ε α) := fun _ _ h => ⟨.refl, h⟩

/-- Passing on a result does nothing to the state. -/
theorem within_ofExcept (x : Except ε α) : Within T R (ofExcept x : Script τ σ ε α) := by
  cases x
  · exact within_throw _
  · exact within_pure _

/-- One script after the other. -/
theorem Within.bind (hm : Within T R m) (hf : ∀ a, Within T R (f a)) : Within T R (m >>= f) := by
  intro s net h
  have hfirst := hm s net h
  rw [bind_apply]
  cases hrun : m (s, net) with
  | error e t =>
    rw [hrun] at hfirst
    exact hfirst
  | ok a t =>
    rw [hrun] at hfirst
    have hsecond := hf a t.1 t.2 hfirst.2
    exact ⟨hfirst.1.trans hsecond.1, hsecond.2⟩

/-- What is caught is dealt with in steps of `R`. -/
theorem Within.tryCatch {f : ε → Script τ σ ε α} (hm : Within T R m)
    (hf : ∀ e, Within T R (f e)) : Within T R (tryCatch m f) := by
  intro s net h
  have hfirst := hm s net h
  rw [tryCatch_apply]
  cases hrun : m (s, net) with
  | ok a t =>
    rw [hrun] at hfirst
    exact hfirst
  | error e t =>
    rw [hrun] at hfirst
    have hsecond := hf e t.1 t.2 hfirst.2
    exact ⟨hfirst.1.trans hsecond.1, hsecond.2⟩

/-- A script that first asks for a reply, whose moment is one of `T`. -/
theorem within_ask {f : Reply τ → Script τ σ ε α} (hf : ∀ r, T r.moment → Within T R (f r)) :
    Within T R (ask >>= f) := fun s net h => hf (net 0) (h 0) s net.rest h.rest

/-- What a request does is a step of `R`. -/
theorem within_carryOut {run : σ → Except ε σ} (hrun : ∀ s s', run s = .ok s' → R s s') :
    Within T R (carryOut run) := by
  intro s net h
  unfold carryOut
  dsimp only
  cases hs : run s with
  | error e => exact ⟨.refl, h⟩
  | ok s' => exact ⟨.single (hrun s s' hs), h⟩

variable {run : τ → σ → Except ε σ} {lost : ε} {done : σ → Bool}

/-- A request takes a step of `R` if it takes effect. -/
theorem within_land {r : Reply τ} (hrun : ∀ t s s', T t → run t s = .ok s' → R s s')
    (hr : T r.moment) : Within T R (land lost r run) := by
  unfold land
  split
  · exact within_carryOut fun s s' => hrun _ s s' hr
  · exact within_pure _

/-- So does one that is polled for. -/
theorem within_send (hrun : ∀ t s s', T t → run t s = .ok s' → R s s') :
    Within T R (send lost run) := by
  refine within_ask fun r hr => (within_land hrun hr).bind fun outcome => ?_
  split
  · exact within_ofExcept _
  · exact within_throw _

/-- Scheduling takes none. -/
theorem within_schedule : Within T R (schedule lost run) := by
  refine within_ask fun r _ => (within_look _).bind fun outcome => ?_
  split
  · exact within_ofExcept _
  · exact within_throw _

/-- Waiting for something else takes none. -/
theorem within_wait : Within T R (wait lost : Script τ σ ε Unit) := by
  refine within_ask fun r _ => ?_
  split
  · exact within_pure _
  · exact within_throw _

/-- Waiting takes that of the request that is waited for. -/
theorem within_await (hrun : ∀ t s s', T t → run t s = .ok s' → R s s') :
    Within T R (await lost done run) := by
  refine (within_look _).bind fun finished => ?_
  split
  · exact within_wait
  · exact within_send hrun

/-- A question about the state takes none. -/
theorem within_survey {g : σ → Bool} : Within T R (survey lost g : Script τ σ ε Bool) := by
  refine within_ask fun r _ => ?_
  split
  · exact within_look _
  · exact within_throw _

/-- Nor does one that may be refused. -/
theorem within_inquire {refused : ε} :
    Within T R (inquire lost refused : Script τ σ ε Unit) := by
  refine within_ask fun r _ => ?_
  split
  · split
    · exact within_pure _
    · exact within_throw _
  · exact within_throw _

/-- A scheduled request takes its step, waited for or not. -/
theorem within_meanwhile (hrun : ∀ t s s', T t → run t s = .ok s' → R s s') :
    Within T R (meanwhile lost run) :=
  within_ask fun _ hr => (within_land hrun hr).bind fun _ => within_pure _

end Within

/-! ## When everything arrives in time -/

/-- On a prompt network the script returns from `s`, where `Q` holds. -/
def Delivers (T : τ → Prop) (m : Script τ σ ε α) (s : σ) (Q : α → σ → Prop) : Prop :=
  ∀ net, net.Prompt T → ∃ a s' net', m (s, net) = .ok a (s', net') ∧ net'.Prompt T ∧ Q a s'

/-- On a prompt network the script throws `e` at `s`, and leaves it. -/
def Rejects (T : τ → Prop) (m : Script τ σ ε α) (s : σ) (e : ε) : Prop :=
  ∀ net, net.Prompt T → ∃ net', m (s, net) = .error e (s, net') ∧ net'.Prompt T

section Delivers

variable {T : τ → Prop} {m : Script τ σ ε α} {f : α → Script τ σ ε β} {s s' : σ}
  {P : α → σ → Prop} {Q : β → σ → Prop}

/-- A script that returns is done. -/
theorem delivers_pure {a : α} (h : P a s) : Delivers T (pure a : Script τ σ ε α) s P :=
  fun net hnet => ⟨a, s, net, rfl, hnet, h⟩

/-- A script that first looks at its state. -/
theorem delivers_look {g : σ → α} (hf : Delivers T (f (g s)) s Q) :
    Delivers T (look g >>= f) s Q := fun net hnet => hf net hnet

/-- A change of the state is made. -/
theorem delivers_change (g : σ → σ) :
    Delivers T (change g : Script τ σ ε Unit) s fun _ s' => s' = g s :=
  fun net hnet => ⟨(), _, net, rfl, hnet, rfl⟩

/-- A script may be said to achieve less. -/
theorem Delivers.mono {P' : α → σ → Prop} (h : Delivers T m s P) (hP : ∀ a s, P a s → P' a s) :
    Delivers T m s P' := by
  intro net hnet
  obtain ⟨a, s', net', hrun, hnet', hs'⟩ := h net hnet
  exact ⟨a, s', net', hrun, hnet', hP a s' hs'⟩

/-- One script after the other. -/
theorem Delivers.bind (hm : Delivers T m s P) (hf : ∀ a s', P a s' → Delivers T (f a) s' Q) :
    Delivers T (m >>= f) s Q := by
  intro net hnet
  obtain ⟨a, s', net', hrun, hnet', hs'⟩ := hm net hnet
  obtain ⟨b, s'', net'', hrest, hdone⟩ := hf a s' hs' net' hnet'
  refine ⟨b, s'', net'', ?_, hdone⟩
  rw [bind_apply, hrun]
  exact hrest

/-- A script that returns is not caught. -/
theorem Delivers.tryCatch {g : ε → Script τ σ ε α} (h : Delivers T m s P) :
    Delivers T (tryCatch m g) s P := by
  intro net hnet
  obtain ⟨a, s', net', hrun, hdone⟩ := h net hnet
  refine ⟨a, s', net', ?_, hdone⟩
  rw [tryCatch_apply, hrun]

/-- One that throws is dealt with. -/
theorem Rejects.tryCatch {g : ε → Script τ σ ε α} {e : ε} (h : Rejects T m s e)
    (hg : Delivers T (g e) s P) : Delivers T (tryCatch m g) s P := by
  intro net hnet
  obtain ⟨net', hrun, hnet'⟩ := h net hnet
  obtain ⟨a, s', net'', hrest, hdone⟩ := hg net' hnet'
  refine ⟨a, s', net'', ?_, hdone⟩
  rw [tryCatch_apply, hrun]
  exact hrest

/-- What throws is not followed by anything. -/
theorem Rejects.bind {e : ε} (h : Rejects T m s e) : Rejects T (m >>= f) s e := by
  intro net hnet
  obtain ⟨net', hrun, hnet'⟩ := h net hnet
  refine ⟨net', ?_, hnet'⟩
  rw [bind_apply, hrun]

variable {run : τ → σ → Except ε σ} {lost e : ε} {done : σ → Bool}

/-- What a request does where everything takes effect. -/
theorem delivers_land {r : Reply τ} (hlanded : r.landed = true) (hr : T r.moment)
    {R : σ → Prop} (hrun : ∀ t, T t → ∃ s', run t s = .ok s' ∧ R s') :
    Delivers T (land lost r run) s fun outcome s' => outcome = .ok () ∧ R s' := by
  intro net hnet
  obtain ⟨s', hs', hR⟩ := hrun r.moment hr
  refine ⟨.ok (), s', net, ?_, hnet, rfl, hR⟩
  rw [land, if_pos hlanded]
  unfold carryOut
  simp only [hs']

/-- A script that first asks for a reply. -/
theorem delivers_ask {f : Reply τ → Script τ σ ε α}
    (hf : ∀ r, r.landed = true → r.answered = true → T r.moment → Delivers T (f r) s P) :
    Delivers T (ask >>= f) s P := fun net hnet =>
  hf (net 0) (hnet.landed 0) (hnet.answered 0) (hnet.timed 0) net.rest hnet.rest

/-- A request that succeeds at every moment is carried out. -/
theorem delivers_send {R : σ → Prop} (hrun : ∀ t, T t → ∃ s', run t s = .ok s' ∧ R s') :
    Delivers T (send lost run) s fun _ s' => R s' := by
  refine delivers_ask fun r hlanded hanswered hr => ?_
  refine (delivers_land hlanded hr hrun).bind fun outcome s' h => ?_
  rw [h.1, if_pos hanswered]
  exact delivers_pure h.2

/-- One that would succeed is scheduled. -/
theorem delivers_schedule (hrun : ∀ t, T t → ∃ s', run t s = .ok s') :
    Delivers T (schedule lost run) s fun _ s' => s' = s := by
  refine delivers_ask fun r hlanded hanswered hr => ?_
  obtain ⟨t, ht⟩ := hrun r.moment hr
  refine delivers_look ?_
  rw [ht, hlanded, hanswered]
  exact delivers_pure rfl

/-- One that would fail is refused. -/
theorem rejects_schedule (hrun : ∀ t, T t → run t s = .error e) :
    Rejects T (schedule lost run) s e := by
  intro net hnet
  refine ⟨net.rest, ?_, hnet.rest⟩
  change (if (net 0).landed && (net 0).answered then
    ofExcept ((run (net 0).moment s).map fun _ => ()) else throw lost) (s, net.rest) = _
  rw [hnet.landed, hnet.answered, hrun _ (hnet.timed 0)]
  rfl

/-- A request that succeeds at every moment takes effect, waited for or not. -/
theorem delivers_meanwhile {R : σ → Prop} (hrun : ∀ t, T t → ∃ s', run t s = .ok s' ∧ R s') :
    Delivers T (meanwhile lost run) s fun _ s' => R s' :=
  delivers_ask fun _ hlanded _ hr => (delivers_land hlanded hr hrun).bind fun _ _ h =>
    delivers_pure h.2

/-- So does one that is not polled for. -/
theorem delivers_fire {R : σ → Prop} (hrun : ∀ t, T t → ∃ s', run t s = .ok s' ∧ R s') :
    Delivers T (fire lost run) s fun _ s' => R s' := by
  refine delivers_ask fun r hlanded hanswered hr => ?_
  refine (delivers_land hlanded hr hrun).bind fun outcome s' h => ?_
  rw [if_pos hanswered]
  exact delivers_pure h.2

/-- A wait ends. -/
theorem delivers_wait : Delivers T (wait lost : Script τ σ ε Unit) s fun _ s' => s' = s := by
  refine delivers_ask fun r _ hanswered _ => ?_
  rw [if_pos hanswered]
  exact delivers_pure rfl

/-- There is nothing to wait for. -/
theorem delivers_await_done (hdone : done s = true) :
    Delivers T (await lost done run) s fun _ s' => s' = s := by
  refine delivers_look ?_
  rw [if_pos hdone]
  exact delivers_wait

/-- The wait for a request that succeeds at every moment ends. -/
theorem delivers_await {R : σ → Prop} (hdone : done s = false)
    (hrun : ∀ t, T t → ∃ s', run t s = .ok s' ∧ R s') :
    Delivers T (await lost done run) s fun _ s' => R s' := by
  refine delivers_look ?_
  rw [hdone]
  exact delivers_send hrun

/-- A script that first asks about the state. -/
theorem delivers_survey {g : σ → Bool} {f : Bool → Script τ σ ε β} (hf : Delivers T (f (g s)) s Q) :
    Delivers T (survey lost g >>= f) s Q := by
  refine Delivers.bind (P := fun a s' => a = g s ∧ s' = s) ?_ fun a s' h => ?_
  · refine delivers_ask fun r hlanded hanswered _ => ?_
    rw [if_pos hanswered, hlanded]
    exact fun net hnet => ⟨_, s, net, rfl, hnet, beq_true (g s), rfl⟩
  · rw [h.1, h.2]
    exact hf

/-- A question is answered. -/
theorem delivers_inquire {refused : ε} :
    Delivers T (inquire lost refused : Script τ σ ε Unit) s fun _ s' => s' = s := by
  refine delivers_ask fun r hlanded hanswered _ => ?_
  rw [if_pos hanswered, if_pos hlanded]
  exact delivers_pure rfl

/-- A script that first reads. -/
theorem delivers_read {g : σ → α} (hf : Delivers T (f (g s)) s Q) :
    Delivers T (read lost g >>= f) s Q := by
  refine Delivers.bind (P := fun a s' => a = g s ∧ s' = s) ?_ fun a s' h => ?_
  · refine delivers_ask fun r _ hanswered _ => ?_
    rw [if_pos hanswered]
    exact fun net hnet => ⟨_, s, net, rfl, hnet, rfl, rfl⟩
  · rw [h.1, h.2]
    exact hf

end Delivers

/-! ## Again and again -/

/-- `m i`, then `m (i + 1)`, and so on, `n` times. -/
def repeatFrom (m : ℕ → Script τ σ ε Unit) : ℕ → ℕ → Script τ σ ε Unit
  | _, 0 => pure ()
  | i, n + 1 => do
    m i
    repeatFrom m (i + 1) n

/-- What comes one time nearer with each time, comes after as many times. -/
theorem delivers_repeatFrom {T : τ → Prop} {m : ℕ → Script τ σ ε Unit} {N : ℕ → σ → Prop}
    (h : ∀ i n s, N (n + 1) s → Delivers T (m i) s fun _ s' => N n s') {i n : ℕ} {s : σ}
    (hs : N n s) : Delivers T (repeatFrom m i n) s fun _ s' => N 0 s' := by
  induction n generalizing i s with
  | zero => exact delivers_pure hs
  | succ n ih => exact (h i n s hs).bind fun _ _ hs' => ih hs'

/-- Whatever the network does, the script does not throw. -/
def Returns (m : Script τ σ ε α) : Prop := ∀ s, ∃ a s', m s = .ok a s'

/-- A script that returns does not throw. -/
theorem returns_pure (a : α) : Returns (pure a : Script τ σ ε α) := fun s => ⟨a, s, rfl⟩

/-- One script after the other. -/
theorem Returns.bind {m : Script τ σ ε α} {f : α → Script τ σ ε β} (hm : Returns m)
    (hf : ∀ a, Returns (f a)) : Returns (m >>= f) := by
  intro s
  obtain ⟨a, s', hrun⟩ := hm s
  obtain ⟨b, s'', hrest⟩ := hf a s'
  exact ⟨b, s'', by rw [bind_apply, hrun]; exact hrest⟩

/-- Whatever the script throws is dealt with. -/
theorem returns_tryCatch {m : Script τ σ ε α} {f : ε → Script τ σ ε α} (hf : ∀ e, Returns (f e)) :
    Returns (tryCatch m f) := by
  intro s
  rw [tryCatch_apply]
  cases m s with
  | ok a s' => exact ⟨a, s', rfl⟩
  | error e s' => exact hf e s'

/-- So does the script over and over. -/
theorem returns_repeatFrom {m : ℕ → Script τ σ ε Unit} (hm : ∀ i, Returns (m i)) (i n : ℕ) :
    Returns (repeatFrom m i n) := by
  induction n generalizing i with
  | zero => exact returns_pure _
  | succ n ih => exact (hm i).bind fun _ => ih (i + 1)

/-! ## A part of the state -/

/-- A script on a part of the state. -/
def zoom {ρ : Type} (get : ρ → σ) (set : ρ → σ → ρ) (m : Script τ σ ε α) : Script τ ρ ε α :=
  fun (s, net) =>
    match m (get s, net) with
    | .ok a (t, net) => .ok a (set s t, net)
    | .error e (t, net) => .error e (set s t, net)

/-- It achieves what it does on that part. -/
theorem Delivers.zoom {ρ : Type} {get : ρ → σ} {set : ρ → σ → ρ} {T : τ → Prop}
    {m : Script τ σ ε α} {s : ρ} {P : α → σ → Prop} (h : Delivers T m (get s) P) :
    Delivers T (zoom get set m) s fun a s' => ∃ t, P a t ∧ s' = set s t := by
  intro net hnet
  obtain ⟨a, t, net', hrun, hnet', ht⟩ := h net hnet
  refine ⟨a, set s t, net', ?_, hnet', t, ht, rfl⟩
  unfold Script.zoom
  simp only [hrun]

end Script
