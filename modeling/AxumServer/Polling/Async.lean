import Mathlib.Data.List.Basic

/-! # Futures and the code that awaits them

A future is a state with a `poll` function. Each poll happens in a world, which stands
for everything the future can look at while it is polled. `Async` is straight-line code
that awaits futures: it goes on in the poll in which the awaited future is ready. Code
written as a `poll` function is compared with such a program by two rules, one for
futures in sequence and one for futures that answer alike.
-/

namespace AxumServer.Polling

variable {W ε σ τ α β γ : Type}

/-- How a call can end without an answer. -/
inductive Halt where
  | panicked (message : String)
  /-- The call does not return. -/
  | hung
  deriving DecidableEq, Repr

/-- The answer of one call of `poll`. -/
inductive Verdict (α : Type) where
  | ready (a : α)
  | pending
  | halted (why : Halt)
  deriving DecidableEq, Repr

/-- One call of `poll`: its answer, the state it leaves and what it did. -/
structure Answer (ε σ α : Type) where
  verdict : Verdict α
  state : σ
  did : List ε
  deriving DecidableEq, Repr

abbrev PollFn (W ε σ α : Type) := W → σ → Answer ε σ α

/-- What is seen of a run: the effects, and the ends of the polls that were pending. -/
inductive Obs (ε : Type) where
  | did (e : ε)
  | pending
  deriving DecidableEq, Repr

/-- How a run over a schedule of polls ends. -/
inductive Outcome (W α : Type) where
  /-- With a value, in the poll of the world `now`; `later` are the polls that are left. -/
  | done (a : α) (now : W) (later : List W)
  /-- The schedule is over. -/
  | waiting
  | halted (why : Halt)
  deriving DecidableEq, Repr

structure Run (W ε α : Type) where
  trace : List (Obs ε)
  outcome : Outcome W α
  deriving DecidableEq, Repr

/-- Code that runs in the poll of a world and in those that follow it. -/
@[ext] structure Async (W ε α : Type) where
  run : W → List W → Run W ε α

namespace Run

def after (obs : List (Obs ε)) (r : Run W ε α) : Run W ε α := ⟨obs ++ r.trace, r.outcome⟩

/-- Go on where a run has ended with a value. -/
def andThen (r : Run W ε α) (f : α → Async W ε β) : Run W ε β :=
  match r.outcome with
  | .done a now later => after r.trace ((f a).run now later)
  | .waiting => ⟨r.trace, .waiting⟩
  | .halted why => ⟨r.trace, .halted why⟩

@[simp] theorem after_after (obs obs' : List (Obs ε)) (r : Run W ε α) :
    after obs (after obs' r) = after (obs ++ obs') r := by
  simp only [after, List.append_assoc]

theorem andThen_done (r : Run W ε α) :
    (r.andThen fun a => ⟨fun now later => ⟨[], .done a now later⟩⟩) = r := by
  obtain ⟨trace, outcome⟩ := r
  cases outcome <;> simp [andThen, after]

theorem andThen_after (obs : List (Obs ε)) (r : Run W ε α) (f : α → Async W ε β) :
    (after obs r).andThen f = after obs (r.andThen f) := by
  obtain ⟨trace, outcome⟩ := r
  cases outcome <;> simp [andThen, after]

end Run

namespace Async

instance : Monad (Async W ε) where
  pure a := ⟨fun now later => ⟨[], .done a now later⟩⟩
  bind x f := ⟨fun now later => (x.run now later).andThen f⟩

theorem run_map (f : α → β) (x : Async W ε α) (now : W) (later : List W) :
    (f <$> x).run now later = (x.run now later).andThen fun a => pure (f a) := rfl

theorem outcome_map {f : α → β} {x : Async W ε α} {now now' : W} {later later' : List W} {b : β} :
    ((f <$> x).run now later).outcome = .done b now' later' ↔
      ∃ a, (x.run now later).outcome = .done a now' later' ∧ f a = b := by
  rw [run_map]
  generalize x.run now later = r
  obtain ⟨trace, outcome⟩ := r
  cases outcome with
  | done a n l =>
    constructor
    · intro h
      cases h
      exact ⟨a, rfl, rfl⟩
    · rintro ⟨a', ha, rfl⟩
      cases ha
      rfl
  | waiting | halted why =>
    constructor
    · intro h
      cases h
    · rintro ⟨a', ha, -⟩
      cases ha

theorem run_bind (x : Async W ε α) (f : α → Async W ε β) (now : W) (later : List W) :
    (x >>= f).run now later = (x.run now later).andThen f := rfl

theorem seq_assoc (x : Async W ε α) (f : α → Async W ε β) (g : β → Async W ε γ) :
    x >>= f >>= g = x >>= fun a => f a >>= g := by
  ext1
  funext now later
  simp only [run_bind]
  generalize x.run now later = r
  obtain ⟨trace, outcome⟩ := r
  cases outcome with
  | done a now later => exact Run.andThen_after trace ((f a).run now later) g
  | waiting => rfl
  | halted why => rfl

instance : LawfulMonad (Async W ε) :=
  LawfulMonad.mk' _
    (fun x => Async.ext (funext fun now => funext fun later => Run.andThen_done (x.run now later)))
    (fun _ _ => rfl) seq_assoc

def here : Async W ε W := ⟨fun now later => ⟨[], .done now now later⟩⟩

def perform (evs : List ε) : Async W ε Unit :=
  ⟨fun now later => ⟨evs.map .did, .done () now later⟩⟩

def unwrap : Except String α → Async W ε α
  | .ok a => pure a
  | .error message => ⟨fun _ _ => ⟨[], .halted (.panicked message)⟩⟩

theorem run_here_bind (f : W → Async W ε β) (now : W) (later : List W) :
    (here >>= f).run now later = (f now).run now later := rfl

theorem run_perform_bind (evs : List ε) (f : Unit → Async W ε β) (now : W) (later : List W) :
    (perform evs >>= f).run now later = .after (evs.map .did) ((f ()).run now later) := rfl

theorem run_unwrap_ok_bind (a : α) (f : α → Async W ε β) (now : W) (later : List W) :
    (unwrap (.ok a) >>= f).run now later = (f a).run now later := rfl

/-- What becomes of an `.await` after one call of `poll`. -/
def settle (r : Answer ε σ α) (now : W) (later : List W) (wait : σ → Run W ε α) : Run W ε α :=
  match r.verdict with
  | .ready a => ⟨r.did.map .did, .done a now later⟩
  | .pending => .after (r.did.map .did ++ [.pending]) (wait r.state)
  | .halted why => ⟨r.did.map .did, .halted why⟩

/-- Poll a future in one world after the other, until it is ready. -/
def awaitOver (poll : PollFn W ε σ α) : List W → W → σ → Run W ε α
  | [], now, s => settle (poll now s) now [] fun _ => ⟨[], .waiting⟩
  | next :: later, now, s => settle (poll now s) now (next :: later) (awaitOver poll later next)

def await (poll : PollFn W ε σ α) (s : σ) : Async W ε α :=
  ⟨fun now later => awaitOver poll later now s⟩

/-- A future that waits for its next poll. -/
def park (poll : PollFn W ε σ α) : List W → σ → Run W ε α
  | [], _ => ⟨[], .waiting⟩
  | next :: later, s => (await poll s).run next later

/-- What is left of an `.await` after the current call of `poll`. -/
def proceed (poll : PollFn W ε σ α) (call : W → Answer ε σ α) : Async W ε α :=
  ⟨fun now later => settle (call now) now later (park poll later)⟩

theorem run_await (poll : PollFn W ε σ α) (s : σ) (now : W) (later : List W) :
    (await poll s).run now later = settle (poll now s) now later (park poll later) := by
  cases later <;> rfl

end Async

namespace Answer

def after (evs : List ε) (r : Answer ε σ α) : Answer ε σ α := { r with did := evs ++ r.did }

/-- One call of the `poll` of a sequence that polls its first future: when that is ready
the call goes on with `k`. -/
def within (inj : σ → τ) (k : α → Answer ε τ β) (r : Answer ε σ α) : Answer ε τ β :=
  match r.verdict with
  | .ready a => after r.did (k a)
  | .pending => ⟨.pending, inj r.state, r.did⟩
  | .halted why => ⟨.halted why, inj r.state, r.did⟩

theorem within_ready {inj : σ → τ} {k : α → Answer ε τ β} {r : Answer ε σ α} {a : α}
    (h : r.verdict = .ready a) : r.within inj k = (k a).after r.did := by
  simp only [within, h]

/-- Two calls that answer alike and, if they are pending, leave states related by `R`. -/
structure Alike (R : σ → τ → Prop) (r : Answer ε σ α) (r' : Answer ε τ α) : Prop where
  verdict : r.verdict = r'.verdict
  did : r.did = r'.did
  state : r.verdict = .pending → R r.state r'.state

end Answer

namespace Async

theorem settle_after (evs : List ε) (r : Answer ε σ α) (now : W) (later : List W)
    (wait : σ → Run W ε α) :
    settle (r.after evs) now later wait = .after (evs.map .did) (settle r now later wait) := by
  obtain ⟨verdict, s, did⟩ := r
  cases verdict <;> simp [settle, Answer.after, Run.after]

theorem settle_alike {R : σ → τ → Prop} {r : Answer ε σ α} {r' : Answer ε τ α}
    (h : r.Alike R r') {wait : σ → Run W ε α} {wait' : τ → Run W ε α}
    (hwait : ∀ s t, R s t → wait s = wait' t) (now : W) (later : List W) :
    settle r now later wait = settle r' now later wait' := by
  obtain ⟨hverdict, hdid, hstate⟩ := h
  rw [settle, settle, hverdict, hdid]
  cases hv : r'.verdict with
  | pending =>
    have hrest := hwait _ _ (hstate (hverdict.trans hv))
    simp only [hrest]
  | _ => rfl

/-- One call of a sequence is one call of its first future, with the rest of the program
after it. -/
theorem settle_within {now : W} {later : List W} (inj : σ → τ) {k : α → Answer ε τ β}
    {f : α → Async W ε β} {wait : σ → Run W ε α} {wait' : τ → Run W ε β}
    (hready : ∀ a, settle (k a) now later wait' = (f a).run now later)
    (hwait : ∀ s, wait' (inj s) = (wait s).andThen f) (r : Answer ε σ α) :
    settle (r.within inj k) now later wait' = (settle r now later wait).andThen f := by
  obtain ⟨verdict, s, did⟩ := r
  cases verdict with
  | ready a =>
    rw [Answer.within_ready rfl, settle_after, hready]
    rfl
  | pending => simp only [settle, Answer.within, hwait, Run.andThen_after]
  | halted why => rfl

/-- Futures in sequence: a `poll` function that goes through its first future is the
program that awaits that future and goes on in the same poll. -/
theorem await_seq {p : PollFn W ε σ α} {q : PollFn W ε τ β} (inj : σ → τ)
    (k : W → α → Answer ε τ β)
    (h : ∀ now s, (q now (inj s)).Alike Eq ((p now s).within inj (k now))) (s : σ) :
    await q (inj s) = await p s >>= fun a => proceed q fun now => k now a := by
  have hstep : ∀ now later s, (await q (inj s)).run now later =
      settle ((p now s).within inj (k now)) now later (park q later) := by
    intro now later s
    rw [run_await]
    apply settle_alike (h now s)
    rintro s t rfl
    rfl
  ext1
  funext now later
  induction later generalizing s now with
  | nil =>
    rw [run_bind, run_await p, hstep]
    apply settle_within inj
    · intro a
      rfl
    · intro s
      rfl
  | cons next later ih =>
    rw [run_bind, run_await p, hstep]
    apply settle_within inj
    · intro a
      rfl
    · intro s
      exact ih s next

theorem await_congr {p : PollFn W ε σ α} {q : PollFn W ε τ α} {R : σ → τ → Prop}
    (h : ∀ now s t, R s t → (p now s).Alike R (q now t)) {s : σ} {t : τ} (hst : R s t) :
    await p s = await q t := by
  ext1
  funext now later
  induction later generalizing s t now with
  | nil =>
    rw [run_await, run_await]
    exact settle_alike (h now s t hst) (fun _ _ _ => rfl) now []
  | cons next later ih =>
    rw [run_await, run_await]
    apply settle_alike (h now s t hst)
    intro s t hst
    exact ih hst next

end Async

end AxumServer.Polling
