import AxumServer.Polling.Async

/-! # Futures over a schedule of polls

A future that is awaited is polled in one world after the other. Either it stays pending
in all of them, and is left in some state, or one of them is the last.
-/

namespace AxumServer.Polling

variable {W ε σ α β : Type} {poll : PollFn W ε σ α} {s s' : σ} {now next : W} {later ws : List W}
  {a : α} {why : Halt}

def Outcome.bind (f : α → W → List W → Outcome W β) : Outcome W α → Outcome W β
  | .done a now later => f a now later
  | .waiting => .waiting
  | .halted why => .halted why

def Outcome.map (f : α → β) : Outcome W α → Outcome W β := Outcome.bind fun a => .done (f a)

theorem Outcome.map_eq_waiting {f : α → β} {o : Outcome W α} (h : o.map f = .waiting) :
    o = .waiting := by
  cases o with
  | waiting => rfl
  | done a w rest => cases h
  | halted why => cases h

theorem Outcome.map_eq_done {f : α → β} {o : Outcome W α} {b : β} {w : W} {rest : List W}
    (h : o.map f = .done b w rest) : ∃ a, o = .done a w rest ∧ f a = b := by
  cases o with
  | waiting => cases h
  | done a w rest =>
    cases h
    exact ⟨a, rfl, rfl⟩
  | halted why => cases h

namespace Async

theorem outcome_bind (x : Async W ε α) (f : α → Async W ε β) (now : W) (later : List W) :
    ((x >>= f).run now later).outcome =
      (x.run now later).outcome.bind fun a now later => ((f a).run now later).outcome := by
  rw [run_bind, Run.andThen]
  cases (x.run now later).outcome <;> rfl

theorem outcome_await_ready (h : (poll now s).verdict = .ready a) (later : List W) :
    ((await poll s).run now later).outcome = .done a now later := by
  rw [run_await, settle, h]

theorem outcome_await_halted (h : (poll now s).verdict = .halted why) (later : List W) :
    ((await poll s).run now later).outcome = .halted why := by
  rw [run_await, settle, h]

theorem outcome_await_pending_nil (h : (poll now s).verdict = .pending) :
    ((await poll s).run now []).outcome = .waiting := by
  rw [run_await, settle, h]
  rfl

theorem outcome_await_pending_cons (h : (poll now s).verdict = .pending) (next : W)
    (later : List W) : ((await poll s).run now (next :: later)).outcome =
      ((await poll (poll now s).state).run next later).outcome := by
  rw [run_await, settle, h]
  rfl

theorem outcome_await_append {later' : List W} {w : W}
    (h : ((await poll s).run now later).outcome = .done a w later') (rest : List W) :
    ((await poll s).run now (later ++ rest)).outcome = .done a w (later' ++ rest) := by
  induction later generalizing now s with
  | nil =>
    cases hv : (poll now s).verdict with
    | ready b =>
      rw [outcome_await_ready hv] at h ⊢
      cases h
      rfl
    | halted why =>
      rw [outcome_await_halted hv] at h
      cases h
    | pending =>
      rw [outcome_await_pending_nil hv] at h
      cases h
  | cons next later ih =>
    cases hv : (poll now s).verdict with
    | ready b =>
      rw [outcome_await_ready hv] at h ⊢
      cases h
      rfl
    | halted why =>
      rw [outcome_await_halted hv] at h
      cases h
    | pending =>
      rw [outcome_await_pending_cons hv] at h
      exact (outcome_await_pending_cons hv next (later ++ rest)).trans (ih h)

/-- The outcome over a schedule; a program that is not polled waits. -/
def outcomeOn (x : Async W ε α) : List W → Outcome W α
  | [] => .waiting
  | now :: later => (x.run now later).outcome

end Async

/-- The future stays pending in the polls of a schedule, from the state `s` to `s'`. -/
inductive Waits (poll : PollFn W ε σ α) : σ → List W → σ → Prop
  | nil (s : σ) : Waits poll s [] s
  | cons {s s' : σ} {now : W} {later : List W} (hp : (poll now s).verdict = .pending)
      (rest : Waits poll (poll now s).state later s') : Waits poll s (now :: later) s'

theorem Waits.snoc (h : Waits poll s ws s') (hp : (poll now s').verdict = .pending) :
    Waits poll s (ws ++ [now]) (poll now s').state := by
  induction h with
  | nil s => exact .cons hp (.nil _)
  | cons hq _ ih => exact .cons hq (ih hp)

theorem Waits.outcomeOn (h : Waits poll s ws s') :
    (Async.await poll s).outcomeOn ws = .waiting := by
  induction h with
  | nil => rfl
  | @cons s s' now later hp rest ih =>
    cases later with
    | nil => exact Async.outcome_await_pending_nil hp
    | cons next later => exact (Async.outcome_await_pending_cons hp next later).trans ih

/-- After the polls in which the future stayed pending, it is awaited from where it was
left. -/
theorem Waits.outcomeOn_append (h : Waits poll s ws s') (now : W) (later : List W) :
    (Async.await poll s).outcomeOn (ws ++ now :: later) =
      ((Async.await poll s').run now later).outcome := by
  induction h with
  | nil => rfl
  | @cons s s' w ws hp rest ih =>
    cases ws with
    | nil => exact (Async.outcome_await_pending_cons hp now later).trans ih
    | cons next ws => exact (Async.outcome_await_pending_cons hp next _).trans ih

end AxumServer.Polling
