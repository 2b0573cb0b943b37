import AxumServer.Polling.Async

/-! # Futures built from futures

A `poll` function with a loop is given by one turn of the loop; `timeout` is tokio's,
which polls the future before the delay. A program is safe if it cannot halt without an
answer, and it is judged by what its runs do, whether they are over or not.
-/

namespace AxumServer.Polling

variable {W ε σ τ υ α β : Type}

/-- One turn of the `loop` of a `poll` function: it returns, or it goes around again. -/
inductive Turn (ε σ α : Type) where
  | stop (r : Answer ε σ α)
  | again (s : σ) (did : List ε)
  deriving DecidableEq, Repr

/-- A `loop`, left alone after `turns` turns. -/
def loop (turn : W → σ → Turn ε σ α) : ℕ → PollFn W ε σ α
  | 0, _, s => ⟨.halted .hung, s, []⟩
  | turns + 1, now, s =>
    match turn now s with
    | .stop r => r
    | .again s' did => (loop turn turns now s').after did

section Loop
variable {turn : W → σ → Turn ε σ α} {turns : ℕ} {now : W} {s s' : σ}

theorem loop_stop {r : Answer ε σ α} (h : turn now s = .stop r) :
    loop turn (turns + 1) now s = r := by
  simp only [loop, h]

theorem loop_again {did : List ε} (h : turn now s = .again s' did) :
    loop turn (turns + 1) now s = (loop turn turns now s').after did := by
  simp only [loop, h]

theorem loop_two_stop {r : Answer ε σ α} (h : turn now s = .stop r) (more : ℕ) :
    loop turn (2 + more) now s = r := by
  rw [show 2 + more = more + 1 + 1 by omega]
  exact loop_stop h

theorem loop_two_again {r : Answer ε σ α} {did : List ε} (h : turn now s = .again s' did)
    (h' : turn now s' = .stop r) (more : ℕ) : loop turn (2 + more) now s = r.after did := by
  rw [show 2 + more = more + 1 + 1 by omega, loop_again h, loop_stop h']

end Loop

/-- A `poll` function that sees a part of the world, with its effects renamed. -/
def PollFn.over {V δ : Type} (view : W → V) (name : δ → ε) (poll : PollFn V δ σ α) :
    PollFn W ε σ α := fun now s =>
  let r := poll (view now) s
  ⟨r.verdict, r.state, r.did.map name⟩

structure Elapsed where
  deriving DecidableEq, Repr

/-- `Timeout::poll`: the future first, then the delay. -/
def timeout (value : PollFn W ε σ α) (delay : PollFn W ε υ Unit) :
    PollFn W ε (σ × υ) (Except Elapsed α) := fun now s =>
  let r := value now s.1
  match r.verdict with
  | .ready a => ⟨.ready (.ok a), (r.state, s.2), r.did⟩
  | .halted why => ⟨.halted why, (r.state, s.2), r.did⟩
  | .pending =>
    let d := delay now s.2
    match d.verdict with
    | .ready _ => ⟨.ready (.error {}), (r.state, d.state), r.did ++ d.did⟩
    | .pending => ⟨.pending, (r.state, d.state), r.did ++ d.did⟩
    | .halted why => ⟨.halted why, (r.state, d.state), r.did ++ d.did⟩

theorem timeout_over {V δ : Type} (view : W → V) (name : δ → ε) (value : PollFn V δ σ α)
    (delay : PollFn V δ υ Unit) :
    timeout (value.over view name) (delay.over view name) =
      (timeout value delay).over view name := by
  funext now s
  simp only [timeout, PollFn.over]
  cases (value (view now) s.1).verdict with
  | ready a => rfl
  | halted why => rfl
  | pending => cases (delay (view now) s.2).verdict <;> simp

theorem timeout_alike {p : PollFn W ε σ α} {q : PollFn W ε τ α} {R : σ → τ → Prop} {now : W}
    {s : σ} {t : τ} (h : (p now s).Alike R (q now t)) (delay : PollFn W ε υ Unit) (d : υ) :
    (timeout p delay now (s, d)).Alike (fun x y => R x.1 y.1 ∧ x.2 = y.2)
      (timeout q delay now (t, d)) := by
  obtain ⟨hverdict, hdid, hstate⟩ := h
  simp only [timeout, hverdict, hdid]
  cases hv : (q now t).verdict with
  | ready a => exact ⟨rfl, rfl, fun h => by cases h⟩
  | halted why => exact ⟨rfl, rfl, fun h => by cases h⟩
  | pending =>
    cases hd : (delay now d).verdict with
    | pending => exact ⟨rfl, rfl, fun _ => ⟨hstate (hverdict.trans hv), rfl⟩⟩
    | ready u => exact ⟨rfl, rfl, fun h => by cases h⟩
    | halted why => exact ⟨rfl, rfl, fun h => by cases h⟩

/-! ## How a program can halt -/

def PollFn.Halts (poll : PollFn W ε σ α) (why : Halt) : Prop :=
  ∃ now s, (poll now s).verdict = .halted why

theorem PollFn.Halts.of_timeout {value : PollFn W ε σ α} {delay : PollFn W ε υ Unit} {why : Halt}
    (h : (timeout value delay).Halts why) : value.Halts why ∨ delay.Halts why := by
  obtain ⟨now, s, h⟩ := h
  simp only [timeout] at h
  cases hval : (value now s.1).verdict with
  | ready a => simp [hval] at h
  | halted w =>
    obtain rfl : w = why := by simpa [hval] using h
    exact .inl ⟨now, s.1, hval⟩
  | pending =>
    cases hdel : (delay now s.2).verdict with
    | halted w =>
      obtain rfl : w = why := by simpa [hval, hdel] using h
      exact .inr ⟨now, s.2, hdel⟩
    | _ => simp [hval, hdel] at h

namespace Async

/-- The runs of the program halt in the ways of `P` only. -/
def HaltsOnly (x : Async W ε α) (P : Halt → Prop) : Prop :=
  ∀ now later why, (x.run now later).outcome = .halted why → P why

variable {P Q : Halt → Prop}

theorem HaltsOnly.mono {x : Async W ε α} (h : HaltsOnly x P) (hPQ : ∀ why, P why → Q why) :
    HaltsOnly x Q := fun now later why hout => hPQ why (h now later why hout)

theorem haltsOnly_pure (a : α) : HaltsOnly (pure a : Async W ε α) P := fun _ _ _ h => by cases h

theorem haltsOnly_here : HaltsOnly (here : Async W ε W) P := fun _ _ _ h => by cases h

theorem haltsOnly_perform (evs : List ε) : HaltsOnly (perform evs : Async W ε Unit) P :=
  fun _ _ _ h => by cases h

theorem haltsOnly_unwrap {r : Except String α}
    (h : ∀ message, r = .error message → P (.panicked message)) :
    HaltsOnly (unwrap r : Async W ε α) P := by
  intro now later why hout
  cases r with
  | ok a => cases hout
  | error message =>
    obtain rfl : Halt.panicked message = why := by simpa [unwrap] using hout
    exact h message rfl

theorem HaltsOnly.bind {x : Async W ε α} {f : α → Async W ε β} (hx : HaltsOnly x P)
    (hf : ∀ a, HaltsOnly (f a) P) : HaltsOnly (x >>= f) P := by
  intro now later why h
  rw [run_bind, Run.andThen] at h
  cases hout : (x.run now later).outcome with
  | done a w ws =>
    rw [hout] at h
    exact hf a w ws why h
  | waiting => simp [hout] at h
  | halted w =>
    obtain rfl : w = why := by simpa [hout] using h
    exact hx now later w hout

theorem haltsOnly_await (poll : PollFn W ε σ α) (s : σ) : HaltsOnly (await poll s) poll.Halts := by
  intro now later
  induction later generalizing s now with
  | nil =>
    intro why hout
    rw [run_await, settle] at hout
    cases hv : (poll now s).verdict with
    | halted w =>
      obtain rfl : w = why := by simpa [hv] using hout
      exact ⟨now, s, hv⟩
    | _ => simp [hv, park, Run.after] at hout
  | cons next later ih =>
    intro why hout
    rw [run_await, settle] at hout
    cases hv : (poll now s).verdict with
    | halted w =>
      obtain rfl : w = why := by simpa [hv] using hout
      exact ⟨now, s, hv⟩
    | ready a => simp [hv] at hout
    | pending =>
      rw [hv] at hout
      exact ih (poll now s).state next why hout

end Async

/-! ## Hand-written futures and straight-line programs -/

/-- Every call of `poll` returns in its first turn or in its second. -/
def TwoTurns (turn : W → σ → Turn ε σ α) : Prop :=
  ∀ now s, (∃ r, turn now s = .stop r) ∨
    ∃ s' did r, turn now s = .again s' did ∧ turn now s' = .stop r

/-- From the state `s` on the hand-written future does what `program` does, in the same
polls, and it halts in the ways of `mayHalt` only. -/
structure Refines (turn : W → σ → Turn ε σ α) (s : σ) (program : Async W ε α)
    (mayHalt : Halt → Prop) : Prop where
  same : ∀ more, Async.await (loop turn (2 + more)) s = program
  twoTurns : TwoTurns turn
  halts : ∀ more, (Async.await (loop turn (2 + more)) s).HaltsOnly mayHalt

end AxumServer.Polling
