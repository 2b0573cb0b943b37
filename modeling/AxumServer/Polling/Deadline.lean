import AxumServer.Polling.Future
import AxumServer.Polling.Schedule
import Mathlib.Order.Lattice

/-! # Futures with a deadline

A `Timeout` gives its future the polls before a deadline and the first one at or after it.
What comes of the timeout is what comes of the future in these polls alone.
-/

namespace AxumServer.Polling

variable {W ε σ υ α : Type}

/-- The outcome in the polls up to a deadline, with those that are left of the schedule:
a future that still waits has run out of time. -/
def Outcome.orElapsed (due : Option (W × List W)) : Outcome W α → Outcome W (Except Elapsed α)
  | .done a now later => .done (.ok a) now (later ++ due.elim [] Prod.snd)
  | .waiting => due.elim .waiting fun (now, later) => .done (.error {}) now later
  | .halted why => .halted why

variable {K : Type} [LinearOrder K] {clock : W → K} {deadline : υ → K} {d : K} {now : W}
  {later : List W}

/-- A delay that is pending before its deadline, which stays, and ready from then on. -/
structure DueFrom (clock : W → K) (deadline : υ → K) (delay : PollFn W ε υ Unit) : Prop where
  early : ∀ {now t}, clock now < deadline t →
    (delay now t).verdict = .pending ∧ deadline (delay now t).state = deadline t
  due : ∀ {now t}, deadline t ≤ clock now → (delay now t).verdict = .ready ()

/-- The polls after `now` up to the first at or after the deadline, and that poll with
those that are left. -/
def cutOff (clock : W → K) (d : K) : W → List W → List W × Option (W × List W)
  | now, [] => ([], if d ≤ clock now then some (now, []) else none)
  | now, next :: later =>
    if d ≤ clock now then ([], some (now, next :: later))
    else (next :: (cutOff clock d next later).1, (cutOff clock d next later).2)

theorem cutOff_of_due (h : d ≤ clock now) (later : List W) :
    cutOff clock d now later = ([], some (now, later)) := by
  cases later <;> simp [cutOff, h]

theorem cutOff_nil_of_early (h : clock now < d) : cutOff clock d now [] = ([], none) := by
  simp [cutOff, not_le.mpr h]

theorem cutOff_cons_of_early (h : clock now < d) (next : W) (later : List W) :
    cutOff clock d now (next :: later) =
      (next :: (cutOff clock d next later).1, (cutOff clock d next later).2) := by
  simp [cutOff, not_le.mpr h]

theorem cutOff_eq_none : (cutOff clock d now later).2 = none ↔
    ∀ w ∈ now :: later, clock w < d := by
  induction later generalizing now with
  | nil =>
    rcases lt_or_ge (clock now) d with h | h
    · simp [cutOff_nil_of_early h, h]
    · simp [cutOff_of_due h, h]
  | cons next later ih =>
    rcases lt_or_ge (clock now) d with h | h
    · rw [cutOff_cons_of_early h, ih]
      simp [h]
    · simp [cutOff_of_due h, not_lt.mpr h]

theorem cutOff_eq_some {w : W} {rest : List W} (h : (cutOff clock d now later).2 = some (w, rest)) :
    d ≤ clock w ∧ w ∈ now :: later := by
  induction later generalizing now with
  | nil =>
    rcases lt_or_ge (clock now) d with hd | hd
    · simp [cutOff_nil_of_early hd] at h
    · rw [cutOff_of_due hd] at h
      obtain ⟨rfl, rfl⟩ := by simpa using h
      simpa using hd
  | cons next later ih =>
    rcases lt_or_ge (clock now) d with hd | hd
    · rw [cutOff_cons_of_early hd] at h
      obtain ⟨hdue, hmem⟩ := ih h
      exact ⟨hdue, List.mem_cons_of_mem _ hmem⟩
    · rw [cutOff_of_due hd] at h
      obtain ⟨rfl, rfl⟩ := by simpa using h
      simpa using hd

theorem cutOff_append (clock : W → K) (d : K) (now : W) (later : List W) :
    (cutOff clock d now later).1 ++ (cutOff clock d now later).2.elim [] Prod.snd = later := by
  induction later generalizing now with
  | nil =>
    rcases lt_or_ge (clock now) d with hd | hd
    · simp [cutOff_nil_of_early hd]
    · simp [cutOff_of_due hd]
  | cons next later ih =>
    rcases lt_or_ge (clock now) d with hd | hd
    · simp [cutOff_cons_of_early hd, ih]
    · simp [cutOff_of_due hd]

section Timeout
variable {value : PollFn W ε σ α} {delay : PollFn W ε υ Unit} {s : σ} {t : υ}

theorem timeout_ready {a : α} (h : (value now s).verdict = .ready a) :
    (timeout value delay now (s, t)).verdict = .ready (.ok a) := by
  simp only [timeout, h]

theorem timeout_halted {why : Halt} (h : (value now s).verdict = .halted why) :
    (timeout value delay now (s, t)).verdict = .halted why := by
  simp only [timeout, h]

theorem timeout_due (hd : DueFrom clock deadline delay) (h : (value now s).verdict = .pending)
    (hdue : deadline t ≤ clock now) :
    (timeout value delay now (s, t)).verdict = .ready (.error {}) := by
  simp only [timeout, h, hd.due hdue]

theorem timeout_early (hd : DueFrom clock deadline delay) (h : (value now s).verdict = .pending)
    (hearly : clock now < deadline t) :
    (timeout value delay now (s, t)).verdict = .pending ∧
      (timeout value delay now (s, t)).state = ((value now s).state, (delay now t).state) := by
  simp only [timeout, h, (hd.early hearly).1, and_self]

/-- In a poll in which the future does not stay pending the delay is not looked at. -/
theorem outcome_timeout_of_settled (h : (value now s).verdict ≠ .pending) (later : List W)
    (due : Option (W × List W)) :
    ((Async.await (timeout value delay) (s, t)).run now (later ++ due.elim [] Prod.snd)).outcome =
      (((Async.await value s).run now later).outcome).orElapsed due := by
  cases hv : (value now s).verdict with
  | ready a =>
    rw [Async.outcome_await_ready (timeout_ready hv), Async.outcome_await_ready hv]
    rfl
  | halted why =>
    rw [Async.outcome_await_halted (timeout_halted hv), Async.outcome_await_halted hv]
    rfl
  | pending => exact absurd hv h

/-- What comes of a timeout is what comes of the future in the polls before the deadline
and the first one at or after it; there the timeout is over if the future is not ready. -/
theorem outcome_timeout (hd : DueFrom clock deadline delay) (now : W) (later : List W) :
    ((Async.await (timeout value delay) (s, t)).run now later).outcome =
      (((Async.await value s).run now (cutOff clock (deadline t) now later).1).outcome).orElapsed
        (cutOff clock (deadline t) now later).2 := by
  by_cases hv : (value now s).verdict = .pending
  case neg =>
    rw [← outcome_timeout_of_settled hv, cutOff_append]
  induction later generalizing now s t with
  | nil =>
    rcases lt_or_ge (clock now) (deadline t) with h | h
    · rw [Async.outcome_await_pending_nil (timeout_early hd hv h).1, cutOff_nil_of_early h,
        Async.outcome_await_pending_nil hv]
      rfl
    · rw [Async.outcome_await_ready (timeout_due hd hv h), cutOff_of_due h,
        Async.outcome_await_pending_nil hv]
      rfl
  | cons next later ih =>
    rcases lt_or_ge (clock now) (deadline t) with h | h
    · obtain ⟨hpend, hstate⟩ := timeout_early hd hv h
      rw [Async.outcome_await_pending_cons hpend, hstate, cutOff_cons_of_early h,
        Async.outcome_await_pending_cons hv, ← (hd.early h).2]
      by_cases hnext : (value next (value now s).state).verdict = .pending
      · exact ih next hnext
      · rw [← outcome_timeout_of_settled hnext, cutOff_append]
    · rw [Async.outcome_await_ready (timeout_due hd hv h), cutOff_of_due h,
        Async.outcome_await_pending_nil hv]
      rfl

end Timeout

end AxumServer.Polling
