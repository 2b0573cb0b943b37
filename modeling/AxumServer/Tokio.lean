import Mathlib.Algebra.Order.Group.Nat

/-! # The parts of tokio the server is built from

Time is a number of nanoseconds. `Notify` is the waiter list without permits:
only `notify_waiters` is ever called on it, and it wakes exactly the futures that
were enabled before. A biased `select!` polls its arms from top to bottom and
takes the first one that is ready; here it is cut into single polls, so that
other threads may run between two arms and inside an arm.
-/

namespace AxumServer

abbrev Instant := ℕ
abbrev Duration := ℕ

def Duration.fromMillis (n : ℕ) : Duration := n * 1000000

/-- `tokio::sync::Notify`. A `Notified` future that was enabled when `calls` calls
of `notify_waiters` had been made is woken by the next one. -/
structure Notify where
  calls : ℕ := 0
  deriving DecidableEq, Repr

namespace Notify

/-- `Notified::enable`: what the future has to remember. -/
def enable (n : Notify) : ℕ := n.calls

def notifyWaiters (n : Notify) : Notify := ⟨n.calls + 1⟩

def woken (n : Notify) (ticket : ℕ) : Bool := decide (ticket < n.calls)

end Notify

/-- `tokio::sync::oneshot`, seen from its receiver. -/
inductive Oneshot where
  | empty
  | sent
  | closed
  deriving DecidableEq, Repr

/-- A poll of a biased `select!` over the arms `Arm`. -/
inductive SelectPc (Arm : Type) where
  /-- Between two polls of the task. -/
  | idle
  /-- In a poll, with the arms that are still to be polled. -/
  | next (rest : List Arm)
  /-- In a poll, inside the future of one arm. -/
  | inside (arm : Arm) (rest : List Arm)
  deriving DecidableEq, Repr

/-- `tokio::time::sleep` is ready on any poll at or after its deadline. -/
def sleepReady (deadline now : Instant) : Bool := decide (deadline ≤ now)

end AxumServer
