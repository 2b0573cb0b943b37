import AxumServer.Tokio

/-! # `NotifyOnce`, a one-way latch

The flag and the waiter list are two objects, and each side touches them in two
operations: `notify_waiters` stores the flag and then wakes, `notified` enables
its future and then loads the flag. Every operation is a step of its own.
-/

namespace AxumServer

structure NotifyOnce where
  notified : Bool := false
  notify : Notify := {}
  deriving DecidableEq, Repr

/-- Where a call of `notify_waiters` stands. -/
inductive Notifying where
  | store
  | wake
  | returned
  deriving DecidableEq, Repr

/-- The future of `notified()`. -/
inductive Notified where
  | created
  | enabled (ticket : ℕ)
  | waiting (ticket : ℕ)
  deriving DecidableEq, Repr

inductive Polled where
  | busy (f : Notified)
  | ready
  | pending
  deriving DecidableEq, Repr

namespace NotifyOnce

def notifyWaiters (n : NotifyOnce) : Notifying → NotifyOnce × Notifying
  | .store => ({ n with notified := true }, .wake)
  | .wake => ({ n with notify := n.notify.notifyWaiters }, .returned)
  | .returned => (n, .returned)

def isNotified (n : NotifyOnce) : Bool := n.notified

def poll (n : NotifyOnce) : Notified → Polled
  | .created => .busy (.enabled n.notify.enable)
  | .enabled ticket => if n.isNotified then .ready else .busy (.waiting ticket)
  | .waiting ticket => if n.notify.woken ticket then .ready else .pending

/-- A latch only ever moves forward. -/
structure Le (n m : NotifyOnce) : Prop where
  flag : n.notified = true → m.notified = true
  calls : n.notify.calls ≤ m.notify.calls

theorem Le.refl (n : NotifyOnce) : n.Le n := ⟨id, le_rfl⟩

theorem Le.trans {n m l : NotifyOnce} (h : n.Le m) (g : m.Le l) : n.Le l :=
  ⟨g.flag ∘ h.flag, h.calls.trans g.calls⟩

theorem Le.unset {n m : NotifyOnce} (h : n.Le m) (hm : m.notified = false) :
    n.notified = false := by
  cases hn : n.notified with
  | false => rfl
  | true => exact absurd (h.flag hn) (by simp [hm])

/-- Waiters are woken only after the flag was stored. -/
def WF (n : NotifyOnce) : Prop := 0 < n.notify.calls → n.notified = true

/-- Some call of `notify_waiters` has carried out both of its operations. -/
def Fired (n : NotifyOnce) : Prop := 0 < n.notify.calls

theorem Fired.mono {n m : NotifyOnce} (h : n.Fired) (hle : n.Le m) : m.Fired :=
  lt_of_lt_of_le h hle.calls

end NotifyOnce

def Notifying.WF (n : NotifyOnce) : Notifying → Prop
  | .store => True
  | .wake => n.notified = true
  | .returned => n.Fired

/-- What a waiter has established so far. One that saw the flag unset did so
before any waiter was ever woken. -/
def Notified.WF (n : NotifyOnce) : Notified → Prop
  | .created => True
  | .enabled ticket => ticket ≤ n.notify.calls
  | .waiting ticket => ticket = 0

/-- The waiter returns when it is polled next. -/
def Notified.Ready (n : NotifyOnce) : Notified → Prop
  | .created => n.notified = true
  | .enabled _ => n.notified = true
  | .waiting ticket => n.notify.woken ticket = true

instance (n : NotifyOnce) (f : Notified) : Decidable (f.Ready n) := by
  cases f <;> unfold Notified.Ready <;> infer_instance

def Notified.fuel : Notified → ℕ
  | .created => 2
  | .enabled _ => 1
  | .waiting _ => 1

section Lemmas
variable {n m : NotifyOnce} {f g : Notified} {p : Notifying}

theorem Notifying.WF.mono (h : p.WF n) (hle : n.Le m) : p.WF m := by
  cases p with
  | store => trivial
  | wake => exact hle.flag h
  | returned => exact NotifyOnce.Fired.mono h hle

theorem Notified.WF.mono (h : f.WF n) (hle : n.Le m) : f.WF m := by
  cases f with
  | created => trivial
  | enabled ticket => exact le_trans h hle.calls
  | waiting ticket => exact h

theorem Notified.Ready.mono (h : f.Ready n) (hle : n.Le m) : f.Ready m := by
  cases f with
  | created => exact hle.flag h
  | enabled ticket => exact hle.flag h
  | waiting ticket =>
    simp only [Notified.Ready, Notify.woken, decide_eq_true_eq] at h ⊢
    exact lt_of_lt_of_le h hle.calls

theorem NotifyOnce.le_notifyWaiters (n : NotifyOnce) (p : Notifying) :
    n.Le (n.notifyWaiters p).1 := by
  cases p with
  | store => exact ⟨fun _ => rfl, le_rfl⟩
  | wake => exact ⟨id, Nat.le_succ _⟩
  | returned => exact .refl n

theorem NotifyOnce.WF.notifyWaiters (h : n.WF) (hp : p.WF n) : (n.notifyWaiters p).1.WF := by
  cases p with
  | store => exact fun _ => rfl
  | wake => exact fun _ => hp
  | returned => exact h

theorem Notifying.WF.notifyWaiters (h : p.WF n) :
    (n.notifyWaiters p).2.WF (n.notifyWaiters p).1 := by
  cases p with
  | store => rfl
  | wake => exact Nat.succ_pos _
  | returned => exact h

theorem NotifyOnce.Fired.notified (h : n.Fired) (hn : n.WF) : n.notified = true := hn h

theorem Notified.WF.poll (hf : f.WF n) (hn : n.WF) (h : n.poll f = .busy g) : g.WF n := by
  cases f with
  | created =>
    obtain rfl : Notified.enabled n.notify.enable = g := Polled.busy.inj h
    exact le_rfl
  | enabled ticket =>
    cases hflag : n.notified with
    | true => simp [NotifyOnce.poll, NotifyOnce.isNotified, hflag] at h
    | false =>
      obtain rfl : Notified.waiting ticket = g := by
        simpa [NotifyOnce.poll, NotifyOnce.isNotified, hflag] using h
      -- the flag is unset, so nobody has been woken yet
      have hcalls : ¬ 0 < n.notify.calls := fun hc => by simp [hn hc] at hflag
      exact Nat.le_zero.mp (le_trans hf (Nat.le_of_not_lt hcalls))
  | waiting ticket =>
    simp only [NotifyOnce.poll] at h
    split_ifs at h

/-- No waiter returns before the flag is stored. -/
theorem Notified.WF.notified_of_ready (hf : f.WF n) (hn : n.WF) (h : n.poll f = .ready) :
    n.notified = true := by
  cases f with
  | created => simp [NotifyOnce.poll] at h
  | enabled ticket =>
    cases hflag : n.notified with
    | true => rfl
    | false => simp [NotifyOnce.poll, NotifyOnce.isNotified, hflag] at h
  | waiting ticket =>
    simp only [NotifyOnce.poll, Notify.woken, decide_eq_true_eq] at h
    split_ifs at h with hw
    exact hn (lt_of_le_of_lt (Nat.zero_le _) hw)

/-- Once a call has returned, every waiter is ready, whenever it started. -/
theorem Notified.WF.ready (hf : f.WF n) (hn : n.WF) (h : n.Fired) : f.Ready n := by
  cases f with
  | created => exact hn h
  | enabled ticket => exact hn h
  | waiting ticket =>
    obtain rfl : ticket = 0 := hf
    simpa [Notified.Ready, Notify.woken, NotifyOnce.Fired] using h

theorem Notified.Ready.notified (h : f.Ready n) (hn : n.WF) : n.notified = true := by
  cases f with
  | created => exact h
  | enabled ticket => exact h
  | waiting ticket =>
    simp only [Notified.Ready, Notify.woken, decide_eq_true_eq] at h
    exact hn (lt_of_le_of_lt (Nat.zero_le _) h)

theorem Notified.Ready.poll (h : f.Ready n) (hp : n.poll f = .busy g) :
    g.Ready n ∧ g.fuel < f.fuel := by
  cases f with
  | created =>
    obtain rfl : Notified.enabled n.notify.enable = g := Polled.busy.inj hp
    exact ⟨h, Nat.lt_succ_self 1⟩
  | enabled ticket =>
    have hflag : n.notified = true := h
    simp [NotifyOnce.poll, NotifyOnce.isNotified, hflag] at hp
  | waiting ticket =>
    have hw : n.notify.woken ticket = true := h
    simp [NotifyOnce.poll, hw] at hp

theorem Notified.Ready.poll_ne_pending (h : f.Ready n) : n.poll f ≠ .pending := by
  cases f with
  | created => simp [NotifyOnce.poll]
  | enabled ticket =>
    have hflag : n.notified = true := h
    simp [NotifyOnce.poll, NotifyOnce.isNotified, hflag]
  | waiting ticket =>
    have hw : n.notify.woken ticket = true := h
    simp [NotifyOnce.poll, hw]

end Lemmas

end AxumServer
