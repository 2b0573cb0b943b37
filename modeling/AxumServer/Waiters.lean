import AxumServer.NotifyOnce
import AxumServer.Interleaving.Exec
import AxumServer.Interleaving.Pool

/-! # Many waiters on one latch

Any number of calls of `notify_waiters` and of `notified` on one `NotifyOnce`, one
operation at a time. A waiter may be dropped between any two of its operations.
-/

namespace AxumServer.NotifyOnce

open Interleaving

inductive Waiter where
  | live (f : Notified)
  | returned
  | cancelled
  deriving DecidableEq, Repr

namespace Waiter

def Suspended (w : Waiter) : Prop := ∃ ticket, w = .live (.waiting ticket)

/-- The next operation of a waiter; `none` once it has returned or was dropped. -/
def step (n : NotifyOnce) : Waiter → Option Waiter
  | .live f =>
    match n.poll f with
    | .busy g => some (.live g)
    | .ready => some .returned
    | .pending => some (.live f)
  | .returned => none
  | .cancelled => none

def cancel : Waiter → Option Waiter
  | .live _ => some .cancelled
  | .returned => none
  | .cancelled => none

def WF (n : NotifyOnce) : Waiter → Prop
  | .live f => f.WF n
  | .returned => n.notified = true
  | .cancelled => True

def fuel : Waiter → ℕ
  | .live f => f.fuel
  | .returned => 0
  | .cancelled => 0

section
variable {n m : NotifyOnce} {w v : Waiter}

theorem WF.mono (h : w.WF n) (hle : n.Le m) : w.WF m := by
  cases w with
  | live f => exact Notified.WF.mono h hle
  | returned => exact hle.flag h
  | cancelled => trivial

theorem WF.step (hw : w.WF n) (hn : n.WF) (h : w.step n = some v) : v.WF n := by
  cases w with
  | live f =>
    simp only [Waiter.step] at h
    split at h <;> cases h
    next g hg => exact Notified.WF.poll hw hn hg
    next hg => exact Notified.WF.notified_of_ready hw hn hg
    next hg => exact hw
  | returned | cancelled => cases h

theorem exists_step (n : NotifyOnce) (hr : w ≠ .returned) (hc : w ≠ .cancelled) :
    ∃ v, w.step n = some v := by
  cases w with
  | live f => cases hf : n.poll f <;> simp [Waiter.step, hf]
  | returned => exact absurd rfl hr
  | cancelled => exact absurd rfl hc

theorem eq_cancelled (h : w.cancel = some v) : v = .cancelled := by
  cases w <;> cases h
  rfl

theorem WF.cancel (h : w.cancel = some v) : v.WF n := by
  rw [eq_cancelled h]
  trivial

/-- A waiter that has not suspended does not suspend once the flag is stored. -/
theorem not_suspended_step (hw : ¬ w.Suspended) (hn : n.notified = true)
    (h : w.step n = some v) : ¬ v.Suspended ∧ v.fuel < w.fuel := by
  cases w with
  | live f =>
    cases f with
    | created =>
      obtain rfl : Waiter.live (.enabled n.notify.enable) = v := Option.some.inj h
      simp [Suspended, fuel, Notified.fuel]
    | enabled ticket =>
      simp only [Waiter.step, NotifyOnce.poll, isNotified, hn, if_true] at h
      cases h
      simp [Suspended, fuel, Notified.fuel]
    | waiting ticket => exact absurd ⟨ticket, rfl⟩ hw
  | returned | cancelled => cases h

end

end Waiter

structure Shared where
  latch : NotifyOnce := {}
  callers : List Notifying := []
  waiters : List Waiter := []
  deriving DecidableEq, Repr

namespace Shared

inductive Action where
  /-- A new call of `notify_waiters`. -/
  | call
  | caller (i : ℕ)
  /-- A new call of `notified`. -/
  | wait
  | waiter (i : ℕ)
  | cancel (i : ℕ)
  deriving DecidableEq, Repr

def step (s : Shared) : Action → Option Shared
  | .call => some { s with callers := s.callers ++ [.store] }
  | .caller i =>
    (s.callers[i]?).bind fun p =>
      if p = .returned then none
      else some { s with latch := (s.latch.notifyWaiters p).1,
                         callers := s.callers.set i (s.latch.notifyWaiters p).2 }
  | .wait => some { s with waiters := s.waiters ++ [.live .created] }
  | .waiter i =>
    (s.waiters[i]?).bind fun w =>
      (w.step s.latch).map fun v => { s with waiters := s.waiters.set i v }
  | .cancel i =>
    (s.waiters[i]?).bind fun w => w.cancel.map fun v => { s with waiters := s.waiters.set i v }

abbrev Exec := Interleaving.Exec step Always

abbrev Reachable (s : Shared) : Prop := Interleaving.Reachable step Always {} s

inductive Rule (s : Shared) : Action → Shared → Prop
  | call : Rule s .call { s with callers := s.callers ++ [.store] }
  | caller (i : ℕ) (p : Notifying) (hi : s.callers[i]? = some p) (hp : p ≠ .returned) :
    Rule s (.caller i) { s with latch := (s.latch.notifyWaiters p).1,
                                callers := s.callers.set i (s.latch.notifyWaiters p).2 }
  | wait : Rule s .wait { s with waiters := s.waiters ++ [.live .created] }
  | waiter (i : ℕ) (w v : Waiter) (hi : s.waiters[i]? = some w) (hv : w.step s.latch = some v) :
    Rule s (.waiter i) { s with waiters := s.waiters.set i v }
  | cancel (i : ℕ) (w v : Waiter) (hi : s.waiters[i]? = some w) (hv : w.cancel = some v) :
    Rule s (.cancel i) { s with waiters := s.waiters.set i v }

theorem rule_of_step {s t : Shared} {a : Action} (h : s.step a = some t) : Rule s a t := by
  cases a with
  | call =>
    obtain rfl := Option.some.inj h
    exact .call
  | caller i =>
    obtain ⟨p, hi, h⟩ := Option.bind_eq_some_iff.mp h
    split at h
    next => cases h
    next hp =>
      obtain rfl := Option.some.inj h
      exact .caller i p hi hp
  | wait =>
    obtain rfl := Option.some.inj h
    exact .wait
  | waiter i =>
    obtain ⟨w, hi, h⟩ := Option.bind_eq_some_iff.mp h
    obtain ⟨v, hv, rfl⟩ := Option.map_eq_some_iff.mp h
    exact .waiter i w v hi hv
  | cancel i =>
    obtain ⟨w, hi, h⟩ := Option.bind_eq_some_iff.mp h
    obtain ⟨v, hv, rfl⟩ := Option.map_eq_some_iff.mp h
    exact .cancel i w v hi hv

def Stored (s : Shared) : Prop := ∃ p ∈ s.callers, p ≠ .store

structure WF (s : Shared) : Prop where
  latch : s.latch.WF
  callers : ∀ p ∈ s.callers, p.WF s.latch
  waiters : ∀ w ∈ s.waiters, w.WF s.latch
  stored : s.latch.notified = true → s.Stored

section
variable {s t : Shared} {a : Action} {as : List Action} {i : ℕ}

theorem Rule.le (hr : Rule s a t) : s.latch.Le t.latch := by
  cases hr with
  | caller i p => exact le_notifyWaiters _ p
  | _ => exact .refl _

theorem Rule.wf (hr : Rule s a t) (hs : s.WF) : t.WF := by
  cases hr with
  | call =>
    refine ⟨hs.latch, forall_mem_append hs.callers (fun _ => id) (by simp [Notifying.WF]),
      hs.waiters, fun hn => ?_⟩
    obtain ⟨p, hp, hne⟩ := hs.stored hn
    exact ⟨p, List.mem_append_left _ hp, hne⟩
  | caller i p hi hp =>
    have hpw := hs.callers p (List.mem_of_getElem? hi)
    have hle := le_notifyWaiters s.latch p
    refine ⟨hs.latch.notifyWaiters hpw,
      forall_mem_set hs.callers (fun q hq => Notifying.WF.mono hq hle) hpw.notifyWaiters,
      fun w hw => (hs.waiters w hw).mono hle, fun _ => ?_⟩
    refine ⟨_, List.mem_set (List.getElem?_eq_some_iff.mp hi).1 _, ?_⟩
    cases p <;> simp [notifyWaiters]
  | wait =>
    exact ⟨hs.latch, hs.callers,
      forall_mem_append hs.waiters (fun _ => id) (by simp [Waiter.WF, Notified.WF]), hs.stored⟩
  | waiter i w v hi hv =>
    have hw := hs.waiters w (List.mem_of_getElem? hi)
    exact ⟨hs.latch, hs.callers, forall_mem_set hs.waiters (fun _ => id) (hw.step hs.latch hv),
      hs.stored⟩
  | cancel i w v hi hv =>
    exact ⟨hs.latch, hs.callers, forall_mem_set hs.waiters (fun _ => id) (.cancel hv), hs.stored⟩

theorem Reachable.wf (h : Reachable s) : s.WF :=
  Interleaving.Reachable.invariant h (fun hs _ move => (rule_of_step move).wf hs)
    ⟨fun h => absurd h (lt_irrefl 0), by simp, by simp, by simp⟩

/-- Waiter `i` has not suspended, and the flag is stored. -/
def Unsuspended (i : ℕ) (s : Shared) : Prop :=
  s.latch.notified = true ∧ ∃ w, s.waiters[i]? = some w ∧ ¬ w.Suspended

def fuel (i : ℕ) (s : Shared) : ℕ := (s.waiters[i]?).elim 0 Waiter.fuel

theorem Rule.unsuspended (hr : Rule s a t) (hs : s.Unsuspended i) :
    t.Unsuspended i ∧ t.fuel i ≤ s.fuel i ∧ (a = .waiter i → t.fuel i < s.fuel i) := by
  obtain ⟨hn, hw⟩ := hs
  have hnt : t.latch.notified = true := hr.le.flag hn
  cases hr with
  | call | caller => exact ⟨⟨hnt, hw⟩, le_rfl, by simp⟩
  | wait =>
    obtain ⟨hkeep, hle⟩ := getElem?_append_keeps (μ := Waiter.fuel) hw [.live .created]
    exact ⟨⟨hnt, hkeep⟩, hle, by simp⟩
  | waiter j w v hj hv =>
    have hstep (h : ¬ w.Suspended) : ¬ v.Suspended ∧ v.fuel < w.fuel :=
      Waiter.not_suspended_step h hn hv
    obtain ⟨hkeep, hle⟩ := getElem?_set_keeps hw hj fun h => ⟨(hstep h).1, (hstep h).2.le⟩
    refine ⟨⟨hnt, hkeep⟩, hle, fun ha => ?_⟩
    obtain rfl := Action.waiter.inj ha
    exact getElem?_set_lt hw hj fun h => (hstep h).2
  | cancel j w v hj hv =>
    obtain rfl := Waiter.eq_cancelled hv
    have hnot : ¬ Waiter.cancelled.Suspended := by simp [Waiter.Suspended]
    obtain ⟨hkeep, hle⟩ := getElem?_set_keeps (μ := Waiter.fuel) hw hj fun _ =>
      ⟨hnot, Nat.zero_le _⟩
    exact ⟨⟨hnt, hkeep⟩, hle, by simp⟩

theorem Exec.unsuspended (h : Exec s as t) (hs : s.Unsuspended i) :
    t.Unsuspended i ∧ as.count (.waiter i) + t.fuel i ≤ s.fuel i := by
  refine Interleaving.Exec.countdown (· == .waiter i) h (fun hu move => ?_) hs
  obtain ⟨hkeep, hle, hown⟩ := (rule_of_step move).unsuspended hu
  exact ⟨hkeep, hle, fun ha => hown (by simpa using ha)⟩

end

/-- What the latch promises. -/
structure Lossless (s : Shared) : Prop where
  /-- No waiter returns before some caller has stored the flag. -/
  sound : .returned ∈ s.waiters → s.Stored
  /-- Once a call has returned, no waiter is suspended without having been woken, and the
  next operation of one that was is its last. -/
  woken : .returned ∈ s.callers → ∀ ticket, .live (.waiting ticket) ∈ s.waiters →
    s.latch.notify.woken ticket = true ∧
      (Waiter.live (.waiting ticket)).step s.latch = some .returned
  /-- A waiter that is started after the store does not suspend; it can make its next
  operation until it has returned or is dropped, and it makes two at most. -/
  prompt : s.Stored → ∀ as t, Exec s (.wait :: as) t → ∃ w,
    t.waiters[s.waiters.length]? = some w ∧ ¬ w.Suspended ∧
      (w ≠ .returned → w ≠ .cancelled → ∃ u, t.step (.waiter s.waiters.length) = some u) ∧
      (2 ≤ as.count (.waiter s.waiters.length) → w = .returned ∨ w = .cancelled)

/-- `NotifyOnce` is a lossless one-way latch. -/
theorem lossless {s : Shared} (hr : Reachable s) : s.Lossless := by
  have hs := hr.wf
  have hnotified : s.Stored → s.latch.notified = true := by
    rintro ⟨p, hp, hne⟩
    have hpw := hs.callers p hp
    cases p with
    | store => exact absurd rfl hne
    | wake => exact hpw
    | returned => exact NotifyOnce.Fired.notified hpw hs.latch
  refine ⟨fun hw => hs.stored (hs.waiters _ hw), fun hp ticket hw => ?_, fun hst as t hexec => ?_⟩
  · have hwaiting : Notified.WF s.latch (.waiting ticket) := hs.waiters _ hw
    have hwoken : s.latch.notify.woken ticket = true :=
      hwaiting.ready hs.latch (hs.callers _ hp)
    exact ⟨hwoken, by simp [Waiter.step, poll, hwoken]⟩
  · cases hexec with
    | cons _ move rest =>
      obtain rfl := Option.some.inj move
      have hnew : (s.waiters ++ [.live .created])[s.waiters.length]? = some (.live .created) := by
        simp
      have hu : Unsuspended s.waiters.length
          { s with waiters := s.waiters ++ [.live .created] } :=
        ⟨hnotified hst, _, hnew, by simp [Waiter.Suspended]⟩
      obtain ⟨⟨-, w, hw, hnot⟩, hcount⟩ := Exec.unsuspended rest hu
      refine ⟨w, hw, hnot, fun hret hcan => ?_, fun htwo => ?_⟩
      · obtain ⟨v, hv⟩ := Waiter.exists_step t.latch hret hcan
        simp [step, hw, hv]
      · have hstart : fuel s.waiters.length
            { s with waiters := s.waiters ++ [.live .created] } = 2 := by
          simp [fuel, Waiter.fuel, Notified.fuel]
        have hend : t.fuel s.waiters.length = w.fuel := by simp [fuel, hw]
        have hfuel : w.fuel = 0 := by omega
        cases w with
        | live f => cases f <;> simp [Waiter.fuel, Notified.fuel] at hfuel
        | returned => exact .inl rfl
        | cancelled => exact .inr rfl

/-- A waiter that suspended before the store, and one that was dropped. -/
theorem lossless_suspended : Lossless
    { latch := ⟨true, ⟨1⟩⟩, callers := [.returned],
      waiters := [.live (.waiting 0), .cancelled] } :=
  lossless ⟨[.wait, .call, .waiter 0, .waiter 0, .wait, .waiter 1, .cancel 1, .caller 0, .caller 0],
    exec_of_runIf rfl⟩

end Shared

end AxumServer.NotifyOnce
