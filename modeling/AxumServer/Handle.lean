import AxumServer.NotifyOnce

/-! # `Handle` and `Watcher`

The shared cells of a server and everything that touches them from outside its
own tasks: the calls of a handle's owners, and the life of a `Watcher`. Every
atomic operation, lock and wake-up is one step, so that calls interleave freely.
-/

namespace AxumServer

variable {A : Type}

/-- `HandleInner`. -/
structure Handle (A : Type) where
  addr : Option A := none
  addrNotify : NotifyOnce := {}
  connCount : ℕ := 0
  shutdown : NotifyOnce := {}
  graceful : NotifyOnce := {}
  gracefulDur : Option Duration := none
  connEnd : NotifyOnce := {}
  deriving DecidableEq, Repr

namespace Handle

def connectionCount (h : Handle A) : ℕ := h.connCount

/-- The next operation of `shutdown`. -/
def notifyShutdown (h : Handle A) (p : Notifying) : Handle A × Notifying :=
  ({ h with shutdown := (h.shutdown.notifyWaiters p).1 }, (h.shutdown.notifyWaiters p).2)

/-- The first operation of `graceful_shutdown`. -/
def setGracefulDur (h : Handle A) (duration : Option Duration) : Handle A :=
  { h with gracefulDur := duration }

def notifyGraceful (h : Handle A) (p : Notifying) : Handle A × Notifying :=
  ({ h with graceful := (h.graceful.notifyWaiters p).1 }, (h.graceful.notifyWaiters p).2)

/-- The first operation of `notify_listening`. -/
def setAddr (h : Handle A) (addr : Option A) : Handle A := { h with addr := addr }

def notifyAddr (h : Handle A) (p : Notifying) : Handle A × Notifying :=
  ({ h with addrNotify := (h.addrNotify.notifyWaiters p).1 }, (h.addrNotify.notifyWaiters p).2)

def notifyConnEnd (h : Handle A) (p : Notifying) : Handle A × Notifying :=
  ({ h with connEnd := (h.connEnd.notifyWaiters p).1 }, (h.connEnd.notifyWaiters p).2)

/-- `Watcher::new`. -/
def watcher (h : Handle A) : Handle A := { h with connCount := h.connCount + 1 }

/-- The latches move forward; the other cells are free. -/
structure Le (h k : Handle A) : Prop where
  addrNotify : h.addrNotify.Le k.addrNotify
  shutdown : h.shutdown.Le k.shutdown
  graceful : h.graceful.Le k.graceful
  connEnd : h.connEnd.Le k.connEnd

structure WF (h : Handle A) : Prop where
  addrNotify : h.addrNotify.WF
  shutdown : h.shutdown.WF
  graceful : h.graceful.WF
  connEnd : h.connEnd.WF

theorem Le.refl (h : Handle A) : h.Le h := ⟨.refl _, .refl _, .refl _, .refl _⟩

theorem Le.trans {h k l : Handle A} (g : h.Le k) (f : k.Le l) : h.Le l :=
  ⟨g.addrNotify.trans f.addrNotify, g.shutdown.trans f.shutdown, g.graceful.trans f.graceful,
    g.connEnd.trans f.connEnd⟩

theorem wf_new : (({} : Handle A)).WF := by
  constructor <;> exact fun h => absurd h (lt_irrefl 0)

theorem le_notifyShutdown (h : Handle A) (p : Notifying) : h.Le (h.notifyShutdown p).1 :=
  ⟨.refl _, NotifyOnce.le_notifyWaiters _ p, .refl _, .refl _⟩

theorem le_notifyGraceful (h : Handle A) (p : Notifying) : h.Le (h.notifyGraceful p).1 :=
  ⟨.refl _, .refl _, NotifyOnce.le_notifyWaiters _ p, .refl _⟩

theorem le_notifyAddr (h : Handle A) (p : Notifying) : h.Le (h.notifyAddr p).1 :=
  ⟨NotifyOnce.le_notifyWaiters _ p, .refl _, .refl _, .refl _⟩

theorem le_notifyConnEnd (h : Handle A) (p : Notifying) : h.Le (h.notifyConnEnd p).1 :=
  ⟨.refl _, .refl _, .refl _, NotifyOnce.le_notifyWaiters _ p⟩

theorem WF.notifyShutdown {h : Handle A} {p : Notifying} (hw : h.WF) (hp : p.WF h.shutdown) :
    (h.notifyShutdown p).1.WF :=
  ⟨hw.addrNotify, hw.shutdown.notifyWaiters hp, hw.graceful, hw.connEnd⟩

theorem WF.notifyGraceful {h : Handle A} {p : Notifying} (hw : h.WF) (hp : p.WF h.graceful) :
    (h.notifyGraceful p).1.WF :=
  ⟨hw.addrNotify, hw.shutdown, hw.graceful.notifyWaiters hp, hw.connEnd⟩

theorem WF.notifyAddr {h : Handle A} {p : Notifying} (hw : h.WF) (hp : p.WF h.addrNotify) :
    (h.notifyAddr p).1.WF :=
  ⟨hw.addrNotify.notifyWaiters hp, hw.shutdown, hw.graceful, hw.connEnd⟩

theorem WF.notifyConnEnd {h : Handle A} {p : Notifying} (hw : h.WF) (hp : p.WF h.connEnd) :
    (h.notifyConnEnd p).1.WF :=
  ⟨hw.addrNotify, hw.shutdown, hw.graceful, hw.connEnd.notifyWaiters hp⟩

end Handle

/-! ## Dropping a `Watcher` -/

/-- Where `Watcher::drop` stands. -/
inductive WatcherDrop where
  | fetchSub
  /-- The count that was left is remembered while other threads run. -/
  | counted (count : ℕ)
  /-- In `conn_end.notify_waiters()`. -/
  | connEndStore
  | connEndWake
  deriving DecidableEq, Repr

/-- The next operation of `Watcher::drop`; `none` when it returns. -/
def Handle.dropStep (h : Handle A) : WatcherDrop → Handle A × Option WatcherDrop
  | .fetchSub => ({ h with connCount := h.connCount - 1 }, some (.counted (h.connCount - 1)))
  | .counted count =>
    (h, if count = 0 ∧ h.graceful.isNotified = true then some .connEndStore else none)
  | .connEndStore => ((h.notifyConnEnd .store).1, some .connEndWake)
  | .connEndWake => ((h.notifyConnEnd .wake).1, none)

/-- What a drop has established so far: it signals only after it saw `graceful`. -/
def WatcherDrop.WF (h : Handle A) : WatcherDrop → Prop
  | .fetchSub => True
  | .counted _ => True
  | .connEndStore => h.graceful.notified = true
  | .connEndWake => h.graceful.notified = true ∧ h.connEnd.notified = true

def WatcherDrop.fuel : WatcherDrop → ℕ
  | .fetchSub => 4
  | .counted _ => 3
  | .connEndStore => 2
  | .connEndWake => 1

theorem WatcherDrop.WF.mono {h k : Handle A} {d : WatcherDrop} (hd : d.WF h) (hle : h.Le k) :
    d.WF k := by
  cases d with
  | fetchSub => trivial
  | counted count => trivial
  | connEndStore => exact hle.graceful.flag hd
  | connEndWake => exact ⟨hle.graceful.flag hd.1, hle.connEnd.flag hd.2⟩

/-- A drop only touches the count and `conn_end`. -/
structure Handle.DropFrame (h k : Handle A) : Prop where
  addr : k.addr = h.addr
  addrNotify : k.addrNotify = h.addrNotify
  shutdown : k.shutdown = h.shutdown
  graceful : k.graceful = h.graceful
  gracefulDur : k.gracefulDur = h.gracefulDur

section DropStep
variable {h : Handle A} {d e : WatcherDrop}

theorem Handle.dropFrame_dropStep (h : Handle A) (d : WatcherDrop) :
    h.DropFrame (h.dropStep d).1 := by
  cases d <;> exact ⟨rfl, rfl, rfl, rfl, rfl⟩

theorem Handle.le_dropStep (h : Handle A) (d : WatcherDrop) : h.Le (h.dropStep d).1 := by
  cases d with
  | fetchSub => exact ⟨.refl _, .refl _, .refl _, .refl _⟩
  | counted count => exact .refl h
  | connEndStore => exact h.le_notifyConnEnd .store
  | connEndWake => exact h.le_notifyConnEnd .wake

theorem Handle.WF.dropStep (hw : h.WF) (hd : d.WF h) : (h.dropStep d).1.WF := by
  cases d with
  | fetchSub => exact ⟨hw.addrNotify, hw.shutdown, hw.graceful, hw.connEnd⟩
  | counted count => exact hw
  | connEndStore => exact hw.notifyConnEnd (p := .store) trivial
  | connEndWake => exact hw.notifyConnEnd (p := .wake) hd.2

theorem WatcherDrop.WF.dropStep (hd : d.WF h) (hs : (h.dropStep d).2 = some e) :
    e.WF (h.dropStep d).1 ∧ e.fuel < d.fuel := by
  cases d with
  | fetchSub =>
    obtain rfl := Option.some.inj hs
    exact ⟨trivial, Nat.lt_succ_self 3⟩
  | counted count =>
    simp only [Handle.dropStep] at hs
    split at hs
    next hc =>
      obtain rfl := Option.some.inj hs
      exact ⟨hc.2, Nat.lt_succ_self 2⟩
    next => cases hs
  | connEndStore =>
    obtain rfl := Option.some.inj hs
    exact ⟨⟨hd, rfl⟩, Nat.lt_succ_self 1⟩
  | connEndWake => cases hs

end DropStep

/-! ## Calls on a handle -/

inductive Call where
  | shutdown
  | gracefulShutdown (duration : Option Duration)
  | connectionCount
  | listening
  deriving DecidableEq, Repr

/-- Where a call stands. -/
inductive Caller (A : Type) where
  | shutdown (p : Notifying)
  /-- `graceful_shutdown`, about to store the duration. -/
  | gracefulDur (duration : Option Duration)
  | graceful (duration : Option Duration) (p : Notifying)
  | connectionCount (read : Option ℕ)
  | listening (f : Notified)
  /-- `listening`, past the latch and about to read the address. -/
  | listeningAddr
  | listened (addr : Option A)
  deriving DecidableEq, Repr

def Call.start : Call → Caller A
  | .shutdown => .shutdown .store
  | .gracefulShutdown duration => .gracefulDur duration
  | .connectionCount => .connectionCount none
  | .listening => .listening .created

/-- The next operation of a call; `none` once it has returned. -/
def Caller.step (h : Handle A) : Caller A → Option (Handle A × Caller A)
  | .shutdown .returned => none
  | .shutdown p => some ((h.notifyShutdown p).1, .shutdown (h.notifyShutdown p).2)
  | .gracefulDur duration => some (h.setGracefulDur duration, .graceful duration .store)
  | .graceful _ .returned => none
  | .graceful duration p =>
    some ((h.notifyGraceful p).1, .graceful duration (h.notifyGraceful p).2)
  | .connectionCount none => some (h, .connectionCount (some h.connectionCount))
  | .connectionCount (some _) => none
  | .listening f =>
    match h.addrNotify.poll f with
    | .busy g => some (h, .listening g)
    | .ready => some (h, .listeningAddr)
    | .pending => some (h, .listening f)
  | .listeningAddr => some (h, .listened h.addr)
  | .listened _ => none

def Caller.WF (h : Handle A) : Caller A → Prop
  | .shutdown p => p.WF h.shutdown
  | .gracefulDur _ => True
  | .graceful _ p => p.WF h.graceful
  | .connectionCount _ => True
  | .listening f => f.WF h.addrNotify
  | .listeningAddr => h.addrNotify.notified = true
  | .listened _ => h.addrNotify.notified = true

theorem Call.wf_start (h : Handle A) (c : Call) : (c.start : Caller A).WF h := by
  cases c <;> trivial

theorem Caller.WF.mono {h k : Handle A} {c : Caller A} (hc : c.WF h) (hle : h.Le k) : c.WF k := by
  cases c with
  | shutdown p => exact Notifying.WF.mono hc hle.shutdown
  | gracefulDur duration => trivial
  | graceful duration p => exact Notifying.WF.mono hc hle.graceful
  | connectionCount read => trivial
  | listening f => exact Notified.WF.mono hc hle.addrNotify
  | listeningAddr => exact hle.addrNotify.flag hc
  | listened addr => exact hle.addrNotify.flag hc

/-- A call only touches the shutdown and graceful latches and the grace period. -/
structure Handle.CallFrame (h k : Handle A) : Prop where
  addr : k.addr = h.addr
  addrNotify : k.addrNotify = h.addrNotify
  connCount : k.connCount = h.connCount
  connEnd : k.connEnd = h.connEnd

section CallerStep
variable {h k : Handle A} {c d : Caller A}

inductive Caller.Rule (h : Handle A) : Caller A → Handle A → Caller A → Prop
  | shutdown (p : Notifying) (hp : p ≠ .returned) :
    Rule h (.shutdown p) (h.notifyShutdown p).1 (.shutdown (h.notifyShutdown p).2)
  | gracefulDur (duration : Option Duration) :
    Rule h (.gracefulDur duration) (h.setGracefulDur duration) (.graceful duration .store)
  | graceful (duration : Option Duration) (p : Notifying) (hp : p ≠ .returned) :
    Rule h (.graceful duration p) (h.notifyGraceful p).1
      (.graceful duration (h.notifyGraceful p).2)
  | connectionCount : Rule h (.connectionCount none) h (.connectionCount (some h.connCount))
  | listeningBusy (f g : Notified) (hf : h.addrNotify.poll f = .busy g) :
    Rule h (.listening f) h (.listening g)
  | listeningReady (f : Notified) (hf : h.addrNotify.poll f = .ready) :
    Rule h (.listening f) h .listeningAddr
  | listeningPending (f : Notified) (hf : h.addrNotify.poll f = .pending) :
    Rule h (.listening f) h (.listening f)
  | listeningAddr : Rule h .listeningAddr h (.listened h.addr)

theorem Caller.rule_of_step (hs : c.step h = some (k, d)) : Caller.Rule h c k d := by
  unfold Caller.step at hs
  split at hs <;> try simp only [Option.some.injEq, Prod.mk.injEq, reduceCtorEq] at hs
  next p hp =>
    obtain ⟨rfl, rfl⟩ := hs
    exact .shutdown p (fun e => hp e)
  next duration =>
    obtain ⟨rfl, rfl⟩ := hs
    exact .gracefulDur duration
  next duration p hp =>
    obtain ⟨rfl, rfl⟩ := hs
    exact .graceful duration p (fun e => hp e)
  next =>
    obtain ⟨rfl, rfl⟩ := hs
    exact .connectionCount
  next f =>
    split at hs <;> simp only [Option.some.injEq, Prod.mk.injEq] at hs <;>
      obtain ⟨rfl, rfl⟩ := hs
    next g hg => exact .listeningBusy f g hg
    next hg => exact .listeningReady f hg
    next hg => exact .listeningPending f hg
  next =>
    obtain ⟨rfl, rfl⟩ := hs
    exact .listeningAddr

theorem Caller.Rule.le (hr : Caller.Rule h c k d) : h.Le k := by
  cases hr with
  | shutdown p => exact h.le_notifyShutdown p
  | gracefulDur duration => exact ⟨.refl _, .refl _, .refl _, .refl _⟩
  | graceful duration p => exact h.le_notifyGraceful p
  | _ => exact .refl h

theorem Caller.Rule.frame (hr : Caller.Rule h c k d) : h.CallFrame k := by
  cases hr <;> exact ⟨rfl, rfl, rfl, rfl⟩

theorem Caller.Rule.wf (hr : Caller.Rule h c k d) (hw : h.WF) (hc : c.WF h) :
    k.WF ∧ d.WF k := by
  cases hr with
  | shutdown p => exact ⟨hw.notifyShutdown hc, Notifying.WF.notifyWaiters hc⟩
  | gracefulDur duration =>
    exact ⟨⟨hw.addrNotify, hw.shutdown, hw.graceful, hw.connEnd⟩, trivial⟩
  | graceful duration p => exact ⟨hw.notifyGraceful hc, Notifying.WF.notifyWaiters hc⟩
  | connectionCount => exact ⟨hw, trivial⟩
  | listeningBusy f g hf => exact ⟨hw, Notified.WF.poll hc hw.addrNotify hf⟩
  | listeningReady f hf => exact ⟨hw, Notified.WF.notified_of_ready hc hw.addrNotify hf⟩
  | listeningPending f hf => exact ⟨hw, hc⟩
  | listeningAddr => exact ⟨hw, hc⟩

end CallerStep

end AxumServer
