import AxumServer.Server.Threads

/-! # The connection count

`conn_count` is the number of `Watcher`s that were created and not yet
subtracted: one for each task up to the first operation of its drop, and one
that `serve` holds between the creation and the spawn.
-/

namespace AxumServer

open Interleaving

variable {A E B : Type}

def Conn.holds (c : Conn A E B) : Bool :=
  match c.stage with
  | .dropping .fetchSub => true
  | stage => stage.live

def Serve.holds (s : Serve A E B) : ℕ :=
  match s.stage with
  | .spawn _ => 1
  | _ => 0

def State.watchers (s : State A E B) : ℕ := s.tasks.countP Conn.holds + s.serve.holds

section Conn
variable {srv : Server A} {h k : Handle A} {now : Instant} {c d : Conn A E B}
  {evs : List (ConnEvent A E B)}

theorem Conn.holds_of_live (hl : c.stage.live = true) : c.holds = true := by
  unfold Conn.holds
  split
  · rfl
  · exact hl

theorem Conn.not_live_of_not_holds (hc : c.holds = false) : c.stage.live = false := by
  cases hl : c.stage.live with
  | false => rfl
  | true => simp [holds_of_live hl] at hc

@[simp] theorem Conn.holds_leave (c : Conn A E B) : c.leave.holds = true := rfl

theorem Conn.holds_serveConnection (srv : Server A) (now : Instant) (c : Conn A E B) :
    (c.serveConnection srv now).holds = true := by
  unfold Conn.serveConnection
  split <;> rfl

theorem Conn.holds_dropping {e : WatcherDrop} (hs : c.stage = .dropping e) :
    c.holds = decide (e = .fetchSub) := by
  unfold Conn.holds
  rw [hs]
  cases e <;> simp [Stage.live]

theorem Conn.Rule.connCount (hr : Conn.Rule srv h now c k d evs)
    (hpos : c.holds = true → 0 < h.connCount) :
    k.connCount + (if c.holds = true then 1 else 0) =
      h.connCount + if d.holds = true then 1 else 0 := by
  cases hr with
  | shutdownReady rest hl | requestClosed rest hl | acceptErr rest e hl | serveReady rest hl =>
    rw [holds_of_live hl, holds_leave]
  | gracefulLeave rest hs | sleepFired rest deadline hs =>
    rw [holds_of_live (by rw [hs]; rfl), holds_leave]
  | gracefulSkip rest deadline hs | gracefulStart rest hs =>
    rw [holds_of_live (c := c) (by rw [hs]; rfl), holds_of_live (c := c.enter _) rfl]
  | requestSent rest hl =>
    rw [holds_of_live hl, holds_of_live (c := c.enter _) rfl]
  | accepted rest hl =>
    rw [holds_of_live hl, holds_serveConnection]
  | drop e e' hs hd =>
    have hd' : ({ c with stage := .dropping e' } : Conn A E B).holds = false := by
      rw [holds_dropping (e := e') rfl]
      cases e <;> simp only [Handle.dropStep] at hd
      · obtain rfl := Option.some.inj hd
        rfl
      · split at hd
        · obtain rfl := Option.some.inj hd
          rfl
        · cases hd
      · obtain rfl := Option.some.inj hd
        rfl
      · cases hd
    have hc := holds_dropping hs
    cases e with
    | fetchSub =>
      have := hpos hc
      simp only [hc, hd', Handle.dropStep, decide_true, if_true, Bool.false_eq_true, if_false]
      omega
    | _ => simp [hc, hd', Handle.dropStep, Handle.notifyConnEnd]
  | dropped e hs hd =>
    have hc := holds_dropping hs
    cases e with
    | fetchSub => cases hd
    | _ =>
      have hd' : ({ c with stage := .finished, pc := .idle } : Conn A E B).holds = false := rfl
      simp [hc, hd', Handle.dropStep, Handle.notifyConnEnd]
  | _ => rfl

theorem Conn.StreamRule.holds {x : StreamAnswer} (hr : Conn.StreamRule c x d evs) :
    d.holds = c.holds := by
  cases hr <;> rfl

end Conn

section Serve
variable {srv : Server A} {h k : Handle A} {now : Instant} {s t : Serve A E B}
  {x : ServeAnswer A E B} {cs : List (Conn A E B)} {evs : List (ServeEvent A E B)}

theorem Serve.holds_of_awaits (ha : s.stage.awaits = true) : s.holds = 0 := by
  unfold Serve.holds
  split
  next hs =>
    rw [hs] at ha
    cases ha
  next => rfl

theorem Serve.Rule.connCount (hr : Serve.Rule srv h now s x k t cs evs) :
    k.connCount + s.holds = h.connCount + t.holds + cs.countP Conn.holds := by
  cases hr with
  | watcher addr hs => simp [Serve.holds, hs, Handle.watcher]
  | spawn addr hs => simp [Serve.holds, hs, Serve.loop, Conn.holds, Stage.live]
  | localAddr _ hs | setAddr _ _ hs | addrStore _ hs | listening hs | bindFailed _ hs
  | countZero hs | countPos hs | timed _ hs | untimed hs | shutdownStore hs | shutdownWake hs
  | accepted _ _ hs | acceptPending _ hs | acceptErr _ _ hs | backoffPending _ _ hs
  | backoffElapsed _ _ hs | readyPending _ _ hs | ready _ _ hs | readyErr _ _ _ hs
  | makePending _ _ hs | made _ _ hs | makeErr _ _ _ hs | sleepPending _ _ hs
  | graceExpired _ _ hs =>
    simp [Serve.holds, hs, Serve.ret, Serve.loop, Serve.enterSelect, Serve.await,
      Serve.dropListener, Handle.setAddr, Handle.notifyAddr, Handle.notifyShutdown]
  | poll ha | suspend ha | bindPending _ ha | bound _ _ ha | bindErr _ _ ha | shutdownBusy _ _ ha
  | shutdownPending _ ha | shutdownReady _ ha | gracefulBusy _ _ ha | gracefulPending _ ha
  | gracefulReady _ ha | connEndBusy _ _ ha | connEndPending _ ha | connEndReady _ ha =>
    have h0 := holds_of_awaits ha
    simp_all [Serve.holds, Serve.ret, Serve.dropListener]

end Serve

namespace State
variable {srv : Server A} {P : State A E B → Action A E B → Prop} {s t : State A E B}
  {a : Action A E B} {as : List (Action A E B)} {i : ℕ} {c : Conn A E B}

def Counted (s : State A E B) : Prop := s.handle.connCount = s.watchers

theorem Counted.pos (hs : s.Counted) (hi : c ∈ s.tasks) (hc : c.holds = true) :
    0 < s.handle.connCount := by
  have := List.countP_pos_iff.mpr ⟨c, hi, hc⟩
  rw [hs, watchers]
  omega

theorem Rule.counted (hr : Rule srv s a t) (hs : s.Counted) : t.Counted := by
  unfold Counted watchers at *
  cases hr with
  | tick | call => exact hs
  | caller i c d k hi hr => exact hr.frame.connCount.trans hs
  | serve x k u cs evs hr =>
    have hk := hr.connCount
    have hu : (u.record s.now evs).holds = u.holds := rfl
    simp only [List.countP_append, hu]
    omega
  | task i x c d k evs hi hr =>
    have hk := hr.connCount (Counted.pos hs (List.mem_of_getElem? hi))
    have hset := countP_set_add Conn.holds (d.record s.now evs) hi
    have hd : (d.record s.now evs).holds = d.holds := rfl
    rw [hd] at hset
    simp only
    omega
  | stream i x c d evs hi hr =>
    have hset := countP_set_add Conn.holds (d.record s.now evs) hi
    have hd : (d.record s.now evs).holds = c.holds := hr.holds
    rw [hd] at hset
    simp only
    omega

/-- `conn_count` is the number of counted `Watcher`s in every reachable state. -/
theorem ReachableIf.counted (h : ReachableIf srv P s) : s.Counted :=
  Interleaving.Reachable.invariant h (fun hs _ move => (rule_of_step move).counted hs) rfl

theorem Counted.forall_of_zero (hs : s.Counted) (h0 : s.handle.connCount = 0) :
    ∀ c ∈ s.tasks, c.holds = false := by
  intro c hc
  by_contra hh
  have := hs.pos hc (by simpa using hh)
  omega

theorem Counted.exists_of_pos (hs : s.Counted) (hpos : 0 < s.handle.connCount)
    (h0 : s.serve.holds = 0) : ∃ c ∈ s.tasks, c.holds = true := by
  rw [hs, watchers, h0] at hpos
  exact List.countP_pos_iff.mp hpos

theorem Counted.eraseIdx (hs : s.Counted) (hi : s.tasks[i]? = some c) (hc : c.holds = false) :
    s.handle.connCount = (s.tasks.eraseIdx i).countP Conn.holds + s.serve.holds := by
  rw [hs, watchers, ← countP_eraseIdx_add hi, hc]
  simp

end State

end AxumServer
