import AxumServer.Interleaving.Simulation
import AxumServer.Server.Drain

/-! # The life of a server

What a server is for, without its futures, latches and arms: it starts, accepts
connections until somebody asks it to stop, and is over when its connections are gone or
its time is up. The server of the source refines this machine.
-/

namespace AxumServer

open Interleaving

variable {A E B : Type}

namespace Lifecycle

inductive Phase where
  | starting
  | accepting
  | draining
  /-- The grace period is over, and the connections that are left are told so. -/
  | expiring
  | stopped (ok : Bool)
  deriving DecidableEq, Repr

structure Model where
  phase : Phase := .starting
  /-- A graceful shutdown was asked for. -/
  graceful : Bool := false
  /-- An immediate shutdown was asked for, or is forced by the end of the grace period. -/
  shutdown : Bool := false
  connections : ℕ := 0
  /-- The end of a connection has left none. -/
  emptied : Bool := false
  deriving DecidableEq, Repr

inductive Action where
  | askGraceful
  | askShutdown
  | failToBind
  | listen
  | connect
  | disconnect
  | drain
  | drained
  | expire
  | leave
  | stop
  | fail
  deriving DecidableEq, Repr

def step (l : Model) : Action → Option Model
  | .askGraceful => some { l with graceful := true }
  | .askShutdown => some { l with shutdown := true }
  | .failToBind => if l.phase = .starting then some { l with phase := .stopped false } else none
  | .listen => if l.phase = .starting then some { l with phase := .accepting } else none
  | .connect =>
    if l.phase = .accepting then some { l with connections := l.connections + 1 } else none
  | .disconnect =>
    if 0 < l.connections then
      some { l with connections := l.connections - 1,
                    emptied := l.emptied || decide (l.connections - 1 = 0) }
    else none
  | .drain =>
    if l.phase = .accepting ∧ l.graceful = true then some { l with phase := .draining } else none
  -- there is no connection now, or there was none at the end of an earlier one
  | .drained =>
    if l.phase = .draining ∧ (l.connections = 0 ∨ l.emptied = true) then
      some { l with phase := .stopped true }
    else none
  | .expire =>
    if l.phase = .draining then some { l with phase := .expiring, shutdown := true } else none
  | .leave => if l.phase = .expiring then some { l with phase := .stopped true } else none
  | .stop =>
    if l.phase = .accepting ∧ l.shutdown = true then some { l with phase := .stopped true }
    else none
  | .fail => if l.phase = .accepting then some { l with phase := .stopped false } else none

structure Model.Orderly (l : Model) : Prop where
  draining : l.phase = .draining ∨ l.phase = .expiring → l.graceful = true
  expiring : l.phase = .expiring → l.shutdown = true
  stopped : l.phase = .stopped true → l.shutdown = true ∨
    l.graceful = true ∧ (l.connections = 0 ∨ l.emptied = true)

section Machine
variable {l l' : Model} {a : Action}

theorem orderly_init : ({} : Model).Orderly :=
  ⟨by simp, by simp, by simp⟩

theorem Model.Orderly.step (h : l.Orderly) (move : step l a = some l') : l'.Orderly := by
  obtain ⟨hd, he, hs⟩ := h
  cases a <;> simp only [Lifecycle.step, Option.ite_none_right_eq_some, Option.some.injEq] at move
  case askGraceful =>
    subst move
    exact ⟨fun _ => rfl, he, fun h => (hs h).imp_right fun hg => ⟨rfl, hg.2⟩⟩
  case askShutdown =>
    subst move
    exact ⟨hd, fun _ => rfl, fun _ => .inl rfl⟩
  case disconnect =>
    obtain ⟨hpos, rfl⟩ := move
    refine ⟨hd, he, fun h => (hs h).imp_right fun hg => ⟨hg.1, .inr ?_⟩⟩
    rcases hg.2 with h0 | hem
    · omega
    · simp [hem]
  case connect =>
    obtain ⟨hphase, rfl⟩ := move
    exact ⟨by simp [hphase], by simp [hphase], by simp [hphase]⟩
  case drain =>
    obtain ⟨⟨hphase, hg⟩, rfl⟩ := move
    exact ⟨fun _ => hg, by simp, by simp⟩
  case drained =>
    obtain ⟨⟨hphase, hz⟩, rfl⟩ := move
    exact ⟨by simp, by simp, fun _ => .inr ⟨hd (.inl hphase), hz⟩⟩
  case expire =>
    obtain ⟨hphase, rfl⟩ := move
    exact ⟨fun _ => hd (.inl hphase), fun _ => rfl, by simp⟩
  case leave =>
    obtain ⟨hphase, rfl⟩ := move
    exact ⟨by simp, by simp, fun _ => .inl (he hphase)⟩
  case stop =>
    obtain ⟨⟨hphase, hk⟩, rfl⟩ := move
    exact ⟨by simp, by simp, fun _ => .inl hk⟩
  case failToBind | listen | fail =>
    obtain ⟨hphase, rfl⟩ := move
    exact ⟨by simp, by simp, by simp⟩

end Machine

end Lifecycle

/-! ## The server refines the machine -/

def ServeStage.phase : ServeStage A E B → Lifecycle.Phase
  | .bind => .starting
  | .localAddr => .starting
  | .setAddr _ _ => .starting
  | .addrStore _ => .starting
  | .addrWake _ => .starting
  | .select _ => .accepting
  | .pollReady _ => .accepting
  | .makeService _ => .accepting
  | .watcher _ => .accepting
  | .spawn _ => .accepting
  | .draining .shutdownWake => .expiring
  | .draining _ => .draining
  | .returned (.ok _) => .stopped true
  | .returned (.error _) => .stopped false

/-- What the machine sees of a server. -/
def lifecycle (h : Handle A) (stage : ServeStage A E B) (emptied : Bool) : Lifecycle.Model where
  phase := stage.phase
  graceful := h.graceful.notified
  shutdown := h.shutdown.notified
  connections := h.connCount
  emptied := emptied

theorem ServeStage.phase_of_inLoop {stage : ServeStage A E B} (h : stage.inLoop = true) :
    stage.phase = .accepting := by
  cases stage <;> first | rfl | cases h

theorem ServeStage.inLoop_of_shutdown {stage : ServeStage A E B} {rest : List ServeArm}
    (h : .shutdown :: rest <:+ stage.arms) : stage.inLoop = true := by
  cases stage with
  | draining w => cases w <;> simp [ServeStage.arms, List.suffix_cons_iff] at h
  | _ => first | rfl | simp [ServeStage.arms, List.suffix_cons_iff] at h

theorem ServeStage.inLoop_of_graceful {stage : ServeStage A E B} {rest : List ServeArm}
    (h : .graceful :: rest <:+ stage.arms) : stage.inLoop = true := by
  cases stage with
  | draining w => cases w <;> simp [ServeStage.arms, List.suffix_cons_iff] at h
  | _ => first | rfl | simp [ServeStage.arms, List.suffix_cons_iff] at h

theorem ServeStage.phase_of_connEnd {stage : ServeStage A E B} {rest : List ServeArm}
    (h : .connEnd :: rest <:+ stage.arms) : stage.phase = .draining := by
  cases stage with
  | draining w => cases w <;> first | rfl | simp [ServeStage.arms] at h
  | _ => simp [ServeStage.arms, List.suffix_cons_iff] at h

section Serve
variable {srv : Server A} {h k : Handle A} {now : Instant} {s t : Serve A E B}
  {x : ServeAnswer A E B} {cs : List (Conn A E B)} {evs : List (ServeEvent A E B)} {e : Bool}

theorem Serve.Rule.lifecycle (hr : Serve.Rule srv h now s x k t cs evs) (hw : h.WF) (hs : s.WF h)
    (he : h.connEnd.notified = true → e = true) :
    lifecycle k t.stage e = lifecycle h s.stage e ∨
      ∃ a, Lifecycle.step (lifecycle h s.stage e) a = some (lifecycle k t.stage e) := by
  have hp := hs.placed
  cases hr with
  | poll | suspend | bindPending | shutdownBusy | shutdownPending | acceptPending | backoffPending
  | gracefulBusy | gracefulPending | readyPending | makePending | sleepPending | connEndBusy
  | connEndPending =>
    exact .inl rfl
  | localAddr _ hst | setAddr _ _ hst | addrStore _ hst | accepted _ _ hst | acceptErr _ _ hst
  | backoffElapsed _ _ hst | ready _ _ hst | made _ _ hst | makeErr _ _ _ hst | spawn _ hst
  | countPos hst | timed _ hst | untimed hst | graceExpired _ _ hst =>
    rw [hst]
    exact .inl rfl
  | bound x rest ha hpc | bindErr rest err ha hpc =>
    rw [hpc] at hp
    rw [ServeStage.eq_bind_of_arm hp.1]
    exact .inl rfl
  | listening hst =>
    rw [hst]
    exact .inr ⟨.listen, rfl⟩
  | bindFailed err hst =>
    rw [hst]
    exact .inr ⟨.failToBind, rfl⟩
  | watcher addr hst =>
    rw [hst]
    exact .inr ⟨.connect, rfl⟩
  | shutdownReady rest ha hpc hf =>
    rw [hpc] at hp
    have hphase := ServeStage.phase_of_inLoop (ServeStage.inLoop_of_shutdown hp.1)
    have hflag := hs.shutdown.notified_of_ready hw.shutdown hf
    exact .inr ⟨.stop, by simp [Lifecycle.step, AxumServer.lifecycle, hphase, hflag]; rfl⟩
  | gracefulReady rest ha hpc hf =>
    rw [hpc] at hp
    have hphase := ServeStage.phase_of_inLoop (ServeStage.inLoop_of_graceful hp.1)
    have hflag := hs.graceful.notified_of_ready hw.graceful hf
    exact .inr ⟨.drain, by simp [Lifecycle.step, AxumServer.lifecycle, hphase, hflag]; rfl⟩
  | readyErr rest addr err hst =>
    rw [hst]
    exact .inr ⟨.fail, rfl⟩
  | countZero hst hc =>
    rw [hst]
    refine .inr ⟨.drained, ?_⟩
    simp [Lifecycle.step, AxumServer.lifecycle, ServeStage.phase, hc, Serve.ret]
  | shutdownStore hst =>
    rw [hst]
    exact .inr ⟨.expire, rfl⟩
  | shutdownWake hst =>
    rw [hst]
    exact .inr ⟨.leave, rfl⟩
  | connEndReady rest ha hpc hf =>
    rw [hpc] at hp
    have hphase := ServeStage.phase_of_connEnd hp.1
    have hem := he (hs.connEnd.notified_of_ready hw.connEnd hf)
    exact .inr ⟨.drained, by simp [Lifecycle.step, AxumServer.lifecycle, hphase, hem]; rfl⟩

/-- How `serve` comes to set the shutdown latch itself. -/
structure Serve.Expiry (h k : Handle A) (s t : Serve A E B) (evs : List (ServeEvent A E B)) :
    Prop where
  graceful : k.graceful = h.graceful
  shutdown : k.shutdown.notified = true →
    h.shutdown.notified = true ∨ s.stage = .draining .shutdownStore
  expired : .graceExpired ∈ evs → ∃ deadline, s.stage = .draining (.timed deadline)
  expiring : t.stage = .draining .shutdownStore →
    s.stage = .draining .shutdownStore ∨ .graceExpired ∈ evs

theorem Serve.Rule.expiry (hr : Serve.Rule srv h now s x k t cs evs) :
    Serve.Expiry h k s t evs := by
  cases hr with
  | shutdownStore hst => exact ⟨rfl, fun _ => .inr hst, by simp, by simp⟩
  | graceExpired _ deadline hst => exact ⟨rfl, .inl, fun _ => ⟨deadline, hst⟩, by simp⟩
  | poll | suspend | bindPending | shutdownBusy | shutdownPending | acceptPending | backoffPending
  | gracefulBusy | gracefulPending | readyPending | makePending | sleepPending | connEndBusy
  | connEndPending =>
    exact ⟨rfl, .inl, by simp, .inl⟩
  | acceptErr | makeErr =>
    refine ⟨rfl, .inl, fun he => ?_, fun ht => by cases ht⟩
    simp only [report, List.mem_cons, reduceCtorEq, false_or] at he
    split at he <;> simp at he
  | _ => exact ⟨rfl, .inl, by simp, fun ht => by cases ht⟩

end Serve

section Conn
variable {srv : Server A} {h k : Handle A} {now : Instant} {c d : Conn A E B}
  {evs : List (ConnEvent A E B)}

/-- An operation of a connection task ends the connection, or leaves the count alone. -/
theorem Conn.Rule.disconnects (hr : Conn.Rule srv h now c k d evs) :
    (c.stage = .dropping .fetchSub ∧ k = { h with connCount := h.connCount - 1 } ∧
      (d.signals = true → h.connCount - 1 = 0)) ∨
    (k.connCount = h.connCount ∧ (d.signals = true → c.signals = true) ∧
      (k.connEnd.notified = true → h.connEnd.notified = true ∨ c.signals = true)) := by
  cases hr with
  | drop e e' hs hd =>
    cases e with
    | fetchSub =>
      obtain rfl := Option.some.inj hd
      exact .inl ⟨hs, rfl, fun hsig => by simpa [Conn.signals] using hsig⟩
    | counted count =>
      simp only [Handle.dropStep] at hd
      split at hd
      next hc =>
        obtain rfl := Option.some.inj hd
        exact .inr ⟨rfl, fun _ => by simp [Conn.signals, hs, hc.1], .inl⟩
      next => cases hd
    | connEndStore =>
      obtain rfl := Option.some.inj hd
      exact .inr ⟨rfl, fun _ => by simp [Conn.signals, hs],
        fun _ => .inr (by simp [Conn.signals, hs])⟩
    | connEndWake => cases hd
  | dropped e hs hd =>
    cases e with
    | fetchSub | connEndStore => cases hd
    | counted count => exact .inr ⟨rfl, fun hsig => (by cases hsig), .inl⟩
    | connEndWake =>
      exact .inr ⟨rfl, fun hsig => (by cases hsig), fun _ => .inr (by simp [Conn.signals, hs])⟩
  | accepted rest hl hpc =>
    refine .inr ⟨rfl, fun hsig => ?_, .inl⟩
    rw [Conn.signals_of_live] at hsig
    · cases hsig
    · unfold Conn.serveConnection
      split <;> rfl
  | poll | suspend | shutdownBusy | shutdownPending | gracefulBusy | gracefulPending | sleepPending
  | requestPending | acceptPoll | acceptPending | servePoll | servePending | serviceCall
  | spawnStream | serviceDropped =>
    exact .inr ⟨rfl, id, .inl⟩
  | _ => exact .inr ⟨rfl, fun hsig => (by cases hsig), .inl⟩

end Conn

section Caller
variable {h k : Handle A} {c d : Caller A}

/-- An operation of a call asks for a shutdown, or the machine does not see it. -/
theorem Caller.Rule.asks (hr : Caller.Rule h c k d) (stage : ServeStage A E B) (e : Bool) :
    lifecycle k stage e = lifecycle h stage e ∨
      ∃ a, Lifecycle.step (lifecycle h stage e) a = some (lifecycle k stage e) := by
  cases hr with
  | shutdown p hp =>
    cases p with
    | store => exact .inr ⟨.askShutdown, rfl⟩
    | wake => exact .inl rfl
    | returned => exact absurd rfl hp
  | graceful duration p hp =>
    cases p with
    | store => exact .inr ⟨.askGraceful, rfl⟩
    | wake => exact .inl rfl
    | returned => exact absurd rfl hp
  | _ => exact .inl rfl

def Caller.asksShutdown : Caller A → Bool
  | .shutdown .store => false
  | .shutdown _ => true
  | _ => false

def Caller.asksGraceful : Caller A → Bool
  | .graceful _ .store => false
  | .graceful _ _ => true
  | _ => false

theorem Caller.Rule.asksShutdown (hr : Caller.Rule h c k d) (hc : c.asksShutdown = true) :
    d.asksShutdown = true := by
  cases hr with
  | shutdown p => cases p <;> rfl
  | _ => cases hc

theorem Caller.Rule.asksGraceful (hr : Caller.Rule h c k d) (hc : c.asksGraceful = true) :
    d.asksGraceful = true := by
  cases hr with
  | graceful duration p => cases p <;> rfl
  | _ => cases hc

theorem Caller.Rule.shutdown_asked (hr : Caller.Rule h c k d) (hk : k.shutdown.notified = true) :
    h.shutdown.notified = true ∨ d.asksShutdown = true := by
  cases hr with
  | shutdown p => cases p <;> exact .inr rfl
  | _ => exact .inl hk

theorem Caller.Rule.graceful_asked (hr : Caller.Rule h c k d) (hk : k.graceful.notified = true) :
    h.graceful.notified = true ∨ d.asksGraceful = true := by
  cases hr with
  | graceful duration p => cases p <;> exact .inr rfl
  | _ => exact .inl hk

end Caller

namespace State
variable {srv : Server A} {s t : State A E B} {a : Action A E B} {as : List (Action A E B)}
  {l : Lifecycle.Model}

/-- At some earlier step the last connection ended. -/
def WasEmptied (srv : Server A) (s : State A E B) : Prop :=
  ∃ u v a, Reachable srv u ∧ u.step srv a = some v ∧
    Interleaving.Reachable (State.step srv) Always v s ∧
    u.handle.connCount = 1 ∧ v.handle.connCount = 0

theorem WasEmptied.step (h : WasEmptied srv s) (move : s.step srv a = some t) :
    WasEmptied srv t := by
  obtain ⟨u, v, b, hu, hb, ⟨bs, hvs⟩, h1, h0⟩ := h
  exact ⟨u, v, b, hu, hb, ⟨bs ++ [a], hvs.append (.cons trivial move (.nil t))⟩, h1, h0⟩

/-- The machine stands where the server does, and it knows of every drop that left no
connection and is about to signal, or has signalled. -/
structure Refines (srv : Server A) (s : State A E B) (l : Lifecycle.Model) : Prop where
  reachable : Reachable srv s
  view : l = lifecycle s.handle s.serve.stage l.emptied
  signals : ∀ c ∈ s.tasks, c.signals = true → l.emptied = true
  connEnd : s.handle.connEnd.notified = true → l.emptied = true
  emptied : l.emptied = true → WasEmptied srv s

theorem refines_init (srv : Server A) : Refines srv ({} : State A E B) {} :=
  ⟨.refl _, rfl, by simp, by simp, by simp⟩

/-- A step that leaves the end of the connections alone is seen as one step or none. -/
theorem Refines.same (h : Refines srv s l) (move : s.step srv a = some t)
    (hsig : ∀ c ∈ t.tasks, c.signals = true → l.emptied = true)
    (hend : t.handle.connEnd.notified = true → l.emptied = true)
    (hview : lifecycle t.handle t.serve.stage l.emptied = l ∨
      ∃ b, Lifecycle.step l b = some (lifecycle t.handle t.serve.stage l.emptied)) :
    Refines srv t l ∨ ∃ b m, Lifecycle.step l b = some m ∧ Refines srv t m := by
  have ht : Reachable srv t := h.reachable.exec (.cons trivial move (.nil t))
  have hem := fun he => (h.emptied he).step move
  rcases hview with heq | ⟨b, hb⟩
  · exact .inl ⟨ht, heq.symm, hsig, hend, hem⟩
  · exact .inr ⟨b, _, hb, ht, rfl, hsig, hend, hem⟩

theorem Refines.step (h : Refines srv s l) (move : s.step srv a = some t) :
    Refines srv t l ∨ ∃ b m, Lifecycle.step l b = some m ∧ Refines srv t m := by
  have hw := h.reachable.wf
  have hv := h.view
  cases rule_of_step move with
  | tick | call => exact h.same move h.signals h.connEnd (.inl hv.symm)
  | caller i c d k hi hr =>
    refine h.same move h.signals (fun hn => h.connEnd (hr.frame.connEnd ▸ hn)) ?_
    have hview := hr.asks s.serve.stage l.emptied
    rwa [← hv] at hview
  | serve x k u cs evs hr =>
    refine h.same move ?_ (fun hn => h.connEnd (hr.countFrame.2 ▸ hn)) ?_
    · refine forall_mem_append h.signals (fun _ => id) fun c hc hsig => ?_
      obtain ⟨addr, rfl⟩ := hr.spawned hc
      cases hsig
    · have hview := hr.lifecycle hw.handle hw.serve h.connEnd
      rwa [← hv] at hview
  | task i x c d k evs hi hr =>
    have hm := List.mem_of_getElem? hi
    have hframe := hr.frame
    rcases hr.disconnects with ⟨hst, rfl, hsig⟩ | ⟨hcount, hsig, hend⟩
    · have hpos := h.reachable.counted.pos hm (Conn.holds_dropping hst)
      have hl : l.connections = s.handle.connCount := by rw [hv]; rfl
      refine .inr ⟨.disconnect,
        { l with connections := l.connections - 1,
                 emptied := l.emptied || decide (l.connections - 1 = 0) }, ?_,
        h.reachable.exec (.cons trivial move (.nil _)), ?_, ?_, ?_, ?_⟩
      · simp [Lifecycle.step, hl, hpos]
      · rw [hv]
        rfl
      · refine forall_mem_set h.signals (fun _ hc hsig => by simp [hc hsig]) fun hd => ?_
        have h0 : l.connections - 1 = 0 := hl ▸ hsig hd
        simp [h0]
      · intro hn
        simp [h.connEnd hn]
      · intro he
        rcases Bool.or_eq_true _ _ |>.mp he with hold | hnew
        · exact (h.emptied hold).step move
        · have h0 := of_decide_eq_true hnew
          exact ⟨s, _, _, h.reachable, move, .refl _, by omega, by simp only; omega⟩
    · have hview : lifecycle k s.serve.stage l.emptied = l := by
        rw [hv, lifecycle, hframe.shutdown, hframe.graceful, hcount]
        rfl
      refine h.same move ?_ (fun hn => ?_) (.inl hview)
      · exact forall_mem_set h.signals (fun _ => id) fun hd => h.signals c hm (hsig hd)
      · rcases hend hn with hold | hold
        · exact h.connEnd hold
        · exact h.signals c hm hold
  | stream i x c d evs hi hr =>
    refine h.same move (forall_mem_set h.signals (fun _ => id) fun hd => ?_) h.connEnd
      (.inl hv.symm)
    exact h.signals c (List.mem_of_getElem? hi) (hr.signals ▸ hd)

theorem lifecycle_simulation (srv : Server A) :
    Simulation (State.step (E := E) (B := B) srv) Always Lifecycle.step Always (Refines srv) :=
  .of_step fun h _ move => (h.step move).imp_right fun ⟨b, m, hb, hm⟩ => ⟨b, m, trivial, hb, hm⟩

/-- Every run of a server is a run of the machine. -/
theorem lifecycle_refined (h : Reachable srv s) (hrun : Exec srv Always s as t) :
    ∃ l bs m, Interleaving.Reachable Lifecycle.step Always {} l ∧
      Interleaving.Exec Lifecycle.step Always l bs m ∧ Refines srv s l ∧ Refines srv t m := by
  obtain ⟨l, hl, hsl⟩ := (lifecycle_simulation srv).reachable h (refines_init srv)
  obtain ⟨bs, m, hbs, htm⟩ := (lifecycle_simulation srv).exec hrun hsl
  exact ⟨l, bs, m, hl, hbs, hsl, htm⟩

/-- `serve` has waited for its last connection and returns. -/
def drainedSchedule : List (Action ℕ Unit Unit) :=
  waitSchedule ++ List.replicate 2 (Action.serve .go)

theorem lifecycle_refined_drained : ∃ l bs m,
    Interleaving.Reachable Lifecycle.step Always {} l ∧
      Interleaving.Exec Lifecycle.step Always l bs m ∧
      Refines Server.fromListener (after Server.fromListener waitSchedule) l ∧
      Refines Server.fromListener (after Server.fromListener drainedSchedule) m :=
  have hrun : Exec Server.fromListener Always (after Server.fromListener waitSchedule)
      (List.replicate 2 (Action.serve .go)) (after Server.fromListener drainedSchedule) :=
    exec_of_runIf (by decide)
  lifecycle_refined (reachable_after _ _ waitSchedule) hrun

/-! ## Who asked -/

def ShutdownAsked (s : State A E B) : Prop := ∃ c ∈ s.callers, c.asksShutdown = true

def GracefulAsked (s : State A E B) : Prop := ∃ c ∈ s.callers, c.asksGraceful = true

/-- The grace period of `serve` ran out. -/
def GraceExpired (s : State A E B) : Prop := ∃ t, (t, .graceExpired) ∈ s.serve.log

/-- Nobody but the calls sets a latch, except that the end of the grace period sets
`shutdown`. -/
structure Asked (s : State A E B) : Prop where
  graceful : s.handle.graceful.notified = true → s.GracefulAsked
  shutdown : s.handle.shutdown.notified = true → s.ShutdownAsked ∨ s.GraceExpired
  expired : s.GraceExpired → s.GracefulAsked
  expiring : s.serve.stage = .draining .shutdownStore → s.GraceExpired

theorem asked_init : ({} : State A E B).Asked :=
  ⟨by simp, by simp, by simp [GraceExpired], by simp⟩

theorem Rule.shutdownAsked (hr : Rule srv s a t) (hs : s.ShutdownAsked) : t.ShutdownAsked := by
  cases hr with
  | call c =>
    obtain ⟨c, hc, hask⟩ := hs
    exact ⟨c, List.mem_append_left _ hc, hask⟩
  | caller i c d k hi hr => exact exists_mem_set hs hi (fun _ => id) hr.asksShutdown
  | _ => exact hs

theorem Rule.gracefulAsked (hr : Rule srv s a t) (hs : s.GracefulAsked) : t.GracefulAsked := by
  cases hr with
  | call c =>
    obtain ⟨c, hc, hask⟩ := hs
    exact ⟨c, List.mem_append_left _ hc, hask⟩
  | caller i c d k hi hr => exact exists_mem_set hs hi (fun _ => id) hr.asksGraceful
  | _ => exact hs

theorem Rule.graceExpired (hr : Rule srv s a t) (hs : s.GraceExpired) : t.GraceExpired := by
  obtain ⟨τ, hτ⟩ := hs
  cases hr with
  | serve x k u cs evs hr =>
    refine ⟨τ, ?_⟩
    simp only [Serve.record_log hr.log, mem_stamp]
    exact .inl hτ
  | _ => exact ⟨τ, hτ⟩

theorem Rule.asked (hr : Rule srv s a t) (hw : s.WF) (hs : s.Asked) : t.Asked := by
  have hsa := hr.shutdownAsked
  have hga := hr.gracefulAsked
  have hex := hr.graceExpired
  cases hr with
  | tick | call | stream =>
    exact ⟨fun h => hga (hs.graceful h), fun h => (hs.shutdown h).imp hsa hex,
      fun h => hga (hs.expired h), fun h => hex (hs.expiring h)⟩
  | caller i c d k hi hr =>
    have hlt := (List.getElem?_eq_some_iff.mp hi).1
    refine ⟨fun h => ?_, fun h => ?_, fun h => hga (hs.expired h), hs.expiring⟩
    · rcases hr.graceful_asked h with hold | hd
      · exact hga (hs.graceful hold)
      · exact ⟨d, List.mem_set hlt _, hd⟩
    · rcases hr.shutdown_asked h with hold | hd
      · exact (hs.shutdown hold).imp hsa hex
      · exact .inl ⟨d, List.mem_set hlt _, hd⟩
  | task i x c d k evs hi hr =>
    have hf := hr.frame
    exact ⟨fun h => hs.graceful (hf.graceful ▸ h), fun h => hs.shutdown (hf.shutdown ▸ h),
      hs.expired, hs.expiring⟩
  | serve x k u cs evs hr =>
    obtain ⟨hg, hsh, hexp, hst⟩ := hr.expiry
    have hnew : .graceExpired ∈ evs → GraceExpired
        { s with handle := k, serve := u.record s.now evs, tasks := s.tasks ++ cs } := fun he =>
      ⟨s.now, by simp only [Serve.record_log hr.log]; exact mem_stamp.mpr (.inr ⟨rfl, he⟩)⟩
    refine ⟨fun h => hga (hs.graceful (hg ▸ h)), fun h => ?_, fun h => ?_, fun h => ?_⟩
    · rcases hsh h with hold | hstore
      · exact (hs.shutdown hold).imp hsa hex
      · exact .inr (hex (hs.expiring hstore))
    · obtain ⟨τ, hτ⟩ := h
      simp only [Serve.record_log hr.log, mem_stamp] at hτ
      rcases hτ with hold | ⟨-, hin⟩
      · exact hga (hs.expired ⟨τ, hold⟩)
      · obtain ⟨deadline, hdl⟩ := hexp hin
        have hk := hw.serve.knows
        rw [hdl] at hk
        exact hga (hs.graceful hk.graceful)
    · rcases hst h with hold | hin
      · exact hex (hs.expiring hold)
      · exact hnew hin

theorem ReachableIf.asked {P : State A E B → Action A E B → Prop} (h : ReachableIf srv P s) :
    s.Asked :=
  Interleaving.Reachable.invariant_under (J := State.WF) h (fun hw _ move => wf_step hw move)
    wf_init (fun hw hs _ move => (rule_of_step move).asked hw hs) asked_init

/-- `serve` returns `Ok` only to one who asked: for an immediate shutdown, or for a graceful
one, and then a count of zero was seen or the grace period ran out. -/
theorem ok_only_when_asked (h : Reachable srv s) (hok : s.serve.stage = .returned (.ok ())) :
    s.ShutdownAsked ∨ s.GracefulAsked ∧
      (s.handle.connectionCount = 0 ∨ WasEmptied srv s ∨ s.GraceExpired) := by
  have hasked := h.asked
  have hord := (lifecycle_simulation srv).transfer
    (I := fun u => u.serve.stage = .returned (.ok ()) → u.handle.shutdown.notified = true ∨
      u.handle.graceful.notified = true ∧ (u.handle.connCount = 0 ∨ WasEmptied srv u))
    (J := Lifecycle.Model.Orderly)
    (fun m hm => hm.invariant (fun hi _ move => hi.step move) Lifecycle.orderly_init)
    (fun {u m} hum hm hu => by
      have hstop : m.phase = .stopped true := by
        rw [hum.view]
        simp [lifecycle, hu, ServeStage.phase]
      have hcase := hm.stopped hstop
      have hem := hum.emptied
      rw [hum.view] at hcase
      exact hcase.imp_right fun hg => ⟨hg.1, hg.2.imp_right hem⟩)
    h (refines_init srv) hok
  rcases hord with hshut | ⟨hgr, hz⟩
  · rcases hasked.shutdown hshut with hs | he
    · exact .inl hs
    · exact .inr ⟨hasked.expired he, .inr (.inr he)⟩
  · exact .inr ⟨hasked.graceful hgr, hz.imp_right .inl⟩

theorem ok_only_when_asked_drained :
    (after Server.fromListener drainedSchedule).ShutdownAsked ∨
      (after Server.fromListener drainedSchedule).GracefulAsked ∧
        ((after Server.fromListener drainedSchedule).handle.connectionCount = 0 ∨
          WasEmptied Server.fromListener (after Server.fromListener drainedSchedule) ∨
          (after Server.fromListener drainedSchedule).GraceExpired) :=
  ok_only_when_asked (reachable_after _ _ drainedSchedule) (by decide)

end State

end AxumServer
