import AxumServer.Server.Leaving
import AxumServer.Server.Watchers

/-! # Shutdown ends everything at the next poll

Every select of a task and the outer select of `serve` watch the shutdown latch
before they poll anything that could do work. Once a call of `shutdown` has
returned, the latch reaches every waiter, whenever it was registered.
-/

namespace AxumServer

open Interleaving

variable {A E B : Type}

def ServeEvent.stops : ServeEvent A E B → Bool
  | .poll => true
  | .listenerDropped => true
  | .returned (.ok _) => true
  | _ => false

namespace Serve

/-- Where `serve` can be once the grace period is over: it fires the shutdown
latch and returns. -/
def Expired (h : Handle A) : ServeStage A E B → Prop
  | .draining .shutdownStore => True
  | .draining .shutdownWake => True
  | .returned _ => h.shutdown.Fired
  | _ => False

/-- The outer select is about to find the latch, or `serve` has returned. -/
inductive Stopping (h : Handle A) (s : Serve A E B) : Prop
  | watching (hl : s.stage.inLoop = true)
      (hpc : s.pc = .idle ∨ ∃ rest, s.pc = .next (.shutdown :: rest))
      (hr : s.shutdown.Ready h.shutdown)
  | stopped (hs : s.stage = .returned (.ok ())) (hi : s.incoming = false)

def stopFuel (s : Serve A E B) : ℕ :=
  match s.stage, s.pc with
  | .returned _, _ => 0
  | _, .idle => s.shutdown.ops + 1
  | _, _ => s.shutdown.ops

section
variable {srv : Server A} {h k : Handle A} {now : Instant} {s t : Serve A E B}
  {x : ServeAnswer A E B} {cs : List (Conn A E B)} {evs : List (ServeEvent A E B)}
  {stage : ServeStage A E B}

theorem Expired.awaits (he : Expired h stage) : stage.awaits = false := by
  cases stage with
  | returned r => rfl
  | draining w => cases w <;> first | rfl | cases he
  | _ => cases he

theorem Expired.mono (he : Expired h stage) (hle : h.Le k) : Expired k stage := by
  cases stage with
  | returned r => exact NotifyOnce.Fired.mono he hle.shutdown
  | draining w => cases w <;> trivial
  | _ => cases he

/-- From the end of the grace period on `serve` is on that path. -/
theorem expired_invariant (srv : Server A) :
    State.ServeInvariant srv State.AnyAnswer fun h _ (s : Serve A E B) =>
      (∃ t, (t, .graceExpired) ∈ s.log) → Expired h s.stage where
  mono hle _ hs he := (hs he).mono hle
  step := by
    rintro h k now s t x cs evs hw hsw - hr hs ⟨u, hu⟩
    rw [record_log hr.log, mem_stamp] at hu
    have hnow : .graceExpired ∈ evs → Expired k t.stage := by
      intro hm
      cases hr with
      | graceExpired => trivial
      | acceptErr | makeErr =>
        unfold report at hm
        split at hm <;> simp at hm
      | _ => simp at hm
    rcases hu with hu | ⟨-, hu⟩
    · have he := hs ⟨u, hu⟩
      cases hr with
      | shutdownStore hst => trivial
      | shutdownWake hst => exact Nat.succ_pos _
      | localAddr _ hst | setAddr _ _ hst | addrStore _ hst | listening hst | bindFailed _ hst
      | countZero hst | countPos hst | timed _ hst | untimed hst | accepted _ _ hst
      | acceptPending _ hst | acceptErr _ _ hst | backoffPending _ _ hst | backoffElapsed _ _ hst
      | readyPending _ _ hst | ready _ _ hst | readyErr _ _ _ hst | makePending _ _ hst
      | made _ _ hst | makeErr _ _ _ hst | sleepPending _ _ hst | graceExpired _ _ hst
      | watcher _ hst | spawn _ hst =>
        rw [hst] at he
        cases he
      | poll ha | suspend ha | bindPending _ ha | bound _ _ ha | bindErr _ _ ha
      | shutdownBusy _ _ ha | shutdownPending _ ha | shutdownReady _ ha | gracefulBusy _ _ ha
      | gracefulPending _ ha | gracefulReady _ ha | connEndBusy _ _ ha | connEndPending _ ha
      | connEndReady _ ha =>
        simp [he.awaits] at ha
    · exact hnow hu

theorem arms_of_inLoop (hl : stage.inLoop = true) (ha : stage.awaits = true) :
    ∃ rest, stage.arms = .shutdown :: rest := by
  cases stage <;> simp_all [ServeStage.inLoop, ServeStage.awaits, ServeStage.arms]

/-- While `serve` is watching, its operations are those of the shutdown arm. -/
theorem Stopping.next (hs : s.Stopping h) (hsw : s.WF h) :
    (s.stage.awaits = true ∧ s.stage.inLoop = true ∧ s.shutdown.Ready h.shutdown ∧
      (s.pc = .idle ∨ ∃ rest, s.pc = .next (.shutdown :: rest))) ∨
    (s.stage = .returned (.ok ()) ∧ s.incoming = false) := by
  cases hs with
  | stopped hs hi => exact .inr ⟨hs, hi⟩
  | watching hl hpc hr =>
    refine .inl ⟨?_, hl, hr, hpc⟩
    have hp := hsw.placed
    by_contra ha
    -- between two suspension points no arm is left
    have hnext : s.pc = .next [] :=
      hp.sync (by simpa using ha) (by rintro r hr'; rw [hr'] at hl; cases hl)
    rcases hpc with hpc | ⟨rest, hpc⟩ <;> rw [hnext] at hpc <;> cases hpc

theorem Stopping.step (hs : s.Stopping h) (hsw : s.WF h) (hr : Rule srv h now s x k t cs evs) :
    t.Stopping k ∧ (∀ e ∈ evs, e.stops = true) ∧ t.stopFuel < s.stopFuel ∧
      (t.pc = .idle → t.stage = .returned (.ok ()) ∧ t.incoming = false) := by
  obtain ⟨ha, hl, hrd, hpc⟩ | ⟨hst, hi⟩ := hs.next hsw
  · cases hr with
    | poll _ hidle =>
      obtain ⟨rest, harms⟩ := arms_of_inLoop hl ha
      refine ⟨.watching hl (.inr ⟨rest, by rw [harms]⟩) hrd, by simp [ServeEvent.stops], ?_,
        by simp⟩
      cases hst : s.stage <;> simp_all [stopFuel, ServeStage.inLoop]
    | shutdownBusy rest f _ hn hf =>
      refine ⟨.watching hl hpc (hrd.poll hf).1, by simp, ?_, by simp [hn]⟩
      have := Notified.ops_poll hf
      cases hst : s.stage <;> simp_all [stopFuel, ServeStage.inLoop]
    | shutdownPending rest _ hn hf => exact absurd hf hrd.poll_ne_pending
    | shutdownReady rest _ hn hf =>
      refine ⟨.stopped rfl rfl, by simp [ServeEvent.stops], ?_, fun _ => ⟨rfl, rfl⟩⟩
      have := s.shutdown.ops_pos
      cases hst : s.stage <;> simp_all [stopFuel, ServeStage.inLoop, ret, dropListener]
    | suspend _ hn | bindPending _ _ hn | bound _ _ _ hn | bindErr _ _ _ hn
    | gracefulBusy _ _ _ hn | gracefulPending _ _ hn | gracefulReady _ _ hn
    | connEndBusy _ _ _ hn | connEndPending _ _ hn | connEndReady _ _ hn
    | accepted _ _ _ hn | acceptPending _ _ hn | acceptErr _ _ _ hn | backoffPending _ _ _ hn
    | backoffElapsed _ _ _ hn | readyPending _ _ _ hn | ready _ _ _ hn | readyErr _ _ _ _ hn
    | makePending _ _ _ hn | made _ _ _ hn | makeErr _ _ _ _ hn | sleepPending _ _ _ hn
    | graceExpired _ _ _ hn =>
      simp [hn] at hpc
    | localAddr _ hst | setAddr _ _ hst | addrStore _ hst | listening hst | bindFailed _ hst
    | countZero hst | countPos hst | timed _ hst | untimed hst | shutdownStore hst
    | shutdownWake hst | watcher _ hst | spawn _ hst =>
      rw [hst] at ha
      cases ha
  · cases hr <;> simp_all [ServeStage.awaits, ServeStage.arms]

theorem Stopping.enabled (srv : Server A) (now : Instant) (hs : s.Stopping h) (hsw : s.WF h)
    (hn : s.stage ≠ .returned (.ok ())) :
    ∃ k t cs evs, s.step srv h now .go = some (k, t, cs, evs) := by
  obtain ⟨ha, hl, hrd, hpc | ⟨rest, hpc⟩⟩ | ⟨hst, hi⟩ := hs.next hsw
  · simp [Serve.step, ha, hpc]
  · cases hf : h.shutdown.poll s.shutdown <;> simp [Serve.step, ha, hpc, pollArm, hf]
  · exact absurd hst hn

theorem Stopping.mono (hs : s.Stopping h) (hle : h.Le k) : s.Stopping k := by
  cases hs with
  | watching hl hpc hr => exact .watching hl hpc (hr.mono hle.shutdown)
  | stopped hs hi => exact .stopped hs hi

end

end Serve

theorem Stage.shutdown_mem_arms {stage : Stage} (hl : stage.live = true) :
    .shutdown ∈ stage.arms := by
  cases stage <;> simp_all [Stage.live, Stage.arms]

namespace State
variable {srv : Server A} {P : State A E B → Action A E B → Prop} {s t : State A E B}
  {as : List (Action A E B)} {i : ℕ} {c : Conn A E B}

/-- What is left of `serve` between two polls, however its operations interleave
with everybody else's: its next poll returns `Ok(())` and drops the listener, after
at most 4 operations, without waiting for anyone and without accepting anything. -/
structure StopsInOnePoll (srv : Server A) (s : State A E B) : Prop where
  bounded : ∀ {as t}, Exec srv Always s as t → as.countP Action.isServe ≤ 4
  run : ∀ {as t}, Exec srv Always s as t → ∃ new,
    Since s.serve.log t.serve.log new ∧ (∀ e ∈ new, e.stops = true) ∧
    (t.serve.pc = .idle → t.serve = s.serve ∨
      t.serve.stage = .returned (.ok ()) ∧ t.serve.incoming = false) ∧
    (t.serve.stage ≠ .returned (.ok ()) → ∃ u, t.step srv (.serve .go) = some u)

structure StoppingSince (s : Serve A E B) (h : Handle A) (t : Serve A E B) : Prop where
  stopping : t.Stopping h
  stops : ∃ new, Since s.log t.log new ∧ ∀ e ∈ new, e.stops = true
  idle : t.pc = .idle → t = s ∨ t.stage = .returned (.ok ()) ∧ t.incoming = false

theorem stoppingSince_invariant (srv : Server A) (s : Serve A E B) :
    ServeInvariant srv AnyAnswer fun h _ t => StoppingSince s h t where
  mono hle _ ht := ⟨ht.stopping.mono hle, ht.stops, ht.idle⟩
  step := by
    intro h k now t t' x cs evs hw htw _ hr ht
    obtain ⟨hst, he, -, hi⟩ := ht.stopping.step htw hr
    obtain ⟨new, hs, hn⟩ := ht.stops
    refine ⟨?_, ⟨new ++ evs, hr.since hs, ?_⟩, fun hidle => .inr (hi hidle)⟩
    · cases hst with
      | watching hl hpc hr => exact .watching hl hpc hr
      | stopped hs hi => exact .stopped hs hi
    · intro e hm
      rcases List.mem_append.mp hm with hm | hm
      · exact hn e hm
      · exact he e hm

theorem Serve.stopFuel_le (s : Serve A E B) : s.stopFuel ≤ 4 := by
  have := s.shutdown.ops_le
  unfold Serve.stopFuel
  split <;> omega

theorem stopsInOnePoll_of_stopping (hs : s.WF) (hst : s.serve.Stopping s.handle) :
    StopsInOnePoll srv s where
  bounded h :=
    le_trans ((stoppingSince_invariant srv s.serve).countP_le
      (fun _ hsw hst hr => (hst.stopping.step hsw hr).2.2.1) h hs eachServe_any
      ⟨hst, ⟨[], .refl _, by simp⟩, fun _ => .inl rfl⟩) (Serve.stopFuel_le _)
  run {_ t} h := by
    have ht := (stoppingSince_invariant srv s.serve).exec h hs eachServe_any
      ⟨hst, ⟨[], .refl _, by simp⟩, fun _ => .inl rfl⟩
    obtain ⟨new, hsince, hstops⟩ := ht.stops
    refine ⟨new, hsince, hstops, ht.idle, fun hn => ?_⟩
    obtain ⟨k, u, cs, evs, hstep⟩ := ht.stopping.enabled srv t.now (Exec.wf h hs).serve hn
    simp [State.step, hstep]

theorem ShutdownReturned.fired (h : s.ShutdownReturned) (hr : ReachableIf srv P s) :
    s.handle.shutdown.Fired := by
  rcases h with hc | ⟨⟨t, ht⟩, r, hs⟩
  · exact hr.wf.callers _ hc
  · have he := (Serve.expired_invariant srv).reachable hr eachServe_any
      (by simp) ⟨t, ht⟩
    rw [hs] at he
    exact he

theorem leaving_of_shutdown (hs : s.WF) (hf : s.handle.shutdown.Fired) (hi : c ∈ s.tasks)
    (hpc : c.pc = .idle) : c.Leaving s.handle := by
  have hc := hs.tasks c hi
  have hp : Conn.Placed c.stage .idle := hpc ▸ hc.placed
  rcases hp with hl | hfin
  · exact .shutdown (.inl ⟨hpc, Stage.shutdown_mem_arms hl⟩)
      (hc.shutdown.ready hs.handle.shutdown hf)
  · exact .left (by rw [hfin]; rfl)

/-- If a call of `shutdown` has returned before a poll of a task begins, that poll
ends the task and drops its `Watcher`, from any of its selects; and if `serve` is in
its accept loop, its next poll returns `Ok(())` and drops the listener. -/
theorem shutdown_ends_everything (hr : Reachable srv s) (hsd : s.ShutdownReturned) :
    (∀ i c, s.tasks[i]? = some c → c.pc = .idle → EndsInOnePoll srv s i c ∧
      ∀ as t d, Exec srv Always s as t → t.tasks[i]? = some d → d.stage = .finished →
        t.handle.connectionCount = (t.tasks.eraseIdx i).countP Conn.holds + t.serve.holds) ∧
    (s.serve.stage.inLoop = true → s.serve.pc = .idle → StopsInOnePoll srv s) := by
  have hw := ReachableIf.wf hr
  have hf := hsd.fired hr
  refine ⟨fun i c hi hpc => ⟨?_, fun as t d hexec hd hfin => ?_⟩, fun hl hpc => ?_⟩
  · exact endsInOnePoll_of_leaving hw hi
      (leaving_of_shutdown hw hf (List.mem_of_getElem? hi) hpc)
  · have hcount := ReachableIf.counted (hr.exec hexec)
    exact hcount.eraseIdx hd (by simp [Conn.holds, hfin, Stage.live])
  · exact stopsInOnePoll_of_stopping hw
      (.watching hl (.inl hpc) (hw.serve.shutdown.ready hw.handle.shutdown hf))

/-- A task in the middle of a request and a listening `serve`, after `shutdown()`. -/
def shutdownSchedule : List (Action ℕ Unit Unit) :=
  Action.listen (some 0) ++ Action.connect 1 ++ Action.handshake 0 ++ Action.reachHyper 0 ++
    [Action.task 0 .serviceCall, .task 0 .pending, .task 0 .go] ++ Action.callNow 0 .shutdown 2

theorem shutdown_ends_everything_serving :
    EndsInOnePoll Server.fromListener (after Server.fromListener shutdownSchedule) 0
      { remoteAddr := 1, stage := .serving, shutdown := .waiting 0, graceful := .waiting 0,
        log := [(0, .poll), (0, .acceptPoll), (0, .accepted), (0, .serveConnection true),
          (0, .servePoll), (0, .serviceCall), (0, .pending)] } ∧
    StopsInOnePoll Server.fromListener (after Server.fromListener shutdownSchedule) :=
  have h := shutdown_ends_everything (reachable_after _ _ shutdownSchedule)
    (.inl (by decide))
  ⟨(h.1 0 _ (by decide) (by decide)).1, h.2 (by decide) (by decide)⟩

end State

end AxumServer
