import AxumServer.Fleet.Watchers
import AxumServer.Server.Shutdown

/-! # Stopping several servers

One `shutdown()` reaches every server on the handle, and so does the grace period of any
of them when it runs out. After a graceful shutdown a count of zero means that the
connections of all servers are over.
-/

namespace AxumServer

open Interleaving

variable {A E B : Type}

theorem Conn.Leaving.not_callsOut {h : Handle A} {c : Conn A E B} (hc : c.Leaving h) :
    c.callsOut = false := by
  unfold Conn.callsOut
  split
  next arm rest hpc =>
    cases hl : c.stage.live with
    | false => rfl
    | true => exact absurd hpc (hc.not_inside hl)
  next => rfl

namespace Fleet

/-- A call of `shutdown()` has returned: one made on the handle, or the one that some
server made when its grace period was over. -/
def ShutdownReturned (s : State A E B) : Prop :=
  .caller (.shutdown .returned) ∈ s.pool ∨
    ∃ j y, .serve j y ∈ s.pool ∧ (∃ t, (t, .graceExpired) ∈ y.log) ∧ ∃ r, y.stage = .returned r

/-- What is left of the task `c` of server `j`, which is thread `i`, between two polls:
its next poll ends it, after at most 14 operations, without waiting for anyone, and none
of them reaches the acceptor, hyper, the service or the accept error handler. -/
structure EndsInOnePoll (srvs : ℕ → Server A) (s : State A E B) (i j : ℕ) (c : Conn A E B) :
    Prop where
  bounded : ∀ {as t}, Exec srvs s as t → as.countP (Move.isThread i) ≤ 14
  run : ∀ {as t}, Exec srvs s as t → ∃ d new, t.pool[i]? = some (.task j d) ∧
    State.LeftSince c d new ∧
    (d.stage ≠ .finished → ∃ u, (program srvs).next t (.thread i (.task .go)) = some u)

/-- What is left of `serve` of server `j`, which is thread `i`, between two polls: unless
its owner drops it, its next poll returns `Ok(())` and drops the listener, after at most
5 operations, without waiting for anyone and without accepting anything. -/
structure StopsInOnePoll (srvs : ℕ → Server A) (s : State A E B) (i j : ℕ) (y : Serve A E B) :
    Prop where
  bounded : ∀ {as t}, Exec srvs s as t → as.countP (Move.isThread i) ≤ 5
  run : ∀ {as t}, Exec srvs s as t → t.pool[i]? = some .dropped ∨
    ∃ z new, t.pool[i]? = some (.serve j z) ∧ Since y.log z.log new ∧
      (∀ e ∈ new, e.stops = true) ∧
      (z.pc = .idle → z = y ∨ z.stage = .returned (.ok ()) ∧ z.incoming = false) ∧
      (z.stage ≠ .returned (.ok ()) →
        ∃ u, (program srvs).next t (.thread i (.serve .go)) = some u)

section
variable {srvs : ℕ → Server A} {s s' : State A E B} {as : List (Action A E B)} {i j : ℕ}
  {c : Conn A E B} {y : Serve A E B}

theorem endsInOnePoll_of_leaving (hs : Sound s) (hi : s.pool[i]? = some (.task j c))
    (hc : c.Leaving s.memory.handle) : EndsInOnePoll srvs s i j c where
  bounded h := by
    have hleaving := task_assertion (State.leaving_invariant (E := E) (B := B) (srvs j))
      fun _ _ => .left rfl
    refine le_trans ?_ c.fuel_le
    exact task_countP_le hleaving Conn.StreamRule.fuel (fun hw hcw hc hr => (hc.step hw hcw hr).2.2)
      Conn.Leaving.not_callsOut h hs hi hc
  run {as t} h := by
    have hsince := task_assertion (State.leavingSince_invariant (srvs j) c)
      fun hcall hd => by simp [hd.leaving.not_callsOut] at hcall
    obtain ⟨d, hd, hl⟩ := task_exec hsince h hs hi ⟨hc, [], State.leftSince_refl c⟩
    obtain ⟨new, hn⟩ := hl.left
    refine ⟨d, new, hd, hn, fun hf => ?_⟩
    have ht := (guarantee srvs).sound h hs
    obtain ⟨k, d', evs, hstep⟩ := hl.leaving.enabled (srvs j) t.memory.now (ht.thread hd) hf
    exact ⟨_, next_task hd hstep⟩

theorem stopsInOnePoll_of_stopping (hs : Sound s) (hi : s.pool[i]? = some (.serve j y))
    (hy : y.Stopping s.memory.handle) : StopsInOnePoll srvs s i j y where
  bounded h := by
    have hstopping := serve_assertion (State.stoppingSince_invariant (srvs j) y)
    refine le_trans ?_ (Nat.succ_le_succ (State.Serve.stopFuel_le y))
    exact serve_countP_le hstopping (fun hsw hst hr => (hst.stopping.step hsw hr).2.2.1) h hs hi
      ⟨hy, ⟨[], .refl _, by simp⟩, fun _ => .inl rfl⟩
  run {as t} h := by
    have hstopping := serve_assertion (State.stoppingSince_invariant (srvs j) y)
    rcases serve_exec hstopping h hs hi ⟨hy, ⟨[], .refl _, by simp⟩, fun _ => .inl rfl⟩ with
      hz | ⟨z, hz, hsince⟩
    · exact .inl hz
    · obtain ⟨new, hnew, hstops⟩ := hsince.stops
      refine .inr ⟨z, new, hz, hnew, hstops, hsince.idle, fun hn => ?_⟩
      have ht := (guarantee srvs).sound h hs
      obtain ⟨k, z', cs, evs, hstep⟩ :=
        hsince.stopping.enabled (srvs j) t.memory.now (ht.thread hz) hn
      exact ⟨_, next_serve hz hstep⟩

/-! ## Shutdown -/

/-- From the end of its grace period on a server is on the path that fires the shutdown
latch of the handle. -/
def Expired (m : Cells A) : Thread A E B → Prop
  | .serve _ y => (∃ t, (t, .graceExpired) ∈ y.log) → Serve.Expired m.handle y.stage
  | _ => True

theorem expired_assertion (srvs : ℕ → Server A) :
    Assertion (program (E := E) (B := B) srvs) Cells.Le (fun m => m.handle.WF) Thread.WF
      Expired where
  mono {m n t} hle ht := by
    cases t with
    | serve j y => exact fun he => (ht he).mono hle.handle
    | _ => trivial
  step hw ht hstep hJ := by
    cases rule_of_step hstep with
    | serve j y z x k cs evs hr =>
      exact (Serve.expired_invariant (srvs j)).step hw ht trivial hr hJ
    | _ => trivial
  helper {m t u x} hw ht hhelper hJ := by
    obtain ⟨j, c, d, y, evs, rfl, rfl, hr, rfl⟩ := stream_of_helper hhelper
    trivial

theorem Reachable.expired (h : Reachable srvs s) : ∀ t ∈ s.pool, Expired s.memory t := by
  obtain ⟨as, h⟩ := h
  refine (expired_assertion srvs).forall_threads (guarantee srvs) ?_ ?_ h
    ⟨Handle.wf_new, by simp⟩ (by simp)
  · intro m n us e hw he u hu
    rcases started_outside he u hu with ⟨j, rfl⟩ | ⟨c, rfl⟩
    · rintro ⟨t, ht⟩
      cases ht
    · trivial
  · intro m n t u us x hw ht hstep v hv
    obtain ⟨j, addr, rfl⟩ := (rule_of_step hstep).spawned v hv
    trivial

theorem ShutdownReturned.fired (h : ShutdownReturned s) (hr : Reachable srvs s) :
    s.memory.handle.shutdown.Fired := by
  rcases h with hc | ⟨j, y, hy, hlog, r, hst⟩
  · exact hr.sound.pool _ hc
  · have he := hr.expired _ hy hlog
    rw [hst] at he
    exact he

/-- One `shutdown()` ends all servers on the handle, and the grace period of any of them
does when it runs out: each task, of whichever server and in whichever phase, ends in its
next poll, and so does each `serve` that is in its accept loop. -/
theorem shutdown_ends_every_server (hr : Reachable srvs s) (hsd : ShutdownReturned s) :
    (∀ i j c, s.pool[i]? = some (.task j c) → c.pc = .idle → EndsInOnePoll srvs s i j c) ∧
    (∀ i j y, s.pool[i]? = some (.serve j y) → y.stage.inLoop = true → y.pc = .idle →
      StopsInOnePoll srvs s i j y) := by
  have hs := hr.sound
  have hf := hsd.fired hr
  refine ⟨fun i j c hi hpc => ?_, fun i j y hi hl hpc => ?_⟩
  · have hc : c.WF s.memory.handle := hs.thread hi
    apply endsInOnePoll_of_leaving hs hi
    have hp : Conn.Placed c.stage .idle := hpc ▸ hc.placed
    rcases hp with hlive | hfin
    · exact .shutdown (.inl ⟨hpc, Stage.shutdown_mem_arms hlive⟩)
        (hc.shutdown.ready hs.memory.shutdown hf)
    · exact .left (by rw [hfin]; rfl)
  · have hy : y.WF s.memory.handle := hs.thread hi
    exact stopsInOnePoll_of_stopping hs hi
      (.watching hl (.inl hpc) (hy.shutdown.ready hs.memory.shutdown hf))

/-! ## A count of zero after a graceful shutdown -/

def GracefulReturned (s : State A E B) : Prop :=
  ∃ duration, .caller (.graceful duration .returned) ∈ s.pool

abbrev Draining (m : Cells A) : Prop := m.handle.WF ∧ m.handle.graceful.notified = true

theorem draining_guarantee (srvs : ℕ → Server A) :
    Guarantee (program (E := E) (B := B) srvs) Cells.Le Draining Thread.WF :=
  (guarantee srvs).and_stable fun hle hg => hle.handle.graceful.flag hg

/-- Thread `i` is no connection, or one that is on its way out since it was there at `s`, or
since it was spawned later. -/
def LeavingFrom (s : State A E B) (i : ℕ) (m : Cells A) : Thread A E B → Prop
  | .task j d => ∃ c, (s.pool[i]? = some (.task j c) ∨
      s.pool.length ≤ i ∧ ∃ addr, c = { remoteAddr := addr }) ∧ State.LeavingSince c m.handle d
  | _ => True

theorem leavingFrom_assertion (srvs : ℕ → Server A) (s : State A E B) (i : ℕ) :
    Assertion (program srvs) Cells.Le Draining Thread.WF (LeavingFrom s i) where
  mono {m n t} hle ht := by
    cases t with
    | task j d =>
      obtain ⟨c, hc, hl⟩ := ht
      exact ⟨c, hc, ⟨hl.leaving.mono hle.handle, hl.left⟩⟩
    | _ => trivial
  step hm ht hstep hd := by
    cases rule_of_step hstep with
    | task j d d' x k evs hr =>
      obtain ⟨c, hc, hl⟩ := hd
      exact ⟨c, hc, (State.leavingSince_invariant (srvs j) c).step hm.1 ht trivial hr hl⟩
    | panicTask j d hcall =>
      obtain ⟨c, hc, hl⟩ := hd
      simp [hl.leaving.not_callsOut] at hcall
    | _ => trivial
  helper {m t u x} hm ht hhelper hd := by
    obtain ⟨j, d, d', y, evs, rfl, rfl, hr, rfl⟩ := stream_of_helper hhelper
    obtain ⟨c, hc, hl⟩ := hd
    exact ⟨c, hc, (State.leavingSince_invariant (srvs j) c).stream ht (fun _ => trivial) hr hl⟩

theorem leavingFrom_spawned {m n : Cells A} {t u v : Thread A E B} {us : List (Thread A E B)}
    {x : Answer A E B} (hlen : s.pool.length ≤ i) (hm : Draining m) (hr : Rule srvs m t x n u us)
    (hv : v ∈ us) : LeavingFrom s i n v := by
  cases hr with
  | serve j y z x k cs evs hr =>
    obtain ⟨c, hc, rfl⟩ := List.mem_map.mp hv
    obtain ⟨addr, rfl⟩ := hr.spawned hc
    have hleaving := (Conn.leaving_spawned (E := E) (B := B) hm.2 addr).mono hr.le
    exact ⟨_, .inr ⟨hlen, addr, rfl⟩, hleaving, [], State.leftSince_refl _⟩
  | _ => cases hv

theorem leavingFrom_exec (h : Exec srvs s as s') (hs : s.Sound Draining Thread.WF)
    (hall : ∀ j c, .task j c ∈ s.pool → c.Leaving s.memory.handle) :
    ∀ i t, s'.pool[i]? = some t → LeavingFrom s i s'.memory t := by
  refine Assertion.forall_places (leavingFrom_assertion srvs s) (draining_guarantee srvs) ?_ ?_ h
    hs fun i t hi => ?_
  · intro m n us e i hlen hm he u hu
    rcases started_outside he u hu with ⟨j, rfl⟩ | ⟨c, rfl⟩ <;> trivial
  · intro m n t u us x i hlen hm ht hstep v hv
    exact leavingFrom_spawned hlen hm (rule_of_step hstep) hv
  · cases t with
    | task j c =>
      exact ⟨c, .inl hi, hall j c (List.mem_of_getElem? hi), [], State.leftSince_refl c⟩
    | _ => trivial

def history (s : State A E B) (i : ℕ) : List (Instant × ConnEvent A E B) :=
  match s.pool[i]? with
  | some (.task _ c) => c.log
  | _ => []

def streamsLeft (s : State A E B) (i : ℕ) : ℕ :=
  match s.pool[i]? with
  | some (.task _ c) => c.streams
  | _ => 0

theorem LeavingFrom.quietSince {m : Cells A} {d : Conn A E B}
    (h : LeavingFrom s i m (.task j d)) :
    ∃ new, State.QuietSince (history s i) (streamsLeft s i) d new := by
  obtain ⟨c, hc, -, new, hn⟩ := h
  refine ⟨new, ?_⟩
  rcases hc with hi | ⟨hlen, addr, rfl⟩
  · simpa only [history, streamsLeft, hi] using hn.toQuietSince
  · have hnone := List.getElem?_eq_none_iff.mpr hlen
    simpa only [history, streamsLeft, hnone] using hn.toQuietSince

/-- The thread has no stream tasks, if it belongs to a server for HTTP/1 alone. -/
def Streamless (srvs : ℕ → Server A) (_ : Cells A) : Thread A E B → Prop
  | .task j c => (srvs j).httpVersion = some .http1 → c.streams = 0
  | _ => True

theorem streamless_assertion (srvs : ℕ → Server A) :
    Assertion (program (E := E) (B := B) srvs) Cells.Le (fun m => m.handle.WF) Thread.WF
      (Streamless srvs) where
  mono {m n t} _ ht := by cases t <;> exact ht
  step hw ht hstep hc := by
    cases rule_of_step hstep with
    | task j c d x k evs hr => exact fun hv => (hr.streams_of_http1 hv).trans (hc hv)
    | panicTask j c => exact hc
    | _ => trivial
  helper {m t u x} hw ht hhelper hc := by
    obtain ⟨j, c, d, y, evs, rfl, rfl, hr, rfl⟩ := stream_of_helper hhelper
    exact fun hv => Nat.le_zero.mp (hr.streams_le.trans_eq (hc hv))

theorem Reachable.streamless (h : Reachable srvs s) : ∀ t ∈ s.pool, Streamless srvs s.memory t := by
  obtain ⟨as, h⟩ := h
  refine (streamless_assertion srvs).forall_threads (guarantee srvs) ?_ ?_ h
    ⟨Handle.wf_new, by simp⟩ (by simp)
  · intro m n us e hw he u hu
    rcases started_outside he u hu with ⟨j, rfl⟩ | ⟨c, rfl⟩ <;> trivial
  · intro m n t u us x hw ht hstep v hv
    obtain ⟨j, addr, rfl⟩ := (rule_of_step hstep).spawned v hv
    exact fun _ => rfl

/-- After a graceful shutdown a count of zero is final for all servers on the handle: no
acceptor and no connection future of any of them is alive, and in every continuation no
acceptor and no connection future is polled, and no connection task calls a service or
spawns a stream task. The stream tasks that are left may call their service once each, and
a server for HTTP/1 alone has none. -/
theorem zero_is_final (hr : Reachable srvs s) (hg : GracefulReturned s)
    (h0 : s.memory.handle.connectionCount = 0) :
    (∀ j c, .task j c ∈ s.pool → c.stage.live = false) ∧
    (∀ as t, Exec srvs s as t → ∀ i j d, t.pool[i]? = some (.task j d) →
      ∃ new, State.QuietSince (history s i) (streamsLeft s i) d new) ∧
    (∀ j c, (srvs j).httpVersion = some .http1 → .task j c ∈ s.pool → c.streams = 0) := by
  have hs := hr.sound
  have hgone : ∀ j c, .task j c ∈ s.pool → c.stage.live = false := by
    intro j c hc
    apply Conn.not_live_of_not_holds
    have hle : (Thread.task j c).watchers ≤ watchers s := Threads.le_total Thread.watchers hc
    rw [← hr.exact, show s.memory.handle.connCount = 0 from h0] at hle
    simpa [Thread.watchers] using hle
  refine ⟨hgone, fun as t hexec i j d hi => ?_, fun j c hv hc => hr.streamless _ hc hv⟩
  obtain ⟨duration, hcaller⟩ := hg
  have hfired : s.memory.handle.graceful.Fired := hs.pool _ hcaller
  have hds : s.Sound Draining Thread.WF :=
    ⟨⟨hs.memory, hfired.notified hs.memory.graceful⟩, hs.pool⟩
  exact (leavingFrom_exec hexec hds (fun j c hc => .left (hgone j c hc)) i _ hi).quietSince

end

/-- A connection of server 0 has ended, and server 1 waits for its make service, when
`graceful_shutdown` is called. -/
def sharedIdleSchedule : List (Action ℕ Unit Unit) :=
  [Move.outside (.start 0), .outside (.start 1)] ++
    (AxumServer.Action.listen (some 0) ++ AxumServer.Action.connect 1 ++
      AxumServer.Action.handshake 2 ++ AxumServer.Action.reachHyper 2 ++
      [AxumServer.Action.task 2 .serviceCall, .task 2 .ready, .task 2 .go, .task 2 .go]).map
      (place 0 id id) ++
    (AxumServer.Action.listen (some 5) ++
      [AxumServer.Action.serve (.accepted 6), .serve .readyPending, .serve .go] ++
      AxumServer.Action.callNow 3 (.gracefulShutdown none) 3).map (place 1 id id)

/-- The make service answers, and the connection of server 1 is spawned and polled. -/
def sharedLateSchedule : List (Action ℕ Unit Unit) :=
  (AxumServer.Action.resume ++
    [AxumServer.Action.serve .ready, .serve .made, .serve .go, .serve .go]).map (place 1 id id) ++
    List.replicate 5 (Move.thread 4 (.task .go))

def lateConnection : Conn ℕ Unit Unit where
  remoteAddr := 6
  pc := .next [.graceful, .accept]
  shutdown := .waiting 0
  graceful := .enabled 1
  log := [(0, .poll)]

theorem zero_is_final_shared :
    ∃ new, State.QuietSince
      (history (after (fun _ => Server.fromListener) sharedIdleSchedule) 4) 0 lateConnection new :=
  have hlate : Exec (fun _ => Server.fromListener)
      (after (fun _ => Server.fromListener) sharedIdleSchedule) sharedLateSchedule
      (after (fun _ => Server.fromListener) (sharedIdleSchedule ++ sharedLateSchedule)) :=
    exec_of_runIf (by decide)
  (zero_is_final (reachable_after (fun _ => Server.fromListener) sharedIdleSchedule)
    ⟨none, by decide⟩ (by decide)).2.1 _ _ hlate 4 1 lateConnection (by decide)

/-- Both servers have a connection in a request, threads 2 and 3, when the grace period
is set to 5 ns. Server 0 waits from the start, server 1 from 4 ns on; at 5 ns the wait of
server 0 is over. -/
def cascadeSchedule : List (Action ℕ Unit Unit) :=
  [Move.outside (.start 0), .outside (.start 1)] ++
    (AxumServer.Action.listen (some 0) ++ AxumServer.Action.connect 1).map (place 0 id id) ++
    (AxumServer.Action.listen (some 5) ++ AxumServer.Action.connect 6).map (place 1 id id) ++
    (AxumServer.Action.handshake 2 ++ AxumServer.Action.reachHyper 2 ++
      [AxumServer.Action.task 2 .pending, .task 2 .go] ++ AxumServer.Action.handshake 3 ++
      AxumServer.Action.reachHyper 3 ++ [AxumServer.Action.task 3 .pending, .task 3 .go] ++
      AxumServer.Action.callNow 4 (.gracefulShutdown (some 5)) 3 ++
      AxumServer.Action.resume ++ AxumServer.Action.serve .acceptPending ::
      List.replicate 8 (AxumServer.Action.serve .go)).map (place 0 id id) ++
    (AxumServer.Action.tick 4 :: AxumServer.Action.resume ++
      AxumServer.Action.serve .acceptPending ::
      List.replicate 8 (AxumServer.Action.serve .go)).map (place 1 id id) ++
    (AxumServer.Action.tick 1 :: List.replicate 4 (AxumServer.Action.serve .go)).map
      (place 0 id id)

def cascadedTask : Conn ℕ Unit Unit where
  remoteAddr := 6
  stage := .serving
  shutdown := .waiting 0
  graceful := .waiting 0
  log := [(0, .poll), (0, .acceptPoll), (0, .accepted), (0, .serveConnection true),
    (0, .servePoll), (0, .pending)]

/-- It ends although server 1 has 4 ns left to wait for it. -/
theorem shutdown_ends_every_server_cascade :
    EndsInOnePoll (fun _ => Server.fromListener)
      (after (fun _ => Server.fromListener) cascadeSchedule) 3 1 cascadedTask :=
  (shutdown_ends_every_server (reachable_after (fun _ => Server.fromListener) cascadeSchedule)
    (.inr ⟨0, _, List.mem_of_getElem? (i := 0) rfl, ⟨5, by decide⟩, .ok (), by decide⟩)).1
    3 1 cascadedTask (by decide) rfl

end Fleet

end AxumServer
