import AxumServer.Fleet.System
import AxumServer.Server.Drain

/-! # The connection count of several servers

All servers on a handle count their connections in one cell. The count is the number of
`Watcher`s that were created and not yet subtracted, whatever is cancelled and whatever
panics, and the last one to go wakes every server that waits for the end.
-/

namespace AxumServer

open Interleaving

variable {A E B : Type}

theorem Serve.awaits_of_callsOut {s : Serve A E B} (h : s.callsOut = true) :
    s.stage.awaits = true := by
  unfold Serve.callsOut at h
  split at h
  case h_5 => cases h
  all_goals
    rename_i hs _
    rw [hs]
    rfl

theorem Conn.live_of_callsOut {c : Conn A E B} (h : c.callsOut = true) : c.stage.live = true := by
  unfold Conn.callsOut at h
  split at h
  · exact h
  · cases h

namespace Fleet

def Thread.watchers : Thread A E B → ℕ
  | .serve _ s => s.holds
  | .task _ c => if c.holds then 1 else 0
  | .caller _ => 0
  | .dropped => 0

abbrev watchers (s : State A E B) : ℕ := s.total Thread.watchers

theorem sum_watchers_tasks (j : ℕ) (cs : List (Conn A E B)) :
    ((cs.map (Thread.task j)).map Thread.watchers).sum = cs.countP Conn.holds := by
  induction cs with
  | nil => rfl
  | cons c cs ih =>
    rw [List.map_cons, List.map_cons, List.sum_cons, ih, List.countP_cons, add_comm]
    rfl

theorem counts (srvs : ℕ → Server A) :
    Counts (program (E := E) (B := B) srvs) (fun m => m.handle.WF) (fun m => m.handle.connCount)
      Thread.watchers where
  outside {m n us e} he := by
    cases e <;> obtain ⟨rfl, rfl⟩ := Prod.mk.inj he <;> rfl
  step {m n t u us x} _ hle hstep := by
    cases rule_of_step hstep with
    | serve j s t x k cs evs hr =>
      have hk := hr.connCount
      have ht : (t.record m.now evs).holds = t.holds := rfl
      simp only [Thread.watchers, sum_watchers_tasks, ht]
      exact hk
    | task j c d x k evs hr =>
      simp only [Thread.watchers] at hle
      have hk := hr.connCount fun hc => Nat.succ_le_iff.mp (by simpa [hc] using hle)
      have hd : (d.record m.now evs).holds = d.holds := rfl
      simp only [Thread.watchers, hd, List.map_nil, List.sum_nil]
      exact hk
    | caller c d k hr => simpa [Thread.watchers] using hr.frame.connCount
    | cancelServe j s ha => simp [Thread.watchers, Serve.holds_of_awaits ha]
    | panicServe j s hs =>
      simp [Thread.watchers, Serve.holds_of_awaits (Serve.awaits_of_callsOut hs)]
    | panicTask j c hc =>
      simp [Thread.watchers, Conn.holds_of_live (Conn.live_of_callsOut hc)]
    | cancelCaller c => rfl
  helper {m t u x} hhelper := by
    obtain ⟨j, c, d, y, evs, rfl, rfl, hr, rfl⟩ := stream_of_helper hhelper
    have hd : (d.record m.now evs).holds = c.holds := hr.holds
    simp only [Thread.watchers, hd]

section Count
variable {srvs : ℕ → Server A} {s s' : State A E B} {as : List (Action A E B)}

theorem Reachable.exact (h : Reachable srvs s) : s.memory.handle.connCount = watchers s := by
  obtain ⟨as, h⟩ := h
  exact (counts srvs).exact (guarantee srvs) h ⟨Handle.wf_new, by simp⟩ rfl

/-- However many servers share the handle, and whatever is cancelled or panics,
`connection_count()` is the number of their `Watcher`s: the subtraction in a drop never
wraps around, and a call reads the number that is right at the moment of its load. -/
theorem connection_count_exact (hr : Reachable srvs s) :
    s.memory.handle.connectionCount = watchers s ∧
    (∀ j c, .task j c ∈ s.pool → c.stage = .dropping .fetchSub →
      0 < s.memory.handle.connectionCount) ∧
    (∀ i t, s.pool[i]? = some (.caller (.connectionCount none)) →
      (program srvs).next s (.thread i .caller) = some t →
      t.pool[i]? = some (.caller (.connectionCount (some (watchers s))))) := by
  have hcount := hr.exact
  refine ⟨hcount, fun j c hc hst => ?_, fun i t hi hnext => ?_⟩
  · have hle := Threads.le_total Thread.watchers hc
    have hone : (Thread.task j c : Thread A E B).watchers = 1 := by
      simp [Thread.watchers, Conn.holds_dropping hst]
    have hpos : 0 < watchers s := lt_of_lt_of_le Nat.one_pos (hone ▸ hle)
    rw [← hcount] at hpos
    exact hpos
  · have hstep : step srvs s.memory (.caller (.connectionCount none) : Thread A E B) .caller =
        some (s.memory, .caller (.connectionCount (some s.memory.handle.connCount)), []) := rfl
    obtain rfl := Option.some.inj ((Program.next_thread hi hstep).symm.trans hnext)
    simp only [List.append_nil]
    rw [List.getElem?_set_self (List.getElem?_eq_some_iff.mp hi).1, hcount]

end Count

/-- Two servers on one handle take a connection each, which become the threads 2 and 3;
the acceptor of the first panics, and its `Watcher` is being dropped. -/
def panicSchedule : List (Action ℕ Unit Unit) :=
  [Move.outside (.start 0), .outside (.start 1)] ++
    (AxumServer.Action.listen (some 0) ++ AxumServer.Action.connect 1).map (place 0 id id) ++
    (AxumServer.Action.listen (some 5) ++ AxumServer.Action.connect 6).map (place 1 id id) ++
    (List.replicate 8 (AxumServer.Action.task 2 .go)).map (place 0 id id) ++
    [Move.thread 2 .panic]

def panickedTask : Conn ℕ Unit Unit where
  remoteAddr := 1
  stage := .dropping .fetchSub
  pc := .next []
  shutdown := .waiting 0
  graceful := .waiting 0
  log := [(0, .poll), (0, .acceptPoll)]

theorem connection_count_exact_panic :
    (after (fun _ => Server.fromListener) panicSchedule).memory.handle.connectionCount =
      watchers (after (fun _ => Server.fromListener) panicSchedule) ∧
    0 < (after (fun _ => Server.fromListener) panicSchedule).memory.handle.connectionCount :=
  have h := connection_count_exact (reachable_after (fun _ => Server.fromListener) panicSchedule)
  ⟨h.1, h.2.1 0 panickedTask (by decide) rfl⟩

/-! ## The end of the connections -/

/-- The thread is past its `fetch_sub` and will signal `conn_end`. -/
def Thread.signals : Thread A E B → Bool
  | .task _ c => c.signals
  | _ => false

/-- The thread is a server that has seen a connection and waits for the end. -/
def Thread.waits : Thread A E B → Bool
  | .serve _ s => s.stage.waits
  | _ => false

/-- While a server waits, a `Watcher` is counted, or some drop is about to signal, or
`conn_end` has fired. -/
def Promised (s : State A E B) : Prop :=
  (∃ t ∈ s.pool, t.waits = true) → 0 < s.memory.handle.connCount ∨
    (∃ t ∈ s.pool, t.signals = true) ∨ s.memory.handle.connEnd.Fired

section Promise
variable {srvs : ℕ → Server A} {m n : Cells A} {t u v : Thread A E B} {us : List (Thread A E B)}
  {x : Answer A E B} {s s' : State A E B} {a : Action A E B} {as : List (Action A E B)} {i j : ℕ}

theorem Rule.waits (hr : Rule srvs m t x n u us) :
    (u.waits = true → t.waits = true ∨ 0 < n.handle.connCount) ∧ ∀ v ∈ us, v.waits = false := by
  cases hr with
  | serve j s t x k cs evs hr =>
    refine ⟨fun hw => ?_, fun v hv => ?_⟩
    · obtain ⟨hwas | hne, rfl, -⟩ := hr.waits hw
      · exact .inl hwas
      · exact .inr (Nat.pos_of_ne_zero hne)
    · obtain ⟨c, -, rfl⟩ := List.mem_map.mp hv
      rfl
  | _ => exact ⟨fun hw => (by cases hw), by simp⟩

/-- Under a set graceful latch the duty to signal is carried out or handed on. -/
theorem Rule.signals (hr : Rule srvs m t x n u us) (hg : m.handle.graceful.notified = true) :
    0 < n.handle.connCount ∨ u.signals = true ∨ n.handle.connEnd.Fired ∨
      (m.handle.connCount ≤ n.handle.connCount ∧ n.handle.connEnd = m.handle.connEnd ∧
        t.signals = false) := by
  cases hr with
  | serve j s t x k cs evs hr =>
    have hf := hr.countFrame
    exact .inr (.inr (.inr ⟨hf.1, hf.2, rfl⟩))
  | task j c d x k evs hr =>
    rcases hr.signals hg with hpos | hd | hfired | ⟨hcount, hend, hc⟩
    · exact .inl hpos
    · exact .inr (.inl hd)
    · exact .inr (.inr (.inl hfired))
    · exact .inr (.inr (.inr ⟨hcount.ge, hend, hc⟩))
  | caller c d k hr =>
    exact .inr (.inr (.inr ⟨hr.frame.connCount.ge, hr.frame.connEnd, rfl⟩))
  | panicTask j c hc =>
    exact .inr (.inr (.inr ⟨le_rfl, rfl, Conn.signals_of_live (Conn.live_of_callsOut hc)⟩))
  | cancelServe | panicServe | cancelCaller => exact .inr (.inr (.inr ⟨le_rfl, rfl, rfl⟩))

theorem waits_of_helper (h : helper m t x = some u) :
    u.waits = t.waits ∧ u.signals = t.signals := by
  obtain ⟨j, c, d, y, evs, rfl, rfl, hr, rfl⟩ := stream_of_helper h
  exact ⟨rfl, hr.signals⟩

theorem Thread.WF.graceful (ht : t.WF m) (hw : t.waits = true) :
    m.handle.graceful.notified = true := by
  cases t with
  | serve j s =>
    have hk := Serve.WF.knows ht
    cases hst : s.stage with
    | draining w =>
      rw [hst] at hk
      exact hk.graceful
    | _ => simp [Thread.waits, hst, ServeStage.waits] at hw
  | _ => cases hw

theorem promised_step (hs : Sound s) (hp : Promised s) (hr : (program srvs).Rule s a s') :
    Promised s' := by
  cases hr with
  | outside e m us he =>
    rintro ⟨t, ht, hw⟩
    have hkeep : m.handle = s.memory.handle ∧ ∀ t ∈ us, t.waits = false := by
      cases e <;> obtain ⟨rfl, rfl⟩ := Prod.mk.inj he <;>
        exact ⟨rfl, by simp [Thread.waits, ServeStage.waits]⟩
    rcases List.mem_append.mp ht with ht | ht
    · rw [hkeep.1]
      rcases hp ⟨t, ht, hw⟩ with hpos | ⟨u, hu, hsig⟩ | hfired
      · exact .inl hpos
      · exact .inr (.inl ⟨u, List.mem_append_left _ hu, hsig⟩)
      · exact .inr (.inr hfired)
    · simp [hkeep.2 t ht] at hw
  | thread i x t u m us hi hstep =>
    have hr := rule_of_step hstep
    have hu : u ∈ s.pool.set i u ++ us :=
      List.mem_append_left _ (List.mem_set (List.getElem?_eq_some_iff.mp hi).1 u)
    rintro ⟨v, hv, hw⟩
    have hwas : (∃ t ∈ s.pool, t.waits = true) ∨ 0 < m.handle.connCount := by
      rcases List.mem_append.mp hv with hv | hv
      · rcases List.mem_or_eq_of_mem_set hv with hv | rfl
        · exact .inl ⟨v, hv, hw⟩
        · exact (hr.waits.1 hw).imp_left fun ht => ⟨t, List.mem_of_getElem? hi, ht⟩
      · simp [hr.waits.2 v hv] at hw
    rcases hwas with ⟨w, hwm, hww⟩ | hpos
    · rcases hr.signals ((hs.pool w hwm).graceful hww) with hpos | hsig | hfired |
        ⟨hcount, hend, ht⟩
      · exact .inl hpos
      · exact .inr (.inl ⟨u, hu, hsig⟩)
      · exact .inr (.inr hfired)
      · rcases hp ⟨w, hwm, hww⟩ with hpos | hsig | hfired
        · exact .inl (hpos.trans_le hcount)
        · obtain ⟨y, hy, hysig⟩ : ∃ y ∈ s.pool.set i u, y.signals = true :=
            exists_mem_set hsig hi (fun _ => id) fun hsig' => by simp [ht] at hsig'
          exact .inr (.inl ⟨y, List.mem_append_left _ hy, hysig⟩)
        · exact .inr (.inr (hend ▸ hfired))
    · exact .inl hpos
  | helper i x t u hi hhelper =>
    obtain ⟨hwaits, hsignals⟩ := waits_of_helper hhelper
    rintro ⟨v, hv, hw⟩
    have hwas : ∃ t ∈ s.pool, t.waits = true := by
      rcases List.mem_or_eq_of_mem_set hv with hv | rfl
      · exact ⟨v, hv, hw⟩
      · exact ⟨t, List.mem_of_getElem? hi, hwaits ▸ hw⟩
    refine (hp hwas).imp_right (Or.imp_left fun hsig => ?_)
    exact exists_mem_set hsig hi (fun _ => id) hsignals.trans

theorem Reachable.promised (h : Reachable srvs s) : Promised s := by
  refine Interleaving.Reachable.invariant_under (J := Sound) h
    (fun hs _ move => (guarantee srvs).next hs move) ⟨Handle.wf_new, by simp⟩
    (fun hs hp _ move => promised_step hs hp (Program.rule_of_next move)) ?_
  rintro ⟨t, ht, -⟩
  cases ht

def Thread.Watcherless : Thread A E B → Prop
  | .serve _ s => s.holds = 0
  | .task _ c => c.stage = .finished
  | _ => True

instance : (t : Thread A E B) → Decidable t.Watcherless
  | .serve _ s => inferInstanceAs (Decidable (s.holds = 0))
  | .task _ c => inferInstanceAs (Decidable (c.stage = .finished))
  | .caller _ => isTrue trivial
  | .dropped => isTrue trivial

theorem Thread.Watcherless.signals (h : t.Watcherless) : t.signals = false := by
  cases t with
  | task j c =>
    have hst : c.stage = .finished := h
    simp [Thread.signals, Conn.signals, hst]
  | _ => rfl

theorem Thread.Watcherless.watchers (h : t.Watcherless) : t.watchers = 0 := by
  cases t with
  | serve j s => exact h
  | task j c =>
    have hst : c.stage = .finished := h
    simp [Thread.watchers, Conn.holds, hst, Stage.live]
  | _ => rfl

/-- With no `Watcher` alive and no drop in progress, `conn_end` has fired. -/
theorem Reachable.connEnd_fired (h : Reachable srvs s) (hall : ∀ t ∈ s.pool, t.Watcherless)
    (hw : ∃ t ∈ s.pool, t.waits = true) : s.memory.handle.connEnd.Fired := by
  rcases h.promised hw with hpos | ⟨t, ht, hsig⟩ | hfired
  · have hzero : watchers s = 0 := by
      simp only [watchers, Threads.total, List.sum_eq_zero_iff_forall_eq_nat, List.mem_map]
      rintro _ ⟨t, ht, rfl⟩
      exact (hall t ht).watchers
    rw [h.exact, hzero] at hpos
    cases hpos
  · simp [(hall t ht).signals] at hsig
  · exact hfired

/-- No server misses the end: when no `Watcher` of any server on the handle is alive and
no drop is in progress, each `serve` that waits for `conn_end` is ready, and in every
continuation it returns after at most 9 operations, each of which it can make, unless its
owner drops it. -/
theorem connEnd_reaches_all (hr : Reachable srvs s) (hall : ∀ t ∈ s.pool, t.Watcherless)
    {y : Serve A E B} (hi : s.pool[i]? = some (.serve j y))
    (hwait : y.stage.waitsConnEnd = true) :
    s.memory.handle.connEnd.isNotified = true ∧ y.connEnd.Ready s.memory.handle.connEnd ∧
      ∀ as s', Exec srvs s as s' → as.countP (Move.isThread i) ≤ 9 ∧
        (s'.pool[i]? = some .dropped ∨ ∃ z, s'.pool[i]? = some (.serve j z) ∧
          (z.stage = .returned (.ok ()) ∨
            ∃ r, (program srvs).next s' (.thread i (.serve .go)) = some r)) := by
  have hs := hr.sound
  have hy : y.WF s.memory.handle := hs.thread hi
  have hf := hr.connEnd_fired hall
    ⟨_, List.mem_of_getElem? hi, ServeStage.waits_of_waitsConnEnd hwait⟩
  have hready := hy.connEnd.ready hs.memory.connEnd hf
  have hcompleting := serve_assertion (State.completing_invariant (E := E) (B := B) (srvs j))
  refine ⟨hf.notified hs.memory.connEnd, hready, fun as s' hexec => ⟨?_, ?_⟩⟩
  · refine le_trans ?_ (Nat.succ_le_succ y.drainFuel_le)
    exact serve_countP_le hcompleting (fun hw hc hr => (hc.step hw hr).2) hexec hs hi
      (.waiting hwait hready)
  · rcases serve_exec hcompleting hexec hs hi (.waiting hwait hready) with hz | ⟨z, hz, hc⟩
    · exact .inl hz
    · refine .inr ⟨z, hz, ?_⟩
      by_cases hn : z.stage = .returned (.ok ())
      · exact .inl hn
      · have hsound := (guarantee srvs).sound hexec hs
        obtain ⟨k, z', cs, evs, hstep⟩ :=
          hc.enabled (srvs j) s'.memory.now (hsound.thread hz) hn
        exact .inr ⟨_, next_serve hz hstep⟩

end Promise

/-- Server 0 has a connection, which becomes thread 2, when `graceful_shutdown` is called;
both servers come to wait for it, then it ends. -/
def sharedDrainSchedule : List (Action ℕ Unit Unit) :=
  [Move.outside (.start 0), .outside (.start 1)] ++
    (AxumServer.Action.listen (some 0) ++ AxumServer.Action.connect 1 ++
      AxumServer.Action.handshake 2 ++ AxumServer.Action.reachHyper 2 ++
      [AxumServer.Action.task 2 .serviceCall, .task 2 .pending, .task 2 .go] ++
      AxumServer.Action.callNow 3 (.gracefulShutdown none) 3 ++
      AxumServer.Action.resume ++ [AxumServer.Action.serve .acceptPending] ++
      List.replicate 7 (AxumServer.Action.serve .go)).map (place 0 id id) ++
    (AxumServer.Action.listen (some 5) ++ [AxumServer.Action.serve .acceptPending] ++
      List.replicate 8 (AxumServer.Action.serve .go)).map (place 1 id id) ++
    (List.replicate 6 (AxumServer.Action.task 2 .go) ++ [AxumServer.Action.task 2 .ready] ++
      List.replicate 4 (AxumServer.Action.task 2 .go)).map (place 0 id id)

def drainingServe : Serve ℕ Unit Unit where
  stage := .draining .untimed
  shutdown := .waiting 0
  graceful := .enabled 1
  connEnd := .waiting 0
  log := [(0, .poll), (0, .listenerDropped), (0, .pending)]

theorem connEnd_reaches_all_shared :
    drainingServe.connEnd.Ready
      (after (fun _ => Server.fromListener) sharedDrainSchedule).memory.handle.connEnd :=
  (connEnd_reaches_all (reachable_after (fun _ => Server.fromListener) sharedDrainSchedule)
    (by decide) (i := 1) (j := 1) (y := drainingServe) (by decide) (by decide)).2.1

end Fleet

end AxumServer
