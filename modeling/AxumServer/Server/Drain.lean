import AxumServer.Server.Watchers
import AxumServer.Server.Leaving

/-! # The drain after a graceful shutdown

`wait_connections_end` skips the wait when it reads a count of zero, and the last
drop signals only when it sees the graceful latch. The two checks race; whatever
their order, somebody is left who will signal.
-/

namespace AxumServer

open Interleaving

variable {A E B : Type}

/-- The drop is past its `fetch_sub` and will signal `conn_end` if `graceful` is set. -/
def Conn.signals (c : Conn A E B) : Bool :=
  match c.stage with
  | .dropping (.counted count) => decide (count = 0)
  | .dropping .connEndStore => true
  | .dropping .connEndWake => true
  | _ => false

/-- `wait_connections_end` has seen a connection and has not returned. -/
def ServeStage.waits : ServeStage A E B → Bool
  | .draining .duration => true
  | .draining (.timed _) => true
  | .draining .untimed => true
  | _ => false

/-- `serve` is suspended on `conn_end`. -/
def ServeStage.waitsConnEnd : ServeStage A E B → Bool
  | .draining (.timed _) => true
  | .draining .untimed => true
  | _ => false

theorem ServeStage.waits_of_waitsConnEnd {stage : ServeStage A E B}
    (h : stage.waitsConnEnd = true) : stage.waits = true := by
  unfold waitsConnEnd at h
  split at h <;> first | rfl | cases h

theorem ServeStage.eq_of_waitsConnEnd {stage : ServeStage A E B}
    (h : stage.waitsConnEnd = true) :
    (∃ deadline, stage = .draining (.timed deadline)) ∨ stage = .draining .untimed := by
  unfold waitsConnEnd at h
  split at h
  · exact .inl ⟨_, rfl⟩
  · exact .inr rfl
  · cases h

section Conn
variable {srv : Server A} {h k : Handle A} {now : Instant} {c d : Conn A E B}
  {evs : List (ConnEvent A E B)}

theorem Conn.signals_of_live (hl : c.stage.live = true) : c.signals = false := by
  unfold Conn.signals
  cases hs : c.stage <;> simp_all [Stage.live]

/-- Under a set graceful latch the duty to signal is carried out or handed on. -/
theorem Conn.Rule.signals (hr : Conn.Rule srv h now c k d evs)
    (hg : h.graceful.notified = true) :
    0 < k.connCount ∨ d.signals = true ∨ k.connEnd.Fired ∨
      (k.connCount = h.connCount ∧ k.connEnd = h.connEnd ∧ c.signals = false) := by
  cases hr with
  | drop e e' hs hd =>
    cases e with
    | fetchSub =>
      obtain rfl := Option.some.inj hd
      by_cases hz : h.connCount - 1 = 0
      · exact .inr (.inl (by simpa [Conn.signals] using hz))
      · exact .inl (Nat.pos_of_ne_zero hz)
    | counted count =>
      simp only [Handle.dropStep] at hd
      split at hd
      · obtain rfl := Option.some.inj hd
        exact .inr (.inl rfl)
      · cases hd
    | connEndStore =>
      obtain rfl := Option.some.inj hd
      exact .inr (.inl rfl)
    | connEndWake => cases hd
  | dropped e hs hd =>
    cases e with
    | fetchSub => cases hd
    | counted count =>
      have hne : count ≠ 0 := by
        rintro rfl
        simp [Handle.dropStep, NotifyOnce.isNotified, hg] at hd
      exact .inr (.inr (.inr ⟨rfl, rfl, by simp [Conn.signals, hs, hne]⟩))
    | connEndStore => cases hd
    | connEndWake => exact .inr (.inr (.inl (Nat.succ_pos _)))
  | gracefulLeave _ hs | gracefulSkip _ _ hs | gracefulStart _ hs | sleepFired _ _ hs
  | sleepPending _ _ hs =>
    exact .inr (.inr (.inr ⟨rfl, rfl, Conn.signals_of_live (by rw [hs]; rfl)⟩))
  | poll hl | suspend hl | shutdownBusy _ _ hl | shutdownPending _ hl | shutdownReady _ hl
  | gracefulBusy _ _ hl | gracefulPending _ hl | requestSent _ hl | requestClosed _ hl
  | requestPending _ hl | acceptPoll _ hl | acceptPending _ hl | accepted _ hl | acceptErr _ _ hl
  | servePoll _ hl | servePending _ hl | serviceCall _ hl | spawnStream _ hl
  | serviceDropped _ hl | serveReady _ hl =>
    exact .inr (.inr (.inr ⟨rfl, rfl, Conn.signals_of_live hl⟩))

theorem Conn.StreamRule.signals {x : StreamAnswer} (hr : Conn.StreamRule c x d evs) :
    d.signals = c.signals := by
  cases hr <;> rfl

end Conn

section Serve
variable {srv : Server A} {h k : Handle A} {now : Instant} {s t : Serve A E B}
  {x : ServeAnswer A E B} {cs : List (Conn A E B)} {evs : List (ServeEvent A E B)}

theorem Serve.Rule.waits (hr : Serve.Rule srv h now s x k t cs evs)
    (ht : t.stage.waits = true) :
    (s.stage.waits = true ∨ h.connCount ≠ 0) ∧ k = h ∧ cs = [] := by
  cases hr with
  | countPos hs hc => exact ⟨.inr hc, rfl, rfl⟩
  | timed _ hs | untimed hs => exact ⟨.inl (by rw [hs]; rfl), rfl, rfl⟩
  | poll | suspend | bindPending | shutdownBusy | shutdownPending | gracefulBusy
  | gracefulPending | connEndBusy | connEndPending | acceptPending | backoffPending | readyPending
  | makePending | sleepPending =>
    exact ⟨.inl ht, rfl, rfl⟩
  | _ => cases ht

/-- `serve` only raises the count, and does not touch `conn_end`. -/
theorem Serve.Rule.countFrame (hr : Serve.Rule srv h now s x k t cs evs) :
    h.connCount ≤ k.connCount ∧ k.connEnd = h.connEnd := by
  cases hr with
  | watcher => exact ⟨Nat.le_succ _, rfl⟩
  | _ => exact ⟨le_rfl, rfl⟩

/-- The wait of `serve` is ready to complete, or it is over. -/
inductive Serve.Completing (h : Handle A) (s : Serve A E B) : Prop
  | waiting (hs : s.stage.waitsConnEnd = true) (hr : s.connEnd.Ready h.connEnd)
  | shutdownStore (hs : s.stage = .draining .shutdownStore)
  | shutdownWake (hs : s.stage = .draining .shutdownWake)
  | returned (hs : s.stage = .returned (.ok ()))

def Serve.drainFuel (s : Serve A E B) : ℕ :=
  match s.stage, s.pc with
  | .returned _, _ => 0
  | .draining .shutdownWake, _ => 1
  | .draining .shutdownStore, _ => 2
  | _, .next [] => s.connEnd.ops + 5
  | _, .idle => s.connEnd.ops + 4
  | _, .next (.sleep :: _) => s.connEnd.ops + 3
  | _, _ => s.connEnd.ops + 2

theorem Serve.drainFuel_le (s : Serve A E B) : s.drainFuel ≤ 8 := by
  have := s.connEnd.ops_le
  unfold Serve.drainFuel
  split <;> omega

theorem Serve.Completing.mono (hs : s.Completing h) (hle : h.Le k) : s.Completing k := by
  cases hs with
  | waiting hs hr => exact .waiting hs (hr.mono hle.connEnd)
  | shutdownStore hs => exact .shutdownStore hs
  | shutdownWake hs => exact .shutdownWake hs
  | returned hs => exact .returned hs

theorem Serve.pc_of_waitsConnEnd (hw : s.WF h) (hs : s.stage.waitsConnEnd = true) :
    s.pc = .idle ∨ s.pc = .next [] ∨ s.pc = .next [.connEnd] ∨
      (s.pc = .next [.sleep, .connEnd] ∧ ∃ deadline, s.stage = .draining (.timed deadline)) := by
  have hp := hw.placed
  cases hpc : s.pc with
  | idle => exact .inl rfl
  | inside arm rest =>
    rw [hpc] at hp
    cases hp
  | next rest =>
    rw [hpc] at hp
    have hsuf := hp.1
    rcases ServeStage.eq_of_waitsConnEnd hs with ⟨deadline, hst⟩ | hst
    · simp [hst, ServeStage.arms, List.suffix_cons_iff] at hsuf ⊢
      tauto
    · simp [hst, ServeStage.arms, List.suffix_cons_iff] at hsuf ⊢
      tauto

def Serve.waitFuel (f : Notified) : SelectPc ServeArm → ℕ
  | .next [] => f.ops + 5
  | .idle => f.ops + 4
  | .next (.sleep :: _) => f.ops + 3
  | _ => f.ops + 2

theorem Serve.drainFuel_of_waitsConnEnd (hs : s.stage.waitsConnEnd = true) :
    s.drainFuel = Serve.waitFuel s.connEnd s.pc := by
  rw [drainFuel]
  rcases ServeStage.eq_of_waitsConnEnd hs with ⟨deadline, hst⟩ | hst <;> rw [hst] <;>
    rcases s.pc with _ | (_ | ⟨_ | _, rest⟩) | _ <;> rfl

theorem Serve.drainFuel_lt (ht : t.stage.waitsConnEnd = true) (hs : s.stage.waitsConnEnd = true)
    (h : Serve.waitFuel t.connEnd t.pc < Serve.waitFuel s.connEnd s.pc) :
    t.drainFuel < s.drainFuel := by
  rw [drainFuel_of_waitsConnEnd ht, drainFuel_of_waitsConnEnd hs]
  exact h

theorem Serve.Completing.step (hs : s.Completing h) (hsw : s.WF h)
    (hr : Serve.Rule srv h now s x k t cs evs) : t.Completing k ∧ t.drainFuel < s.drainFuel := by
  have hle := hr.le
  cases hs with
  | waiting hst hrd =>
    have hpcs := Serve.pc_of_waitsConnEnd hsw hst
    have hops := s.connEnd.ops_pos
    cases hr with
    | poll ha hpc =>
      refine ⟨.waiting hst hrd, Serve.drainFuel_lt hst hst ?_⟩
      rcases ServeStage.eq_of_waitsConnEnd hst with ⟨deadline, hs⟩ | hs <;>
        simp [Serve.waitFuel, hpc, hs, ServeStage.arms]
    | suspend ha hpc =>
      refine ⟨.waiting hst hrd, Serve.drainFuel_lt hst hst ?_⟩
      simp [Serve.waitFuel, hpc]
    | sleepPending rest deadline hs hpc hd =>
      obtain ⟨rfl, -⟩ : rest = [.connEnd] ∧ _ := by simpa [hpc] using hpcs
      refine ⟨.waiting hst hrd, Serve.drainFuel_lt hst hst ?_⟩
      simp [Serve.waitFuel, hpc]
    | graceExpired rest deadline hs hpc hd =>
      exact ⟨.shutdownStore rfl, by simp [Serve.drainFuel, hs, hpc]⟩
    | connEndBusy rest f ha hpc hf =>
      refine ⟨.waiting hst (hrd.poll hf).1, Serve.drainFuel_lt hst hst ?_⟩
      have := Notified.ops_poll hf
      simpa [Serve.waitFuel, hpc] using this
    | connEndPending rest ha hpc hf => exact absurd hf hrd.poll_ne_pending
    | connEndReady rest ha hpc hf =>
      refine ⟨.returned rfl, ?_⟩
      rw [Serve.drainFuel_of_waitsConnEnd hst]
      simp [Serve.drainFuel, Serve.waitFuel, hpc, Serve.ret]
    | bindPending _ _ hpc | bound _ _ _ hpc | bindErr _ _ _ hpc | shutdownBusy _ _ _ hpc
    | shutdownPending _ _ hpc | shutdownReady _ _ hpc | gracefulBusy _ _ _ hpc
    | gracefulPending _ _ hpc | gracefulReady _ _ hpc =>
      simp [hpc] at hpcs
    | localAddr _ hs | setAddr _ _ hs | addrStore _ hs | listening hs | bindFailed _ hs
    | countZero hs | countPos hs | timed _ hs | untimed hs | accepted _ _ hs | acceptPending _ hs
    | acceptErr _ _ hs | backoffPending _ _ hs | backoffElapsed _ _ hs | readyPending _ _ hs
    | ready _ _ hs | readyErr _ _ _ hs | makePending _ _ hs | made _ _ hs | makeErr _ _ _ hs
    | watcher _ hs | spawn _ hs | shutdownStore hs | shutdownWake hs =>
      rw [hs] at hst
      cases hst
  | shutdownStore hst =>
    cases hr with
    | shutdownStore => exact ⟨.shutdownWake rfl, by simp [Serve.drainFuel, hst]⟩
    | _ => simp_all [ServeStage.awaits, ServeStage.arms]
  | shutdownWake hst =>
    cases hr with
    | shutdownWake => exact ⟨.returned rfl, by simp [Serve.drainFuel, hst, Serve.ret]⟩
    | _ => simp_all [ServeStage.awaits, ServeStage.arms]
  | returned hst =>
    cases hr <;> simp_all [ServeStage.awaits, ServeStage.arms]

theorem Serve.Completing.enabled (srv : Server A) (now : Instant) (hs : s.Completing h)
    (hsw : s.WF h) (hn : s.stage ≠ .returned (.ok ())) :
    ∃ k t cs evs, s.step srv h now .go = some (k, t, cs, evs) := by
  cases hs with
  | shutdownStore hst | shutdownWake hst =>
    simp [Serve.step, hst, ServeStage.awaits, ServeStage.arms, Serve.syncStep]
  | returned hst => exact absurd hst hn
  | waiting hst hrd =>
    have ha : s.stage.awaits = true := by
      rcases ServeStage.eq_of_waitsConnEnd hst with ⟨deadline, hs⟩ | hs <;> rw [hs] <;> rfl
    rcases Serve.pc_of_waitsConnEnd hsw hst with hpc | hpc | hpc | ⟨hpc, deadline, hd⟩
    · simp [Serve.step, ha, hpc]
    · simp [Serve.step, ha, hpc]
    · cases hf : h.connEnd.poll s.connEnd <;> simp [Serve.step, ha, hpc, Serve.pollArm, hf]
    · rw [hd] at ha
      cases hz : sleepReady deadline now <;> simp [Serve.step, ha, hpc, Serve.pollArm, hd, hz]

end Serve

namespace State
variable {srv : Server A} {P : State A E B → Action A E B → Prop} {s t : State A E B}
  {a : Action A E B} {as : List (Action A E B)} {i : ℕ} {c : Conn A E B}

/-- While `serve` waits, a `Watcher` is counted, or some drop is about to signal,
or `conn_end` has fired. -/
def Promised (s : State A E B) : Prop :=
  s.serve.stage.waits = true → 0 < s.handle.connCount ∨
    (∃ c ∈ s.tasks, c.signals = true) ∨ s.handle.connEnd.Fired

theorem Rule.promised (hr : Rule srv s a t) (hw : s.WF) (hs : s.Promised) : t.Promised := by
  intro hwaits
  cases hr with
  | tick | call => exact hs hwaits
  | caller i c d k hi hr =>
    have hf := hr.frame
    have h := hs hwaits
    rw [← hf.connCount, ← hf.connEnd] at h
    exact h
  | serve x k u cs evs hr =>
    obtain ⟨hwas | hne, rfl, rfl⟩ := hr.waits hwaits
    · simpa using hs hwas
    · exact .inl (Nat.pos_of_ne_zero hne)
  | task i x c d k evs hi hr =>
    have hg : s.handle.graceful.notified = true := by
      have hk := hw.serve.knows
      cases hst : s.serve.stage with
      | draining w =>
        rw [hst] at hk
        exact hk.graceful
      | _ => simp [hst, ServeStage.waits] at hwaits
    have hlt := (List.getElem?_eq_some_iff.mp hi).1
    rcases hr.signals hg with hpos | hd | hfired | ⟨hcount, hend, hc⟩
    · exact .inl hpos
    · exact .inr (.inl ⟨_, List.mem_set hlt _, hd⟩)
    · exact .inr (.inr hfired)
    · rcases hs hwaits with hpos | hsig | hfired
      · exact .inl (hcount ▸ hpos)
      · exact .inr (.inl (exists_mem_set hsig hi (fun _ => id) fun hsig' => by simp [hc] at hsig'))
      · exact .inr (.inr (hend ▸ hfired))
  | stream i x c d evs hi hr =>
    refine (hs hwaits).imp_right (Or.imp_left fun hsig => ?_)
    have hd : (d.record s.now evs).signals = c.signals := hr.signals
    exact exists_mem_set hsig hi (fun _ => id) hd.trans

theorem ReachableIf.promised (h : ReachableIf srv P s) : s.Promised :=
  Interleaving.Reachable.invariant_under (J := State.WF) h (fun hw _ move => wf_step hw move)
    wf_init (fun hw hs _ move => (rule_of_step move).promised hw hs) (fun h => by cases h)

/-- With no `Watcher` alive and no drop in progress, `conn_end` has fired. -/
theorem ReachableIf.connEnd_fired (h : ReachableIf srv P s) (hw : s.serve.stage.waits = true)
    (hfin : ∀ c ∈ s.tasks, c.stage = .finished) : s.handle.connEnd.Fired := by
  rcases h.promised hw with hpos | ⟨c, hc, hsig⟩ | hfired
  · have h0 : s.serve.holds = 0 := by
      cases hst : s.serve.stage <;> simp_all [Serve.holds, ServeStage.waits]
    obtain ⟨c, hc, hh⟩ := h.counted.exists_of_pos hpos h0
    simp [Conn.holds, hfin c hc, Stage.live] at hh
  · simp [Conn.signals, hfin c hc] at hsig
  · exact hfired

theorem completing_invariant (srv : Server A) :
    ServeInvariant srv AnyAnswer fun h _ (s : Serve A E B) => s.Completing h where
  mono hle _ hs := hs.mono hle
  step := by
    intro h k now s t x cs evs hw hsw _ hr hs
    cases (hs.step hsw hr).1 with
    | waiting hs hr => exact .waiting hs hr
    | shutdownStore hs => exact .shutdownStore hs
    | shutdownWake hs => exact .shutdownWake hs
    | returned hs => exact .returned hs

theorem Exec.completing (h : Exec srv Always s as t) (hs : s.WF)
    (hc : s.serve.Completing s.handle) : as.countP Action.isServe ≤ 8 ∧
      (t.serve.stage = .returned (.ok ()) ∨ ∃ u, t.step srv (.serve .go) = some u) := by
  have hI := completing_invariant (E := E) (B := B) srv
  refine ⟨le_trans (hI.countP_le (fun _ hsw hc hr => (hc.step hsw hr).2) h hs
    eachServe_any hc) (Serve.drainFuel_le _), ?_⟩
  by_cases hn : t.serve.stage = .returned (.ok ())
  · exact .inl hn
  · have ht := hI.exec h hs eachServe_any hc
    obtain ⟨k, u, cs, evs, hstep⟩ := ht.enabled srv t.now (Exec.wf h hs).serve hn
    exact .inr (by simp [State.step, hstep])

/-- No wake-up is lost: when `serve` waits for `conn_end`, no `Watcher` is alive and
no drop is in progress, the latch is set, the waiter of `serve` is ready, and in every
continuation `serve` returns after at most 8 operations, each of which it can make. -/
theorem connEnd_not_lost (hr : Reachable srv s) (hwait : s.serve.stage.waitsConnEnd = true)
    (hfin : ∀ c ∈ s.tasks, c.stage = .finished) :
    s.handle.connEnd.isNotified = true ∧ s.serve.connEnd.Ready s.handle.connEnd ∧
      ∀ as t, Exec srv Always s as t → as.countP Action.isServe ≤ 8 ∧
        (t.serve.stage = .returned (.ok ()) ∨ ∃ u, t.step srv (.serve .go) = some u) := by
  have hw := ReachableIf.wf hr
  have hf := ReachableIf.connEnd_fired hr (ServeStage.waits_of_waitsConnEnd hwait) hfin
  have hready := hw.serve.connEnd.ready hw.handle.connEnd hf
  exact ⟨hf.notified hw.handle.connEnd, hready,
    fun as t h => h.completing hw (.waiting hwait hready)⟩

/-- `serve` waits for a connection whose request ends and whose `Watcher` is dropped. -/
def waitSchedule : List (Action ℕ Unit Unit) :=
  Action.listen (some 0) ++ Action.connect 1 ++ Action.handshake 0 ++ Action.reachHyper 0 ++
    [Action.task 0 .serviceCall, .task 0 .pending, .task 0 .go] ++
    Action.callNow 0 (.gracefulShutdown none) 3 ++
    Action.resume ++ [Action.serve .acceptPending] ++ List.replicate 7 (Action.serve .go) ++
    List.replicate 6 (Action.task 0 .go) ++ [Action.task 0 .ready] ++
    List.replicate 4 (Action.task 0 .go)

theorem connEnd_not_lost_one :
    (after Server.fromListener waitSchedule).serve.connEnd.Ready
      (after Server.fromListener waitSchedule).handle.connEnd :=
  (connEnd_not_lost (reachable_after _ _ waitSchedule) (by decide) (by decide)).2.1

/-! ## A count of zero after a graceful shutdown -/

/-- The history of task `i`, which is empty before the task is spawned. -/
def history (s : State A E B) (i : ℕ) : List (Instant × ConnEvent A E B) :=
  (s.tasks[i]?).elim [] Conn.log

/-- The stream tasks of connection `i` that have not called the service yet. -/
def streamsLeft (s : State A E B) (i : ℕ) : ℕ := (s.tasks[i]?).elim 0 Conn.streams

/-- After a graceful shutdown a count of zero is final for the connection tasks: no
acceptor and no connection future is alive, and in every continuation no acceptor and no
connection future is polled, and no connection task calls the service or spawns a stream
task, those included that are still spawned. The stream tasks that are left may call the
service once each, and there are none with HTTP/1 alone. -/
theorem count_zero_after_graceful (hr : Reachable srv s) (hg : s.GracefulReturned)
    (h0 : s.handle.connectionCount = 0) :
    (∀ c ∈ s.tasks, c.stage.live = false) ∧
      (∀ as t, Exec srv Always s as t → ∀ i d, t.tasks[i]? = some d →
        ∃ new, QuietSince (s.history i) (s.streamsLeft i) d new) ∧
      (srv.httpVersion = some .http1 → ∀ c ∈ s.tasks, c.streams = 0) := by
  have hw := ReachableIf.wf hr
  have hz := (ReachableIf.counted hr).forall_of_zero h0
  refine ⟨fun c hc => Conn.not_live_of_not_holds (hz c hc), fun as t h i d hd => ?_, fun hv =>
    (http1_invariant hv).forall_tasks (fun _ _ _ => rfl) hr eachTask_any eachStreamCall_any⟩
  rcases Exec.task_origin h hd with ⟨c, hc⟩ | ⟨hi, as₁, as₂, u, addr, h₁, h₂, hu⟩
  · have hleaving : c.Leaving s.handle :=
      .left (Conn.not_live_of_not_holds (hz c (List.mem_of_getElem? hc)))
    obtain ⟨d', hd', -, new, hn⟩ := h.leavingSince hw hc hleaving
    obtain rfl := Option.some.inj (hd'.symm.trans hd)
    exact ⟨new, by simpa [history, streamsLeft, hc] using hn.toQuietSince⟩
  · have hwu := Exec.wf h₁ hw
    have hgu := (NotifyOnce.Fired.mono (hg.fired hw) (Exec.le h₁).graceful).notified
      hwu.handle.graceful
    obtain ⟨d', hd', -, new, hn⟩ := h₂.leavingSince hwu hu (Conn.leaving_spawned hgu addr)
    obtain rfl := Option.some.inj (hd'.symm.trans hd)
    have hnone := List.getElem?_eq_none_iff.mpr hi
    exact ⟨new, by simpa [history, streamsLeft, hnone] using hn.toQuietSince⟩

/-- One connection has ended, another one waits for the make service. -/
def idleSchedule : List (Action ℕ Unit Unit) :=
  Action.listen (some 0) ++ Action.connect 1 ++ Action.handshake 0 ++ Action.reachHyper 0 ++
    [Action.task 0 .serviceCall, .task 0 .ready] ++ List.replicate 2 (Action.task 0 .go) ++
    Action.resume ++ [Action.serve (.accepted 2), .serve .readyPending, .serve .go] ++
    Action.callNow 0 (.gracefulShutdown none) 3

def lateSchedule : List (Action ℕ Unit Unit) :=
  Action.resume ++ [Action.serve .ready, .serve .made] ++ List.replicate 2 (Action.serve .go) ++
    List.replicate 10 (Action.task 1 .go)

def lateTask : Conn ℕ Unit Unit where
  remoteAddr := 2
  stage := .finished
  shutdown := .waiting 0
  graceful := .enabled 1
  log := [(0, .poll), (0, .ended .graceful), (0, .finished)]

theorem count_zero_after_graceful_idle :
    ∃ new, QuietSince ((after Server.fromListener idleSchedule).history 1) 0 lateTask new :=
  have hlate : Exec Server.fromListener Always (after Server.fromListener idleSchedule) lateSchedule
      (after Server.fromListener (idleSchedule ++ lateSchedule)) := exec_of_runIf (by decide)
  (count_zero_after_graceful (reachable_after _ _ idleSchedule) ⟨none, by decide⟩
    (by decide)).2.1 _ _ hlate 1 lateTask (by decide)

/-- Hyper spawns a stream task, and its connection is gone before that is polled. -/
def straySchedule : List (Action ℕ Unit Unit) :=
  Action.listen (some 0) ++ Action.connect 1 ++ Action.handshake 0 ++ Action.reachHyper 0 ++
    [Action.task 0 .spawnStream, .task 0 .ready] ++ List.replicate 2 (Action.task 0 .go) ++
    Action.callNow 0 (.gracefulShutdown none) 3

/-- The service is called after a count of zero. -/
theorem streamCall_after_count_zero :
    ∃ s t : State ℕ Unit Unit, Reachable Server.fromListener s ∧ s.GracefulReturned ∧
      s.handle.connectionCount = 0 ∧ Exec Server.fromListener Always s [.stream 0 .call] t ∧
      ∃ d, t.tasks[0]? = some d ∧ Since (s.history 0) d.log [.streamCall] :=
  ⟨after Server.fromListener straySchedule,
    after Server.fromListener (straySchedule ++ [.stream 0 .call]), reachable_after _ _ _,
    ⟨none, by decide⟩, by decide, exec_of_runIf (by decide), _, rfl,
    ⟨[(0, .streamCall)], by decide, rfl⟩⟩

end State

end AxumServer
