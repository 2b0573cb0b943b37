import AxumServer.Server.Drain

/-! # What the end of a drain means

`Watcher::drop` compares the count it saw after its own subtraction. Between that
operation and the check of the graceful latch other connections may begin, and the
latch `conn_end` that is then set is never taken back: `serve` returns while they
are still served. Runs without such a drop drain completely.
-/

namespace AxumServer

open Interleaving

variable {A E B : Type}

/-- A call that leaves the drain without a bound: any but `shutdown` and a
`graceful_shutdown` with a grace period. -/
def Caller.unbounded : Caller A → Bool
  | .shutdown _ => false
  | .gracefulDur duration => duration.isNone
  | .graceful duration _ => duration.isNone
  | _ => true

/-- `wait_connections_end` is under a grace period, or past it. -/
def ServeStage.bounded : ServeStage A E B → Bool
  | .draining (.timed _) => true
  | .draining .shutdownStore => true
  | .draining .shutdownWake => true
  | _ => false

def Conn.signalling (c : Conn A E B) : Bool :=
  match c.stage with
  | .dropping .connEndStore => true
  | .dropping .connEndWake => true
  | _ => false

theorem Caller.Rule.unbounded {h k : Handle A} {c d : Caller A} (hr : Caller.Rule h c k d)
    (hd : d.unbounded = true) : c.unbounded = true ∧ k.shutdown = h.shutdown ∧
      (k.gracefulDur = h.gracefulDur ∨ k.gracefulDur = none) := by
  cases hr with
  | shutdown p => cases hd
  | gracefulDur duration => exact ⟨hd, rfl, .inr (by
    simpa [Caller.unbounded, Handle.setGracefulDur] using hd)⟩
  | _ => exact ⟨hd, rfl, .inl rfl⟩

theorem Conn.Rule.signalling {srv : Server A} {h k : Handle A} {now : Instant}
    {c d : Conn A E B} {evs : List (ConnEvent A E B)} (hr : Conn.Rule srv h now c k d evs)
    (ht : d.signalling = true ∨ k.connEnd.notified = true) :
    c.signalling = true ∨ h.connEnd.notified = true ∨
      c.stage = .dropping (.counted 0) ∧ h.graceful.isNotified = true := by
  cases hr with
  | drop e e' hs hd =>
    cases e with
    | fetchSub =>
      obtain rfl := Option.some.inj hd
      exact .inr (.inl (ht.resolve_left (by simp [Conn.signalling])))
    | counted count =>
      simp only [Handle.dropStep] at hd
      split at hd
      next hc => exact .inr (.inr ⟨by rw [hs, hc.1], hc.2⟩)
      next => cases hd
    | connEndStore => exact .inl (by simp [Conn.signalling, hs])
    | connEndWake => cases hd
  | dropped e hs hd =>
    cases e with
    | connEndWake => exact .inl (by simp [Conn.signalling, hs])
    | counted count => exact .inr (.inl (ht.resolve_left (by simp [Conn.signalling])))
    | fetchSub | connEndStore => cases hd
  | accepted =>
    refine .inr (.inl (ht.resolve_left ?_))
    unfold serveConnection
    split <;> simp [Conn.signalling, enter]
  | shutdownReady | gracefulLeave | gracefulSkip | gracefulStart | sleepFired | requestSent
  | requestClosed | acceptErr | serveReady =>
    exact .inr (.inl (ht.resolve_left (by simp [Conn.signalling, leave, enter])))
  | _ => exact ht.imp id .inl

theorem Conn.StreamRule.signalling {c d : Conn A E B} {x : StreamAnswer}
    {evs : List (ConnEvent A E B)} (hr : Conn.StreamRule c x d evs) :
    d.signalling = c.signalling := by
  cases hr <;> rfl

section Serve
variable {srv : Server A} {h k : Handle A} {now : Instant} {s t : Serve A E B}
  {x : ServeAnswer A E B} {cs : List (Conn A E B)} {evs : List (ServeEvent A E B)}

theorem Serve.Rule.unbounded (hr : Serve.Rule srv h now s x k t cs evs)
    (hs : s.stage.bounded = false) (hd : h.gracefulDur = none) :
    k.shutdown = h.shutdown ∧ k.gracefulDur = none ∧ t.stage.bounded = false := by
  cases hr with
  | timed duration _ hd' => rw [hd] at hd'; cases hd'
  | graceExpired _ _ hst | shutdownStore hst | shutdownWake hst =>
    rw [hst] at hs
    cases hs
  | poll | suspend | bindPending | shutdownBusy | shutdownPending | gracefulBusy
  | gracefulPending | connEndBusy | connEndPending | acceptPending | backoffPending | readyPending
  | makePending | sleepPending =>
    exact ⟨rfl, hd, hs⟩
  | _ => exact ⟨rfl, hd, rfl⟩

theorem Serve.Rule.connEnd_eq (hr : Serve.Rule srv h now s x k t cs evs) :
    k.connEnd = h.connEnd := by
  cases hr <;> rfl

theorem Serve.Rule.returned (hr : Serve.Rule srv h now s x k t cs evs) (hsw : s.WF h) (hw : h.WF)
    (ht : t.stage = .returned (.ok ())) : cs = [] ∧
      (h.connCount = 0 ∨ h.connEnd.notified = true ∨ h.shutdown.notified = true) := by
  cases hr with
  | countZero _ hc => exact ⟨rfl, .inl hc⟩
  | connEndReady _ _ _ hf => exact ⟨rfl, .inr (.inl (hsw.connEnd.notified_of_ready hw.connEnd hf))⟩
  | shutdownReady _ _ _ hf =>
    exact ⟨rfl, .inr (.inr (hsw.shutdown.notified_of_ready hw.shutdown hf))⟩
  | shutdownWake hs =>
    have hk := hsw.knows
    rw [hs] at hk
    exact ⟨rfl, .inr (.inr hk.2)⟩
  | poll ha | suspend ha | bindPending _ ha | shutdownBusy _ _ ha | shutdownPending _ ha
  | gracefulBusy _ _ ha | gracefulPending _ ha | connEndBusy _ _ ha | connEndPending _ ha =>
    rw [ht] at ha
    cases ha
  | acceptPending _ hs | backoffPending _ _ hs | readyPending _ _ hs | makePending _ _ hs
  | sleepPending _ _ hs =>
    rw [hs] at ht
    cases ht
  | _ => cases ht

end Serve

namespace State
variable {srv : Server A} {P : State A E B → Action A E B → Prop} {s t : State A E B}
  {a : Action A E B} {as : List (Action A E B)} {i : ℕ} {c : Conn A E B}

/-- Nobody has called `shutdown`, or `graceful_shutdown` with a grace period. -/
def Unbounded (s : State A E B) : Prop := ∀ c ∈ s.callers, c.unbounded = true

instance (s : State A E B) : Decidable s.Unbounded :=
  inferInstanceAs (Decidable (∀ c ∈ s.callers, c.unbounded = true))

/-- In such a run the shutdown latch stays unset. -/
structure NoShutdown (s : State A E B) : Prop where
  shutdown : s.handle.shutdown.notified = false
  gracefulDur : s.handle.gracefulDur = none
  serve : s.serve.stage.bounded = false

theorem Rule.unbounded (hr : Rule srv s a t) (ht : t.Unbounded) : s.Unbounded := by
  cases hr with
  | call c => exact fun d hd => ht d (List.mem_append_left _ hd)
  | caller i c d k hi hr =>
    intro b hb
    obtain ⟨j, hj⟩ := List.mem_iff_getElem?.mp hb
    have hlt := (List.getElem?_eq_some_iff.mp hi).1
    by_cases hij : i = j
    · subst hij
      obtain rfl := Option.some.inj (hi.symm.trans hj)
      exact (hr.unbounded (ht d (List.mem_set hlt d))).1
    · exact ht b (List.mem_iff_getElem?.mpr ⟨j, by rw [List.getElem?_set_ne hij, hj]⟩)
  | _ => exact ht

theorem Rule.noShutdown (hr : Rule srv s a t) (hs : s.Unbounded → s.NoShutdown) :
    t.Unbounded → t.NoShutdown := by
  intro ht
  have h := hs (hr.unbounded ht)
  cases hr with
  | tick | call | stream => exact ⟨h.shutdown, h.gracefulDur, h.serve⟩
  | caller i c d k hi hr =>
    have hlt := (List.getElem?_eq_some_iff.mp hi).1
    obtain ⟨-, hsd, hdur⟩ := hr.unbounded (ht d (List.mem_set hlt d))
    exact ⟨hsd ▸ h.shutdown, hdur.elim (fun e => e.trans h.gracefulDur) id, h.serve⟩
  | serve x k u cs evs hr =>
    obtain ⟨hsd, hdur, hb⟩ := hr.unbounded h.serve h.gracefulDur
    exact ⟨hsd ▸ h.shutdown, hdur, hb⟩
  | task i x c d k evs hi hr =>
    have hframe := hr.frame
    exact ⟨hframe.shutdown ▸ h.shutdown, hframe.gracefulDur.trans h.gracefulDur, h.serve⟩

theorem ReachableIf.noShutdown (h : ReachableIf srv P s) (hs : s.Unbounded) : s.NoShutdown :=
  Interleaving.Reachable.invariant (I := fun u => u.Unbounded → u.NoShutdown) h
    (fun hs _ move => (rule_of_step move).noShutdown hs) (fun _ => ⟨rfl, rfl, rfl⟩) hs

def AllLeaving (s : State A E B) : Prop := ∀ d ∈ s.tasks, d.Leaving s.handle

instance (s : State A E B) : Decidable s.AllLeaving :=
  inferInstanceAs (Decidable (∀ d ∈ s.tasks, d.Leaving s.handle))

/-- When a drop that saw no other connection finds the graceful latch set, every
task is on its way out. -/
def LastDrop (s : State A E B) : Action A E B → Prop :=
  EachTask (fun h _ c =>
    c.stage = .dropping (.counted 0) → h.graceful.isNotified = true → s.AllLeaving) s

instance (s : State A E B) (a : Action A E B) : Decidable (LastDrop s a) :=
  inferInstanceAs (Decidable (EachTask _ s a))

def Signalled (s : State A E B) : Prop :=
  s.handle.connEnd.notified = true ∨ ∃ c ∈ s.tasks, c.signalling = true

theorem Rule.allLeaving (hr : Rule srv s a t) (hs : s.WF) (hl : s.AllLeaving)
    (hg : s.handle.graceful.notified = true ∨ t.serve.stage = .returned (.ok ())) :
    t.AllLeaving := by
  have hle := hr.le
  cases hr with
  | tick | call => exact hl
  | caller i c d k hi hr => exact fun c hc => (hl c hc).mono hle
  | serve x k u cs evs hr =>
    refine forall_mem_append hl (fun c hc => hc.mono hle) fun c hc => ?_
    rcases hg with hg | hret
    · obtain ⟨addr, rfl⟩ := hr.spawned hc
      exact (Conn.leaving_spawned hg addr).mono hle
    · cases hr with
      | spawn => cases hret
      | _ => cases hc
  | task i x c d k evs hi hr =>
    have hc := List.mem_of_getElem? hi
    exact forall_mem_set hl (fun c hc => hc.mono hle)
      ((hl c hc).step hs.handle (hs.tasks c hc) hr).1.record
  | stream i x c d evs hi hr =>
    exact forall_mem_set hl (fun _ => id) (hr.leaving (hl c (List.mem_of_getElem? hi)))

/-- The signal is given after the graceful latch, with every task on its way out. -/
def SignalSound (s : State A E B) : Prop :=
  s.Signalled → s.handle.graceful.notified = true ∧ s.AllLeaving

theorem Rule.signalled (hr : Rule srv s a t) (ht : t.Signalled) : s.Signalled ∨
    ∃ i x c, a = .task i x ∧ s.tasks[i]? = some c ∧ c.stage = .dropping (.counted 0) ∧
      s.handle.graceful.isNotified = true := by
  cases hr with
  | tick | call => exact .inl ht
  | caller i c d k hi hr =>
    exact .inl (ht.imp (fun h => hr.frame.connEnd ▸ h) id)
  | serve x k u cs evs hr =>
    refine .inl (ht.imp (fun h => hr.connEnd_eq ▸ h) ?_)
    rintro ⟨c, hc, hsig⟩
    rcases List.mem_append.mp hc with hc | hc
    · exact ⟨c, hc, hsig⟩
    · obtain ⟨addr, rfl⟩ := hr.spawned hc
      cases hsig
  | task i x c d k evs hi hr =>
    have hc := List.mem_of_getElem? hi
    have hcase : (∃ b ∈ s.tasks, b.signalling = true) ∨
        d.signalling = true ∨ k.connEnd.notified = true := by
      rcases ht with hk | ⟨b, hb, hsig⟩
      · exact .inr (.inr hk)
      · rcases List.mem_or_eq_of_mem_set hb with hb | rfl
        · exact .inl ⟨b, hb, hsig⟩
        · exact .inr (.inl hsig)
    rcases hcase with hb | hd
    · exact .inl (.inr hb)
    · rcases hr.signalling hd with hsig | hflag | ⟨hst, hg⟩
      · exact .inl (.inr ⟨c, hc, hsig⟩)
      · exact .inl (.inl hflag)
      · exact .inr ⟨i, x, c, rfl, hi, hst, hg⟩
  | stream i x c d evs hi hr =>
    refine .inl (ht.imp_right fun ⟨b, hb, hsig⟩ => ?_)
    rcases List.mem_or_eq_of_mem_set hb with hb | rfl
    · exact ⟨b, hb, hsig⟩
    · exact ⟨c, List.mem_of_getElem? hi, hr.signalling ▸ hsig⟩

theorem Rule.signalSound (hr : Rule srv s a t) (hw : s.WF) (hG : LastDrop s a)
    (hs : s.SignalSound) : t.SignalSound := by
  intro ht
  have h : s.handle.graceful.notified = true ∧ s.AllLeaving := by
    rcases hr.signalled ht with hsig | ⟨i, x, c, rfl, hi, hst, hg⟩
    · exact hs hsig
    · exact ⟨hg, hG i x c rfl hi hst hg⟩
  exact ⟨hr.le.graceful.flag h.1, hr.allLeaving hw h.2 (.inl h.1)⟩

/-- While the shutdown latch is unset, `serve` returns only with every task on its way out. -/
def ReturnSound (s : State A E B) : Prop :=
  s.handle.shutdown.notified = false → s.serve.stage = .returned (.ok ()) → s.AllLeaving

theorem Counted.allLeaving (hs : s.Counted) (h0 : s.handle.connCount = 0) : s.AllLeaving :=
  fun c hc => .left (Conn.not_live_of_not_holds (hs.forall_of_zero h0 c hc))

theorem Rule.returnSound (hr : Rule srv s a t) (hw : s.WF) (hcount : s.Counted)
    (hsig : s.SignalSound) (hs : s.ReturnSound) : t.ReturnSound := by
  intro hsd hret
  have hsd' := hr.le.shutdown.unset hsd
  refine hr.allLeaving hw ?_ (.inr hret)
  by_cases hret' : s.serve.stage = .returned (.ok ())
  · exact hs hsd' hret'
  · cases hr with
    | serve x k u cs evs hr =>
      obtain ⟨-, h0 | hend | hset⟩ := hr.returned hw.serve hw.handle hret
      · exact hcount.allLeaving h0
      · exact (hsig (.inl hend)).2
      · simp [hset] at hsd'
    | _ => exact absurd hret hret'

theorem ReachableIf.returnSound (h : ReachableIf srv LastDrop s) : s.ReturnSound :=
  (Interleaving.Reachable.invariant_under (J := fun u => u.WF ∧ u.Counted)
    (I := fun u => u.SignalSound ∧ u.ReturnSound) h
    (fun hJ _ move => ⟨wf_step hJ.1 move, (rule_of_step move).counted hJ.2⟩) ⟨wf_init, rfl⟩
    (fun hJ hI hG move => ⟨(rule_of_step move).signalSound hJ.1 hG hI.1,
      (rule_of_step move).returnSound hJ.1 hJ.2 hI.1 hI.2⟩)
    ⟨fun _ => ⟨by simp_all [Signalled], by simp [AllLeaving]⟩, fun _ h => by cases h⟩).2

/-- If no drop in the run finds the graceful latch set while a task it did not count
can still serve, then `serve` returns from an unbounded drain only when no
connection future is alive. -/
theorem drain_complete (hr : ReachableIf srv LastDrop s) (hu : s.Unbounded)
    (hret : s.serve.stage = .returned (.ok ())) : ∀ c ∈ s.tasks, c.stage.serves = false := by
  intro c hc
  have hsd := (hr.noShutdown hu).shutdown
  cases hr.returnSound hsd hret c hc with
  | left hl =>
    cases hst : c.stage <;> simp_all [Stage.live, Stage.serves]
  | shutdown ha hrd => simp [hrd.notified hr.wf.handle.shutdown] at hsd
  | graceful hst => rw [hst]; rfl

/-- One connection is served to its end under an unbounded graceful shutdown. -/
def drainSchedule : List (Action ℕ Unit Unit) :=
  Action.listen (some 0) ++ Action.connect 1 ++ Action.handshake 0 ++ Action.reachHyper 0 ++
    [Action.task 0 .serviceCall, .task 0 .pending, .task 0 .go] ++
    Action.callNow 0 (.gracefulShutdown none) 3 ++ List.replicate 6 (Action.task 0 .go) ++
    [Action.task 0 .ready] ++ List.replicate 4 (Action.task 0 .go) ++
    Action.resume ++ [Action.serve .acceptPending] ++ List.replicate 2 (Action.serve .go)

def servedTask : Conn ℕ Unit Unit where
  remoteAddr := 1
  stage := .finished
  shutdown := .waiting 0
  log := [(0, .poll), (0, .acceptPoll), (0, .accepted), (0, .serveConnection true),
    (0, .servePoll), (0, .serviceCall), (0, .pending), (0, .poll), (0, .gracefulShutdown),
    (0, .servePoll), (0, .serveReady), (0, .ended .served), (0, .finished)]

theorem drain_complete_one : servedTask.stage.serves = false :=
  drain_complete (reachable_after Server.fromListener LastDrop drainSchedule) (by decide)
    (by decide) servedTask (by decide)

/-- The drop of a first connection stops after `fetch_sub`; a second connection
begins its request; the graceful signal comes, the drop goes on, and `serve` returns. -/
def raceSchedule : List (Action ℕ Unit Unit) :=
  Action.listen (some 0) ++ Action.connect 1 ++ Action.handshake 0 ++ Action.reachHyper 0 ++
    [Action.task 0 .ready, .task 0 .go] ++
    Action.resume ++ Action.connect 2 ++ Action.handshake 1 ++ Action.reachHyper 1 ++
    [Action.task 1 .serviceCall, .task 1 .pending, .task 1 .go] ++
    Action.callNow 0 (.gracefulShutdown none) 3 ++ List.replicate 3 (Action.task 0 .go) ++
    Action.resume ++ [Action.serve .acceptPending] ++ List.replicate 5 (Action.serve .go)

set_option maxRecDepth 4000 in
/-- A drain that is cut short: `serve` has returned while a request is in flight. -/
theorem drain_cut_short : Reachable Server.fromListener (after Server.fromListener raceSchedule) ∧
    (after Server.fromListener raceSchedule).Unbounded ∧
    (after Server.fromListener raceSchedule).serve.stage = .returned (.ok ()) ∧
    ∃ c ∈ (after Server.fromListener raceSchedule).tasks, c.stage.serves = true :=
  ⟨reachable_after _ _ raceSchedule, by decide, by decide, by decide⟩

end State

end AxumServer
