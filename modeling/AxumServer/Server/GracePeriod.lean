import AxumServer.Server.Drain

/-! # The latest grace period

Each call of `graceful_shutdown` overwrites the grace period, and `serve` reads it
once, when it begins to wait for its connections. A monitor of the run keeps the
period that was given last and the moment of that read; the wait is compared with it.
-/

namespace AxumServer

open Interleaving

variable {A E B : Type}

/-- What a run tells about the grace period, without looking at the cell. -/
structure Period where
  /-- The duration given by the most recent call of `graceful_shutdown`. -/
  latest : Option Duration := none
  /-- When `serve` began to wait for its connections. -/
  since : Instant := 0
  deriving DecidableEq, Repr

def Period.wait (p : Period) : WaitEnd :=
  match p.latest with
  | some duration => .timed (p.since + duration)
  | none => .untimed

theorem Period.wait_inj {p q : Period} (hs : p.since = q.since) (h : p.wait = q.wait) :
    p.latest = q.latest := by
  obtain ⟨d, since⟩ := p
  obtain ⟨e, _⟩ := q
  obtain rfl : since = _ := hs
  cases d <;> cases e
  · rfl
  · cases h
  · cases h
  · exact congrArg some (Nat.add_left_cancel (WaitEnd.timed.inj h))

namespace State

/-- The duration that the action stores, if it is the store of a `graceful_shutdown`. -/
def storesPeriod (s : State A E B) : Action A E B → Option (Option Duration)
  | .caller i =>
    match s.callers[i]? with
    | some (.gracefulDur duration) => some duration
    | _ => none
  | _ => none

/-- The monitor follows one action. -/
def observe (s : State A E B) (a : Action A E B) (p : Period) : Period where
  latest := (s.storesPeriod a).getD p.latest
  since :=
    match a, s.serve.stage with
    | .serve _, .draining .duration => s.now
    | _, _ => p.since

def period (srv : Server A) : State A E B → List (Action A E B) → Period → Period
  | _, [], p => p
  | s, a :: as, p =>
    match s.step srv a with
    | some t => period srv t as (s.observe a p)
    | none => p

/-- The wait that `serve` is in, if it is in one, is the one the period asks for. -/
def Heeds (p : Period) (s : State A E B) : Prop :=
  s.serve.stage.waitsConnEnd = true → s.serve.stage = .draining p.wait

instance [DecidableEq A] [DecidableEq E] [DecidableEq B] (p : Period) (s : State A E B) :
    Decidable (s.Heeds p) := inferInstanceAs (Decidable (_ → _))

/-- A call that comes when `serve` waits already stores the duration that is there. -/
def PeriodKept (s : State A E B) (a : Action A E B) : Prop :=
  s.serve.stage.waitsConnEnd = true →
    ∀ duration ∈ s.storesPeriod a, duration = s.handle.gracefulDur

instance (s : State A E B) (a : Action A E B) : Decidable (s.PeriodKept a) :=
  inferInstanceAs (Decidable (_ → _))

end State

section
variable {srv : Server A} {h k : Handle A} {now : Instant}
  {s t : Serve A E B} {x : ServeAnswer A E B} {cs : List (Conn A E B)}
  {evs : List (ServeEvent A E B)}

theorem Serve.Rule.gracefulDur (hr : Serve.Rule srv h now s x k t cs evs) :
    k.gracefulDur = h.gracefulDur := by
  cases hr <;> rfl

/-- `serve` begins to wait by reading the period; otherwise it goes on as it was or
waits no longer. -/
theorem Serve.Rule.waitsConnEnd (hr : Serve.Rule srv h now s x k t cs evs)
    (ht : t.stage.waitsConnEnd = true) :
    t.stage = s.stage ∨ s.stage = .draining .duration ∧
      t.stage = .draining (⟨h.gracefulDur, now⟩ : Period).wait := by
  cases hr with
  | timed duration hst hd => exact .inr ⟨hst, by rw [hd]; rfl⟩
  | untimed hst hd => exact .inr ⟨hst, by rw [hd]; rfl⟩
  | poll | suspend | bindPending | shutdownBusy | shutdownPending | acceptPending | backoffPending
  | gracefulBusy | gracefulPending | readyPending | makePending | sleepPending | connEndBusy
  | connEndPending =>
    exact .inl rfl
  | _ => cases ht

end

namespace State
variable {srv : Server A} {P : State A E B → Action A E B → Prop} {s t u : State A E B}
  {a : Action A E B} {as bs : List (Action A E B)} {p : Period}

theorem Exec.period_append (h : Exec srv P s as t) (bs : List (Action A E B)) (p : Period) :
    period srv s (as ++ bs) p = period srv t bs (period srv s as p) := by
  induction h generalizing p with
  | nil => rfl
  | cons _ move _ ih => simp only [List.cons_append, period, move, ih]

theorem Exec.period_snoc (h : Exec srv P s as t) (move : t.step srv a = some u) (p : Period) :
    period srv s (as ++ [a]) p = t.observe a (period srv s as p) := by
  rw [Exec.period_append h]
  simp only [period, move]

/-- The monitor sees every write of the cell. -/
theorem Rule.gracefulDur (hr : Rule srv s a t) :
    t.handle.gracefulDur = (s.storesPeriod a).getD s.handle.gracefulDur := by
  cases hr with
  | tick | call | stream => rfl
  | caller i c d k hi hr =>
    cases hr <;> simp [storesPeriod, hi, Handle.setGracefulDur, Handle.notifyShutdown,
      Handle.notifyGraceful]
  | serve x k u cs evs hr => exact hr.gracefulDur
  | task i x c d k evs hi hr => exact hr.frame.gracefulDur

theorem observe_since_of_waitsConnEnd (hw : s.serve.stage.waitsConnEnd = true) :
    (s.observe a p).since = p.since := by
  cases a with
  | serve x =>
    rcases ServeStage.eq_of_waitsConnEnd hw with ⟨deadline, hst⟩ | hst <;> simp only [observe, hst]
  | _ => rfl

theorem observe_wait_of_kept (hcell : s.handle.gracefulDur = p.latest) (hk : s.PeriodKept a)
    (hw : s.serve.stage.waitsConnEnd = true) : (s.observe a p).wait = p.wait := by
  have hsince := observe_since_of_waitsConnEnd (a := a) (p := p) hw
  have hlatest : (s.observe a p).latest = p.latest := by
    cases hstore : s.storesPeriod a with
    | none => simp only [observe, hstore, Option.getD_none]
    | some duration =>
      have hkept := hk hw duration hstore
      simp only [observe, hstore, Option.getD_some, hkept, hcell]
  simp only [Period.wait, hlatest, hsince]

/-- One step under the condition. The wait of `serve` follows the period when it
begins, and later stores do not change the period. -/
theorem Heeds.rule (hp : s.Heeds p) (hcell : s.handle.gracefulDur = p.latest)
    (hr : Rule srv s a t) (hk : s.PeriodKept a) : t.Heeds (s.observe a p) := by
  intro hw
  cases hr with
  | serve x k u cs evs hr =>
    have hu : (u.record s.now evs).stage = u.stage := rfl
    rw [hu] at hw ⊢
    rcases hr.waitsConnEnd hw with hst | ⟨hst, hwait⟩
    · rw [hst] at hw ⊢
      rw [observe_wait_of_kept hcell hk hw]
      exact hp hw
    · rw [hwait]
      simp only [observe, hst, storesPeriod, Option.getD_none, hcell]
  | _ =>
    rw [observe_wait_of_kept hcell hk hw]
    exact hp hw

/-- The cell holds what the most recent call gave. -/
theorem Exec.gracefulDur (h : Exec srv P {} as s) :
    s.handle.gracefulDur = (period srv {} as {}).latest := by
  have hinv := Interleaving.Exec.trace_invariant (I := fun bs u =>
    Exec srv P {} bs u ∧ u.handle.gracefulDur = (period srv {} bs {}).latest) h ?_ ⟨.nil _, rfl⟩
  · exact hinv.2
  · intro bs u a v hu hP move
    refine ⟨hu.1.append (.cons hP move (.nil _)), ?_⟩
    rw [Exec.period_snoc hu.1 move, (rule_of_step move).gracefulDur, hu.2]
    rfl

theorem Exec.heeds (h : Exec srv PeriodKept {} as s) : s.Heeds (period srv {} as {}) := by
  have hinv := Interleaving.Exec.trace_invariant (I := fun bs u =>
    Exec srv PeriodKept {} bs u ∧ u.Heeds (period srv {} bs {})) h ?_
    ⟨.nil _, fun hw => by cases hw⟩
  · exact hinv.2
  · intro bs u a v hu hk move
    refine ⟨hu.1.append (.cons hk move (.nil _)), ?_⟩
    rw [Exec.period_snoc hu.1 move]
    exact hu.2.rule (Exec.gracefulDur hu.1) (rule_of_step move) hk

theorem Heeds.periodKept (hp : s.Heeds p) (hcell : s.handle.gracefulDur = p.latest)
    (hr : Rule srv s a t) (ht : t.Heeds (s.observe a p)) : s.PeriodKept a := by
  intro hw duration hstore
  have hstage : t.serve.stage = s.serve.stage := by
    cases hr with
    | serve x => cases hstore
    | _ => rfl
  have hlatest : (s.observe a p).latest = duration := by
    simp only [observe, Option.mem_def.mp hstore, Option.getD_some]
  have hwait : (s.observe a p).wait = p.wait := by
    apply ServeStage.draining.inj (A := A) (E := E) (B := B)
    calc ServeStage.draining (s.observe a p).wait = t.serve.stage :=
          (ht (by rw [hstage]; exact hw)).symm
      _ = s.serve.stage := hstage
      _ = .draining p.wait := hp hw
  rw [hcell, ← hlatest]
  exact Period.wait_inj (observe_since_of_waitsConnEnd hw) hwait

/-- The wait of `serve` is at every moment of a run the one that the most recent call
asked for, exactly when no call of the run comes during the wait with another period. -/
theorem latest_period_counts (h : Exec srv Always {} as s) :
    (∀ bs cs u, as = bs ++ cs → Exec srv Always {} bs u → u.Heeds (period srv {} bs {})) ↔
      Exec srv PeriodKept {} as s := by
  constructor
  · intro hheeds
    apply Interleaving.Exec.strengthen h
    intro bs a cs u v heq hexec move
    have hu := hheeds bs (a :: cs) u heq hexec
    have hv := hheeds (bs ++ [a]) cs v (by rw [heq, List.append_cons])
      (hexec.append (.cons trivial move (.nil _)))
    rw [Exec.period_snoc hexec move] at hv
    exact hu.periodKept (Exec.gracefulDur hexec) (rule_of_step move) hv
  · intro hkept bs cs u heq hexec
    subst heq
    exact Exec.heeds (Interleaving.Exec.of_append hkept hexec)

/-- One connection is in a request when `graceful_shutdown(duration)` is called and
`serve` comes to wait for it; then the period is set to `later`, and `serve` is polled
once more after a while. -/
def waitingSchedule (duration later : Option Duration) : List (Action ℕ Unit Unit) :=
  Action.listen (some 0) ++ Action.connect 1 ++ Action.handshake 0 ++ Action.reachHyper 0 ++
    [Action.task 0 .serviceCall, .task 0 .pending, .task 0 .go] ++
    Action.callNow 0 (.gracefulShutdown duration) 3 ++ Action.resume ++
    Action.serve .acceptPending :: List.replicate 7 (Action.serve .go) ++
    Action.callNow 1 (.gracefulShutdown later) 3 ++
    Action.tick 100 :: List.replicate 3 (Action.serve .go)

theorem latest_period_counts_twice :
    Heeds (period Server.fromListener {} (waitingSchedule none none) {})
      (after Server.fromListener (waitingSchedule none none)) :=
  have hrun : Interleaving.Exec (State.step Server.fromListener) PeriodKept {}
      (waitingSchedule none none) (after Server.fromListener (waitingSchedule none none)) :=
    exec_of_runIf (by decide)
  have hany := hrun.of_forall_mem (Q := Always) fun _ _ _ => trivial
  (latest_period_counts hany).mpr hrun _ [] _ (List.append_nil _).symm hany

/-- The later call asks for 5 ns, but `serve` goes on to wait without any timer. -/
theorem later_period_unheard :
    Interleaving.Exec (State.step Server.fromListener) Always {} (waitingSchedule none (some 5))
      (after Server.fromListener (waitingSchedule none (some 5))) ∧
    (period Server.fromListener {} (waitingSchedule none (some 5)) {}).latest = some 5 ∧
    (after Server.fromListener (waitingSchedule none (some 5))).serve.stage =
      .draining .untimed ∧
    (after Server.fromListener (waitingSchedule none (some 5))).serve.pc = .idle ∧
    (after Server.fromListener (waitingSchedule none (some 5))).handle.connCount = 1 ∧
    ¬ Heeds (period Server.fromListener {} (waitingSchedule none (some 5)) {})
      (after Server.fromListener (waitingSchedule none (some 5))) :=
  ⟨exec_of_runIf (by decide), by decide, by decide, by decide, by decide, by decide⟩

end State

end AxumServer
