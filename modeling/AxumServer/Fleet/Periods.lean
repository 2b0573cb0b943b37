import AxumServer.Fleet.Stopping
import AxumServer.Server.GracePeriod
import AxumServer.Server.Lifecycle

/-! # Grace periods on a shared handle

Every call of `graceful_shutdown` overwrites the one grace period of the handle, and each
server reads it once, when it begins to wait for the connections. The shutdown latch, which
cuts every connection of every server short, is set by nobody but a call of `shutdown()` or a
server that has waited for the whole period that it read.
-/

namespace AxumServer

open Interleaving

variable {A E B : Type}

section
variable {srv : Server A} {h k : Handle A} {now : Instant}

theorem Serve.Rule.expires {s t : Serve A E B} {x : ServeAnswer A E B} {cs : List (Conn A E B)}
    {evs : List (ServeEvent A E B)} (hr : Serve.Rule srv h now s x k t cs evs)
    (ht : t.stage = .draining .shutdownStore) :
    ∃ deadline, s.stage = .draining (.timed deadline) ∧ deadline ≤ now := by
  cases hr with
  | graceExpired rest deadline hst hpc hd => exact ⟨deadline, hst, hd⟩
  | poll ha | suspend ha | bindPending _ ha | shutdownBusy _ _ ha | shutdownPending _ ha
  | gracefulBusy _ _ ha | gracefulPending _ ha | connEndBusy _ _ ha | connEndPending _ ha =>
    change s.stage = _ at ht
    rw [ht] at ha
    cases ha
  | acceptPending _ hst | backoffPending _ _ hst | readyPending _ _ hst | makePending _ _ hst
  | sleepPending _ _ hst =>
    change s.stage = _ at ht
    rw [hst] at ht
    cases ht
  | _ => cases ht

theorem Conn.Rule.ended_shutdown {c d : Conn A E B} {evs : List (ConnEvent A E B)}
    (hr : Conn.Rule srv h now c k d evs) (hw : h.WF) (hc : c.WF h)
    (he : .ended .shutdown ∈ evs) : h.shutdown.notified = true := by
  cases hr with
  | shutdownReady rest hl hpc hf => exact hc.shutdown.notified_of_ready hw.shutdown hf
  | acceptErr rest e hl hpc => split at he <;> simp at he
  | _ => simp at he

theorem Caller.Rule.shutdown_set {c d : Caller A} (hr : Caller.Rule h c k d)
    (hn : k.shutdown.notified = true) : h.shutdown.notified = true ∨ c = .shutdown .store := by
  cases hr with
  | shutdown p hp =>
    cases p with
    | store => exact .inr rfl
    | wake => exact .inl hn
    | returned => exact absurd rfl hp
  | _ => exact .inl hn

/-- Only a call of `graceful_shutdown` sets the graceful latch, after it has stored the period. -/
theorem Caller.Rule.graceful_set {c d : Caller A} (hr : Caller.Rule h c k d)
    (hn : k.graceful.notified = true) :
    h.graceful.notified = true ∨ ∃ duration, c = .graceful duration .store := by
  cases hr with
  | graceful duration p hp =>
    cases p with
    | store => exact .inr ⟨duration, rfl⟩
    | wake => exact .inl hn
    | returned => exact absurd rfl hp
  | _ => exact .inl hn

def Caller.storesPeriod : Caller A → Option (Option Duration)
  | .gracefulDur duration => some duration
  | _ => none

theorem Caller.Rule.period {c d : Caller A} (hr : Caller.Rule h c k d) :
    k.gracefulDur = c.storesPeriod.getD h.gracefulDur := by
  cases hr <;> rfl

theorem Caller.Rule.stored {c d : Caller A} {duration : Option Duration}
    (hr : Caller.Rule h c k d) (hd : d = .graceful duration .store) :
    c.storesPeriod.isSome = true := by
  cases hr with
  | gracefulDur duration => rfl
  | graceful duration p hp => cases p <;> cases hd
  | _ => cases hd

end

namespace Fleet

def storedPeriod : Thread A E B → Answer A E B → Option (Option Duration)
  | .caller c, .caller => c.storesPeriod
  | _, _ => none

/-- The grace periods that were given in a run, with the calls that gave them. -/
def periods (srvs : ℕ → Server A) (as : List (Action A E B)) : List (ℕ × Option Duration) :=
  (program srvs).journal storedPeriod ⟨{}, []⟩ as

def Graceful (t : Thread A E B) : Prop := ∃ duration, t = .caller (.graceful duration .store)

def InStage (stage : ServeStage A E B) : Thread A E B → Prop
  | .serve _ y => y.stage = stage
  | _ => False

/-- `serve` begins the wait `w`, which is the one that the last call asked for by then. -/
def BeginsWait (srvs : ℕ → Server A) (w : WaitEnd) (bs : List (Action A E B))
    (u : State A E B) (t : Thread A E B) (_ : Answer A E B) : Prop :=
  InStage (.draining .duration) t ∧ ∃ k d, (periods srvs bs).getLast? = some (k, d) ∧
    w = (⟨d, u.memory.now⟩ : Period).wait

/-- Thread `i` finds that it has waited until the deadline that it had from the beginning. -/
def Expires (srvs : ℕ → Server A) (i : ℕ) (bs : List (Action A E B)) (u : State A E B)
    (t : Thread A E B) (_ : Answer A E B) : Prop :=
  ∃ deadline, InStage (.draining (.timed deadline)) t ∧ deadline ≤ u.memory.now ∧
    Did srvs bs i (BeginsWait srvs (.timed deadline))

/-- Somebody called `shutdown()`, or the grace period of some server was over. -/
def Asked (srvs : ℕ → Server A) (as : List (Action A E B)) : Prop :=
  (∃ i, Did srvs as i fun _ _ t _ => t = .caller (.shutdown .store)) ∨
    ∃ i, Did srvs as i (Expires srvs i)

def CutShort : Thread A E B → Prop
  | .task _ c => ∃ u, (u, .ended .shutdown) ∈ c.log
  | _ => False

section
variable {srvs : ℕ → Server A} {s : State A E B} {as : List (Action A E B)} {i j : ℕ}
  {w : WaitEnd} {m n : Cells A} {t u : Thread A E B} {us : List (Thread A E B)}
  {x : Answer A E B}

/-- A call of `graceful_shutdown` stores the period before it sets the latch. -/
theorem period_publishes (srvs : ℕ → Server A) :
    Publishes (program (E := E) (B := B) srvs) (fun m => m.handle.WF) Thread.WF
      (fun m => m.handle.gracefulDur) (fun m => m.handle.graceful.notified = true) Graceful
      storedPeriod where
  outside {m n us e} he := by
    rw [handle_outside he]
    refine ⟨rfl, id, ?_⟩
    rintro u hu ⟨duration, rfl⟩
    rcases started_outside he _ hu with ⟨j, hj⟩ | ⟨c, hc⟩
    · cases hj
    · cases c <;> cases hc
  step {m n t u us x} hw ht hstep := by
    have hr := rule_of_step hstep
    have hspawned : ∀ v ∈ us, ¬ Graceful v := by
      rintro v hv ⟨duration, rfl⟩
      obtain ⟨j, c, hc⟩ := hr.spawned _ hv
      cases hc
    cases hr with
    | serve j y z x k cs evs hr =>
      refine ⟨hr.gracefulDur, fun hn => .inl (hr.expiry.graceful ▸ hn), ?_, hspawned⟩
      rintro ⟨duration, hu⟩
      cases hu
    | task j c d x k evs hr =>
      refine ⟨hr.frame.gracefulDur, fun hn => .inl (hr.frame.graceful ▸ hn), ?_, hspawned⟩
      rintro ⟨duration, hu⟩
      cases hu
    | caller c d k hr =>
      refine ⟨hr.period, fun hn => (hr.graceful_set hn).imp_right ?_, ?_, hspawned⟩
      · rintro ⟨duration, rfl⟩
        exact ⟨duration, rfl⟩
      · rintro ⟨duration, hu⟩
        exact .inr (hr.stored (Thread.caller.inj hu))
    | _ =>
      refine ⟨rfl, .inl, ?_, hspawned⟩
      rintro ⟨duration, hu⟩
      cases hu
  helper {m t u x} hhelper := by
    obtain ⟨j, c, d, y, evs, rfl, rfl, hr, rfl⟩ := stream_of_helper hhelper
    rintro ⟨duration, hu⟩
    cases hu

/-- The graceful latch opens after the first period was given; then the cell holds the last. -/
theorem Runs.period (h : Runs srvs as s) (hg : s.memory.handle.graceful.notified = true) :
    ∃ k, (periods srvs as).getLast? = some (k, s.memory.handle.gracefulDur) :=
  (period_publishes srvs).latest (guarantee srvs) h ⟨Handle.wf_new, by simp⟩ (by simp) (by simp)
    hg

theorem InStage.waits {stage : ServeStage A E B} (h : InStage stage t)
    (hw : stage.waits = true) : t.waits = true := by
  cases t with
  | serve j y => exact (congrArg ServeStage.waits h).trans hw
  | _ => cases h

theorem Runs.came (h : Runs srvs as s) {stage : ServeStage A E B} (hs : stage ≠ .bind)
    {P : Cells A → Thread A E B → Answer A E B → Prop}
    (step : ∀ {m j y z x k cs evs}, y.WF m.handle →
      Serve.Rule (srvs j) m.handle m.now y x k z cs evs → z.stage = stage →
      y.stage = stage ∨ P m (.serve j y) (.serve x))
    {t : Thread A E B} (hi : s.pool[i]? = some t) (ht : InStage stage t) :
    Did srvs as i fun _ u t x => P u.memory t x := by
  refine h.origin (fun _ hb => hs hb.symm) (fun _ => id) (fun _ _ => id) ?_ (fun _ => id) hi ht
  intro m n t u us x _ ht hr hu
  cases hr with
  | serve j y z x k cs evs hr => exact step ht hr hu
  | _ => cases hu

/-- A server that waits for its connections began to do so with the last period by then. -/
theorem Runs.beginsWait (h : Runs srvs as s) {t : Thread A E B}
    (hw : (ServeStage.draining w : ServeStage A E B).waitsConnEnd = true)
    (hi : s.pool[i]? = some t) (ht : InStage (.draining w) t) :
    Did srvs as i (BeginsWait srvs w) := by
  have hcame : Did srvs as i fun _ u t _ => InStage (.draining .duration) t ∧
      w = (⟨u.memory.handle.gracefulDur, u.memory.now⟩ : Period).wait := by
    refine h.came (by simp) (P := fun m t _ => InStage (.draining .duration) t ∧
      w = (⟨m.handle.gracefulDur, m.now⟩ : Period).wait) ?_ hi ht
    intro m j y z x k cs evs _ hr hz
    rcases hr.waitsConnEnd (by rw [hz]; exact hw) with hst | ⟨hst, hwait⟩
    · exact .inl (hst.symm.trans hz)
    · exact .inr ⟨hst, ServeStage.draining.inj (hz.symm.trans hwait)⟩
  refine hcame.imp ?_
  rintro bs u t - hexec hu ⟨hst, rfl⟩
  have hg := Thread.WF.graceful ((Runs.sound hexec).thread hu) (hst.waits rfl)
  obtain ⟨k, hk⟩ := Runs.period hexec hg
  exact ⟨hst, k, _, hk, rfl⟩

/-- The shutdown latch is set by a call of `shutdown()`, or by a server whose grace period
is over. -/
theorem Runs.asked (h : Runs srvs as s) (hn : s.memory.handle.shutdown.notified = true) :
    Asked srvs as := by
  have hset : ∃ i, Did srvs as i fun _ _ t _ =>
      t = .caller (.shutdown .store) ∨ InStage (.draining .shutdownStore) t := by
    refine (guarantee srvs).cause (K := fun m => m.handle.shutdown.notified = true)
      (P := fun _ t _ => t = .caller (.shutdown .store) ∨ InStage (.draining .shutdownStore) t)
      ?_ ?_ h ⟨Handle.wf_new, by simp⟩ (by simp) hn
    · intro m n us e he hn
      rwa [handle_outside he] at hn
    · intro m n t u us x hw ht hstep hn
      cases rule_of_step hstep with
      | serve j y z x k cs evs hr => exact (hr.expiry.shutdown hn).imp_right .inr
      | task j c d x k evs hr => exact .inl (hr.frame.shutdown ▸ hn)
      | caller c d k hr =>
        refine (hr.shutdown_set hn).imp_right fun hc => .inl ?_
        rw [hc]
      | _ => exact .inl hn
  obtain ⟨i, bs, cs, u, t, x, rfl, hexec, hi, hc | hst⟩ := hset
  · exact .inl ⟨i, bs, cs, u, t, x, rfl, hexec, hi, hc⟩
  · have hexpired : Did srvs bs i fun _ u t _ => ∃ deadline,
        InStage (.draining (.timed deadline)) t ∧ deadline ≤ u.memory.now := by
      refine Runs.came hexec (by simp) (P := fun m t _ => ∃ deadline,
        InStage (.draining (.timed deadline)) t ∧ deadline ≤ m.now) ?_ hi hst
      intro m j y z x k cs evs _ hr hz
      obtain ⟨deadline, hy, hd⟩ := hr.expires hz
      exact .inr ⟨deadline, hy, hd⟩
    refine .inr ⟨i, (hexpired.append _).imp ?_⟩
    rintro ds v t - hexec' hv ⟨deadline, ht, hd⟩
    exact ⟨deadline, ht, hd, Runs.beginsWait hexec' rfl hv ht⟩

theorem Runs.cutShort (h : Runs srvs as s) {t : Thread A E B} (hi : s.pool[i]? = some t)
    (ht : CutShort t) :
    Did srvs as i fun _ u t _ => ¬ CutShort t ∧ u.memory.handle.shutdown.notified = true := by
  refine h.origin (P := fun m t _ => ¬ CutShort t ∧ m.handle.shutdown.notified = true)
    (fun _ => id) (fun _ => id) ?_ ?_ ?_ hi ht
  · rintro j addr ⟨u, hu⟩
    cases hu
  · intro m n t u us x hw ht hr hu
    by_cases hcut : CutShort t
    · exact .inl hcut
    · cases hr with
      | task j c d x k evs hr =>
        obtain ⟨v, hv⟩ := hu
        rw [Conn.record_log hr.log] at hv
        rcases mem_stamp.mp hv with hv | ⟨-, hv⟩
        · exact .inl ⟨v, hv⟩
        · exact .inr ⟨hcut, hr.ended_shutdown hw ht hv⟩
      | panicTask j c hc => exact .inl hu
      | _ => cases hu
  · rintro j c d x evs now hr ⟨u, hu⟩
    rw [Conn.record_log hr.log] at hu
    rcases mem_stamp.mp hu with hu | ⟨-, hu⟩
    · exact ⟨u, hu⟩
    · cases hr.streams.1 _ hu

/-- Nothing on a shared handle is shut down early. Each server that waits for its connections
heeds the grace period that was given last before it began to wait, from that moment on; and
no connection of any server is cut short before somebody called `shutdown()` or some server
had waited for the whole of such a period. -/
theorem never_cut_short (h : Runs srvs as s) :
    (∀ i t w, s.pool[i]? = some t → InStage (.draining w) t →
      (ServeStage.draining w : ServeStage A E B).waitsConnEnd = true →
      Did srvs as i (BeginsWait srvs w)) ∧
    (s.memory.handle.shutdown.notified = true → Asked srvs as) ∧
    ∀ i t, s.pool[i]? = some t → CutShort t →
      Did srvs as i fun bs _ t _ => ¬ CutShort t ∧ Asked srvs bs := by
  refine ⟨fun i t w hi ht hw => h.beginsWait hw hi ht, h.asked, fun i t hi ht => ?_⟩
  refine (h.cutShort hi ht).imp ?_
  rintro bs u t - hexec - ⟨hcut, hn⟩
  exact ⟨hcut, Runs.asked hexec hn⟩

end

/-- The grace period of server 0 is over, and the connection of server 1 is polled. -/
def cutSchedule : List (Action ℕ Unit Unit) :=
  cascadeSchedule ++ List.replicate 4 (Move.thread 3 (.task .go))

/-- Server 1 has 4 ns left to wait for it, but server 0 has waited to the end. -/
theorem never_cut_short_cascade :
    Did (fun _ => Server.fromListener) cutSchedule 1
      (BeginsWait (fun _ => Server.fromListener) (.timed 9)) ∧
    Asked (fun _ => Server.fromListener) cutSchedule ∧
    Did (fun _ => Server.fromListener) cutSchedule 3
      fun bs _ t _ => ¬ CutShort t ∧ Asked (fun _ => Server.fromListener) bs :=
  have hrun : Runs (fun _ => Server.fromListener) cutSchedule
      (after (fun _ => Server.fromListener) cutSchedule) := exec_of_runIf (by decide)
  have hshort := never_cut_short hrun
  ⟨hshort.1 1 _ (.timed 9) rfl rfl rfl, hshort.2.1 (by decide),
    hshort.2.2 3 _ rfl ⟨5, by decide⟩⟩

end Fleet

end AxumServer
