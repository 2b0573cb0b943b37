import AxumServer.Server.Leaving

/-! # A connection under graceful shutdown

What a task does once the graceful latch has fired: before its acceptor is done it
leaves, and after that it tells hyper before it polls the connection again and
then waits for the connection alone.
-/

namespace AxumServer

open Interleaving

variable {A E B : Type}

/-- The task has told hyper. -/
def ConnEvent.tells : ConnEvent A E B → Bool
  | .gracefulShutdown => true
  | _ => false

/-- The event says nothing about the fate of hyper's connection future. -/
def ConnEvent.neutral : ConnEvent A E B → Bool
  | .serveReady => false
  | .gracefulShutdown => false
  | .ended _ => false
  | _ => true

/-- The connection future is polled, or the poll of the task is over. -/
def ConnEvent.goesOn : ConnEvent A E B → Bool
  | .servePoll => true
  | .pending => true
  | .ended _ => true
  | .finished => true
  | _ => false

namespace Conn

def Told (c : Conn A E B) : Prop := ∃ u, (u, .gracefulShutdown) ∈ c.log

def Served (c : Conn A E B) : Prop := ∃ u, (u, .serveReady) ∈ c.log

/-- The history of a task and where it stands: hyper is told at most once, on the way
into the inner select, which is left through the shutdown latch or a completed
connection future only; a completed future is not polled. -/
structure Graced (h : Handle A) (c : Conn A E B) : Prop where
  once : (c.log.countP fun e => e.2.tells) ≤ 1
  before : c.stage.live = true → c.stage ≠ .draining → ¬ c.Told
  draining : c.stage = .draining → c.Told
  kept : h.shutdown.notified = false → c.Told → c.stage = .draining ∨ c.Served
  served : c.Served → c.stage.live = false
  reasons : h.shutdown.notified = false → c.Told → ∀ u r, (u, .ended r) ∈ c.log → r = .served
  running : c.stage.live = true → ∀ u r, (u, .ended r) ∉ c.log
  order : c.log.Pairwise fun a b => a.2 = .serveReady → b.2 ≠ .servePoll

section
variable {srv : Server A} {h k : Handle A} {now : Instant} {c d : Conn A E B}
  {evs : List (ConnEvent A E B)} {rest : List Arm}

theorem told_record (hlog : d.log = c.log) :
    (d.record now evs).Told ↔ c.Told ∨ .gracefulShutdown ∈ evs := by
  simp only [Told, record_log hlog, mem_stamp]
  constructor
  · rintro ⟨u, hu | ⟨-, he⟩⟩
    · exact .inl ⟨u, hu⟩
    · exact .inr he
  · rintro (⟨u, hu⟩ | he)
    · exact ⟨u, .inl hu⟩
    · exact ⟨now, .inr ⟨rfl, he⟩⟩

theorem served_record (hlog : d.log = c.log) :
    (d.record now evs).Served ↔ c.Served ∨ .serveReady ∈ evs := by
  simp only [Served, record_log hlog, mem_stamp]
  constructor
  · rintro ⟨u, hu | ⟨-, he⟩⟩
    · exact .inl ⟨u, hu⟩
    · exact .inr he
  · rintro (⟨u, hu⟩ | he)
    · exact ⟨u, .inl hu⟩
    · exact ⟨now, .inr ⟨rfl, he⟩⟩

theorem Graced.mono (hc : c.Graced h) (hle : h.Le k) : c.Graced k := by
  have hsd : k.shutdown.notified = false → h.shutdown.notified = false := hle.shutdown.unset
  exact ⟨hc.once, hc.before, hc.draining, fun hk => hc.kept (hsd hk), hc.served,
    fun hk => hc.reasons (hsd hk), hc.running, hc.order⟩

theorem not_told_iff : ¬ c.Told ↔ (c.log.countP fun e => e.2.tells) = 0 := by
  rw [List.countP_eq_zero]
  constructor
  · rintro hn ⟨u, e⟩ he htells
    cases e <;> simp only [ConnEvent.tells, reduceCtorEq] at htells
    exact hn ⟨u, he⟩
  · rintro h0 ⟨u, hu⟩
    exact h0 _ hu rfl

theorem countP_stamp {p : ConnEvent A E B → Bool} {log : List (Instant × ConnEvent A E B)}
    (hn : ∀ e ∈ evs, p e = false) :
    (stamp now log evs).countP (fun e => p e.2) = log.countP fun e => p e.2 := by
  simp only [stamp, List.countP_append, Nat.add_eq_left, List.countP_eq_zero, List.mem_map]
  rintro _ ⟨e, he, rfl⟩
  simp [hn e he]

/-- A poll of the connection future may only be appended while it has not completed. -/
theorem order_stamp {log : List (Instant × ConnEvent A E B)}
    (ho : log.Pairwise fun a b => a.2 = .serveReady → b.2 ≠ .servePoll)
    (hn : .servePoll ∉ evs ∨ (∀ u, (u, .serveReady) ∉ log) ∧ .serveReady ∉ evs) :
    (stamp now log evs).Pairwise fun a b => a.2 = .serveReady → b.2 ≠ .servePoll := by
  have hnew : ∀ b ∈ evs.map fun e => (now, e), b.2 ∈ evs := by
    intro b hb
    obtain ⟨e, he, rfl⟩ := List.mem_map.mp hb
    exact he
  rw [stamp, List.pairwise_append]
  rcases hn with hn | ⟨hlog, hevs⟩
  · have hne : ∀ b ∈ evs.map fun e => (now, e), b.2 ≠ .servePoll :=
      fun b hb hp => hn (hp ▸ hnew b hb)
    exact ⟨ho, List.pairwise_of_forall_mem_list fun _ _ b hb _ => hne b hb,
      fun _ _ b hb _ => hne b hb⟩
  · exact ⟨ho, List.pairwise_of_forall_mem_list fun a ha _ _ hr => absurd (hr ▸ hnew a ha) hevs,
      fun a ha _ _ hr => absurd (hr ▸ ha : (a.1, .serveReady) ∈ log) (hlog a.1)⟩

/-- An operation with neutral events that keeps the task on its side of the inner select. -/
theorem Graced.neutral (hc : c.Graced h) (hlog : d.log = c.log)
    (hev : ∀ e ∈ evs, e.neutral = true) (ho : .servePoll ∉ evs ∨ ¬ c.Served)
    (hl : d.stage.live = true → c.stage.live = true)
    (hd : d.stage = .draining ↔ c.stage = .draining) : (d.record now evs).Graced h := by
  have hno : ∀ e : ConnEvent A E B, e.neutral = false → e ∉ evs := by
    intro e he hm
    simp [hev e hm] at he
  have htold : (d.record now evs).Told ↔ c.Told := by
    rw [told_record hlog, or_iff_left (hno _ rfl)]
  have hserved : (d.record now evs).Served ↔ c.Served := by
    rw [served_record hlog, or_iff_left (hno _ rfl)]
  have hended : ∀ u r, (u, .ended r) ∈ (d.record now evs).log ↔ (u, .ended r) ∈ c.log := by
    intro u r
    rw [record_log hlog, mem_stamp, or_iff_left fun hm => hno _ rfl hm.2]
  refine ⟨?_, fun hdl hdd => ?_, fun hdd => ?_, fun hsd ht => ?_, fun hs => ?_,
    fun hsd ht u r he => ?_, fun hdl u r he => ?_, ?_⟩
  · rw [record_log hlog, countP_stamp fun e he => ?_]
    · exact hc.once
    · cases e <;> first | rfl | exact absurd he (hno _ rfl)
  · rw [htold]
    exact hc.before (hl hdl) fun hcd => hdd (hd.mpr hcd)
  · exact htold.mpr (hc.draining (hd.mp hdd))
  · rw [hserved]
    exact (hc.kept hsd (htold.mp ht)).imp hd.mpr id
  · have hcl := hc.served (hserved.mp hs)
    cases hdl : d.stage.live with
    | false => exact hdl
    | true => simp [hl hdl] at hcl
  · exact hc.reasons hsd (htold.mp ht) u r ((hended u r).mp he)
  · exact hc.running (hl hdl) u r ((hended u r).mp he)
  · rw [record_log hlog]
    exact order_stamp hc.order (ho.imp id fun hs => ⟨fun u hu => hs ⟨u, hu⟩, hno _ rfl⟩)

theorem Graced.leave (hc : c.Graced h) (reason : Ending) (hl : c.stage.live = true)
    (hev : ∀ e ∈ evs, e.tells = false) (hp : .servePoll ∉ evs)
    (hreason : ∀ r, .ended r ∈ evs → r = reason)
    (hd : h.shutdown.notified = false → c.stage = .draining →
      reason = .served ∧ .serveReady ∈ evs) : (c.leave.record now evs).Graced h := by
  have hlog : c.leave.log = c.log := rfl
  have htold : (c.leave.record now evs).Told ↔ c.Told := by
    rw [told_record hlog,
      or_iff_left fun hm => by simpa [ConnEvent.tells] using hev _ hm]
  have hdrain : c.Told → c.stage = .draining := fun ht => by
    by_contra hne
    exact hc.before hl hne ht
  refine ⟨?_, fun hdl => ?_, fun hdd => ?_, fun hsd ht => ?_, fun hs => rfl,
    fun hsd ht u r he => ?_, fun hdl => ?_, ?_⟩
  · rw [record_log hlog, countP_stamp hev]
    exact hc.once
  · cases hdl
  · cases hdd
  · rw [served_record hlog]
    exact .inr (.inr (hd hsd (hdrain (htold.mp ht))).2)
  · rw [record_log hlog, mem_stamp] at he
    rcases he with he | ⟨-, he⟩
    · exact absurd he (hc.running hl u r)
    · exact (hreason r he).trans (hd hsd (hdrain (htold.mp ht))).1
  · cases hdl
  · rw [record_log hlog]
    exact order_stamp hc.order (.inl hp)

theorem Graced.step (hc : c.Graced h) (hw : h.WF) (hcw : c.WF h) (hr : Rule srv h now c k d evs) :
    (d.record now evs).Graced k := by
  have hp := hcw.placed
  refine Graced.mono (h := h) ?_ hr.le
  cases hr with
  | shutdownReady rest hl hpc hf =>
    have hset := hcw.shutdown.notified_of_ready hw.shutdown hf
    exact hc.leave .shutdown hl (by simp [ConnEvent.tells]) (by simp)
      (by simp) (fun hsd => by simp [hset] at hsd)
  | gracefulLeave rest hs hpc hf =>
    exact hc.leave .graceful (by rw [hs]; rfl) (by simp [ConnEvent.tells])
      (by simp) (by simp) (fun _ hd => by simp [hs] at hd)
  | sleepFired rest deadline hs hpc hd =>
    exact hc.leave .timeout (by rw [hs]; rfl)
      (by simp [ConnEvent.tells]) (by simp) (by simp) (fun _ hd => by simp [hs] at hd)
  | requestClosed rest hl hpc hn =>
    rw [hpc] at hp
    obtain ⟨⟨deadline, hs⟩, -⟩ := Stage.arms_firstRequest hp.1
    exact hc.leave .closed hl (by simp [ConnEvent.tells]) (by simp)
      (by simp) (fun _ hd => by simp [hs] at hd)
  | acceptErr rest e hl hpc =>
    rw [hpc] at hp
    have hs : c.stage = .accepting := by simpa using hp.2
    refine hc.leave .acceptError hl ?_ ?_ ?_
      (fun _ hd => by simp [hs] at hd) <;> split <;> simp [ConnEvent.tells]
  | serveReady rest hl hpc =>
    exact hc.leave .served hl (by simp [ConnEvent.tells]) (by simp) (by simp)
      (fun _ _ => ⟨rfl, by simp⟩)
  | gracefulStart rest hs hpc hf =>
    have hl : c.stage.live = true := by rw [hs]; rfl
    have hnot := hc.before hl (by simp [hs])
    have hlog : (c.enter .draining).log = c.log := rfl
    have htold : ((c.enter .draining).record now [.gracefulShutdown]).Told :=
      (told_record hlog).mpr (.inr (by simp))
    refine ⟨?_, fun _ hdd => absurd rfl hdd, fun _ => htold, fun _ _ => .inl rfl, fun hsv => ?_,
      fun _ _ u r he => ?_, fun _ u r he => ?_, ?_⟩
    · rw [record_log hlog, stamp, List.countP_append, not_told_iff.mp hnot]
      exact le_rfl
    · rw [served_record hlog] at hsv
      have := hc.served (hsv.resolve_right (by simp))
      simp [hl] at this
    · rw [record_log hlog, mem_stamp] at he
      exact absurd (he.resolve_right (by simp)) (hc.running hl u r)
    · rw [record_log hlog, mem_stamp] at he
      exact absurd (he.resolve_right (by simp)) (hc.running hl u r)
    · rw [record_log hlog]
      exact order_stamp hc.order (.inl (by simp))
  | servePoll rest hl hpc =>
    refine hc.neutral rfl (by simp [ConnEvent.neutral]) (.inr fun hs => ?_)
      (fun _ => hl) Iff.rfl
    simp [hc.served hs] at hl
  | gracefulSkip rest deadline hs hpc hf =>
    exact hc.neutral rfl (by simp) (.inl (by simp)) (fun _ => by rw [hs]; rfl)
      (by simp [hs, enter])
  | requestSent rest hl hpc hn =>
    rw [hpc] at hp
    obtain ⟨⟨deadline, hs⟩, -⟩ := Stage.arms_firstRequest hp.1
    exact hc.neutral rfl (by simp) (.inl (by simp)) (fun _ => hl)
      (by simp [hs, enter])
  | accepted rest hl hpc =>
    rw [hpc] at hp
    have hs : c.stage = .accepting := by simpa using hp.2
    refine hc.neutral (serveConnection_log srv now c) (by simp [ConnEvent.neutral])
      (.inl (by simp)) (fun _ => hl) ?_
    unfold serveConnection
    split <;> simp [hs, enter]
  | drop e e' hs hd =>
    exact hc.neutral rfl (by simp) (.inl (by simp)) (fun hl => by cases hl) (by simp [hs])
  | dropped e hs hd =>
    exact hc.neutral rfl (by simp [ConnEvent.neutral]) (.inl (by simp))
      (fun hl => by cases hl) (by simp [hs])
  | _ => exact hc.neutral rfl (by simp [ConnEvent.neutral]) (.inl (by simp)) id Iff.rfl

theorem Graced.stream {x : StreamAnswer} (hc : c.Graced h) (hr : StreamRule c x d evs) :
    (d.record now evs).Graced h := by
  cases hr <;>
    exact hc.neutral rfl (by simp [ConnEvent.neutral]) (.inl (by simp)) id Iff.rfl

theorem graced_spawned (h : Handle A) (addr : A) : ({ remoteAddr := addr } : Conn A E B).Graced h :=
  ⟨by simp, by simp [Told], by simp, by simp [Told], by simp [Served], by simp, by simp, by simp⟩

/-- The connection is served, and a set graceful latch is still ahead. -/
structure Telling (h : Handle A) (c : Conn A E B) : Prop where
  stage : (∃ deadline, c.stage = .firstRequest deadline) ∨ c.stage = .serving
  ahead : c.Ahead .graceful
  ready : c.graceful.Ready h.graceful

theorem Telling.mono (hc : c.Telling h) (hle : h.Le k) : c.Telling k :=
  ⟨hc.stage, hc.ahead, hc.ready.mono hle.graceful⟩

theorem Telling.record (hc : c.Telling h) : (c.record now evs).Telling h :=
  ⟨hc.stage, hc.ahead, hc.ready⟩

theorem Telling.not_past {arm : Arm} (hc : c.Telling h) (hcw : c.WF h)
    (hpc : c.pc = .next (arm :: rest)) : arm = .shutdown ∨ arm = .graceful := by
  have hp : Placed c.stage (.next (arm :: rest)) := hpc ▸ hcw.placed
  by_contra hno
  rw [not_or] at hno
  have ha := (ahead_next hpc).mp hc.ahead
  rcases List.mem_cons.mp ha with ha | ha
  · exact hno.2 ha.symm
  · exact (Stage.arms_past hp.1 hno.1 hno.2).2 ha

/-- While the shutdown latch is unset, the next thing the task does is to tell hyper. -/
theorem Telling.step (hc : c.Telling h) (hw : h.WF) (hcw : c.WF h)
    (hsd : h.shutdown.notified = false) (hr : Rule srv h now c k d evs) :
    (∀ e ∈ evs, e.goesOn = false) ∧ (.gracefulShutdown ∈ evs ∨ d.Telling k) := by
  have hstage := hc.stage
  cases hr with
  | poll hl hpc =>
    refine ⟨by simp [ConnEvent.goesOn], .inr ⟨hstage, .inr ⟨_, rfl, ?_⟩, hc.ready⟩⟩
    rcases hstage with ⟨deadline, hs⟩ | hs <;> simp [hs, Stage.arms]
  | suspend hl hpc => simpa using (ahead_next hpc).mp hc.ahead
  | shutdownBusy rest f hl hpc hf => exact ⟨by simp, .inr ⟨hstage, hc.ahead, hc.ready⟩⟩
  | shutdownPending rest hl hpc hf =>
    have ha := (ahead_next hpc).mp hc.ahead
    exact ⟨by simp, .inr ⟨hstage, .inr ⟨rest, rfl, by simpa using ha⟩, hc.ready⟩⟩
  | shutdownReady rest hl hpc hf =>
    simp [hcw.shutdown.notified_of_ready hw.shutdown hf] at hsd
  | gracefulBusy rest f hl hpc hf =>
    exact ⟨by simp, .inr ⟨hstage, hc.ahead, (hc.ready.poll hf).1⟩⟩
  | gracefulPending rest hl hpc hf => exact absurd hf hc.ready.poll_ne_pending
  | gracefulSkip rest deadline hs hpc hf =>
    exact ⟨by simp, .inr ⟨.inr rfl, .inr ⟨_, rfl, by simp [Stage.arms]⟩,
      hc.ready.notified hw.graceful⟩⟩
  | gracefulStart rest hs hpc hf => exact ⟨by simp [ConnEvent.goesOn], .inl (by simp)⟩
  | gracefulLeave _ hs | drop _ _ hs | dropped _ hs => simp [hs] at hstage
  | sleepFired _ _ _ hpc | sleepPending _ _ _ hpc | requestSent _ _ hpc | requestClosed _ _ hpc
  | requestPending _ _ hpc | acceptPoll _ _ hpc | servePoll _ _ hpc =>
    rcases hc.not_past hcw hpc with h' | h' <;> cases h'
  | acceptPending _ _ hpc | accepted _ _ hpc | acceptErr _ _ _ hpc | servePending _ _ hpc
  | serviceCall _ _ hpc | spawnStream _ _ hpc | serviceDropped _ _ hpc | serveReady _ _ hpc =>
    exact absurd hc.ahead (not_ahead_inside hpc)

theorem Telling.stream {x : StreamAnswer} (hc : c.Telling h) (hr : StreamRule c x d evs) :
    (∀ e ∈ evs, e.goesOn = false) ∧ (d.record now evs).Telling h := by
  cases hr <;> exact ⟨by simp [ConnEvent.goesOn], hc.stage, hc.ahead, hc.ready⟩

end

end Conn

namespace State
variable {srv : Server A} {P : State A E B → Action A E B → Prop} {s t : State A E B}
  {as : List (Action A E B)} {i : ℕ} {c : Conn A E B}

theorem graced_invariant (srv : Server A) :
    TaskInvariant srv AnyTask AnyTask fun h _ (d : Conn A E B) => d.Graced h where
  mono hle _ hd := hd.mono hle
  step hw hcw _ hr hd := hd.step hw hcw hr
  stream _ _ hr hd := hd.stream hr

theorem ReachableIf.graced (h : ReachableIf srv P s) : ∀ c ∈ s.tasks, c.Graced s.handle :=
  (graced_invariant srv).forall_tasks (fun h _ addr => Conn.graced_spawned h addr) h
    eachTask_any eachStreamCall_any

/-- While the shutdown latch is unset, a task that was `c` has told hyper before it
polled the connection or ended its poll, or it is about to. -/
def TellingSince (c : Conn A E B) (h : Handle A) (d : Conn A E B) : Prop :=
  h.shutdown.notified = false → ∃ new, Since c.log d.log new ∧
    Preceded (fun e => e = .gracefulShutdown) (fun e => e.goesOn = true) new ∧
    (.gracefulShutdown ∈ new ∨ d.Telling h)

theorem tellingSince_invariant (srv : Server A) (c : Conn A E B) :
    TaskInvariant srv AnyTask AnyTask fun h _ d => TellingSince c h d where
  mono := by
    intro h k _ _ d hle _ hd hsd
    obtain ⟨new, hs, hpre, ht⟩ := hd (hle.shutdown.unset hsd)
    exact ⟨new, hs, hpre, ht.imp id fun ht => ht.mono hle⟩
  step := by
    intro h k now d d' evs hw hdw _ hr hd hsd
    have hsd' := hr.le.shutdown.unset hsd
    obtain ⟨new, hs, hpre, ht⟩ := hd hsd'
    refine ⟨new ++ evs, hr.since hs, ?_⟩
    rcases ht with ht | ht
    · exact ⟨hpre.append_of_mem ⟨_, ht, rfl⟩, .inl (List.mem_append_left _ ht)⟩
    · obtain ⟨hev, htell⟩ := ht.step hw hdw hsd' hr
      exact ⟨hpre.append_of_forall_not fun e he => by simp [hev e he],
        htell.imp (List.mem_append_right _) fun ht => ht.record⟩
  stream := by
    intro h now d d' x evs _ _ hr hd hsd
    obtain ⟨new, hs, hpre, ht⟩ := hd hsd
    refine ⟨new ++ evs, hr.since hs, ?_⟩
    rcases ht with ht | ht
    · exact ⟨hpre.append_of_mem ⟨_, ht, rfl⟩, .inl (List.mem_append_left _ ht)⟩
    · obtain ⟨hev, htell⟩ := ht.stream hr
      exact ⟨hpre.append_of_forall_not fun e he => by simp [hev e he], .inr htell⟩

/-- The behaviour of a connection task under graceful shutdown. If a call of
`graceful_shutdown` has returned before a poll of the task begins, then (i) a task
whose acceptor is unfinished, which has no stream tasks, ends in that poll, and (ii) one
that serves its connection has told hyper, in that poll before it polls the connection, or earlier.
In every reachable state (ii) hyper was told at most once, (iii) while the shutdown
latch is unset the connection future lives from then on until it has completed, and
the task ends for no other reason, and (iv) the future is not polled after that. -/
theorem graceful_connection (hr : Reachable srv s) :
    (s.GracefulReturned → ∀ i c, s.tasks[i]? = some c → c.pc = .idle →
      (c.stage = .accepting → c.streams = 0 ∧ EndsInOnePoll srv s i c) ∧
      (c.stage.serves = true → ∀ as t d, Exec srv Always s as t → t.tasks[i]? = some d →
        t.handle.shutdown.isNotified = false → ∃ new, Since c.log d.log new ∧
          (c.Told ∨ Preceded (fun e => e = .gracefulShutdown) (fun e => e.goesOn = true) new))) ∧
    ∀ c ∈ s.tasks, (c.log.countP fun e => e.2.tells) ≤ 1 ∧
      (s.handle.shutdown.isNotified = false → c.Told → (c.stage = .draining ∨ c.Served) ∧
        ∀ u r, (u, .ended r) ∈ c.log → r = .served) ∧
      c.log.Pairwise fun a b => a.2 = .serveReady → b.2 ≠ .servePoll := by
  have hw := ReachableIf.wf hr
  refine ⟨fun hg i c hi hpc => ?_, fun c hc => ?_⟩
  · have hc := List.mem_of_getElem? hi
    have hready := (hw.tasks c hc).graceful.ready hw.handle.graceful (hg.fired hw)
    refine ⟨fun hs => ?_, fun hs as t d h hd hsd => ?_⟩
    · exact ⟨(hw.tasks c hc).streams hs, endsInOnePoll_of_leaving hw hi
        (.graceful hs (.inl ⟨hpc, by simp [hs, Stage.arms]⟩) hready)⟩
    · by_cases hdr : c.stage = .draining
      · obtain ⟨d', hd', new, hsince⟩ := (since_invariant srv c.log).exec h hw
          eachTask_any eachStreamCall_any hi ⟨[], .refl _⟩
        obtain rfl := Option.some.inj (hd'.symm.trans hd)
        exact ⟨new, hsince, .inl ((hr.graced c hc).draining hdr)⟩
      · have hstage : (∃ deadline, c.stage = .firstRequest deadline) ∨ c.stage = .serving := by
          cases hst : c.stage <;> simp_all [Stage.serves]
        have hahead : c.Ahead .graceful := by
          refine .inl ⟨hpc, ?_⟩
          rcases hstage with ⟨deadline, hs⟩ | hs <;> simp [hs, Stage.arms]
        obtain ⟨d', hd', hts⟩ := (tellingSince_invariant srv c).exec h hw
          eachTask_any eachStreamCall_any hi
          fun _ => ⟨[], .refl _, .nil, .inr ⟨hstage, hahead, hready⟩⟩
        obtain rfl := Option.some.inj (hd'.symm.trans hd)
        obtain ⟨new, hsince, hpre, -⟩ := hts hsd
        exact ⟨new, hsince, .inr hpre⟩
  · have hc' := ReachableIf.graced hr c hc
    exact ⟨hc'.once, fun hsd ht => ⟨hc'.kept hsd ht, hc'.reasons hsd ht⟩, hc'.order⟩

/-- A task in the middle of a request when `graceful_shutdown` is called. -/
def gracefulSchedule : List (Action ℕ Unit Unit) :=
  Action.listen (some 0) ++ Action.connect 1 ++ Action.handshake 0 ++ Action.reachHyper 0 ++
    [Action.task 0 .serviceCall, .task 0 .pending, .task 0 .go] ++
    Action.callNow 0 (.gracefulShutdown none) 3

def busyTask : Conn ℕ Unit Unit where
  remoteAddr := 1
  stage := .serving
  shutdown := .waiting 0
  graceful := .waiting 0
  log := [(0, .poll), (0, .acceptPoll), (0, .accepted), (0, .serveConnection true),
    (0, .servePoll), (0, .serviceCall), (0, .pending)]

/-- Its next poll, up to the poll of hyper. -/
def tellSchedule : List (Action ℕ Unit Unit) := .replicate 6 (.task 0 .go)

def toldTask : Conn ℕ Unit Unit :=
  { busyTask with
    stage := .draining
    pc := .inside .serve []
    graceful := .created
    log := busyTask.log ++ [(0, .poll), (0, .gracefulShutdown), (0, .servePoll)] }

theorem graceful_connection_serving :
    ∃ new, Since busyTask.log toldTask.log new ∧ (busyTask.Told ∨
      Preceded (fun e => e = .gracefulShutdown) (fun e => e.goesOn = true) new) :=
  have htell : Exec Server.fromListener Always (after Server.fromListener gracefulSchedule)
      tellSchedule (after Server.fromListener (gracefulSchedule ++ tellSchedule)) :=
    exec_of_runIf (by decide)
  ((graceful_connection (reachable_after _ _ gracefulSchedule)).1 ⟨none, by decide⟩ 0 busyTask
    (by decide) (by decide)).2 (by decide) _ _ toldTask htell (by decide) (by decide)

end State

end AxumServer
