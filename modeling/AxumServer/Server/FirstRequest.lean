import AxumServer.Server.Leaving

/-! # The first request timeout

The timer of a connection is an arm of one select only. It is polled before the
signal of the first request is, and the graceful signal leads past it; both shape
what the timeout promises.
-/

namespace AxumServer

open Interleaving

variable {A E B : Type}

@[simp] def ConnEvent.calls : ConnEvent A E B → Bool
  | .serviceCall => true
  | .streamCall => true
  | _ => false

def ConnEvent.begins : ConnEvent A E B → Bool
  | .poll => true
  | _ => false

def Stage.deadline : Stage → Option Instant
  | .firstRequest deadline => some deadline
  | _ => none

def SelectPc.head {Arm : Type} : SelectPc Arm → Option Arm
  | .next (arm :: _) => some arm
  | _ => none

namespace Conn

def AcceptedAt (c : Conn A E B) (u : Instant) : Prop := (u, .accepted) ∈ c.log

instance [DecidableEq A] [DecidableEq E] [DecidableEq B] (c : Conn A E B) (u : Instant) :
    Decidable (c.AcceptedAt u) := inferInstanceAs (Decidable ((u, .accepted) ∈ c.log))

def Called (c : Conn A E B) : Prop := ∃ e ∈ c.log, e.2.calls = true

/-- The polls of the task since its service was first called. -/
def pollsSinceCall (c : Conn A E B) : ℕ := countSince ConnEvent.calls ConnEvent.begins c.log

def CalledBefore (c : Conn A E B) (deadline : Instant) : Prop :=
  ∃ e ∈ c.log, e.1 < deadline ∧ e.2.calls = true

instance (c : Conn A E B) (deadline : Instant) : Decidable (c.CalledBefore deadline) :=
  inferInstanceAs (Decidable (∃ e ∈ c.log, e.1 < deadline ∧ e.2.calls = true))

/-- The first look at the timer after a call in time, in the poll that is under way or in
the next one, comes before the deadline. -/
def TimerSeen (_ : Handle A) (now : Instant) (c : Conn A E B) : Prop :=
  ∀ deadline ∈ c.stage.deadline, c.pc.head = some .sleep → c.CalledBefore deadline →
    c.pollsSinceCall ≤ 1 → now < deadline

instance (h : Handle A) (now : Instant) (c : Conn A E B) : Decidable (TimerSeen h now c) :=
  inferInstanceAs (Decidable (∀ deadline ∈ c.stage.deadline, c.pc.head = some .sleep →
    c.CalledBefore deadline → c.pollsSinceCall ≤ 1 → now < deadline))

/-- A task that leaves the select with the timer for the graceful signal has a call in time. -/
def TimerKept (h : Handle A) (_ : Instant) (c : Conn A E B) : Prop :=
  ∀ deadline ∈ c.stage.deadline, c.pc.head = some .graceful →
    h.graceful.poll c.graceful = .ready → c.CalledBefore deadline

instance (h : Handle A) (now : Instant) (c : Conn A E B) : Decidable (TimerKept h now c) :=
  inferInstanceAs (Decidable (∀ deadline ∈ c.stage.deadline, c.pc.head = some .graceful →
    h.graceful.poll c.graceful = .ready → c.CalledBefore deadline))

/-- A stream task whose call comes between the timer and its signal in a poll is not the
first to call when the deadline is over. -/
def SignalKept (_ : Handle A) (now : Instant) (c : Conn A E B) : Prop :=
  ∀ deadline ∈ c.stage.deadline, c.pc.head = some .firstRequest →
    now < deadline ∨ c.CalledBefore deadline

instance (h : Handle A) (now : Instant) (c : Conn A E B) : Decidable (SignalKept h now c) :=
  inferInstanceAs (Decidable (∀ deadline ∈ c.stage.deadline, c.pc.head = some .firstRequest →
    now < deadline ∨ c.CalledBefore deadline))

/-- The history of a task and its timer. -/
structure Timed (srv : Server A) (now : Instant) (c : Conn A E B) : Prop where
  past : ∀ e ∈ c.log, e.1 ≤ now
  accepting : c.stage = .accepting → ∀ u, ¬ c.AcceptedAt u
  deadline : ∀ deadline, c.stage = .firstRequest deadline →
    ∃ timeout, srv.firstRequestTimeout = some timeout ∧
      ∀ u, c.AcceptedAt u → deadline = u + timeout

section
variable {srv : Server A} {h k : Handle A} {now later : Instant} {c d : Conn A E B}
  {evs : List (ConnEvent A E B)} {rest : List Arm} {u deadline : Instant}

theorem acceptedAt_record (hlog : d.log = c.log) :
    (d.record now evs).AcceptedAt u ↔ c.AcceptedAt u ∨ u = now ∧ .accepted ∈ evs := by
  rw [AcceptedAt, record_log hlog, mem_stamp]
  rfl

theorem calledBefore_record (hlog : d.log = c.log) :
    (d.record now evs).CalledBefore deadline ↔
      c.CalledBefore deadline ∨ now < deadline ∧ ∃ e ∈ evs, e.calls = true := by
  unfold CalledBefore
  rw [record_log hlog]
  constructor
  · rintro ⟨⟨v, e⟩, he, hlt, hcall⟩
    rcases mem_stamp.mp he with hm | ⟨rfl, hm⟩
    · exact .inl ⟨_, hm, hlt, hcall⟩
    · exact .inr ⟨hlt, e, hm, hcall⟩
  · rintro (⟨⟨v, e⟩, he, hlt, hcall⟩ | ⟨hlt, e, he, hcall⟩)
    · exact ⟨_, mem_stamp.mpr (.inl he), hlt, hcall⟩
    · exact ⟨(now, e), mem_stamp.mpr (.inr ⟨rfl, he⟩), hlt, hcall⟩

/-- The timer is armed only when the acceptor is done. -/
theorem Rule.accepting (hr : Rule srv h now c k d evs) (hcw : c.WF h) :
    (c.stage = .accepting ∧ evs = [.accepted, .serveConnection srv.httpVersion.isNone] ∧
        d = c.serveConnection srv now) ∨
      .accepted ∉ evs ∧ (d.stage = .accepting → c.stage = .accepting) ∧
        ∀ deadline, d.stage = .firstRequest deadline → c.stage = .firstRequest deadline := by
  have hp := hcw.placed
  cases hr with
  | accepted rest hl hpc =>
    rw [hpc] at hp
    exact .inl ⟨by simpa using hp.2, rfl, rfl⟩
  | acceptErr =>
    refine .inr ⟨?_, by simp [leave], by simp [leave]⟩
    split <;> simp
  | _ => exact .inr ⟨by simp, by simp [leave, enter], by simp [leave, enter]⟩

theorem Timed.mono (hc : c.Timed srv now) (hle : now ≤ later) : c.Timed srv later :=
  ⟨fun e he => (hc.past e he).trans hle, hc.accepting, hc.deadline⟩

theorem past_record (hc : ∀ e ∈ c.log, e.1 ≤ now) (hlog : d.log = c.log) :
    ∀ e ∈ (d.record now evs).log, e.1 ≤ now := by
  rintro ⟨v, e⟩ he
  rw [record_log hlog] at he
  rcases mem_stamp.mp he with he | ⟨rfl, -⟩
  · exact hc _ he
  · exact le_rfl

theorem Timed.step (hc : c.Timed srv now) (hcw : c.WF h) (hr : Rule srv h now c k d evs) :
    (d.record now evs).Timed srv now := by
  have hpast : ∀ e ∈ (d.record now evs).log, e.1 ≤ now := past_record hc.past hr.log
  rcases hr.accepting hcw with ⟨hs, rfl, rfl⟩ | ⟨hev, ha, hd⟩
  · have hnone := hc.accepting hs
    have hacc : ∀ u, ((c.serveConnection srv now).record now
        [.accepted, .serveConnection srv.httpVersion.isNone]).AcceptedAt u → u = now := by
      intro u hu
      rcases (acceptedAt_record (serveConnection_log srv now c)).mp hu with hu | ⟨rfl, -⟩
      · exact absurd hu (hnone u)
      · rfl
    refine ⟨hpast, fun hst => ?_, fun deadline hst => ?_⟩
    · revert hst
      unfold serveConnection
      split <;> intro hst <;> cases hst
    · cases hT : srv.firstRequestTimeout with
      | none => simp [serveConnection, hT, enter, record] at hst
      | some timeout =>
        have hdl : deadline = now + timeout := by
          simpa [serveConnection, hT, enter, record, eq_comm] using hst
        exact ⟨timeout, rfl, fun u hu => by rw [hdl, hacc u hu]⟩
  · have hacc : ∀ u, (d.record now evs).AcceptedAt u ↔ c.AcceptedAt u := fun u => by
      rw [acceptedAt_record hr.log, or_iff_left fun hm => hev hm.2]
    refine ⟨hpast, fun hst u => by rw [hacc]; exact hc.accepting (ha hst) u, fun deadline hst => ?_⟩
    obtain ⟨timeout, hT, hu⟩ := hc.deadline deadline (hd deadline hst)
    exact ⟨timeout, hT, fun u hau => hu u ((hacc u).mp hau)⟩

theorem Timed.stream {x : StreamAnswer} (hc : c.Timed srv now) (hr : StreamRule c x d evs) :
    (d.record now evs).Timed srv now := by
  have hacc : ∀ u, (d.record now evs).AcceptedAt u ↔ c.AcceptedAt u := fun u => by
    rw [acceptedAt_record hr.log, or_iff_left fun hm => by cases hr.streams.1 _ hm.2]
  obtain ⟨hstage, -⟩ := hr.frame
  refine ⟨past_record hc.past hr.log, fun hs u => ?_, fun deadline hs => ?_⟩
  · rw [hacc]
    exact hc.accepting (hstage ▸ hs) u
  · obtain ⟨timeout, hT, hu⟩ := hc.deadline deadline (hstage ▸ hs)
    exact ⟨timeout, hT, fun u hau => hu u ((hacc u).mp hau)⟩

theorem Rule.of_not_live (hr : Rule srv h now c k d evs) (hl : c.stage.live = false) :
    d.stage.live = false ∧ ∀ e ∈ evs, e = .finished := by
  cases hr with
  | drop | dropped => exact ⟨rfl, by simp⟩
  | gracefulLeave _ hs | gracefulSkip _ _ hs | gracefulStart _ hs | sleepFired _ _ hs
  | sleepPending _ _ hs =>
    rw [hs] at hl
    cases hl
  | _ => simp_all

theorem firstRequestService_call {notify : Option Oneshot} (hne : notify ≠ none)
    (hc : notify ≠ some .closed) : FirstRequestService.call notify = some .sent := by
  cases notify with
  | none => exact absurd rfl hne
  | some o =>
    cases o with
    | empty | sent => rfl
    | closed => exact absurd rfl hc

/-- A call of the service is signalled at once, and noticed at the latest in the first poll
that begins after it: in that poll the task has not yet come to the arm of the signal. -/
structure Noticing (c : Conn A E B) : Prop where
  fresh : c.stage = .accepting → ¬ c.Called
  signalled : ∀ deadline, c.stage = .firstRequest deadline → c.Called → c.notify = some .sent
  noticed : ∀ deadline, c.stage = .firstRequest deadline → c.Called →
    c.pollsSinceCall = 0 ∨
      c.pollsSinceCall = 1 ∧ ∃ rest, c.pc = .next rest ∧ .firstRequest ∈ rest

theorem CalledBefore.called (hc : c.CalledBefore deadline) : c.Called := by
  obtain ⟨e, he, -, hcall⟩ := hc
  exact ⟨e, he, hcall⟩

theorem called_record (hlog : d.log = c.log) :
    (d.record now evs).Called ↔ c.Called ∨ ∃ e ∈ evs, e.calls = true := by
  unfold Called
  rw [record_log hlog]
  constructor
  · rintro ⟨⟨v, e⟩, he, hcall⟩
    rcases mem_stamp.mp he with hm | ⟨-, hm⟩
    · exact .inl ⟨_, hm, hcall⟩
    · exact .inr ⟨e, hm, hcall⟩
  · rintro (⟨⟨v, e⟩, he, hcall⟩ | ⟨e, he, hcall⟩)
    · exact ⟨_, mem_stamp.mpr (.inl he), hcall⟩
    · exact ⟨(now, e), mem_stamp.mpr (.inr ⟨rfl, he⟩), hcall⟩

theorem pollsSinceCall_record (hlog : d.log = c.log) (hcall : c.Called) :
    (d.record now evs).pollsSinceCall = c.pollsSinceCall + evs.countP ConnEvent.begins := by
  rw [pollsSinceCall, record_log hlog]
  exact countSince_stamp hcall now evs

theorem Noticing.silent (hc : ¬ c.Called) (hlog : d.log = c.log)
    (hev : ¬ ∃ e ∈ evs, e.calls = true) :
    (d.record now evs).Noticing := by
  have hd : ¬ (d.record now evs).Called := by
    rw [called_record hlog]
    exact not_or.mpr ⟨hc, hev⟩
  exact ⟨fun _ => hd, fun _ _ h => absurd h hd, fun _ _ h => absurd h hd⟩

theorem Noticing.outside (ha : d.stage ≠ .accepting)
    (hs : ∀ deadline, d.stage ≠ .firstRequest deadline) : (d.record now evs).Noticing :=
  ⟨fun h => absurd h ha, fun deadline h => absurd h (hs deadline),
    fun deadline h => absurd h (hs deadline)⟩

theorem Noticing.within (hc : c.Noticing) (hlog : d.log = c.log) (hs : d.stage = c.stage)
    (hn : d.notify = c.notify) (hcall : ¬ ∃ e ∈ evs, e.calls = true)
    (hev : evs.countP ConnEvent.begins = 0)
    (hpc : ∀ rest, c.pc = .next rest → .firstRequest ∈ rest →
      ∃ rest, d.pc = .next rest ∧ .firstRequest ∈ rest) : (d.record now evs).Noticing := by
  have hcalled : (d.record now evs).Called ↔ c.Called := by
    rw [called_record hlog, or_iff_left hcall]
  refine ⟨fun h => ?_, fun deadline h hd => ?_, fun deadline h hd => ?_⟩
  · rw [hcalled]
    exact hc.fresh (hs ▸ h)
  · exact hn.trans (hc.signalled deadline (hs ▸ h) (hcalled.mp hd))
  · rw [pollsSinceCall_record hlog (hcalled.mp hd), hev, Nat.add_zero]
    exact (hc.noticed deadline (hs ▸ h) (hcalled.mp hd)).imp_right fun ⟨h1, rest, hrest, hm⟩ =>
      ⟨h1, hpc rest hrest hm⟩

/-- A call that leaves the place of the task is signalled and starts the count. -/
theorem Noticing.call {e : ConnEvent A E B} (hc : c.Noticing) (hlog : d.log = c.log)
    (hs : d.stage = c.stage) (hpc : d.pc = c.pc) (ha : c.stage ≠ .accepting)
    (hn : ∀ deadline, c.stage = .firstRequest deadline → d.notify = some .sent)
    (hbegins : e.begins = false) : (d.record now [e]).Noticing := by
  refine ⟨fun h => absurd (hs.symm.trans h) ha, fun deadline h _ => hn deadline (hs ▸ h),
    fun deadline h _ => ?_⟩
  by_cases hcalled : c.Called
  · rw [pollsSinceCall_record hlog hcalled, List.countP_singleton, hbegins]
    exact (hc.noticed deadline (hs ▸ h) hcalled).imp_right fun ⟨h1, rest, hrest, hm⟩ =>
      ⟨h1, rest, hpc.trans hrest, hm⟩
  · have hnone : ∀ e ∈ c.log, e.2.calls = false := fun e he => by
      simpa using fun h => hcalled ⟨e, he, h⟩
    refine .inl ?_
    rw [pollsSinceCall, record_log hlog]
    exact countSince_first hnone now e hbegins

theorem Noticing.step (hc : c.Noticing) (hcw : c.WF h) (hr : Rule srv h now c k d evs) :
    (d.record now evs).Noticing := by
  have hp := hcw.placed
  cases hr with
  | poll hl hpc =>
    by_cases hcall : c.Called
    · refine ⟨fun hs => absurd hcall (hc.fresh hs), fun deadline hs _ =>
        hc.signalled deadline hs hcall, fun deadline hs _ => .inr ⟨?_, _, rfl, ?_⟩⟩
      · obtain h0 | ⟨-, rest, hrest, -⟩ := hc.noticed deadline hs hcall
        · exact (pollsSinceCall_record rfl hcall).trans (by rw [h0]; rfl)
        · simp [hpc] at hrest
      · have hs : c.stage = .firstRequest deadline := hs
        simp [hs, Stage.arms]
    · exact .silent hcall rfl (by simp)
  | suspend hl hpc => exact hc.within rfl rfl rfl (by simp) rfl (by simp [hpc])
  | shutdownBusy rest f hl hpc hf | gracefulBusy rest f hl hpc hf =>
    exact hc.within rfl rfl rfl (by simp) rfl fun rest hrest hm => ⟨rest, hrest, hm⟩
  | shutdownPending rest hl hpc hf | gracefulPending rest hl hpc hf =>
    exact hc.within rfl rfl rfl (by simp) rfl (by simp [hpc])
  | sleepPending rest deadline hs hpc hd =>
    exact hc.within rfl rfl rfl (by simp) rfl (by simp [hpc])
  | shutdownReady | gracefulLeave | sleepFired | requestClosed | acceptErr | serveReady =>
    exact .outside (by simp [leave]) (by simp [leave])
  | gracefulSkip | gracefulStart | requestSent =>
    exact .outside (by simp [enter]) (by simp [enter])
  | requestPending rest hl hpc hn =>
    -- the signal is there as soon as the service was called
    rw [hpc] at hp
    obtain ⟨⟨deadline, hs⟩, -⟩ := Stage.arms_firstRequest hp.1
    refine .silent (fun hcall => ?_) rfl (by simp)
    simp [hc.signalled deadline hs hcall] at hn
  | acceptPoll rest hl hpc =>
    rw [hpc] at hp
    obtain ⟨hs, rfl⟩ := Stage.arms_accept hp.1
    exact .silent (hc.fresh hs) rfl (by simp)
  | acceptPending rest hl hpc | servePending rest hl hpc =>
    rw [hpc] at hp
    obtain rfl : rest = [] := hp.1
    exact hc.within rfl rfl rfl (by simp) rfl (by simp [hpc])
  | servePoll rest hl hpc =>
    rw [hpc] at hp
    obtain ⟨hs, rfl⟩ := Stage.arms_serve hp.1
    exact hc.within rfl rfl rfl (by simp) rfl (by simp [hpc])
  | accepted rest hl hpc =>
    rw [hpc] at hp
    have hs : c.stage = .accepting := by simpa using hp.2
    exact .silent (hc.fresh hs) (serveConnection_log srv now c) (by simp)
  | serviceCall rest hl hpc hn =>
    rw [hpc] at hp
    have hserves : c.stage.serves = true := by simpa using hp.2
    refine hc.call rfl rfl rfl (fun hs => ?_)
      (fun deadline hs => firstRequestService_call (hcw.notify deadline hs) hn) rfl
    simp [hs, Stage.serves] at hserves
  | spawnStream => exact hc.within rfl rfl rfl (by simp) rfl fun rest hrest hm => ⟨rest, hrest, hm⟩
  | serviceDropped rest hl hpc hn =>
    -- no call, since its signal is not there
    rw [hpc] at hp
    have hserves : c.stage.serves = true := by simpa using hp.2
    by_cases hs : ∃ deadline, c.stage = .firstRequest deadline
    · obtain ⟨deadline, hs⟩ := hs
      refine .silent (fun hcall => ?_) rfl (by simp)
      simp [hc.signalled deadline hs hcall] at hn
    · refine .outside (fun ha => ?_) fun deadline hd => hs ⟨deadline, hd⟩
      have ha : c.stage = .accepting := ha
      simp [ha, Stage.serves] at hserves
  | drop | dropped => exact .outside (by simp) (by simp)

theorem Noticing.stream {x : StreamAnswer} (hc : c.Noticing) (hcw : c.WF h)
    (hr : StreamRule c x d evs) : (d.record now evs).Noticing := by
  cases hr with
  | call hs hn =>
    exact hc.call rfl rfl rfl (fun ha => by simp [hcw.streams ha] at hs)
      (fun deadline hst => firstRequestService_call (hcw.notify deadline hst) hn) rfl
  | drop => exact hc.within rfl rfl rfl (by simp) rfl fun rest hrest hm => ⟨rest, hrest, hm⟩

/-- The timeout has ended the task, when it was over and without a call in time. -/
def Spared (srv : Server A) (c : Conn A E B) : Prop :=
  ∀ v, (v, .ended .timeout) ∈ c.log → c.stage.live = false ∧
    ∀ u timeout, srv.firstRequestTimeout = some timeout → c.AcceptedAt u →
      u + timeout ≤ v ∧ ¬ c.CalledBefore (u + timeout)

theorem Spared.step (hc : c.Spared srv) (ht : c.Timed srv now) (hn : c.Noticing)
    (hG : TimerSeen h now c) (hr : Rule srv h now c k d evs) :
    (d.record now evs).Spared srv := by
  intro v hv
  rw [record_log hr.log, mem_stamp] at hv
  rcases hv with hv | ⟨rfl, hv⟩
  · obtain ⟨hl, hcalls⟩ := hc v hv
    obtain ⟨hl', hev⟩ := hr.of_not_live hl
    refine ⟨hl', fun u timeout hT hu => ?_⟩
    rw [acceptedAt_record hr.log, or_iff_left fun hm => by cases hev _ hm.2] at hu
    rw [calledBefore_record hr.log, or_iff_left fun ⟨_, e, he, hcall⟩ => by
      rw [hev e he] at hcall
      cases hcall]
    exact hcalls u timeout hT hu
  · cases hr with
    | sleepFired rest deadline hs hpc hd =>
      refine ⟨rfl, fun u timeout hT hu => ?_⟩
      rw [acceptedAt_record (c := c) (d := c.leave) rfl, or_iff_left (by simp)] at hu
      rw [calledBefore_record (c := c) (d := c.leave) rfl, or_iff_left (by simp)]
      obtain ⟨timeout', hT', hdl⟩ := ht.deadline deadline hs
      obtain rfl : timeout = timeout' := Option.some.inj (hT.symm.trans hT')
      rw [← hdl u hu]
      refine ⟨hd, fun hcall => ?_⟩
      have hone : c.pollsSinceCall ≤ 1 := by
        rcases hn.noticed deadline hs hcall.called with h0 | ⟨h1, -⟩ <;> omega
      exact absurd (hG deadline (by simp [hs, Stage.deadline]) (by simp [hpc, SelectPc.head])
        hcall hone) (not_lt.mpr hd)
    | acceptErr =>
      split at hv <;> simp at hv
    | _ => simp at hv

theorem Spared.stream {x : StreamAnswer} (hc : c.Spared srv) (ht : c.Timed srv now)
    (hr : StreamRule c x d evs) : (d.record now evs).Spared srv := by
  intro v hv
  have hnew : ∀ e ∈ evs, e.ofStream = true := hr.streams.1
  rw [record_log hr.log, mem_stamp, or_iff_left fun hm => by cases hnew _ hm.2] at hv
  obtain ⟨hl, hcalls⟩ := hc v hv
  refine ⟨hr.frame.1 ▸ hl, fun u timeout hT hu => ?_⟩
  rw [acceptedAt_record hr.log, or_iff_left fun hm => by cases hnew _ hm.2] at hu
  obtain ⟨hle, hno⟩ := hcalls u timeout hT hu
  rw [calledBefore_record hr.log]
  exact ⟨hle, not_or.mpr ⟨hno, fun hm => absurd (hle.trans (ht.past _ hv)) (not_le.mpr hm.1)⟩⟩

theorem placed_firstRequest {arm : Arm}
    (hp : Placed (.firstRequest deadline) (.next (arm :: rest))) :
    (.sleep ∈ rest ↔ arm = .shutdown ∨ arm = .graceful) ∧
      ((SelectPc.next rest).head = some .firstRequest ↔ arm = .sleep) := by
  have h := hp.1
  simp only [Stage.arms, List.suffix_cons_iff, List.cons.injEq, List.suffix_nil, reduceCtorEq,
    or_false] at h
  obtain ⟨rfl, rfl⟩ | ⟨rfl, rfl⟩ | ⟨rfl, rfl⟩ | ⟨rfl, rfl⟩ | ⟨rfl, rfl⟩ := h <;>
    simp [SelectPc.head]

/-- A task under the timeout `timeout`: it passes its timer in a poll, and leaves the
select of the timer for another one, only after a call in time. -/
structure Bounded (timeout : Duration) (c : Conn A E B) : Prop where
  sent : c.notify = some .sent → c.Called
  noticed : ∀ deadline, c.stage = .firstRequest deadline → c.pc.head = some .firstRequest →
    c.notify = some .sent → c.CalledBefore deadline
  ahead : ∀ deadline, c.stage = .firstRequest deadline → ∀ p, (p, .poll) ∈ c.log →
    deadline ≤ p → ∃ rest, c.pc = .next rest ∧ .sleep ∈ rest
  served : c.stage = .serving ∨ c.stage = .draining → ∀ u, c.AcceptedAt u →
    c.CalledBefore (u + timeout)

theorem CalledBefore.record (hc : c.CalledBefore deadline) (hlog : d.log = c.log) :
    (d.record now evs).CalledBefore deadline := (calledBefore_record hlog).mpr (.inl hc)

theorem Bounded.outside {timeout : Duration} (hc : c.Bounded timeout) (hlog : d.log = c.log)
    (hn : d.notify = some .sent → c.notify = some .sent) (hev : .accepted ∉ evs)
    (hs : ∀ deadline, d.stage ≠ .firstRequest deadline)
    (hserved : d.stage = .serving ∨ d.stage = .draining → ∀ u, c.AcceptedAt u →
      c.CalledBefore (u + timeout)) : (d.record now evs).Bounded timeout where
  sent h := (called_record hlog).mpr (.inl (hc.sent (hn h)))
  noticed deadline h := absurd h (hs deadline)
  ahead deadline h := absurd h (hs deadline)
  served h u hu := by
    rw [acceptedAt_record hlog, or_iff_left fun hm => hev hm.2] at hu
    exact (hserved h u hu).record hlog

theorem Bounded.within {timeout : Duration} (hc : c.Bounded timeout) (hlog : d.log = c.log)
    (hn : d.notify = c.notify) (hs : d.stage = c.stage) (hev : .accepted ∉ evs)
    (hnoticed : ∀ deadline, c.stage = .firstRequest deadline → d.pc.head = some .firstRequest →
      c.notify = some .sent → c.CalledBefore deadline)
    (hahead : ∀ deadline, c.stage = .firstRequest deadline → ∀ p,
      ((p, .poll) ∈ c.log ∨ .poll ∈ evs) → deadline ≤ p →
        ∃ rest, d.pc = .next rest ∧ .sleep ∈ rest) :
    (d.record now evs).Bounded timeout where
  sent h := (called_record hlog).mpr (.inl (hc.sent (hn ▸ h)))
  noticed deadline h hh hsent := (hnoticed deadline (hs ▸ h) hh (hn ▸ hsent)).record hlog
  ahead deadline h p hp := by
    rw [record_log hlog, mem_stamp] at hp
    exact hahead deadline (hs ▸ h) p (hp.imp id And.right)
  served h u hu := by
    rw [acceptedAt_record hlog, or_iff_left fun hm => hev hm.2] at hu
    exact (hc.served (hs ▸ h) u hu).record hlog

theorem Bounded.pass {timeout : Duration} {arm : Arm} (hc : c.Bounded timeout) (hcw : c.WF h)
    (hpc : c.pc = .next (arm :: rest)) (hd : d = { c with pc := .next rest })
    (harm : ∀ deadline, c.stage = .firstRequest deadline → arm = .sleep → now < deadline)
    (hpast : ∀ e ∈ c.log, e.1 ≤ now) : (d.record now []).Bounded timeout := by
  subst hd
  have hp : Placed c.stage (.next (arm :: rest)) := hpc ▸ hcw.placed
  refine hc.within rfl rfl rfl (by simp) (fun deadline hs hh hsent => ?_)
    fun deadline hs p hpoll hle => ⟨rest, rfl, ?_⟩
  · rw [hs] at hp
    have hlt := harm deadline hs ((placed_firstRequest hp).2.mp hh)
    obtain ⟨e, he, hcall⟩ := hc.sent hsent
    exact ⟨e, he, lt_of_le_of_lt (hpast e he) hlt, hcall⟩
  · rw [hs] at hp
    have hpoll := hpoll.resolve_right (by simp)
    obtain ⟨rest', hn, hm⟩ := hc.ahead deadline hs p hpoll hle
    obtain rfl := SelectPc.next.inj (hpc.symm.trans hn)
    rcases List.mem_cons.mp hm with rfl | hm
    · -- the timer is passed only before its deadline
      exact absurd (hle.trans (hpast _ hpoll)) (not_le.mpr (harm deadline hs rfl))
    · exact hm

/-- Behind the timer no poll began after the deadline. -/
theorem Bounded.behind {timeout : Duration} (hc : c.Bounded timeout) (hlog : d.log = c.log)
    (hs : d.stage = c.stage) (hev : .accepted ∉ evs) (hpoll : .poll ∉ evs)
    (hpc : ∀ rest, c.pc = .next rest → .sleep ∉ rest) (hhead : d.pc.head ≠ some .firstRequest)
    (hn : d.notify = some .sent → c.notify = some .sent ∨ ∃ e ∈ evs, e.calls = true) :
    (d.record now evs).Bounded timeout where
  sent h := (called_record hlog).mpr ((hn h).imp hc.sent id)
  noticed deadline _ hh := absurd hh hhead
  ahead deadline h p hp hle := by
    rw [record_log hlog, mem_stamp, or_iff_left fun hm => hpoll hm.2] at hp
    obtain ⟨rest, hnext, hm⟩ := hc.ahead deadline (hs ▸ h) p hp hle
    exact absurd hm (hpc rest hnext)
  served h u hu := by
    rw [acceptedAt_record hlog, or_iff_left fun hm => hev hm.2] at hu
    exact (hc.served (hs ▸ h) u hu).record hlog

theorem Bounded.serveConnection {timeout : Duration}
    (hT : srv.firstRequestTimeout = some timeout) :
    ((c.serveConnection srv now).record now evs).Bounded timeout := by
  have hst : (c.serveConnection srv now).stage = .firstRequest (now + timeout) := by
    simp [Conn.serveConnection, hT, enter]
  have hpc : (c.serveConnection srv now).pc = .next (Stage.firstRequest (now + timeout)).arms := by
    simp [Conn.serveConnection, hT, enter]
  have hnot : (c.serveConnection srv now).notify = some .empty := by
    simp [Conn.serveConnection, hT]
  refine ⟨fun h => ?_, fun deadline _ hh => ?_,
    fun deadline _ p _ _ => ⟨_, hpc, by simp [Stage.arms]⟩, fun h => ?_⟩
  · simp [record, hnot] at h
  · simp [record, hpc, Stage.arms, SelectPc.head] at hh
  · simp [record, hst] at h

theorem Bounded.step {timeout : Duration} (hT : srv.firstRequestTimeout = some timeout)
    (hc : c.Bounded timeout) (ht : c.Timed srv now) (hcw : c.WF h) (hG : TimerKept h now c)
    (hr : Rule srv h now c k d evs) : (d.record now evs).Bounded timeout := by
  have hp := hcw.placed
  have hinTime : ∀ deadline, c.stage = .firstRequest deadline → c.CalledBefore deadline →
      ∀ u, c.AcceptedAt u → c.CalledBefore (u + timeout) := by
    intro deadline hs hcall u hu
    obtain ⟨timeout', hT', hdl⟩ := ht.deadline deadline hs
    obtain rfl : timeout = timeout' := Option.some.inj (hT.symm.trans hT')
    exact hdl u hu ▸ hcall
  cases hr with
  | poll hl hpc =>
    refine hc.within rfl rfl rfl (by simp) (fun deadline hs hh => ?_)
      fun deadline hs _ _ _ => ⟨_, rfl, by simp [hs, Stage.arms]⟩
    simp [hs, Stage.arms, SelectPc.head] at hh
  | shutdownPending rest hl hpc hf | gracefulPending rest hl hpc hf | requestPending rest hl hpc =>
    exact hc.pass hcw hpc rfl (fun _ _ h => by cases h) ht.past
  | sleepPending rest deadline hs hpc hd =>
    exact hc.pass hcw hpc rfl
      (fun deadline' hs' _ => by cases Stage.firstRequest.inj (hs.symm.trans hs'); exact hd) ht.past
  | shutdownBusy rest f hl hpc hf | gracefulBusy rest f hl hpc hf =>
    exact hc.within rfl rfl rfl (by simp) (fun deadline hs hh => hc.noticed deadline hs hh)
      fun deadline hs p hpoll => hc.ahead deadline hs p (hpoll.resolve_right (by simp))
  | shutdownReady | gracefulLeave | sleepFired | requestClosed | serveReady =>
    exact hc.outside rfl id (by simp) (by simp [leave]) (by simp [leave])
  | acceptErr =>
    exact hc.outside rfl id (by split <;> simp) (by simp [leave]) (by simp [leave])
  | gracefulSkip rest deadline hs hpc hf =>
    exact hc.outside rfl id (by simp) (by simp [enter]) fun _ => hinTime deadline hs
      (hG deadline (by simp [hs, Stage.deadline]) (by simp [hpc, SelectPc.head]) hf)
  | gracefulStart rest hs hpc hf =>
    exact hc.outside rfl id (by simp) (by simp [enter]) fun _ => hc.served (.inl hs)
  | requestSent rest hl hpc hn =>
    rw [hpc] at hp
    obtain ⟨⟨deadline, hs⟩, -⟩ := Stage.arms_firstRequest hp.1
    exact hc.outside rfl id (by simp) (by simp [enter]) fun _ => hinTime deadline hs
      (hc.noticed deadline hs (by simp [hpc, SelectPc.head]) hn)
  | accepted rest hl hpc => exact .serveConnection hT
  | drop e e' hs hd => exact hc.outside rfl id (by simp) (by simp) (by simp)
  | dropped e hs hd => exact hc.outside rfl id (by simp) (by simp) (by simp)
  | serviceCall rest hl hpc hn =>
    exact hc.behind rfl rfl (by simp) (by simp) (by simp [hpc]) (by simp [hpc, SelectPc.head])
      fun _ => .inr (by simp)
  | spawnStream rest hl hpc =>
    exact hc.behind rfl rfl (by simp) (by simp) (by simp [hpc]) (by simp [hpc, SelectPc.head]) .inl
  | serviceDropped rest hl hpc hn =>
    exact hc.behind rfl rfl (by simp) (by simp) (by simp [hpc]) (by simp [hpc, SelectPc.head])
      fun h => by cases h
  | suspend hl hpc =>
    exact hc.behind rfl rfl (by simp) (by simp) (by simp [hpc]) (by simp [SelectPc.head]) .inl
  | acceptPending rest hl hpc | servePending rest hl hpc =>
    rw [hpc] at hp
    obtain rfl : rest = [] := hp.1
    exact hc.behind rfl rfl (by simp) (by simp) (by simp [hpc]) (by simp [SelectPc.head]) .inl
  | acceptPoll rest hl hpc =>
    rw [hpc] at hp
    obtain ⟨hs, rfl⟩ := Stage.arms_accept hp.1
    exact hc.behind rfl rfl (by simp) (by simp) (by simp [hpc]) (by simp [SelectPc.head]) .inl
  | servePoll rest hl hpc =>
    rw [hpc] at hp
    obtain ⟨hs, rfl⟩ := Stage.arms_serve hp.1
    exact hc.behind rfl rfl (by simp) (by simp) (by simp [hpc]) (by simp [SelectPc.head]) .inl

theorem Bounded.stream {timeout : Duration} {x : StreamAnswer} (hc : c.Bounded timeout)
    (hS : x = .call → SignalKept h now c) (hr : StreamRule c x d evs) :
    (d.record now evs).Bounded timeout := by
  have hnew : ∀ e ∈ evs, e.ofStream = true := hr.streams.1
  cases hr with
  | drop =>
    exact hc.within rfl rfl rfl (by simp) (fun deadline hs hh => hc.noticed deadline hs hh)
      fun deadline hs p hpoll => hc.ahead deadline hs p (hpoll.resolve_right (by simp))
  | call hs hn =>
    refine ⟨fun _ => (called_record rfl).mpr (.inr (by simp)), fun deadline hst hh _ => ?_,
      fun deadline hst p hp => ?_, fun hst u hu => ?_⟩
    · have hst : c.stage = .firstRequest deadline := hst
      have hlt := hS rfl deadline (by simp [hst, Stage.deadline]) hh
      exact (calledBefore_record rfl).mpr (hlt.symm.imp_right fun hlt => ⟨hlt, by simp⟩)
    · have hp : (p, .poll) ∈ stamp now c.log [.streamCall] := hp
      rw [mem_stamp, or_iff_left (by simp)] at hp
      exact hc.ahead deadline hst p hp
    · rw [acceptedAt_record rfl, or_iff_left (by simp)] at hu
      exact (hc.served hst u hu).record rfl

end

end Conn

namespace State
variable {srv : Server A} {P : State A E B → Action A E B → Prop} {s t : State A E B}
  {c : Conn A E B} {u p : Instant} {timeout : Duration}

theorem timed_spawned (srv : Server A) (now : Instant) (addr : A) :
    ({ remoteAddr := addr } : Conn A E B).Timed srv now :=
  ⟨by simp, by simp [Conn.AcceptedAt], by simp⟩

theorem noticing_spawned (addr : A) : ({ remoteAddr := addr } : Conn A E B).Noticing :=
  ⟨by simp [Conn.Called], by simp, by simp⟩

theorem spared_invariant (srv : Server A) :
    TaskInvariant srv Conn.TimerSeen AnyTask fun _ now (d : Conn A E B) =>
      d.Timed srv now ∧ d.Noticing ∧ d.Spared srv where
  mono _ hle hd := ⟨hd.1.mono hle, hd.2⟩
  step _ hcw hG hr hd := ⟨hd.1.step hcw hr, hd.2.1.step hcw hr, hd.2.2.step hd.1 hd.2.1 hG hr⟩
  stream hcw _ hr hd := ⟨hd.1.stream hr, hd.2.1.stream hcw hr, hd.2.2.stream hd.1 hr⟩

theorem bounded_invariant {srv : Server A} (hT : srv.firstRequestTimeout = some timeout) :
    TaskInvariant srv Conn.TimerKept Conn.SignalKept fun _ now (d : Conn A E B) =>
      d.Timed srv now ∧ d.Bounded timeout where
  mono _ hle hd := ⟨hd.1.mono hle, hd.2⟩
  step _ hcw hG hr hd := ⟨hd.1.step hcw hr, hd.2.step hT hd.1 hcw hG hr⟩
  stream _ hS hr hd := ⟨hd.1.stream hr, hd.2.stream hS hr⟩

/-- The timer is left neither for the graceful signal nor for a call of a stream task, unless
the service was called in time. -/
def TimeoutKept (s : State A E B) (a : Action A E B) : Prop :=
  EachTask Conn.TimerKept s a ∧ EachStreamCall Conn.SignalKept s a

instance (s : State A E B) (a : Action A E B) : Decidable (TimeoutKept s a) :=
  inferInstanceAs (Decidable (_ ∧ _))

/-- If the first look of a task at its timer after a call of its service in time always comes
before the deadline, then no task with such a call ends through the timeout, however late
its later polls are. -/
theorem timeout_spares_dispatched (hr : ReachableIf srv (EachTask Conn.TimerSeen) s)
    (hT : srv.firstRequestTimeout = some timeout) (hc : c ∈ s.tasks) (hu : c.AcceptedAt u)
    (hcall : c.CalledBefore (u + timeout)) : ∀ v, (v, .ended .timeout) ∉ c.log := by
  intro v hv
  have hI := (spared_invariant srv).forall_tasks
    (fun _ now addr => ⟨timed_spawned srv now addr, noticing_spawned addr, by simp [Conn.Spared]⟩)
    hr (fun _ _ h => h) eachStreamCall_any
  exact (((hI c hc).2.2 v hv).2 u timeout hT hu).2 hcall

def timedServer : Server ℕ := { listener := .ready, firstRequestTimeout := some 5 }

/-- A connection up to the first poll of hyper, under a first request timeout. -/
def firstPollSchedule : List (Action ℕ Unit Unit) :=
  Action.listen (some 0) ++ Action.connect 1 ++ Action.handshake 0 ++
    List.replicate 9 (Action.task 0 .go)

/-- The service is called at once; the task is polled again in time, and once more
when the timeout is over. -/
def seenSchedule : List (Action ℕ Unit Unit) :=
  firstPollSchedule ++ [Action.task 0 .serviceCall, .task 0 .pending] ++
    List.replicate 13 (Action.task 0 .go) ++
    [Action.task 0 .pending, .task 0 .go, .tick 5] ++ List.replicate 4 (Action.task 0 .go) ++
    [Action.task 0 .pending, .task 0 .go]

/-- The service is called at once; the task is polled again when the timeout is over. -/
def overdueSchedule : List (Action ℕ Unit Unit) :=
  firstPollSchedule ++ [Action.task 0 .serviceCall, .task 0 .pending, .task 0 .go, .tick 5] ++
    List.replicate 4 (Action.task 0 .go)

def seenTask : Conn ℕ Unit Unit where
  remoteAddr := 1
  stage := .serving
  shutdown := .waiting 0
  graceful := .waiting 0
  notify := some .sent
  log := [(0, .poll), (0, .acceptPoll), (0, .accepted), (0, .serveConnection true),
    (0, .servePoll), (0, .serviceCall), (0, .pending), (0, .poll), (0, .servePoll), (0, .pending),
    (5, .poll), (5, .servePoll), (5, .pending)]

theorem timeout_spares_dispatched_seen : (5, .ended .timeout) ∉ seenTask.log :=
  timeout_spares_dispatched (u := 0)
    (reachable_after timedServer (EachTask Conn.TimerSeen) seenSchedule)
    (rfl : timedServer.firstRequestTimeout = some 5) (by decide) (by decide) (by decide) 5

/-- A request that was dispatched at once is dropped by the timeout. -/
theorem timeout_drops_request :
    Reachable timedServer (after timedServer overdueSchedule) ∧
    ∃ c ∈ (after timedServer overdueSchedule).tasks,
      c.AcceptedAt 0 ∧ c.CalledBefore (0 + 5) ∧ (5, .ended .timeout) ∈ c.log :=
  ⟨reachable_after _ _ overdueSchedule, by decide⟩

/-- If no task without a call in time leaves the select with the timer for another one, then
a task whose service was not called in time is finished after any poll that begins at or
after the deadline. -/
theorem timeout_ends_silent (hr : ReachableIf srv TimeoutKept s)
    (hT : srv.firstRequestTimeout = some timeout) (hc : c ∈ s.tasks) (hu : c.AcceptedAt u)
    (hcall : ¬ c.CalledBefore (u + timeout)) (hp : (p, .poll) ∈ c.log) (hle : u + timeout ≤ p)
    (hidle : c.pc = .idle) : c.stage = .finished := by
  obtain ⟨ht, hb⟩ := (bounded_invariant hT).forall_tasks
    (fun _ now addr => ⟨timed_spawned srv now addr, by simp, by simp, by simp, by simp⟩) hr
    (fun _ _ h => h.1) (fun _ _ h => h.2) c hc
  have hplaced := ((ReachableIf.wf hr).tasks c hc).placed
  cases hst : c.stage with
  | accepting => exact absurd hu (ht.accepting hst u)
  | firstRequest deadline =>
    obtain ⟨timeout', hT', hdl⟩ := ht.deadline deadline hst
    obtain rfl : timeout = timeout' := Option.some.inj (hT.symm.trans hT')
    obtain ⟨rest, hn, -⟩ := hb.ahead deadline hst p hp (hdl u hu ▸ hle)
    simp [hidle] at hn
  | serving => exact absurd (hb.served (.inl hst) u hu) hcall
  | draining => exact absurd (hb.served (.inr hst) u hu) hcall
  | dropping d =>
    rw [hst, hidle] at hplaced
    rcases hplaced with h | h <;> cases h
  | finished => rfl

/-- A silent client whose connection is polled when the timeout is over. -/
def silentSchedule : List (Action ℕ Unit Unit) :=
  firstPollSchedule ++ [Action.task 0 .pending, .task 0 .go, .tick 5] ++
    List.replicate 6 (Action.task 0 .go)

/-- The graceful signal comes before the timeout is over; hyper waits for the rest of a
request. -/
def forgottenSchedule : List (Action ℕ Unit Unit) :=
  firstPollSchedule ++ [Action.task 0 .pending, .task 0 .go] ++
    Action.callNow 0 (.gracefulShutdown none) 3 ++ List.replicate 9 (Action.task 0 .go) ++
    [Action.task 0 .pending, .task 0 .go, .tick 5] ++ List.replicate 3 (Action.task 0 .go) ++
    [Action.task 0 .pending, .task 0 .go]

def silentTask : Conn ℕ Unit Unit where
  remoteAddr := 1
  stage := .finished
  shutdown := .waiting 0
  graceful := .waiting 0
  notify := some .empty
  log := [(0, .poll), (0, .acceptPoll), (0, .accepted), (0, .serveConnection true),
    (0, .servePoll), (0, .pending), (5, .poll), (5, .ended .timeout), (5, .finished)]

theorem timeout_ends_silent_one : silentTask.stage = .finished :=
  timeout_ends_silent (u := 0) (p := 5)
    (reachable_after timedServer TimeoutKept silentSchedule)
    (rfl : timedServer.firstRequestTimeout = some 5)
    (by decide) (by decide) (by decide) (by decide) (by decide) (by decide)

/-- After the graceful signal nothing bounds a connection whose request is incomplete: the
poll at the deadline leaves it alive. -/
theorem silent_outlives_timeout :
    Reachable timedServer (after timedServer forgottenSchedule) ∧
    ∃ c ∈ (after timedServer forgottenSchedule).tasks,
      c.AcceptedAt 0 ∧ ¬ c.CalledBefore (0 + 5) ∧ (5, .poll) ∈ c.log ∧ c.pc = .idle ∧
        c.stage ≠ .finished :=
  ⟨reachable_after _ _ forgottenSchedule, by decide⟩

end State

end AxumServer
