import AxumServer.Server.Threads

/-! # Accept errors

What a run tells about failed attempts to accept a connection: in the loop, where
`accept_stream` and `make_service` fail, and in the tasks, where the acceptor does.
A ledger of the accepted connections attributes each call of the accept error handler
to the connection in whose turn or task it was made.
-/

namespace AxumServer

open Interleaving

variable {A E B : Type}

namespace ServeEvent

def call : ServeEvent A E B → Option (Option A × IoError E B)
  | .acceptErrorHandler addr error => some (addr, error)
  | _ => none

/-- A failure in the accept loop, as it should be reported. -/
def failure : ServeEvent A E B → Option (Option A × IoError E B)
  | .acceptErr error => some (none, error)
  | .makeErr addr error => some (some addr, ioOther error)
  | _ => none

def connection : ServeEvent A E B → Option A
  | .accepted addr => some addr
  | _ => none

/-- The answers of `accept_stream`, and the end of a back-off. -/
def streams : ServeEvent A E B → Bool
  | .accepted _ => true
  | .acceptErr _ => true
  | .backoffElapsed => true
  | _ => false

end ServeEvent

namespace Serve

/-- After an error of `accept_stream`, its next answer waits for the end of a back-off. -/
def BacksOff (a b : Instant × ServeEvent A E B) : Prop :=
  ∀ e, a.2 = .acceptErr e → b.2 = .backoffElapsed ∧ a.1 + backoff ≤ b.1

/-- The last answer of `accept_stream` allows `serve` to be where it is. -/
def BackedOff (last : Option (Instant × ServeEvent A E B)) : ServeStage A E B → Prop
  | .select (.backoff deadline) =>
    ∀ t e, last = some (t, .acceptErr e) → t + backoff ≤ deadline
  | .draining _ => True
  | .returned _ => True
  | _ => ∀ t e, last ≠ some (t, .acceptErr e)

/-- What the history of `serve` says about failures. -/
structure Reporting (s : Serve A E B) : Prop where
  /-- The calls of the handler are the failures, one for one. -/
  calls : notes ServeEvent.call s.log = notes ServeEvent.failure s.log
  backoff : (select ServeEvent.streams s.log).IsChain BacksOff
  backedOff : BackedOff (select ServeEvent.streams s.log).getLast? s.stage
  /-- Each call of `make_service` follows its own `poll_ready`. -/
  ready : FollowsAt (· = .ready) (fun e => ∃ addr, e = .makeService addr) s.log

section
variable {srv : Server A} {h k : Handle A} {now : Instant} {s t : Serve A E B}
  {x : ServeAnswer A E B} {cs : List (Conn A E B)} {evs : List (ServeEvent A E B)}

theorem Reporting.init : ({} : Serve A E B).Reporting :=
  ⟨rfl, .nil, fun _ _ h => by simp [select] at h, .nil⟩

theorem Reporting.quiet (hs : s.Reporting) (hlog : t.log = s.log)
    (hcall : evs.filterMap ServeEvent.call = evs.filterMap ServeEvent.failure)
    (hstream : evs.filter ServeEvent.streams = [])
    (hready : FollowsAt (· = .ready) (fun e => ∃ addr, e = .makeService addr)
      (stamp now s.log evs))
    (hback : BackedOff (select ServeEvent.streams s.log).getLast? t.stage) :
    (t.record now evs).Reporting := by
  have hsel : select ServeEvent.streams (t.record now evs).log =
      select ServeEvent.streams s.log := by
    rw [record_log hlog, select_stamp, hstream, stamp_nil]
  constructor
  · rw [record_log hlog, notes_stamp, notes_stamp, hs.calls, hcall]
  · rw [hsel]
    exact hs.backoff
  · rw [hsel]
    exact hback
  · rw [record_log hlog]
    exact hready

theorem Reporting.stream {e : ServeEvent A E B} (hs : s.Reporting) (hlog : t.log = s.log)
    (hcall : evs.filterMap ServeEvent.call = evs.filterMap ServeEvent.failure)
    (hstream : evs.filter ServeEvent.streams = [e])
    (hready : ∀ e ∈ evs, ¬ ∃ addr, e = .makeService addr)
    (hlink : ∀ a ∈ (select ServeEvent.streams s.log).getLast?, BacksOff a (now, e))
    (hback : BackedOff (some (now, e)) t.stage) : (t.record now evs).Reporting := by
  have hsel : select ServeEvent.streams (t.record now evs).log =
      select ServeEvent.streams s.log ++ [(now, e)] := by
    rw [record_log hlog, select_stamp, hstream]
    rfl
  constructor
  · rw [record_log hlog, notes_stamp, notes_stamp, hs.calls, hcall]
  · rw [hsel]
    apply hs.backoff.append (.singleton _)
    intro a ha b hb
    obtain rfl : (now, e) = b := Option.some.inj hb
    exact hlink a ha
  · rw [hsel, List.getLast?_concat]
    exact hback
  · rw [record_log hlog]
    exact hs.ready.stamp hready now

theorem backsOff_of_ne {last : Option (Instant × ServeEvent A E B)} {b : Instant × ServeEvent A E B}
    (h : ∀ t e, last ≠ some (t, .acceptErr e)) : ∀ a ∈ last, BacksOff a b := by
  intro a ha e he
  have hlast : last = some (a.1, .acceptErr e) := by rw [Option.mem_def.mp ha, ← he]
  exact absurd hlast (h a.1 e)

/-- An operation of `serve` reports the failure that it meets, and no other. -/
theorem Rule.reporting (hr : Rule srv h now s x k t cs evs)
    (hsrv : srv.acceptErrorHandler = true) (hw : s.WF h) (hs : s.Reporting) :
    (t.record now evs).Reporting := by
  have hlog := hr.log
  have hback := hs.backedOff
  have hready := hs.ready
  cases hr with
  | poll | suspend | bindPending | shutdownBusy | shutdownPending | gracefulBusy
  | gracefulPending | connEndBusy | connEndPending | acceptPending | backoffPending
  | readyPending | makePending | sleepPending =>
    exact hs.quiet hlog rfl rfl (hready.stamp (by simp) now) hback
  | shutdownReady | gracefulReady | readyErr | connEndReady | graceExpired =>
    exact hs.quiet hlog rfl rfl (hready.stamp (by simp) now) trivial
  | bindFailed | countZero | countPos | timed | untimed | shutdownStore | shutdownWake =>
    exact hs.quiet hlog rfl rfl (hready.stamp (by simp) now) trivial
  | bound x rest ha hpc | bindErr rest e ha hpc =>
    have hp := hw.placed
    rw [hpc] at hp
    rw [ServeStage.eq_bind_of_arm hp.1] at hback
    exact hs.quiet hlog rfl rfl (hready.stamp (by simp) now) hback
  | localAddr addr hst | setAddr addr failed hst | addrStore failed hst | listening hst
  | watcher addr hst | spawn addr hst | made rest addr hst =>
    rw [hst] at hback
    exact hs.quiet hlog rfl rfl (hready.stamp (by simp) now) hback
  | ready rest addr hst =>
    rw [hst] at hback
    exact hs.quiet hlog rfl rfl (hready.stamp_pair rfl (by simp) now) hback
  | makeErr rest addr e hst =>
    rw [hst] at hback
    simp only [report, hsrv, if_true]
    exact hs.quiet hlog rfl rfl (hready.stamp (by simp) now) hback
  | accepted rest addr hst =>
    rw [hst] at hback
    exact hs.stream hlog rfl rfl (by simp) (backsOff_of_ne hback) (fun _ _ h => by simp at h)
  | acceptErr rest e hst =>
    rw [hst] at hback
    simp only [report, hsrv, if_true]
    refine hs.stream hlog rfl rfl (by simp) (backsOff_of_ne hback) (fun t' e' heq => ?_)
    obtain ⟨rfl, -⟩ := Prod.mk.inj (Option.some.inj heq)
    exact le_rfl
  | backoffElapsed rest deadline hst hpc hd =>
    rw [hst] at hback
    refine hs.stream hlog rfl rfl (by simp) (fun a ha e he => ?_) (fun _ _ h => by simp at h)
    -- the back-off began with the last answer
    refine ⟨rfl, (hback a.1 e ?_).trans hd⟩
    rw [Option.mem_def.mp ha, ← he]

/-- A failed `accept_stream` or `make_service` leaves `serve` in its accept loop. -/
theorem Rule.inLoop (hr : Rule srv h now s x k t cs evs)
    (hx : (∃ e, x = .acceptErr e) ∨ ∃ e, x = .makeErr e) : t.stage.inLoop = true := by
  rcases hx with ⟨e, rfl⟩ | ⟨e, rfl⟩
  · cases hr with
    | bound x rest ha hpc hx => simp at hx
    | acceptErr rest => rfl
  · cases hr with
    | bound x rest ha hpc hx => simp at hx
    | makeErr rest => rfl

theorem reporting_invariant (hsrv : srv.acceptErrorHandler = true) :
    State.ServeInvariant srv State.AnyAnswer fun _ _ (s : Serve A E B) => s.Reporting where
  mono _ _ hs := hs
  step _ hw _ hr hs := hr.reporting hsrv hw hs

end

end Serve

/-! ## The tasks -/

namespace ConnEvent

def call : ConnEvent A E B → Option (Option A × IoError E B)
  | .acceptErrorHandler addr error => some (addr, error)
  | _ => none

def ending : ConnEvent A E B → Option Ending
  | .ended reason => some reason
  | _ => none

end ConnEvent

def ConnAnswer.acceptError : ConnAnswer E B → Option (IoError E B)
  | .acceptErr error => some error
  | _ => none

namespace Conn

/-- The calls of the accept error handler that the task has made. -/
def calls (c : Conn A E B) : List (Option A × IoError E B) := notes ConnEvent.call c.log

/-- The task calls the handler when its acceptor fails, and tells why it ends once. -/
structure Concluding (c : Conn A E B) : Prop where
  live : c.stage.live = true → notes ConnEvent.ending c.log = [] ∧ c.calls = []
  past : c.stage.live = false → ∃ reason, notes ConnEvent.ending c.log = [reason] ∧
    (reason = .acceptError ∧ (∃ e, c.calls = [(some c.remoteAddr, e)]) ∨
      reason ≠ .acceptError ∧ c.calls = [])

section
variable {srv : Server A} {h k : Handle A} {now : Instant} {c d : Conn A E B}
  {x : ConnAnswer E B} {evs : List (ConnEvent A E B)}

theorem Rule.remoteAddr (hr : Rule srv h now c k d evs) : d.remoteAddr = c.remoteAddr := by
  cases hr with
  | accepted rest =>
    unfold serveConnection
    split <;> rfl
  | _ => rfl

theorem StreamRule.remoteAddr {y : StreamAnswer} (hr : StreamRule c y d evs) :
    d.remoteAddr = c.remoteAddr := by
  cases hr <;> rfl

theorem serveConnection_live (srv : Server A) (now : Instant) (c : Conn A E B) :
    (c.serveConnection srv now).stage.live = true := by
  unfold serveConnection
  split <;> rfl

theorem step_of_live (hl : c.stage.live = true) :
    c.step srv h now x = (c.selectStep srv h now x).map fun r => (h, r) := by
  unfold step
  split
  next hst => simp [hst, Stage.live] at hl
  next hst => simp [hst, Stage.live] at hl
  next hst _ => simp [hst, Stage.live] at hl
  next => rfl

theorem inside_of_acceptErr {e : IoError E B}
    (hs : c.step srv h now (.acceptErr e) = some (k, d, evs)) :
    ∃ rest, c.stage.live = true ∧ c.pc = .inside .accept rest := by
  have hl : c.stage.live = true := by
    cases hst : c.stage <;> simp [step, hst] at hs ⊢ <;> rfl
  rw [step_of_live hl] at hs
  cases hpc : c.pc with
  | idle => simp [selectStep, hpc] at hs
  | next rest => cases rest <;> simp [selectStep, hpc] at hs
  | inside arm rest =>
    cases arm <;> simp [selectStep, hpc, inArm] at hs ⊢
    exact hl

/-- An operation calls the handler for the error that its acceptor gives, if it gives one. -/
theorem calls_of_step (hsrv : srv.acceptErrorHandler = true)
    (hs : c.step srv h now x = some (k, d, evs)) :
    evs.filterMap ConnEvent.call =
      x.acceptError.toList.map fun e => (some c.remoteAddr, e) := by
  have inside : ∀ {rest : List Arm}, c.stage.live = true → c.pc = .inside .accept rest →
      (c.inArm srv now rest .accept x).map (fun r => (h, r)) = some (k, d, evs) := by
    intro rest hl hpc
    rw [step_of_live hl] at hs
    simpa [selectStep, hpc] using hs
  cases x with
  | acceptErr e =>
    obtain ⟨rest, hl, hpc⟩ := inside_of_acceptErr hs
    have hin := inside hl hpc
    simp only [inArm, hsrv, if_true, Option.map_some, Option.some.injEq, Prod.mk.injEq] at hin
    obtain ⟨-, -, rfl⟩ := hin
    rfl
  | _ =>
    cases rule_of_step hs with
    | acceptErr rest e hl hpc =>
      have hin := inside hl hpc
      simp [inArm, hsrv] at hin
    | _ => rfl

/-- A task calls the handler at most once, with its own address. -/
theorem Concluding.calls_le (hc : c.Concluding) :
    c.calls = [] ∨ ∃ e, c.calls = [(some c.remoteAddr, e)] := by
  cases hl : c.stage.live with
  | true => exact .inl (hc.live hl).2
  | false =>
    obtain ⟨reason, -, ⟨-, hcalls⟩ | ⟨-, hcalls⟩⟩ := hc.past hl
    · exact .inr hcalls
    · exact .inl hcalls

theorem Concluding.calls_of_ended (hc : c.Concluding) {reason : Ending}
    (hmem : (now, .ended reason) ∈ c.log) (hne : reason ≠ .acceptError) : c.calls = [] := by
  have hends : reason ∈ notes ConnEvent.ending c.log := List.mem_filterMap.mpr ⟨_, hmem, rfl⟩
  cases hl : c.stage.live with
  | true =>
    rw [(hc.live hl).1] at hends
    cases hends
  | false =>
    obtain ⟨r, hr, ⟨rfl, -⟩ | ⟨-, hcalls⟩⟩ := hc.past hl
    · rw [hr] at hends
      exact absurd (List.mem_singleton.mp hends) hne
    · exact hcalls

theorem Concluding.quiet (hc : c.Concluding) (hlog : d.log = c.log)
    (haddr : d.remoteAddr = c.remoteAddr) (hlive : d.stage.live = c.stage.live)
    (hcall : evs.filterMap ConnEvent.call = [])
    (hend : evs.filterMap ConnEvent.ending = []) : (d.record now evs).Concluding := by
  have hcalls : (d.record now evs).calls = c.calls := by
    rw [calls, record_log hlog, notes_stamp, hcall, List.append_nil, calls]
  have hends : notes ConnEvent.ending (d.record now evs).log = notes ConnEvent.ending c.log := by
    rw [record_log hlog, notes_stamp, hend, List.append_nil]
  refine ⟨fun hl => ?_, fun hl => ?_⟩
  · rw [hends, hcalls]
    exact hc.live (hlive.symm.trans hl)
  · rw [hends, hcalls]
    have := hc.past (hlive.symm.trans hl)
    rwa [← haddr] at this

theorem Concluding.leave (hc : c.Concluding) (hl : c.stage.live = true) {reason : Ending}
    (hend : evs.filterMap ConnEvent.ending = [reason])
    (hcall : reason = .acceptError ∧
        (∃ e, evs.filterMap ConnEvent.call = [(some c.remoteAddr, e)]) ∨
      reason ≠ .acceptError ∧ evs.filterMap ConnEvent.call = []) :
    (c.leave.record now evs).Concluding := by
  obtain ⟨hends, hcalls⟩ := hc.live hl
  have hlog : c.leave.log = c.log := rfl
  have hcalls' : (c.leave.record now evs).calls = evs.filterMap ConnEvent.call := by
    rw [calls, record_log hlog, notes_stamp, ← calls, hcalls, List.nil_append]
  refine ⟨fun hlive => (by cases hlive), fun _ => ⟨reason, ?_, ?_⟩⟩
  · rw [record_log hlog, notes_stamp, hends, hend, List.nil_append]
  · rw [hcalls']
    exact hcall

theorem Rule.concluding (hr : Rule srv h now c k d evs) (hsrv : srv.acceptErrorHandler = true)
    (hc : c.Concluding) : (d.record now evs).Concluding := by
  have hlog := hr.log
  have haddr := hr.remoteAddr
  cases hr with
  | shutdownReady rest hl | requestClosed rest hl | serveReady rest hl =>
    exact hc.leave hl rfl (.inr ⟨by simp, rfl⟩)
  | gracefulLeave rest hs | sleepFired rest deadline hs =>
    exact hc.leave (by rw [hs]; rfl) rfl (.inr ⟨by simp, rfl⟩)
  | acceptErr rest e hl =>
    simp only [hsrv, if_true]
    exact hc.leave hl rfl (.inl ⟨rfl, e, rfl⟩)
  | accepted rest hl =>
    exact hc.quiet hlog haddr ((serveConnection_live srv now c).trans hl.symm) rfl rfl
  | gracefulSkip rest deadline hs | gracefulStart rest hs =>
    exact hc.quiet hlog haddr (by rw [hs]; rfl) rfl rfl
  | requestSent rest hl => exact hc.quiet hlog haddr hl.symm rfl rfl
  | drop e e' hs | dropped e hs => exact hc.quiet hlog haddr (by rw [hs]; rfl) rfl rfl
  | _ => exact hc.quiet hlog haddr rfl rfl rfl

theorem StreamRule.concluding {y : StreamAnswer} (hr : StreamRule c y d evs)
    (hc : c.Concluding) : (d.record now evs).Concluding := by
  cases hr <;> exact hc.quiet rfl rfl rfl rfl rfl

theorem concluding_invariant (hsrv : srv.acceptErrorHandler = true) :
    State.TaskInvariant srv State.AnyTask State.AnyTask fun _ _ (c : Conn A E B) =>
      c.Concluding where
  mono _ _ hc := hc
  step _ _ _ hr hc := hr.concluding hsrv hc
  stream _ _ hr hc := hr.concluding hc

end

end Conn

end AxumServer
