import AxumServer.Server.Basic

/-! # The task of one connection

The body of the task that `serve` spawns for each connection, one operation at a
time: its four biased selects, the first request timeout between them, and the
drop of its `Watcher`. What the acceptor future and hyper's connection future
answer is chosen by the environment.

Hyper serves an HTTP/2 request in a task of its own, which it spawns on the executor of
the builder. Such a stream task owns a clone of the service, and runs between two polls
of the connection task as well as after its end.
-/

namespace AxumServer

variable {A E B : Type}

/-- The arms of the selects of a connection task. -/
inductive Arm where
  | shutdown
  | graceful
  | sleep
  | firstRequest
  | accept
  | serve
  deriving DecidableEq, Repr

/-- Where the body of the task stands. -/
inductive Stage where
  /-- The select around the acceptor. -/
  | accepting
  /-- The select that waits for the first request, with the deadline of its timer. -/
  | firstRequest (deadline : Instant)
  /-- The select that serves the connection. -/
  | serving
  /-- The inner select, after hyper was told to shut down gracefully. -/
  | draining
  /-- The body has returned and dropped its futures; its `Watcher` is being dropped. -/
  | dropping (d : WatcherDrop)
  | finished
  deriving DecidableEq, Repr

namespace Stage

/-- The arms of each select, in source order. -/
def arms : Stage → List Arm
  | .accepting => [.shutdown, .graceful, .accept]
  | .firstRequest _ => [.shutdown, .graceful, .sleep, .firstRequest, .serve]
  | .serving => [.graceful, .shutdown, .serve]
  | .draining => [.shutdown, .serve]
  | .dropping _ => []
  | .finished => []

def live : Stage → Bool
  | .dropping _ => false
  | .finished => false
  | _ => true

/-- The task owns a future of hyper's `serve_connection`. -/
def serves : Stage → Bool
  | .firstRequest _ => true
  | .serving => true
  | .draining => true
  | _ => false

end Stage

/-- Why the body of the task returned. -/
inductive Ending where
  | shutdown
  | graceful
  | acceptError
  | timeout
  /-- The sender of the first request signal was dropped. -/
  | closed
  | served
  deriving DecidableEq, Repr

/-- What a task does that others can see. -/
inductive ConnEvent (A E B : Type) where
  | poll
  | pending
  | acceptPoll
  | accepted
  | acceptErrorHandler (addr : Option A) (error : IoError E B)
  | serveConnection (upgrades : Bool)
  | servePoll
  | serviceCall
  | spawnStream
  /-- A stream task calls the service. -/
  | streamCall
  | serveReady
  /-- `graceful_shutdown` of hyper's connection future. -/
  | gracefulShutdown
  | ended (reason : Ending)
  | finished
  deriving DecidableEq, Repr

/-- What the outside answers to an operation of the task. -/
inductive ConnAnswer (E B : Type) where
  /-- The operation asks nothing. -/
  | go
  | pending
  | accepted
  | acceptErr (error : IoError E B)
  /-- In a poll of hyper's future: the service is called with a request. -/
  | serviceCall
  /-- In a poll of hyper's future: a stream task is spawned for a request. -/
  | spawnStream
  /-- In a poll of hyper's future: the last clone of the service is dropped. -/
  | serviceDropped
  | ready
  deriving DecidableEq, Repr

/-- How a stream task comes to the end of its clone of the service. -/
inductive StreamAnswer where
  /-- Its first poll calls the service. -/
  | call
  /-- It is dropped before. -/
  | drop
  deriving DecidableEq, Repr

/-- A connection task. The history `log` is written by every step and read by none. -/
structure Conn (A E B : Type) where
  remoteAddr : A
  stage : Stage := .accepting
  pc : SelectPc Arm := .idle
  /-- The `wait_shutdown()` future of the current select. -/
  shutdown : Notified := .created
  /-- The `wait_graceful_shutdown()` future of the current select. -/
  graceful : Notified := .created
  /-- The channel between `FirstRequestService` and the task. -/
  notify : Option Oneshot := none
  /-- The stream tasks that have not called the service yet. -/
  streams : ℕ := 0
  log : List (Instant × ConnEvent A E B) := []
  deriving DecidableEq, Repr

/-- `FirstRequestService::call` up to the call of the inner service: the sender is
taken and used by the first call. -/
def FirstRequestService.call : Option Oneshot → Option Oneshot
  | some .empty => some .sent
  | notify => notify

namespace Conn

/-- Start a select: its futures are made and the arms are polled in order. -/
def enter (c : Conn A E B) (stage : Stage) : Conn A E B :=
  { c with stage := stage, pc := .next stage.arms, shutdown := .created, graceful := .created }

/-- The body returns: its futures are dropped, then the `Watcher`. -/
def leave (c : Conn A E B) : Conn A E B :=
  { c with stage := .dropping .fetchSub, pc := .next [] }

/-- After the acceptor: hand the stream to hyper and arm the first request timeout. -/
def serveConnection (srv : Server A) (now : Instant) (c : Conn A E B) : Conn A E B :=
  match srv.firstRequestTimeout with
  | some timeout => { c.enter (.firstRequest (now + timeout)) with notify := some .empty }
  | none => { c.enter .serving with notify := none }

def onGraceful (c : Conn A E B) : Option (Conn A E B × List (ConnEvent A E B)) :=
  match c.stage with
  | .accepting => some (c.leave, [.ended .graceful])
  | .firstRequest _ => some (c.enter .serving, [])
  | .serving => some (c.enter .draining, [.gracefulShutdown])
  | _ => none

/-- Poll the arm at the head of the current select. -/
def pollArm (h : Handle A) (now : Instant) (c : Conn A E B) (rest : List Arm) :
    Arm → Option (Conn A E B × List (ConnEvent A E B))
  | .shutdown =>
    match h.shutdown.poll c.shutdown with
    | .busy f => some ({ c with shutdown := f }, [])
    | .ready => some (c.leave, [.ended .shutdown])
    | .pending => some ({ c with pc := .next rest }, [])
  | .graceful =>
    match h.graceful.poll c.graceful with
    | .busy f => some ({ c with graceful := f }, [])
    | .ready => c.onGraceful
    | .pending => some ({ c with pc := .next rest }, [])
  | .sleep =>
    match c.stage with
    | .firstRequest deadline =>
      if sleepReady deadline now then some (c.leave, [.ended .timeout])
      else some ({ c with pc := .next rest }, [])
    | _ => none
  | .firstRequest =>
    match c.notify with
    | some .sent => some (c.enter .serving, [])
    | some .closed => some (c.leave, [.ended .closed])
    | some .empty => some ({ c with pc := .next rest }, [])
    | none => none
  | .accept => some ({ c with pc := .inside .accept rest }, [.acceptPoll])
  | .serve => some ({ c with pc := .inside .serve rest }, [.servePoll])

/-- The future of an arm answers. -/
def inArm (srv : Server A) (now : Instant) (c : Conn A E B) (rest : List Arm) :
    Arm → ConnAnswer E B → Option (Conn A E B × List (ConnEvent A E B))
  | .accept, .pending => some ({ c with pc := .next rest }, [])
  | .accept, .accepted =>
    some (c.serveConnection srv now, [.accepted, .serveConnection srv.httpVersion.isNone])
  | .accept, .acceptErr e =>
    some (c.leave, (if srv.acceptErrorHandler then [.acceptErrorHandler (some c.remoteAddr) e]
      else []) ++ [.ended .acceptError])
  | .serve, .pending => some ({ c with pc := .next rest }, [])
  | .serve, .serviceCall =>
    -- a service that was dropped with its sender is not called again
    if c.notify = some .closed then none
    else some ({ c with notify := FirstRequestService.call c.notify }, [.serviceCall])
  | .serve, .spawnStream =>
    if srv.httpVersion = some .http1 ∨ c.notify = some .closed then none
    else some ({ c with streams := c.streams + 1 }, [.spawnStream])
  | .serve, .serviceDropped =>
    if c.notify = some .empty then some ({ c with notify := some .closed }, []) else none
  | .serve, .ready => some (c.leave, [.serveReady, .ended .served])
  | _, _ => none

def selectStep (srv : Server A) (h : Handle A) (now : Instant) (c : Conn A E B)
    (x : ConnAnswer E B) : Option (Conn A E B × List (ConnEvent A E B)) :=
  match c.pc, x with
  | .idle, .go => some ({ c with pc := .next c.stage.arms }, [.poll])
  | .next [], .go => some ({ c with pc := .idle }, [.pending])
  | .next (arm :: rest), .go => c.pollArm h now rest arm
  | .inside arm rest, x => c.inArm srv now rest arm x
  | _, _ => none

def step (srv : Server A) (h : Handle A) (now : Instant) (c : Conn A E B) (x : ConnAnswer E B) :
    Option (Handle A × Conn A E B × List (ConnEvent A E B)) :=
  match c.stage, x with
  | .finished, _ => none
  | .dropping d, .go =>
    match (h.dropStep d).2 with
    | some e => some ((h.dropStep d).1, { c with stage := .dropping e }, [])
    | none => some ((h.dropStep d).1, { c with stage := .finished, pc := .idle }, [.finished])
  | .dropping _, _ => none
  | _, x => (c.selectStep srv h now x).map fun r => (h, r)

/-- The next operation of a stream task of the connection, in whatever stage its own task is. -/
def stream (c : Conn A E B) : StreamAnswer → Option (Conn A E B × List (ConnEvent A E B))
  | .call =>
    if c.streams = 0 ∨ c.notify = some .closed then none
    else some ({ c with streams := c.streams - 1, notify := FirstRequestService.call c.notify },
      [.streamCall])
  | .drop => if c.streams = 0 then none else some ({ c with streams := c.streams - 1 }, [])

inductive Rule (srv : Server A) (h : Handle A) (now : Instant) (c : Conn A E B) :
    Handle A → Conn A E B → List (ConnEvent A E B) → Prop
  | poll (hl : c.stage.live = true) (hpc : c.pc = .idle) :
    Rule srv h now c h { c with pc := .next c.stage.arms } [.poll]
  | suspend (hl : c.stage.live = true) (hpc : c.pc = .next []) :
    Rule srv h now c h { c with pc := .idle } [.pending]
  | shutdownBusy (rest : List Arm) (f : Notified) (hl : c.stage.live = true)
      (hpc : c.pc = .next (.shutdown :: rest)) (hf : h.shutdown.poll c.shutdown = .busy f) :
    Rule srv h now c h { c with shutdown := f } []
  | shutdownPending (rest : List Arm) (hl : c.stage.live = true)
      (hpc : c.pc = .next (.shutdown :: rest)) (hf : h.shutdown.poll c.shutdown = .pending) :
    Rule srv h now c h { c with pc := .next rest } []
  | shutdownReady (rest : List Arm) (hl : c.stage.live = true)
      (hpc : c.pc = .next (.shutdown :: rest)) (hf : h.shutdown.poll c.shutdown = .ready) :
    Rule srv h now c h c.leave [.ended .shutdown]
  | gracefulBusy (rest : List Arm) (f : Notified) (hl : c.stage.live = true)
      (hpc : c.pc = .next (.graceful :: rest)) (hf : h.graceful.poll c.graceful = .busy f) :
    Rule srv h now c h { c with graceful := f } []
  | gracefulPending (rest : List Arm) (hl : c.stage.live = true)
      (hpc : c.pc = .next (.graceful :: rest)) (hf : h.graceful.poll c.graceful = .pending) :
    Rule srv h now c h { c with pc := .next rest } []
  | gracefulLeave (rest : List Arm) (hs : c.stage = .accepting)
      (hpc : c.pc = .next (.graceful :: rest)) (hf : h.graceful.poll c.graceful = .ready) :
    Rule srv h now c h c.leave [.ended .graceful]
  | gracefulSkip (rest : List Arm) (deadline : Instant) (hs : c.stage = .firstRequest deadline)
      (hpc : c.pc = .next (.graceful :: rest)) (hf : h.graceful.poll c.graceful = .ready) :
    Rule srv h now c h (c.enter .serving) []
  | gracefulStart (rest : List Arm) (hs : c.stage = .serving)
      (hpc : c.pc = .next (.graceful :: rest)) (hf : h.graceful.poll c.graceful = .ready) :
    Rule srv h now c h (c.enter .draining) [.gracefulShutdown]
  | sleepFired (rest : List Arm) (deadline : Instant) (hs : c.stage = .firstRequest deadline)
      (hpc : c.pc = .next (.sleep :: rest)) (hd : deadline ≤ now) :
    Rule srv h now c h c.leave [.ended .timeout]
  | sleepPending (rest : List Arm) (deadline : Instant) (hs : c.stage = .firstRequest deadline)
      (hpc : c.pc = .next (.sleep :: rest)) (hd : now < deadline) :
    Rule srv h now c h { c with pc := .next rest } []
  | requestSent (rest : List Arm) (hl : c.stage.live = true)
      (hpc : c.pc = .next (.firstRequest :: rest)) (hn : c.notify = some .sent) :
    Rule srv h now c h (c.enter .serving) []
  | requestClosed (rest : List Arm) (hl : c.stage.live = true)
      (hpc : c.pc = .next (.firstRequest :: rest)) (hn : c.notify = some .closed) :
    Rule srv h now c h c.leave [.ended .closed]
  | requestPending (rest : List Arm) (hl : c.stage.live = true)
      (hpc : c.pc = .next (.firstRequest :: rest)) (hn : c.notify = some .empty) :
    Rule srv h now c h { c with pc := .next rest } []
  | acceptPoll (rest : List Arm) (hl : c.stage.live = true)
      (hpc : c.pc = .next (.accept :: rest)) :
    Rule srv h now c h { c with pc := .inside .accept rest } [.acceptPoll]
  | acceptPending (rest : List Arm) (hl : c.stage.live = true)
      (hpc : c.pc = .inside .accept rest) :
    Rule srv h now c h { c with pc := .next rest } []
  | accepted (rest : List Arm) (hl : c.stage.live = true) (hpc : c.pc = .inside .accept rest) :
    Rule srv h now c h (c.serveConnection srv now)
      [.accepted, .serveConnection srv.httpVersion.isNone]
  | acceptErr (rest : List Arm) (e : IoError E B) (hl : c.stage.live = true)
      (hpc : c.pc = .inside .accept rest) :
    Rule srv h now c h c.leave
      ((if srv.acceptErrorHandler then [.acceptErrorHandler (some c.remoteAddr) e] else []) ++
        [.ended .acceptError])
  | servePoll (rest : List Arm) (hl : c.stage.live = true) (hpc : c.pc = .next (.serve :: rest)) :
    Rule srv h now c h { c with pc := .inside .serve rest } [.servePoll]
  | servePending (rest : List Arm) (hl : c.stage.live = true) (hpc : c.pc = .inside .serve rest) :
    Rule srv h now c h { c with pc := .next rest } []
  | serviceCall (rest : List Arm) (hl : c.stage.live = true) (hpc : c.pc = .inside .serve rest)
      (hn : c.notify ≠ some .closed) :
    Rule srv h now c h { c with notify := FirstRequestService.call c.notify } [.serviceCall]
  | spawnStream (rest : List Arm) (hl : c.stage.live = true) (hpc : c.pc = .inside .serve rest)
      (hv : srv.httpVersion ≠ some .http1) (hn : c.notify ≠ some .closed) :
    Rule srv h now c h { c with streams := c.streams + 1 } [.spawnStream]
  | serviceDropped (rest : List Arm) (hl : c.stage.live = true)
      (hpc : c.pc = .inside .serve rest) (hn : c.notify = some .empty) :
    Rule srv h now c h { c with notify := some .closed } []
  | serveReady (rest : List Arm) (hl : c.stage.live = true) (hpc : c.pc = .inside .serve rest) :
    Rule srv h now c h c.leave [.serveReady, .ended .served]
  | drop (d e : WatcherDrop) (hs : c.stage = .dropping d) (hd : (h.dropStep d).2 = some e) :
    Rule srv h now c (h.dropStep d).1 { c with stage := .dropping e } []
  | dropped (d : WatcherDrop) (hs : c.stage = .dropping d) (hd : (h.dropStep d).2 = none) :
    Rule srv h now c (h.dropStep d).1 { c with stage := .finished, pc := .idle } [.finished]

inductive StreamRule (c : Conn A E B) :
    StreamAnswer → Conn A E B → List (ConnEvent A E B) → Prop
  | call (hs : 0 < c.streams) (hn : c.notify ≠ some .closed) :
    StreamRule c .call
      { c with streams := c.streams - 1, notify := FirstRequestService.call c.notify }
      [.streamCall]
  | drop (hs : 0 < c.streams) : StreamRule c .drop { c with streams := c.streams - 1 } []

section Inversion
variable {srv : Server A} {h k : Handle A} {now : Instant} {c d : Conn A E B}
  {evs : List (ConnEvent A E B)} {rest : List Arm} {x : ConnAnswer E B}

theorem streamRule_of_stream {y : StreamAnswer} (hs : c.stream y = some (d, evs)) :
    StreamRule c y d evs := by
  cases y <;> simp only [stream] at hs <;> split_ifs at hs with h0 <;>
    obtain ⟨rfl, rfl⟩ := Prod.mk.inj (Option.some.inj hs)
  · rw [not_or] at h0
    exact .call (Nat.pos_of_ne_zero h0.1) h0.2
  · exact .drop (Nat.pos_of_ne_zero h0)

private theorem rule_of_pollArm {arm : Arm} (hl : c.stage.live = true)
    (hpc : c.pc = .next (arm :: rest)) (hs : c.pollArm h now rest arm = some (d, evs)) :
    Rule srv h now c h d evs := by
  cases arm with
  | shutdown =>
    cases hf : h.shutdown.poll c.shutdown with
    | busy f =>
      simp only [pollArm, hf, Option.some.injEq, Prod.mk.injEq] at hs
      obtain ⟨rfl, rfl⟩ := hs
      exact .shutdownBusy rest f hl hpc hf
    | ready =>
      simp only [pollArm, hf, Option.some.injEq, Prod.mk.injEq] at hs
      obtain ⟨rfl, rfl⟩ := hs
      exact .shutdownReady rest hl hpc hf
    | pending =>
      simp only [pollArm, hf, Option.some.injEq, Prod.mk.injEq] at hs
      obtain ⟨rfl, rfl⟩ := hs
      exact .shutdownPending rest hl hpc hf
  | graceful =>
    cases hf : h.graceful.poll c.graceful with
    | busy f =>
      simp only [pollArm, hf, Option.some.injEq, Prod.mk.injEq] at hs
      obtain ⟨rfl, rfl⟩ := hs
      exact .gracefulBusy rest f hl hpc hf
    | pending =>
      simp only [pollArm, hf, Option.some.injEq, Prod.mk.injEq] at hs
      obtain ⟨rfl, rfl⟩ := hs
      exact .gracefulPending rest hl hpc hf
    | ready =>
      simp only [pollArm, hf] at hs
      -- the handler of this arm depends on the select it stands in
      cases hst : c.stage <;> simp only [onGraceful, hst, Option.some.injEq, Prod.mk.injEq,
        reduceCtorEq] at hs <;> obtain ⟨rfl, rfl⟩ := hs
      · exact .gracefulLeave rest hst hpc hf
      · exact .gracefulSkip rest _ hst hpc hf
      · exact .gracefulStart rest hst hpc hf
  | sleep =>
    cases hst : c.stage <;> simp only [pollArm, hst, reduceCtorEq] at hs
    next deadline =>
      by_cases hd : deadline ≤ now
      · simp only [sleepReady, hd, decide_true, if_true, Option.some.injEq, Prod.mk.injEq] at hs
        obtain ⟨rfl, rfl⟩ := hs
        exact .sleepFired rest deadline hst hpc hd
      · simp only [sleepReady, hd, decide_false, Bool.false_eq_true, if_false, Option.some.injEq,
          Prod.mk.injEq] at hs
        obtain ⟨rfl, rfl⟩ := hs
        rw [← hst]
        exact .sleepPending rest deadline hst hpc (Nat.lt_of_not_le hd)
  | firstRequest =>
    cases hn : c.notify with
    | none => simp [pollArm, hn] at hs
    | some o =>
      cases o <;> simp only [pollArm, hn, Option.some.injEq, Prod.mk.injEq] at hs <;>
        obtain ⟨rfl, rfl⟩ := hs
      · rw [← hn]
        exact .requestPending rest hl hpc hn
      · exact .requestSent rest hl hpc hn
      · exact .requestClosed rest hl hpc hn
  | accept =>
    simp only [pollArm, Option.some.injEq, Prod.mk.injEq] at hs
    obtain ⟨rfl, rfl⟩ := hs
    exact .acceptPoll rest hl hpc
  | serve =>
    simp only [pollArm, Option.some.injEq, Prod.mk.injEq] at hs
    obtain ⟨rfl, rfl⟩ := hs
    exact .servePoll rest hl hpc

private theorem rule_of_inArm {arm : Arm} (hl : c.stage.live = true)
    (hpc : c.pc = .inside arm rest) (hs : c.inArm srv now rest arm x = some (d, evs)) :
    Rule srv h now c h d evs := by
  unfold inArm at hs
  split at hs
  · obtain ⟨rfl, rfl⟩ := Prod.mk.inj (Option.some.inj hs)
    exact .acceptPending rest hl hpc
  · obtain ⟨rfl, rfl⟩ := Prod.mk.inj (Option.some.inj hs)
    exact .accepted rest hl hpc
  · obtain ⟨rfl, rfl⟩ := Prod.mk.inj (Option.some.inj hs)
    exact .acceptErr rest _ hl hpc
  · obtain ⟨rfl, rfl⟩ := Prod.mk.inj (Option.some.inj hs)
    exact .servePending rest hl hpc
  · by_cases hn : c.notify = some .closed
    · simp [hn] at hs
    · rw [if_neg hn] at hs
      obtain ⟨rfl, rfl⟩ := Prod.mk.inj (Option.some.inj hs)
      exact .serviceCall rest hl hpc hn
  · split_ifs at hs with hn
    obtain ⟨rfl, rfl⟩ := Prod.mk.inj (Option.some.inj hs)
    rw [not_or] at hn
    exact .spawnStream rest hl hpc hn.1 hn.2
  · by_cases hn : c.notify = some .empty
    · rw [if_pos hn] at hs
      obtain ⟨rfl, rfl⟩ := Prod.mk.inj (Option.some.inj hs)
      exact .serviceDropped rest hl hpc hn
    · simp [hn] at hs
  · obtain ⟨rfl, rfl⟩ := Prod.mk.inj (Option.some.inj hs)
    exact .serveReady rest hl hpc
  · cases hs

private theorem rule_of_select (hl : c.stage.live = true)
    (hs : c.selectStep srv h now x = some (d, evs)) : Rule srv h now c h d evs := by
  unfold selectStep at hs
  split at hs
  next hpc =>
    obtain ⟨rfl, rfl⟩ := Prod.mk.inj (Option.some.inj hs)
    exact .poll hl hpc
  next hpc =>
    obtain ⟨rfl, rfl⟩ := Prod.mk.inj (Option.some.inj hs)
    exact .suspend hl hpc
  next arm rest hpc => exact rule_of_pollArm hl hpc hs
  next arm rest x hpc => exact rule_of_inArm hl hpc hs
  next => cases hs

theorem rule_of_step (hs : c.step srv h now x = some (k, d, evs)) : Rule srv h now c k d evs := by
  unfold step at hs
  split at hs
  next => cases hs
  next e hst =>
    split at hs
    next e' he =>
      simp only [Option.some.injEq, Prod.mk.injEq] at hs
      obtain ⟨rfl, rfl, rfl⟩ := hs
      exact .drop e e' hst he
    next he =>
      simp only [Option.some.injEq, Prod.mk.injEq] at hs
      obtain ⟨rfl, rfl, rfl⟩ := hs
      exact .dropped e hst he
  next => cases hs
  next hnf hnd _ =>
    have hl : c.stage.live = true := by
      cases hst : c.stage with
      | dropping e => exact absurd hst (hnd e)
      | finished => exact absurd hst hnf
      | _ => rfl
    obtain ⟨⟨d', evs'⟩, hr, he⟩ := Option.map_eq_some_iff.mp hs
    simp only [Prod.mk.injEq] at he
    obtain ⟨rfl, rfl, rfl⟩ := he
    exact rule_of_select hl hr

end Inversion

end Conn

end AxumServer
