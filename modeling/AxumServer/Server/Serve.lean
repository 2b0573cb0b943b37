import AxumServer.Server.Connection

/-! # `Server::serve`

The future of `serve`: binding, the accept loop under the outer select, the drop
of the listener and `wait_connections_end`, one operation at a time. The nested
selects are flattened: a poll goes through the shutdown arm of the outer select
and then through the arms of the point where the accept loop is suspended.
-/

namespace AxumServer

variable {A E B : Type}

/-- The arms polled by `serve`. -/
inductive ServeArm where
  | bind
  | shutdown
  | accept
  | graceful
  | pollReady
  | makeService
  | sleep
  | connEnd
  deriving DecidableEq, Repr

/-- The future of the `accept` helper: in `accept_stream`, or backing off after an error. -/
inductive AcceptFuture where
  | stream
  | backoff (deadline : Instant)
  deriving DecidableEq, Repr

inductive WaitEnd where
  | count
  | duration
  | timed (deadline : Instant)
  | untimed
  /-- The grace period is over: in `self.shutdown()`. -/
  | shutdownStore
  | shutdownWake
  deriving DecidableEq, Repr

inductive ServeStage (A E B : Type) where
  | bind
  | localAddr
  /-- In `notify_listening`, with the error to return afterwards if binding failed. -/
  | setAddr (addr : Option A) (failed : Option (IoError E B))
  | addrStore (failed : Option (IoError E B))
  | addrWake (failed : Option (IoError E B))
  /-- The select of the accept loop. -/
  | select (accept : AcceptFuture)
  | pollReady (addr : A)
  | makeService (addr : A)
  /-- The service is made; the `Watcher` is about to be created, then the task. -/
  | watcher (addr : A)
  | spawn (addr : A)
  | draining (w : WaitEnd)
  | returned (result : Except (IoError E B) Unit)
  deriving DecidableEq, Repr

/-- The arms of one whole poll. -/
def ServeStage.arms : ServeStage A E B → List ServeArm
  | .bind => [.bind]
  | .select _ => [.shutdown, .accept, .graceful]
  | .pollReady _ => [.shutdown, .pollReady]
  | .makeService _ => [.shutdown, .makeService]
  | .draining (.timed _) => [.sleep, .connEnd]
  | .draining .untimed => [.connEnd]
  | _ => []

/-- `serve` is suspended between polls at these points only. -/
def ServeStage.awaits (stage : ServeStage A E B) : Bool := !stage.arms.isEmpty

/-- Inside the accept loop, under the outer select. -/
def ServeStage.inLoop : ServeStage A E B → Bool
  | .select _ => true
  | .pollReady _ => true
  | .makeService _ => true
  | .watcher _ => true
  | .spawn _ => true
  | _ => false

/-- What `serve` does that others can see. -/
inductive ServeEvent (A E B : Type) where
  | poll
  | pending
  | accepted (addr : A)
  | acceptErr (error : IoError E B)
  | acceptErrorHandler (addr : Option A) (error : IoError E B)
  | backoffElapsed
  | ready
  | makeService (addr : A)
  | makeErr (addr : A) (error : B)
  | spawned (addr : A)
  | listenerDropped
  | graceExpired
  | returned (result : Except (IoError E B) Unit)
  deriving DecidableEq, Repr

/-- What the outside answers to an operation of `serve`. -/
inductive ServeAnswer (A E B : Type) where
  /-- The operation asks nothing. -/
  | go
  | bindPending
  | bound
  | bindErr (error : IoError E B)
  | localAddr (addr : Option A)
  | acceptPending
  | accepted (addr : A)
  | acceptErr (error : IoError E B)
  | readyPending
  | ready
  | readyErr (error : B)
  | makePending
  | made
  | makeErr (error : B)
  deriving DecidableEq, Repr

/-- The future of `serve`. The history `log` is written by every step and read by none. -/
structure Serve (A E B : Type) where
  stage : ServeStage A E B := .bind
  pc : SelectPc ServeArm := .idle
  /-- The `wait_shutdown()` future of the outer select. -/
  shutdown : Notified := .created
  /-- The `wait_graceful_shutdown()` future of the accept loop's select. -/
  graceful : Notified := .created
  /-- The `conn_end.notified()` future of `wait_connections_end`. -/
  connEnd : Notified := .created
  /-- The listener is open. -/
  incoming : Bool := false
  log : List (Instant × ServeEvent A E B) := []
  deriving DecidableEq, Repr

namespace Serve

/-- The effect of one operation: the cells, the future, spawned tasks and events. -/
abbrev Effect (A E B : Type) :=
  Handle A × Serve A E B × List (Conn A E B) × List (ServeEvent A E B)

/-- The outer select is entered, with the accept loop as its second arm. -/
def enterSelect (s : Serve A E B) : Serve A E B :=
  { s with stage := .select .stream, pc := .next [.shutdown, .accept, .graceful],
           shutdown := .created, graceful := .created }

def loop (s : Serve A E B) : Serve A E B :=
  { s with stage := .select .stream, pc := .next [.accept, .graceful], graceful := .created }

/-- The accept loop is over: `drop(incoming)`. -/
def dropListener (s : Serve A E B) : Serve A E B := { s with incoming := false }

/-- Wait for `conn_end`, with or without a grace period. -/
def await (s : Serve A E B) (w : WaitEnd) (arms : List ServeArm) : Serve A E B :=
  { s with stage := .draining w, pc := .next arms, connEnd := .created }

def ret (s : Serve A E B) (result : Except (IoError E B) Unit) : Serve A E B :=
  { s with stage := .returned result, pc := .idle }

def report (srv : Server A) (addr : Option A) (e : IoError E B) : List (ServeEvent A E B) :=
  if srv.acceptErrorHandler then [.acceptErrorHandler addr e] else []

/-- The back-off after a failed `accept_stream`. -/
def backoff : Duration := Duration.fromMillis 50

/-- Operations between two suspension points: no arm is polled. -/
def syncStep (h : Handle A) (now : Instant) (s : Serve A E B) :
    ServeStage A E B → ServeAnswer A E B → Option (Effect A E B)
  | .localAddr, .localAddr addr => some (h, { s with stage := .setAddr addr none }, [], [])
  | .setAddr addr failed, .go =>
    some (h.setAddr addr, { s with stage := .addrStore failed }, [], [])
  | .addrStore failed, .go =>
    some ((h.notifyAddr .store).1, { s with stage := .addrWake failed }, [], [])
  | .addrWake none, .go => some ((h.notifyAddr .wake).1, s.enterSelect, [], [])
  | .addrWake (some e), .go =>
    some ((h.notifyAddr .wake).1, s.ret (.error e), [], [.returned (.error e)])
  | .watcher addr, .go => some (h.watcher, { s with stage := .spawn addr }, [], [])
  | .spawn addr, .go => some (h, s.loop, [{ remoteAddr := addr }], [.spawned addr])
  | .draining .count, .go =>
    if h.connCount = 0 then some (h, s.ret (.ok ()), [], [.returned (.ok ())])
    else some (h, { s with stage := .draining .duration }, [], [])
  | .draining .duration, .go =>
    match h.gracefulDur with
    | some duration => some (h, s.await (.timed (now + duration)) [.sleep, .connEnd], [], [])
    | none => some (h, s.await .untimed [.connEnd], [], [])
  | .draining .shutdownStore, .go =>
    some ((h.notifyShutdown .store).1, { s with stage := .draining .shutdownWake }, [], [])
  | .draining .shutdownWake, .go =>
    some ((h.notifyShutdown .wake).1, s.ret (.ok ()), [], [.returned (.ok ())])
  | _, _ => none

/-- Poll an arm. `rest` are the arms after it. -/
def pollArm (srv : Server A) (h : Handle A) (now : Instant) (s : Serve A E B)
    (rest : List ServeArm) : ServeArm → ServeAnswer A E B → Option (Effect A E B)
  | .bind, .go =>
    -- `bind_incoming` of a listener that is bound already
    if srv.listener.isReady then
      some (h, { s with stage := .localAddr, pc := .next [], incoming := true }, [], [])
    else none
  | .bind, .bindPending => if srv.listener.isReady then none
    else some (h, { s with pc := .next rest }, [], [])
  | .bind, .bound => if srv.listener.isReady then none
    else some (h, { s with stage := .localAddr, pc := .next [], incoming := true }, [], [])
  | .bind, .bindErr e => if srv.listener.isReady then none
    else some (h, { s with stage := .setAddr none (some e), pc := .next [] }, [], [])
  | .shutdown, .go =>
    match h.shutdown.poll s.shutdown with
    | .busy f => some (h, { s with shutdown := f }, [], [])
    | .ready => some (h, s.dropListener.ret (.ok ()), [], [.listenerDropped, .returned (.ok ())])
    | .pending => some (h, { s with pc := .next rest }, [], [])
  | .accept, x =>
    match s.stage, x with
    | .select .stream, .acceptPending => some (h, { s with pc := .next rest }, [], [])
    | .select .stream, .accepted addr =>
      some (h, { s with stage := .pollReady addr, pc := .next [.pollReady] }, [],
        [.accepted addr])
    | .select .stream, .acceptErr e =>
      some (h, { s with stage := .select (.backoff (now + backoff)) }, [],
        .acceptErr e :: report srv none e)
    | .select (.backoff deadline), .go =>
      if sleepReady deadline now then
        some (h, { s with stage := .select .stream }, [], [.backoffElapsed])
      else some (h, { s with pc := .next rest }, [], [])
    | _, _ => none
  | .graceful, .go =>
    match h.graceful.poll s.graceful with
    | .busy f => some (h, { s with graceful := f }, [], [])
    | .ready => some (h, { s.dropListener with stage := .draining .count, pc := .next [] }, [],
        [.listenerDropped])
    | .pending => some (h, { s with pc := .next rest }, [], [])
  | .pollReady, x =>
    match s.stage, x with
    | .pollReady _, .readyPending => some (h, { s with pc := .next rest }, [], [])
    | .pollReady addr, .ready =>
      some (h, { s with stage := .makeService addr, pc := .next [.makeService] }, [],
        [.ready, .makeService addr])
    | .pollReady _, .readyErr e =>
      some (h, s.dropListener.ret (.error (ioOther e)), [],
        [.listenerDropped, .returned (.error (ioOther e))])
    | _, _ => none
  | .makeService, x =>
    match s.stage, x with
    | .makeService _, .makePending => some (h, { s with pc := .next rest }, [], [])
    | .makeService addr, .made =>
      some (h, { s with stage := .watcher addr, pc := .next [] }, [], [])
    | .makeService addr, .makeErr e =>
      some (h, s.loop, [], .makeErr addr e :: report srv (some addr) (ioOther e))
    | _, _ => none
  | .sleep, .go =>
    match s.stage with
    | .draining (.timed deadline) =>
      if sleepReady deadline now then
        some (h, { s with stage := .draining .shutdownStore, pc := .next [] }, [], [.graceExpired])
      else some (h, { s with pc := .next rest }, [], [])
    | _ => none
  | .connEnd, .go =>
    match h.connEnd.poll s.connEnd with
    | .busy f => some (h, { s with connEnd := f }, [], [])
    | .ready => some (h, s.ret (.ok ()), [], [.returned (.ok ())])
    | .pending => some (h, { s with pc := .next rest }, [], [])
  | _, _ => none

def step (srv : Server A) (h : Handle A) (now : Instant) (s : Serve A E B)
    (x : ServeAnswer A E B) : Option (Effect A E B) :=
  if s.stage.awaits then
    match s.pc, x with
    | .idle, .go => some (h, { s with pc := .next s.stage.arms }, [], [.poll])
    | .next [], .go => some (h, { s with pc := .idle }, [], [.pending])
    | .next (arm :: rest), x => s.pollArm srv h now rest arm x
    | _, _ => none
  else s.syncStep h now s.stage x

inductive Rule (srv : Server A) (h : Handle A) (now : Instant) (s : Serve A E B) :
    ServeAnswer A E B → Handle A → Serve A E B → List (Conn A E B) →
      List (ServeEvent A E B) → Prop
  | poll (ha : s.stage.awaits = true) (hpc : s.pc = .idle) :
    Rule srv h now s .go h { s with pc := .next s.stage.arms } [] [.poll]
  | suspend (ha : s.stage.awaits = true) (hpc : s.pc = .next []) :
    Rule srv h now s .go h { s with pc := .idle } [] [.pending]
  | bindPending (rest : List ServeArm) (ha : s.stage.awaits = true)
      (hpc : s.pc = .next (.bind :: rest)) :
    Rule srv h now s .bindPending h { s with pc := .next rest } [] []
  | bound (x : ServeAnswer A E B) (rest : List ServeArm) (ha : s.stage.awaits = true)
      (hpc : s.pc = .next (.bind :: rest)) (hx : x = .go ∨ x = .bound) :
    Rule srv h now s x h { s with stage := .localAddr, pc := .next [], incoming := true } [] []
  | bindErr (rest : List ServeArm) (e : IoError E B) (ha : s.stage.awaits = true)
      (hpc : s.pc = .next (.bind :: rest)) :
    Rule srv h now s (.bindErr e) h { s with stage := .setAddr none (some e), pc := .next [] } [] []
  | localAddr (addr : Option A) (hs : s.stage = .localAddr) :
    Rule srv h now s (.localAddr addr) h { s with stage := .setAddr addr none } [] []
  | setAddr (addr : Option A) (failed : Option (IoError E B))
      (hs : s.stage = .setAddr addr failed) :
    Rule srv h now s .go (h.setAddr addr) { s with stage := .addrStore failed } [] []
  | addrStore (failed : Option (IoError E B)) (hs : s.stage = .addrStore failed) :
    Rule srv h now s .go (h.notifyAddr .store).1 { s with stage := .addrWake failed } [] []
  | listening (hs : s.stage = .addrWake none) :
    Rule srv h now s .go (h.notifyAddr .wake).1 s.enterSelect [] []
  | bindFailed (e : IoError E B) (hs : s.stage = .addrWake (some e)) :
    Rule srv h now s .go (h.notifyAddr .wake).1 (s.ret (.error e)) [] [.returned (.error e)]
  | shutdownBusy (rest : List ServeArm) (f : Notified) (ha : s.stage.awaits = true)
      (hpc : s.pc = .next (.shutdown :: rest)) (hf : h.shutdown.poll s.shutdown = .busy f) :
    Rule srv h now s .go h { s with shutdown := f } [] []
  | shutdownPending (rest : List ServeArm) (ha : s.stage.awaits = true)
      (hpc : s.pc = .next (.shutdown :: rest)) (hf : h.shutdown.poll s.shutdown = .pending) :
    Rule srv h now s .go h { s with pc := .next rest } [] []
  | shutdownReady (rest : List ServeArm) (ha : s.stage.awaits = true)
      (hpc : s.pc = .next (.shutdown :: rest)) (hf : h.shutdown.poll s.shutdown = .ready) :
    Rule srv h now s .go h (s.dropListener.ret (.ok ())) []
      [.listenerDropped, .returned (.ok ())]
  | acceptPending (rest : List ServeArm) (hs : s.stage = .select .stream)
      (hpc : s.pc = .next (.accept :: rest)) :
    Rule srv h now s .acceptPending h { s with pc := .next rest } [] []
  | accepted (rest : List ServeArm) (addr : A) (hs : s.stage = .select .stream)
      (hpc : s.pc = .next (.accept :: rest)) :
    Rule srv h now s (.accepted addr) h
      { s with stage := .pollReady addr, pc := .next [.pollReady] } [] [.accepted addr]
  | acceptErr (rest : List ServeArm) (e : IoError E B) (hs : s.stage = .select .stream)
      (hpc : s.pc = .next (.accept :: rest)) :
    Rule srv h now s (.acceptErr e) h { s with stage := .select (.backoff (now + backoff)) } []
      (.acceptErr e :: report srv none e)
  | backoffPending (rest : List ServeArm) (deadline : Instant)
      (hs : s.stage = .select (.backoff deadline)) (hpc : s.pc = .next (.accept :: rest))
      (hd : now < deadline) :
    Rule srv h now s .go h { s with pc := .next rest } [] []
  | backoffElapsed (rest : List ServeArm) (deadline : Instant)
      (hs : s.stage = .select (.backoff deadline)) (hpc : s.pc = .next (.accept :: rest))
      (hd : deadline ≤ now) :
    Rule srv h now s .go h { s with stage := .select .stream } [] [.backoffElapsed]
  | gracefulBusy (rest : List ServeArm) (f : Notified) (ha : s.stage.awaits = true)
      (hpc : s.pc = .next (.graceful :: rest)) (hf : h.graceful.poll s.graceful = .busy f) :
    Rule srv h now s .go h { s with graceful := f } [] []
  | gracefulPending (rest : List ServeArm) (ha : s.stage.awaits = true)
      (hpc : s.pc = .next (.graceful :: rest)) (hf : h.graceful.poll s.graceful = .pending) :
    Rule srv h now s .go h { s with pc := .next rest } [] []
  | gracefulReady (rest : List ServeArm) (ha : s.stage.awaits = true)
      (hpc : s.pc = .next (.graceful :: rest)) (hf : h.graceful.poll s.graceful = .ready) :
    Rule srv h now s .go h { s.dropListener with stage := .draining .count, pc := .next [] } []
      [.listenerDropped]
  | readyPending (rest : List ServeArm) (addr : A) (hs : s.stage = .pollReady addr)
      (hpc : s.pc = .next (.pollReady :: rest)) :
    Rule srv h now s .readyPending h { s with pc := .next rest } [] []
  | ready (rest : List ServeArm) (addr : A) (hs : s.stage = .pollReady addr)
      (hpc : s.pc = .next (.pollReady :: rest)) :
    Rule srv h now s .ready h { s with stage := .makeService addr, pc := .next [.makeService] } []
      [.ready, .makeService addr]
  | readyErr (rest : List ServeArm) (addr : A) (e : B) (hs : s.stage = .pollReady addr)
      (hpc : s.pc = .next (.pollReady :: rest)) :
    Rule srv h now s (.readyErr e) h (s.dropListener.ret (.error (ioOther e))) []
      [.listenerDropped, .returned (.error (ioOther e))]
  | makePending (rest : List ServeArm) (addr : A) (hs : s.stage = .makeService addr)
      (hpc : s.pc = .next (.makeService :: rest)) :
    Rule srv h now s .makePending h { s with pc := .next rest } [] []
  | made (rest : List ServeArm) (addr : A) (hs : s.stage = .makeService addr)
      (hpc : s.pc = .next (.makeService :: rest)) :
    Rule srv h now s .made h { s with stage := .watcher addr, pc := .next [] } [] []
  | makeErr (rest : List ServeArm) (addr : A) (e : B) (hs : s.stage = .makeService addr)
      (hpc : s.pc = .next (.makeService :: rest)) :
    Rule srv h now s (.makeErr e) h s.loop []
      (.makeErr addr e :: report srv (some addr) (ioOther e))
  | watcher (addr : A) (hs : s.stage = .watcher addr) :
    Rule srv h now s .go h.watcher { s with stage := .spawn addr } [] []
  | spawn (addr : A) (hs : s.stage = .spawn addr) :
    Rule srv h now s .go h s.loop [{ remoteAddr := addr }] [.spawned addr]
  | countZero (hs : s.stage = .draining .count) (hc : h.connCount = 0) :
    Rule srv h now s .go h (s.ret (.ok ())) [] [.returned (.ok ())]
  | countPos (hs : s.stage = .draining .count) (hc : h.connCount ≠ 0) :
    Rule srv h now s .go h { s with stage := .draining .duration } [] []
  | timed (duration : Duration) (hs : s.stage = .draining .duration)
      (hd : h.gracefulDur = some duration) :
    Rule srv h now s .go h (s.await (.timed (now + duration)) [.sleep, .connEnd]) [] []
  | untimed (hs : s.stage = .draining .duration) (hd : h.gracefulDur = none) :
    Rule srv h now s .go h (s.await .untimed [.connEnd]) [] []
  | sleepPending (rest : List ServeArm) (deadline : Instant)
      (hs : s.stage = .draining (.timed deadline)) (hpc : s.pc = .next (.sleep :: rest))
      (hd : now < deadline) :
    Rule srv h now s .go h { s with pc := .next rest } [] []
  | graceExpired (rest : List ServeArm) (deadline : Instant)
      (hs : s.stage = .draining (.timed deadline)) (hpc : s.pc = .next (.sleep :: rest))
      (hd : deadline ≤ now) :
    Rule srv h now s .go h { s with stage := .draining .shutdownStore, pc := .next [] } []
      [.graceExpired]
  | shutdownStore (hs : s.stage = .draining .shutdownStore) :
    Rule srv h now s .go (h.notifyShutdown .store).1
      { s with stage := .draining .shutdownWake } [] []
  | shutdownWake (hs : s.stage = .draining .shutdownWake) :
    Rule srv h now s .go (h.notifyShutdown .wake).1 (s.ret (.ok ())) [] [.returned (.ok ())]
  | connEndBusy (rest : List ServeArm) (f : Notified) (ha : s.stage.awaits = true)
      (hpc : s.pc = .next (.connEnd :: rest)) (hf : h.connEnd.poll s.connEnd = .busy f) :
    Rule srv h now s .go h { s with connEnd := f } [] []
  | connEndPending (rest : List ServeArm) (ha : s.stage.awaits = true)
      (hpc : s.pc = .next (.connEnd :: rest)) (hf : h.connEnd.poll s.connEnd = .pending) :
    Rule srv h now s .go h { s with pc := .next rest } [] []
  | connEndReady (rest : List ServeArm) (ha : s.stage.awaits = true)
      (hpc : s.pc = .next (.connEnd :: rest)) (hf : h.connEnd.poll s.connEnd = .ready) :
    Rule srv h now s .go h (s.ret (.ok ())) [] [.returned (.ok ())]

section Inversion
variable {srv : Server A} {h k : Handle A} {now : Instant} {s t : Serve A E B}
  {cs : List (Conn A E B)} {evs : List (ServeEvent A E B)} {rest : List ServeArm}
  {x : ServeAnswer A E B}

private theorem effect_inj {u : Serve A E B} {h' : Handle A} {ds : List (Conn A E B)}
    {fs : List (ServeEvent A E B)}
    (hs : some (h', u, ds, fs) = some (k, t, cs, evs)) : h' = k ∧ u = t ∧ ds = cs ∧ fs = evs := by
  simpa only [Option.some.injEq, Prod.mk.injEq] using hs

private theorem rule_of_syncStep (hs : s.syncStep h now s.stage x = some (k, t, cs, evs)) :
    Rule srv h now s x k t cs evs := by
  generalize hst : s.stage = stage at hs
  unfold syncStep at hs
  split at hs
  · obtain ⟨rfl, rfl, rfl, rfl⟩ := effect_inj hs
    exact .localAddr _ hst
  · obtain ⟨rfl, rfl, rfl, rfl⟩ := effect_inj hs
    exact .setAddr _ _ hst
  · obtain ⟨rfl, rfl, rfl, rfl⟩ := effect_inj hs
    exact .addrStore _ hst
  · obtain ⟨rfl, rfl, rfl, rfl⟩ := effect_inj hs
    exact .listening hst
  · obtain ⟨rfl, rfl, rfl, rfl⟩ := effect_inj hs
    exact .bindFailed _ hst
  · obtain ⟨rfl, rfl, rfl, rfl⟩ := effect_inj hs
    exact .watcher _ hst
  · obtain ⟨rfl, rfl, rfl, rfl⟩ := effect_inj hs
    exact .spawn _ hst
  · split at hs
    next hc =>
      obtain ⟨rfl, rfl, rfl, rfl⟩ := effect_inj hs
      exact .countZero hst hc
    next hc =>
      obtain ⟨rfl, rfl, rfl, rfl⟩ := effect_inj hs
      exact .countPos hst hc
  · split at hs
    next hd =>
      obtain ⟨rfl, rfl, rfl, rfl⟩ := effect_inj hs
      exact .timed _ hst hd
    next hd =>
      obtain ⟨rfl, rfl, rfl, rfl⟩ := effect_inj hs
      exact .untimed hst hd
  · obtain ⟨rfl, rfl, rfl, rfl⟩ := effect_inj hs
    exact .shutdownStore hst
  · obtain ⟨rfl, rfl, rfl, rfl⟩ := effect_inj hs
    exact .shutdownWake hst
  · cases hs

private theorem rule_of_accept (hpc : s.pc = .next (.accept :: rest))
    (hs : s.pollArm srv h now rest .accept x = some (k, t, cs, evs)) :
    Rule srv h now s x k t cs evs := by
  simp only [pollArm] at hs
  split at hs
  next hst =>
    obtain ⟨rfl, rfl, rfl, rfl⟩ := effect_inj hs
    exact .acceptPending rest hst hpc
  next hst =>
    obtain ⟨rfl, rfl, rfl, rfl⟩ := effect_inj hs
    exact .accepted rest _ hst hpc
  next hst =>
    obtain ⟨rfl, rfl, rfl, rfl⟩ := effect_inj hs
    exact .acceptErr rest _ hst hpc
  next deadline hst =>
    by_cases hd : deadline ≤ now
    · simp only [sleepReady, hd, decide_true, if_true] at hs
      obtain ⟨rfl, rfl, rfl, rfl⟩ := effect_inj hs
      exact .backoffElapsed rest deadline hst hpc hd
    · simp only [sleepReady, hd, decide_false, Bool.false_eq_true, if_false] at hs
      obtain ⟨rfl, rfl, rfl, rfl⟩ := effect_inj hs
      exact .backoffPending rest deadline hst hpc (Nat.lt_of_not_le hd)
  next => cases hs

private theorem rule_of_makeService (hs : s.pollArm srv h now rest .makeService x =
    some (k, t, cs, evs)) (hpc : s.pc = .next (.makeService :: rest)) :
    Rule srv h now s x k t cs evs := by
  simp only [pollArm] at hs
  split at hs
  next hst =>
    obtain ⟨rfl, rfl, rfl, rfl⟩ := effect_inj hs
    exact .makePending rest _ hst hpc
  next hst =>
    obtain ⟨rfl, rfl, rfl, rfl⟩ := effect_inj hs
    exact .made rest _ hst hpc
  next hst =>
    obtain ⟨rfl, rfl, rfl, rfl⟩ := effect_inj hs
    exact .makeErr rest _ _ hst hpc
  next => cases hs

private theorem rule_of_pollReady (hs : s.pollArm srv h now rest .pollReady x =
    some (k, t, cs, evs)) (hpc : s.pc = .next (.pollReady :: rest)) :
    Rule srv h now s x k t cs evs := by
  simp only [pollArm] at hs
  split at hs
  next hst =>
    obtain ⟨rfl, rfl, rfl, rfl⟩ := effect_inj hs
    exact .readyPending rest _ hst hpc
  next hst =>
    obtain ⟨rfl, rfl, rfl, rfl⟩ := effect_inj hs
    exact .ready rest _ hst hpc
  next hst =>
    obtain ⟨rfl, rfl, rfl, rfl⟩ := effect_inj hs
    exact .readyErr rest _ _ hst hpc
  next => cases hs

private theorem rule_of_bind (ha : s.stage.awaits = true) (hpc : s.pc = .next (.bind :: rest))
    (hs : s.pollArm srv h now rest .bind x = some (k, t, cs, evs)) :
    Rule srv h now s x k t cs evs := by
  cases x <;> simp only [pollArm, reduceCtorEq] at hs <;>
    split at hs <;> first | cases hs; done | obtain ⟨rfl, rfl, rfl, rfl⟩ := effect_inj hs
  · exact .bound _ rest ha hpc (.inl rfl)
  · exact .bindPending rest ha hpc
  · exact .bound _ rest ha hpc (.inr rfl)
  · exact .bindErr rest _ ha hpc

private theorem rule_of_pollArm {arm : ServeArm} (ha : s.stage.awaits = true)
    (hpc : s.pc = .next (arm :: rest))
    (hs : s.pollArm srv h now rest arm x = some (k, t, cs, evs)) :
    Rule srv h now s x k t cs evs := by
  cases arm with
  | bind => exact rule_of_bind ha hpc hs
  | accept => exact rule_of_accept hpc hs
  | pollReady => exact rule_of_pollReady hs hpc
  | makeService => exact rule_of_makeService hs hpc
  | shutdown =>
    cases x <;> simp only [pollArm, reduceCtorEq] at hs
    split at hs <;> obtain ⟨rfl, rfl, rfl, rfl⟩ := effect_inj hs
    next f hf => exact .shutdownBusy rest f ha hpc hf
    next hf => exact .shutdownReady rest ha hpc hf
    next hf => exact .shutdownPending rest ha hpc hf
  | graceful =>
    cases x <;> simp only [pollArm, reduceCtorEq] at hs
    split at hs <;> obtain ⟨rfl, rfl, rfl, rfl⟩ := effect_inj hs
    next f hf => exact .gracefulBusy rest f ha hpc hf
    next hf => exact .gracefulReady rest ha hpc hf
    next hf => exact .gracefulPending rest ha hpc hf
  | connEnd =>
    cases x <;> simp only [pollArm, reduceCtorEq] at hs
    split at hs <;> obtain ⟨rfl, rfl, rfl, rfl⟩ := effect_inj hs
    next f hf => exact .connEndBusy rest f ha hpc hf
    next hf => exact .connEndReady rest ha hpc hf
    next hf => exact .connEndPending rest ha hpc hf
  | sleep =>
    cases x <;> simp only [pollArm, reduceCtorEq] at hs
    split at hs
    next deadline hst =>
      by_cases hd : deadline ≤ now
      · simp only [sleepReady, hd, decide_true, if_true] at hs
        obtain ⟨rfl, rfl, rfl, rfl⟩ := effect_inj hs
        exact .graceExpired rest deadline hst hpc hd
      · simp only [sleepReady, hd, decide_false, Bool.false_eq_true, if_false] at hs
        obtain ⟨rfl, rfl, rfl, rfl⟩ := effect_inj hs
        exact .sleepPending rest deadline hst hpc (Nat.lt_of_not_le hd)
    next => cases hs

theorem rule_of_step (hs : s.step srv h now x = some (k, t, cs, evs)) :
    Rule srv h now s x k t cs evs := by
  unfold step at hs
  by_cases ha : s.stage.awaits = true
  · rw [if_pos ha] at hs
    split at hs
    next hpc =>
      obtain ⟨rfl, rfl, rfl, rfl⟩ := effect_inj hs
      exact .poll ha hpc
    next hpc =>
      obtain ⟨rfl, rfl, rfl, rfl⟩ := effect_inj hs
      exact .suspend ha hpc
    next arm rest hpc => exact rule_of_pollArm ha hpc hs
    next => cases hs
  · rw [if_neg ha] at hs
    exact rule_of_syncStep hs

end Inversion

end Serve

end AxumServer
