import AxumServer.Accept
import AxumServer.Tls.OpensslConfig
import AxumServer.Tls.RustlsConfig

/-! # The acceptor futures of the two TLS backends

Both futures wait for the acceptor below them, then start a handshake and its timer, and
poll again at once. They differ in how a handshake is started and polled, which is the
parameter `Backend`; on the side of OpenSSL the handshake is the one-shot future
`TlsAccept` of this repository. `Backend.straightLine` is the protocol they were written
for, and both refine it.
-/

namespace AxumServer

open Polling

structure TlsService (S : Type) where
  inner : S
  info : TlsInfo
  deriving DecidableEq, Repr

def TlsService.new {S : Type} (inner : S) (info : TlsInfo) : TlsService S := { inner, info }

/-- What an acceptor future does itself, besides polling others. -/
inductive TlsEvent (Cfg I : Type) where
  /-- `get_inner`, with the configuration that was read. -/
  | getInner (config : Cfg)
  /-- A handshake was started on the stream. -/
  | handshake (config : Cfg) (stream : I)
  | timeout (duration : Duration)
  deriving DecidableEq, Repr

/-- What the acceptor future of one backend is built from. `C` are the clones of a
configuration, `H` are handshakes on streams `I`, `X` finished streams and `T` timers. -/
structure Backend (W ε C Cfg I H X T Err : Type) where
  getInner : W → C → Cfg
  /-- Start a handshake. It may panic. -/
  start : Cfg → I → Except String H
  handshake : PollFn W ε H (Except Err X)
  /-- `tls_info` on a finished stream. -/
  info : X → TlsInfo
  /-- The timer of `timeout`, as it is made. -/
  sleep : W → Duration → T
  delay : PollFn W ε T Unit
  emit : TlsEvent Cfg I → ε

section Protocol
variable {W ε C Cfg I H X T S F E O : Type} (b : Backend W ε C Cfg I H X T (AcceptError E O))

/-- What comes of a handshake under its timer. -/
def handshakeEnded (info : X → TlsInfo) (service : S) :
    Except Elapsed (Except (AcceptError E O) X) → Accepted E O X (TlsService S)
  | .ok (.ok stream) => .ok (stream, TlsService.new service (info stream))
  | .ok (.error e) => .error e
  | .error timeout => .error (.timedOut timeout)

/-- The protocol: wait for the acceptor below, read the configuration, start the handshake
and its timer, wait for both. -/
def Backend.straightLine (inner : Async W ε (Accepted E O I S)) (config : C)
    (handshakeTimeout : Duration) : Async W ε (Accepted E O X (TlsService S)) := do
  match ← inner with
  | .error e => return .error e
  | .ok (stream, service) =>
    let now ← Async.here
    let serverConfig := b.getInner now config
    Async.perform [b.emit (.getInner serverConfig)]
    let tls ← Async.unwrap (b.start serverConfig stream)
    Async.perform [b.emit (.handshake serverConfig stream), b.emit (.timeout handshakeTimeout)]
    let ended ← Async.await (timeout b.handshake b.delay) (tls, b.sleep now handshakeTimeout)
    return handshakeEnded b.info service ended

end Protocol

/-! ## The futures -/

/-- `AcceptFuture`; the handshake is in a `Timeout` together with its timer. -/
inductive Tls.AcceptFuture (F H T S : Type) where
  | inner (future : F) (handshakeTimeout : Duration)
  | accept (future : H × T) (service : Option S)
  deriving DecidableEq, Repr

/-- `RustlsAcceptorFuture` and `OpenSSLAcceptorFuture`. -/
structure AcceptorFuture (F H T C S : Type) where
  inner : Tls.AcceptFuture F H T S
  config : Option C
  deriving DecidableEq, Repr

namespace AcceptorFuture

variable {W ε C Cfg I H X T S F E O : Type}

def new (future : F) (config : C) (handshakeTimeout : Duration) : AcceptorFuture F H T C S :=
  { inner := .inner future handshakeTimeout, config := some config }

def accepting (service : S) (config : Option C) (future : H × T) : AcceptorFuture F H T C S :=
  { inner := .accept future (some service), config }

def turnInner (b : Backend W ε C Cfg I H X T (AcceptError E O)) (now : W) (config : Option C)
    (handshakeTimeout : Duration) (r : Answer ε F (Accepted E O I S)) :
    Turn ε (AcceptorFuture F H T C S) (Accepted E O X (TlsService S)) :=
  let self := { inner := .inner r.state handshakeTimeout, config }
  match r.verdict with
  | .ready (.ok (stream, service)) =>
    match config with
    | none =>
      .stop ⟨.halted (.panicked
        "config is not set. this is a bug in axum-server, please report"), self, r.did⟩
    | some config =>
      let serverConfig := b.getInner now config
      let did := r.did ++ [b.emit (.getInner serverConfig)]
      match b.start serverConfig stream with
      | .error message => .stop ⟨.halted (.panicked message), { self with config := none }, did⟩
      | .ok future =>
        .again (accepting service none (future, b.sleep now handshakeTimeout))
          (did ++ [b.emit (.handshake serverConfig stream), b.emit (.timeout handshakeTimeout)])
  | .ready (.error e) => .stop ⟨.ready (.error e), self, r.did⟩
  | .pending => .stop ⟨.pending, self, r.did⟩
  | .halted why => .stop ⟨.halted why, self, r.did⟩

/-- The turn in which the handshake and its timer were polled, with the answer `r`. -/
def turnAccept (b : Backend W ε C Cfg I H X T (AcceptError E O)) (config : Option C)
    (service : Option S) (r : Answer ε (H × T) (Except Elapsed (Except (AcceptError E O) X))) :
    Turn ε (AcceptorFuture F H T C S) (Accepted E O X (TlsService S)) :=
  let self := { inner := .accept r.state service, config }
  match r.verdict with
  | .ready (.ok (.ok stream)) =>
    match service with
    | none => .stop ⟨.halted (.panicked "future polled after ready"), self, r.did⟩
    | some service =>
      .stop ⟨.ready (.ok (stream, TlsService.new service (b.info stream))),
        { self with inner := .accept r.state none }, r.did⟩
  | .ready (.ok (.error e)) => .stop ⟨.ready (.error e), self, r.did⟩
  | .ready (.error timeout) => .stop ⟨.ready (.error (.timedOut timeout)), self, r.did⟩
  | .pending => .stop ⟨.pending, self, r.did⟩
  | .halted why => .stop ⟨.halted why, self, r.did⟩

def turn (b : Backend W ε C Cfg I H X T (AcceptError E O))
    (poll : PollFn W ε F (Accepted E O I S)) (now : W)
    (self : AcceptorFuture F H T C S) :
    Turn ε (AcceptorFuture F H T C S) (Accepted E O X (TlsService S)) :=
  match self.inner with
  | .inner future handshakeTimeout =>
    turnInner b now self.config handshakeTimeout (poll now future)
  | .accept future service =>
    turnAccept b self.config service (timeout b.handshake b.delay now future)

section Loop
variable (b : Backend W ε C Cfg I H X T (AcceptError E O))
  (poll : PollFn W ε F (Accepted E O I S))

theorem turnAccept_stop (config : Option C) (service : Option S)
    (r : Answer ε (H × T) (Except Elapsed (Except (AcceptError E O) X))) :
    ∃ r', (turnAccept b config service r : Turn ε (AcceptorFuture F H T C S) _) = .stop r' ∧
      r'.did = r.did ∧ ∃ future service, r'.state.inner = .accept future service := by
  obtain ⟨(timeout | (e | stream)) | _ | why, state, did⟩ := r
  · exact ⟨_, rfl, rfl, _, _, rfl⟩
  · exact ⟨_, rfl, rfl, _, _, rfl⟩
  · cases service with
    | none => exact ⟨_, rfl, rfl, _, _, rfl⟩
    | some service => exact ⟨_, rfl, rfl, _, _, rfl⟩
  · exact ⟨_, rfl, rfl, _, _, rfl⟩
  · exact ⟨_, rfl, rfl, _, _, rfl⟩

/-- Unless the acceptor below is ready with a stream the turn is the last, and nothing but
that acceptor has moved. -/
theorem turnInner_of_not_ready (config : Option C) (handshakeTimeout : Duration)
    {r : Answer ε F (Accepted E O I S)} (h : ∀ accepted, r.verdict ≠ .ready (.ok accepted)) :
    ∃ r', (∀ now, (turnInner b now config handshakeTimeout r :
        Turn ε (AcceptorFuture F H T C S) _) = .stop r') ∧
      r'.did = r.did ∧ r'.state = { inner := .inner r.state handshakeTimeout, config } := by
  obtain ⟨(e | accepted) | _ | why, state, did⟩ := r
  · exact ⟨_, fun _ => rfl, rfl, rfl⟩
  · exact absurd rfl (h accepted)
  · exact ⟨_, fun _ => rfl, rfl, rfl⟩
  · exact ⟨_, fun _ => rfl, rfl, rfl⟩

/-- When it is ready the configuration is read, and the handshake starts or panics. -/
theorem turnInner_of_ready (now : W) (config : C) (handshakeTimeout : Duration)
    {r : Answer ε F (Accepted E O I S)} {stream : I} {service : S}
    (h : r.verdict = .ready (.ok (stream, service))) :
    (∃ message left, (turnInner b now (some config) handshakeTimeout r :
        Turn ε (AcceptorFuture F H T C S) _) =
      .stop ⟨.halted (.panicked message), left,
        r.did ++ [b.emit (.getInner (b.getInner now config))]⟩) ∨
    ∃ tls, (turnInner b now (some config) handshakeTimeout r :
        Turn ε (AcceptorFuture F H T C S) _) =
      .again (accepting service none (tls, b.sleep now handshakeTimeout))
        (r.did ++ [b.emit (.getInner (b.getInner now config))] ++
          [b.emit (.handshake (b.getInner now config) stream),
            b.emit (.timeout handshakeTimeout)]) := by
  simp only [turnInner, h]
  cases b.start (b.getInner now config) stream with
  | error message => exact .inl ⟨message, _, rfl⟩
  | ok tls => exact .inr ⟨tls, rfl⟩

theorem twoTurns : TwoTurns (turn b poll : W → AcceptorFuture F H T C S → _) := by
  rintro now ⟨⟨future, handshakeTimeout⟩ | ⟨future, service⟩, config⟩
  · by_cases hready : ∃ accepted, (poll now future).verdict = .ready (.ok accepted)
    · obtain ⟨⟨stream, service⟩, hready⟩ := hready
      cases config with
      | none => exact .inl ⟨_, by simp only [turn, turnInner, hready]; rfl⟩
      | some config =>
        rcases turnInner_of_ready b now config handshakeTimeout hready with
          ⟨message, left, hstop⟩ | ⟨tls, hagain⟩
        · exact .inl ⟨_, hstop⟩
        · obtain ⟨r, hr, -⟩ := turnAccept_stop b none (some service)
            (timeout b.handshake b.delay now (tls, b.sleep now handshakeTimeout))
          exact .inr ⟨_, _, r, hagain, hr⟩
    · obtain ⟨r, hr, -⟩ := turnInner_of_not_ready b config handshakeTimeout (not_exists.mp hready)
      exact .inl ⟨r, hr now⟩
  · obtain ⟨r, hr, -⟩ := turnAccept_stop b config service
      (timeout b.handshake b.delay now future)
    exact .inl ⟨r, hr⟩

/-- How a call goes on when the acceptor below is ready; `left` is the state it leaves
when it returns at once. -/
def resume (more : ℕ) (config : C) (handshakeTimeout : Duration) (left : AcceptorFuture F H T C S)
    (now : W) : Accepted E O I S →
      Answer ε (AcceptorFuture F H T C S) (Accepted E O X (TlsService S))
  | .error e => ⟨.ready (.error e), left, []⟩
  | .ok (stream, service) =>
    let serverConfig := b.getInner now config
    match b.start serverConfig stream with
    | .error message => ⟨.halted (.panicked message), left, [b.emit (.getInner serverConfig)]⟩
    | .ok tls =>
      (loop (turn b poll) (more + 1) now
        (accepting service none (tls, b.sleep now handshakeTimeout))).after
        [b.emit (.getInner serverConfig), b.emit (.handshake serverConfig stream),
          b.emit (.timeout handshakeTimeout)]

variable {b poll}

theorem loop_inner (more : ℕ) (now : W) (future : F) (config : C) (handshakeTimeout : Duration)
    (left : AcceptorFuture F H T C S) :
    (loop (turn b poll) (2 + more) now (new future config handshakeTimeout)).Alike Eq
      ((poll now future).within (new · config handshakeTimeout)
        (resume b poll more config handshakeTimeout left now)) := by
  rw [show 2 + more = more + 1 + 1 by omega, loop]
  simp only [turn, new]
  generalize poll now future = r
  obtain ⟨(e | ⟨stream, service⟩) | _ | why, state, did⟩ := r
  · exact ⟨rfl, (List.append_nil did).symm, fun h => by cases h⟩
  · simp only [turnInner, Answer.within, resume]
    cases hstart : b.start (b.getInner now config) stream with
    | error message => exact ⟨rfl, rfl, fun h => by cases h⟩
    | ok tls => exact ⟨rfl, by simp [Answer.after], fun _ => rfl⟩
  · exact ⟨rfl, rfl, fun _ => rfl⟩
  · exact ⟨rfl, rfl, fun h => by cases h⟩

theorem loop_accept (more : ℕ) (now : W) (future : H × T) (service : S) (config : Option C)
    (left : AcceptorFuture F H T C S) :
    (loop (turn b poll) (more + 1) now (accepting service config future)).Alike Eq
      ((timeout b.handshake b.delay now future).within (accepting service config)
        fun ended => ⟨.ready (handshakeEnded b.info service ended), left, []⟩) := by
  rw [loop]
  simp only [turn, accepting]
  generalize timeout b.handshake b.delay now future = r
  obtain ⟨(timeout | (e | stream)) | _ | why, state, did⟩ := r
  · exact ⟨rfl, (List.append_nil did).symm, fun h => by cases h⟩
  · exact ⟨rfl, (List.append_nil did).symm, fun h => by cases h⟩
  · exact ⟨rfl, (List.append_nil did).symm, fun h => by cases h⟩
  · exact ⟨rfl, rfl, fun _ => rfl⟩
  · exact ⟨rfl, rfl, fun h => by cases h⟩

theorem await_accepting (more : ℕ) (service : S) (config : Option C) (future : H × T) :
    Async.await (loop (turn b poll : W → AcceptorFuture F H T C S → _) (more + 1))
        (accepting service config future) =
      Async.await (timeout b.handshake b.delay) future >>=
        fun ended => pure (handshakeEnded b.info service ended) :=
  Async.await_seq (accepting service config)
    (fun _ ended =>
      ⟨.ready (handshakeEnded b.info service ended), accepting service config future, []⟩)
    (fun now x => loop_accept more now x service config _) future

/-- The future refines the straight-line protocol. -/
theorem await_new (more : ℕ) (future : F) (config : C) (handshakeTimeout : Duration) :
    Async.await (loop (turn b poll : W → AcceptorFuture F H T C S → _) (2 + more))
        (new future config handshakeTimeout) =
      b.straightLine (Async.await poll future) config handshakeTimeout := by
  rw [Async.await_seq (new · config handshakeTimeout)
    (resume b poll more config handshakeTimeout (new future config handshakeTimeout))
    fun now x => loop_inner more now x config handshakeTimeout _]
  rw [Backend.straightLine]
  congr 1
  funext r
  cases r with
  | error e => rfl
  | ok accepted =>
    obtain ⟨stream, service⟩ := accepted
    ext1
    funext now later
    simp only [resume, Async.proceed, Async.run_here_bind, Async.run_perform_bind]
    cases hstart : b.start (b.getInner now config) stream with
    | error message => rfl
    | ok tls =>
      -- From here on a call is over in one turn, however many are left.
      have hcall : loop (turn b poll) (more + 1) now
          (accepting service none (tls, b.sleep now handshakeTimeout)) =
          loop (turn b poll) (2 + more) now
            (accepting service none (tls, b.sleep now handshakeTimeout)) := by
        obtain ⟨r, hr, -⟩ := turnAccept_stop b none (some service)
          (timeout b.handshake b.delay now (tls, b.sleep now handshakeTimeout))
        rw [show 2 + more = more + 1 + 1 by omega, loop_stop hr, loop_stop hr]
      have hrest : Async.await (loop (turn b poll) (2 + more))
          (accepting service none (tls, b.sleep now handshakeTimeout)) =
          Async.await (timeout b.handshake b.delay) (tls, b.sleep now handshakeTimeout) >>=
            fun ended => pure (handshakeEnded b.info service ended) := by
        rw [show 2 + more = more + 1 + 1 by omega]
        exact await_accepting (more + 1) service none _
      simp only [Async.settle_after, hcall, ← Async.run_await, hrest, Async.run_unwrap_ok_bind,
        Async.run_perform_bind, Run.after_after]
      rfl

end Loop

end AcceptorFuture

section Halts
variable {W ε C Cfg I H X T S F E O : Type} {b : Backend W ε C Cfg I H X T (AcceptError E O)}
  {poll : PollFn W ε F (Accepted E O I S)}

/-- How the calls that an acceptor future makes can halt. -/
inductive Backend.MayHalt (b : Backend W ε C Cfg I H X T (AcceptError E O))
    (poll : PollFn W ε F (Accepted E O I S)) (why : Halt) : Prop
  | inner (h : poll.Halts why)
  | start (config : Cfg) (stream : I) (message : String)
      (h : b.start config stream = .error message) (text : why = .panicked message)
  | handshake (h : b.handshake.Halts why)
  | delay (h : b.delay.Halts why)

/-- The protocol adds no panic of its own. -/
theorem Backend.straightLine_haltsOnly (future : F) (config : C) (handshakeTimeout : Duration) :
    (b.straightLine (Async.await poll future) config handshakeTimeout).HaltsOnly
      (b.MayHalt poll) := by
  refine ((Async.haltsOnly_await poll future).mono fun why => MayHalt.inner).bind fun r => ?_
  cases r with
  | error e => exact Async.haltsOnly_pure _
  | ok accepted =>
    refine Async.haltsOnly_here.bind fun now => ?_
    refine (Async.haltsOnly_perform _).bind fun _ => ?_
    refine (Async.haltsOnly_unwrap fun message h => .start _ _ message h rfl).bind fun tls => ?_
    refine (Async.haltsOnly_perform _).bind fun _ => ?_
    refine ((Async.haltsOnly_await _ _).mono ?_).bind fun _ => Async.haltsOnly_pure _
    intro why h
    rcases h.of_timeout with h | h
    · exact .handshake h
    · exact .delay h

end Halts

/-! ## The acceptors -/

/-- `RustlsAcceptor` and `OpenSSLAcceptor`, over the acceptor `A`. -/
structure TlsAcceptor (C : Type) (A : Type*) where
  inner : A
  config : C
  handshakeTimeout : Duration
  deriving DecidableEq, Repr

namespace TlsAcceptor

def new {C : Type} (config : C) : TlsAcceptor C DefaultAcceptor :=
  { inner := {}, config, handshakeTimeout := Duration.fromMillis 10000 }

def withHandshakeTimeout {C : Type} (self : TlsAcceptor C DefaultAcceptor) (val : Duration) :
    TlsAcceptor C DefaultAcceptor :=
  { self with handshakeTimeout := val }

def acceptor {C : Type} {A B : Type*} (self : TlsAcceptor C A) (acceptor : B) : TlsAcceptor C B :=
  { inner := acceptor, config := self.config, handshakeTimeout := self.handshakeTimeout }

/-- `Accept::accept`; `innerAccept` is that of the acceptor below. -/
def accept {C J S₀ S F H T : Type} {A : Type*} (innerAccept : A → J → S₀ → F)
    (self : TlsAcceptor C A) (stream : J) (service : S₀) : AcceptorFuture F H T C S :=
  let innerFuture := innerAccept self.inner stream service
  AcceptorFuture.new innerFuture self.config self.handshakeTimeout

end TlsAcceptor

namespace TlsRustls

variable {W ε C V I H X T S F E O : Type}

/-- What `RustlsAcceptorFuture` calls: the configurations of this repository, rustls and
tokio. -/
structure Runtime (W ε C V I H X T E O : Type) where
  /-- The cell that a clone points to, as a poll finds it. -/
  cell : W → C → RustlsConfig V
  /-- `TlsAcceptor::from(config).accept(stream)`. -/
  accept : ServerConfig V → I → H
  /-- `Accept::poll`. -/
  pollAccept : PollFn W ε H (Except (AcceptError E O) X)
  /-- The connection of `TlsStream::get_ref`. -/
  connection : X → ServerConnection
  sleep : W → Duration → T
  pollSleep : PollFn W ε T Unit
  emit : TlsEvent (ServerConfig V) I → ε

def Runtime.backend (rt : Runtime W ε C V I H X T E O) :
    Backend W ε C (ServerConfig V) I H X T (AcceptError E O) where
  getInner now config := (rt.cell now config).getInner
  start config stream := .ok (rt.accept config stream)
  handshake := rt.pollAccept
  info stream := tlsInfo (rt.connection stream)
  sleep := rt.sleep
  delay := rt.pollSleep
  emit := rt.emit

def RustlsAcceptorFuture.turn (rt : Runtime W ε C V I H X T E O)
    (poll : PollFn W ε F (Accepted E O I S)) :
    W → AcceptorFuture F H T C S →
      Turn ε (AcceptorFuture F H T C S) (Accepted E O X (TlsService S)) :=
  AcceptorFuture.turn rt.backend poll

end TlsRustls

namespace TlsOpenssl

variable {W ε C A I L X T S F E O ErrorStack X509 : Type}

/-- What `OpenSSLAcceptorFuture` calls: the configurations of this repository, openssl and
tokio. -/
structure Runtime (W ε C A I L X T O ErrorStack X509 : Type) where
  /-- The cell that a clone points to, as a poll finds it. -/
  cell : W → C → OpenSSLConfig A
  /-- `Ssl::new`, at the context of an acceptor. -/
  sslNew : A → Except ErrorStack L
  /-- `SslStream::new`. -/
  streamNew : L → I → Except ErrorStack X
  /-- `SslStream::poll_accept`. -/
  pollAccept : PollFn W ε X (Except O Unit)
  ssl : X → SslRef X509
  toDer : X509 → Except ErrorStack Bytes
  /-- The text of an error in a panic. -/
  debug : ErrorStack → String
  sleep : W → Duration → T
  pollSleep : PollFn W ε T Unit
  emit : TlsEvent A I → ε

structure TlsAccept (X : Type) where
  tlsStream : Option X
  deriving DecidableEq, Repr

def TlsAccept.poll (pollAccept : PollFn W ε X (Except O Unit)) :
    PollFn W ε (TlsAccept X) (Except (AcceptError E O) X) := fun now self =>
  match self.tlsStream with
  | none => ⟨.halted (.panicked "tlsaccept polled after ready"), self, []⟩
  | some inner =>
    let r := pollAccept now inner
    let self : TlsAccept X := ⟨some r.state⟩
    match r.verdict with
    | .ready (.ok ()) =>
      match self.tlsStream with
      | none => ⟨.halted (.panicked "tls stream vanished?"), self, r.did⟩
      | some tlsStream => ⟨.ready (.ok tlsStream), ⟨none⟩, r.did⟩
    | .ready (.error e) => ⟨.ready (.error (.other e)), self, r.did⟩
    | .pending => ⟨.pending, self, r.did⟩
    | .halted why => ⟨.halted why, self, r.did⟩

variable (rt : Runtime W ε C A I L X T O ErrorStack X509)

namespace Runtime

/-- `Result::unwrap`. -/
def unwrapped {α : Type} (r : Except ErrorStack α) : Except String α :=
  r.mapError fun e => "called `Result::unwrap()` on an `Err` value: " ++ rt.debug e

/-- The new stream that the handshake will run on. -/
def sslStream (acceptor : A) (stream : I) : Except String X := do
  let ssl ← rt.unwrapped (rt.sslNew acceptor)
  rt.unwrapped (rt.streamNew ssl stream)

def backend : Backend W ε C A I (TlsAccept X) X T (AcceptError E O) where
  getInner now config := (rt.cell now config).getInner
  start acceptor stream :=
    (rt.sslStream acceptor stream).map fun tlsStream => { tlsStream := some tlsStream }
  handshake := TlsAccept.poll rt.pollAccept
  info stream := tlsInfo rt.toDer (rt.ssl stream)
  sleep := rt.sleep
  delay := rt.pollSleep
  emit := rt.emit

def handshake : PollFn W ε X (Except (AcceptError E O) X) := fun now s =>
  let r := rt.pollAccept now s
  match r.verdict with
  | .ready (.ok ()) => ⟨.ready (.ok r.state), r.state, r.did⟩
  | .ready (.error e) => ⟨.ready (.error (.other e)), r.state, r.did⟩
  | .pending => ⟨.pending, r.state, r.did⟩
  | .halted why => ⟨.halted why, r.state, r.did⟩

/-- The backend without `TlsAccept`: the handshake is the stream that is polled. -/
def direct : Backend W ε C A I X X T (AcceptError E O) :=
  { rt.backend (E := E) with start := rt.sslStream, handshake := rt.handshake }

end Runtime

def OpenSSLAcceptorFuture.turn (poll : PollFn W ε F (Accepted E O I S)) :
    W → AcceptorFuture F (TlsAccept X) T C S →
      Turn ε (AcceptorFuture F (TlsAccept X) T C S) (Accepted E O X (TlsService S)) :=
  AcceptorFuture.turn rt.backend poll

/-- `TlsAccept` is the stream it holds, until that is ready. -/
theorem TlsAccept.poll_alike (now : W) (s : X) :
    (TlsAccept.poll (E := E) rt.pollAccept now ⟨some s⟩).Alike (fun self s => self = ⟨some s⟩)
      (rt.handshake now s) := by
  simp only [TlsAccept.poll, Runtime.handshake]
  generalize rt.pollAccept now s = r
  obtain ⟨(e | ⟨⟨⟩⟩) | _ | why, state, did⟩ := r
  · exact ⟨rfl, rfl, fun h => by cases h⟩
  · exact ⟨rfl, rfl, fun h => by cases h⟩
  · exact ⟨rfl, rfl, fun _ => rfl⟩
  · exact ⟨rfl, rfl, fun h => by cases h⟩

/-- With `TlsAccept` or without it the protocol is the same. -/
theorem straightLine_direct (inner : Async W ε (Accepted E O I S)) (config : C)
    (handshakeTimeout : Duration) :
    rt.backend.straightLine inner config handshakeTimeout =
      rt.direct.straightLine inner config handshakeTimeout := by
  have hawait : ∀ (s : X) (t : T),
      Async.await (timeout (TlsAccept.poll (E := E) rt.pollAccept) rt.pollSleep) (⟨some s⟩, t) =
        Async.await (timeout rt.handshake rt.pollSleep) (s, t) := by
    intro s t
    apply Async.await_congr (R := fun x y => x.1 = ⟨some y.1⟩ ∧ x.2 = y.2) ?_ ⟨rfl, rfl⟩
    rintro now ⟨self, t⟩ ⟨s, t'⟩ ⟨hself, ht⟩
    obtain rfl : self = ⟨some s⟩ := hself
    obtain rfl : t = t' := ht
    exact timeout_alike (TlsAccept.poll_alike rt now s) rt.pollSleep t
  rw [Backend.straightLine, Backend.straightLine]
  congr 1
  funext r
  cases r with
  | error e => rfl
  | ok accepted =>
    obtain ⟨stream, service⟩ := accepted
    ext1
    funext now later
    simp only [Async.run_here_bind, Async.run_perform_bind]
    simp only [Runtime.direct, Runtime.backend]
    cases rt.sslStream (rt.cell now config).getInner stream with
    | error message => rfl
    | ok s => simp only [Except.map, Async.run_unwrap_ok_bind, Async.run_perform_bind, hawait]

end TlsOpenssl

/-- Both acceptor futures refine the straight-line protocol. -/
theorem acceptorFutures_refine {W ε C J S₀ F I S T E O : Type} {A : Type*} :
    (∀ {V H X : Type} (rt : TlsRustls.Runtime W ε C V I H X T E O)
      (poll : PollFn W ε F (Accepted E O I S)) (innerAccept : A → J → S₀ → F)
      (acceptor : TlsAcceptor C A) (stream : J) (service : S₀),
      Refines (TlsRustls.RustlsAcceptorFuture.turn rt poll)
        (acceptor.accept innerAccept stream service)
        (rt.backend.straightLine (Async.await poll (innerAccept acceptor.inner stream service))
          acceptor.config acceptor.handshakeTimeout)
        (rt.backend.MayHalt poll)) ∧
    (∀ {B L X ErrorStack X509 : Type} (rt : TlsOpenssl.Runtime W ε C B I L X T O ErrorStack X509)
      (poll : PollFn W ε F (Accepted E O I S)) (innerAccept : A → J → S₀ → F)
      (acceptor : TlsAcceptor C A) (stream : J) (service : S₀),
      Refines (TlsOpenssl.OpenSSLAcceptorFuture.turn rt poll)
        (acceptor.accept innerAccept stream service)
        (rt.direct.straightLine (Async.await poll (innerAccept acceptor.inner stream service))
          acceptor.config acceptor.handshakeTimeout)
        (rt.direct.MayHalt poll)) := by
  constructor
  · intro V H X rt poll innerAccept acceptor stream service
    have hsame : ∀ more, Async.await (loop (AcceptorFuture.turn rt.backend poll) (2 + more))
        (acceptor.accept innerAccept stream service) = _ :=
      fun more => AcceptorFuture.await_new more _ acceptor.config acceptor.handshakeTimeout
    refine ⟨hsame, AcceptorFuture.twoTurns rt.backend poll, fun more => ?_⟩
    rw [TlsRustls.RustlsAcceptorFuture.turn, hsame]
    exact Backend.straightLine_haltsOnly _ acceptor.config acceptor.handshakeTimeout
  · intro B L X ErrorStack X509 rt poll innerAccept acceptor stream service
    have hsame : ∀ more, Async.await (loop (AcceptorFuture.turn rt.backend poll) (2 + more))
        (acceptor.accept innerAccept stream service) = _ := fun more =>
      (AcceptorFuture.await_new more _ acceptor.config acceptor.handshakeTimeout).trans
        (TlsOpenssl.straightLine_direct rt _ acceptor.config acceptor.handshakeTimeout)
    refine ⟨hsame, AcceptorFuture.twoTurns rt.backend poll, fun more => ?_⟩
    rw [TlsOpenssl.OpenSSLAcceptorFuture.turn, hsame]
    exact Backend.straightLine_haltsOnly _ acceptor.config acceptor.handshakeTimeout

end AxumServer
