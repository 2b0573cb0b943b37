import AxumServer.Polling.Future
import AxumServer.Tls.Info
import AxumServer.Tokio

/-! # Acceptors that do not wait

`Accept` takes a stream and a service and returns both, changed or not. The acceptors of
this module answer at once; one of them wraps the service, so that every request is given
the local address of its connection.
-/

namespace AxumServer

open Polling

variable {W ε α I S R E O A X B Req : Type}

/-- `std::io::Error` where acceptors make and pass it. -/
inductive AcceptError (E O : Type) where
  | raw (e : E)
  /-- `io::Error::other`. -/
  | other (error : O)
  /-- `Error::new(ErrorKind::TimedOut, timeout)`. -/
  | timedOut (timeout : Elapsed)
  deriving DecidableEq, Repr

/-- `io::Result<(Stream, Service)>`, what an acceptor returns. -/
abbrev Accepted (E O X S : Type) := Except (AcceptError E O) (X × S)

structure Ready (α : Type) where
  value : Option α
  deriving DecidableEq, Repr

def ready (value : α) : Ready α := { value := some value }

def Ready.poll : PollFn W ε (Ready α) α := fun _ self =>
  match self.value with
  | some value => ⟨.ready value, { value := none }, []⟩
  | none => ⟨.halted (.panicked "`Ready` polled after completion"), self, []⟩

theorem Ready.await_ready (value : α) :
    Async.await Ready.poll (ready value) = (pure value : Async W ε α) := by
  ext1
  funext now later
  rw [Async.run_await]
  rfl

/-! ## Requests and services -/

structure LocalAddr (A : Type) where
  addr : A
  deriving DecidableEq, Repr

/-- `http::Extensions`, by type: the two types that acceptors insert, and the others. -/
structure Extensions (A X : Type) where
  tlsInfo : Option TlsInfo
  localAddr : Option (LocalAddr A)
  others : X
  deriving DecidableEq, Repr

/-- `http::Request`; `rest` is all of it but the extensions. -/
structure Request (A X B : Type) where
  extensions : Extensions A X
  rest : B
  deriving DecidableEq, Repr

/-- `Service::call`: the service that is left, and the future that is returned. -/
abbrev CallFn (S Req R : Type) := S → Req → S × R

structure LocalAddrService (S A : Type) where
  inner : S
  localAddr : LocalAddr A
  deriving DecidableEq, Repr

def LocalAddrService.call (inner : CallFn S (Request A X B) R) :
    CallFn (LocalAddrService S A) (Request A X B) R := fun self req =>
  let req := { req with extensions := { req.extensions with localAddr := some self.localAddr } }
  let (service, response) := inner self.inner req
  ({ self with inner := service }, response)

/-! ## Sockets -/

structure TcpKeepalive where
  time : Option Duration := none
  interval : Option Duration := none
  retries : Option ℕ := none
  deriving DecidableEq, Repr

/-- What acceptors ask of a `TcpStream`. -/
structure Socket (I E A : Type) where
  setNodelay : I → Bool → Except E Unit
  setTcpKeepalive : I → TcpKeepalive → Except E Unit
  localAddr : I → Except E A
  /-- The target is one of those with keepalive intervals and retries. -/
  keepaliveIntervals : Bool

structure TcpKeepaliveConfig where
  time : Option Duration := none
  interval : Option Duration := none
  retries : Option ℕ := none
  deriving DecidableEq, Repr

structure TcpSocketConfig where
  nodelay : Bool := false
  keepalive : Option TcpKeepaliveConfig := none
  deriving DecidableEq, Repr

def TcpKeepaliveConfig.toKeepalive (config : TcpKeepaliveConfig) (intervals : Bool) :
    TcpKeepalive where
  time := config.time
  interval := if intervals then config.interval else none
  retries := if intervals then config.retries else none

structure DefaultAcceptor where
  deriving DecidableEq, Repr

section Acceptors
variable (socket : Socket I E A) (stream : I) (service : S)

def DefaultAcceptor.accept : Ready (Accepted E O I S) := ready (.ok (stream, service))

def NoDelayAcceptor.accept : Ready (Accepted E O I S) :=
  ready (((socket.setNodelay stream true).mapError .raw).map fun () => (stream, service))

def LocalAddrAcceptor.accept : Ready (Accepted E O I (LocalAddrService S A)) :=
  ready (((socket.localAddr stream).mapError .raw).map fun localAddr =>
    (stream, { inner := service, localAddr := ⟨localAddr⟩ }))

/-- The closure of `TcpConfigAcceptor::accept`. -/
def TcpSocketConfig.apply (config : TcpSocketConfig) : Except E Unit := do
  if config.nodelay then
    socket.setNodelay stream true
  if let some keepalive := config.keepalive then
    socket.setTcpKeepalive stream (keepalive.toKeepalive socket.keepaliveIntervals)

def TcpConfigAcceptor.accept (config : TcpSocketConfig) : Ready (Accepted E O I S) :=
  ready (((config.apply socket stream).mapError .raw).map fun () => (stream, service))

end Acceptors

/-! ## The trait -/

/-- An implementation of `Accept` for services `S`, together with what becomes of the
requests: `call` is that of the service it returns, over that of `S`. -/
structure Acceptor (W ε I S E O Req : Type) : Type 1 where
  Service : Type
  Future : Type
  accept : I → S → Future
  poll : PollFn W ε Future (Accepted E O I Service)
  call : ∀ {R : Type}, CallFn S Req R → CallFn Service Req R

inductive PlainAcceptor where
  | default
  | noDelay
  | tcpConfig (config : TcpSocketConfig)
  | localAddr
  deriving DecidableEq, Repr

namespace PlainAcceptor

def acceptor (socket : Socket I E A) :
    PlainAcceptor → Acceptor W ε I S E O (Request A X B)
  | .default =>
    { Service := S, Future := Ready (Accepted E O I S), poll := Ready.poll
      accept := DefaultAcceptor.accept
      call := fun inner => inner }
  | .noDelay =>
    { Service := S, Future := Ready (Accepted E O I S), poll := Ready.poll
      accept := NoDelayAcceptor.accept socket
      call := fun inner => inner }
  | .tcpConfig config =>
    { Service := S, Future := Ready (Accepted E O I S), poll := Ready.poll
      accept := fun stream service => TcpConfigAcceptor.accept socket stream service config
      call := fun inner => inner }
  | .localAddr =>
    { Service := LocalAddrService S A, poll := Ready.poll
      Future := Ready (Accepted E O I (LocalAddrService S A))
      accept := LocalAddrAcceptor.accept socket
      call := LocalAddrService.call }

/-- What the acceptor does to the socket, as far as it can fail. -/
def setUp (socket : Socket I E A) (stream : I) : PlainAcceptor → Except E Unit
  | .default => .ok ()
  | .noDelay => socket.setNodelay stream true
  | .tcpConfig config => config.apply socket stream
  | .localAddr => (socket.localAddr stream).map fun _ => ()

def shows (socket : Socket I E A) (stream : I) : PlainAcceptor → Option (LocalAddr A)
  | .localAddr => (socket.localAddr stream).toOption.map .mk
  | _ => none

def original (socket : Socket I E A) : (p : PlainAcceptor) →
    (p.acceptor socket : Acceptor W ε I S E O (Request A X B)).Service → S
  | .default, service | .noDelay, service | .tcpConfig _, service => service
  | .localAddr, service => service.inner

def inserts (socket : Socket I E A) : (p : PlainAcceptor) →
    (p.acceptor socket : Acceptor W ε I S E O (Request A X B)).Service → Option (LocalAddr A)
  | .default, _ | .noDelay, _ | .tcpConfig _, _ => none
  | .localAddr, service => some service.localAddr

/-- A plain acceptor answers in the first poll: with the error of its set-up, or with the
stream and the service it was given. -/
theorem await_accept (socket : Socket I E A) (stream : I) (service : S) (p : PlainAcceptor) :
    ∃ r, Async.await (p.acceptor socket : Acceptor W ε I S E O (Request A X B)).poll
        ((p.acceptor socket : Acceptor W ε I S E O (Request A X B)).accept stream service) =
        pure r ∧
      (r.map fun (stream, service) =>
        (stream, p.original socket service, p.inserts socket service)) =
        ((p.setUp socket stream).mapError .raw).map fun () =>
          (stream, service, p.shows socket stream) := by
  cases p with
  | default => exact ⟨_, Ready.await_ready _, rfl⟩
  | noDelay =>
    refine ⟨_, Ready.await_ready _, ?_⟩
    simp only [setUp]
    cases socket.setNodelay stream true <;> rfl
  | tcpConfig config =>
    refine ⟨_, Ready.await_ready _, ?_⟩
    simp only [setUp]
    cases config.apply socket stream <;> rfl
  | localAddr =>
    refine ⟨_, Ready.await_ready _, ?_⟩
    simp only [setUp, shows]
    cases socket.localAddr stream <;> rfl

end PlainAcceptor

end AxumServer
