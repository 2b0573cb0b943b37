import AxumServer.Tls.AcceptorFuture

/-! # TLS acceptors on top of each other

A plain acceptor under any number of TLS acceptors. The streams are wrapped from the
inside out, as a loop over the acceptors from the innermost on. The services are wrapped
in the same order, so a request meets the outermost wrapper first and the innermost last;
they all write the same extension.
-/

namespace AxumServer

open Polling

def TlsService.call {S A X B R : Type} (inner : CallFn S (Request A X B) R) :
    CallFn (TlsService S) (Request A X B) R := fun self req =>
  let req := { req with extensions := { req.extensions with tlsInfo := some self.info } }
  let (service, response) := inner self.inner req
  ({ self with inner := service }, response)

/-- A TLS acceptor of one of the backends, before it is put on top of another acceptor.
Streams of all layers are of one type `I`. -/
structure TlsLayer (W ε I E O : Type) : Type 1 where
  {C Cfg H T : Type}
  backend : Backend W ε C Cfg I H I T (AcceptError E O)
  self : TlsAcceptor C DefaultAcceptor

def TlsLayer.rustls {W ε I C V H T E O : Type}
    (rt : TlsRustls.Runtime W ε C V I H I T E O) (self : TlsAcceptor C DefaultAcceptor) :
    TlsLayer W ε I E O := { backend := rt.backend, self }

def TlsLayer.openssl {W ε I C D L T E O ErrorStack X509 : Type}
    (rt : TlsOpenssl.Runtime W ε C D I L I T O ErrorStack X509)
    (self : TlsAcceptor C DefaultAcceptor) :
    TlsLayer W ε I E O := { backend := rt.backend, self }

variable {W ε I S E O A X B : Type}

/-- `self.acceptor(inner)`, as an acceptor. -/
def TlsLayer.over (layer : TlsLayer W ε I E O) (inner : Acceptor W ε I S E O (Request A X B)) :
    Acceptor W ε I S E O (Request A X B) where
  Service := TlsService inner.Service
  Future := AcceptorFuture inner.Future layer.H layer.T layer.C inner.Service
  accept := (layer.self.acceptor inner).accept fun _ => inner.accept
  poll := loop (AcceptorFuture.turn layer.backend inner.poll) 2
  call := fun handler => TlsService.call (inner.call handler)

/-- A plain acceptor under TLS acceptors, the outermost first. -/
def stack (socket : Socket I E A) (plain : PlainAcceptor) :
    List (TlsLayer W ε I E O) → Acceptor W ε I S E O (Request A X B)
  | [] => plain.acceptor socket
  | layer :: below => layer.over (stack socket plain below)

/-! ## Climbing the stack -/

/-- The part of the protocol that one layer adds: a handshake on a stream, and what it
tells. -/
def Backend.secure {C Cfg H T Y : Type} (b : Backend W ε C Cfg I H Y T (AcceptError E O))
    (config : C) (handshakeTimeout : Duration) (stream : I) :
    Async W ε (Except (AcceptError E O) (Y × TlsInfo)) := do
  let now ← Async.here
  let serverConfig := b.getInner now config
  Async.perform [b.emit (.getInner serverConfig)]
  let tls ← Async.unwrap (b.start serverConfig stream)
  Async.perform [b.emit (.handshake serverConfig stream), b.emit (.timeout handshakeTimeout)]
  let ended ← Async.await (timeout b.handshake b.delay) (tls, b.sleep now handshakeTimeout)
  return match ended with
    | .ok (.ok stream) => .ok (stream, b.info stream)
    | .ok (.error e) => .error e
    | .error timeout => .error (.timedOut timeout)

theorem Backend.straightLine_eq_secure {C Cfg H T Y : Type}
    (b : Backend W ε C Cfg I H Y T (AcceptError E O)) (inner : Async W ε (Accepted E O I S))
    (config : C) (handshakeTimeout : Duration) :
    b.straightLine inner config handshakeTimeout = inner >>= fun r =>
      match r with
      | .error e => pure (.error e)
      | .ok (stream, service) => b.secure config handshakeTimeout stream >>= fun r =>
        pure (r.map fun (stream, info) => (stream, TlsService.new service info)) := by
  rw [straightLine]
  congr 1
  funext r
  cases r with
  | error e => rfl
  | ok accepted =>
    simp only [secure, bind_assoc, pure_bind]
    congr 1
    funext now
    congr 1
    funext u
    congr 1
    funext tls
    congr 1
    funext u
    congr 1
    funext ended
    rcases ended with timeout | (e | stream) <;> rfl

def TlsLayer.secure (layer : TlsLayer W ε I E O) (stream : I) :
    ExceptT (AcceptError E O) (Async W ε) (I × TlsInfo) :=
  ExceptT.mk (layer.backend.secure layer.self.config layer.self.handshakeTimeout stream)

/-- The loop that a stack amounts to: from the innermost layer on, one handshake after the
other, each on the stream before it, until one fails. It collects what they tell. -/
def establish (socket : Socket I E A) (plain : PlainAcceptor) (layers : List (TlsLayer W ε I E O))
    (stream : I) : ExceptT (AcceptError E O) (Async W ε) (I × List TlsInfo) := do
  ExceptT.mk (pure ((plain.setUp socket stream).mapError .raw))
  layers.foldrM (fun layer (stream, sessions) => do
    let (stream, info) ← layer.secure stream
    return (stream, sessions ++ [info])) (stream, [])

/-- What there is inside the service that a stack returns. -/
structure Handed (S A : Type) where
  original : S
  localAddr : Option (LocalAddr A)
  /-- The `TlsInfo` of the layers, the innermost first. -/
  sessions : List TlsInfo

def handed (socket : Socket I E A) (plain : PlainAcceptor) :
    (layers : List (TlsLayer W ε I E O)) →
      (stack socket plain layers : Acceptor W ε I S E O (Request A X B)).Service → Handed S A
  | [], service =>
    { original := plain.original socket service, localAddr := plain.inserts socket service,
      sessions := [] }
  | _ :: below, service =>
    let inner := handed socket plain below service.inner
    { inner with sessions := inner.sessions ++ [service.info] }

section Climb
variable (socket : Socket I E A) (plain : PlainAcceptor)

theorem establish_nil (stream : I) :
    (establish socket plain ([] : List (TlsLayer W ε I E O)) stream).run =
      pure (((plain.setUp socket stream).mapError .raw).map fun () => (stream, [])) := by
  simp only [establish, List.foldrM_nil, ExceptT.run_bind]
  cases plain.setUp socket stream <;> rfl

theorem establish_cons (layer : TlsLayer W ε I E O) (below : List (TlsLayer W ε I E O))
    (stream : I) :
    establish socket plain (layer :: below) stream = (do
      let (stream, sessions) ← establish socket plain below stream
      let (stream, info) ← layer.secure stream
      return (stream, sessions ++ [info])) := by
  simp only [establish, List.foldrM_cons, bind_assoc]

def shown (layers : List (TlsLayer W ε I E O)) :
    Accepted E O I (stack socket plain layers : Acceptor W ε I S E O (Request A X B)).Service →
      Except (AcceptError E O) (I × Handed S A) :=
  Except.map fun (stream, service) => (stream, handed socket plain layers service)

def assembled (stream : I) (service : S) :
    Except (AcceptError E O) (I × List TlsInfo) → Except (AcceptError E O) (I × Handed S A) :=
  Except.map fun (last, sessions) =>
    (last, { original := service, localAddr := plain.shows socket stream, sessions })

variable {socket plain}

def TlsLayer.extend (layer : TlsLayer W ε I E O) :
    Except (AcceptError E O) (I × Handed S A) →
      Async W ε (Except (AcceptError E O) (I × Handed S A))
  | .error e => pure (.error e)
  | .ok (stream, parts) => (layer.secure stream).run >>= fun r =>
    pure (r.map fun (stream, info) =>
      (stream, { parts with sessions := parts.sessions ++ [info] }))

theorem shown_cons (layer : TlsLayer W ε I E O) (below : List (TlsLayer W ε I E O)) (stream : I)
    (service : S) :
    shown (X := X) (B := B) socket plain (layer :: below) <$>
        Async.await (stack socket plain (layer :: below)).poll
          ((stack socket plain (layer :: below)).accept stream service) =
      shown (X := X) (B := B) socket plain below <$>
        Async.await (stack socket plain below).poll
          ((stack socket plain below).accept stream service) >>= layer.extend := by
  have hpoll : Async.await (stack (X := X) (B := B) socket plain (layer :: below)).poll
      ((stack socket plain (layer :: below)).accept stream service) =
      layer.backend.straightLine (Async.await (stack (X := X) (B := B) socket plain below).poll
        ((stack socket plain below).accept stream service)) layer.self.config
        layer.self.handshakeTimeout :=
    AcceptorFuture.await_new 0 _ layer.self.config layer.self.handshakeTimeout
  rw [Backend.straightLine_eq_secure] at hpoll
  refine (congrArg (shown socket plain (layer :: below) <$> ·) hpoll).trans ?_
  refine (map_bind _ _ _).trans (Eq.trans ?_ (bind_map_left _ _ _).symm)
  congr 1
  funext r
  cases r with
  | error e => rfl
  | ok accepted =>
    obtain ⟨s, inner⟩ := accepted
    refine (map_bind _ _ _).trans ?_
    congr 1
    funext r
    cases r <;> rfl

theorem assembled_cons (layer : TlsLayer W ε I E O) (below : List (TlsLayer W ε I E O))
    (stream : I) (service : S) :
    assembled socket plain stream service <$> (establish socket plain (layer :: below) stream).run =
      assembled socket plain stream service <$> (establish socket plain below stream).run >>=
        layer.extend := by
  rw [establish_cons, ExceptT.run_bind, map_bind, bind_map_left]
  congr 1
  funext r
  cases r with
  | error e => rfl
  | ok climbed =>
    obtain ⟨s, sessions⟩ := climbed
    simp only [assembled, Except.map, TlsLayer.extend, ExceptT.run_bind, map_bind]
    congr 1
    funext r
    cases r <;> rfl

/-- A stack of futures runs as the loop over its layers. -/
theorem shown_await (layers : List (TlsLayer W ε I E O)) (stream : I) (service : S) :
    shown (X := X) (B := B) socket plain layers <$>
        Async.await (stack socket plain layers).poll
          ((stack socket plain layers).accept stream service) =
      assembled socket plain stream service <$> (establish socket plain layers stream).run := by
  induction layers with
  | nil =>
    obtain ⟨r, hr, hparts⟩ := plain.await_accept (W := W) (ε := ε) (O := O) (X := X) (B := B)
      socket stream service
    refine (congrArg (shown (X := X) (B := B) socket plain
      ([] : List (TlsLayer W ε I E O)) <$> ·) hr).trans ?_
    rw [establish_nil]
    refine congrArg pure ?_
    cases r <;> cases hs : plain.setUp socket stream <;>
      simp_all [shown, assembled, handed, Except.map, Except.mapError]
  | cons layer below ih => rw [shown_cons, ih, assembled_cons]

end Climb

/-! ## Requests -/

/-- The request that reaches the service inside. All TLS layers write the same extension,
and the innermost one writes last. -/
def Handed.reached (parts : Handed S A) (req : Request A X B) : Request A X B :=
  { req with extensions := { req.extensions with
      tlsInfo := parts.sessions.head?.or req.extensions.tlsInfo
      localAddr := parts.localAddr.or req.extensions.localAddr } }

section Requests
variable {R : Type} {socket : Socket I E A} {plain : PlainAcceptor}

/-- A call of the service that a stack returned is one call of the service inside, and
leaves the wrappers as they are. -/
theorem call_reaches (layers : List (TlsLayer W ε I E O)) (handler : CallFn S (Request A X B) R)
    (service : (stack socket plain layers : Acceptor W ε I S E O (Request A X B)).Service)
    (req : Request A X B) :
    let parts := handed socket plain layers service
    let out := (stack socket plain layers).call handler service req
    let inside := handler parts.original (parts.reached req)
    out.2 = inside.2 ∧ handed socket plain layers out.1 = { parts with original := inside.1 } := by
  induction layers generalizing req with
  | nil =>
    cases plain with
    | default | noDelay | tcpConfig config => exact ⟨rfl, rfl⟩
    | localAddr => exact ⟨rfl, rfl⟩
  | cons layer below ih =>
    obtain ⟨inner, info⟩ := service
    have hreached : (handed socket plain below inner).reached
        { req with extensions := { req.extensions with tlsInfo := some info } } =
        (handed socket plain (layer :: below) ⟨inner, info⟩).reached req := by
      simp only [Handed.reached, handed, List.head?_append]
      cases (handed socket plain below inner).sessions.head? <;> rfl
    obtain ⟨hresponse, hleft⟩ := ih inner
      { req with extensions := { req.extensions with tlsInfo := some info } }
    rw [hreached] at hresponse hleft
    refine ⟨hresponse, ?_⟩
    have hparts : handed socket plain (layer :: below)
        ((stack socket plain (layer :: below)).call handler ⟨inner, info⟩ req).1 =
        { handed socket plain below ((stack socket plain below).call handler inner
            { req with extensions := { req.extensions with tlsInfo := some info } }).1 with
          sessions := (handed socket plain below ((stack socket plain below).call handler inner
            { req with extensions := { req.extensions with tlsInfo := some info } }).1).sessions ++
              [info] } := rfl
    rw [hparts, hleft]
    rfl

/-- What handlers are promised behind a stack, in a run over the polls `now :: later` and
for a request `req`: the stack runs as the loop over its layers, and every call of a service
it returns, in whatever state the service inside is then, is one call of that with `req`, the
session of the outermost layer and the local address. -/
structure Serves (socket : Socket I E A) (plain : PlainAcceptor)
    (layers : List (TlsLayer W ε I E O)) (stream : I) (service : S) (now : W) (later : List W)
    (req : Request A X B) : Prop where
  climbs : (shown (X := X) (B := B) socket plain layers <$>
      Async.await (stack socket plain layers).poll
        ((stack socket plain layers).accept stream service)).run now later =
    (assembled socket plain stream service <$>
      (establish socket plain layers stream).run).run now later
  requests : ∀ last wrapped now' later',
    ((Async.await (stack (X := X) (B := B) socket plain layers).poll
      ((stack socket plain layers).accept stream service)).run now later).outcome =
        .done (.ok (last, wrapped)) now' later' →
    ∀ left original, handed socket plain layers left =
        { handed socket plain layers wrapped with original } →
      ∀ {R : Type} (handler : CallFn S (Request A X B) R),
        let out := (stack socket plain layers).call handler left req
        let inside := handler original { req with extensions := { req.extensions with
          tlsInfo := (handed socket plain layers wrapped).sessions.getLast?
          localAddr := (plain.shows socket stream).or req.extensions.localAddr } }
        out.2 = inside.2 ∧ handed socket plain layers out.1 =
          { handed socket plain layers wrapped with original := inside.1 }

theorem sessions_head?_or (layer : TlsLayer W ε I E O) (below : List (TlsLayer W ε I E O))
    (service : (stack socket plain (layer :: below) :
      Acceptor W ε I S E O (Request A X B)).Service) (info : Option TlsInfo) :
    (handed socket plain (layer :: below) service).sessions.head?.or info =
      (handed socket plain (layer :: below) service).sessions.head? := by
  simp only [handed, List.head?_append]
  cases (handed socket plain below service.inner).sessions.head? <;> rfl

theorem done_iff {layers : List (TlsLayer W ε I E O)} {stream last : I} {service : S}
    {now now' : W} {later later' : List W} {parts : Handed S A} :
    (∃ wrapped, ((Async.await (stack (X := X) (B := B) socket plain layers).poll
        ((stack socket plain layers).accept stream service)).run now later).outcome =
          .done (.ok (last, wrapped)) now' later' ∧ handed socket plain layers wrapped = parts) ↔
      ∃ sessions, ((establish socket plain layers stream).run.run now later).outcome =
          .done (.ok (last, sessions)) now' later' ∧
        parts = { original := service, localAddr := plain.shows socket stream, sessions } := by
  constructor
  · rintro ⟨wrapped, hrun, rfl⟩
    have hshown := (Async.outcome_map
      (f := shown (X := X) (B := B) socket plain layers)).mpr ⟨_, hrun, rfl⟩
    rw [shown_await] at hshown
    obtain ⟨r, hest, hr⟩ := Async.outcome_map.mp hshown
    cases r with
    | error e => cases hr
    | ok climbed =>
      obtain ⟨last', sessions⟩ := climbed
      obtain ⟨rfl, hparts⟩ := Prod.mk.inj (Except.ok.inj hr)
      exact ⟨sessions, hest, hparts.symm⟩
  · rintro ⟨sessions, hest, rfl⟩
    have hassembled := (Async.outcome_map
      (f := assembled socket plain stream service)).mpr ⟨_, hest, rfl⟩
    rw [← shown_await (X := X) (B := B)] at hassembled
    obtain ⟨r, hrun, hr⟩ := Async.outcome_map.mp hassembled
    cases r with
    | error e => cases hr
    | ok accepted =>
      obtain ⟨last', wrapped⟩ := accepted
      obtain ⟨rfl, hparts⟩ := Prod.mk.inj (Except.ok.inj hr)
      exact ⟨wrapped, hrun, hparts⟩

/-- A handler sees the session that carries its request exactly when the first handshake
told the same as the last one, whenever all of them succeed. -/
theorem stack_serves_iff (outer : TlsLayer W ε I E O) (below : List (TlsLayer W ε I E O))
    (stream : I) (service : S) (now : W) (later : List W) (req : Request A X B) :
    Serves socket plain (outer :: below) stream service now later req ↔
      ∀ last sessions now' later',
        ((establish socket plain (outer :: below) stream).run.run now later).outcome =
          .done (.ok (last, sessions)) now' later' → sessions.head? = sessions.getLast? := by
  constructor
  · intro h last sessions now' later' hest
    obtain ⟨wrapped, hrun, hparts⟩ := (done_iff (X := X) (B := B)).mpr ⟨sessions, hest, rfl⟩
    -- Let the handler answer with the request it is given.
    have hexpected := (h.requests last wrapped now' later' hrun wrapped _ rfl
      fun s req => (s, req)).1
    have hreached := (call_reaches (outer :: below) (fun s req => (s, req)) wrapped req).1
    have hinfo : (handed socket plain (outer :: below) wrapped).sessions.head?.or
        req.extensions.tlsInfo = (handed socket plain (outer :: below) wrapped).sessions.getLast? :=
      congrArg (fun req : Request A X B => req.extensions.tlsInfo) (hreached.symm.trans hexpected)
    rw [sessions_head?_or, hparts] at hinfo
    exact hinfo
  · intro h
    refine ⟨by rw [shown_await], ?_⟩
    intro last wrapped now' later' hrun left original hleft R handler
    obtain ⟨sessions, hest, hparts⟩ := done_iff.mp ⟨wrapped, hrun, rfl⟩
    have hsame := h last sessions now' later' hest
    have hreached : (handed socket plain (outer :: below) left).reached req =
        { req with extensions := { req.extensions with
            tlsInfo := (handed socket plain (outer :: below) wrapped).sessions.getLast?
            localAddr := (plain.shows socket stream).or req.extensions.localAddr } } := by
      rw [Handed.reached, sessions_head?_or, hleft, hparts, hsame]
    have hreaches := call_reaches (outer :: below) handler left req
    simp only [hleft] at hreached hreaches ⊢
    rw [hreached] at hreaches
    exact hreaches

end Requests

section Demo

def demoSocket : Socket ℕ Unit ℕ where
  setNodelay _ _ := .ok ()
  setTcpKeepalive _ _ := .ok ()
  localAddr _ := .ok 0
  keepaliveIntervals := true

/-- Handshakes that are done at once. A stream is counted by the handshakes it has gone
through, and its client asks for another name in each of them. -/
def demoTls : TlsRustls.Runtime Unit Unit Unit Unit ℕ ℕ ℕ Unit Unit Unit where
  cell _ _ := ⟨⟨(), []⟩⟩
  accept _ stream := stream
  pollAccept _ stream := ⟨.ready (.ok (stream + 1)), stream, []⟩
  connection stream :=
    { serverName := some (if stream = 1 then "inner.test" else "outer.test"), alpnProtocol := none,
      peerCertificates := none }
  sleep _ _ := ()
  pollSleep _ _ := ⟨.pending, (), []⟩
  emit _ := ()

def demoLayer : TlsLayer Unit Unit ℕ Unit Unit := .rustls demoTls (.new ())

def demoRequest : Request ℕ Unit Unit := ⟨⟨none, none, ()⟩, ()⟩

/-- Behind two TLS acceptors the handler is shown the name of the inner handshake. -/
theorem inner_session_seen :
    ¬ Serves demoSocket .default [demoLayer, demoLayer] 0 () () [] demoRequest := by
  intro h
  have hseen := (h.requests 2 ⟨⟨(), ⟨some "inner.test", none, []⟩⟩, ⟨some "outer.test", none, []⟩⟩
    () [] rfl _ () rfl fun s req => (s, req)).1
  exact absurd hseen (by decide)

end Demo

end AxumServer
