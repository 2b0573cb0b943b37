import AxumServer.Polling.Deadline
import AxumServer.Tls.Stack

/-! # Handshakes and their deadlines

`handshake_timeout` without the timer: a handshake is given the polls of its connection up
to the deadline, which counts from the poll it was started in. Its timer enters only through
what it promises, to be ready from its deadline on and not before.
-/

namespace AxumServer

open Polling

variable {W ε C Cfg I H X T S F E O : Type}

/-- The timers of a backend keep the time of `clock`; `deadline` is what they show. -/
structure Backend.Timed (b : Backend W ε C Cfg I H X T (AcceptError E O)) (clock : W → Instant)
    (deadline : T → Instant) : Prop where
  sleep : ∀ now duration, deadline (b.sleep now duration) = clock now + duration
  delay : DueFrom clock deadline b.delay

/-- `tokio::time::Sleep`, which is its deadline. -/
def Sleep.poll (clock : W → Instant) : PollFn W ε Instant Unit := fun now deadline =>
  ⟨if sleepReady deadline (clock now) then .ready () else .pending, deadline, []⟩

theorem Sleep.dueFrom (clock : W → Instant) : DueFrom clock id (Sleep.poll (ε := ε) clock) where
  early h := ⟨by simpa [Sleep.poll, sleepReady] using h, rfl⟩
  due h := by simpa [Sleep.poll, sleepReady] using h

/-- A handshake over the polls `now :: later`, under a deadline and without a timer. -/
def Backend.limited (b : Backend W ε C Cfg I H X T (AcceptError E O)) (clock : W → Instant)
    (handshakeTimeout : Duration) (now : W) (later : List W) (tls : H) :
    Outcome W (Except Elapsed (Except (AcceptError E O) X)) :=
  let (before, due) := cutOff clock (clock now + handshakeTimeout) now later
  ((Async.await b.handshake tls).run now before).outcome.orElapsed due

/-- What an acceptor future makes of what comes of the acceptor below. -/
def Backend.bounded (b : Backend W ε C Cfg I H X T (AcceptError E O)) (clock : W → Instant)
    (config : C) (handshakeTimeout : Duration) :
    Outcome W (Accepted E O I S) → Outcome W (Accepted E O X (TlsService S))
  | .done (.ok (stream, service)) now later =>
    match b.start (b.getInner now config) stream with
    | .error message => .halted (.panicked message)
    | .ok tls =>
      (b.limited clock handshakeTimeout now later tls).map (handshakeEnded b.info service)
  | .done (.error e) now later => .done (.error e) now later
  | .waiting => .waiting
  | .halted why => .halted why

section Bounded
variable {b : Backend W ε C Cfg I H X T (AcceptError E O)} {clock : W → Instant}
  {deadline : T → Instant} {now : W} {later : List W}

/-- The protocol with the timer replaced by its deadline. -/
theorem Backend.straightLine_outcome (hb : b.Timed clock deadline)
    (inner : Async W ε (Accepted E O I S)) (config : C) (handshakeTimeout : Duration) :
    ((b.straightLine inner config handshakeTimeout).run now later).outcome =
      b.bounded clock config handshakeTimeout (inner.run now later).outcome := by
  rw [straightLine, Async.outcome_bind]
  cases (inner.run now later).outcome with
  | waiting => rfl
  | halted why => rfl
  | done r now later =>
    cases r with
    | error e => rfl
    | ok accepted =>
      obtain ⟨stream, service⟩ := accepted
      simp only [Outcome.bind, Backend.bounded, Async.run_here_bind, Async.run_perform_bind]
      cases hstart : b.start (b.getInner now config) stream with
      | error message => rfl
      | ok tls =>
        simp only [Async.run_unwrap_ok_bind, Async.run_perform_bind, Run.after_after]
        refine (Async.outcome_bind _ _ now later).trans ?_
        rw [outcome_timeout hb.delay, hb.sleep]
        rfl

theorem Backend.limited_waiting {handshakeTimeout : Duration} {tls : H}
    (h : b.limited clock handshakeTimeout now later tls = .waiting) :
    ∀ w ∈ now :: later, clock w < clock now + handshakeTimeout := by
  rw [← cutOff_eq_none]
  simp only [limited] at h
  cases hdue : (cutOff clock (clock now + handshakeTimeout) now later).2 with
  | none => rfl
  | some due =>
    rw [hdue] at h
    cases hrun : ((Async.await b.handshake tls).run now
        (cutOff clock (clock now + handshakeTimeout) now later).1).outcome <;>
      simp [hrun, Outcome.orElapsed] at h

theorem Backend.limited_done {handshakeTimeout : Duration} {tls : H} {w : W} {rest : List W}
    {r : Except Elapsed (Except (AcceptError E O) X)}
    (h : b.limited clock handshakeTimeout now later tls = .done r w rest) :
    (∃ answer, r = .ok answer ∧
        ((Async.await b.handshake tls).run now later).outcome = .done answer w rest) ∨
      r = .error {} ∧ clock now + handshakeTimeout ≤ clock w := by
  simp only [limited] at h
  have happend := cutOff_append clock (clock now + handshakeTimeout) now later
  cases hrun : ((Async.await b.handshake tls).run now
      (cutOff clock (clock now + handshakeTimeout) now later).1).outcome with
  | done answer v left =>
    rw [hrun] at h
    obtain ⟨rfl, rfl, rfl⟩ := by simpa only [Outcome.orElapsed, Outcome.done.injEq] using h
    refine .inl ⟨answer, rfl, ?_⟩
    have hlonger := Async.outcome_await_append hrun
      ((cutOff clock (clock now + handshakeTimeout) now later).2.elim [] Prod.snd)
    rwa [happend] at hlonger
  | halted why => simp [hrun, Outcome.orElapsed] at h
  | waiting =>
    rw [hrun] at h
    cases hdue : (cutOff clock (clock now + handshakeTimeout) now later).2 with
    | none => simp [hdue, Outcome.orElapsed] at h
    | some due =>
      obtain ⟨v, left⟩ := due
      rw [hdue] at h
      obtain ⟨rfl, rfl, rfl⟩ := by
        simpa only [Outcome.orElapsed, Option.elim_some, Outcome.done.injEq] using h
      exact .inr ⟨rfl, (cutOff_eq_some hdue).1⟩

variable {config : C} {handshakeTimeout : Duration} {below : Outcome W (Accepted E O I S)}

/-- Past the acceptor below it is the handshake that decides, if there is one. -/
theorem Backend.bounded_cases {o : Outcome W (Accepted E O X (TlsService S))}
    (h : b.bounded clock config handshakeTimeout below = o) :
    (below = .waiting ∧ o = .waiting) ∨ (∃ why, o = .halted why) ∨
      (∃ e w left, below = .done (.error e) w left ∧ o = .done (.error e) w left) ∨
      ∃ stream service begun rest tls, below = .done (.ok (stream, service)) begun rest ∧
        (b.limited clock handshakeTimeout begun rest tls).map (handshakeEnded b.info service) =
          o := by
  subst h
  cases below with
  | waiting => exact .inl ⟨rfl, rfl⟩
  | halted why => exact .inr (.inl ⟨why, rfl⟩)
  | done r begun rest =>
    cases r with
    | error e => exact .inr (.inr (.inl ⟨e, begun, rest, rfl, rfl⟩))
    | ok accepted =>
      obtain ⟨stream, service⟩ := accepted
      simp only [bounded]
      cases b.start (b.getInner begun config) stream with
      | error message => exact .inr (.inl ⟨_, rfl⟩)
      | ok tls => exact .inr (.inr (.inr ⟨stream, service, begun, rest, tls, rfl, rfl⟩))

/-- What an acceptor future waits for: the acceptor below, or a handshake before its
deadline. -/
theorem Backend.bounded_waiting (h : b.bounded clock config handshakeTimeout below = .waiting) :
    below = .waiting ∨ ∃ accepted begun rest, below = .done (.ok accepted) begun rest ∧
      ∀ w ∈ begun :: rest, clock w < clock begun + handshakeTimeout := by
  rcases bounded_cases h with ⟨hbelow, -⟩ | ⟨why, hhalted⟩ | ⟨e, w, left, -, herr⟩ |
    ⟨stream, service, begun, rest, tls, hbelow, hmap⟩
  · exact .inl hbelow
  · cases hhalted
  · cases herr
  · exact .inr ⟨_, begun, rest, hbelow, limited_waiting (Outcome.map_eq_waiting hmap)⟩

/-- Where an error of an acceptor future comes from: the acceptor below, the handshake, or
the deadline. -/
theorem Backend.bounded_error {e : AcceptError E O} {w : W} {left : List W}
    (h : b.bounded clock config handshakeTimeout below = .done (.error e) w left) :
    below = .done (.error e) w left ∨
      ∃ accepted begun rest, below = .done (.ok accepted) begun rest ∧
      ((∃ tls, ((Async.await b.handshake tls).run begun rest).outcome = .done (.error e) w left) ∨
        e = .timedOut {} ∧ clock begun + handshakeTimeout ≤ clock w) := by
  rcases bounded_cases h with ⟨-, hwaiting⟩ | ⟨why, hhalted⟩ | ⟨e', w', left', hbelow, herr⟩ |
    ⟨stream, service, begun, rest, tls, hbelow, hmap⟩
  · cases hwaiting
  · cases hhalted
  · cases herr
    exact .inl hbelow
  · obtain ⟨r, hlim, hended⟩ := Outcome.map_eq_done hmap
    refine .inr ⟨_, begun, rest, hbelow, ?_⟩
    rcases limited_done hlim with ⟨answer, rfl, hrun⟩ | ⟨rfl, hdue⟩
    · cases answer with
      | ok stream => cases hended
      | error e' =>
        cases hended
        exact .inl ⟨tls, hrun⟩
    · cases hended
      exact .inr ⟨rfl, hdue⟩

end Bounded

/-- The acceptor future of either backend, over any acceptor and any schedule of polls: what
comes of it is what the acceptor below and the bare handshake say, the latter cut off at its
deadline. -/
theorem handshakes_limited {J S₀ : Type} {A : Type*} {clock : W → Instant}
    {deadline : T → Instant} :
    (∀ {V Y : Type} (rt : TlsRustls.Runtime W ε C V I Y X T E O)
      (poll : PollFn W ε F (Accepted E O I S)) (innerAccept : A → J → S₀ → F)
      (acceptor : TlsAcceptor C A) (stream : J) (service : S₀),
      rt.backend.Timed clock deadline → ∀ more now later,
        ((Async.await (loop (TlsRustls.RustlsAcceptorFuture.turn rt poll) (2 + more))
            (acceptor.accept innerAccept stream service)).run now later).outcome =
          rt.backend.bounded clock acceptor.config acceptor.handshakeTimeout
            ((Async.await poll (innerAccept acceptor.inner stream service)).run now
              later).outcome) ∧
    (∀ {D L ErrorStack X509 : Type} (rt : TlsOpenssl.Runtime W ε C D I L X T O ErrorStack X509)
      (poll : PollFn W ε F (Accepted E O I S)) (innerAccept : A → J → S₀ → F)
      (acceptor : TlsAcceptor C A) (stream : J) (service : S₀),
      (rt.direct (E := E)).Timed clock deadline → ∀ more now later,
        ((Async.await (loop (TlsOpenssl.OpenSSLAcceptorFuture.turn rt poll) (2 + more))
            (acceptor.accept innerAccept stream service)).run now later).outcome =
          rt.direct.bounded clock acceptor.config acceptor.handshakeTimeout
            ((Async.await poll (innerAccept acceptor.inner stream service)).run now
              later).outcome) := by
  constructor
  · intro V Y rt poll innerAccept acceptor stream service hrt more now later
    have hsame : Async.await (loop (TlsRustls.RustlsAcceptorFuture.turn rt poll) (2 + more))
        (acceptor.accept innerAccept stream service) = _ :=
      AcceptorFuture.await_new more _ acceptor.config acceptor.handshakeTimeout
    rw [hsame, Backend.straightLine_outcome hrt]
  · intro D L ErrorStack X509 rt poll innerAccept acceptor stream service hrt more now later
    have hsame : Async.await (loop (TlsOpenssl.OpenSSLAcceptorFuture.turn rt poll) (2 + more))
        (acceptor.accept innerAccept stream service) = _ :=
      (AcceptorFuture.await_new more _ acceptor.config acceptor.handshakeTimeout).trans
        (TlsOpenssl.straightLine_direct rt _ acceptor.config acceptor.handshakeTimeout)
    rw [hsame, Backend.straightLine_outcome hrt]

section Demo

/-- A handshake that is done after as many polls as its stream says. -/
def slowRustls (clock : W → Instant) :
    TlsRustls.Runtime W Unit Unit Unit ℕ ℕ ℕ Instant Unit Unit where
  cell _ _ := ⟨⟨(), []⟩⟩
  accept _ stream := stream
  pollAccept _ polls := ⟨if polls = 0 then .ready (.ok 0) else .pending, polls - 1, []⟩
  connection _ := rustlsClient []
  sleep now duration := clock now + duration
  pollSleep := Sleep.poll clock
  emit _ := ()

theorem slowRustls_timed (clock : W → Instant) : (slowRustls clock).backend.Timed clock id :=
  ⟨fun _ _ => rfl, Sleep.dueFrom clock⟩

def slowOpenssl (clock : W → Instant) :
    TlsOpenssl.Runtime W Unit Unit Unit ℕ Unit ℕ Instant Unit Unit Bytes where
  cell _ _ := ⟨()⟩
  sslNew _ := .ok ()
  streamNew _ stream := .ok stream
  pollAccept _ polls := ⟨if polls = 0 then .ready (.ok ()) else .pending, polls - 1, []⟩
  ssl _ := opensslClient []
  toDer := .ok
  debug _ := "error stack"
  sleep now duration := clock now + duration
  pollSleep := Sleep.poll clock
  emit _ := ()

def slowAcceptor : TlsAcceptor Unit DefaultAcceptor := (TlsAcceptor.new ()).withHandshakeTimeout 10

/-- Polled for the third time at the deadline, a handshake that needs three more polls is
given up, and one that is ready then is not. -/
theorem handshakes_limited_slow :
    ((Async.await (loop (TlsRustls.RustlsAcceptorFuture.turn (slowRustls id) Ready.poll) 2)
        (slowAcceptor.accept (fun _ => DefaultAcceptor.accept) 5 ())).run 0 [4, 10, 11]).outcome =
      .done (.error (.timedOut {})) 10 [11] ∧
    ((Async.await (loop (TlsOpenssl.OpenSSLAcceptorFuture.turn (slowOpenssl id) Ready.poll) 2)
        (slowAcceptor.accept (fun _ => DefaultAcceptor.accept) 2 ())).run 0 [4, 10, 11]).outcome =
      (.done (.ok (0, ⟨(), none, none, []⟩)) 10 [11] :
        Outcome Instant (Accepted Unit Unit ℕ (TlsService Unit))) := by
  exact ⟨(handshakes_limited.1 (slowRustls id) Ready.poll (fun _ => DefaultAcceptor.accept)
      slowAcceptor 5 () (slowRustls_timed id) 0 0 [4, 10, 11]).trans rfl,
    (handshakes_limited.2 (slowOpenssl id) Ready.poll (fun _ => DefaultAcceptor.accept)
      slowAcceptor 2 () ⟨fun _ _ => rfl, Sleep.dueFrom id⟩ 0 0 [4, 10, 11]).trans rfl⟩

end Demo

/-! ## Stacks -/

def Acceptor.accepting {Req : Type} (acceptor : Acceptor W ε I S E O Req) (stream : I)
    (service : S) : Async W ε (Accepted E O I acceptor.Service) :=
  Async.await acceptor.poll (acceptor.accept stream service)

def TlsLayer.Timed (layer : TlsLayer W ε I E O) (clock : W → Instant) : Prop :=
  ∃ deadline, layer.backend.Timed clock deadline

section Stack
variable {A Y B : Type} {socket : Socket I E A} {plain : PlainAcceptor}
  {layers : List (TlsLayer W ε I E O)} {stream : I} {service : S} {clock : W → Instant}
  {now : W} {later : List W}

theorem stack_outcome {layer : TlsLayer W ε I E O} (hl : layer.Timed clock)
    (below : List (TlsLayer W ε I E O)) :
    (((stack (X := Y) (B := B) socket plain (layer :: below)).accepting stream service).run now
        later).outcome =
      layer.backend.bounded clock layer.self.config layer.self.handshakeTimeout
        (((stack (X := Y) (B := B) socket plain below).accepting stream service).run now
          later).outcome := by
  obtain ⟨deadline, hl⟩ := hl
  have hsame : (stack (X := Y) (B := B) socket plain (layer :: below)).accepting stream service =
      layer.backend.straightLine ((stack (X := Y) (B := B) socket plain below).accepting stream
        service) layer.self.config layer.self.handshakeTimeout :=
    AcceptorFuture.await_new 0 _ layer.self.config layer.self.handshakeTimeout
  rw [hsame, Backend.straightLine_outcome hl]

/-- The handshake of `layer` began in the poll `begun`, which `rest` follow. -/
def Began (Y B : Type) (socket : Socket I E A) (plain : PlainAcceptor)
    (layers : List (TlsLayer W ε I E O)) (stream : I) (service : S) (now : W) (later : List W)
    (layer : TlsLayer W ε I E O) (begun : W) (rest : List W) : Prop :=
  ∃ above below accepted, layers = above ++ layer :: below ∧
    (((stack (X := Y) (B := B) socket plain below).accepting stream service).run now
      later).outcome = .done (.ok accepted) begun rest

theorem Began.cons {layer : TlsLayer W ε I E O} {begun : W} {rest : List W}
    (h : Began Y B socket plain layers stream service now later layer begun rest)
    (top : TlsLayer W ε I E O) :
    Began Y B socket plain (top :: layers) stream service now later layer begun rest := by
  obtain ⟨above, below, accepted, rfl, hrun⟩ := h
  exact ⟨top :: above, below, accepted, rfl, hrun⟩

/-- A stack that waits is in the handshake of one of its layers, before its deadline. -/
theorem stack_waiting (hl : ∀ layer ∈ layers, layer.Timed clock)
    (h : (((stack (X := Y) (B := B) socket plain layers).accepting stream service).run now
      later).outcome = .waiting) :
    ∃ layer begun rest, Began Y B socket plain layers stream service now later layer begun rest ∧
      ∀ w ∈ begun :: rest, clock w < clock begun + layer.self.handshakeTimeout := by
  induction layers with
  | nil =>
    obtain ⟨r, hr, -⟩ := plain.await_accept (W := W) (ε := ε) (O := O) (X := Y) (B := B) socket
      stream service
    have hdone := congrArg (fun x => (x.run now later).outcome) hr
    exact absurd (h.symm.trans hdone) (by simp [pure])
  | cons top below ih =>
    rw [stack_outcome (hl top (List.mem_cons_self ..))] at h
    rcases Backend.bounded_waiting h with hbelow | ⟨accepted, begun, rest, hdone, hearly⟩
    · obtain ⟨layer, begun, rest, hbegan, hearly⟩ :=
        ih (fun layer hlayer => hl layer (List.mem_cons_of_mem _ hlayer)) hbelow
      exact ⟨layer, begun, rest, hbegan.cons top, hearly⟩
    · exact ⟨top, begun, rest, ⟨[], below, accepted, rfl, hdone⟩, hearly⟩

/-- An error of a stack is that of its plain acceptor or of the handshake of a layer, or it
is of a handshake past its deadline. -/
theorem stack_error (hl : ∀ layer ∈ layers, layer.Timed clock) {e : AcceptError E O} {w : W}
    {left : List W}
    (h : (((stack (X := Y) (B := B) socket plain layers).accepting stream service).run now
      later).outcome = .done (.error e) w left) :
    (plain.setUp socket stream).mapError .raw = .error e ∨ ∃ layer begun rest,
      Began Y B socket plain layers stream service now later layer begun rest ∧
        ((∃ tls, ((Async.await layer.backend.handshake tls).run begun rest).outcome =
            .done (.error e) w left) ∨
          e = .timedOut {} ∧ clock begun + layer.self.handshakeTimeout ≤ clock w) := by
  induction layers with
  | nil =>
    obtain ⟨r, hr, hparts⟩ := plain.await_accept (W := W) (ε := ε) (O := O) (X := Y) (B := B)
      socket stream service
    have hdone := congrArg (fun x => (x.run now later).outcome) hr
    cases hdone.symm.trans h
    left
    cases hset : (plain.setUp socket stream).mapError AcceptError.raw with
    | ok u => simp [hset, Except.map] at hparts
    | error e' => simpa [hset, Except.map, eq_comm] using hparts
  | cons top below ih =>
    rw [stack_outcome (hl top (List.mem_cons_self ..))] at h
    rcases Backend.bounded_error h with hbelow | ⟨accepted, begun, rest, hdone, hover⟩
    · rcases ih (fun layer hlayer => hl layer (List.mem_cons_of_mem _ hlayer)) hbelow with
        hplain | ⟨layer, begun, rest, hbegan, hover⟩
      · exact .inl hplain
      · exact .inr ⟨layer, begun, rest, hbegan.cons top, hover⟩
    · exact .inr ⟨top, begun, rest, ⟨[], below, accepted, rfl, hdone⟩, hover⟩

end Stack

end AxumServer
