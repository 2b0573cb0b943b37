import AxumServer.Fleet.Acceptors
import AxumServer.Tls.Handshake

/-! # Servers behind TLS

The tasks of servers whose acceptors are stacks of TLS acceptors. A client that does not go
on with a handshake cannot keep its task in front of the acceptor past the deadline of that
handshake, and no handshake is given up before.
-/

namespace AxumServer

open Interleaving Polling

variable {A Addr B N ε I S E O X Y : Type}

namespace Fleet

section Account
variable {R : Type} {srv : Server A} {addr : A} {o : Outcome (World N) (Accepted E O I R)}
  {u : Instant} {client : Option A} {err : IoError (AcceptError E O) B}

theorem mem_account (h : (u, .acceptErrorHandler client err) ∈ account srv addr o) :
    ∃ e w later, o = .done (.error e) w later ∧ w.1 = u ∧ client = some addr ∧ err = .raw e := by
  cases o with
  | waiting | halted why => cases h
  | done r w later =>
    cases r with
    | ok answer => simp [account] at h
    | error e =>
      rcases mem_stamp.mp h with hnil | ⟨rfl, hmem⟩
      · cases hnil
      · split at hmem
        · obtain ⟨rfl, rfl⟩ := by simpa using hmem
          exact ⟨e, w, later, rfl, rfl, rfl, rfl⟩
        · simp at hmem

end Account

section Stacks
variable {srvs : ℕ → Server A} {socket : Socket I E Addr} {plain : ℕ → PlainAcceptor}
  {layers : ℕ → List (TlsLayer (World N) ε I E O)}

/-- The servers `srvs j`, each behind its stack of TLS acceptors. -/
abbrev secured (X Y S : Type) (socket : Socket I E Addr) (plain : ℕ → PlainAcceptor)
    (layers : ℕ → List (TlsLayer (World N) ε I E O)) (j : ℕ) :
    Acceptor (World N) ε I S E O (Request Addr X Y) :=
  stack socket (plain j) (layers j)

variable {s : Threads (Cells A) (Session A B (secured X Y S socket plain layers))} {j : ℕ}
  {c : Conn A (AcceptError E O) B} {f : Accepting (secured X Y S socket plain layers j)}

/-- The handshake of `layer` began in the poll `begun` of a task, which `rest` follow. -/
def BeganIn (f : Accepting (secured X Y S socket plain layers j))
    (layer : TlsLayer (World N) ε I E O) (begun : World N) (rest : List (World N)) : Prop :=
  ∃ now later, f.polls = now :: later ∧
    Began X Y socket (plain j) (layers j) f.stream f.service now later layer begun rest

/-- Behind TLS acceptors a task in front of its acceptor has not been polled yet, or its last
poll was before the deadline of the handshake that is going on; and what it reports is an
error of the plain acceptor or of that handshake, or it is the time-out of that handshake
and its deadline was over. -/
theorem handshakes_in_time (hl : ∀ j, ∀ layer ∈ layers j, layer.Timed Prod.fst)
    (hr : Accepts srvs (secured X Y S socket plain layers) s) (hc : Session.task j c f ∈ s.pool) :
    (c.stage = .accepting → f.polls = [] ∨ ∃ layer begun rest, BeganIn f layer begun rest ∧
      ∀ w ∈ begun :: rest, w.1 < begun.1 + layer.self.handshakeTimeout) ∧
    ∀ u client err, (u, .acceptErrorHandler client err) ∈ c.log →
      ∃ e, err = .raw e ∧ client = some c.remoteAddr ∧
        (((plain j).setUp socket f.stream).mapError .raw = .error e ∨
          ∃ layer begun rest, BeganIn f layer begun rest ∧
            ((∃ tls w left, w.1 = u ∧
                ((Async.await layer.backend.handshake tls).run begun rest).outcome =
                  .done (.error e) w left) ∨
              e = .timedOut {} ∧ begun.1 + layer.self.handshakeTimeout ≤ u)) := by
  have hf : Follows (srvs j) c f := hr.follows _ hc
  constructor
  · intro hs
    have hwaiting := (hf.waits hs).outcomeOn
    cases hpolls : f.polls with
    | nil => exact .inl rfl
    | cons now later =>
      rw [hpolls] at hwaiting
      obtain ⟨layer, begun, rest, hbegan, hearly⟩ := stack_waiting (hl j) hwaiting
      exact .inr ⟨layer, begun, rest, ⟨now, later, hpolls, hbegan⟩, hearly⟩
  · intro u client err hlog
    have htold : (u, .acceptErrorHandler client err) ∈ select ConnEvent.ofAcceptor c.log :=
      List.mem_filter.mpr ⟨hlog, rfl⟩
    rw [hf.told] at htold
    obtain ⟨e, w, left, hdone, rfl, rfl, rfl⟩ := mem_account htold
    refine ⟨e, rfl, rfl, ?_⟩
    cases hpolls : f.polls with
    | nil =>
      rw [Accepting.outcome, hpolls] at hdone
      cases hdone
    | cons now later =>
      rw [Accepting.outcome, hpolls] at hdone
      refine (stack_error (hl j) hdone).imp_right ?_
      rintro ⟨layer, begun, rest, hbegan, hover⟩
      refine ⟨layer, begun, rest, ⟨now, later, hpolls, hbegan⟩, hover.imp_left ?_⟩
      rintro ⟨tls, hown⟩
      exact ⟨tls, w, left, rfl, hown⟩

end Stacks

/-- A layer in which a handshake takes as many polls as its stream says. -/
def slowLayer : TlsLayer (World Unit) Unit ℕ Unit Unit := .rustls (slowRustls Prod.fst) slowAcceptor

/-- The handshake would take five polls; the second comes when its time is over. -/
def late : Threads (Cells ℕ) (Session ℕ Unit
    (secured Unit Unit Unit demoSocket (fun _ => .default) fun _ => [slowLayer])) :=
  acceptsAfter (fun _ => heardServer) _ ((polledTwice 10).map (withStream 5))

theorem accepts_late : Accepts (fun _ => heardServer) _ late := accepts_after _ _ _

def lateReport : ConnEvent ℕ (AcceptError Unit Unit) Unit :=
  .acceptErrorHandler (some 1) (.raw (.timedOut {}))

theorem handshakes_in_time_late : ∃ c f, Session.task 0 c f ∈ late.pool ∧
    (10, lateReport) ∈ c.log ∧ ∃ layer begun rest, BeganIn f layer begun rest ∧
      ((∃ tls w left, w.1 = 10 ∧
          ((Async.await layer.backend.handshake tls).run begun rest).outcome =
            .done (.error (.timedOut {})) w left) ∨
        begun.1 + layer.self.handshakeTimeout ≤ 10) := by
  obtain ⟨c, f, hi, hlog⟩ : ∃ c f, late.pool[1]? = some (.task 0 c f) ∧
      select ConnEvent.ofAcceptor c.log = [(10, lateReport), (10, .ended .acceptError)] :=
    ⟨_, _, rfl, rfl⟩
  have hc := List.mem_of_getElem? hi
  have hreport : (10, lateReport) ∈ c.log := by
    have hmem : (10, lateReport) ∈ select ConnEvent.ofAcceptor c.log := by
      rw [hlog]
      exact List.mem_cons_self ..
    exact (List.mem_filter.mp hmem).1
  have htimed : ∀ j : ℕ, ∀ layer ∈ (fun _ : ℕ => [slowLayer]) j, layer.Timed Prod.fst := by
    intro j layer hlayer
    obtain rfl := List.mem_singleton.mp hlayer
    exact ⟨id, slowRustls_timed Prod.fst⟩
  obtain ⟨e, he, -, hcause⟩ :=
    (handshakes_in_time htimed accepts_late hc).2 10 _ _ hreport
  cases he
  rcases hcause with hplain | ⟨layer, begun, rest, hbegan, hover⟩
  · cases hplain
  · exact ⟨c, f, hc, hreport, layer, begun, rest, hbegan, hover.imp_right And.right⟩

end Fleet

end AxumServer
