import AxumServer.Interleaving.Exec
import AxumServer.Interleaving.History
import AxumServer.Interleaving.Pool
import AxumServer.Server.Serve

/-! # A server in motion

One run of `serve` together with the connection tasks it spawned, the calls made
on its handle, and the clock. One action is one operation of one of them, chosen
by the scheduler together with the answer of the outside.
-/

namespace AxumServer

open Interleaving

variable {A E B : Type}

structure State (A E B : Type) where
  now : Instant := 0
  handle : Handle A := {}
  serve : Serve A E B := {}
  tasks : List (Conn A E B) := []
  callers : List (Caller A) := []
  deriving DecidableEq, Repr

inductive Action (A E B : Type) where
  /-- Time passes. -/
  | tick (d : Duration)
  /-- A new call is made on the handle. -/
  | call (c : Call)
  | caller (i : ℕ)
  | serve (x : ServeAnswer A E B)
  | task (i : ℕ) (x : ConnAnswer E B)
  /-- A stream task of connection `i` makes its operation. -/
  | stream (i : ℕ) (x : StreamAnswer)
  deriving DecidableEq, Repr

def Conn.record (c : Conn A E B) (now : Instant) (evs : List (ConnEvent A E B)) : Conn A E B :=
  { c with log := stamp now c.log evs }

def Serve.record (s : Serve A E B) (now : Instant) (evs : List (ServeEvent A E B)) :
    Serve A E B :=
  { s with log := stamp now s.log evs }

namespace State

def step (srv : Server A) (s : State A E B) : Action A E B → Option (State A E B)
  | .tick d => some { s with now := s.now + d }
  | .call c => some { s with callers := s.callers ++ [c.start] }
  | .caller i =>
    (s.callers[i]?).bind fun c =>
      (c.step s.handle).map fun (h, c') =>
        { s with handle := h, callers := s.callers.set i c' }
  | .serve x =>
    (s.serve.step srv s.handle s.now x).map fun (h, t, cs, evs) =>
      { s with handle := h, serve := t.record s.now evs, tasks := s.tasks ++ cs }
  | .task i x =>
    (s.tasks[i]?).bind fun c =>
      (c.step srv s.handle s.now x).map fun (h, c', evs) =>
        { s with handle := h, tasks := s.tasks.set i (c'.record s.now evs) }
  | .stream i x =>
    (s.tasks[i]?).bind fun c =>
      (c.stream x).map fun (d, evs) => { s with tasks := s.tasks.set i (d.record s.now evs) }

inductive Rule (srv : Server A) (s : State A E B) : Action A E B → State A E B → Prop
  | tick (d : Duration) : Rule srv s (.tick d) { s with now := s.now + d }
  | call (c : Call) : Rule srv s (.call c) { s with callers := s.callers ++ [c.start] }
  | caller (i : ℕ) (c d : Caller A) (k : Handle A) (hi : s.callers[i]? = some c)
      (hr : Caller.Rule s.handle c k d) :
    Rule srv s (.caller i) { s with handle := k, callers := s.callers.set i d }
  | serve (x : ServeAnswer A E B) (k : Handle A) (t : Serve A E B) (cs : List (Conn A E B))
      (evs : List (ServeEvent A E B)) (hr : Serve.Rule srv s.handle s.now s.serve x k t cs evs) :
    Rule srv s (.serve x)
      { s with handle := k, serve := t.record s.now evs, tasks := s.tasks ++ cs }
  | task (i : ℕ) (x : ConnAnswer E B) (c d : Conn A E B) (k : Handle A)
      (evs : List (ConnEvent A E B)) (hi : s.tasks[i]? = some c)
      (hr : Conn.Rule srv s.handle s.now c k d evs) :
    Rule srv s (.task i x) { s with handle := k, tasks := s.tasks.set i (d.record s.now evs) }
  | stream (i : ℕ) (x : StreamAnswer) (c d : Conn A E B) (evs : List (ConnEvent A E B))
      (hi : s.tasks[i]? = some c) (hr : Conn.StreamRule c x d evs) :
    Rule srv s (.stream i x) { s with tasks := s.tasks.set i (d.record s.now evs) }

theorem rule_of_step {srv : Server A} {s t : State A E B} {a : Action A E B}
    (h : s.step srv a = some t) : Rule srv s a t := by
  cases a with
  | tick d =>
    obtain rfl := Option.some.inj h
    exact .tick d
  | call c =>
    obtain rfl := Option.some.inj h
    exact .call c
  | caller i =>
    obtain ⟨c, hi, h⟩ := Option.bind_eq_some_iff.mp h
    obtain ⟨⟨k, d⟩, hc, rfl⟩ := Option.map_eq_some_iff.mp h
    exact .caller i c d k hi (Caller.rule_of_step hc)
  | serve x =>
    obtain ⟨⟨k, t, cs, evs⟩, hs, rfl⟩ := Option.map_eq_some_iff.mp h
    exact .serve x k t cs evs (Serve.rule_of_step hs)
  | task i x =>
    obtain ⟨c, hi, h⟩ := Option.bind_eq_some_iff.mp h
    obtain ⟨⟨k, d, evs⟩, hc, rfl⟩ := Option.map_eq_some_iff.mp h
    exact .task i x c d k evs hi (Conn.rule_of_step hc)
  | stream i x =>
    obtain ⟨c, hi, h⟩ := Option.bind_eq_some_iff.mp h
    obtain ⟨⟨d, evs⟩, hc, rfl⟩ := Option.map_eq_some_iff.mp h
    exact .stream i x c d evs hi (Conn.streamRule_of_stream hc)

abbrev Exec (srv : Server A) (P : State A E B → Action A E B → Prop) :=
  Interleaving.Exec (State.step srv) P

abbrev ReachableIf (srv : Server A) (P : State A E B → Action A E B → Prop)
    (s : State A E B) : Prop :=
  Interleaving.Reachable (State.step srv) P {} s

abbrev Reachable (srv : Server A) (s : State A E B) : Prop := ReachableIf srv Always s

/-- The state after a schedule whose steps meet `P`, or the initial state if it
cannot be carried out. -/
def afterIf (srv : Server A) (P : State A E B → Action A E B → Prop)
    [∀ s a, Decidable (P s a)] (as : List (Action A E B)) : State A E B :=
  (runIf (State.step srv) P {} as).getD {}

abbrev after (srv : Server A) (as : List (Action A E B)) : State A E B := afterIf srv Always as

theorem reachable_after (srv : Server A) (P : State A E B → Action A E B → Prop)
    [∀ s a, Decidable (P s a)] (as : List (Action A E B)) :
    ReachableIf srv P (afterIf srv P as) := by
  unfold afterIf
  cases h : runIf (State.step srv) P ({} : State A E B) as with
  | none => exact .refl _
  | some t => exact ⟨as, exec_of_runIf h⟩

/-- A call of `shutdown()` has returned: one made on the handle, or the one that
`wait_connections_end` makes when the grace period is over. -/
def ShutdownReturned (s : State A E B) : Prop :=
  Caller.shutdown .returned ∈ s.callers ∨
    (∃ t, (t, .graceExpired) ∈ s.serve.log) ∧ ∃ r, s.serve.stage = .returned r

def GracefulReturned (s : State A E B) : Prop :=
  ∃ duration, Caller.graceful duration .returned ∈ s.callers

end State

/-! ## Schedules -/

namespace Action

/-- `serve` takes its listener, publishes the address and comes to `accept_stream`. -/
def listen (addr : Option A) : List (Action A E B) :=
  List.replicate 2 (Action.serve .go) ++
    Action.serve (.localAddr addr) :: List.replicate 6 (Action.serve .go)

/-- From there, `serve` takes one connection, spawns its task and suspends. -/
def connect (addr : A) : List (Action A E B) :=
  [Action.serve (.accepted addr), .serve .ready, .serve .made, .serve .go, .serve .go,
    .serve .acceptPending] ++ List.replicate 4 (Action.serve .go)

/-- The next poll of `serve`, up to `accept_stream`. -/
def resume : List (Action A E B) := .replicate 2 (.serve .go)

/-- The first poll of task `i`, up to the end of its acceptor. -/
def handshake (i : ℕ) : List (Action A E B) :=
  List.replicate 8 (Action.task i .go) ++ [Action.task i .accepted]

/-- From there, without a first request timeout, task `i` comes to hyper. -/
def reachHyper (i : ℕ) : List (Action A E B) := .replicate 7 (.task i .go)

/-- A call on the handle that is carried out at once by the new caller `i`. -/
def callNow (i : ℕ) (c : Call) (ops : ℕ) : List (Action A E B) :=
  .call c :: .replicate ops (.caller i)

end Action

end AxumServer
