import AxumServer.Accept
import AxumServer.Fleet.System
import AxumServer.Interleaving.Projection
import AxumServer.Polling.Schedule
import AxumServer.Server.AcceptErrors

/-! # Servers with their acceptors

In a fleet the acceptors are outside: a task is told what its acceptor answers. Here each
task has the future that the acceptor of its server returned for its connection, and polls
it. Everything else is as before, so each run is one of the fleet; what is new is that the
answers are those of a future that is awaited.
-/

namespace AxumServer

open Interleaving Polling

variable {A B N ε I S E O Req : Type}

def ConnEvent.ofAcceptor {E : Type} : ConnEvent A E B → Bool
  | .accepted => true
  | .acceptErrorHandler _ _ => true
  | .ended .acceptError => true
  | _ => false

namespace Fleet

/-- What a poll can look at: the clock, and all the rest. -/
abbrev World (N : Type) := Instant × N

/-- The acceptor future of a connection, with what it was made of and the polls it has had. -/
structure Accepting (acceptor : Acceptor (World N) ε I S E O Req) where
  stream : I
  service : S
  future : acceptor.Future := acceptor.accept stream service
  polls : List (World N) := []

def Accepting.polled {acceptor : Acceptor (World N) ε I S E O Req} (f : Accepting acceptor)
    (now : World N) : Accepting acceptor :=
  { f with future := (acceptor.poll now f.future).state, polls := f.polls ++ [now] }

/-- A thread of a fleet, in which connections come with their acceptor futures. -/
inductive Session (A B : Type) (acc : ℕ → Acceptor (World N) ε I S E O Req) where
  | task (j : ℕ) (c : Conn A (AcceptError E O) B) (f : Accepting (acc j))
  | other (t : Thread A (AcceptError E O) B)

def Session.forget {acc : ℕ → Acceptor (World N) ε I S E O Req} :
    Session A B acc → Thread A (AcceptError E O) B
  | .task j c _ => .task j c
  | .other t => t

/-- What an operation is given: the answer of the outside, the rest of the world, and the
connection that a task is spawned for. -/
structure Input (A B N I S E O : Type) where
  answer : Answer A (AcceptError E O) B
  world : N
  stream : I
  service : S

def Input.attach {acc : ℕ → Acceptor (World N) ε I S E O Req} (x : Input A B N I S E O) :
    Thread A (AcceptError E O) B → Session A B acc
  | .task j c => .task j c { stream := x.stream, service := x.service }
  | t => .other t

/-- What a task makes of the verdict of its acceptor future. -/
def accepted {R : Type} : Verdict (Accepted E O I R) → Option (Answer A (AcceptError E O) B)
  | .ready (.ok _) => some (.task .accepted)
  | .ready (.error e) => some (.task (.acceptErr (.raw e)))
  | .pending => some (.task .pending)
  | .halted (.panicked _) => some .panic
  | .halted .hung => none

variable {acc : ℕ → Acceptor (World N) ε I S E O Req}

/-- The answer to a task: in the poll of its acceptor future it is that of the future. -/
def answer (m : Cells A) {j : ℕ} (c : Conn A (AcceptError E O) B) (f : Accepting (acc j))
    (x : Input A B N I S E O) : Option (Answer A (AcceptError E O) B × Accepting (acc j)) :=
  match c.pc with
  | .inside .accept _ =>
    (accepted ((acc j).poll (m.now, x.world) f.future).verdict).map fun y =>
      (y, f.polled (m.now, x.world))
  | _ => some (x.answer, f)

def acceptStep (srvs : ℕ → Server A) (acc : ℕ → Acceptor (World N) ε I S E O Req) (m : Cells A) :
    Session A B acc → Input A B N I S E O →
      Option (Cells A × Session A B acc × List (Session A B acc))
  | .task j c f, x => (answer m c f x).bind fun (y, g) =>
    match step srvs m (.task j c) y with
    | some (n, .task _ d, _) => some (n, .task j d g, [])
    | _ => none
  -- a connection comes with its acceptor future
  | .other (.task _ _), _ => none
  | .other t, x => (step srvs m t x.answer).map fun (n, u, us) => (n, .other u, us.map x.attach)

def acceptHelper (m : Cells A) (t : Session A B acc) (x : Input A B N I S E O) :
    Option (Session A B acc) :=
  match t, x.answer with
  | .task j c f, .stream y => (c.stream y).map fun (d, evs) => .task j (d.record m.now evs) f
  | _, _ => none

inductive AcceptRule (srvs : ℕ → Server A) (acc : ℕ → Acceptor (World N) ε I S E O Req)
    (m : Cells A) : Session A B acc → Input A B N I S E O → Cells A → Session A B acc →
      List (Session A B acc) → Prop
  | polled (j : ℕ) (c d : Conn A (AcceptError E O) B) (f : Accepting (acc j))
      (x : Input A B N I S E O) (y : ConnAnswer (AcceptError E O) B) (k : Handle A)
      (evs : List (ConnEvent A (AcceptError E O) B)) (rest : List Arm)
      (hpc : c.pc = .inside .accept rest)
      (hy : accepted (A := A) ((acc j).poll (m.now, x.world) f.future).verdict = some (.task y))
      (hstep : c.step (srvs j) m.handle m.now y = some (k, d, evs)) :
    AcceptRule srvs acc m (.task j c f) x { m with handle := k }
      (.task j (d.record m.now evs) (f.polled (m.now, x.world))) []
  | polledPanic (j : ℕ) (c : Conn A (AcceptError E O) B) (f : Accepting (acc j))
      (x : Input A B N I S E O) (why : Halt) (rest : List Arm)
      (hpc : c.pc = .inside .accept rest)
      (hv : ((acc j).poll (m.now, x.world) f.future).verdict = .halted why)
      (hc : c.callsOut = true) :
    AcceptRule srvs acc m (.task j c f) x m (.task j c.leave (f.polled (m.now, x.world))) []
  | task (j : ℕ) (c d : Conn A (AcceptError E O) B) (f : Accepting (acc j))
      (x : Input A B N I S E O) (y : ConnAnswer (AcceptError E O) B) (k : Handle A)
      (evs : List (ConnEvent A (AcceptError E O) B)) (hpc : ∀ rest, c.pc ≠ .inside .accept rest)
      (hstep : c.step (srvs j) m.handle m.now y = some (k, d, evs)) :
    AcceptRule srvs acc m (.task j c f) x { m with handle := k }
      (.task j (d.record m.now evs) f) []
  | panic (j : ℕ) (c : Conn A (AcceptError E O) B) (f : Accepting (acc j))
      (x : Input A B N I S E O) (hpc : ∀ rest, c.pc ≠ .inside .accept rest)
      (hc : c.callsOut = true) :
    AcceptRule srvs acc m (.task j c f) x m (.task j c.leave f) []
  | other (t u : Thread A (AcceptError E O) B) (us : List (Thread A (AcceptError E O) B))
      (x : Input A B N I S E O) (n : Cells A) (ht : ∀ j c, t ≠ .task j c)
      (hstep : step srvs m t x.answer = some (n, u, us)) :
    AcceptRule srvs acc m (.other t) x n (.other u) (us.map x.attach)

section Inversion
variable {srvs : ℕ → Server A} {m n : Cells A} {t u : Session A B acc}
  {us : List (Session A B acc)} {x : Input A B N I S E O} {j : ℕ}
  {c : Conn A (AcceptError E O) B}

/-- A task is answered with what it asks for, or it panics. -/
theorem step_task {y : Answer A (AcceptError E O) B} {v : Thread A (AcceptError E O) B}
    {vs : List (Thread A (AcceptError E O) B)} (h : step srvs m (.task j c) y = some (n, v, vs)) :
    (∃ z k d evs, y = .task z ∧ c.step (srvs j) m.handle m.now z = some (k, d, evs) ∧
      n = { m with handle := k } ∧ v = .task j (d.record m.now evs)) ∨
      y = .panic ∧ c.callsOut = true ∧ n = m ∧ v = .task j c.leave := by
  cases y with
  | task z =>
    obtain ⟨⟨k, d, evs⟩, hs, heq⟩ := Option.map_eq_some_iff.mp h
    obtain ⟨rfl, rfl, -⟩ := by simpa only [Prod.mk.injEq] using heq
    exact .inl ⟨z, k, d, evs, rfl, hs, rfl, rfl⟩
  | panic =>
    simp only [step] at h
    split_ifs at h with hc
    obtain ⟨rfl, rfl, -⟩ := by simpa only [Option.some.injEq, Prod.mk.injEq] using h
    exact .inr ⟨rfl, hc, rfl, rfl⟩
  | serve | caller | stream | cancel => cases h

theorem halted_of_accepted {R : Type} {v : Verdict (Accepted E O I R)}
    (h : accepted v = some (.panic : Answer A (AcceptError E O) B)) : ∃ why, v = .halted why := by
  cases v with
  | ready r => cases r <;> cases h
  | pending => cases h
  | halted why => exact ⟨why, rfl⟩

theorem rule_of_acceptStep (h : acceptStep srvs acc m t x = some (n, u, us)) :
    AcceptRule srvs acc m t x n u us := by
  cases t with
  | other t =>
    cases t with
    | task j c => cases h
    | dropped => cases h
    | serve | caller =>
      obtain ⟨⟨n', v, vs⟩, hs, heq⟩ := Option.map_eq_some_iff.mp h
      obtain ⟨rfl, rfl, rfl⟩ := by simpa only [Prod.mk.injEq] using heq
      exact .other _ v vs x n' (by simp) hs
  | task j c f =>
    obtain ⟨⟨y, g⟩, hy, h⟩ := Option.bind_eq_some_iff.mp h
    simp only at h
    split at h
    case h_2 => cases h
    case h_1 n' j' d vs hs =>
      obtain ⟨rfl, rfl, rfl⟩ := by simpa only [Option.some.injEq, Prod.mk.injEq] using h
      unfold answer at hy
      split at hy
      next rest hpc =>
        obtain ⟨y', hv, heq⟩ := Option.map_eq_some_iff.mp hy
        obtain ⟨rfl, rfl⟩ := Prod.mk.inj heq
        rcases step_task hs with ⟨z, k, d', evs, rfl, hz, rfl, hd⟩ | ⟨rfl, hc, rfl, hd⟩
        · obtain ⟨rfl, rfl⟩ := Thread.task.inj hd
          exact .polled _ c d' f x z k evs rest hpc hv hz
        · obtain ⟨rfl, rfl⟩ := Thread.task.inj hd
          obtain ⟨why, hverdict⟩ := halted_of_accepted hv
          exact .polledPanic _ c f x why rest hpc hverdict hc
      next hpc =>
        obtain ⟨rfl, rfl⟩ := by simpa only [Option.some.injEq, Prod.mk.injEq] using hy
        rcases step_task hs with ⟨z, k, d', evs, -, hz, rfl, hd⟩ | ⟨-, hc, rfl, hd⟩
        · obtain ⟨rfl, rfl⟩ := Thread.task.inj hd
          exact .task _ c d' f x z k evs (fun rest h => hpc rest h) hz
        · obtain ⟨rfl, rfl⟩ := Thread.task.inj hd
          exact .panic _ c f x (fun rest h => hpc rest h) hc

theorem stream_of_acceptHelper (h : acceptHelper m t x = some u) :
    ∃ j c d f y evs, t = .task j c f ∧ x.answer = .stream y ∧ c.stream y = some (d, evs) ∧
      u = .task j (d.record m.now evs) f := by
  unfold acceptHelper at h
  split at h
  next j c f y hy =>
    obtain ⟨⟨d, evs⟩, hs, rfl⟩ := Option.map_eq_some_iff.mp h
    exact ⟨j, c, d, f, y, evs, rfl, hy, hs, rfl⟩
  next => cases h

end Inversion

/-- The servers `srvs j` with the acceptors `acc j`, on one handle. -/
def acceptProgram (srvs : ℕ → Server A) (acc : ℕ → Acceptor (World N) ε I S E O Req) :
    Program (Cells A) (Session A B acc) Event (Input A B N I S E O) where
  outside e m :=
    let (n, us) : Cells A × List (Thread A (AcceptError E O) B) := outside e m
    (n, us.map .other)
  step := acceptStep srvs acc
  helper := acceptHelper

/-- The states that servers with their acceptors can reach on a new handle. -/
def Accepts (srvs : ℕ → Server A) (acc : ℕ → Acceptor (World N) ε I S E O Req)
    (s : Threads (Cells A) (Session A B acc)) : Prop :=
  Interleaving.Reachable (acceptProgram srvs acc).next Always ⟨{}, []⟩ s

theorem forget_attach (x : Input A B N I S E O) (t : Thread A (AcceptError E O) B) :
    (x.attach t : Session A B acc).forget = t := by
  cases t <;> rfl

/-- Without its acceptor futures the system is a fleet. -/
theorem projection (srvs : ℕ → Server A) (acc : ℕ → Acceptor (World N) ε I S E O Req) :
    Projection (acceptProgram (B := B) srvs acc) (program srvs) Session.forget where
  outside {m n us e} he := by
    obtain ⟨rfl, rfl⟩ := Prod.mk.inj he
    exact ⟨e, by cases e <;> rfl⟩
  step {m n t u us x} hmove := by
    have hr : AcceptRule srvs acc m t x n u us := rule_of_acceptStep hmove
    cases hr with
    | polled j c d f x y k evs rest hpc hy hstep =>
      exact ⟨.task y, by simp only [program, step, Session.forget, hstep, Option.map_some]; rfl⟩
    | polledPanic j c f x why rest hpc hv hc | panic j c f x hpc hc =>
      exact ⟨.panic, by simp only [program, step, Session.forget, hc]; rfl⟩
    | task j c d f x y k evs hpc hstep =>
      exact ⟨.task y, by simp only [program, step, Session.forget, hstep, Option.map_some]; rfl⟩
    | other t u us x n ht hstep =>
      refine ⟨x.answer, ?_⟩
      have hforget : Session.forget ∘ (x.attach : _ → Session A B acc) = id :=
        funext (forget_attach x)
      simpa only [program, Session.forget, List.map_map, hforget, List.map_id] using hstep
  helper {m t u x} hhelper := by
    obtain ⟨j, c, d, f, y, evs, rfl, -, hs, rfl⟩ := stream_of_acceptHelper hhelper
    exact ⟨.stream y, by simp only [program, helper, Session.forget, hs, Option.map_some]⟩

theorem acceptGuarantee (srvs : ℕ → Server A) (acc : ℕ → Acceptor (World N) ε I S E O Req) :
    Guarantee (acceptProgram (B := B) srvs acc) Cells.Le (fun m => m.handle.WF)
      fun m t => t.forget.WF m :=
  (projection srvs acc).guarantee (guarantee srvs)

/-! ## What tasks tell about their acceptors -/

/-- What a task tells of an acceptor that is awaited: nothing as long as it waits, and
what it was answered, in the poll in which it was. -/
def account {R : Type} (srv : Server A) (addr : A) :
    Outcome (World N) (Accepted E O I R) → List (Instant × ConnEvent A (AcceptError E O) B)
  | .done (.ok _) now _ => [(now.1, .accepted)]
  | .done (.error e) now _ => stamp now.1 []
    ((if srv.acceptErrorHandler then [.acceptErrorHandler (some addr) (.raw e)] else []) ++
      [.ended .acceptError])
  | .waiting => []
  | .halted _ => []

/-- The acceptor of a connection, awaited over the polls of its task. -/
def Accepting.outcome {acceptor : Acceptor (World N) ε I S E O Req} (f : Accepting acceptor) :
    Outcome (World N) (Accepted E O I acceptor.Service) :=
  (Async.await acceptor.poll (acceptor.accept f.stream f.service)).outcomeOn f.polls

/-- The task goes along with its acceptor. -/
structure Follows (srv : Server A) {acceptor : Acceptor (World N) ε I S E O Req}
    (c : Conn A (AcceptError E O) B) (f : Accepting acceptor) : Prop where
  told : select ConnEvent.ofAcceptor c.log = account srv c.remoteAddr f.outcome
  waits : c.stage = .accepting →
    Waits acceptor.poll (acceptor.accept f.stream f.service) f.polls f.future
  serves : c.stage.serves = true → ∃ answer now, f.outcome = .done (.ok answer) now []
  last : ∀ r now later, f.outcome = .done r now later → later = []

section Follows
variable {srv : Server A} {h k : Handle A} {now : Instant} {w : World N}
  {acceptor : Acceptor (World N) ε I S E O Req} {c d : Conn A (AcceptError E O) B}
  {f : Accepting acceptor} {evs : List (ConnEvent A (AcceptError E O) B)} {rest : List Arm}

theorem follows_spawned (srv : Server A) (addr : A) (stream : I) (service : S) :
    Follows srv ({ remoteAddr := addr } : Conn A (AcceptError E O) B)
      ({ stream, service } : Accepting acceptor) where
  told := rfl
  waits _ := .nil _
  serves h := by cases h
  last _ _ _ h := by cases h

theorem silent_of_rule (hr : Conn.Rule srv h now c k d evs) (hcw : c.WF h)
    (hpc : ∀ rest, c.pc ≠ .inside .accept rest) :
    evs.filter ConnEvent.ofAcceptor = [] ∧ (d.stage = .accepting → c.stage = .accepting) ∧
      (d.stage.serves = true → c.stage.serves = true) := by
  cases hr with
  | acceptPending rest hl hp => exact absurd hp (hpc rest)
  | accepted rest hl hp => exact absurd hp (hpc rest)
  | acceptErr rest e hl hp => exact absurd hp (hpc rest)
  | gracefulSkip rest deadline hs => exact ⟨rfl, fun hd => (by cases hd), fun _ => by rw [hs]; rfl⟩
  | gracefulStart rest hs => exact ⟨rfl, fun hd => (by cases hd), fun _ => by rw [hs]; rfl⟩
  | requestSent rest hl hp =>
    have hplaced := hcw.placed
    rw [hp] at hplaced
    obtain ⟨⟨deadline, hs⟩, -⟩ := Stage.arms_firstRequest hplaced.1
    exact ⟨rfl, fun hd => (by cases hd), fun _ => by rw [hs]; rfl⟩
  | shutdownReady | gracefulLeave | sleepFired | requestClosed | serveReady | drop | dropped =>
    exact ⟨rfl, fun hd => (by cases hd), fun hd => (by cases hd)⟩
  | _ => exact ⟨rfl, id, id⟩

theorem silent_of_streamRule {y : StreamAnswer} (hr : Conn.StreamRule c y d evs) :
    evs.filter ConnEvent.ofAcceptor = [] ∧ d.stage = c.stage := by
  cases hr <;> exact ⟨rfl, rfl⟩

/-- A task in the poll of its acceptor is in the select around it. -/
theorem accepting_of_inside (hcw : c.WF h) (hpc : c.pc = .inside .accept rest) :
    c.stage = .accepting := by
  have hplaced := hcw.placed
  rw [hpc] at hplaced
  simpa using hplaced.2

theorem step_inside {y : ConnAnswer (AcceptError E O) B} (hs : c.stage = .accepting)
    (hpc : c.pc = .inside .accept rest) :
    c.step srv h now y = (c.inArm srv now rest .accept y).map fun r => (h, r) := by
  simp only [Conn.step, hs, Conn.selectStep, hpc]

theorem Follows.outcome_polled (hf : Follows srv c f) (hs : c.stage = .accepting) (w : World N) :
    (f.polled w).outcome = ((Async.await acceptor.poll f.future).run w []).outcome :=
  (hf.waits hs).outcomeOn_append w []

theorem Follows.quiet (hf : Follows srv c f) (hlog : d.log = c.log)
    (haddr : d.remoteAddr = c.remoteAddr) (hevs : evs.filter ConnEvent.ofAcceptor = [])
    (hacc : d.stage = .accepting → c.stage = .accepting)
    (hserves : d.stage.serves = true → c.stage.serves = true) :
    Follows srv (d.record now evs) f where
  told := by
    rw [Conn.record_log hlog, select_stamp, hevs, stamp_nil, hf.told]
    exact congrArg (account srv · f.outcome) haddr.symm
  waits hs := hf.waits (hacc hs)
  serves hs := hf.serves (hserves hs)
  last := hf.last

theorem Follows.leave (hf : Follows srv c f) : Follows srv c.leave f where
  told := hf.told
  waits h := by cases h
  serves h := by cases h
  last := hf.last

theorem Follows.poll {y : ConnAnswer (AcceptError E O) B} (hf : Follows srv c f) (hcw : c.WF h)
    (hpc : c.pc = .inside .accept rest)
    (hy : accepted (A := A) (acceptor.poll w f.future).verdict = some (.task y))
    (hstep : c.step srv h w.1 y = some (k, d, evs)) :
    Follows srv (d.record w.1 evs) (f.polled w) := by
  have hs := accepting_of_inside hcw hpc
  have hwaits := hf.waits hs
  have htold : select ConnEvent.ofAcceptor c.log = [] := by
    rw [hf.told, Accepting.outcome, hwaits.outcomeOn]
    rfl
  have hnow := hf.outcome_polled hs w
  rw [step_inside hs hpc] at hstep
  cases hv : (acceptor.poll w f.future).verdict with
  | halted why => cases why <;> simp [hv, accepted] at hy
  | pending =>
    obtain rfl : .pending = y := by simpa [hv, accepted] using hy
    obtain ⟨rfl, rfl, rfl⟩ := by simpa [Conn.inArm] using hstep
    rw [Async.outcome_await_pending_nil hv] at hnow
    refine ⟨?_, fun _ => hwaits.snoc hv, fun h => ?_, fun r now later h => ?_⟩
    · rw [Conn.record_log rfl, stamp_nil, htold, hnow]
      rfl
    · simp [Conn.record, hs, Stage.serves] at h
    · rw [hnow] at h
      cases h
  | ready r =>
    rw [Async.outcome_await_ready hv] at hnow
    have hover : ∀ r now later, (f.polled w).outcome = .done r now later → later = [] := by
      intro r now later h
      rw [hnow] at h
      cases h
      rfl
    cases r with
    | ok answer =>
      obtain rfl : .accepted = y := by simpa [hv, accepted] using hy
      obtain ⟨rfl, rfl, rfl⟩ := by simpa [Conn.inArm] using hstep
      refine ⟨?_, fun h => ?_, fun _ => ⟨answer, w, hnow⟩, hover⟩
      · rw [Conn.record_log (Conn.serveConnection_log ..), select_stamp, htold, hnow]
        rfl
      · unfold Conn.serveConnection at h
        split at h <;> cases h
    | error e =>
      obtain rfl : .acceptErr (.raw e) = y := by simpa [hv, accepted] using hy
      obtain ⟨rfl, rfl, rfl⟩ := by simpa [Conn.inArm] using hstep
      refine ⟨?_, fun h => (by cases h), fun h => (by cases h), hover⟩
      have hleave : select ConnEvent.ofAcceptor c.leave.log = [] := htold
      rw [Conn.record_log rfl, select_stamp, hleave, hnow]
      simp only [account]
      cases srv.acceptErrorHandler <;> rfl

theorem Follows.pollPanic {why : Halt} (hf : Follows srv c f) (hcw : c.WF h)
    (hpc : c.pc = .inside .accept rest)
    (hv : (acceptor.poll w f.future).verdict = .halted why) :
    Follows srv c.leave (f.polled w) := by
  have hs := accepting_of_inside hcw hpc
  have hnow := (hf.outcome_polled hs w).trans (Async.outcome_await_halted hv [])
  refine ⟨?_, fun h => (by cases h), fun h => (by cases h), fun r now later h => ?_⟩
  · refine (hf.told.trans ?_).trans (congrArg (account srv c.remoteAddr) hnow).symm
    rw [Accepting.outcome, (hf.waits hs).outcomeOn]
    rfl
  · rw [hnow] at h
    cases h

end Follows

def Session.Follows (srvs : ℕ → Server A) : Session A B acc → Prop
  | .task j c f => Fleet.Follows (srvs j) c f
  | .other _ => True

theorem follows_assertion (srvs : ℕ → Server A) (acc : ℕ → Acceptor (World N) ε I S E O Req) :
    Assertion (acceptProgram (B := B) srvs acc) Cells.Le (fun m => m.handle.WF)
      (fun m t => t.forget.WF m) fun _ t => t.Follows srvs where
  mono _ ht := ht
  step {m n t u us x} hw ht hmove hf := by
    have hr : AcceptRule srvs acc m t x n u us := rule_of_acceptStep hmove
    cases hr with
    | polled j c d f x y k evs rest hpc hy hstep => exact Follows.poll hf ht hpc hy hstep
    | polledPanic j c f x why rest hpc hv hc => exact Follows.pollPanic hf ht hpc hv
    | task j c d f x y k evs hpc hstep =>
      have hr := Conn.rule_of_step hstep
      obtain ⟨hevs, hacc, hserves⟩ := silent_of_rule hr ht hpc
      exact Follows.quiet hf hr.log hr.remoteAddr hevs hacc hserves
    | panic j c f x hpc hc => exact Follows.leave hf
    | other t u us x n hnt hstep => trivial
  helper {m t u x} hw ht hhelper hf := by
    obtain ⟨j, c, d, f, y, evs, rfl, -, hs, rfl⟩ := stream_of_acceptHelper hhelper
    have hr := Conn.streamRule_of_stream hs
    obtain ⟨hevs, hstage⟩ := silent_of_streamRule hr
    exact Follows.quiet hf hr.log hr.remoteAddr hevs (fun h => hstage ▸ h) fun h => hstage ▸ h

section Runs
variable {srvs : ℕ → Server A} {s : Threads (Cells A) (Session A B acc)} {j : ℕ}
  {c : Conn A (AcceptError E O) B} {f : Accepting (acc j)}

theorem Accepts.follows (hr : Accepts srvs acc s) : ∀ t ∈ s.pool, t.Follows srvs := by
  obtain ⟨as, h⟩ := hr
  refine (follows_assertion srvs acc).forall_threads (acceptGuarantee srvs acc) ?_ ?_ h
    ⟨Handle.wf_new, by simp⟩ (by simp)
  · intro m n us e _ he u hu
    obtain ⟨rfl, rfl⟩ := Prod.mk.inj he
    obtain ⟨t, -, rfl⟩ := List.mem_map.mp hu
    trivial
  · intro m n t u us x hw ht hmove v hv
    have hr : AcceptRule srvs acc m t x n u us := rule_of_acceptStep hmove
    cases hr with
    | other t u us x n hnt hstep =>
      obtain ⟨v, hspawned, rfl⟩ := List.mem_map.mp hv
      obtain ⟨j, addr, rfl⟩ := (rule_of_step hstep).spawned v hspawned
      exact follows_spawned (srvs j) addr _ _
    | _ => cases hv

/-- Servers with their acceptors are a fleet, and what each of their tasks tells about its
acceptor is what comes of awaiting it over the polls of the task: nothing as long as it
waits, and once it has answered the one answer, in the poll in which it was given, which was
the last. A task that is still in front of its acceptor waits for it, and one that serves
was accepted. -/
theorem acceptors_awaited (hr : Accepts srvs acc s) :
    Reachable srvs (s.map Session.forget) ∧
    ∀ j c f, Session.task j c f ∈ s.pool →
      select ConnEvent.ofAcceptor c.log = account (srvs j) c.remoteAddr f.outcome ∧
      (c.stage = .accepting → f.outcome = .waiting) ∧
      (c.stage.serves = true → ∃ answer now, f.outcome = .done (.ok answer) now []) ∧
      ∀ r now later, f.outcome = .done r now later → later = [] := by
  constructor
  · obtain ⟨t, ht, rfl⟩ := (projection srvs acc).simulation.reachable hr rfl
    exact ht
  · intro j c f hc
    have hf : Follows (srvs j) c f := hr.follows _ hc
    exact ⟨hf.told, fun hs => (hf.waits hs).outcomeOn, hf.serves, hf.last⟩

end Runs

def acceptsAfter (srvs : ℕ → Server A) (acc : ℕ → Acceptor (World N) ε I S E O Req)
    (as : List (Move Event (Input A B N I S E O))) : Threads (Cells A) (Session A B acc) :=
  (runIf (acceptProgram srvs acc).next Always ⟨{}, []⟩ as).getD ⟨{}, []⟩

theorem accepts_after (srvs : ℕ → Server A) (acc : ℕ → Acceptor (World N) ε I S E O Req)
    (as : List (Move Event (Input A B N I S E O))) :
    Accepts srvs acc (acceptsAfter srvs acc as) := by
  unfold acceptsAfter
  cases h : runIf (acceptProgram srvs acc).next Always
      (⟨{}, []⟩ : Threads (Cells A) (Session A B acc)) as with
  | none => exact .refl _
  | some t => exact ⟨as, exec_of_runIf h⟩

/-- An acceptor that takes as many polls as its stream says, and then fails. -/
def failing : Acceptor (World Unit) Unit ℕ Unit Unit Unit Unit where
  Service := Unit
  Future := ℕ
  accept stream _ := stream
  poll _ polls := ⟨if polls = 0 then .ready (.error (.raw ())) else .pending, polls - 1, []⟩
  call := fun inner => inner

def withStream (stream : ℕ) :
    Action ℕ (AcceptError Unit Unit) Unit → Move Event (Input ℕ Unit Unit ℕ Unit Unit Unit)
  | .outside e => .outside e
  | .thread i y => .thread i { answer := y, world := (), stream, service := () }
  | .helper i y => .helper i { answer := y, world := (), stream, service := () }

/-- The acceptor of one connection is polled twice, with a time `wait` between. -/
def polledTwice (wait : Duration) : List (Action ℕ (AcceptError Unit Unit) Unit) :=
  .outside (.start 0) ::
    (AxumServer.Action.listen (some 0) ++ AxumServer.Action.connect 1 ++
      List.replicate 10 (AxumServer.Action.task 1 .go) ++ [AxumServer.Action.tick wait] ++
      List.replicate 5 (AxumServer.Action.task 1 .go)).map (place 0 id id)

def heardServer : Server ℕ := { listener := .ready, acceptErrorHandler := true }

/-- The acceptor is pending in the first poll and fails in the second. -/
def failed : Threads (Cells ℕ) (Session ℕ Unit fun _ => failing) :=
  acceptsAfter (fun _ => heardServer) (fun _ => failing) ((polledTwice 3).map (withStream 1))

theorem accepts_failed : Accepts (fun _ => heardServer) (fun _ => failing) failed :=
  accepts_after _ _ _

def failure : List (Instant × ConnEvent ℕ (AcceptError Unit Unit) Unit) :=
  [(3, .acceptErrorHandler (some 1) (.raw (.raw ()))), (3, .ended .acceptError)]

theorem acceptors_awaited_failing : ∃ c f, Session.task 0 c f ∈ failed.pool ∧
    f.polls = [(0, ()), (3, ())] ∧ failure = account heardServer c.remoteAddr f.outcome := by
  obtain ⟨c, f, hi, hpolls, hlog⟩ : ∃ c f, failed.pool[1]? = some (.task 0 c f) ∧
      f.polls = [(0, ()), (3, ())] ∧ select ConnEvent.ofAcceptor c.log = failure :=
    ⟨_, _, rfl, rfl, rfl⟩
  have hmem := List.mem_of_getElem? hi
  exact ⟨c, f, hmem, hpolls, hlog.symm.trans ((acceptors_awaited accepts_failed).2 0 c f hmem).1⟩

end Fleet

end AxumServer
