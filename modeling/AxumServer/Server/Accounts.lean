import AxumServer.Server.AcceptErrors

/-! # One account for each connection

The history of `serve` is posted to a ledger with one account for each connection
that `accept_stream` gave. What is reported while the loop works on a connection goes
to its account; a connection that is handed to a task is continued there.
-/

namespace AxumServer

open Interleaving

variable {A E B : Type}

/-- What the accept loop did with one connection. -/
structure Account (A E B : Type) where
  addr : A
  /-- `make_service` completed with an error. -/
  refused : Bool := false
  /-- The calls of the accept error handler. -/
  calls : List (Option A × IoError E B) := []
  /-- The task that the connection was handed to. -/
  task : Option ℕ := none
  deriving DecidableEq, Repr

namespace Account

/-- Post one event of `serve`; the newest account is the first. -/
def post (accounts : List (Account A E B)) : ServeEvent A E B → List (Account A E B)
  | .accepted addr => { addr := addr } :: accounts
  | .makeErr _ _ => accounts.modifyHead fun a => { a with refused := true }
  | .acceptErrorHandler (some addr) error =>
    accounts.modifyHead fun a => { a with calls := a.calls ++ [(some addr, error)] }
  | .spawned _ =>
    accounts.modifyHead fun a => { a with task := some (accounts.filterMap task).length }
  | _ => accounts

def ledger (log : List (Instant × ServeEvent A E B)) : List (Account A E B) :=
  (log.map Prod.snd).foldl post []

theorem ledger_stamp (now : Instant) (log : List (Instant × ServeEvent A E B))
    (evs : List (ServeEvent A E B)) : ledger (stamp now log evs) = evs.foldl post (ledger log) := by
  simp only [ledger, stamp, List.map_append, List.foldl_append, List.map_map, Function.comp_def,
    List.map_id']

theorem map_addr_post (accounts : List (Account A E B)) (e : ServeEvent A E B) :
    (post accounts e).map addr = e.connection.toList ++ accounts.map addr := by
  cases e with
  | accepted addr => rfl
  | acceptErrorHandler addr error => cases addr <;> cases accounts <;> rfl
  | makeErr | spawned => cases accounts <;> rfl
  | _ => rfl

/-- There is one account for each connection, in the order of their arrival. -/
theorem map_addr_ledger (log : List (Instant × ServeEvent A E B)) :
    (ledger log).map addr = (notes ServeEvent.connection log).reverse := by
  induction log using List.reverseRecOn with
  | nil => rfl
  | append_singleton log e ih =>
    have hpost : ledger (log ++ [e]) = post (ledger log) e.2 := by
      simp [ledger]
    rw [hpost, map_addr_post, ih, notes, notes, filterMap_snoc, List.reverse_append]
    cases e.2.connection <;> rfl

inductive Sound (tasks : List (Conn A E B)) : Account A E B → Prop
  /-- The loop is not done with the connection, or was stopped before. -/
  | waiting (addr : A) : Sound tasks { addr := addr }
  | refused (addr : A) (error : IoError E B) :
    Sound tasks { addr := addr, refused := true, calls := [(some addr, error)] }
  | handed (i : ℕ) (c : Conn A E B) (hi : tasks[i]? = some c) :
    Sound tasks { addr := c.remoteAddr, task := some i }

section
variable {tasks cs : List (Conn A E B)} {a : Account A E B} {i : ℕ} {c d : Conn A E B}

theorem Sound.append (h : a.Sound tasks) (cs : List (Conn A E B)) : a.Sound (tasks ++ cs) := by
  cases h with
  | waiting addr => exact .waiting addr
  | refused addr error => exact .refused addr error
  | handed i c hi =>
    apply Sound.handed
    rw [List.getElem?_append_left (List.getElem?_eq_some_iff.mp hi).1]
    exact hi

theorem Sound.set (h : a.Sound tasks) (hi : tasks[i]? = some c)
    (haddr : d.remoteAddr = c.remoteAddr) : a.Sound (tasks.set i d) := by
  cases h with
  | waiting addr => exact .waiting addr
  | refused addr error => exact .refused addr error
  | handed j b hj =>
    by_cases hij : i = j
    · subst hij
      obtain rfl := Option.some.inj (hi.symm.trans hj)
      rw [← haddr]
      exact .handed i d (List.getElem?_set_self (List.getElem?_eq_some_iff.mp hj).1)
    · exact .handed j b (by rw [List.getElem?_set_ne hij]; exact hj)

end

end Account

/-- The connection that the accept loop is working on. -/
def ServeStage.current : ServeStage A E B → Option A
  | .pollReady addr => some addr
  | .makeService addr => some addr
  | .watcher addr => some addr
  | .spawn addr => some addr
  | _ => none

/-- The ledger fits the tasks and the place where `serve` is. -/
structure Booked (tasks : List (Conn A E B)) (stage : ServeStage A E B)
    (accounts : List (Account A E B)) : Prop where
  sound : ∀ a ∈ accounts, a.Sound tasks
  /-- The account of the connection the loop works on is the newest, and still empty. -/
  current : ∀ addr, stage.current = some addr → ∃ rest, accounts = { addr := addr } :: rest
  /-- Each task has one account. -/
  tasks : accounts.filterMap Account.task = (List.range tasks.length).reverse

section
variable {tasks cs : List (Conn A E B)} {stage stage' : ServeStage A E B}
  {accounts : List (Account A E B)}

theorem Booked.goto (hb : Booked tasks stage accounts)
    (hcur : stage'.current = stage.current ∨ stage'.current = none) :
    Booked (tasks ++ []) stage' accounts := by
  rw [List.append_nil]
  refine ⟨hb.sound, fun addr haddr => ?_, hb.tasks⟩
  rcases hcur with hcur | hcur
  · exact hb.current addr (hcur.symm.trans haddr)
  · rw [hcur] at haddr
    cases haddr

theorem Serve.Rule.booked {srv : Server A} {h k : Handle A} {now : Instant} {s t : Serve A E B}
    {x : ServeAnswer A E B} {evs : List (ServeEvent A E B)}
    (hr : Serve.Rule srv h now s x k t cs evs) (hsrv : srv.acceptErrorHandler = true)
    (hb : Booked tasks s.stage accounts) :
    Booked (tasks ++ cs) t.stage (evs.foldl Account.post accounts) := by
  cases hr with
  | poll | suspend | bindPending | shutdownBusy | shutdownPending | gracefulBusy
  | gracefulPending | connEndBusy | connEndPending | acceptPending | backoffPending
  | readyPending | makePending | sleepPending =>
    exact hb.goto (.inl rfl)
  | ready rest addr hst | made rest addr hst | watcher addr hst =>
    exact hb.goto (.inl (by rw [hst]; rfl))
  | acceptErr rest e hst =>
    simp only [report, hsrv, if_true]
    exact hb.goto (.inr rfl)
  | accepted rest addr hst =>
    rw [List.append_nil]
    refine ⟨fun a ha => ?_, fun addr' haddr => ?_, hb.tasks⟩
    · rcases List.mem_cons.mp ha with rfl | ha
      · exact .waiting addr
      · exact hb.sound a ha
    · obtain rfl : addr = addr' := Option.some.inj haddr
      exact ⟨accounts, rfl⟩
  | makeErr rest addr e hst =>
    obtain ⟨l, rfl⟩ := hb.current addr (by rw [hst]; rfl)
    simp only [report, hsrv, if_true, List.append_nil]
    refine ⟨fun a ha => ?_, fun addr' haddr => (by cases haddr), hb.tasks⟩
    rcases List.mem_cons.mp ha with rfl | ha
    · exact .refused addr (ioOther e)
    · exact hb.sound a (List.mem_cons_of_mem _ ha)
  | spawn addr hst =>
    obtain ⟨l, rfl⟩ := hb.current addr (by rw [hst]; rfl)
    have htasks : l.filterMap Account.task = (List.range tasks.length).reverse := hb.tasks
    have hlen : (l.filterMap Account.task).length = tasks.length := by
      rw [htasks, List.length_reverse, List.length_range]
    refine ⟨fun a ha => ?_, fun addr' haddr => (by cases haddr), ?_⟩
    · rcases List.mem_cons.mp ha with rfl | ha
      · have hnew : (tasks ++ [{ remoteAddr := addr }])[tasks.length]? =
            some ({ remoteAddr := addr } : Conn A E B) := by simp
        have hsound := Account.Sound.handed tasks.length _ hnew
        rwa [← hlen] at hsound
      · exact (hb.sound a (List.mem_cons_of_mem _ ha)).append _
    · have hcons : (Account.post ({ addr := addr } :: l) (.spawned addr)).filterMap Account.task =
          (l.filterMap Account.task).length :: l.filterMap Account.task := rfl
      rw [List.foldl_cons, List.foldl_nil, hcons, hlen, htasks, List.length_append,
        List.length_singleton, List.range_succ, List.reverse_concat]
  | _ => exact hb.goto (.inr rfl)

end

/-! ## The answers of the outside -/

/-- The connection that an answer of `accept_stream` gives. -/
def Action.connection : Action A E B → Option A
  | .serve (.accepted addr) => some addr
  | _ => none

/-- What the answers ask of the accept loop: the connection taken last, and the calls of
the accept error handler. -/
structure Due (A E B : Type) where
  newest : Option A := none
  calls : List (Option A × IoError E B) := []
  deriving DecidableEq, Repr

namespace Due

def answer (d : Due A E B) : Action A E B → Due A E B
  | .serve (.accepted addr) => { d with newest := some addr }
  | .serve (.acceptErr e) => { d with calls := d.calls ++ [(none, e)] }
  | .serve (.makeErr e) => { d with calls := d.calls ++ [(d.newest, ioOther e)] }
  | _ => d

def after (as : List (Action A E B)) : Due A E B := as.foldl answer {}

theorem after_snoc (as : List (Action A E B)) (a : Action A E B) :
    after (as ++ [a]) = (after as).answer a := by
  rw [after, after, List.foldl_append, List.foldl_cons, List.foldl_nil]

end Due

/-- The history of `serve` is what the answers were. -/
structure Answered (as : List (Action A E B)) (s : Serve A E B) : Prop where
  arrived : notes ServeEvent.connection s.log = as.filterMap Action.connection
  calls : notes ServeEvent.call s.log = (Due.after as).calls
  /-- The loop works on the connection taken last. -/
  current : ∀ addr, s.stage.current = some addr → (Due.after as).newest = some addr

section
variable {srv : Server A} {h k : Handle A} {now : Instant} {s t : Serve A E B}
  {x : ServeAnswer A E B} {a : Action A E B} {as : List (Action A E B)}
  {cs : List (Conn A E B)} {evs : List (ServeEvent A E B)}

theorem answered_init : Answered [] ({} : Serve A E B) :=
  ⟨rfl, rfl, fun _ h => (by cases h)⟩

/-- One more answer, with the events that it leads to. -/
theorem Answered.answer (hs : Answered as s) (hlog : t.log = s.log)
    (hconn : evs.filterMap ServeEvent.connection = a.connection.toList)
    (hcall : ((Due.after as).answer a).calls =
      (Due.after as).calls ++ evs.filterMap ServeEvent.call)
    (hcur : ∀ addr, t.stage.current = some addr →
      ((Due.after as).answer a).newest = some addr) :
    Answered (as ++ [a]) (t.record now evs) := by
  constructor
  · rw [Serve.record_log hlog, notes_stamp, filterMap_snoc, hs.arrived, hconn]
  · rw [Serve.record_log hlog, notes_stamp, Due.after_snoc, hs.calls, hcall]
  · rw [Due.after_snoc]
    exact hcur

theorem Serve.Rule.answered (hr : Serve.Rule srv h now s x k t cs evs)
    (hsrv : srv.acceptErrorHandler = true) (hs : Answered as s) :
    Answered (as ++ [.serve x]) (t.record now evs) := by
  have hlog := hr.log
  cases hr with
  | poll | suspend | bindPending | shutdownBusy | shutdownPending | gracefulBusy
  | gracefulPending | connEndBusy | connEndPending | acceptPending | backoffPending
  | readyPending | makePending | sleepPending =>
    exact hs.answer hlog rfl (List.append_nil _).symm hs.current
  | bound x rest ha hpc hx =>
    rcases hx with rfl | rfl <;>
      exact hs.answer hlog rfl (List.append_nil _).symm fun _ h => (by cases h)
  | ready rest addr hst | made rest addr hst | watcher addr hst =>
    refine hs.answer hlog rfl (List.append_nil _).symm fun addr' haddr => ?_
    exact hs.current addr' (by rw [hst]; exact haddr)
  | accepted rest addr hst =>
    exact hs.answer hlog rfl (List.append_nil _).symm fun _ haddr => haddr
  | acceptErr rest e hst =>
    simp only [Serve.report, hsrv, if_true]
    exact hs.answer hlog rfl rfl fun _ h => (by cases h)
  | makeErr rest addr e hst =>
    have hnewest := hs.current addr (by rw [hst]; rfl)
    simp only [Serve.report, hsrv, if_true]
    refine hs.answer hlog rfl ?_ fun _ h => (by cases h)
    rw [← hnewest]
    rfl
  | _ => exact hs.answer hlog rfl (List.append_nil _).symm fun _ h => (by cases h)

theorem Answered.others (hs : Answered as s) (ha : ∀ x, a ≠ .serve x) :
    Answered (as ++ [a]) s := by
  obtain ⟨hconn, hdue⟩ : a.connection = none ∧ (Due.after as).answer a = Due.after as := by
    cases a with
    | serve x => exact absurd rfl (ha x)
    | _ => exact ⟨rfl, rfl⟩
  rw [← Due.after_snoc] at hdue
  refine ⟨?_, by rw [hdue]; exact hs.calls, by rw [hdue]; exact hs.current⟩
  rw [filterMap_snoc, hconn, Option.toList_none, List.append_nil]
  exact hs.arrived

end

/-! ## The whole server -/

/-- The error that the action brings to the acceptor of task `i`. -/
def Action.acceptorError (i : ℕ) : Action A E B → Option (IoError E B)
  | .task j x => if j = i then x.acceptError else none
  | _ => none

/-- Where an error that `serve` returns, or is about to return, comes from. -/
def ErrorFrom (as : List (Action A E B)) : ServeStage A E B → Prop
  | .setAddr _ (some e) => .serve (.bindErr e) ∈ as
  | .addrStore (some e) => .serve (.bindErr e) ∈ as
  | .addrWake (some e) => .serve (.bindErr e) ∈ as
  | .returned (.error e) =>
    .serve (.bindErr e) ∈ as ∨ ∃ b, e = ioOther b ∧ .serve (.readyErr b) ∈ as
  | _ => True

theorem ErrorFrom.mono {as bs : List (Action A E B)} {stage : ServeStage A E B}
    (h : ErrorFrom as stage) (hsub : ∀ a ∈ as, a ∈ bs) : ErrorFrom bs stage := by
  cases stage with
  | setAddr addr failed | addrStore failed | addrWake failed =>
    cases failed with
    | none => trivial
    | some e => exact hsub _ h
  | returned r =>
    cases r with
    | ok u => trivial
    | error e =>
      rcases h with h | ⟨b, rfl, h⟩
      · exact .inl (hsub _ h)
      · exact .inr ⟨b, rfl, hsub _ h⟩
  | _ => trivial

/-- An error is passed on unchanged; a new one is that of `bind` or of `poll_ready`. -/
theorem Serve.Rule.errorFrom {srv : Server A} {h k : Handle A} {now : Instant} {s t : Serve A E B}
    {x : ServeAnswer A E B} {cs : List (Conn A E B)} {evs : List (ServeEvent A E B)}
    {as : List (Action A E B)} (hr : Serve.Rule srv h now s x k t cs evs)
    (hs : ErrorFrom as s.stage) : ErrorFrom (as ++ [.serve x]) t.stage := by
  have hmono : ErrorFrom (as ++ [.serve x]) s.stage :=
    hs.mono fun a ha => List.mem_append_left _ ha
  cases hr with
  | poll | suspend | bindPending | shutdownBusy | shutdownPending | gracefulBusy
  | gracefulPending | connEndBusy | connEndPending | acceptPending | backoffPending
  | readyPending | makePending | sleepPending =>
    exact hmono
  | bindErr rest e => exact List.mem_append_right _ (List.mem_singleton_self _)
  | setAddr addr failed hst | addrStore failed hst =>
    rw [hst] at hmono
    cases failed with
    | none => trivial
    | some e => exact hmono
  | bindFailed e hst =>
    rw [hst] at hmono
    exact .inl hmono
  | readyErr rest addr e =>
    exact .inr ⟨e, rfl, List.mem_append_right _ (List.mem_singleton_self _)⟩
  | _ => trivial

namespace State
variable {srv : Server A} {P : State A E B → Action A E B → Prop} {s t : State A E B}
  {a : Action A E B} {as : List (Action A E B)} {i : ℕ} {x : ConnAnswer E B}

/-- The ledger, the answers, the tasks' calls and the pending error after the actions `as`. -/
structure Accounting (as : List (Action A E B)) (s : State A E B) : Prop where
  booked : Booked s.tasks s.serve.stage (Account.ledger s.serve.log)
  answered : Answered as s.serve
  tasks : ∀ (i : ℕ) (c : Conn A E B), s.tasks[i]? = some c →
    c.calls = (as.filterMap (Action.acceptorError i)).map fun e => (some c.remoteAddr, e)
  unborn : ∀ i, s.tasks.length ≤ i → as.filterMap (Action.acceptorError i) = []
  error : ErrorFrom as s.serve.stage

theorem accounting_init : ({} : State A E B).Accounting [] :=
  ⟨⟨by simp [Account.ledger], fun _ h => (by cases h), rfl⟩, answered_init, by simp, by simp,
    trivial⟩

theorem task_of_step (h : s.step srv (.task i x) = some t) :
    ∃ c k d evs, s.tasks[i]? = some c ∧ c.step srv s.handle s.now x = some (k, d, evs) ∧
      t = { s with handle := k, tasks := s.tasks.set i (d.record s.now evs) } := by
  obtain ⟨c, hi, h⟩ := Option.bind_eq_some_iff.mp h
  obtain ⟨⟨k, d, evs⟩, hc, rfl⟩ := Option.map_eq_some_iff.mp h
  exact ⟨c, k, d, evs, hi, hc, rfl⟩

theorem acceptorErrors_snoc (ha : a.acceptorError i = none) :
    (as ++ [a]).filterMap (Action.acceptorError i) = as.filterMap (Action.acceptorError i) := by
  rw [filterMap_snoc, ha, Option.toList_none, List.append_nil]

/-- Actions of others bring no answer to `serve` and no error to an acceptor. -/
theorem Accounting.keep (hs : s.Accounting as) (hother : ∀ x, a ≠ .serve x)
    (ha : ∀ i, a.acceptorError i = none)
    (hserve : t.serve = s.serve) (htasks : t.tasks = s.tasks) : t.Accounting (as ++ [a]) := by
  refine ⟨?_, ?_, fun i c hi => ?_, fun i hi => ?_, ?_⟩
  · rw [hserve, htasks]
    exact hs.booked
  · rw [hserve]
    exact hs.answered.others hother
  · rw [htasks] at hi
    rw [acceptorErrors_snoc (ha i)]
    exact hs.tasks i c hi
  · rw [htasks] at hi
    rw [acceptorErrors_snoc (ha i)]
    exact hs.unborn i hi
  · rw [hserve]
    exact hs.error.mono fun b hb => List.mem_append_left _ hb

theorem Accounting.serve {x : ServeAnswer A E B} (hs : s.Accounting as)
    (hsrv : srv.acceptErrorHandler = true) (hr : Rule srv s (.serve x) t) :
    t.Accounting (as ++ [.serve x]) := by
  cases hr with
  | serve x k u cs evs hr =>
    constructor
    · rw [Serve.record_log hr.log, Account.ledger_stamp]
      exact hr.booked hsrv hs.booked
    · exact hr.answered hsrv hs.answered
    · intro i c hi
      rw [acceptorErrors_snoc rfl]
      by_cases hlt : i < s.tasks.length
      · rw [List.getElem?_append_left hlt] at hi
        exact hs.tasks i c hi
      · -- a task that has just been spawned
        have hge := Nat.le_of_not_lt hlt
        rw [List.getElem?_append_right hge] at hi
        obtain ⟨addr, rfl⟩ := hr.spawned (List.mem_of_getElem? hi)
        rw [hs.unborn i hge]
        rfl
    · intro i hi
      rw [acceptorErrors_snoc rfl]
      apply hs.unborn i
      exact le_trans (by simp) hi
    · exact hr.errorFrom hs.error

theorem Accounting.set {c d : Conn A E B} {k : Handle A} {evs : List (ConnEvent A E B)}
    (hs : s.Accounting as) (hi : s.tasks[i]? = some c) (hlog : d.log = c.log)
    (haddr : d.remoteAddr = c.remoteAddr)
    (hcalls : evs.filterMap ConnEvent.call =
      (a.acceptorError i).toList.map fun e => (some c.remoteAddr, e))
    (hserve : ∀ x, a ≠ .serve x) (hother : ∀ j, i ≠ j → a.acceptorError j = none) :
    ({ s with handle := k, tasks := s.tasks.set i (d.record s.now evs) } :
      State A E B).Accounting (as ++ [a]) := by
  have hlt : i < s.tasks.length := (List.getElem?_eq_some_iff.mp hi).1
  constructor
  · refine ⟨fun a ha => (hs.booked.sound a ha).set hi haddr, hs.booked.current, ?_⟩
    rw [List.length_set]
    exact hs.booked.tasks
  · exact hs.answered.others hserve
  · intro j b hj
    by_cases hij : i = j
    · subst hij
      rw [List.getElem?_set_self hlt] at hj
      obtain rfl := Option.some.inj hj
      have haddr' : (d.record s.now evs).remoteAddr = c.remoteAddr := haddr
      rw [Conn.calls, Conn.record_log hlog, notes_stamp, hcalls, ← Conn.calls, hs.tasks i c hi,
        filterMap_snoc, haddr', List.map_append]
    · rw [List.getElem?_set_ne hij] at hj
      rw [acceptorErrors_snoc (hother j hij)]
      exact hs.tasks j b hj
  · intro j hj
    rw [List.length_set] at hj
    rw [acceptorErrors_snoc (hother j (by omega))]
    exact hs.unborn j hj
  · exact hs.error.mono fun b hb => List.mem_append_left _ hb

theorem Accounting.task (hs : s.Accounting as) (hsrv : srv.acceptErrorHandler = true)
    (h : s.step srv (.task i x) = some t) : t.Accounting (as ++ [.task i x]) := by
  obtain ⟨c, k, d, evs, hi, hstep, rfl⟩ := task_of_step h
  have hr := Conn.rule_of_step hstep
  have hown : Action.acceptorError i (.task i x : Action A E B) = x.acceptError := if_pos rfl
  refine hs.set hi hr.log hr.remoteAddr ?_ (by simp) fun j hij => if_neg hij
  rw [hown]
  exact Conn.calls_of_step hsrv hstep

theorem Accounting.stream {y : StreamAnswer} (hs : s.Accounting as)
    (hr : Rule srv s (.stream i y) t) : t.Accounting (as ++ [.stream i y]) := by
  cases hr with
  | stream i y c d evs hi hr =>
    refine hs.set hi hr.log hr.remoteAddr ?_ (by simp) fun _ _ => rfl
    cases hr <;> rfl

theorem Accounting.step (hs : s.Accounting as) (hsrv : srv.acceptErrorHandler = true)
    (h : s.step srv a = some t) : t.Accounting (as ++ [a]) := by
  have hr := rule_of_step h
  cases a with
  | serve x => exact hs.serve hsrv hr
  | task i x => exact hs.task hsrv h
  | stream i y => exact hs.stream hr
  | tick d | call c | caller j =>
    cases hr
    exact hs.keep (by simp) (fun _ => rfl) rfl rfl

theorem Exec.accounting (h : Exec srv P {} as s) (hsrv : srv.acceptErrorHandler = true) :
    s.Accounting as :=
  Interleaving.Exec.trace_invariant (I := Accounting) h
    (fun hu _ move => hu.step hsrv move) accounting_init

/-- The calls of the accept error handler for one connection: in the accept loop, and
in the task it was handed to. -/
def handlerCalls (s : State A E B) (a : Account A E B) : List (Option A × IoError E B) :=
  a.calls ++ (a.task.bind fun i => s.tasks[i]?).elim [] Conn.calls

/-- What holds of accept errors after the actions `as`. -/
structure AcceptErrorsReported (srv : Server A) (as : List (Action A E B)) (s : State A E B) :
    Prop where
  /-- In the accept loop the calls of the handler are the failures, one for one. -/
  loop : notes ServeEvent.call s.serve.log = notes ServeEvent.failure s.serve.log
  /-- They are the calls due for the answers of the run: one without an address for an error
  of `accept_stream`, one with that of the connection taken last for one of `make_service`. -/
  answered : notes ServeEvent.call s.serve.log = (Due.after as).calls
  /-- Between an error of `accept_stream` and its next answer stands a back-off of 50 ms, -/
  backoff : (select ServeEvent.streams s.serve.log).IsChain Serve.BacksOff
  /-- and it is not even polled before. -/
  polled : s.serve.stage = .select .stream →
    ∀ t e, (select ServeEvent.streams s.serve.log).getLast? ≠ some (t, .acceptErr e)
  /-- There is one account for each connection that was accepted, -/
  accounts : (Account.ledger s.serve.log).map Account.addr =
    (notes ServeEvent.connection s.serve.log).reverse
  /-- and these are the answers of `accept_stream`. -/
  arrived : notes ServeEvent.connection s.serve.log = as.filterMap Action.connection
  /-- A connection gives at most one call, with its own address, -/
  once : ∀ a ∈ Account.ledger s.serve.log,
    s.handlerCalls a = [] ∨ ∃ e, s.handlerCalls a = [(some a.addr, e)]
  /-- and it gives one exactly if its `make_service` or its acceptor failed. -/
  failed : ∀ a ∈ Account.ledger s.serve.log, s.handlerCalls a ≠ [] ↔
    a.refused = true ∨ ∃ i e, a.task = some i ∧ .task i (.acceptErr e) ∈ as
  /-- The task of a connection reports the error of its acceptor as it is. -/
  acceptor : ∀ (i : ℕ) (c : Conn A E B), s.tasks[i]? = some c →
    c.calls = (as.filterMap (Action.acceptorError i)).map fun e => (some c.remoteAddr, e)
  /-- A task that ended for another reason has reported nothing. -/
  silent : ∀ c ∈ s.tasks, ∀ t reason, (t, .ended reason) ∈ c.log → reason ≠ .acceptError →
    c.calls = []
  /-- Each task belongs to one connection. -/
  tasks : (Account.ledger s.serve.log).filterMap Account.task =
    (List.range s.tasks.length).reverse
  /-- These errors leave `serve` in its accept loop. -/
  stays : ∀ x t, (∃ e, x = .acceptErr e) ∨ (∃ e, x = .makeErr e) →
    s.step srv (.serve x) = some t → t.serve.stage.inLoop = true
  detached : ∀ i x t, s.step srv (.task i x) = some t → t.serve = s.serve
  /-- An error of `serve` is that of `bind` or of `poll_ready`. -/
  returned : ∀ e, s.serve.stage = .returned (.error e) →
    .serve (.bindErr e) ∈ as ∨ ∃ b, e = ioOther b ∧ .serve (.readyErr b) ∈ as
  /-- Each call of `make_service` follows its own successful `poll_ready`. -/
  ready : FollowsAt (· = .ready) (fun e => ∃ addr, e = .makeService addr) s.serve.log

theorem mem_filterMap_acceptorError {e : IoError E B} :
    e ∈ as.filterMap (Action.acceptorError i) ↔ Action.task i (.acceptErr e) ∈ as := by
  rw [List.mem_filterMap]
  constructor
  · rintro ⟨a, ha, he⟩
    cases a with
    | task j x =>
      by_cases hij : j = i
      · subst hij
        cases x <;> simp [Action.acceptorError, ConnAnswer.acceptError] at he
        rwa [← he]
      · simp [Action.acceptorError, hij] at he
    | _ => cases he
  · intro h
    exact ⟨_, h, by simp [Action.acceptorError, ConnAnswer.acceptError]⟩

theorem handlerCalls_handed {c : Conn A E B} (hi : s.tasks[i]? = some c) :
    s.handlerCalls { addr := c.remoteAddr, task := some i } = c.calls := by
  simp [handlerCalls, hi]

theorem calls_ne_nil {c : Conn A E B} (hs : s.Accounting as) (hi : s.tasks[i]? = some c) :
    c.calls ≠ [] ↔ ∃ e, Action.task i (.acceptErr e) ∈ as := by
  rw [hs.tasks i c hi, Ne, List.map_eq_nil_iff, List.eq_nil_iff_forall_not_mem]
  simp only [mem_filterMap_acceptorError, not_forall, not_not]

/-- Accept failures are each reported once and never stop the server. -/
theorem accept_errors_reported (hsrv : srv.acceptErrorHandler = true)
    (h : Exec srv Always {} as s) : s.AcceptErrorsReported srv as := by
  have hr : Reachable srv s := ⟨as, h⟩
  have hacc := Exec.accounting h hsrv
  have hrep := (Serve.reporting_invariant hsrv).reachable hr eachServe_any .init
  have hcon : ∀ c ∈ s.tasks, c.Concluding :=
    (Conn.concluding_invariant hsrv).forall_tasks
      (fun _ _ _ => ⟨fun _ => ⟨rfl, rfl⟩, fun hl => by cases hl⟩) hr eachTask_any
      eachStreamCall_any
  constructor
  · exact hrep.calls
  · exact hacc.answered.calls
  · exact hrep.backoff
  · intro hst
    have hback := hrep.backedOff
    rw [hst] at hback
    exact hback
  · exact Account.map_addr_ledger s.serve.log
  · exact hacc.answered.arrived
  · intro a ha
    cases hacc.booked.sound a ha with
    | waiting addr => exact .inl rfl
    | refused addr e => exact .inr ⟨e, rfl⟩
    | handed i c hi =>
      rw [handlerCalls_handed hi]
      exact (hcon c (List.mem_of_getElem? hi)).calls_le
  · intro a ha
    cases hacc.booked.sound a ha with
    | waiting addr => simp [handlerCalls]
    | refused addr e => simp [handlerCalls]
    | handed i c hi =>
      rw [handlerCalls_handed hi, calls_ne_nil hacc hi]
      simp
  · exact hacc.tasks
  · intro c hc t reason ht hne
    exact (hcon c hc).calls_of_ended ht hne
  · exact hacc.booked.tasks
  · intro x t hx hstep
    cases rule_of_step hstep with
    | serve _ k u cs evs hr => exact hr.inLoop hx
  · intro i x t hstep
    obtain ⟨c, k, d, evs, -, -, rfl⟩ := task_of_step hstep
    rfl
  · intro e hst
    have herror := hacc.error
    rw [hst] at herror
    exact herror
  · exact hrep.ready

/-- `accept_stream` fails, a connection is refused by the make service, and another one
fails in its acceptor. -/
def failingSchedule : List (Action ℕ Unit Unit) :=
  Action.listen (some 0) ++
    [Action.serve (.acceptErr (.raw ())), .tick (Duration.fromMillis 50), .serve .go,
      .serve (.accepted 1), .serve .ready, .serve (.makeErr ()),
      .serve (.accepted 2), .serve .ready, .serve .made, .serve .go, .serve .go] ++
    List.replicate 8 (Action.task 0 .go) ++ [Action.task 0 (.acceptErr (.raw ()))]

def reportingServer : Server ℕ := { listener := .ready, acceptErrorHandler := true }

theorem accept_errors_reported_failing :
    (after reportingServer failingSchedule).AcceptErrorsReported reportingServer failingSchedule :=
  accept_errors_reported rfl (exec_of_runIf (by decide))

end State

end AxumServer
