import AxumServer.Interleaving.Origins
import AxumServer.Server.Threads

/-! # Several servers on one handle

A `Handle` can be cloned and given to any number of servers, which then share its cells.
Here the futures of `serve`, the connection tasks and the calls on the handle are the
threads of one program, and the stream tasks of a connection are its helpers. Beyond their
own operations a future of `serve` or a call may be dropped by its owner while it is
suspended, and code that a thread calls may panic.
-/

namespace AxumServer

open Interleaving

variable {A E B : Type}

namespace Fleet

/-- What the threads share: the cells of the handle, and the clock. -/
structure Cells (A : Type) where
  now : Instant := 0
  handle : Handle A := {}
  deriving DecidableEq, Repr

inductive Thread (A E B : Type) where
  /-- The future of `serve` of server `j`. -/
  | serve (j : ℕ) (s : Serve A E B)
  /-- A connection of server `j`. -/
  | task (j : ℕ) (c : Conn A E B)
  | caller (c : Caller A)
  /-- A future that was dropped before its end. -/
  | dropped
  deriving DecidableEq, Repr

/-- What happens outside of the threads. -/
inductive Event where
  | tick (d : Duration)
  /-- `serve` is called on server `j`. -/
  | start (j : ℕ)
  | call (c : Call)
  deriving DecidableEq, Repr

inductive Answer (A E B : Type) where
  | serve (x : ServeAnswer A E B)
  | task (x : ConnAnswer E B)
  | caller
  | stream (x : StreamAnswer)
  /-- The owner of a suspended future drops it. -/
  | cancel
  /-- Code that the thread has called panics. -/
  | panic
  deriving DecidableEq, Repr

end Fleet

/-- `serve` runs code of its listener or of the make service. -/
def Serve.callsOut (s : Serve A E B) : Bool :=
  match s.stage, s.pc with
  | .bind, .next (.bind :: _) => true
  | .select .stream, .next (.accept :: _) => true
  | .pollReady _, .next (.pollReady :: _) => true
  | .makeService _, .next (.makeService :: _) => true
  | _, _ => false

/-- The task runs code of the acceptor, of hyper or of the service. -/
def Conn.callsOut (c : Conn A E B) : Bool :=
  match c.pc with
  | .inside _ _ => c.stage.live
  | _ => false

def Caller.suspended : Caller A → Bool
  | .listening .created => true
  | .listening (.waiting _) => true
  | _ => false

namespace Fleet

def outside (e : Event) (m : Cells A) : Cells A × List (Thread A E B) :=
  match e with
  | .tick d => ({ m with now := m.now + d }, [])
  | .start j => (m, [.serve j {}])
  | .call c => (m, [.caller c.start])

def step (srvs : ℕ → Server A) (m : Cells A) :
    Thread A E B → Answer A E B → Option (Cells A × Thread A E B × List (Thread A E B))
  | .serve j s, .serve x => (s.step (srvs j) m.handle m.now x).map fun (h, t, cs, evs) =>
    ({ m with handle := h }, .serve j (t.record m.now evs), cs.map (.task j))
  -- nothing that `serve` owns at an `await` is counted, so its drop touches no cell
  | .serve _ s, .cancel =>
    if s.stage.awaits ∧ s.pc = .idle then some (m, .dropped, []) else none
  | .serve _ s, .panic => if s.callsOut then some (m, .dropped, []) else none
  | .task j c, .task x => (c.step (srvs j) m.handle m.now x).map fun (h, d, evs) =>
    ({ m with handle := h }, .task j (d.record m.now evs), [])
  -- the task unwinds and drops its `Watcher`
  | .task j c, .panic => if c.callsOut then some (m, .task j c.leave, []) else none
  | .caller c, .caller => (c.step m.handle).map fun (h, d) =>
    ({ m with handle := h }, .caller d, [])
  | .caller c, .cancel => if c.suspended then some (m, .dropped, []) else none
  | _, _ => none

def helper (m : Cells A) : Thread A E B → Answer A E B → Option (Thread A E B)
  | .task j c, .stream x => (c.stream x).map fun (d, evs) => .task j (d.record m.now evs)
  | _, _ => none

def program (srvs : ℕ → Server A) : Program (Cells A) (Thread A E B) Event (Answer A E B) where
  outside := outside
  step := step srvs
  helper := helper

abbrev State (A E B : Type) := Threads (Cells A) (Thread A E B)

abbrev Action (A E B : Type) := Move Event (Answer A E B)

inductive Rule (srvs : ℕ → Server A) (m : Cells A) :
    Thread A E B → Answer A E B → Cells A → Thread A E B → List (Thread A E B) → Prop
  | serve (j : ℕ) (s t : Serve A E B) (x : ServeAnswer A E B) (k : Handle A)
      (cs : List (Conn A E B)) (evs : List (ServeEvent A E B))
      (hr : Serve.Rule (srvs j) m.handle m.now s x k t cs evs) :
    Rule srvs m (.serve j s) (.serve x) { m with handle := k } (.serve j (t.record m.now evs))
      (cs.map (.task j))
  | cancelServe (j : ℕ) (s : Serve A E B) (ha : s.stage.awaits = true) (hpc : s.pc = .idle) :
    Rule srvs m (.serve j s) .cancel m .dropped []
  | panicServe (j : ℕ) (s : Serve A E B) (hs : s.callsOut = true) :
    Rule srvs m (.serve j s) .panic m .dropped []
  | task (j : ℕ) (c d : Conn A E B) (x : ConnAnswer E B) (k : Handle A)
      (evs : List (ConnEvent A E B)) (hr : Conn.Rule (srvs j) m.handle m.now c k d evs) :
    Rule srvs m (.task j c) (.task x) { m with handle := k } (.task j (d.record m.now evs)) []
  | panicTask (j : ℕ) (c : Conn A E B) (hc : c.callsOut = true) :
    Rule srvs m (.task j c) .panic m (.task j c.leave) []
  | caller (c d : Caller A) (k : Handle A) (hr : Caller.Rule m.handle c k d) :
    Rule srvs m (.caller c) .caller { m with handle := k } (.caller d) []
  | cancelCaller (c : Caller A) (hc : c.suspended = true) :
    Rule srvs m (.caller c) .cancel m .dropped []

section Inversion
variable {srvs : ℕ → Server A} {m n : Cells A} {t u : Thread A E B} {us : List (Thread A E B)}
  {x : Answer A E B}

theorem rule_of_step (h : step srvs m t x = some (n, u, us)) : Rule srvs m t x n u us := by
  unfold step at h
  split at h
  next j s x =>
    obtain ⟨⟨k, t, cs, evs⟩, hs, heq⟩ := Option.map_eq_some_iff.mp h
    obtain ⟨rfl, rfl, rfl⟩ := by simpa only [Prod.mk.injEq] using heq
    exact .serve j s t x k cs evs (Serve.rule_of_step hs)
  next j s =>
    split_ifs at h with ha
    obtain ⟨rfl, rfl, rfl⟩ := by simpa only [Option.some.injEq, Prod.mk.injEq] using h
    exact .cancelServe j s ha.1 ha.2
  next j s =>
    split_ifs at h with hs
    obtain ⟨rfl, rfl, rfl⟩ := by simpa only [Option.some.injEq, Prod.mk.injEq] using h
    exact .panicServe j s hs
  next j c x =>
    obtain ⟨⟨k, d, evs⟩, hs, heq⟩ := Option.map_eq_some_iff.mp h
    obtain ⟨rfl, rfl, rfl⟩ := by simpa only [Prod.mk.injEq] using heq
    exact .task j c d x k evs (Conn.rule_of_step hs)
  next j c =>
    split_ifs at h with hc
    obtain ⟨rfl, rfl, rfl⟩ := by simpa only [Option.some.injEq, Prod.mk.injEq] using h
    exact .panicTask j c hc
  next c =>
    obtain ⟨⟨k, d⟩, hs, heq⟩ := Option.map_eq_some_iff.mp h
    obtain ⟨rfl, rfl, rfl⟩ := by simpa only [Prod.mk.injEq] using heq
    exact .caller c d k (Caller.rule_of_step hs)
  next c =>
    split_ifs at h with hc
    obtain ⟨rfl, rfl, rfl⟩ := by simpa only [Option.some.injEq, Prod.mk.injEq] using h
    exact .cancelCaller c hc
  next => cases h

theorem stream_of_helper (h : helper m t x = some u) :
    ∃ j c d y evs, t = .task j c ∧ x = .stream y ∧ Conn.StreamRule c y d evs ∧
      u = .task j (d.record m.now evs) := by
  unfold helper at h
  split at h
  next j c y =>
    obtain ⟨⟨d, evs⟩, hs, rfl⟩ := Option.map_eq_some_iff.mp h
    exact ⟨j, c, d, y, evs, rfl, rfl, Conn.streamRule_of_stream hs, rfl⟩
  next => cases h

theorem Rule.spawned (hr : Rule srvs m t x n u us) :
    ∀ v ∈ us, ∃ j addr, v = .task j { remoteAddr := addr } := by
  intro v hv
  cases hr with
  | serve j y z x k cs evs hr =>
    obtain ⟨c, hc, rfl⟩ := List.mem_map.mp hv
    obtain ⟨addr, rfl⟩ := hr.spawned hc
    exact ⟨j, addr, rfl⟩
  | _ => cases hv

theorem handle_outside {e : Event} (h : (program (E := E) (B := B) srvs).outside e m = (n, us)) :
    n.handle = m.handle := by
  cases e <;> obtain ⟨rfl, rfl⟩ := Prod.mk.inj h <;> rfl

theorem started_outside {e : Event}
    (h : (program (E := E) (B := B) srvs).outside e m = (n, us)) :
    ∀ u ∈ us, (∃ j, u = .serve j {}) ∨ ∃ c : Call, u = .caller c.start := by
  intro u hu
  cases e <;> obtain ⟨rfl, rfl⟩ := Prod.mk.inj h
  · cases hu
  · exact .inl ⟨_, List.mem_singleton.mp hu⟩
  · exact .inr ⟨_, List.mem_singleton.mp hu⟩

end Inversion

section Enabled
variable {srvs : ℕ → Server A} {s : State A E B} {i j : ℕ}

theorem next_serve {y z : Serve A E B} {x : ServeAnswer A E B} {k : Handle A}
    {cs : List (Conn A E B)} {evs : List (ServeEvent A E B)}
    (hi : s.pool[i]? = some (.serve j y))
    (hstep : y.step (srvs j) s.memory.handle s.memory.now x = some (k, z, cs, evs)) :
    (program srvs).next s (.thread i (.serve x)) =
      some ⟨{ s.memory with handle := k },
        s.pool.set i (.serve j (z.record s.memory.now evs)) ++ cs.map (.task j)⟩ := by
  apply Program.next_thread hi
  simp only [program, step, hstep, Option.map_some]

theorem next_task {c d : Conn A E B} {x : ConnAnswer E B} {k : Handle A}
    {evs : List (ConnEvent A E B)} (hi : s.pool[i]? = some (.task j c))
    (hstep : c.step (srvs j) s.memory.handle s.memory.now x = some (k, d, evs)) :
    (program srvs).next s (.thread i (.task x)) =
      some ⟨{ s.memory with handle := k },
        s.pool.set i (.task j (d.record s.memory.now evs)) ++ []⟩ := by
  apply Program.next_thread hi
  simp only [program, step, hstep, Option.map_some]

theorem next_caller {c d : Caller A} {k : Handle A}
    (hi : s.pool[i]? = some (.caller c)) (hstep : c.step s.memory.handle = some (k, d)) :
    (program srvs).next s (.thread i .caller) =
      some ⟨{ s.memory with handle := k }, s.pool.set i (.caller d) ++ []⟩ := by
  apply Program.next_thread hi
  simp only [program, step, hstep, Option.map_some]

end Enabled

abbrev Exec (srvs : ℕ → Server A) := (program (E := E) (B := B) srvs).Exec

def Reachable (srvs : ℕ → Server A) (s : State A E B) : Prop :=
  Interleaving.Reachable (program srvs).next Always ⟨{}, []⟩ s

def after (srvs : ℕ → Server A) (as : List (Action A E B)) : State A E B :=
  (runIf (program srvs).next Always ⟨{}, []⟩ as).getD ⟨{}, []⟩

theorem reachable_after (srvs : ℕ → Server A) (as : List (Action A E B)) :
    Reachable srvs (after srvs as) := by
  unfold after
  cases h : runIf (program srvs).next Always (⟨{}, []⟩ : State A E B) as with
  | none => exact .refl _
  | some t => exact ⟨as, exec_of_runIf h⟩

/-- An action of a lone server, with the thread that each of its parties is. -/
def place (serve : ℕ) (task caller : ℕ → ℕ) : AxumServer.Action A E B → Action A E B
  | .tick d => .outside (.tick d)
  | .call c => .outside (.call c)
  | .caller i => .thread (caller i) .caller
  | .serve x => .thread serve (.serve x)
  | .task i x => .thread (task i) (.task x)
  | .stream i x => .helper (task i) (.stream x)

/-! ## The latches in every reachable state -/

structure Cells.Le (m n : Cells A) : Prop where
  now : m.now ≤ n.now
  handle : m.handle.Le n.handle

def Thread.WF (m : Cells A) : Thread A E B → Prop
  | .serve _ s => s.WF m.handle
  | .task _ c => c.WF m.handle
  | .caller c => c.WF m.handle
  | .dropped => True

/-- Every operation of a fleet moves the latches forward and keeps what each thread
knows about them. -/
theorem guarantee (srvs : ℕ → Server A) :
    Guarantee (program (E := E) (B := B) srvs) Cells.Le (fun m => m.handle.WF) Thread.WF where
  refl m := ⟨le_rfl, .refl _⟩
  trans h g := ⟨h.now.trans g.now, h.handle.trans g.handle⟩
  mono {m n t} hle ht := by
    cases t with
    | serve j s => exact Serve.WF.mono ht hle.handle
    | task j c => exact Conn.WF.mono ht hle.handle
    | caller c => exact Caller.WF.mono ht hle.handle
    | dropped => trivial
  outside {m n us e} hw he := by
    cases e with
    | tick d =>
      obtain ⟨rfl, rfl⟩ := Prod.mk.inj he
      exact ⟨⟨Nat.le_add_right _ _, .refl _⟩, hw, by simp⟩
    | start j =>
      obtain ⟨rfl, rfl⟩ := Prod.mk.inj he
      exact ⟨⟨le_rfl, .refl _⟩, hw, by simpa [Thread.WF] using Serve.wf_new m.handle⟩
    | call c =>
      obtain ⟨rfl, rfl⟩ := Prod.mk.inj he
      exact ⟨⟨le_rfl, .refl _⟩, hw, by simpa [Thread.WF] using c.wf_start m.handle⟩
  step {m n t u us x} hw ht hstep := by
    cases rule_of_step hstep with
    | serve j s t x k cs evs hr =>
      obtain ⟨hk, hu⟩ := hr.wf hw ht
      refine ⟨⟨le_rfl, hr.le⟩, hk, hu.record, fun v hv => ?_⟩
      obtain ⟨c, hc, rfl⟩ := List.mem_map.mp hv
      exact hr.spawned_wf c hc
    | task j c d x k evs hr =>
      obtain ⟨hk, hd⟩ := hr.wf hw ht
      exact ⟨⟨le_rfl, hr.le⟩, hk, hd.record, by simp⟩
    | caller c d k hr =>
      obtain ⟨hk, hd⟩ := hr.wf hw ht
      exact ⟨⟨le_rfl, hr.le⟩, hk, hd, by simp⟩
    | panicTask j c hc =>
      exact ⟨⟨le_rfl, .refl _⟩, hw, Conn.WF.leave ht, by simp⟩
    | cancelServe | panicServe | cancelCaller =>
      exact ⟨⟨le_rfl, .refl _⟩, hw, trivial, by simp⟩
  helper {m t u x} hw ht hhelper := by
    obtain ⟨j, c, d, y, evs, rfl, rfl, hr, rfl⟩ := stream_of_helper hhelper
    exact (hr.wf ht).record

abbrev Sound (s : State A E B) : Prop := s.Sound (fun m => m.handle.WF) Thread.WF

theorem Reachable.sound {srvs : ℕ → Server A} {s : State A E B} (h : Reachable srvs s) :
    Sound s := by
  obtain ⟨as, h⟩ := h
  exact (guarantee srvs).sound h ⟨Handle.wf_new, by simp⟩

/-! ## Runs on a new handle -/

abbrev Runs (srvs : ℕ → Server A) (as : List (Action A E B)) (s : State A E B) : Prop :=
  Exec srvs ⟨{}, []⟩ as s

/-- Thread `i` made an operation with `P` in such a run. -/
abbrev Did (srvs : ℕ → Server A) (as : List (Action A E B)) (i : ℕ)
    (P : List (Action A E B) → State A E B → Thread A E B → Answer A E B → Prop) : Prop :=
  (program srvs).Did ⟨{}, []⟩ as i P

theorem Runs.sound {srvs : ℕ → Server A} {as : List (Action A E B)} {s : State A E B}
    (h : Runs srvs as s) : Sound s :=
  Reachable.sound ⟨as, h⟩

/-- What no new thread holds, a thread came to hold by an operation of its own. -/
theorem Runs.origin {srvs : ℕ → Server A} {as : List (Action A E B)} {s : State A E B}
    (h : Runs srvs as s) {K : Thread A E B → Prop}
    {P : Cells A → Thread A E B → Answer A E B → Prop}
    (serve : ∀ j, ¬ K (.serve j {})) (caller : ∀ c : Call, ¬ K (.caller c.start))
    (task : ∀ j addr, ¬ K (.task j { remoteAddr := addr }))
    (step : ∀ {m n t u us x}, m.handle.WF → Thread.WF m t → Rule srvs m t x n u us → K u →
      K t ∨ P m t x)
    (stream : ∀ {j c d x evs now}, Conn.StreamRule c x d evs →
      K (.task j (d.record now evs)) → K (.task j c))
    {i : ℕ} {t : Thread A E B} (hi : s.pool[i]? = some t) (hK : K t) :
    Did srvs as i fun _ u t x => P u.memory t x := by
  refine (guarantee srvs).origin ?_ ?_ ?_ h ⟨Handle.wf_new, by simp⟩ (by simp) hi hK
  · intro m n us e he u hu
    rcases started_outside he u hu with ⟨j, rfl⟩ | ⟨c, rfl⟩
    · exact serve j
    · exact caller c
  · intro m n t u us x hw ht hstep
    have hr := rule_of_step hstep
    refine ⟨step hw ht hr, fun v hv => ?_⟩
    obtain ⟨j, addr, rfl⟩ := hr.spawned v hv
    exact task j addr
  · intro m t u x hhelper hu
    obtain ⟨j, c, d, y, evs, rfl, rfl, hr, rfl⟩ := stream_of_helper hhelper
    exact stream hr hu

/-! ## Assertions about one server or one connection -/

def OfTask (j : ℕ) (I : Handle A → Instant → Conn A E B → Prop) (m : Cells A) :
    Thread A E B → Prop
  | .task j' c => j' = j ∧ I m.handle m.now c
  | _ => False

/-- An assertion about the future of `serve` of server `j`, unless it was dropped. -/
def OfServe (j : ℕ) (J : Handle A → Instant → Serve A E B → Prop) (m : Cells A) :
    Thread A E B → Prop
  | .serve j' s => j' = j ∧ J m.handle m.now s
  | .dropped => True
  | _ => False

def Thread.taskFuel (fuel : Conn A E B → ℕ) : Thread A E B → ℕ
  | .task _ c => fuel c
  | _ => 0

/-- The fuel of `serve`: a future that is dropped has made its last operation. -/
def Thread.serveFuel (fuel : Serve A E B → ℕ) : Thread A E B → ℕ
  | .serve _ s => fuel s + 1
  | _ => 0

section Assertions
variable {srvs : ℕ → Server A} {s s' : State A E B} {as : List (Action A E B)} {i j : ℕ}
  {I : Handle A → Instant → Conn A E B → Prop} {J : Handle A → Instant → Serve A E B → Prop}
  {c : Conn A E B} {y : Serve A E B}

/-- What a task of a lone server keeps, a task in a fleet keeps as well, if a panic does. -/
theorem task_assertion (hI : State.TaskInvariant (srvs j) State.AnyTask State.AnyTask I)
    (panic : ∀ {h now c}, c.callsOut = true → I h now c → I h now c.leave) :
    Assertion (program (E := E) (B := B) srvs) Cells.Le (fun m => m.handle.WF) Thread.WF
      (OfTask j I) where
  mono {m n t} hle ht := by
    cases t with
    | task j' c => exact ⟨ht.1, hI.mono hle.handle hle.now ht.2⟩
    | _ => exact ht
  step hw ht hstep hJ := by
    cases rule_of_step hstep with
    | task j' c d x k evs hr =>
      obtain ⟨rfl, hc⟩ := hJ
      exact ⟨rfl, hI.step hw ht trivial hr hc⟩
    | panicTask j' c hc => exact ⟨hJ.1, panic hc hJ.2⟩
    | serve | cancelServe | panicServe | caller | cancelCaller => cases hJ
  helper {m t u x} hw ht hhelper hJ := by
    obtain ⟨j', c, d, y, evs, rfl, rfl, hr, rfl⟩ := stream_of_helper hhelper
    exact ⟨hJ.1, hI.stream ht (fun _ => trivial) hr hJ.2⟩

theorem serve_assertion (hJ : State.ServeInvariant (srvs j) State.AnyAnswer J) :
    Assertion (program (E := E) (B := B) srvs) Cells.Le (fun m => m.handle.WF) Thread.WF
      (OfServe j J) where
  mono {m n t} hle ht := by
    cases t with
    | serve j' s => exact ⟨ht.1, hJ.mono hle.handle hle.now ht.2⟩
    | _ => exact ht
  step hw ht hstep hs := by
    cases rule_of_step hstep with
    | serve j' s t x k cs evs hr =>
      obtain ⟨rfl, hs⟩ := hs
      exact ⟨rfl, hJ.step hw ht trivial hr hs⟩
    | cancelServe | panicServe => trivial
    | task | panicTask | caller | cancelCaller => cases hs
  helper {m t u x} hw ht hhelper hs := by
    obtain ⟨j', c, d, y, evs, rfl, rfl, hr, rfl⟩ := stream_of_helper hhelper
    cases hs

theorem task_exec (hI : Assertion (program (E := E) (B := B) srvs) Cells.Le
      (fun m => m.handle.WF) Thread.WF (OfTask j I))
    (h : Exec srvs s as s') (hs : Sound s) (hi : s.pool[i]? = some (.task j c))
    (hc : I s.memory.handle s.memory.now c) :
    ∃ d, s'.pool[i]? = some (.task j d) ∧ I s'.memory.handle s'.memory.now d := by
  obtain ⟨u, hu, hJ⟩ := hI.exec (guarantee srvs) h hs hi ⟨rfl, hc⟩
  cases u with
  | task j' d =>
    obtain ⟨rfl, hd⟩ := hJ
    exact ⟨d, hu, hd⟩
  | serve | caller | dropped => cases hJ

theorem serve_exec (hJ : Assertion (program (E := E) (B := B) srvs) Cells.Le
      (fun m => m.handle.WF) Thread.WF (OfServe j J))
    (h : Exec srvs s as s') (hs : Sound s) (hi : s.pool[i]? = some (.serve j y))
    (hy : J s.memory.handle s.memory.now y) :
    s'.pool[i]? = some .dropped ∨
      ∃ z, s'.pool[i]? = some (.serve j z) ∧ J s'.memory.handle s'.memory.now z := by
  obtain ⟨u, hu, hJ⟩ := hJ.exec (guarantee srvs) h hs hi ⟨rfl, hy⟩
  cases u with
  | serve j' z =>
    obtain ⟨rfl, hz⟩ := hJ
    exact .inr ⟨z, hu, hz⟩
  | dropped => exact .inl hu
  | task | caller => cases hJ

/-- A task whose operations all use up `fuel`, and which does not call out. -/
theorem task_countP_le (hI : Assertion (program (E := E) (B := B) srvs) Cells.Le
      (fun m => m.handle.WF) Thread.WF (OfTask j I)) {fuel : Conn A E B → ℕ}
    (frame : ∀ {now c d x evs}, Conn.StreamRule c x d evs → fuel (d.record now evs) = fuel c)
    (uses : ∀ {h k now c d evs}, h.WF → c.WF h → I h now c →
      Conn.Rule (srvs j) h now c k d evs → fuel (d.record now evs) < fuel c)
    (quiet : ∀ {h now c}, I h now c → c.callsOut = false)
    (h : Exec srvs s as s') (hs : Sound s) (hi : s.pool[i]? = some (.task j c))
    (hc : I s.memory.handle s.memory.now c) : as.countP (Move.isThread i) ≤ fuel c := by
  suffices as.countP (Move.isThread i) ≤ (Thread.task j c).taskFuel fuel from this
  refine hI.countP_le (guarantee srvs) ?_ ?_ h hs hi ⟨rfl, hc⟩
  · intro m n t u us x hw ht hJ hstep
    cases rule_of_step hstep with
    | task j' c d x k evs hr =>
      obtain ⟨rfl, hc⟩ := hJ
      exact uses hw ht hc hr
    | panicTask j' c hc => simp [quiet hJ.2] at hc
    | serve | cancelServe | panicServe | caller | cancelCaller => cases hJ
  · intro m t u x hhelper
    obtain ⟨j', c, d, y, evs, rfl, rfl, hr, rfl⟩ := stream_of_helper hhelper
    exact frame hr

theorem serve_countP_le (hJ : Assertion (program (E := E) (B := B) srvs) Cells.Le
      (fun m => m.handle.WF) Thread.WF (OfServe j J)) {fuel : Serve A E B → ℕ}
    (uses : ∀ {h k now s t x cs evs}, s.WF h → J h now s →
      Serve.Rule (srvs j) h now s x k t cs evs → fuel (t.record now evs) < fuel s)
    (h : Exec srvs s as s') (hs : Sound s) (hi : s.pool[i]? = some (.serve j y))
    (hy : J s.memory.handle s.memory.now y) : as.countP (Move.isThread i) ≤ fuel y + 1 := by
  suffices as.countP (Move.isThread i) ≤ (Thread.serve j y).serveFuel fuel from this
  refine hJ.countP_le (guarantee srvs) ?_ ?_ h hs hi ⟨rfl, hy⟩
  · intro m n t u us x hw ht hJ hstep
    cases rule_of_step hstep with
    | serve j' s t x k cs evs hr =>
      obtain ⟨rfl, hs⟩ := hJ
      exact Nat.succ_lt_succ (uses ht hs hr)
    | cancelServe | panicServe => exact Nat.succ_pos _
    | task | panicTask | caller | cancelCaller => cases hJ
  · intro m t u x hhelper
    obtain ⟨j', c, d, y, evs, rfl, rfl, hr, rfl⟩ := stream_of_helper hhelper
    rfl

end Assertions

end Fleet

end AxumServer
