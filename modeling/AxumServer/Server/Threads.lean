import AxumServer.Server.Latches

/-! # Reasoning about one thread of a server

An assertion about one connection task, or about `serve`, that the steps of
everybody else cannot break holds along whole runs as soon as the thread's own
operations keep it. Histories only grow, so "since then" is a suffix of them.
-/

namespace AxumServer

open Interleaving

variable {A E B : Type}

namespace Conn
variable {srv : Server A} {h k : Handle A} {now : Instant} {c d : Conn A E B}
  {evs : List (ConnEvent A E B)}

@[simp] theorem serveConnection_log (srv : Server A) (now : Instant) (c : Conn A E B) :
    (c.serveConnection srv now).log = c.log := by
  unfold serveConnection
  split <;> rfl

theorem Rule.log (hr : Rule srv h now c k d evs) : d.log = c.log := by
  cases hr with
  | accepted rest => exact serveConnection_log srv now c
  | _ => rfl

theorem record_log (hlog : d.log = c.log) : (d.record now evs).log = stamp now c.log evs := by
  rw [← hlog]
  rfl

theorem StreamRule.log {x : StreamAnswer} (hr : StreamRule c x d evs) : d.log = c.log := by
  cases hr <;> rfl

theorem StreamRule.since {log : List (Instant × ConnEvent A E B)} {new : List (ConnEvent A E B)}
    {x : StreamAnswer} (hr : StreamRule c x d evs) (hs : Since log c.log new) :
    Since log (d.record now evs).log (new ++ evs) := by
  rw [record_log hr.log]
  exact hs.stamp now evs

theorem Rule.since {log : List (Instant × ConnEvent A E B)} {new : List (ConnEvent A E B)}
    (hr : Rule srv h now c k d evs) (hs : Since log c.log new) :
    Since log (d.record now evs).log (new ++ evs) := by
  rw [record_log hr.log]
  exact hs.stamp now evs

end Conn

namespace Serve
variable {srv : Server A} {h k : Handle A} {now : Instant} {s t : Serve A E B}
  {x : ServeAnswer A E B} {cs : List (Conn A E B)} {evs : List (ServeEvent A E B)}

theorem Rule.log (hr : Rule srv h now s x k t cs evs) : t.log = s.log := by
  cases hr <;> rfl

theorem record_log (hlog : t.log = s.log) : (t.record now evs).log = stamp now s.log evs := by
  rw [← hlog]
  rfl

theorem Rule.since {log : List (Instant × ServeEvent A E B)} {new : List (ServeEvent A E B)}
    (hr : Rule srv h now s x k t cs evs) (hs : Since log s.log new) :
    Since log (t.record now evs).log (new ++ evs) := by
  rw [record_log hr.log]
  exact hs.stamp now evs

end Serve

namespace State
variable {srv : Server A} {P : State A E B → Action A E B → Prop} {s t : State A E B}
  {a : Action A E B} {as : List (Action A E B)} {i : ℕ} {c : Conn A E B}

theorem Rule.now_le (hr : Rule srv s a t) : s.now ≤ t.now := by
  cases hr with
  | tick d => exact Nat.le_add_right _ _
  | _ => exact le_rfl

def EachTask (G : Handle A → Instant → Conn A E B → Prop) (s : State A E B)
    (a : Action A E B) : Prop :=
  ∀ i x c, a = .task i x → s.tasks[i]? = some c → G s.handle s.now c

instance {G : Handle A → Instant → Conn A E B → Prop} [∀ h now c, Decidable (G h now c)]
    (s : State A E B) (a : Action A E B) : Decidable (EachTask G s a) :=
  match a with
  | .task i x => decidable_of_iff (∀ c ∈ s.tasks[i]?, G s.handle s.now c)
      ⟨fun h j y c ha hc => by cases ha; exact h c hc, fun h c hc => h i x c rfl hc⟩
  | .tick _ | .call _ | .caller _ | .serve _ | .stream _ _ => isTrue fun _ _ _ ha => by cases ha

/-- A condition on the calls of stream tasks. -/
def EachStreamCall (S : Handle A → Instant → Conn A E B → Prop) (s : State A E B)
    (a : Action A E B) : Prop :=
  ∀ i c, a = .stream i .call → s.tasks[i]? = some c → S s.handle s.now c

instance {S : Handle A → Instant → Conn A E B → Prop} [∀ h now c, Decidable (S h now c)]
    (s : State A E B) (a : Action A E B) : Decidable (EachStreamCall S s a) :=
  match a with
  | .stream i .call => decidable_of_iff (∀ c ∈ s.tasks[i]?, S s.handle s.now c)
      ⟨fun h j c ha hc => by cases ha; exact h c hc, fun h c hc => h i c rfl hc⟩
  | .tick _ | .call _ | .caller _ | .serve _ | .task _ _ | .stream _ .drop =>
    isTrue fun _ _ ha => by cases ha

/-- An assertion about one task: steps of others only move the latches and the
clock forward, its own operations under the condition `G` keep it, and so do those
of its stream tasks under the condition `S` on their calls. -/
structure TaskInvariant (srv : Server A) (G S I : Handle A → Instant → Conn A E B → Prop) :
    Prop where
  mono : ∀ {h k : Handle A} {now later : Instant} {c : Conn A E B}, h.Le k → now ≤ later →
    I h now c → I k later c
  step : ∀ {h k : Handle A} {now : Instant} {c d : Conn A E B} {evs : List (ConnEvent A E B)},
    h.WF → c.WF h → G h now c → Conn.Rule srv h now c k d evs → I h now c →
    I k now (d.record now evs)
  stream : ∀ {h : Handle A} {now : Instant} {c d : Conn A E B} {x : StreamAnswer}
    {evs : List (ConnEvent A E B)}, c.WF h → (x = .call → S h now c) →
    Conn.StreamRule c x d evs → I h now c → I h now (d.record now evs)

abbrev AnyTask : Handle A → Instant → Conn A E B → Prop := fun _ _ _ => True

variable {G S I : Handle A → Instant → Conn A E B → Prop}

theorem eachTask_any (s : State A E B) (a : Action A E B) (_ : P s a) : EachTask AnyTask s a :=
  fun _ _ _ _ _ => trivial

theorem eachStreamCall_any (s : State A E B) (a : Action A E B) (_ : P s a) :
    EachStreamCall AnyTask s a :=
  fun _ _ _ _ => trivial

theorem TaskInvariant.rule (hI : TaskInvariant srv G S I) (hr : Rule srv s a t) (hs : s.WF)
    (hG : EachTask G s a) (hS : EachStreamCall S s a) (hi : s.tasks[i]? = some c)
    (hc : I s.handle s.now c) :
    ∃ d, t.tasks[i]? = some d ∧ I t.handle t.now d := by
  have hle := hr.le
  have hnow := hr.now_le
  cases hr with
  | tick | call | caller => exact ⟨c, hi, hI.mono hle hnow hc⟩
  | serve x k u cs evs hr =>
    refine ⟨c, ?_, hI.mono hle hnow hc⟩
    rw [List.getElem?_append_left (List.getElem?_eq_some_iff.mp hi).1]
    exact hi
  | task j x b d k evs hj hr =>
    by_cases hij : j = i
    · subst hij
      obtain rfl := Option.some.inj (hi.symm.trans hj)
      exact ⟨_, List.getElem?_set_self (List.getElem?_eq_some_iff.mp hj).1,
        hI.step hs.handle (hs.tasks c (List.mem_of_getElem? hj)) (hG j x c rfl hj) hr hc⟩
    · exact ⟨c, by rw [List.getElem?_set_ne hij]; exact hi, hI.mono hle hnow hc⟩
  | stream j x b d evs hj hr =>
    by_cases hij : j = i
    · subst hij
      obtain rfl := Option.some.inj (hi.symm.trans hj)
      exact ⟨_, List.getElem?_set_self (List.getElem?_eq_some_iff.mp hj).1,
        hI.stream (hs.tasks c (List.mem_of_getElem? hj)) (fun hx => hS j c (hx ▸ rfl) hj) hr hc⟩
    · exact ⟨c, by rw [List.getElem?_set_ne hij]; exact hi, hc⟩

theorem TaskInvariant.exec (hI : TaskInvariant srv G S I) (h : Exec srv P s as t) (hs : s.WF)
    (hPG : ∀ s a, P s a → EachTask G s a) (hPS : ∀ s a, P s a → EachStreamCall S s a)
    (hi : s.tasks[i]? = some c) (hc : I s.handle s.now c) :
    ∃ d, t.tasks[i]? = some d ∧ I t.handle t.now d :=
  Interleaving.Exec.invariant_under (J := State.WF)
    (I := fun u => ∃ d, u.tasks[i]? = some d ∧ I u.handle u.now d) h
    (fun hw _ move => wf_step hw move) hs
    (fun hw ⟨_, hi, hc⟩ hP move =>
      hI.rule (rule_of_step move) hw (hPG _ _ hP) (hPS _ _ hP) hi hc) ⟨c, hi, hc⟩

/-- The run rule for all tasks, those spawned on the way included. -/
theorem TaskInvariant.forall_tasks (hI : TaskInvariant srv G S I)
    (spawned : ∀ h now addr, I h now { remoteAddr := addr }) (h : ReachableIf srv P s)
    (hPG : ∀ s a, P s a → EachTask G s a) (hPS : ∀ s a, P s a → EachStreamCall S s a) :
    ∀ c ∈ s.tasks, I s.handle s.now c := by
  refine Interleaving.Reachable.invariant_under (J := State.WF)
    (I := fun u => ∀ c ∈ u.tasks, I u.handle u.now c) h (fun hw _ move => wf_step hw move) wf_init
    ?_ (by simp)
  intro s a t hw hs hP move
  have hr := rule_of_step move
  have hle := hr.le
  have hnow := hr.now_le
  cases hr with
  | tick | call | caller => exact fun c hc => hI.mono hle hnow (hs c hc)
  | serve x k u cs evs hr =>
    refine forall_mem_append hs (fun c hc => hI.mono hle hnow hc) fun c hc => ?_
    obtain ⟨addr, rfl⟩ := hr.spawned hc
    exact spawned _ _ _
  | task j x b d k evs hj hr =>
    have hb := List.mem_of_getElem? hj
    exact forall_mem_set hs (fun c hc => hI.mono hle hnow hc)
      (hI.step hw.handle (hw.tasks b hb) (hPG _ _ hP j x b rfl hj) hr (hs b hb))
  | stream j x b d evs hj hr =>
    have hb := List.mem_of_getElem? hj
    exact forall_mem_set hs (fun _ => id)
      (hI.stream (hw.tasks b hb) (fun hx => hPS _ _ hP j b (hx ▸ rfl) hj) hr (hs b hb))

end State

def Action.isTask (i : ℕ) : Action A E B → Bool
  | .task j _ => decide (j = i)
  | _ => false

def Action.isServe : Action A E B → Bool
  | .serve _ => true
  | _ => false

namespace State
variable {srv : Server A} {P : State A E B → Action A E B → Prop} {s t : State A E B}
  {as : List (Action A E B)} {i : ℕ} {c : Conn A E B}
  {G S I : Handle A → Instant → Conn A E B → Prop}

theorem since_invariant (srv : Server A) (log : List (Instant × ConnEvent A E B)) :
    TaskInvariant srv AnyTask AnyTask fun _ _ d => ∃ new, Since log d.log new where
  mono _ _ hd := hd
  step _ _ _ hr hd := by
    obtain ⟨new, hs⟩ := hd
    exact ⟨_, hr.since hs⟩
  stream _ _ hr hd := by
    obtain ⟨new, hs⟩ := hd
    exact ⟨_, hr.since hs⟩

/-- A task that is there at the end of a run was there at its start, or it was
spawned on the way. -/
theorem Exec.task_origin (h : Exec srv P s as t) {d : Conn A E B} (hd : t.tasks[i]? = some d) :
    (∃ c, s.tasks[i]? = some c) ∨ s.tasks.length ≤ i ∧ ∃ as₁ as₂ u addr, Exec srv P s as₁ u ∧
      Exec srv P u as₂ t ∧ u.tasks[i]? = some { remoteAddr := addr } := by
  induction h with
  | nil => exact .inl ⟨d, hd⟩
  | @cons s u t a as hP move rest ih =>
    have hr := rule_of_step move
    have hlen : s.tasks.length ≤ u.tasks.length := by
      cases hr <;> simp
    rcases ih hd with ⟨c, hc⟩ | ⟨hi, as₁, as₂, v, addr, h₁, h₂, hv⟩
    · cases hs : s.tasks[i]? with
      | some b => exact .inl ⟨b, rfl⟩
      | none =>
        have hi := List.getElem?_eq_none_iff.mp hs
        refine .inr ⟨hi, ?_⟩
        cases hr with
        | serve x k w cs evs hr =>
          rw [List.getElem?_append_right hi] at hc
          obtain ⟨addr, rfl⟩ := hr.spawned (List.mem_of_getElem? hc)
          refine ⟨[_], as, _, addr, .cons hP move (.nil _), rest, ?_⟩
          rw [List.getElem?_append_right hi]
          exact hc
        | task j x b d k evs hj hr =>
          have := (List.getElem?_eq_some_iff.mp hc).1
          simp only [List.length_set] at this
          omega
        | stream j x b d evs hj hr =>
          have := (List.getElem?_eq_some_iff.mp hc).1
          simp only [List.length_set] at this
          omega
        | _ => simp [hs] at hc
    · exact .inr ⟨hlen.trans hi, a :: as₁, as₂, v, addr, .cons hP move h₁, h₂, hv⟩

/-- A task whose operations all use up `fuel`, which its stream tasks leave alone, makes at
most that many of them. -/
theorem TaskInvariant.countP_le (hI : TaskInvariant srv G S I) {fuel : Conn A E B → ℕ}
    (frame : ∀ {now c d x evs}, Conn.StreamRule c x d evs → fuel (d.record now evs) = fuel c)
    (uses : ∀ {h k now c d evs}, h.WF → c.WF h → I h now c → Conn.Rule srv h now c k d evs →
      fuel (d.record now evs) < fuel c)
    (h : Exec srv P s as t) (hs : s.WF) (hPG : ∀ s a, P s a → EachTask G s a)
    (hPS : ∀ s a, P s a → EachStreamCall S s a) (hi : s.tasks[i]? = some c)
    (hc : I s.handle s.now c) : as.countP (Action.isTask i) ≤ fuel c := by
  have hμ := Interleaving.Exec.countP_le (Action.isTask i)
    (I := fun u => u.WF ∧ ∃ d, u.tasks[i]? = some d ∧ I u.handle u.now d)
    (μ := fun u => ((u.tasks[i]?).map fuel).getD 0) h
    (fun ⟨hw, d, hd, hid⟩ hP move =>
      ⟨wf_step hw move, hI.rule (rule_of_step move) hw (hPG _ _ hP) (hPS _ _ hP) hd hid⟩)
    ?_ ?_ ⟨hs, c, hi, hc⟩
  · simp only [hi, Option.map_some, Option.getD_some] at hμ
    omega
  · rintro u a v ⟨hw, d, hd, hid⟩ move ha
    cases rule_of_step move with
    | task j x b d' k evs hj hr =>
      obtain rfl : j = i := of_decide_eq_true ha
      obtain rfl := Option.some.inj (hd.symm.trans hj)
      have hlt := (List.getElem?_eq_some_iff.mp hj).1
      simpa [List.getElem?_set_self hlt, hd] using
        uses hw.handle (hw.tasks d (List.mem_of_getElem? hj)) hid hr
    | _ => cases ha
  · rintro u a v ⟨hw, d, hd, hid⟩ move ha
    cases rule_of_step move with
    | task j x b d' k evs hj hr =>
      have hne : j ≠ i := of_decide_eq_false ha
      simp only [List.getElem?_set_ne hne, le_refl]
    | stream j x b d' evs hj hr =>
      by_cases hij : j = i
      · subst hij
        obtain rfl := Option.some.inj (hd.symm.trans hj)
        have hlt := (List.getElem?_eq_some_iff.mp hj).1
        simp only [List.getElem?_set_self hlt, hd, Option.map_some, frame hr, le_refl]
      · simp only [List.getElem?_set_ne hij, le_refl]
    | serve x k u cs evs hr =>
      simp only [List.getElem?_append_left (List.getElem?_eq_some_iff.mp hd).1, le_refl]
    | _ => exact le_rfl

/-! ## The future of `serve` -/

/-- A condition on what the outside answers to `serve`. -/
def EachServe (Q : ServeAnswer A E B → Prop) (_ : State A E B) (a : Action A E B) : Prop :=
  ∀ x, a = .serve x → Q x

abbrev AnyAnswer : ServeAnswer A E B → Prop := fun _ => True

theorem eachServe_any (s : State A E B) (a : Action A E B) (_ : P s a) : EachServe AnyAnswer s a :=
  fun _ _ => trivial

/-- An assertion about `serve`, with the same two parts as one about a task. -/
structure ServeInvariant (srv : Server A) (Q : ServeAnswer A E B → Prop)
    (I : Handle A → Instant → Serve A E B → Prop) : Prop where
  mono : ∀ {h k : Handle A} {now later : Instant} {s : Serve A E B}, h.Le k → now ≤ later →
    I h now s → I k later s
  step : ∀ {h k : Handle A} {now : Instant} {s t : Serve A E B} {x : ServeAnswer A E B}
    {cs : List (Conn A E B)} {evs : List (ServeEvent A E B)}, h.WF → s.WF h → Q x →
    Serve.Rule srv h now s x k t cs evs → I h now s → I k now (t.record now evs)

variable {Q : ServeAnswer A E B → Prop} {J : Handle A → Instant → Serve A E B → Prop}
  {a : Action A E B}

theorem ServeInvariant.rule (hJ : ServeInvariant srv Q J) (hr : Rule srv s a t) (hs : s.WF)
    (hQ : EachServe Q s a) (hj : J s.handle s.now s.serve) : J t.handle t.now t.serve := by
  have hle := hr.le
  have hnow := hr.now_le
  cases hr with
  | serve x k u cs evs hr => exact hJ.step hs.handle hs.serve (hQ x rfl) hr hj
  | _ => exact hJ.mono hle hnow hj

theorem ServeInvariant.exec (hJ : ServeInvariant srv Q J) (h : Exec srv P s as t) (hs : s.WF)
    (hPQ : ∀ s a, P s a → EachServe Q s a) (hj : J s.handle s.now s.serve) :
    J t.handle t.now t.serve :=
  Interleaving.Exec.invariant_under (J := State.WF) (I := fun u => J u.handle u.now u.serve) h
    (fun hw _ move => wf_step hw move) hs
    (fun hw hj hP move => hJ.rule (rule_of_step move) hw (hPQ _ _ hP) hj) hj

theorem ServeInvariant.reachable (hJ : ServeInvariant srv Q J) (h : ReachableIf srv P s)
    (hPQ : ∀ s a, P s a → EachServe Q s a) (hj : J {} 0 {}) : J s.handle s.now s.serve := by
  obtain ⟨as, h⟩ := h
  exact hJ.exec h wf_init hPQ hj

theorem serve_since (h : Exec srv P s as t) (hs : s.WF) :
    ∃ new, Since s.serve.log t.serve.log new := by
  have hI : ServeInvariant srv AnyAnswer fun _ _ (u : Serve A E B) =>
      ∃ new, Since s.serve.log u.log new := {
    mono := fun _ _ hu => hu
    step := fun _ _ _ hr ⟨_, hu⟩ => ⟨_, hr.since hu⟩ }
  exact hI.exec h hs eachServe_any ⟨[], .refl _⟩

theorem ServeInvariant.countP_le (hJ : ServeInvariant srv Q J) {fuel : Serve A E B → ℕ}
    (uses : ∀ {h k now s t x cs evs}, h.WF → s.WF h → J h now s →
      Serve.Rule srv h now s x k t cs evs → fuel (t.record now evs) < fuel s)
    (h : Exec srv P s as t) (hs : s.WF) (hPQ : ∀ s a, P s a → EachServe Q s a)
    (hj : J s.handle s.now s.serve) : as.countP Action.isServe ≤ fuel s.serve := by
  have hμ := Interleaving.Exec.countP_le Action.isServe
    (I := fun u => u.WF ∧ J u.handle u.now u.serve) (μ := fun u => fuel u.serve) h
    (fun ⟨hw, hj⟩ hP move =>
      ⟨wf_step hw move, hJ.rule (rule_of_step move) hw (hPQ _ _ hP) hj⟩) ?_ ?_ ⟨hs, hj⟩
  · omega
  · rintro u a v ⟨hw, hj⟩ move ha
    cases rule_of_step move with
    | serve x k w cs evs hr => exact uses hw.handle hw.serve hj hr
    | _ => cases ha
  · rintro u a v ⟨hw, hj⟩ move ha
    cases rule_of_step move with
    | serve x k w cs evs hr => cases ha
    | _ => exact le_rfl

end State

end AxumServer
