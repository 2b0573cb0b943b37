import AxumServer.Server.Accounts

/-! # Connections in the order of their arrival

The accept loop works on one connection at a time. Each that `accept_stream` gives is
refused by the make service or gets a task of its own before the next is taken; only the
newest can be neither, while the loop works on it or when `serve` was cut short.
-/

namespace AxumServer

open Interleaving

variable {A E B : Type}

inductive Fate where
  | refused
  | handed
  deriving DecidableEq, Repr

def ServeEvent.fate : ServeEvent A E B → Option (A × Fate)
  | .makeErr addr _ => some (addr, .refused)
  | .spawned addr => some (addr, .handed)
  | _ => none

def Fate.task : A × Fate → Option A
  | (addr, .handed) => some addr
  | _ => none

namespace Serve

/-- The connections are settled in order, up to the newest one. -/
structure InOrder (h : Handle A) (s : Serve A E B) (newest : Option A) : Prop where
  arrivals : notes ServeEvent.connection s.log =
    (notes ServeEvent.fate s.log).map Prod.fst ++ newest.toList
  current : s.stage.inLoop = true → newest = s.stage.current
  outside : s.stage.inLoop = false → (∀ r, s.stage ≠ .returned r) → newest = none
  cut : newest ≠ none → s.stage.inLoop = true ∨ h.shutdown.notified = true ∨
    ∃ b, s.stage = .returned (.error (ioOther b))

section
variable {srv : Server A} {h k : Handle A} {now : Instant} {s t : Serve A E B}
  {x : ServeAnswer A E B} {cs : List (Conn A E B)} {evs : List (ServeEvent A E B)}
  {newest : Option A}

theorem inOrder_new (h : Handle A) : ({} : Serve A E B).InOrder h none :=
  ⟨rfl, fun hl => (by cases hl), fun _ _ => rfl, fun hn => absurd rfl hn⟩

theorem InOrder.mono (hs : s.InOrder h newest) (hle : h.Le k) : s.InOrder k newest :=
  ⟨hs.arrivals, hs.current, hs.outside, fun hn =>
    (hs.cut hn).imp_right (Or.imp_left hle.shutdown.flag)⟩

theorem InOrder.quiet (hs : s.InOrder h newest) (hlog : t.log = s.log)
    (hc : evs.filterMap ServeEvent.connection = []) (ho : evs.filterMap ServeEvent.fate = []) :
    notes ServeEvent.connection (t.record now evs).log =
      (notes ServeEvent.fate (t.record now evs).log).map Prod.fst ++ newest.toList := by
  rw [record_log hlog, notes_stamp, notes_stamp, hc, ho, List.append_nil, List.append_nil]
  exact hs.arrivals

theorem InOrder.goto (hs : s.InOrder h newest) (hlog : t.log = s.log)
    (hc : evs.filterMap ServeEvent.connection = []) (ho : evs.filterMap ServeEvent.fate = [])
    (hnew : newest = none ∨ s.stage.inLoop = true ∧ t.stage.inLoop = true)
    (hcur : t.stage.inLoop = true → newest = t.stage.current) :
    (t.record now evs).InOrder h newest := by
  refine ⟨hs.quiet hlog hc ho, hcur, fun hout _ => ?_, fun hn => .inl ?_⟩
  · rcases hnew with hnew | ⟨-, hin⟩
    · exact hnew
    · exact absurd hin (Bool.eq_false_iff.mp hout)
  · rcases hnew with hnew | ⟨-, hin⟩
    · exact absurd hnew hn
    · exact hin

theorem current_of_graceful {stage : ServeStage A E B} {rest : List ServeArm}
    (h : .graceful :: rest <:+ stage.arms) : stage.inLoop = true ∧ stage.current = none := by
  cases stage with
  | draining w => cases w <;> simp [ServeStage.arms, List.suffix_cons_iff] at h
  | select => exact ⟨rfl, rfl⟩
  | _ => simp [ServeStage.arms, List.suffix_cons_iff] at h

theorem outside_of_connEnd {stage : ServeStage A E B} {rest : List ServeArm}
    (h : .connEnd :: rest <:+ stage.arms) :
    stage.inLoop = false ∧ ∀ r, stage ≠ .returned r := by
  cases stage with
  | draining w => exact ⟨rfl, by simp⟩
  | _ => simp [ServeStage.arms, List.suffix_cons_iff] at h

theorem InOrder.settle {addr : A} {o : Fate} {e : ServeEvent A E B}
    (hs : s.InOrder h (some addr)) (hlog : t.log = s.log)
    (hc : (e :: evs).filterMap ServeEvent.connection = [])
    (ho : (e :: evs).filterMap ServeEvent.fate = [(addr, o)])
    (hcur : t.stage.current = none) :
    (t.record now (e :: evs)).InOrder h none where
  arrivals := by
    rw [record_log hlog, notes_stamp, notes_stamp, hc, ho, List.append_nil, hs.arrivals]
    simp
  current _ := hcur.symm
  outside _ _ := rfl
  cut hn := absurd rfl hn

theorem report_quiet (srv : Server A) (addr : Option A) (e : IoError E B) :
    (report srv addr e).filterMap ServeEvent.connection = [] ∧
      (report srv addr e).filterMap ServeEvent.fate = [] := by
  unfold report
  split <;> exact ⟨rfl, rfl⟩

theorem InOrder.step (hs : s.InOrder h newest) (hw : h.WF) (hsw : s.WF h)
    (hr : Rule srv h now s x k t cs evs) : ∃ newest', (t.record now evs).InOrder k newest' := by
  have hk := hs.mono hr.le
  have hp := hsw.placed
  -- in the select no connection is open, and neither before the loop nor after it
  have hselect : s.stage.inLoop = true → s.stage.current = none → newest = none := fun hl hc =>
    (hs.current hl).trans hc
  have hopen : ∀ addr, s.stage.inLoop = true → s.stage.current = some addr →
      newest = some addr := fun addr hl hc => (hs.current hl).trans hc
  have hout : ∀ stage, s.stage = stage → stage.inLoop = false → (∀ r, stage ≠ .returned r) →
      newest = none := by
    rintro _ rfl
    exact hs.outside
  cases hr with
  | poll | suspend | bindPending | shutdownBusy | shutdownPending | acceptPending | backoffPending
  | gracefulBusy | gracefulPending | readyPending | makePending | sleepPending | connEndBusy
  | connEndPending =>
    exact ⟨newest, hs.quiet rfl rfl rfl, hs.current, hs.outside, hs.cut⟩
  | acceptErr rest e hst =>
    have hnone := hselect (by rw [hst]; rfl) (by rw [hst]; rfl)
    obtain ⟨hc, ho⟩ := report_quiet srv none e
    exact ⟨newest, hs.goto rfl hc ho (.inl hnone) fun _ => hnone⟩
  | backoffElapsed rest deadline hst =>
    have hnone := hselect (by rw [hst]; rfl) (by rw [hst]; rfl)
    exact ⟨newest, hs.goto rfl rfl rfl (.inl hnone) fun _ => hnone⟩
  | accepted rest addr hst =>
    obtain rfl := hselect (by rw [hst]; rfl) (by rw [hst]; rfl)
    refine ⟨some addr, ?_, fun _ => rfl, fun hl => (by cases hl), fun _ => .inl rfl⟩
    have hc : [(.accepted addr : ServeEvent A E B)].filterMap ServeEvent.connection = [addr] := rfl
    have ho : [(.accepted addr : ServeEvent A E B)].filterMap ServeEvent.fate = [] := rfl
    rw [record_log rfl, notes_stamp, notes_stamp, hc, ho, hs.arrivals]
    simp
  | ready rest addr hst | made rest addr hst =>
    have hcur : newest = some addr := hopen addr (by rw [hst]; rfl) (by rw [hst]; rfl)
    exact ⟨newest, hs.goto rfl rfl rfl (.inr ⟨by rw [hst]; rfl, rfl⟩) fun _ => hcur⟩
  | watcher addr hst =>
    have hcur : newest = some addr := hopen addr (by rw [hst]; rfl) (by rw [hst]; rfl)
    exact ⟨newest, hk.goto rfl rfl rfl (.inr ⟨by rw [hst]; rfl, rfl⟩) fun _ => hcur⟩
  | makeErr rest addr e hst =>
    obtain rfl := hopen addr (by rw [hst]; rfl) (by rw [hst]; rfl)
    obtain ⟨hc, ho⟩ := report_quiet srv (some addr) (ioOther e)
    have hrefused : (ServeEvent.makeErr addr e :: report srv (some addr) (ioOther e)).filterMap
        ServeEvent.fate = [(addr, .refused)] := congrArg (List.cons (addr, Fate.refused)) ho
    exact ⟨none, hs.settle rfl hc hrefused rfl⟩
  | spawn addr hst =>
    obtain rfl := hopen addr (by rw [hst]; rfl) (by rw [hst]; rfl)
    exact ⟨none, hs.settle (o := .handed) rfl rfl rfl rfl⟩
  | shutdownReady rest ha hpc hf =>
    have hflag := hsw.shutdown.notified_of_ready hw.shutdown hf
    exact ⟨newest, hs.quiet rfl rfl rfl, fun hl => (by cases hl), fun _ hret => absurd rfl (hret _),
      fun _ => .inr (.inl hflag)⟩
  | readyErr rest addr e hst =>
    exact ⟨newest, hs.quiet rfl rfl rfl, fun hl => (by cases hl), fun _ hret => absurd rfl (hret _),
      fun _ => .inr (.inr ⟨e, rfl⟩)⟩
  | gracefulReady rest ha hpc hf =>
    rw [hpc] at hp
    obtain ⟨hl, hc⟩ := current_of_graceful hp.1
    exact ⟨newest, hs.goto rfl rfl rfl (.inl (hselect hl hc)) fun hl => (by cases hl)⟩
  | connEndReady rest ha hpc hf =>
    rw [hpc] at hp
    obtain ⟨hl, hret⟩ := outside_of_connEnd hp.1
    exact ⟨newest, hs.goto rfl rfl rfl (.inl (hs.outside hl hret)) fun hl => (by cases hl)⟩
  | bound x rest ha hpc | bindErr rest e ha hpc =>
    rw [hpc] at hp
    have hnone := hout _ (ServeStage.eq_bind_of_arm hp.1) rfl (by simp)
    exact ⟨newest, hs.goto rfl rfl rfl (.inl hnone) fun hl => (by cases hl)⟩
  | listening hst =>
    have hnone := hout _ hst rfl (by simp)
    exact ⟨newest, hk.goto rfl rfl rfl (.inl hnone) fun _ => hnone⟩
  | localAddr _ hst | setAddr _ _ hst | addrStore _ hst | bindFailed _ hst | countZero hst
  | countPos hst | timed _ hst | untimed hst | graceExpired _ _ hst | shutdownStore hst
  | shutdownWake hst =>
    have hnone := hout _ hst rfl (by simp)
    exact ⟨newest, hk.goto rfl rfl rfl (.inl hnone) fun hl => (by cases hl)⟩

theorem Rule.handed (hr : Rule srv h now s x k t cs evs) :
    cs.map Conn.remoteAddr = (evs.filterMap ServeEvent.fate).filterMap Fate.task := by
  cases hr with
  | acceptErr rest e =>
    exact (congrArg (List.filterMap Fate.task) (report_quiet srv none e).2).symm
  | makeErr rest addr e =>
    exact (congrArg (List.filterMap Fate.task) (report_quiet srv (some addr) (ioOther e)).2).symm
  | _ => rfl

end

end Serve

namespace State
variable {srv : Server A} {s : State A E B}

def arrived (s : State A E B) : List A := notes ServeEvent.connection s.serve.log

def settled (s : State A E B) : List (A × Fate) := notes ServeEvent.fate s.serve.log

theorem inOrder_invariant (srv : Server A) :
    ServeInvariant srv AnyAnswer fun h _ (s : Serve A E B) => ∃ newest, s.InOrder h newest where
  mono hle _ hs := hs.imp fun _ hs => hs.mono hle
  step hw hsw _ hr hs := by
    obtain ⟨newest, hs⟩ := hs
    exact hs.step hw hsw hr

theorem map_set_of_eq {τ β : Type} {f : τ → β} {ts : List τ} {i : ℕ} {t u : τ}
    (hi : ts[i]? = some t) (h : f u = f t) : (ts.set i u).map f = ts.map f := by
  obtain ⟨hlt, rfl⟩ := List.getElem?_eq_some_iff.mp hi
  have hlt' : i < (ts.map f).length := by simpa using hlt
  have hget : f ts[i] = (ts.map f)[i] := by rw [List.getElem_map]
  rw [List.map_set, h, hget, List.set_getElem_self]

/-- The tasks are those of the connections that were handed over, in their order. -/
theorem Reachable.tasks_handed (hr : Reachable srv s) :
    s.tasks.map Conn.remoteAddr = s.settled.filterMap Fate.task := by
  refine Interleaving.Reachable.invariant
    (I := fun s => s.tasks.map Conn.remoteAddr = s.settled.filterMap Fate.task) hr ?_ rfl
  intro s a t hs _ move
  cases rule_of_step move with
  | serve x k u cs evs hr =>
    simp only [settled] at hs ⊢
    rw [List.map_append, Serve.record_log hr.log, notes_stamp, List.filterMap_append, hs,
      hr.handed]
  | task i x c d k evs hi hr =>
    have haddr : (d.record s.now evs).remoteAddr = c.remoteAddr := hr.remoteAddr
    rw [map_set_of_eq hi haddr]
    exact hs
  | stream i x c d evs hi hr =>
    have haddr : (d.record s.now evs).remoteAddr = c.remoteAddr := hr.remoteAddr
    rw [map_set_of_eq hi haddr]
    exact hs
  | _ => exact hs

/-- Connections are settled in the order of their arrival, each before the next is taken:
they are the ones that were refused or handed to a task, and at most one newest. That one
is the connection the loop works on, unless `serve` was cut short by a shutdown or by an
error of `poll_ready`; in particular a graceful shutdown leaves no connection behind. -/
theorem arrivals_settled (hr : Reachable srv s) : ∃ newest : Option A,
    s.arrived = s.settled.map Prod.fst ++ newest.toList ∧
    s.tasks.map Conn.remoteAddr = s.settled.filterMap Fate.task ∧
    (s.serve.stage.inLoop = true → newest = s.serve.stage.current) ∧
    (s.serve.stage.inLoop = false → newest ≠ none → s.handle.shutdown.isNotified = true ∨
      ∃ b, s.serve.stage = .returned (.error (ioOther b))) ∧
    ((∃ w, s.serve.stage = .draining w) → newest = none) := by
  obtain ⟨newest, hs⟩ := (inOrder_invariant srv).reachable hr eachServe_any
    ⟨none, Serve.inOrder_new _⟩
  refine ⟨newest, hs.arrivals, Reachable.tasks_handed hr, hs.current, fun hl hn => ?_, ?_⟩
  · exact (hs.cut hn).resolve_left (by simp [hl])
  · rintro ⟨w, hw⟩
    exact hs.outside (by rw [hw]; rfl) (by simp [hw])

/-- One connection is refused, one is handed over, and `shutdown()` finds the loop at a
third one. -/
def cutSchedule : List (Action ℕ Unit Unit) :=
  Action.listen (some 0) ++
    [Action.serve (.accepted 1), .serve .ready, .serve (.makeErr ()),
      .serve (.accepted 2), .serve .ready, .serve .made, .serve .go, .serve .go,
      .serve (.accepted 3), .serve .readyPending, .serve .go] ++
    Action.callNow 0 .shutdown 2 ++ List.replicate 2 (Action.serve .go)

theorem arrivals_settled_cut : ∃ newest : Option ℕ, newest = some 3 ∧
    (after Server.fromListener cutSchedule).arrived =
      (after Server.fromListener cutSchedule).settled.map Prod.fst ++ newest.toList ∧
    (after Server.fromListener cutSchedule).tasks.map Conn.remoteAddr =
      (after Server.fromListener cutSchedule).settled.filterMap Fate.task ∧
    (after Server.fromListener cutSchedule).serve.stage.inLoop = false ∧
    (after Server.fromListener cutSchedule).handle.shutdown.isNotified = true := by
  obtain ⟨newest, harrived, htasks, -, hcut, -⟩ :=
    arrivals_settled (reachable_after Server.fromListener Always cutSchedule)
  have h3 : (after Server.fromListener cutSchedule).arrived = [1, 2, 3] := by decide
  have h2 : (after Server.fromListener cutSchedule).settled.map Prod.fst = [1, 2] := by decide
  have hout : (after Server.fromListener cutSchedule).serve.stage.inLoop = false := by decide
  have hret : (after Server.fromListener cutSchedule).serve.stage = .returned (.ok ()) := by decide
  have hnewest : newest = some 3 := by
    rw [h3, h2] at harrived
    cases newest with
    | none => cases harrived
    | some addr => cases harrived; rfl
  refine ⟨newest, hnewest, harrived, htasks, hout, ?_⟩
  rcases hcut hout (by simp [hnewest]) with hflag | ⟨b, hb⟩
  · exact hflag
  · rw [hret] at hb
    cases hb

end State

end AxumServer
