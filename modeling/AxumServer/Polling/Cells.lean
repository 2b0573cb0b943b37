import AxumServer.Fallible
import AxumServer.Interleaving.Exec
import AxumServer.Interleaving.History
import AxumServer.Polling.Async
import Mathlib.Logic.Function.Basic

/-! # Cells that are replaced while futures run

Writers work by themselves and then replace the value of a cell, once; readers are
futures that are polled in between and find the cells as they are. A reader that reads its
cell in one of its calls only is governed by the value it finds there: it goes on as if the
cell had never held another.
-/

namespace AxumServer.Polling

open Fallible Interleaving

variable {W Env ε σ α β R E K Cfg : Type}

/-! ## Writers -/

/-- A writer, one step at a time. -/
inductive Plan (E K : Type) where
  | hang
  | fail (e : E)
  | done
  /-- A step that touches nothing shared. -/
  | work (next : Plan E K)
  | store (value : K) (next : Plan E K)
  deriving DecidableEq, Repr

namespace Plan

def perform (x : ExceptT E Option α) (k : α → Plan E K) : Plan E K :=
  .work (match x.run with
    | none => .hang
    | some (.error e) => .fail e
    | some (.ok a) => k a)

/-- The writer by itself, on a cell that holds `self`: what it returns, and the cell then. -/
def run (self : K) : Plan E K → Option (Except E Unit × K)
  | hang => none
  | fail e => some (.error e, self)
  | done => some (.ok (), self)
  | work next => next.run self
  | store value next => next.run value

/-- The writer stores the value of `target` and is done, or stores nothing and fails with it. -/
def Commits (target : ExceptT E Option K) : Plan E K → Prop
  | hang => target = ExceptT.mk none
  | fail e => target = throw e
  | done => False
  | work next => next.Commits target
  | store value next => target = pure value ∧ next = done

theorem commits_store (value : K) : (store value done : Plan E K).Commits (pure value) :=
  ⟨rfl, rfl⟩

theorem commits_perform (x : ExceptT E Option α) {k : α → Plan E K}
    {f : α → ExceptT E Option K} (h : ∀ a, (k a).Commits (f a)) :
    (perform x k).Commits (x >>= f) := by
  simp only [perform, Commits]
  rcases hx : x.run with _ | (e | a) <;> obtain rfl : x = ExceptT.mk _ := ExceptT.ext hx
  · exact (rfl : ExceptT.mk none >>= f = ExceptT.mk none)
  · exact (rfl : throw e >>= f = throw e)
  · exact h a

/-- What `target` comes to for the caller and for the cell. -/
def outcome (self : K) : Except E K → Except E Unit × K
  | .ok value => (.ok (), value)
  | .error e => (.error e, self)

theorem Commits.run {target : ExceptT E Option K} {plan : Plan E K} (h : plan.Commits target)
    (self : K) : plan.run self = target.run.map (outcome self) := by
  induction plan with
  | hang | fail e =>
    obtain rfl : target = _ := h
    rfl
  | done => cases h
  | work next ih => exact ih h
  | store value next =>
    obtain ⟨rfl, rfl⟩ := h
    rfl

end Plan

inductive Stage (E K : Type) where
  | running (plan : Plan E K)
  | returned (r : Except E Unit)
  deriving Repr

def Stage.next : Stage E K → Option (Stage E K × Option K)
  | .running (.work next) => some (.running next, none)
  | .running (.store value next) => some (.running next, some value)
  | .running .done => some (.returned (.ok ()), none)
  | .running (.fail e) => some (.returned (.error e), none)
  | .running .hang => none
  | .returned _ => none

/-- A call `call` on the clone that points to `cell`. -/
structure Writer (R E K : Type) where
  cell : ℕ
  call : R
  stage : Stage E K
  deriving Repr

/-! ## Readers -/

/-- One call of a future's `poll`, as it happened. -/
structure Call (W ε σ α : Type) where
  now : W
  before : σ
  answer : Answer ε σ α

/-- The calls are what becomes of the future `s` when it is polled. -/
def Replays (poll : PollFn W ε σ α) : σ → List (Call W ε σ α) → Prop
  | _, [] => True
  | s, call :: calls =>
    call.before = s ∧ call.answer = poll call.now s ∧ Replays poll call.answer.state calls

def stateAfter (s : σ) (calls : List (Call W ε σ α)) : σ :=
  calls.foldl (fun _ call => call.answer.state) s

theorem Replays.snoc {poll : PollFn W ε σ α} {s : σ} {calls : List (Call W ε σ α)}
    {call : Call W ε σ α} (h : Replays poll s calls) (hbefore : call.before = stateAfter s calls)
    (hanswer : call.answer = poll call.now call.before) : Replays poll s (calls ++ [call]) := by
  induction calls generalizing s with
  | nil =>
    obtain rfl : call.before = s := hbefore
    exact ⟨rfl, hanswer, trivial⟩
  | cons first calls ih =>
    obtain ⟨hfirst, hstep, hrest⟩ := h
    exact ⟨hfirst, hstep, ih hrest hbefore⟩

inductive Reader (σ : Type) where
  | polling (future : σ)
  | ended
  deriving DecidableEq, Repr

/-! ## The system -/

inductive Event (Env ε σ α K : Type) where
  | stored (writer cell : ℕ) (value : K)
  | polled (reader : ℕ) (call : Call (Env × (ℕ → K)) ε σ α)

structure Cells (Env ε σ α R E K : Type) where
  values : ℕ → K
  writers : List (Writer R E K)
  readers : List (Reader σ)
  history : List (Event Env ε σ α K)

inductive CellsAction (Env : Type) where
  | write (i : ℕ)
  | poll (j : ℕ) (env : Env)
  deriving DecidableEq, Repr

/-- The values of the cells after what was stored in a history. -/
def lastStored (values : ℕ → K) (history : List (Event Env ε σ α K)) : ℕ → K :=
  history.foldl (fun values event =>
    match event with
    | .stored _ cell value => Function.update values cell value
    | .polled _ _ => values) values

/-- What one writer has stored, and where. -/
def storedBy (i : ℕ) (history : List (Event Env ε σ α K)) : List (ℕ × K) :=
  history.filterMap fun
    | .stored writer cell value => if writer = i then some (cell, value) else none
    | .polled _ _ => none

/-- The calls of one reader. -/
def callsOf (j : ℕ) (history : List (Event Env ε σ α K)) :
    List (Call (Env × (ℕ → K)) ε σ α) :=
  history.filterMap fun
    | .stored _ _ _ => none
    | .polled reader call => if reader = j then some call else none

section History
variable {h : List (Event Env ε σ α K)} {i j w c : ℕ} {v : K} {values : ℕ → K}
  {call : Call (Env × (ℕ → K)) ε σ α}

@[simp] theorem lastStored_stored :
    lastStored values (h ++ [.stored w c v]) = Function.update (lastStored values h) c v := by
  simp [lastStored]

@[simp] theorem lastStored_polled :
    lastStored values (h ++ [.polled j call]) = lastStored values h := by
  simp [lastStored]

@[simp] theorem storedBy_stored_self :
    storedBy i (h ++ [.stored i c v]) = storedBy i h ++ [(c, v)] := by
  simp [storedBy]

theorem storedBy_stored_ne (hne : w ≠ i) :
    storedBy i (h ++ [.stored w c v]) = storedBy i h := by
  simp [storedBy, hne]

@[simp] theorem storedBy_polled : storedBy i (h ++ [.polled j call]) = storedBy i h := by
  simp [storedBy]

@[simp] theorem callsOf_stored : callsOf j (h ++ [.stored w c v]) = callsOf j h := by
  simp [callsOf]

@[simp] theorem callsOf_polled_self :
    callsOf j (h ++ [.polled j call]) = callsOf j h ++ [call] := by
  simp [callsOf]

theorem callsOf_polled_ne (hne : i ≠ j) :
    callsOf j (h ++ [.polled i call]) = callsOf j h := by
  simp [callsOf, hne]

end History

namespace Cells

def written (s : Cells Env ε σ α R E K) (i : ℕ) (w : Writer R E K) (stage : Stage E K) :
    Option K → Cells Env ε σ α R E K
  | none => { s with writers := s.writers.set i { w with stage } }
  | some value =>
    { s with
      values := Function.update s.values w.cell value
      writers := s.writers.set i { w with stage }
      history := s.history ++ [.stored i w.cell value] }

def polled (poll : PollFn (Env × (ℕ → K)) ε σ α) (s : Cells Env ε σ α R E K) (j : ℕ) (env : Env)
    (future : σ) : Cells Env ε σ α R E K :=
  let now := (env, s.values)
  let r := poll now future
  let reader :=
    match r.verdict with
    | .pending => .polling r.state
    | .ready _ | .halted _ => .ended
  { s with
    readers := s.readers.set j reader
    history := s.history ++ [.polled j { now, before := future, answer := r }] }

section Written
variable {s : Cells Env ε σ α R E K} {i j : ℕ} {w : Writer R E K} {stage : Stage E K}
  {stored : Option K}

@[simp] theorem writers_written :
    (s.written i w stage stored).writers = s.writers.set i { w with stage } := by
  cases stored <;> rfl

@[simp] theorem readers_written : (s.written i w stage stored).readers = s.readers := by
  cases stored <;> rfl

theorem storedBy_written_self : storedBy i (s.written i w stage stored).history =
    storedBy i s.history ++ stored.toList.map fun value => (w.cell, value) := by
  cases stored <;> simp [written]

theorem storedBy_written_ne (hne : i ≠ j) :
    storedBy j (s.written i w stage stored).history = storedBy j s.history := by
  cases stored <;> simp [written, storedBy_stored_ne hne]

@[simp] theorem callsOf_written :
    callsOf j (s.written i w stage stored).history = callsOf j s.history := by
  cases stored <;> simp [written]

end Written

def step (poll : PollFn (Env × (ℕ → K)) ε σ α) (s : Cells Env ε σ α R E K) :
    CellsAction Env → Option (Cells Env ε σ α R E K)
  | .write i => do
    let w ← s.writers[i]?
    let (stage, stored) ← w.stage.next
    return s.written i w stage stored
  | .poll j env =>
    match s.readers[j]? with
    | some (.polling future) => some (s.polled poll j env future)
    | _ => none

def init (values : ℕ → K) (plan : R → Plan E K) (calls : List (ℕ × R)) (futures : List σ) :
    Cells Env ε σ α R E K where
  values := values
  writers := calls.map fun (cell, call) => { cell, call, stage := .running (plan call) }
  readers := futures.map .polling
  history := []

theorem step_cases {poll : PollFn (Env × (ℕ → K)) ε σ α} {s t : Cells Env ε σ α R E K}
    {a : CellsAction Env} (h : step poll s a = some t) :
    (∃ i w stage stored, s.writers[i]? = some w ∧ w.stage.next = some (stage, stored) ∧
      t = s.written i w stage stored) ∨
    ∃ j env future, s.readers[j]? = some (.polling future) ∧ t = s.polled poll j env future := by
  cases a with
  | write i =>
    left
    obtain ⟨w, hw, h⟩ := Option.bind_eq_some_iff.mp h
    obtain ⟨⟨stage, stored⟩, hnext, h⟩ := Option.bind_eq_some_iff.mp h
    exact ⟨i, w, stage, stored, hw, hnext, (Option.some.inj h).symm⟩
  | poll j env =>
    right
    simp only [step] at h
    split at h
    · next future hj => exact ⟨j, env, future, hj, (Option.some.inj h).symm⟩
    · cases h

/-! ## What the writers have stored -/

/-- The cells are as the history says, at its end and in each call of a reader. -/
structure Recorded (values : ℕ → K) (s : Cells Env ε σ α R E K) : Prop where
  now : s.values = lastStored values s.history
  calls : AtEach (fun before event =>
    ∀ j call, event = .polled j call → call.now.2 = lastStored values before) s.history

theorem Recorded.step {poll : PollFn (Env × (ℕ → K)) ε σ α} {values : ℕ → K}
    {s t : Cells Env ε σ α R E K} {a : CellsAction Env} (hs : Recorded values s)
    (h : step poll s a = some t) : Recorded values t := by
  rcases step_cases h with ⟨i, w, stage, stored, -, -, rfl⟩ | ⟨j, env, future, -, rfl⟩
  · cases stored with
    | none => exact ⟨hs.now, hs.calls⟩
    | some value =>
      constructor
      · simp only [written, lastStored_stored, hs.now]
      · apply hs.calls.snoc
        intro j call hevent
        cases hevent
  · constructor
    · simp only [polled, lastStored_polled, hs.now]
    · apply hs.calls.snoc
      intro j' call hevent
      cases hevent
      exact hs.now

/-- What a writer has stored, against what it should. -/
def Settled (target : ExceptT E Option K) (cell : ℕ) (stored : List (ℕ × K)) :
    Stage E K → Prop
  | .running plan => stored = [] ∧ plan.Commits target ∨
      plan = .done ∧ ∃ value, stored = [(cell, value)] ∧ Yields target value
  | .returned (.error e) => stored = [] ∧ target.run = some (.error e)
  | .returned (.ok ()) => ∃ value, stored = [(cell, value)] ∧ Yields target value

theorem Settled.next {target : ExceptT E Option K} {cell : ℕ} {before : List (ℕ × K)}
    {stage stage' : Stage E K} {stored : Option K} (h : Settled target cell before stage)
    (hnext : stage.next = some (stage', stored)) :
    Settled target cell (before ++ stored.toList.map fun value => (cell, value)) stage' := by
  cases stage with
  | returned r => cases hnext
  | running plan =>
    rcases h with ⟨rfl, hplan⟩ | ⟨rfl, hstored⟩
    · cases plan with
      | hang => cases hnext
      | done => cases hplan
      | fail e =>
        obtain rfl : target = throw e := hplan
        cases hnext
        exact ⟨rfl, rfl⟩
      | work next =>
        cases hnext
        exact .inl ⟨rfl, hplan⟩
      | store value next =>
        obtain ⟨rfl, rfl⟩ := hplan
        cases hnext
        exact .inr ⟨rfl, value, rfl, rfl⟩
    · obtain ⟨value, rfl, hyields⟩ := hstored
      cases hnext
      exact ⟨value, rfl, hyields⟩

/-- Every writer has stored what it should, or nothing. -/
def WritersSettled (target : R → ExceptT E Option K) (s : Cells Env ε σ α R E K) : Prop :=
  ∀ i w, s.writers[i]? = some w →
    Settled (target w.call) w.cell (storedBy i s.history) w.stage

theorem WritersSettled.step {poll : PollFn (Env × (ℕ → K)) ε σ α}
    {target : R → ExceptT E Option K} {s t : Cells Env ε σ α R E K} {a : CellsAction Env}
    (hs : WritersSettled target s) (h : Cells.step poll s a = some t) :
    WritersSettled target t := by
  intro j w' hw'
  rcases step_cases h with ⟨i, w, stage, stored, hi, hnext, rfl⟩ | ⟨_, env, future, -, rfl⟩
  · rw [writers_written] at hw'
    by_cases hij : i = j
    · subst hij
      rw [List.getElem?_set_self (List.getElem?_eq_some_iff.mp hi).1] at hw'
      obtain rfl := Option.some.inj hw'
      rw [storedBy_written_self]
      exact (hs i w hi).next hnext
    · rw [List.getElem?_set_ne hij] at hw'
      rw [storedBy_written_ne hij]
      exact hs j w' hw'
  · simp only [polled, storedBy_polled]
    exact hs j w' hw'

/-! ## What a reader is governed by -/

def frozen (poll : PollFn (Env × (ℕ → K)) ε σ α) (value : K) : PollFn (Env × (ℕ → K)) ε σ α :=
  fun now s => poll (now.1, fun _ => value) s

/-- Where a future reads its cell: in the call that `completes`. What an effect mentions
of a value is `mentions`; `waits cell` are the states before that call, `past` those after
it. -/
structure Pattern (Env ε σ K Cfg : Type) where
  completes : Env → σ → Bool
  mentions : ε → Option Cfg
  view : K → Cfg
  waits : ℕ → σ → Prop
  past : σ → Prop

variable {p : Pattern Env ε σ K Cfg} {poll : PollFn (Env × (ℕ → K)) ε σ α}

/-- In any other call the future does not look at the cells. -/
structure Pattern.ReadsOnce (p : Pattern Env ε σ K Cfg) (poll : PollFn (Env × (ℕ → K)) ε σ α) :
    Prop where
  before : ∀ cell now s, p.waits cell s → p.completes now.1 s = false →
    (∀ value, poll now s = frozen poll value now s) ∧
    ((poll now s).verdict = .pending → p.waits cell (poll now s).state) ∧
    ∀ e ∈ (poll now s).did, p.mentions e = none
  reading : ∀ cell now s, p.waits cell s → p.completes now.1 s = true →
    poll now s = frozen poll (now.2 cell) now s ∧
    ((poll now s).verdict = .pending → p.past (poll now s).state) ∧
    ∀ e ∈ (poll now s).did, ∀ cfg, p.mentions e = some cfg → cfg = p.view (now.2 cell)
  after : ∀ now s, p.past s → p.completes now.1 s = false ∧
    (∀ value, poll now s = frozen poll value now s) ∧
    ((poll now s).verdict = .pending → p.past (poll now s).state) ∧
    ∀ e ∈ (poll now s).did, p.mentions e = none

/-- A future is governed by `value`: it goes on as if its cell had always held it, it
mentions nothing else, and it read `value` in the one call that `completes`. -/
structure Pattern.Governed (p : Pattern Env ε σ K Cfg) (poll : PollFn (Env × (ℕ → K)) ε σ α)
    (cell : ℕ) (s : σ) (calls : List (Call (Env × (ℕ → K)) ε σ α)) (value : K) : Prop where
  replays : Replays (frozen poll value) s calls
  once : (calls.countP fun call => p.completes call.now.1 call.before) ≤ 1
  reads : ∀ call ∈ calls, p.completes call.now.1 call.before = true → call.now.2 cell = value
  used : ∀ call ∈ calls, ∀ e ∈ call.answer.did, ∀ cfg, p.mentions e = some cfg →
    p.completes call.now.1 call.before = true ∧ cfg = p.view value

section Readers
variable {cell : ℕ} {future : σ} {calls : List (Call (Env × (ℕ → K)) ε σ α)} {value : K}
  {now : Env × (ℕ → K)}

theorem governed_nil : p.Governed poll cell future [] value where
  replays := trivial
  once := Nat.zero_le 1
  reads := by simp
  used := by simp

theorem Pattern.Governed.snoc (h : p.Governed poll cell future calls value)
    (hfrozen : poll now (stateAfter future calls) =
      frozen poll value now (stateAfter future calls))
    (hreads : p.completes now.1 (stateAfter future calls) = true →
      now.2 cell = value ∧ ∀ call ∈ calls, p.completes call.now.1 call.before = false)
    (hused : ∀ e ∈ (poll now (stateAfter future calls)).did, ∀ cfg, p.mentions e = some cfg →
      p.completes now.1 (stateAfter future calls) = true ∧ cfg = p.view value) :
    p.Governed poll cell future
      (calls ++ [⟨now, stateAfter future calls, poll now (stateAfter future calls)⟩]) value where
  replays := h.replays.snoc rfl hfrozen
  once := by
    rw [List.countP_append, List.countP_singleton]
    cases hc : p.completes now.1 (stateAfter future calls) with
    | false => simpa [hc] using h.once
    | true =>
      have hzero : (calls.countP fun call => p.completes call.now.1 call.before) = 0 := by
        apply List.countP_eq_zero.mpr
        intro call hcall
        simp [(hreads hc).2 call hcall]
      simp [hzero]
  reads := by
    intro call hcall hc
    rcases List.mem_append.mp hcall with hcall | hcall
    · exact h.reads call hcall hc
    · obtain rfl := List.mem_singleton.mp hcall
      exact (hreads hc).1
  used := by
    intro call hcall
    rcases List.mem_append.mp hcall with hcall | hcall
    · exact h.used call hcall
    · obtain rfl := List.mem_singleton.mp hcall
      exact hused

/-- How a reader stands that was `future` in the beginning. -/
def Pattern.Reading (p : Pattern Env ε σ K Cfg) (poll : PollFn (Env × (ℕ → K)) ε σ α)
    (cell : ℕ) (future : σ) (calls : List (Call (Env × (ℕ → K)) ε σ α)) : Reader σ → Prop
  | .polling s => stateAfter future calls = s ∧
      (p.waits cell s ∧ (∀ call ∈ calls, p.completes call.now.1 call.before = false) ∧
          (∀ value, p.Governed poll cell future calls value) ∨
        p.past s ∧ ∃ value, p.Governed poll cell future calls value)
  | .ended => ∃ value, p.Governed poll cell future calls value

theorem Pattern.Reading.governed {reader : Reader σ} (values : ℕ → K)
    (h : p.Reading poll cell future calls reader) :
    ∃ value, p.Governed poll cell future calls value := by
  cases reader with
  | polling s =>
    rcases h.2 with ⟨-, -, hall⟩ | ⟨-, hvalue⟩
    · exact ⟨values cell, hall _⟩
    · exact hvalue
  | ended => exact h

theorem reading_of_verdict {r : Answer ε σ α}
    (hgoverned : ∃ value, p.Governed poll cell future calls value)
    (hpending : r.verdict = .pending → p.Reading poll cell future calls (.polling r.state)) :
    p.Reading poll cell future calls
      (match r.verdict with
        | .pending => .polling r.state
        | .ready _ | .halted _ => .ended) := by
  cases hv : r.verdict with
  | pending => exact hpending hv
  | ready a => exact hgoverned
  | halted why => exact hgoverned

theorem Pattern.ReadsOnce.reading_step (hpoll : p.ReadsOnce poll) {s : σ}
    (h : p.Reading poll cell future calls (.polling s)) (now : Env × (ℕ → K)) :
    p.Reading poll cell future (calls ++ [⟨now, s, poll now s⟩])
      (match (poll now s).verdict with
        | .pending => .polling (poll now s).state
        | .ready _ | .halted _ => .ended) := by
  obtain ⟨rfl, hphase⟩ := h
  have hstate : stateAfter future (calls ++
      [⟨now, stateAfter future calls, poll now (stateAfter future calls)⟩]) =
      (poll now (stateAfter future calls)).state := by
    simp [stateAfter]
  rcases hphase with ⟨hwaits, hnone, hall⟩ | ⟨hpast, value, hvalue⟩
  · cases hc : p.completes now.1 (stateAfter future calls) with
    | false =>
      obtain ⟨hfrozen, hnext, hmentions⟩ := hpoll.before cell now _ hwaits hc
      have hall' : ∀ value, p.Governed poll cell future (calls ++ [_]) value := fun value =>
        (hall value).snoc (hfrozen value) (by simp [hc]) (by
          intro e he cfg hcfg
          simp [hmentions e he] at hcfg)
      apply reading_of_verdict ⟨now.2 cell, hall' _⟩
      intro hv
      refine ⟨hstate, .inl ⟨hnext hv, ?_, hall'⟩⟩
      intro call hcall
      rcases List.mem_append.mp hcall with hcall | hcall
      · exact hnone call hcall
      · obtain rfl := List.mem_singleton.mp hcall
        exact hc
    | true =>
      -- This is the call that reads the cell.
      obtain ⟨hfrozen, hnext, hmentions⟩ := hpoll.reading cell now _ hwaits hc
      have hgoverned : p.Governed poll cell future (calls ++ [_]) (now.2 cell) :=
        (hall (now.2 cell)).snoc hfrozen (fun _ => ⟨rfl, hnone⟩) fun e he cfg hcfg =>
          ⟨hc, hmentions e he cfg hcfg⟩
      apply reading_of_verdict ⟨_, hgoverned⟩
      intro hv
      exact ⟨hstate, .inr ⟨hnext hv, _, hgoverned⟩⟩
  · obtain ⟨hc, hfrozen, hnext, hmentions⟩ := hpoll.after now _ hpast
    have hgoverned : p.Governed poll cell future (calls ++ [_]) value :=
      hvalue.snoc (hfrozen value) (by simp [hc]) (by
        intro e he cfg hcfg
        simp [hmentions e he] at hcfg)
    apply reading_of_verdict ⟨_, hgoverned⟩
    intro hv
    exact ⟨hstate, .inr ⟨hnext hv, _, hgoverned⟩⟩

/-- Every reader is governed by one value, or may still be governed by any. -/
def ReadersReading (p : Pattern Env ε σ K Cfg) (poll : PollFn (Env × (ℕ → K)) ε σ α)
    (readers : List (ℕ × σ)) (s : Cells Env ε σ α R E K) : Prop :=
  ∀ j cell future reader, readers[j]? = some (cell, future) → s.readers[j]? = some reader →
    p.Reading poll cell future (callsOf j s.history) reader

theorem ReadersReading.step (hpoll : p.ReadsOnce poll) {readers : List (ℕ × σ)}
    {s t : Cells Env ε σ α R E K} {a : CellsAction Env} (hs : ReadersReading p poll readers s)
    (h : Cells.step poll s a = some t) : ReadersReading p poll readers t := by
  intro j' cell future reader hfuture hreader
  rcases step_cases h with ⟨i, w, stage, stored, -, -, rfl⟩ | ⟨j, env, state, hj, rfl⟩
  · rw [readers_written] at hreader
    rw [callsOf_written]
    exact hs j' cell future reader hfuture hreader
  · by_cases hjj : j = j'
    · subst hjj
      have hlt := (List.getElem?_eq_some_iff.mp hj).1
      have hnow := hpoll.reading_step (hs j cell future _ hfuture hj) (env, s.values)
      have hset : (s.readers.set j _)[j]? = some reader := hreader
      rw [List.getElem?_set_self hlt] at hset
      obtain rfl := Option.some.inj hset
      simp only [polled, callsOf_polled_self]
      exact hnow
    · have hset : (s.readers.set j _)[j']? = some reader := hreader
      rw [List.getElem?_set_ne hjj] at hset
      simp only [polled, callsOf_polled_ne hjj]
      exact hs j' cell future reader hfuture hset

end Readers

/-! ## Runs -/

/-- Stores and reads are atomic: the cells hold what was stored last, at every moment; a
writer has stored what `target` says or nothing; a reader is governed by one value. -/
structure Atomic (p : Pattern Env ε σ K Cfg) (poll : PollFn (Env × (ℕ → K)) ε σ α)
    (target : R → ExceptT E Option K) (values : ℕ → K) (calls : List (ℕ × R))
    (readers : List (ℕ × σ)) (s : Cells Env ε σ α R E K) : Prop where
  recorded : Recorded values s
  writers : ∀ i cell call, calls[i]? = some (cell, call) → ∃ w, s.writers[i]? = some w ∧
    Settled (target call) cell (storedBy i s.history) w.stage
  readers : ∀ j cell future, readers[j]? = some (cell, future) →
    ∃ value, p.Governed poll cell future (callsOf j s.history) value

section Runs
variable {plan : R → Plan E K} {target : R → ExceptT E Option K} {values : ℕ → K}
  {calls : List (ℕ × R)} {readers : List (ℕ × σ)} {s t : Cells Env ε σ α R E K}

structure Inv (p : Pattern Env ε σ K Cfg) (poll : PollFn (Env × (ℕ → K)) ε σ α)
    (target : R → ExceptT E Option K) (values : ℕ → K) (calls : List (ℕ × R))
    (readers : List (ℕ × σ)) (s : Cells Env ε σ α R E K) : Prop where
  recorded : Recorded values s
  settled : WritersSettled target s
  reading : ReadersReading p poll readers s
  calls_eq : (s.writers.map fun w => (w.cell, w.call)) = calls
  length_eq : s.readers.length = readers.length

theorem Inv.step {a : CellsAction Env} (hpoll : p.ReadsOnce poll)
    (hs : Inv p poll target values calls readers s) (h : Cells.step poll s a = some t) :
    Inv p poll target values calls readers t where
  recorded := hs.recorded.step h
  settled := hs.settled.step h
  reading := hs.reading.step hpoll h
  calls_eq := by
    rcases step_cases h with ⟨i, w, stage, stored, hi, -, rfl⟩ | ⟨j, env, future, -, rfl⟩
    · obtain ⟨hlt, rfl⟩ := List.getElem?_eq_some_iff.mp hi
      rw [writers_written, ← hs.calls_eq, List.map_set]
      conv_rhs => rw [← @List.set_getElem_self _ s.writers i hlt, List.map_set]
    · exact hs.calls_eq
  length_eq := by
    rcases step_cases h with ⟨i, w, stage, stored, -, -, rfl⟩ | ⟨j, env, future, -, rfl⟩
    · rw [readers_written]
      exact hs.length_eq
    · simp only [polled, List.length_set, hs.length_eq]

theorem inv_init (hplan : ∀ call, (plan call).Commits (target call))
    (hreaders : ∀ r ∈ readers, p.waits r.1 r.2) :
    Inv p poll target values calls readers
      (init values plan calls (readers.map Prod.snd) : Cells Env ε σ α R E K) where
  recorded := ⟨rfl, .nil⟩
  settled := by
    intro i w hw
    obtain ⟨⟨cell, call⟩, -, rfl⟩ := List.mem_map.mp (List.mem_of_getElem? hw)
    exact .inl ⟨rfl, hplan call⟩
  reading := by
    intro j cell future reader hfuture hreader
    obtain rfl : .polling future = reader := by simpa [init, hfuture] using hreader
    have hwaits := hreaders _ (List.mem_of_getElem? hfuture)
    exact ⟨rfl, .inl ⟨hwaits, by simp [callsOf, init], fun value => governed_nil⟩⟩
  calls_eq := by simp [init, Function.comp_def]
  length_eq := by simp [init]

/-- Writers and readers that read once run atomically, in every order of their steps. -/
theorem atomic_of_exec {as : List (CellsAction Env)} (hpoll : p.ReadsOnce poll)
    (hplan : ∀ call, (plan call).Commits (target call))
    (hreaders : ∀ r ∈ readers, p.waits r.1 r.2)
    (h : Exec (Cells.step poll) Always (init values plan calls (readers.map Prod.snd)) as s) :
    Atomic p poll target values calls readers s := by
  have hinv : Inv p poll target values calls readers s :=
    h.invariant (fun hs _ move => hs.step hpoll move) (inv_init hplan hreaders)
  refine ⟨hinv.recorded, ?_, ?_⟩
  · intro i cell call hi
    rw [← hinv.calls_eq, List.getElem?_map] at hi
    obtain ⟨w, hw, hcall⟩ := Option.map_eq_some_iff.mp hi
    obtain ⟨rfl, rfl⟩ := Prod.mk.inj hcall
    exact ⟨w, hw, hinv.settled i w hw⟩
  · intro j cell future hj
    have hlt : j < s.readers.length := by
      rw [hinv.length_eq]
      exact (List.getElem?_eq_some_iff.mp hj).1
    have hreading := hinv.reading j cell future _ hj (List.getElem?_eq_getElem hlt)
    exact hreading.governed values

end Runs

end Cells

end AxumServer.Polling
