import AxumServer.Interleaving.Pool
import AxumServer.Server.Latches

/-! # `listening()`

`serve` decides once what the listening address is, writes it, and opens the latch;
a caller passes the latch and then reads. The value is written in one step and
announced in two more, so the invariant follows `serve` through these three points.
-/

namespace AxumServer

open Interleaving

variable {A E B : Type}

/-- How far `serve` is with its listening address. -/
inductive Announce (A : Type) where
  /-- Still binding, or about to ask the listener. -/
  | undecided
  | decided (addr : Option A)
  /-- The cell is written, the latch is not. -/
  | written
  /-- The flag of the latch is stored, its waiters are not yet woken. -/
  | stored
  | announced
  deriving DecidableEq, Repr

def Announce.isWritten : Announce A → Bool
  | .undecided => false
  | .decided _ => false
  | _ => true

def ServeStage.announce : ServeStage A E B → Announce A
  | .bind => .undecided
  | .localAddr => .undecided
  | .setAddr addr _ => .decided addr
  | .addrStore _ => .written
  | .addrWake _ => .stored
  | _ => .announced

/-- The listening address, as the action decides it that ends the attempt to listen:
a failed `bind_to` gives `None`, otherwise it is what `get_local_addr().ok()` gives. -/
def Action.bindOutcome : Action A E B → Option (Option A)
  | .serve (.bindErr _) => some none
  | .serve (.localAddr addr) => some addr
  | _ => none

/-- What the cells and the decisions `os` so far have in common. -/
def Announcement (h : Handle A) (os : List (Option A)) : Announce A → Prop
  | .undecided => os = [] ∧ h.addrNotify.notified = false
  | .decided addr => os = [addr] ∧ h.addrNotify.notified = false
  | .written => os = [h.addr] ∧ h.addrNotify.notified = false
  | .stored => os = [h.addr]
  | .announced => os = [h.addr] ∧ h.addrNotify.Fired

section Announcing
variable {h k : Handle A} {os : List (Option A)} {stage : ServeStage A E B} {a : Announce A}

theorem Announcement.congr (ho : Announcement h os a) (haddr : k.addr = h.addr)
    (hnotify : k.addrNotify = h.addrNotify) : Announcement k os a := by
  cases a <;> simpa only [Announcement, haddr, hnotify] using ho

theorem Announcement.of_notified (ho : Announcement h os a) (hn : h.addrNotify.notified = true) :
    os = [h.addr] ∧ a.isWritten = true := by
  cases a with
  | undecided | decided | written => simp [ho.2] at hn
  | stored => exact ⟨ho, rfl⟩
  | announced => exact ⟨ho.1, rfl⟩

theorem Announcement.quiet {x : Action A E B} (ho : Announcement h os a)
    (hx : x.bindOutcome = none) : Announcement h (os ++ x.bindOutcome.toList) a := by
  rw [hx, Option.toList_none, List.append_nil]
  exact ho

theorem ServeStage.announce_of_arm {arm : ServeArm} {rest : List ServeArm}
    (hp : arm :: rest <:+ stage.arms) (harm : arm ≠ .bind) : stage.announce = .announced := by
  cases stage with
  | bind => simp_all [ServeStage.arms, List.suffix_cons_iff]
  | _ => simp_all [ServeStage.arms, ServeStage.announce]

/-- A step of `serve` decides, writes and announces the address in this order, each once. -/
theorem Serve.Rule.announcement {srv : Server A} {now : Instant} {s t : Serve A E B}
    {x : ServeAnswer A E B} {cs : List (Conn A E B)} {evs : List (ServeEvent A E B)}
    (hr : Serve.Rule srv h now s x k t cs evs) (hs : s.WF h)
    (ho : Announcement h os s.stage.announce) :
    Announcement k (os ++ (Action.bindOutcome (.serve x : Action A E B)).toList)
      t.stage.announce := by
  have hp := hs.placed
  have harm : ∀ {arm : ServeArm} {rest : List ServeArm}, s.pc = .next (arm :: rest) →
      arm ≠ .bind → s.stage.announce = .announced := by
    intro arm rest hpc hne
    rw [hpc] at hp
    exact ServeStage.announce_of_arm hp.1 hne
  cases hr with
  | poll | suspend | bindPending | shutdownBusy | shutdownPending | gracefulBusy
  | gracefulPending | connEndBusy | connEndPending | acceptPending | backoffPending
  | readyPending | makePending | sleepPending =>
    exact ho.quiet rfl
  | bound x rest ha hpc hx =>
    rw [hpc] at hp
    rw [ServeStage.eq_bind_of_arm hp.1] at ho
    rcases hx with rfl | rfl <;> exact Announcement.quiet ho rfl
  | bindErr rest e ha hpc =>
    rw [hpc] at hp
    rw [ServeStage.eq_bind_of_arm hp.1] at ho
    obtain ⟨rfl, hn⟩ := ho
    exact ⟨rfl, hn⟩
  | localAddr addr hst =>
    rw [hst] at ho
    obtain ⟨rfl, hn⟩ := ho
    exact ⟨rfl, hn⟩
  | setAddr addr failed hst =>
    rw [hst] at ho
    obtain ⟨rfl, hn⟩ := ho
    exact ⟨rfl, hn⟩
  | addrStore failed hst =>
    rw [hst] at ho
    obtain ⟨rfl, -⟩ := ho
    rfl
  | listening hst | bindFailed e hst =>
    rw [hst] at ho
    obtain rfl := ho
    exact ⟨rfl, Nat.succ_pos _⟩
  | shutdownReady rest ha hpc | gracefulReady rest ha hpc | connEndReady rest ha hpc =>
    rw [harm hpc (by simp)] at ho
    exact ho.quiet rfl
  | accepted rest addr hst hpc | acceptErr rest e hst hpc | backoffElapsed rest d hst hpc
  | ready rest addr hst hpc | readyErr rest addr e hst hpc | made rest addr hst hpc
  | makeErr rest addr e hst hpc | graceExpired rest d hst hpc =>
    rw [harm hpc (by simp)] at ho
    exact ho.quiet rfl
  | watcher addr hst | spawn addr hst | countZero hst | countPos hst | timed d hst | untimed hst
  | shutdownStore hst | shutdownWake hst =>
    rw [hst] at ho
    exact Announcement.quiet (a := .announced) ho rfl

theorem Serve.Rule.addr_eq {srv : Server A} {now : Instant} {s t : Serve A E B}
    {x : ServeAnswer A E B} {cs : List (Conn A E B)} {evs : List (ServeEvent A E B)}
    (hr : Serve.Rule srv h now s x k t cs evs) (ho : Announcement h os s.stage.announce)
    (hn : h.addrNotify.notified = true) : k.addr = h.addr := by
  cases hr with
  | setAddr addr failed hst =>
    rw [hst] at ho
    simp [ho.2] at hn
  | _ => rfl

end Announcing

/-! ## The callers -/

namespace Caller

def listens : Caller A → Bool
  | .listening _ => true
  | .listeningAddr => true
  | .listened _ => true
  | _ => false

/-- The operations left in a call of `listening()` whose latch is open. -/
def left : Caller A → ℕ
  | .listening f => f.fuel + 1
  | .listeningAddr => 1
  | _ => 0

/-- The next poll of the call gets past the latch. -/
def Resolves (h : Handle A) : Caller A → Prop
  | .listening f => f.Ready h.addrNotify
  | _ => True

section
variable {h k : Handle A} {c d : Caller A}

theorem eq_listened_of_left (hl : c.listens = true) (h0 : c.left = 0) :
    ∃ v, c = .listened v := by
  cases c with
  | listened v => exact ⟨v, rfl⟩
  | listening f => simp [left] at h0
  | listeningAddr => simp [left] at h0
  | _ => simp [listens] at hl

theorem listened_or_step (h : Handle A) (hl : c.listens = true) :
    (∃ v, c = .listened v) ∨ ∃ k d, c.step h = some (k, d) := by
  cases c with
  | listening f =>
    right
    simp only [Caller.step]
    split <;> exact ⟨_, _, rfl⟩
  | listeningAddr => exact .inr ⟨_, _, rfl⟩
  | listened v => exact .inl ⟨v, rfl⟩
  | _ => cases hl

theorem WF.resolves (hc : c.WF h) (hw : h.WF) (hf : h.addrNotify.Fired) : c.Resolves h := by
  cases c with
  | listening f => exact Notified.WF.ready hc hw.addrNotify hf
  | _ => trivial

theorem Rule.left_lt (hr : Caller.Rule h c k d) (hl : c.listens = true) (hc : c.Resolves h) :
    d.listens = true ∧ d.left < c.left := by
  cases hr with
  | listeningBusy f g hf => exact ⟨rfl, Nat.succ_lt_succ (Notified.Ready.poll hc hf).2⟩
  | listeningReady f hf =>
    refine ⟨rfl, ?_⟩
    cases f <;> simp [left, Notified.fuel]
  | listeningPending f hf => exact absurd hf (Notified.Ready.poll_ne_pending hc)
  | listeningAddr => exact ⟨rfl, Nat.zero_lt_one⟩
  | _ => simp [listens] at hl

theorem Rule.listened {v : Option A} (hr : Caller.Rule h c k (.listened v)) : v = h.addr := by
  cases hr
  rfl

end

end Caller

def Action.isCaller (i : ℕ) : Action A E B → Bool
  | .caller j => decide (j = i)
  | _ => false

/-! ## The whole server -/

namespace State
variable {srv : Server A} {P : State A E B → Action A E B → Prop} {s t : State A E B}
  {a : Action A E B} {as bs : List (Action A E B)} {i : ℕ} {c : Caller A}

structure Announced (as : List (Action A E B)) (s : State A E B) : Prop where
  serve : Announcement s.handle (as.filterMap Action.bindOutcome) s.serve.stage.announce
  callers : ∀ v, .listened v ∈ s.callers → v = s.handle.addr

theorem Announced.rule (hs : s.Announced as) (hw : s.WF) (hr : Rule srv s a t) :
    t.Announced (as ++ [a]) := by
  obtain ⟨ho, hc⟩ := hs
  have hsnoc := filterMap_snoc Action.bindOutcome as a
  cases hr with
  | tick | stream => exact ⟨hsnoc ▸ ho.quiet rfl, hc⟩
  | call c =>
    refine ⟨hsnoc ▸ ho.quiet rfl, fun v hv => ?_⟩
    rcases List.mem_append.mp hv with hv | hv
    · exact hc v hv
    · cases c <;> simp [Call.start] at hv
  | caller i c d k hi hr =>
    have hframe := hr.frame
    have hk := ho.congr hframe.addr hframe.addrNotify
    refine ⟨hsnoc ▸ hk.quiet rfl, fun v hv => ?_⟩
    rw [hframe.addr]
    rcases List.mem_or_eq_of_mem_set hv with hv | rfl
    · exact hc v hv
    · exact hr.listened
  | serve x k u cs evs hr =>
    refine ⟨hsnoc ▸ hr.announcement hw.serve ho, fun v hv => ?_⟩
    -- a caller that has returned saw the latch set
    have hn : s.handle.addrNotify.notified = true := hw.callers _ hv
    rw [hr.addr_eq ho hn]
    exact hc v hv
  | task i x c d k evs hi hr =>
    have hframe := hr.frame
    have hk := ho.congr hframe.addr hframe.addrNotify
    refine ⟨hsnoc ▸ hk.quiet rfl, fun v hv => ?_⟩
    rw [hframe.addr]
    exact hc v hv

theorem Exec.announced (h : Exec srv P {} as s) : s.Announced as := by
  have hinv := Interleaving.Exec.trace_invariant
    (I := fun bs u => u.WF ∧ u.Announced bs) h
    (fun hu _ move => ⟨wf_step hu.1 move, hu.2.rule hu.1 (rule_of_step move)⟩)
    ⟨wf_init, ⟨rfl, rfl⟩, by simp⟩
  exact hinv.2

/-- Caller `i` is a call of `listening()` that has found the latch open, or will. -/
def Resolving (i : ℕ) (s : State A E B) : Prop :=
  s.handle.addrNotify.Fired ∧ ∃ c, s.callers[i]? = some c ∧ c.listens = true

def callerLeft (i : ℕ) (s : State A E B) : ℕ := (s.callers[i]?).elim 0 Caller.left

theorem Rule.resolving (hr : Rule srv s a t) (hw : s.WF) (hs : s.Resolving i) :
    t.Resolving i ∧ t.callerLeft i ≤ s.callerLeft i ∧
      (a = .caller i → t.callerLeft i < s.callerLeft i) := by
  obtain ⟨hf, hc⟩ := hs
  have hft := hf.mono hr.le.addrNotify
  cases hr with
  | tick | serve | task | stream => exact ⟨⟨hft, hc⟩, le_rfl, by simp⟩
  | call b =>
    obtain ⟨hkeep, hle⟩ := getElem?_append_keeps (μ := Caller.left) hc [b.start]
    exact ⟨⟨hft, hkeep⟩, hle, by simp⟩
  | caller j c d k hj hr =>
    have hres := (hw.callers c (List.mem_of_getElem? hj)).resolves hw.handle hf
    have hstep (hl : c.listens = true) : d.listens = true ∧ d.left < c.left :=
      hr.left_lt hl hres
    obtain ⟨hkeep, hle⟩ := getElem?_set_keeps hc hj fun hl => ⟨(hstep hl).1, (hstep hl).2.le⟩
    refine ⟨⟨hft, hkeep⟩, hle, fun ha => ?_⟩
    obtain rfl := Action.caller.inj ha
    exact getElem?_set_lt hc hj fun hl => (hstep hl).2

theorem Exec.resolving (h : Exec srv P s as t) (hw : s.WF) (hs : s.Resolving i) :
    t.Resolving i ∧ as.countP (Action.isCaller i) + t.callerLeft i ≤ s.callerLeft i := by
  have keep : ∀ {u : State A E B} {a v}, u.WF ∧ u.Resolving i → u.step srv a = some v →
      (v.WF ∧ v.Resolving i) ∧ v.callerLeft i ≤ u.callerLeft i ∧
        (a.isCaller i = true → v.callerLeft i < u.callerLeft i) := by
    intro u a v hu move
    obtain ⟨hkeep, hle, hown⟩ := (rule_of_step move).resolving hu.1 hu.2
    refine ⟨⟨wf_step hu.1 move, hkeep⟩, hle, fun ha => hown ?_⟩
    cases a <;> simp_all [Action.isCaller]
  obtain ⟨hinv, hcount⟩ := Interleaving.Exec.countdown (Action.isCaller i) h keep ⟨hw, hs⟩
  exact ⟨hinv.2, hcount⟩

/-- What `listening()` promises after the actions `as`. -/
structure ListeningAnswers (srv : Server A) (as : List (Action A E B)) (s : State A E B) :
    Prop where
  /-- A call that has returned has the one decision of `serve`, which was written before. -/
  answer : ∀ v, .listened v ∈ s.callers → as.filterMap Action.bindOutcome = [v] ∧
    s.handle.addr = v ∧ s.serve.stage.announce.isWritten = true
  /-- Once `serve` has returned, no call is left suspended. -/
  awake : ∀ r, s.serve.stage = .returned r → ∀ f, .listening f ∈ s.callers →
    s.handle.addrNotify.poll f ≠ .pending
  /-- From there on a call can make each operation it has left, and then it has returned. -/
  returns : ∀ r, s.serve.stage = .returned r → ∀ i c, s.callers[i]? = some c →
    c.listens = true → ∀ bs t, Exec srv Always s bs t →
      ((∃ v, t.callers[i]? = some (.listened v)) ∨ ∃ u, t.step srv (.caller i) = some u) ∧
      (c.left ≤ bs.countP (Action.isCaller i) → ∃ v, t.callers[i]? = some (.listened v))

/-- `listening()` always resolves, and to one answer. -/
theorem listening_resolves (h : Exec srv Always {} as s) : s.ListeningAnswers srv as := by
  have hw := Exec.wf h wf_init
  have hann := Exec.announced h
  have hfired : ∀ r, s.serve.stage = .returned r → s.handle.addrNotify.Fired := by
    intro r hst
    have hserve := hann.serve
    rw [hst] at hserve
    exact hserve.2
  constructor
  · intro v hv
    obtain ⟨hos, hwritten⟩ := hann.serve.of_notified (hw.callers _ hv)
    rw [← hann.callers v hv] at hos
    exact ⟨hos, (hann.callers v hv).symm, hwritten⟩
  · intro r hst f hf
    have hready := Notified.WF.ready (hw.callers _ hf) hw.handle.addrNotify (hfired r hst)
    exact hready.poll_ne_pending
  · intro r hst i c hi hl bs t hexec
    obtain ⟨⟨-, d, hd, hdl⟩, hle⟩ := Exec.resolving hexec hw ⟨hfired r hst, c, hi, hl⟩
    refine ⟨?_, fun hcount => ?_⟩
    · rcases Caller.listened_or_step t.handle hdl with ⟨v, rfl⟩ | ⟨k, d', hstep⟩
      · exact .inl ⟨v, hd⟩
      · exact .inr (by simp [State.step, hd, hstep])
    · have hs : s.callerLeft i = c.left := by rw [callerLeft, hi, Option.elim_some]
      have ht : t.callerLeft i = d.left := by rw [callerLeft, hd, Option.elim_some]
      have hzero : d.left = 0 := by omega
      obtain ⟨v, rfl⟩ := Caller.eq_listened_of_left hdl hzero
      exact ⟨v, hd⟩

/-- One caller waits while the address is in use, another comes when `serve` has failed. -/
def bindFailure : List (Action ℕ Unit Unit) :=
  Action.callNow 0 .listening 3 ++ [Action.serve .go, .serve (.bindErr (.raw ()))] ++
    List.replicate 3 (Action.serve .go) ++ [Action.call .listening, .caller 0, .caller 0, .caller 1]

theorem listening_resolves_bindFailure :
    (after (Server.bind 0) bindFailure).ListeningAnswers (Server.bind 0) bindFailure :=
  listening_resolves (exec_of_runIf (by decide))

end State

end AxumServer
