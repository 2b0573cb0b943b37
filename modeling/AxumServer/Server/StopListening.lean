import AxumServer.Server.Drain

/-! # How a graceful shutdown reaches the listener

The accept loop watches the graceful latch only after `accept`, and not at all while
it waits for the make service. A poll of `serve` therefore closes the listener unless
in that very poll a connection is taken or the make service lets it wait.
-/

namespace AxumServer

open Interleaving

variable {A E B : Type}

/-- The answers that keep a poll of `serve` away from the graceful arm: a connection
is waiting at the listener, or the make service is not ready. -/
def ServeAnswer.detains : ServeAnswer A E B → Bool
  | .accepted _ => true
  | .readyPending => true
  | .makePending => true
  | _ => false

def Action.detains : Action A E B → Bool
  | .serve x => x.detains
  | _ => false

def ServeEvent.isPoll : ServeEvent A E B → Bool
  | .poll => true
  | _ => false

def ServeEvent.takes : ServeEvent A E B → Bool
  | .accepted _ => true
  | _ => false

def ServeStage.listens : ServeStage A E B → Bool
  | .localAddr => true
  | .setAddr _ failed => failed.isNone
  | .addrStore failed => failed.isNone
  | .addrWake failed => failed.isNone
  | .select _ => true
  | .pollReady _ => true
  | .makeService _ => true
  | .watcher _ => true
  | .spawn _ => true
  | _ => false

def ServeStage.past : ServeStage A E B → Bool
  | .draining _ => true
  | .returned _ => true
  | _ => false

def ServeStage.bound (stage : ServeStage A E B) : Bool := stage.inLoop || stage.past

theorem ServeStage.arms_cons {stage : ServeStage A E B} {arm : ServeArm} {rest : List ServeArm}
    (h : arm :: rest <:+ stage.arms) :
    match arm with
    | .bind => stage = .bind
    | .shutdown => stage.inLoop = true ∧ ∃ arm' rest', rest = arm' :: rest'
    | .accept => ∃ accept, stage = .select accept
    | .graceful => ∃ accept, stage = .select accept
    | .pollReady => (∃ addr, stage = .pollReady addr) ∧ rest = []
    | .makeService => (∃ addr, stage = .makeService addr) ∧ rest = []
    | .sleep => stage.waitsConnEnd = true
    | .connEnd => stage.waitsConnEnd = true := by
  cases stage with
  | bind =>
    obtain ⟨rfl, rfl⟩ : arm = .bind ∧ rest = [] := by simpa [arms, List.suffix_cons_iff] using h
    rfl
  | select accept =>
    simp only [arms, List.suffix_cons_iff, List.cons.injEq, List.suffix_nil, reduceCtorEq,
      or_false] at h
    obtain ⟨rfl, rfl⟩ | ⟨rfl, rfl⟩ | ⟨rfl, rfl⟩ := h
    · exact ⟨rfl, _, _, rfl⟩
    · exact ⟨accept, rfl⟩
    · exact ⟨accept, rfl⟩
  | pollReady addr | makeService addr =>
    simp only [arms, List.suffix_cons_iff, List.cons.injEq, List.suffix_nil, reduceCtorEq,
      or_false] at h
    obtain ⟨rfl, rfl⟩ | ⟨rfl, rfl⟩ := h
    · exact ⟨rfl, _, _, rfl⟩
    · exact ⟨⟨addr, rfl⟩, rfl⟩
  | draining w =>
    cases w <;> simp [arms, List.suffix_cons_iff] at h <;>
      rcases h with ⟨rfl, rfl⟩ | ⟨rfl, rfl⟩ <;> rfl
  | _ => simp [arms] at h

namespace Serve

/-- The poll is on its way to the graceful arm with the latch set, or past it. -/
inductive Closing (h : Handle A) (s : Serve A E B) : Prop
  | select (accept : AcceptFuture) (rest : List ServeArm) (hs : s.stage = .select accept)
      (hpc : s.pc = .next rest) (hm : .graceful ∈ rest) (hr : s.graceful.Ready h.graceful)
  | making (hs : s.stage.inLoop = true) (hns : ∀ accept, s.stage ≠ .select accept)
      (hpc : ∃ arm rest, s.pc = .next (arm :: rest)) (hg : h.graceful.notified = true)
  | spawning (hs : s.stage.inLoop = true) (ha : s.stage.awaits = false)
      (hg : h.graceful.notified = true)
  | past (hs : s.stage.past = true)

section
variable {srv : Server A} {h k : Handle A} {now : Instant} {s t : Serve A E B}
  {x : ServeAnswer A E B} {cs : List (Conn A E B)} {evs : List (ServeEvent A E B)}
  {stage : ServeStage A E B}

theorem Closing.mono (hs : s.Closing h) (hle : h.Le k) : s.Closing k := by
  cases hs with
  | select accept rest hs hpc hm hr => exact .select accept rest hs hpc hm (hr.mono hle.graceful)
  | making hs hns hpc hg => exact .making hs hns hpc (hle.graceful.flag hg)
  | spawning hs ha hg => exact .spawning hs ha (hle.graceful.flag hg)
  | past hs => exact .past hs

theorem Closing.record (hs : s.Closing h) : (s.record now evs).Closing h := by
  cases hs with
  | select accept rest hs hpc hm hr => exact .select accept rest hs hpc hm hr
  | making hs hns hpc hg => exact .making hs hns hpc hg
  | spawning hs ha hg => exact .spawning hs ha hg
  | past hs => exact .past hs

theorem Closing.loop (hg : h.graceful.notified = true) : s.loop.Closing h :=
  .select .stream _ rfl rfl (by simp) hg

theorem Rule.past (hr : Rule srv h now s x k t cs evs) (hsw : s.WF h) (hs : s.stage.past = true) :
    t.stage.past = true ∧ ∀ e ∈ evs, e.takes = false := by
  have hp := hsw.placed
  cases hr with
  | localAddr _ hst | setAddr _ _ hst | addrStore _ hst | listening hst | bindFailed _ hst
  | accepted _ _ hst | acceptPending _ hst | acceptErr _ _ hst | backoffPending _ _ hst
  | backoffElapsed _ _ hst | readyPending _ _ hst | ready _ _ hst | readyErr _ _ _ hst
  | makePending _ _ hst | made _ _ hst | makeErr _ _ _ hst | watcher _ hst | spawn _ hst =>
    rw [hst] at hs
    cases hs
  | bound _ _ _ hpc | bindErr _ _ _ hpc =>
    rw [hpc] at hp
    rw [ServeStage.arms_cons hp.1] at hs
    cases hs
  | poll | suspend | bindPending | shutdownBusy | shutdownPending | gracefulBusy
  | gracefulPending | connEndBusy | connEndPending | sleepPending =>
    exact ⟨hs, by simp [ServeEvent.takes]⟩
  | _ => exact ⟨rfl, by simp [ServeEvent.takes]⟩

theorem Closing.step (hc : s.Closing h) (hsw : s.WF h) (hx : x.detains = false)
    (hr : Rule srv h now s x k t cs evs) : t.Closing k ∧ ∀ e ∈ evs, e.takes = false := by
  have hp := hsw.placed
  cases hc with
  | past hs =>
    obtain ⟨ht, he⟩ := hr.past hsw hs
    exact ⟨.past ht, he⟩
  | spawning hs ha hg =>
    cases hr with
    | watcher addr hst => exact ⟨.spawning rfl rfl hg, by simp⟩
    | spawn addr hst => exact ⟨Closing.loop hg, by simp [ServeEvent.takes]⟩
    | _ => simp_all [ServeStage.inLoop, ServeStage.awaits, ServeStage.arms]
  | select accept rest hs hpc hm hrd =>
    rw [hpc, hs] at hp
    cases hr with
    | shutdownBusy rest' f ha hpc' hf => exact ⟨.select accept rest hs hpc hm hrd, by simp⟩
    | shutdownPending rest' ha hpc' hf | acceptPending rest' hst hpc'
    | backoffPending rest' deadline hst hpc' =>
      obtain rfl := SelectPc.next.inj (hpc.symm.trans hpc')
      exact ⟨.select accept rest' hs rfl (by simpa using hm) hrd, by simp⟩
    | shutdownReady => exact ⟨.past rfl, by simp [ServeEvent.takes]⟩
    | accepted => cases hx
    | acceptErr rest' e hst hpc' =>
      refine ⟨.select _ rest rfl hpc hm hrd, ?_⟩
      unfold report
      split <;> simp [ServeEvent.takes]
    | backoffElapsed rest' deadline hst hpc' =>
      exact ⟨.select _ rest rfl hpc hm hrd, by simp [ServeEvent.takes]⟩
    | gracefulBusy rest' f ha hpc' hf =>
      exact ⟨.select accept rest hs hpc hm (hrd.poll hf).1, by simp⟩
    | gracefulPending rest' ha hpc' hf => exact absurd hf hrd.poll_ne_pending
    | gracefulReady => exact ⟨.past rfl, by simp [ServeEvent.takes]⟩
    | poll _ hpc' | suspend _ hpc' => simp_all
    | bindPending _ _ hpc' | bound _ _ _ hpc' | bindErr _ _ _ hpc' | connEndBusy _ _ _ hpc'
    | connEndPending _ _ hpc' | connEndReady _ _ hpc' =>
      obtain rfl := SelectPc.next.inj (hpc.symm.trans hpc')
      simpa [ServeStage.waitsConnEnd] using ServeStage.arms_cons hp.1
    | _ => simp_all
  | making hs hns hpc hg =>
    obtain ⟨arm, rest, hpc⟩ := hpc
    rw [hpc] at hp
    have harm := ServeStage.arms_cons hp.1
    cases hr with
    | shutdownBusy rest' f ha hpc' hf => exact ⟨.making hs hns ⟨_, _, hpc'⟩ hg, by simp⟩
    | shutdownPending rest' ha hpc' hf =>
      obtain ⟨rfl, rfl⟩ : arm = .shutdown ∧ rest = rest' := by simpa [hpc] using hpc'
      obtain ⟨arm', rest'', rfl⟩ := harm.2
      exact ⟨.making hs hns ⟨arm', rest'', rfl⟩ hg, by simp⟩
    | shutdownReady => exact ⟨.past rfl, by simp [ServeEvent.takes]⟩
    | readyPending | makePending => cases hx
    | ready => exact ⟨.making rfl (by simp) ⟨_, _, rfl⟩ hg, by simp [ServeEvent.takes]⟩
    | readyErr => exact ⟨.past rfl, by simp [ServeEvent.takes]⟩
    | made => exact ⟨.spawning rfl rfl hg, by simp⟩
    | makeErr =>
      refine ⟨Closing.loop hg, ?_⟩
      unfold report
      split <;> simp [ServeEvent.takes]
    | watcher addr hst => exact ⟨.spawning rfl rfl hg, by simp⟩
    | spawn addr hst => exact ⟨Closing.loop hg, by simp [ServeEvent.takes]⟩
    | accepted _ _ hst | acceptPending _ hst | acceptErr _ _ hst | backoffPending _ _ hst
    | backoffElapsed _ _ hst =>
      exact absurd hst (hns _)
    | gracefulBusy _ _ _ hpc' | gracefulPending _ _ hpc' | gracefulReady _ _ hpc' =>
      obtain ⟨rfl, rfl⟩ : arm = .graceful ∧ rest = _ := by simpa [hpc] using hpc'
      obtain ⟨accept, hst⟩ := harm
      exact absurd hst (hns accept)
    | bindPending _ _ hpc' | bound _ _ _ hpc' | bindErr _ _ _ hpc' =>
      obtain ⟨rfl, rfl⟩ : arm = .bind ∧ rest = _ := by simpa [hpc] using hpc'
      rw [harm] at hs
      cases hs
    | connEndBusy _ _ _ hpc' | connEndPending _ _ hpc' | connEndReady _ _ hpc' =>
      obtain ⟨rfl, rfl⟩ : arm = .connEnd ∧ rest = _ := by simpa [hpc] using hpc'
      cases hst : s.stage <;> simp_all [ServeStage.inLoop, ServeStage.waitsConnEnd]
    | _ => simp_all [ServeStage.inLoop]

/-- Between two polls, or about to suspend. -/
def Resting (s : Serve A E B) : Prop := s.pc = .idle ∨ s.stage.awaits = true ∧ s.pc = .next []

theorem Resting.step (hs : s.Resting) (hsw : s.WF h) (hr : Rule srv h now s x k t cs evs) :
    (s.pc = .next [] ∧ evs = [.pending] ∧ t.stage = s.stage ∧ t.pc = .idle) ∨
      (s.stage.awaits = true ∧ evs = [.poll] ∧ k = h ∧
        t = { s with pc := .next s.stage.arms }) := by
  cases hr with
  | poll ha => exact .inr ⟨ha, rfl, rfl, rfl⟩
  | suspend _ hpc => exact .inl ⟨hpc, rfl, rfl, rfl⟩
  | localAddr _ hst | setAddr _ _ hst | addrStore _ hst | listening hst | bindFailed _ hst
  | countZero hst | countPos hst | timed _ hst | untimed hst | watcher _ hst | spawn _ hst
  | shutdownStore hst | shutdownWake hst =>
    have hn : s.pc = .next [] := by
      have hp := hsw.placed
      rw [hst] at hp
      exact hp.sync rfl (by simp)
    rcases hs with hs | ⟨ha, -⟩
    · simp [hn] at hs
    · rw [hst] at ha
      cases ha
  | bindPending _ _ hpc | bound _ _ _ hpc | bindErr _ _ _ hpc | shutdownBusy _ _ _ hpc
  | shutdownPending _ _ hpc | shutdownReady _ _ hpc | gracefulBusy _ _ _ hpc
  | gracefulPending _ _ hpc | gracefulReady _ _ hpc | connEndBusy _ _ _ hpc
  | connEndPending _ _ hpc | connEndReady _ _ hpc | accepted _ _ _ hpc | acceptPending _ _ hpc
  | acceptErr _ _ _ hpc | backoffPending _ _ _ hpc | backoffElapsed _ _ _ hpc
  | readyPending _ _ _ hpc | ready _ _ _ hpc | readyErr _ _ _ _ hpc | makePending _ _ _ hpc
  | made _ _ _ hpc | makeErr _ _ _ _ hpc | sleepPending _ _ _ hpc | graceExpired _ _ _ hpc =>
    simp [Resting, hpc] at hs

/-- A detaining answer is given within a poll: a connection is taken, or the poll ends
in the accept loop. -/
theorem Rule.detained (hr : Rule srv h now s x k t cs evs) (hsw : s.WF h)
    (hx : x.detains = true) : ¬ s.Resting ∧
      ((∃ addr, .accepted addr ∈ evs) ∨ t.Resting ∧ t.stage.inLoop = true) := by
  have hp := hsw.placed
  cases hr with
  | accepted rest addr hs hpc => exact ⟨by simp [Resting, hpc], .inl ⟨addr, by simp⟩⟩
  | readyPending rest addr hs hpc | makePending rest addr hs hpc =>
    rw [hpc] at hp
    obtain rfl := (ServeStage.arms_cons hp.1).2
    have ha : s.stage.awaits = true := by rw [hs]; rfl
    exact ⟨by simp [Resting, hpc], .inr ⟨.inr ⟨ha, rfl⟩, by simp [hs, ServeStage.inLoop]⟩⟩
  | bound _ _ _ _ hx' => rcases hx' with rfl | rfl <;> cases hx
  | _ => cases hx

theorem Closing.poll (hb : s.stage.bound = true) (ha : s.stage.awaits = true) (hsw : s.WF h)
    (hw : h.WF) (hg : h.graceful.Fired) :
    ({ s with pc := .next s.stage.arms } : Serve A E B).Closing h := by
  have hready := hsw.graceful.ready hw.graceful hg
  cases hst : s.stage with
  | select accept => exact .select accept _ rfl rfl (by simp [ServeStage.arms]) hready
  | pollReady addr | makeService addr =>
    exact .making rfl (by simp) ⟨_, _, rfl⟩ (hg.notified hw.graceful)
  | draining w | returned r => exact .past rfl
  | _ => simp [hst, ServeStage.bound, ServeStage.awaits, ServeStage.arms, ServeStage.inLoop,
      ServeStage.past] at hb ha

theorem Closing.idle (hc : s.Closing h) (hsw : s.WF h) (hpc : s.pc = .idle) :
    s.stage.past = true ∧ (s.stage.waitsConnEnd = true ∨ ∃ r, s.stage = .returned r) := by
  have hp : Placed s.stage .idle := hpc ▸ hsw.placed
  cases hc with
  | select _ _ _ hpc' => simp [hpc] at hpc'
  | making _ _ hpc' => simp [hpc] at hpc'
  | spawning hs ha =>
    rcases hp with hp | ⟨r, hp⟩
    · simp [ha] at hp
    · rw [hp] at hs
      cases hs
  | past hs =>
    refine ⟨hs, hp.imp (fun ha => ?_) id⟩
    cases hst : s.stage with
    | draining w =>
      cases w <;> simp_all [ServeStage.awaits, ServeStage.arms, ServeStage.waitsConnEnd]
    | _ => simp_all [ServeStage.awaits, ServeStage.arms, ServeStage.past]

/-- The listener is open exactly at the points of `listens`. -/
theorem Rule.incoming (hr : Rule srv h now s x k t cs evs) (hsw : s.WF h)
    (hs : s.incoming = s.stage.listens) : t.incoming = t.stage.listens := by
  have hp := hsw.placed
  cases hr with
  | bindErr _ _ _ hpc =>
    rw [hpc] at hp
    rw [ServeStage.arms_cons hp.1] at hs
    exact hs
  | connEndReady _ _ hpc =>
    rw [hpc] at hp
    have hwait := ServeStage.arms_cons hp.1
    cases hst : s.stage <;> simp_all [ServeStage.listens, ServeStage.waitsConnEnd, ret]
  | poll | suspend | bindPending | bound | shutdownBusy | shutdownPending | shutdownReady
  | gracefulBusy | gracefulPending | gracefulReady | connEndBusy | connEndPending
  | acceptPending | backoffPending | readyPending | readyErr | makePending | sleepPending =>
    first | exact hs | rfl
  | localAddr _ hst | setAddr _ _ hst | addrStore _ hst | listening hst | bindFailed _ hst
  | countZero hst | countPos hst | timed _ hst | untimed hst | watcher _ hst | spawn _ hst
  | shutdownStore hst | shutdownWake hst | accepted _ _ hst | acceptErr _ _ hst
  | backoffElapsed _ _ hst | ready _ _ hst | made _ _ hst | makeErr _ _ _ hst
  | graceExpired _ _ hst =>
    rw [hst] at hs
    exact hs

end

end Serve

namespace State
variable {srv : Server A} {P : State A E B → Action A E B → Prop} {s t : State A E B}
  {as : List (Action A E B)} {new : List (ServeEvent A E B)}

/-- One whole poll of `serve` leads from `s` to `t`, in whatever company; `new` are
its events. -/
structure OnePoll (s t : State A E B) (new : List (ServeEvent A E B)) : Prop where
  start : s.serve.pc = .idle
  since : Since s.serve.log t.serve.log new
  once : new.countP ServeEvent.isPoll = 1
  done : t.serve.pc = .idle

/-- The poll with the events `new` has ended the accept loop and dropped the listener;
no connection was taken in it and none is taken later; `serve` has returned or waits
in `wait_connections_end`. -/
structure StopsListening (srv : Server A) (t : State A E B) (new : List (ServeEvent A E B)) :
    Prop where
  loop : t.serve.stage.inLoop = false
  listener : t.serve.incoming = false
  taken : ∀ e ∈ new, e.takes = false
  waits : t.serve.stage.waitsConnEnd = true ∨ ∃ r, t.serve.stage = .returned r
  later : ∀ bs u, Exec srv Always t bs u →
    ∃ later, Since t.serve.log u.serve.log later ∧ ∀ e ∈ later, e.takes = false

theorem incoming_invariant (srv : Server A) :
    ServeInvariant srv AnyAnswer fun _ _ (s : Serve A E B) => s.incoming = s.stage.listens where
  mono _ _ hs := hs
  step _ hsw _ hr hs := hr.incoming hsw hs

theorem past_invariant (srv : Server A) (log : List (Instant × ServeEvent A E B)) :
    ServeInvariant srv AnyAnswer fun _ _ (s : Serve A E B) => s.stage.past = true ∧
      ∃ new, Since log s.log new ∧ ∀ e ∈ new, e.takes = false where
  mono _ _ hs := hs
  step := by
    rintro h k now s t x cs evs - hsw - hr ⟨hs, new, hsince, hnew⟩
    obtain ⟨ht, hev⟩ := hr.past hsw hs
    refine ⟨ht, _, hr.since hsince, fun e he => ?_⟩
    exact (List.mem_append.mp he).elim (hnew e) (hev e)

theorem resting_invariant (srv : Server A) (s : Serve A E B) :
    ServeInvariant srv AnyAnswer fun _ _ (t : Serve A E B) =>
      ∃ new, Since s.log t.log new ∧ (.poll ∈ new ∨ t.Resting ∧ t.stage = s.stage) where
  mono _ _ ht := ht
  step := by
    rintro h k now t u x cs evs - htw - hr ⟨new, hsince, hnew⟩
    refine ⟨_, hr.since hsince, ?_⟩
    rcases hnew with hp | ⟨hrest, hst⟩
    · exact .inl (List.mem_append_left _ hp)
    · rcases hrest.step htw hr with ⟨-, -, hs, hi⟩ | ⟨-, rfl, -, -⟩
      · exact .inr ⟨.inl hi, hs.trans hst⟩
      · exact .inl (by simp)

/-- What is known of `serve` since it stood between two polls at `s`, while nothing
detains it from the graceful arm. -/
theorem closing_invariant (srv : Server A) (s : Serve A E B) (hidle : s.pc = .idle)
    (hb : s.stage.bound = true) :
    ServeInvariant srv (fun x => x.detains = false) fun h _ (t : Serve A E B) =>
      h.graceful.Fired ∧ ∃ new, Since s.log t.log new ∧ (∀ e ∈ new, e.takes = false) ∧
        (t = s ∨ t.Closing h) where
  mono hle _ := fun ⟨hg, new, hsince, hnew, ht⟩ =>
    ⟨hg.mono hle.graceful, new, hsince, hnew, ht.imp id fun hc => hc.mono hle⟩
  step := by
    rintro h k now t u x cs evs hw htw hx hr ⟨hg, new, hsince, hnew, ht⟩
    have hstep : (∀ e ∈ evs, e.takes = false) ∧ u.Closing k := by
      rcases ht with rfl | hc
      · rcases Serve.Resting.step (.inl hidle) htw hr with ⟨hn, -⟩ | ⟨ha, rfl, rfl, rfl⟩
        · simp [hidle] at hn
        · exact ⟨by simp [ServeEvent.takes], .poll hb ha htw hw hg⟩
      · exact (hc.step htw hx hr).symm
    refine ⟨hg.mono hr.le.graceful, _, hr.since hsince, fun e he => ?_, .inr hstep.2.record⟩
    exact (List.mem_append.mp he).elim (hnew e) (hstep.1 e)

/-- A poll that was detained has taken a connection or ends in the accept loop. -/
theorem OnePoll.detained (hpoll : OnePoll s t new) (hw : s.WF) (h : Exec srv Always s as t)
    {a : Action A E B} (ha : a ∈ as) (hd : a.detains = true) :
    (∃ addr, .accepted addr ∈ new) ∨ t.serve.stage.inLoop = true := by
  obtain ⟨as₁, as₂, s₁, s₂, rfl, h₁, -, hm, h₂⟩ := Interleaving.Exec.split h ha
  have hw₁ := Exec.wf h₁ hw
  have hw₂ := wf_step hw₁ hm
  obtain ⟨n₁, hs₁, hn₁⟩ := (resting_invariant srv s.serve).exec h₁ hw eachServe_any
    ⟨[], .refl _, .inr ⟨.inl hpoll.start, rfl⟩⟩
  cases rule_of_step hm with
  | serve x k u cs evs hr =>
    obtain ⟨hrest, hcase⟩ := hr.detained hw₁.serve hd
    have hpoll₁ : .poll ∈ n₁ := hn₁.resolve_right fun hn => hrest hn.1
    have hs₂ := hs₁.trans (hr.since (.refl s₁.serve.log))
    rcases hcase with ⟨addr, htake⟩ | ⟨hrest₂, hl⟩
    · obtain ⟨n₂, hn₂⟩ := serve_since h₂ hw₂
      obtain rfl := (hs₂.trans hn₂).unique hpoll.since
      exact .inl ⟨addr, by simp [htake]⟩
    · obtain ⟨n₂, hn₂, hpoll₂ | ⟨-, hst⟩⟩ := (resting_invariant srv _).exec h₂ hw₂ eachServe_any
        ⟨[], .refl _, .inr ⟨hrest₂, rfl⟩⟩
      · -- a second poll would have begun
        obtain rfl := (hs₂.trans hn₂).unique hpoll.since
        have h₁ := List.countP_pos_iff.mpr ⟨_, hpoll₁, (rfl : ServeEvent.isPoll .poll = true)⟩
        have h₂ := List.countP_pos_iff.mpr ⟨_, hpoll₂, (rfl : ServeEvent.isPoll .poll = true)⟩
        have := hpoll.once
        simp only [List.countP_append] at this
        omega
      · exact .inr (hst ▸ hl)
  | _ => cases hd

/-- A poll that was not detained takes no connection and ends past the accept loop. -/
theorem OnePoll.closing (hpoll : OnePoll s t new) (hw : s.WF) (hg : s.handle.graceful.Fired)
    (hb : s.serve.stage.bound = true) (h : Exec srv Always s as t)
    (hnone : ∀ a ∈ as, a.detains = false) :
    t.serve.Closing t.handle ∧ ∀ e ∈ new, e.takes = false := by
  have hrun : Exec srv (EachServe fun x => x.detains = false) s as t :=
    Interleaving.Exec.of_forall_mem h fun a ha u x hx => by
      subst hx
      exact hnone _ ha
  obtain ⟨-, new', hsince, hnew, ht⟩ := (closing_invariant srv s.serve hpoll.start hb).exec hrun hw
    (fun _ _ hQ => hQ) ⟨hg, [], .refl _, by simp, .inl rfl⟩
  obtain rfl := hsince.unique hpoll.since
  refine ⟨ht.resolve_left fun heq => ?_, hnew⟩
  have hnil := hpoll.since.unique (by rw [heq]; exact .refl _)
  simpa [hnil] using hpoll.once

/-- A poll of `serve` that begins after a call of `graceful_shutdown` has returned stops
the listener exactly if no connection is handed out by the listener during it and the
make service answers `Pending` neither to `poll_ready` nor to the call. -/
theorem stopsListening_iff (hr : Reachable srv s) (hg : s.GracefulReturned)
    (hb : s.serve.stage.bound = true) (h : Exec srv Always s as t) (hpoll : OnePoll s t new) :
    StopsListening srv t new ↔ ∀ a ∈ as, a.detains = false := by
  have hw := ReachableIf.wf hr
  have hwt := Exec.wf h hw
  constructor
  · intro hstop a ha
    by_contra hd
    rcases hpoll.detained hw h ha (by simpa using hd) with ⟨addr, htake⟩ | hloop
    · exact absurd (hstop.taken _ htake) (by simp [ServeEvent.takes])
    · rw [hstop.loop] at hloop
      cases hloop
  · intro hnone
    obtain ⟨hclosing, hnew⟩ := hpoll.closing hw (hg.fired hw) hb h hnone
    obtain ⟨hpast, hwaits⟩ := hclosing.idle hwt.serve hpoll.done
    have hinc := (incoming_invariant srv).reachable (hr.exec h) eachServe_any rfl
    refine ⟨?_, ?_, hnew, hwaits, fun bs u hu => ?_⟩
    · cases hst : t.serve.stage <;> simp_all [ServeStage.past, ServeStage.inLoop]
    · rw [hinc]
      cases hst : t.serve.stage <;> simp_all [ServeStage.past, ServeStage.listens]
    · exact ((past_invariant srv t.serve.log).exec hu hwt eachServe_any
        ⟨hpast, [], .refl _, by simp⟩).2

/-- `serve` has suspended in its accept loop when `graceful_shutdown` is called. -/
def quietSchedule : List (Action ℕ Unit Unit) :=
  Action.listen (some 0) ++ Action.serve .acceptPending :: List.replicate 4 (Action.serve .go) ++
    Action.callNow 0 (.gracefulShutdown none) 3

def idlePoll : List (Action ℕ Unit Unit) :=
  Action.resume ++ Action.serve .acceptPending :: List.replicate 2 (Action.serve .go)

/-- A poll that finds a connection, with a make service that is not ready. -/
def latePoll : List (Action ℕ Unit Unit) :=
  Action.resume ++ [Action.serve (.accepted 1), .serve .readyPending, .serve .go]

theorem stopsListening_idle :
    StopsListening Server.fromListener (after Server.fromListener (quietSchedule ++ idlePoll))
      [.poll, .listenerDropped, .returned (.ok ())] :=
  have hpoll : Exec Server.fromListener Always (after Server.fromListener quietSchedule) idlePoll
      (after Server.fromListener (quietSchedule ++ idlePoll)) := exec_of_runIf (by decide)
  (stopsListening_iff (reachable_after _ _ quietSchedule) ⟨none, by decide⟩ (by decide) hpoll
    ⟨by decide, ⟨[(0, .poll), (0, .listenerDropped), (0, .returned (.ok ()))], by decide, rfl⟩,
      by decide, by decide⟩).mpr (by decide)

/-- After a graceful shutdown a connection is taken, and its make service keeps the
listener open. -/
theorem listener_stays_open :
    (after Server.fromListener quietSchedule).GracefulReturned ∧
    (after Server.fromListener quietSchedule).serve.stage.bound = true ∧
    Exec Server.fromListener Always (after Server.fromListener quietSchedule) latePoll
      (after Server.fromListener (quietSchedule ++ latePoll)) ∧
    OnePoll (after Server.fromListener quietSchedule)
      (after Server.fromListener (quietSchedule ++ latePoll)) [.poll, .accepted 1, .pending] ∧
    ¬ StopsListening Server.fromListener (after Server.fromListener (quietSchedule ++ latePoll))
      [.poll, .accepted 1, .pending] :=
  ⟨⟨none, by decide⟩, by decide, exec_of_runIf (by decide),
    ⟨by decide, ⟨[(0, .poll), (0, .accepted 1), (0, .pending)], by decide, rfl⟩, by decide,
      by decide⟩,
    fun h => absurd h.loop (by decide)⟩

end State

end AxumServer
