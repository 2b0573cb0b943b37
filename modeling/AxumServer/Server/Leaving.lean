import AxumServer.Server.Threads

/-! # Tasks that are bound to return

Each select polls its latches in a fixed order. A task for which a latch fired
that is still ahead in its select returns within the current or the next poll:
it does not suspend again, and reaches neither its acceptor nor hyper.
-/

namespace AxumServer

open Interleaving

variable {A E B : Type}

/-- The operations left in any poll of a waiter. -/
def Notified.ops : Notified → ℕ
  | .created => 3
  | .enabled _ => 2
  | .waiting _ => 1

theorem Notified.ops_pos (f : Notified) : 0 < f.ops := by
  cases f <;> exact Nat.succ_pos _

theorem Notified.ops_le (f : Notified) : f.ops ≤ 3 := by
  cases f <;> simp [Notified.ops]

theorem Notified.ops_poll {n : NotifyOnce} {f g : Notified} (h : n.poll f = .busy g) :
    g.ops < f.ops := by
  cases f with
  | created =>
    obtain rfl : Notified.enabled n.notify.enable = g := Polled.busy.inj h
    exact Nat.lt_succ_self 2
  | enabled ticket =>
    simp only [NotifyOnce.poll] at h
    split at h
    next => cases h
    next =>
      obtain rfl := Polled.busy.inj h
      exact Nat.lt_succ_self 1
  | waiting ticket =>
    simp only [NotifyOnce.poll] at h
    split at h <;> cases h

/-- The events of a task that is on its way out, whatever its stream tasks do. -/
def ConnEvent.quiet : ConnEvent A E B → Bool
  | .poll => true
  | .gracefulShutdown => true
  | .ended _ => true
  | .finished => true
  | .streamCall => true
  | _ => false

def ConnEvent.ofStream : ConnEvent A E B → Bool
  | .streamCall => true
  | _ => false

theorem Stage.arms_nodup (stage : Stage) : stage.arms.Nodup := by
  cases stage <;> simp [Stage.arms]

/-- After the first arm that is neither latch no latch is polled. -/
theorem Stage.arms_past {stage : Stage} {arm : Arm} {rest : List Arm}
    (h : arm :: rest <:+ stage.arms) (hs : arm ≠ .shutdown) (hg : arm ≠ .graceful) :
    .shutdown ∉ rest ∧ .graceful ∉ rest := by
  cases stage <;> simp only [Stage.arms, List.suffix_cons_iff, List.suffix_nil, List.cons.injEq,
    reduceCtorEq, or_false] at h <;> aesop

namespace Conn

/-- The arm is polled before the task suspends next. -/
def Ahead (c : Conn A E B) (arm : Arm) : Prop :=
  (c.pc = .idle ∧ arm ∈ c.stage.arms) ∨ ∃ rest, c.pc = .next rest ∧ arm ∈ rest

/-- The body has returned, or it returns at a latch that is still ahead. -/
inductive Leaving (h : Handle A) (c : Conn A E B) : Prop
  | left (hl : c.stage.live = false)
  | shutdown (ha : c.Ahead .shutdown) (hr : c.shutdown.Ready h.shutdown)
  | graceful (hs : c.stage = .accepting) (ha : c.Ahead .graceful)
      (hr : c.graceful.Ready h.graceful)

/-- The latch operations left in the current poll, or in the next one. -/
def pollFuel (c : Conn A E B) : ℕ :=
  match c.pc with
  | .idle => 1 + c.shutdown.ops + c.graceful.ops
  | .next rest => (if .shutdown ∈ rest then c.shutdown.ops else 0) +
      if .graceful ∈ rest then c.graceful.ops else 0
  | .inside _ _ => 0

def fuel (c : Conn A E B) : ℕ :=
  match c.stage with
  | .finished => 0
  | .dropping d => d.fuel
  -- the graceful arm may still lead into the inner select
  | .serving => WatcherDrop.fetchSub.fuel + Notified.created.ops + c.pollFuel
  | _ => WatcherDrop.fetchSub.fuel + c.pollFuel

section
variable {srv : Server A} {h k : Handle A} {now : Instant} {c d : Conn A E B}
  {evs : List (ConnEvent A E B)} {arm : Arm} {rest : List Arm}

theorem pollFuel_le (c : Conn A E B) : c.pollFuel ≤ 7 := by
  have hs := c.shutdown.ops_le
  have hg := c.graceful.ops_le
  unfold pollFuel
  split
  · omega
  · split_ifs <;> omega
  · omega

theorem fuel_le (c : Conn A E B) : c.fuel ≤ 14 := by
  have hp := c.pollFuel_le
  unfold fuel
  split
  · omega
  · rename_i e _
    cases e <;> simp [WatcherDrop.fuel]
  · simp only [WatcherDrop.fuel, Notified.ops]
    omega
  · simp only [WatcherDrop.fuel]
    omega

theorem fuel_of_live (hl : c.stage.live = true) :
    c.fuel = WatcherDrop.fetchSub.fuel + c.pollFuel +
      if c.stage = .serving then Notified.created.ops else 0 := by
  unfold fuel
  cases hst : c.stage <;> simp_all [Stage.live]
  omega

theorem Leaving.mono (hc : c.Leaving h) (hle : h.Le k) : c.Leaving k := by
  cases hc with
  | left hl => exact .left hl
  | shutdown ha hr => exact .shutdown ha (hr.mono hle.shutdown)
  | graceful hs ha hr => exact .graceful hs ha (hr.mono hle.graceful)

theorem Leaving.record (hc : c.Leaving h) : (c.record now evs).Leaving h := by
  cases hc with
  | left hl => exact .left hl
  | shutdown ha hr => exact .shutdown ha hr
  | graceful hs ha hr => exact .graceful hs ha hr

theorem ahead_next (hpc : c.pc = .next rest) : c.Ahead arm ↔ arm ∈ rest := by
  constructor
  · rintro (⟨hi, -⟩ | ⟨rest', hn, hm⟩)
    · rw [hpc] at hi
      cases hi
    · rw [hpc] at hn
      cases hn
      exact hm
  · exact fun hm => .inr ⟨rest, hpc, hm⟩

theorem not_ahead_inside {arm' : Arm} (hpc : c.pc = .inside arm' rest) : ¬ c.Ahead arm := by
  rintro (⟨hi, -⟩ | ⟨rest', hn, -⟩)
  · rw [hpc] at hi
    cases hi
  · rw [hpc] at hn
    cases hn

instance (c : Conn A E B) (arm : Arm) : Decidable (c.Ahead arm) :=
  match hpc : c.pc with
  | .idle => decidable_of_iff (arm ∈ c.stage.arms) ⟨fun hm => .inl ⟨hpc, hm⟩, fun ha => by
      rcases ha with ⟨-, hm⟩ | ⟨rest, hn, -⟩
      · exact hm
      · rw [hpc] at hn
        cases hn⟩
  | .next _ => decidable_of_iff _ (ahead_next hpc).symm
  | .inside _ _ => isFalse (not_ahead_inside hpc)

instance (h : Handle A) (c : Conn A E B) : Decidable (c.Leaving h) :=
  decidable_of_iff (c.stage.live = false ∨ (c.Ahead .shutdown ∧ c.shutdown.Ready h.shutdown) ∨
    (c.stage = .accepting ∧ c.Ahead .graceful ∧ c.graceful.Ready h.graceful)) <| by
    constructor
    · rintro (hl | ⟨ha, hr⟩ | ⟨hs, ha, hr⟩)
      · exact .left hl
      · exact .shutdown ha hr
      · exact .graceful hs ha hr
    · rintro (hl | ⟨ha, hr⟩ | ⟨hs, ha, hr⟩)
      · exact .inl hl
      · exact .inr (.inl ⟨ha, hr⟩)
      · exact .inr (.inr ⟨hs, ha, hr⟩)

/-- A task that is leaving stands before a latch, outside of its other arms. -/
theorem Leaving.not_past (hc : c.Leaving h) (hw : c.WF h) (hl : c.stage.live = true)
    (hpc : c.pc = .next (arm :: rest)) : arm = .shutdown ∨ arm = .graceful := by
  have hp : Placed c.stage (.next (arm :: rest)) := hpc ▸ hw.placed
  by_contra hno
  rw [not_or] at hno
  obtain ⟨hs, hg⟩ := Stage.arms_past hp.1 hno.1 hno.2
  cases hc with
  | left hl' => simp [hl] at hl'
  | shutdown ha hr =>
    rw [ahead_next hpc, List.mem_cons] at ha
    rcases ha with ha | ha
    · exact hno.1 ha.symm
    · exact hs ha
  | graceful _ ha hr =>
    rw [ahead_next hpc, List.mem_cons] at ha
    rcases ha with ha | ha
    · exact hno.2 ha.symm
    · exact hg ha

theorem Leaving.not_inside (hc : c.Leaving h) (hl : c.stage.live = true) :
    c.pc ≠ .inside arm rest := by
  intro hpc
  cases hc with
  | left hl' => simp [hl] at hl'
  | shutdown ha hr => exact not_ahead_inside hpc ha
  | graceful _ ha hr => exact not_ahead_inside hpc ha

theorem Leaving.not_suspending (hc : c.Leaving h) (hl : c.stage.live = true) :
    c.pc ≠ .next [] := by
  intro hpc
  cases hc with
  | left hl' => simp [hl] at hl'
  | shutdown ha hr =>
    rw [ahead_next hpc] at ha
    cases ha
  | graceful _ ha hr =>
    rw [ahead_next hpc] at ha
    cases ha

theorem pollFuel_idle (hpc : c.pc = .idle) : c.pollFuel = 1 + c.shutdown.ops + c.graceful.ops := by
  simp only [pollFuel, hpc]

theorem pollFuel_next (hpc : c.pc = .next rest) :
    c.pollFuel = (if .shutdown ∈ rest then c.shutdown.ops else 0) +
      if .graceful ∈ rest then c.graceful.ops else 0 := by
  simp only [pollFuel, hpc]

theorem pollFuel_next_le (hpc : c.pc = .next rest) :
    c.pollFuel ≤ c.shutdown.ops + c.graceful.ops := by
  rw [pollFuel_next hpc]
  split_ifs <;> omega

theorem Placed.notMem (hp : Placed c.stage (.next (arm :: rest))) : arm ∉ rest :=
  (List.nodup_cons.mp (hp.1.sublist.nodup (Stage.arms_nodup _))).1

theorem pollFuel_shutdown (hp : Placed c.stage c.pc) (hpc : c.pc = .next (.shutdown :: rest)) :
    ({ c with pc := .next rest } : Conn A E B).pollFuel + c.shutdown.ops = c.pollFuel := by
  have hn := Placed.notMem (hpc ▸ hp)
  rw [pollFuel_next hpc, pollFuel_next (c := { c with pc := .next rest }) rfl]
  simp [hn, add_comm]

theorem pollFuel_graceful (hp : Placed c.stage c.pc) (hpc : c.pc = .next (.graceful :: rest)) :
    ({ c with pc := .next rest } : Conn A E B).pollFuel + c.graceful.ops = c.pollFuel := by
  have hn := Placed.notMem (hpc ▸ hp)
  rw [pollFuel_next hpc, pollFuel_next (c := { c with pc := .next rest }) rfl]
  simp [hn]

theorem fuel_lt_of_pollFuel (hl : c.stage.live = true) (hs : d.stage = c.stage)
    (hlt : d.pollFuel < c.pollFuel) : d.fuel < c.fuel := by
  rw [fuel_of_live hl, fuel_of_live (hs ▸ hl), hs]
  omega

theorem fuel_leave_lt (hl : c.stage.live = true) (hpos : 0 < c.pollFuel) :
    c.leave.fuel < c.fuel := by
  have hd : c.leave.fuel = WatcherDrop.fetchSub.fuel := rfl
  rw [hd, fuel_of_live hl]
  omega

theorem Leaving.step (hc : c.Leaving h) (hw : h.WF) (hcw : c.WF h)
    (hr : Rule srv h now c k d evs) :
    d.Leaving k ∧ (∀ e ∈ evs, e.quiet = true) ∧ d.fuel < c.fuel := by
  have hp := hcw.placed
  have hso := c.shutdown.ops_pos
  have hgo := c.graceful.ops_pos
  cases hr with
  | poll hl hpc =>
    refine ⟨?_, by simp [ConnEvent.quiet], fuel_lt_of_pollFuel hl rfl ?_⟩
    · cases hc with
      | left hl' => simp [hl] at hl'
      | shutdown ha hr =>
        rcases ha with ⟨-, hm⟩ | ⟨rest, hn, -⟩
        · exact .shutdown (.inr ⟨_, rfl, hm⟩) hr
        · simp [hpc] at hn
      | graceful hs ha hr =>
        rcases ha with ⟨-, hm⟩ | ⟨rest, hn, -⟩
        · exact .graceful hs (.inr ⟨_, rfl, hm⟩) hr
        · simp [hpc] at hn
    · have := pollFuel_next_le (c := { c with pc := .next c.stage.arms }) rfl
      rw [pollFuel_idle hpc]
      simp only at this
      omega
  | suspend hl hpc => exact absurd hpc (hc.not_suspending hl)
  | shutdownBusy rest f hl hpc hf =>
    refine ⟨?_, by simp, fuel_lt_of_pollFuel hl rfl ?_⟩
    · cases hc with
      | left hl' => simp [hl] at hl'
      | shutdown ha hr => exact .shutdown ha (hr.poll hf).1
      | graceful hs ha hr => exact .graceful hs ha hr
    · have := Notified.ops_poll hf
      rw [pollFuel_next hpc, pollFuel_next (c := { c with shutdown := f }) hpc]
      simp only [List.mem_cons, true_or, if_true]
      omega
  | shutdownPending rest hl hpc hf =>
    refine ⟨?_, by simp, fuel_lt_of_pollFuel hl rfl ?_⟩
    · cases hc with
      | left hl' => simp [hl] at hl'
      | shutdown ha hr => exact absurd hf hr.poll_ne_pending
      | graceful hs ha hr =>
        rw [ahead_next hpc, List.mem_cons] at ha
        exact .graceful hs (.inr ⟨rest, rfl, by simpa using ha⟩) hr
    · have := pollFuel_shutdown hp hpc
      omega
  | shutdownReady rest hl hpc hf =>
    refine ⟨.left rfl, by simp [ConnEvent.quiet], fuel_leave_lt hl ?_⟩
    rw [pollFuel_next hpc]
    simp only [List.mem_cons, true_or, if_true]
    omega
  | gracefulBusy rest f hl hpc hf =>
    refine ⟨?_, by simp, fuel_lt_of_pollFuel hl rfl ?_⟩
    · cases hc with
      | left hl' => simp [hl] at hl'
      | shutdown ha hr => exact .shutdown ha hr
      | graceful hs ha hr => exact .graceful hs ha (hr.poll hf).1
    · have := Notified.ops_poll hf
      rw [pollFuel_next hpc, pollFuel_next (c := { c with graceful := f }) hpc]
      simp only [List.mem_cons, true_or, if_true]
      omega
  | gracefulPending rest hl hpc hf =>
    refine ⟨?_, by simp, fuel_lt_of_pollFuel hl rfl ?_⟩
    · cases hc with
      | left hl' => simp [hl] at hl'
      | shutdown ha hr =>
        rw [ahead_next hpc, List.mem_cons] at ha
        exact .shutdown (.inr ⟨rest, rfl, by simpa using ha⟩) hr
      | graceful hs ha hr => exact absurd hf hr.poll_ne_pending
    · have := pollFuel_graceful hp hpc
      omega
  | gracefulLeave rest hs hpc hf =>
    refine ⟨.left rfl, by simp [ConnEvent.quiet], fuel_leave_lt (by rw [hs]; rfl) ?_⟩
    rw [pollFuel_next hpc]
    simp only [List.mem_cons, true_or, if_true]
    omega
  | gracefulSkip rest deadline hs hpc hf =>
    -- the shutdown arm of this select is behind
    have hrest : rest = [.sleep, .firstRequest, .serve] := by
      rw [hpc, hs] at hp
      simpa [Stage.arms, List.suffix_cons_iff] using hp.1
    cases hc with
    | left hl' => simp [hs, Stage.live] at hl'
    | shutdown ha hr => simp [ahead_next hpc, hrest] at ha
    | graceful hs' ha hr => simp [hs] at hs'
  | gracefulStart rest hs hpc hf =>
    have hl : c.stage.live = true := by rw [hs]; rfl
    refine ⟨?_, by simp [ConnEvent.quiet], ?_⟩
    · cases hc with
      | left hl' => simp [hl] at hl'
      | shutdown ha hr =>
        exact .shutdown (.inr ⟨_, rfl, by simp [Stage.arms]⟩) (hr.notified hw.shutdown)
      | graceful hs' ha hr => simp [hs] at hs'
    · have hd : (c.enter .draining).fuel = WatcherDrop.fetchSub.fuel + Notified.created.ops := rfl
      rw [hd, fuel_of_live hl, if_pos hs, pollFuel_next hpc]
      simp only [List.mem_cons, true_or, if_true]
      omega
  | sleepFired rest deadline hs hpc hd =>
    rcases hc.not_past hcw (by rw [hs]; rfl) hpc with h' | h' <;> cases h'
  | sleepPending rest deadline hs hpc hd =>
    rcases hc.not_past hcw (by rw [hs]; rfl) hpc with h' | h' <;> cases h'
  | requestSent rest hl hpc | requestClosed rest hl hpc | requestPending rest hl hpc
  | acceptPoll rest hl hpc | servePoll rest hl hpc =>
    rcases hc.not_past hcw hl hpc with h' | h' <;> cases h'
  | acceptPending rest hl hpc | accepted rest hl hpc | servePending rest hl hpc
  | serveReady rest hl hpc | serviceCall rest hl hpc | spawnStream rest hl hpc
  | serviceDropped rest hl hpc =>
    exact absurd hpc (hc.not_inside hl)
  | acceptErr rest e hl hpc => exact absurd hpc (hc.not_inside hl)
  | drop e e' hs hd =>
    refine ⟨.left rfl, by simp, ?_⟩
    have hlt := ((hcw.drop e hs).dropStep hd).2
    simpa [fuel, hs] using hlt
  | dropped e hs hd =>
    refine ⟨.left rfl, by simp [ConnEvent.quiet], ?_⟩
    have hpos : 0 < e.fuel := by cases e <;> simp [WatcherDrop.fuel]
    simpa [fuel, hs] using hpos

theorem Rule.streams (hr : Rule srv h now c k d evs) :
    (∀ e ∈ evs, e.ofStream = false) ∧ (.spawnStream ∉ evs → d.streams = c.streams) := by
  cases hr with
  | spawnStream => exact ⟨by simp [ConnEvent.ofStream], fun h => absurd List.mem_cons_self h⟩
  | accepted rest =>
    refine ⟨by simp [ConnEvent.ofStream], fun _ => ?_⟩
    unfold serveConnection
    split <;> rfl
  | acceptErr => exact ⟨by split <;> simp [ConnEvent.ofStream], fun _ => rfl⟩
  | _ => exact ⟨by simp [ConnEvent.ofStream], fun _ => rfl⟩

theorem Rule.streams_of_http1 (hr : Rule srv h now c k d evs)
    (hv : srv.httpVersion = some .http1) : d.streams = c.streams := by
  cases hr with
  | spawnStream rest hl hpc hv' => exact absurd hv hv'
  | accepted rest =>
    unfold serveConnection
    split <;> rfl
  | _ => rfl

/-- Each stream task calls the service at most once. -/
theorem StreamRule.streams {x : StreamAnswer} (hr : StreamRule c x d evs) :
    (∀ e ∈ evs, e.ofStream = true) ∧
      evs.countP ConnEvent.ofStream + d.streams ≤ c.streams := by
  cases hr with
  | call hs => exact ⟨by simp [ConnEvent.ofStream], by simp [ConnEvent.ofStream]; omega⟩
  | drop hs => exact ⟨by simp, by simp⟩

theorem StreamRule.streams_le {x : StreamAnswer} (hr : StreamRule c x d evs) :
    d.streams ≤ c.streams :=
  le_trans (Nat.le_add_left _ _) hr.streams.2

/-- A stream task leaves the connection task where it stands. -/
theorem StreamRule.frame {x : StreamAnswer} (hr : StreamRule c x d evs) :
    d.stage = c.stage ∧ d.pc = c.pc ∧ d.shutdown = c.shutdown ∧ d.graceful = c.graceful := by
  cases hr <;> exact ⟨rfl, rfl, rfl, rfl⟩

theorem StreamRule.leaving {x : StreamAnswer} (hr : StreamRule c x d evs) (hc : c.Leaving h) :
    (d.record now evs).Leaving h := by
  cases hr <;> cases hc with
  | left hl => exact .left hl
  | shutdown ha hr => exact .shutdown ha hr
  | graceful hs ha hr => exact .graceful hs ha hr

theorem StreamRule.fuel {x : StreamAnswer} (hr : StreamRule c x d evs) :
    (d.record now evs).fuel = c.fuel := by
  cases hr <;> rfl

/-- A task that is spawned after the graceful signal returns at its first select. -/
theorem leaving_spawned (hg : h.graceful.notified = true) (addr : A) :
    ({ remoteAddr := addr } : Conn A E B).Leaving h :=
  .graceful rfl (.inl ⟨rfl, by simp [Stage.arms]⟩) hg

theorem Leaving.enabled (srv : Server A) (now : Instant) (hc : c.Leaving h) (hcw : c.WF h)
    (hf : c.stage ≠ .finished) :
    ∃ k d evs, c.step srv h now .go = some (k, d, evs) := by
  cases hl : c.stage.live with
  | false =>
    cases hst : c.stage with
    | finished => exact absurd hst hf
    | dropping e =>
      cases he : (h.dropStep e).2 <;> simp [Conn.step, hst, he]
    | _ => simp [hst, Stage.live] at hl
  | true =>
    have hsel : ∃ d evs, c.selectStep srv h now .go = some (d, evs) := by
      cases hpc : c.pc with
      | idle => simp [selectStep, hpc]
      | inside arm rest => exact absurd hpc (hc.not_inside hl)
      | next rest =>
        cases rest with
        | nil => exact absurd hpc (hc.not_suspending hl)
        | cons arm rest =>
          rcases hc.not_past hcw hl hpc with rfl | rfl
          · cases hp : h.shutdown.poll c.shutdown <;> simp [selectStep, hpc, pollArm, hp]
          · have hp : Placed c.stage (.next (.graceful :: rest)) := hpc ▸ hcw.placed
            have hm : .graceful ∈ c.stage.arms := hp.1.subset List.mem_cons_self
            cases hf : h.graceful.poll c.graceful <;> simp only [selectStep, hpc, pollArm, hf]
            · simp
            · cases hst : c.stage <;> simp_all [onGraceful, Stage.arms]
            · simp
    obtain ⟨d, evs, hs⟩ := hsel
    refine ⟨h, d, evs, ?_⟩
    unfold Conn.step
    split
    next hst => exact absurd hst hf
    next hst _ => simp [hst, Stage.live] at hl
    next hst _ => simp [hst, Stage.live] at hl
    next => simp [hs]

theorem Leaving.idle (hc : c.Leaving h) (hcw : c.WF h) (hr : Rule srv h now c k d evs)
    (hd : d.pc = .idle) : d.stage = .finished := by
  cases hr with
  | suspend hl hpc => exact absurd hpc (hc.not_suspending hl)
  | dropped => rfl
  | drop e e' hs =>
    have hp : Placed c.stage .idle := hd ▸ hcw.placed
    rw [hs] at hp
    rcases hp with hp | hp <;> cases hp
  | accepted rest hl hpc => exact absurd hpc (hc.not_inside hl)
  | _ => simp_all [leave, enter]

end

end Conn

namespace State
variable {srv : Server A} {P : State A E B → Action A E B → Prop} {s t : State A E B}
  {as : List (Action A E B)} {i : ℕ} {c : Conn A E B}

/-- What a connection with the history `log` and with `streams` stream tasks has done
since: its task was quiet, and the stream tasks may have called the service once each. -/
structure QuietSince (log : List (Instant × ConnEvent A E B)) (streams : ℕ) (d : Conn A E B)
    (new : List (ConnEvent A E B)) : Prop where
  since : Since log d.log new
  quiet : ∀ e ∈ new, e.quiet = true
  streams : new.countP ConnEvent.ofStream + d.streams ≤ streams

/-- What a task that was `c` has done since, which ended it in one poll. -/
structure LeftSince (c d : Conn A E B) (new : List (ConnEvent A E B)) : Prop
    extends QuietSince c.log c.streams d new where
  idle : d.pc = .idle → (∀ e ∈ new, e.ofStream = true) ∨ d.stage = .finished

theorem leftSince_refl (c : Conn A E B) : LeftSince c c [] :=
  ⟨⟨.refl _, by simp, by simp⟩, fun _ => .inl (by simp)⟩

/-- What is left of task `i`, which stands at `c` between two polls, however its
operations interleave with everybody else's: its next poll ends it, after at most
14 operations, without waiting for anyone, and none of them reaches the acceptor,
hyper, the service or the accept error handler. -/
structure EndsInOnePoll (srv : Server A) (s : State A E B) (i : ℕ) (c : Conn A E B) : Prop where
  bounded : ∀ {as t}, Exec srv Always s as t → as.countP (Action.isTask i) ≤ 14
  run : ∀ {as t}, Exec srv Always s as t → ∃ d new, t.tasks[i]? = some d ∧
    LeftSince c d new ∧ (d.stage ≠ .finished → ∃ u, t.step srv (.task i .go) = some u)

theorem leaving_invariant (srv : Server A) :
    TaskInvariant srv AnyTask AnyTask fun h _ (d : Conn A E B) => d.Leaving h where
  mono hle _ hd := hd.mono hle
  step hw hcw _ hr hd := (hd.step hw hcw hr).1.record
  stream _ _ hr hd := hr.leaving hd

structure LeavingSince (c : Conn A E B) (h : Handle A) (d : Conn A E B) : Prop where
  leaving : d.Leaving h
  left : ∃ new, LeftSince c d new

theorem leavingSince_invariant (srv : Server A) (c : Conn A E B) :
    TaskInvariant srv AnyTask AnyTask fun h _ d => LeavingSince c h d where
  mono hle _ hd := ⟨hd.leaving.mono hle, hd.left⟩
  step := by
    intro h k now d d' evs hw hdw _ hr hd
    obtain ⟨hl, hq, -⟩ := hd.leaving.step hw hdw hr
    obtain ⟨hstream, hkeep⟩ := hr.streams
    obtain ⟨new, hn⟩ := hd.left
    have hsame : d'.streams = d.streams := hkeep fun hm => by cases hq _ hm
    have hnone : evs.countP ConnEvent.ofStream = 0 := by
      rw [List.countP_eq_zero]
      exact fun e he => by simp [hstream e he]
    refine ⟨hl.record, new ++ evs, ⟨hr.since hn.since, ?_, ?_⟩, fun hi => .inr ?_⟩
    · intro e he
      rcases List.mem_append.mp he with he | he
      · exact hn.quiet e he
      · exact hq e he
    · have hle := hn.streams
      rw [List.countP_append, hnone]
      exact hsame ▸ hle
    · exact hd.leaving.idle (d := d') hdw hr hi
  stream := by
    intro h now d d' x evs hdw _ hr hd
    obtain ⟨hstream, hle⟩ := hr.streams
    obtain ⟨hstage, hpc, -⟩ := hr.frame
    obtain ⟨new, hn⟩ := hd.left
    refine ⟨hr.leaving hd.leaving, new ++ evs, ⟨hr.since hn.since, ?_, ?_⟩, fun hi => ?_⟩
    · intro e he
      rcases List.mem_append.mp he with he | he
      · exact hn.quiet e he
      · cases e <;> first | rfl | cases hstream _ he
    · have hle' := hn.streams
      have hd' : (d'.record now evs).streams = d'.streams := rfl
      rw [List.countP_append, hd']
      omega
    · refine (hn.idle (hpc ▸ hi)).imp (fun hold e he => ?_) fun hfin => hstage.trans hfin
      exact (List.mem_append.mp he).elim (hold e) (hstream e)

/-- An HTTP/1 connection has no stream tasks. -/
theorem http1_invariant (hv : srv.httpVersion = some .http1) :
    TaskInvariant srv AnyTask AnyTask fun _ _ (c : Conn A E B) => c.streams = 0 where
  mono _ _ hc := hc
  step _ _ _ hr hc := (hr.streams_of_http1 hv).trans hc
  stream _ _ hr hc := Nat.le_zero.mp (hr.streams_le.trans_eq hc)

theorem step_task_of_leaving (hs : s.WF) (hi : s.tasks[i]? = some c) (hc : c.Leaving s.handle)
    (hf : c.stage ≠ .finished) : ∃ u, s.step srv (.task i .go) = some u := by
  obtain ⟨k, d, evs, hstep⟩ :=
    hc.enabled srv s.now (hs.tasks c (List.mem_of_getElem? hi)) hf
  simp [State.step, hi, hstep]

theorem Exec.leavingSince (h : Exec srv P s as t) (hs : s.WF) (hi : s.tasks[i]? = some c)
    (hc : c.Leaving s.handle) : ∃ d, t.tasks[i]? = some d ∧ LeavingSince c t.handle d :=
  (leavingSince_invariant srv c).exec h hs eachTask_any eachStreamCall_any hi
    ⟨hc, [], leftSince_refl c⟩

theorem endsInOnePoll_of_leaving (hs : s.WF) (hi : s.tasks[i]? = some c) (hc : c.Leaving s.handle) :
    EndsInOnePoll srv s i c where
  bounded h :=
    le_trans ((leaving_invariant srv).countP_le
      Conn.StreamRule.fuel (fun hw hcw hc hr => (hc.step hw hcw hr).2.2) h hs eachTask_any
      eachStreamCall_any hi hc)
      c.fuel_le
  run h := by
    obtain ⟨d, hd, hl⟩ := h.leavingSince hs hi hc
    obtain ⟨new, hn⟩ := hl.left
    exact ⟨d, new, hd, hn, step_task_of_leaving (Exec.wf h hs) hd hl.leaving⟩

end State

end AxumServer
