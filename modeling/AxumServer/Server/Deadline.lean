import AxumServer.Server.Shutdown

/-! # The end of the grace period

`wait_connections_end` polls its `sleep` before `conn_end`. So the first poll of `serve`
at or after the deadline fires the shutdown latch and returns, whatever connections there
are, and each of them ends in its next poll.
-/

namespace AxumServer

open Interleaving

variable {A E B : Type}

namespace Serve

/-- The deadline of the grace period has passed before the poll of `serve` began. -/
inductive Overdue (h : Handle A) (now : Instant) (s : Serve A E B) : Prop
  | waiting (deadline : Instant) (hs : s.stage = .draining (.timed deadline))
      (hd : deadline ≤ now) (hpc : s.pc = .idle ∨ ∃ rest, s.pc = .next (.sleep :: rest))
  | shutdownStore (hs : s.stage = .draining .shutdownStore)
  | shutdownWake (hs : s.stage = .draining .shutdownWake)
  | returned (hs : s.stage = .returned (.ok ())) (hf : h.shutdown.Fired)

def overdueFuel (s : Serve A E B) : ℕ :=
  match s.stage, s.pc with
  | .returned _, _ => 0
  | .draining .shutdownWake, _ => 1
  | .draining .shutdownStore, _ => 2
  | _, .idle => 4
  | _, _ => 3

theorem overdueFuel_le (s : Serve A E B) : s.overdueFuel ≤ 4 := by
  unfold overdueFuel
  split <;> omega

section
variable {srv : Server A} {h k : Handle A} {now later : Instant} {s t : Serve A E B}
  {x : ServeAnswer A E B} {cs : List (Conn A E B)} {evs : List (ServeEvent A E B)}

theorem Overdue.mono (hs : s.Overdue h now) (hle : h.Le k) (hnow : now ≤ later) :
    s.Overdue k later := by
  cases hs with
  | waiting deadline hs hd hpc => exact .waiting deadline hs (hd.trans hnow) hpc
  | shutdownStore hs => exact .shutdownStore hs
  | shutdownWake hs => exact .shutdownWake hs
  | returned hs hf => exact .returned hs (hf.mono hle.shutdown)

theorem Overdue.step (hs : s.Overdue h now) (hr : Rule srv h now s x k t cs evs) :
    t.Overdue k now ∧ t.overdueFuel < s.overdueFuel := by
  cases hs with
  | waiting deadline hst hd hpc =>
    have ha : s.stage.awaits = true := by rw [hst]; rfl
    cases hr with
    | poll _ hidle =>
      refine ⟨.waiting deadline hst hd (.inr ⟨[.connEnd], by simp [hst, ServeStage.arms]⟩), ?_⟩
      simp [overdueFuel, hst, hidle]
    | graceExpired rest _ _ hn => exact ⟨.shutdownStore rfl, by simp [overdueFuel, hst, hn]⟩
    | sleepPending rest deadline' hs' hn hlt =>
      obtain rfl : deadline = deadline' := by simpa [hst] using hs'
      exact absurd hd (Nat.not_le.mpr hlt)
    | suspend _ hn | bindPending _ _ hn | bound _ _ _ hn | bindErr _ _ _ hn
    | shutdownBusy _ _ _ hn | shutdownPending _ _ hn | shutdownReady _ _ hn
    | gracefulBusy _ _ _ hn | gracefulPending _ _ hn | gracefulReady _ _ hn
    | connEndBusy _ _ _ hn | connEndPending _ _ hn | connEndReady _ _ hn =>
      simp [hn] at hpc
    | localAddr _ hs' | setAddr _ _ hs' | addrStore _ hs' | listening hs' | bindFailed _ hs'
    | countZero hs' | countPos hs' | timed _ hs' | untimed hs' | accepted _ _ hs'
    | acceptPending _ hs' | acceptErr _ _ hs' | backoffPending _ _ hs' | backoffElapsed _ _ hs'
    | readyPending _ _ hs' | ready _ _ hs' | readyErr _ _ _ hs' | makePending _ _ hs'
    | made _ _ hs' | makeErr _ _ _ hs' | watcher _ hs' | spawn _ hs' | shutdownStore hs'
    | shutdownWake hs' =>
      rw [hs'] at hst
      cases hst
  | shutdownStore hst =>
    cases hr with
    | shutdownStore => exact ⟨.shutdownWake rfl, by simp [overdueFuel, hst]⟩
    | _ => simp_all [ServeStage.awaits, ServeStage.arms]
  | shutdownWake hst =>
    cases hr with
    | shutdownWake => exact ⟨.returned rfl (Nat.succ_pos _), by simp [overdueFuel, hst, ret]⟩
    | _ => simp_all [ServeStage.awaits, ServeStage.arms]
  | returned hst hf =>
    cases hr <;> simp_all [ServeStage.awaits, ServeStage.arms]

theorem Overdue.enabled (srv : Server A) (hs : s.Overdue h now)
    (hn : s.stage ≠ .returned (.ok ())) :
    ∃ k t cs evs, s.step srv h now .go = some (k, t, cs, evs) := by
  cases hs with
  | waiting deadline hst hd hpc =>
    have ha : s.stage.awaits = true := by rw [hst]; rfl
    rcases hpc with hpc | ⟨rest, hpc⟩
    · simp [Serve.step, ha, hpc]
    · rw [hst] at ha
      simp [Serve.step, hst, ha, hpc, pollArm, sleepReady, hd]
  | shutdownStore hst | shutdownWake hst =>
    simp [Serve.step, hst, ServeStage.awaits, ServeStage.arms, Serve.syncStep]
  | returned hst => exact absurd hst hn

end

end Serve

namespace State
variable {srv : Server A} {s t : State A E B} {as : List (Action A E B)} {deadline : Instant}

theorem overdue_invariant (srv : Server A) :
    ServeInvariant srv AnyAnswer fun h now (s : Serve A E B) => s.Overdue h now where
  mono hle hnow hs := hs.mono hle hnow
  step := by
    intro h k now s t x cs evs hw hsw _ hr hs
    cases (hs.step hr).1 with
    | waiting deadline hs hd hpc => exact .waiting deadline hs hd hpc
    | shutdownStore hs => exact .shutdownStore hs
    | shutdownWake hs => exact .shutdownWake hs
    | returned hs hf => exact .returned hs hf

/-- When the deadline of the grace period passes while `serve` is suspended, then in every
continuation `serve` makes at most 4 operations, can make each of them, and ends with
`Ok(())` and the shutdown latch fired: each task that is left ends in its next poll. -/
theorem deadline_ends_everything (hr : Reachable srv s)
    (hst : s.serve.stage = .draining (.timed deadline)) (hpc : s.serve.pc = .idle)
    (hd : deadline ≤ s.now) (hrun : Exec srv Always s as t) :
    as.countP Action.isServe ≤ 4 ∧
      (t.serve.stage ≠ .returned (.ok ()) → ∃ u, t.step srv (.serve .go) = some u) ∧
      (t.serve.stage = .returned (.ok ()) → t.handle.shutdown.isNotified = true ∧
        ∀ i c, t.tasks[i]? = some c → c.pc = .idle → EndsInOnePoll srv t i c) := by
  have hw := ReachableIf.wf hr
  have hwt := Exec.wf hrun hw
  have hs : s.serve.Overdue s.handle s.now := .waiting deadline hst hd (.inl hpc)
  have ht := (overdue_invariant srv).exec hrun hw eachServe_any hs
  refine ⟨?_, fun hn => ?_, fun hret => ?_⟩
  · exact ((overdue_invariant srv).countP_le (fun _ _ hs hr => (hs.step hr).2) hrun hw eachServe_any
      hs).trans s.serve.overdueFuel_le
  · obtain ⟨k, u, cs, evs, hstep⟩ := ht.enabled srv hn
    simp [State.step, hstep]
  · have hf : t.handle.shutdown.Fired := by
      cases ht with
      | returned _ hf => exact hf
      | waiting _ hs | shutdownStore hs | shutdownWake hs => simp [hs] at hret
    exact ⟨hf.notified hwt.handle.shutdown, fun i c hi hidle =>
      endsInOnePoll_of_leaving hwt hi (leaving_of_shutdown hwt hf (List.mem_of_getElem? hi) hidle)⟩

/-- A task in the middle of a request; `serve` waits for it with a grace period of 50 ns. -/
def graceSchedule : List (Action ℕ Unit Unit) :=
  Action.listen (some 0) ++ Action.connect 1 ++ Action.handshake 0 ++ Action.reachHyper 0 ++
    [Action.task 0 .serviceCall, .task 0 .pending, .task 0 .go] ++
    Action.callNow 0 (.gracefulShutdown (some 50)) 3 ++ Action.resume ++
    Action.serve .acceptPending :: List.replicate 8 (Action.serve .go) ++ [.tick 60]

theorem deadline_ends_everything_serving :
    EndsInOnePoll Server.fromListener
      (after Server.fromListener (graceSchedule ++ List.replicate 4 (.serve .go))) 0
      { remoteAddr := 1, stage := .serving, shutdown := .waiting 0, graceful := .waiting 0,
        log := [(0, .poll), (0, .acceptPoll), (0, .accepted), (0, .serveConnection true),
          (0, .servePoll), (0, .serviceCall), (0, .pending)] } :=
  have hrun : Exec Server.fromListener Always (after Server.fromListener graceSchedule)
      (List.replicate 4 (.serve .go))
      (after Server.fromListener (graceSchedule ++ List.replicate 4 (.serve .go))) :=
    exec_of_runIf (by decide)
  have hst : (after Server.fromListener graceSchedule).serve.stage = .draining (.timed 50) := by
    decide
  have h := deadline_ends_everything (reachable_after _ _ graceSchedule) hst (by decide) (by decide)
    hrun
  (h.2.2 (by decide)).2 0 _ (by decide) (by decide)

end State

end AxumServer
