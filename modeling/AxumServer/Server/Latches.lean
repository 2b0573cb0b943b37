import AxumServer.Server.System

/-! # Latches and program points in every reachable state

Each task keeps an assertion about the latches it has touched. The assertions
only ask that latches have moved forward, so the steps of other tasks keep them.
The same invariant says at which program points a task can be.
-/

namespace AxumServer

open Interleaving

variable {A E B : Type}

/-! ## Connection tasks -/

theorem Stage.arms_accept {stage : Stage} {rest : List Arm}
    (h : Arm.accept :: rest <:+ stage.arms) : stage = .accepting ∧ rest = [] := by
  cases stage <;> simp_all [Stage.arms, List.suffix_cons_iff]

theorem Stage.arms_firstRequest {stage : Stage} {rest : List Arm}
    (h : Arm.firstRequest :: rest <:+ stage.arms) :
    (∃ deadline, stage = .firstRequest deadline) ∧ rest = [.serve] := by
  cases stage <;> simp_all [Stage.arms, List.suffix_cons_iff]

theorem Stage.arms_serve {stage : Stage} {rest : List Arm}
    (h : Arm.serve :: rest <:+ stage.arms) : stage.serves = true ∧ rest = [] := by
  cases stage <;> simp_all [Stage.arms, Stage.serves, List.suffix_cons_iff]

namespace Conn

/-- The program points of a task in each of its stages. -/
def Placed (stage : Stage) : SelectPc Arm → Prop
  | .idle => stage.live = true ∨ stage = .finished
  | .next rest => rest <:+ stage.arms ∧ stage ≠ .finished
  | .inside arm rest => rest = [] ∧
    (arm = .accept ∧ stage = .accepting ∨ arm = .serve ∧ stage.serves = true)

structure WF (h : Handle A) (c : Conn A E B) : Prop where
  shutdown : c.shutdown.WF h.shutdown
  graceful : c.graceful.WF h.graceful
  placed : Placed c.stage c.pc
  drop : ∀ d, c.stage = .dropping d → d.WF h
  notify : ∀ deadline, c.stage = .firstRequest deadline → c.notify ≠ none
  streams : c.stage = .accepting → c.streams = 0

section
variable {srv : Server A} {h k : Handle A} {now : Instant} {c d : Conn A E B}
  {evs : List (ConnEvent A E B)} {stage : Stage}

theorem WF.mono (hc : c.WF h) (hle : h.Le k) : c.WF k :=
  ⟨hc.shutdown.mono hle.shutdown, hc.graceful.mono hle.graceful, hc.placed,
    fun d hd => (hc.drop d hd).mono hle, hc.notify, hc.streams⟩

theorem wf_spawned (h : Handle A) (addr : A) : ({ remoteAddr := addr } : Conn A E B).WF h :=
  ⟨trivial, trivial, .inl rfl, fun _ hd => by simp at hd, fun _ hd => by simp at hd, fun _ => rfl⟩

theorem WF.leave (hc : c.WF h) : c.leave.WF h :=
  ⟨hc.shutdown, hc.graceful, ⟨List.suffix_rfl, by simp [Conn.leave]⟩,
    fun d hd => by obtain rfl := Stage.dropping.inj hd; trivial, fun _ hd => (by cases hd),
    fun ha => (by cases ha)⟩

theorem WF.enter (hs : stage.serves = true)
    (hn : ∀ deadline, stage = .firstRequest deadline → c.notify ≠ none) :
    (c.enter stage).WF h := by
  refine ⟨trivial, trivial, ⟨List.suffix_rfl, ?_⟩, ?_, hn, ?_⟩
  · rintro rfl
    cases hs
  · rintro d rfl
    cases hs
  · rintro rfl
    cases hs

theorem WF.serveConnection (h : Handle A) (srv : Server A) (now : Instant) (c : Conn A E B) :
    (c.serveConnection srv now).WF h := by
  unfold Conn.serveConnection
  split
  · exact ⟨trivial, trivial, ⟨List.suffix_rfl, by simp [Conn.enter]⟩,
      fun _ hd => by simp [Conn.enter] at hd, fun _ _ => by simp, fun ha => by cases ha⟩
  · exact ⟨trivial, trivial, ⟨List.suffix_rfl, by simp [Conn.enter]⟩,
      fun _ hd => by simp [Conn.enter] at hd, fun _ hd => by simp [Conn.enter] at hd,
      fun ha => by cases ha⟩

theorem Placed.tail {arm : Arm} {rest : List Arm} (hp : Placed stage (.next (arm :: rest))) :
    Placed stage (.next rest) :=
  ⟨(List.suffix_cons arm rest).trans hp.1, hp.2⟩

theorem Placed.after {arm : Arm} {rest : List Arm} (hp : Placed stage (.inside arm rest)) :
    Placed stage (.next rest) := by
  obtain ⟨rfl, ⟨-, rfl⟩ | ⟨-, hs⟩⟩ := hp
  · exact ⟨List.nil_suffix, by simp⟩
  · exact ⟨List.nil_suffix, by rintro rfl; cases hs⟩

theorem Rule.frame (hr : Rule srv h now c k d evs) : h.DropFrame k := by
  cases hr with
  | drop d e => exact h.dropFrame_dropStep d
  | dropped d => exact h.dropFrame_dropStep d
  | _ => exact ⟨rfl, rfl, rfl, rfl, rfl⟩

theorem Rule.le (hr : Rule srv h now c k d evs) : h.Le k := by
  cases hr with
  | drop d e => exact h.le_dropStep d
  | dropped d => exact h.le_dropStep d
  | _ => exact .refl h

theorem firstRequestService_call_ne_none {notify : Option Oneshot} (hn : notify ≠ none) :
    FirstRequestService.call notify ≠ none := by
  cases notify with
  | none => exact absurd rfl hn
  | some o => cases o <;> simp [FirstRequestService.call]

theorem Rule.wf (hr : Rule srv h now c k d evs) (hw : h.WF) (hc : c.WF h) : k.WF ∧ d.WF k := by
  have hp := hc.placed
  cases hr with
  | poll hl hpc =>
    exact ⟨hw, hc.shutdown, hc.graceful, ⟨List.suffix_rfl, fun hf => by rw [hf] at hl; cases hl⟩,
      hc.drop, hc.notify, hc.streams⟩
  | suspend hl hpc => exact ⟨hw, hc.shutdown, hc.graceful, .inl hl, hc.drop, hc.notify, hc.streams⟩
  | shutdownBusy rest f hl hpc hf =>
    exact ⟨hw, hc.shutdown.poll hw.shutdown hf, hc.graceful, hp, hc.drop, hc.notify, hc.streams⟩
  | gracefulBusy rest f hl hpc hf =>
    exact ⟨hw, hc.shutdown, hc.graceful.poll hw.graceful hf, hp, hc.drop, hc.notify, hc.streams⟩
  | shutdownReady | gracefulLeave | sleepFired | requestClosed | acceptErr | serveReady =>
    exact ⟨hw, hc.leave⟩
  | gracefulSkip | gracefulStart | requestSent =>
    exact ⟨hw, WF.enter rfl (fun _ hd => by cases hd)⟩
  | accepted rest => exact ⟨hw, WF.serveConnection h srv now c⟩
  | acceptPoll rest hl hpc =>
    rw [hpc] at hp
    obtain ⟨hs, rfl⟩ := Stage.arms_accept hp.1
    exact ⟨hw, hc.shutdown, hc.graceful, ⟨rfl, .inl ⟨rfl, hs⟩⟩, hc.drop, hc.notify, hc.streams⟩
  | servePoll rest hl hpc =>
    rw [hpc] at hp
    obtain ⟨hs, rfl⟩ := Stage.arms_serve hp.1
    exact ⟨hw, hc.shutdown, hc.graceful, ⟨rfl, .inr ⟨rfl, hs⟩⟩, hc.drop, hc.notify, hc.streams⟩
  | acceptPending rest hl hpc | servePending rest hl hpc =>
    rw [hpc] at hp
    exact ⟨hw, hc.shutdown, hc.graceful, hp.after, hc.drop, hc.notify, hc.streams⟩
  | shutdownPending rest hl hpc | gracefulPending rest hl hpc | requestPending rest hl hpc =>
    rw [hpc] at hp
    exact ⟨hw, hc.shutdown, hc.graceful, hp.tail, hc.drop, hc.notify, hc.streams⟩
  | sleepPending rest deadline hs hpc =>
    rw [hpc] at hp
    exact ⟨hw, hc.shutdown, hc.graceful, hp.tail, hc.drop, hc.notify, hc.streams⟩
  | serviceCall rest hl hpc hn =>
    exact ⟨hw, hc.shutdown, hc.graceful, hp, hc.drop,
      fun deadline hs => firstRequestService_call_ne_none (hc.notify deadline hs), hc.streams⟩
  | spawnStream rest hl hpc =>
    refine ⟨hw, hc.shutdown, hc.graceful, hp, hc.drop, hc.notify, fun ha => ?_⟩
    have ha : c.stage = .accepting := ha
    rw [hpc, ha] at hp
    obtain ⟨-, ⟨harm, -⟩ | ⟨-, hs⟩⟩ := hp
    · cases harm
    · cases hs
  | serviceDropped rest hl hpc hn =>
    exact ⟨hw, hc.shutdown, hc.graceful, hp, hc.drop, fun _ _ => by simp, hc.streams⟩
  | drop e e' hs hd =>
    have he := hc.drop e hs
    have hle := h.le_dropStep e
    refine ⟨hw.dropStep he, hc.shutdown.mono hle.shutdown, hc.graceful.mono hle.graceful,
      ?_, ?_, ?_, ?_⟩
    · -- a task that drops its watcher is in the middle of a poll
      rw [hs] at hp
      cases hpc : c.pc with
      | idle => rw [hpc] at hp; rcases hp with hp | hp <;> cases hp
      | next rest => rw [hpc] at hp; exact ⟨hp.1, by simp⟩
      | inside arm rest =>
        rw [hpc] at hp
        obtain ⟨-, ⟨-, hp⟩ | ⟨-, hp⟩⟩ := hp <;> cases hp
    · intro d' hd'
      obtain rfl := Stage.dropping.inj hd'
      exact (he.dropStep hd).1
    · intro _ hf
      cases hf
    · intro ha
      cases ha
  | dropped e hs hd =>
    have he := hc.drop e hs
    have hle := h.le_dropStep e
    refine ⟨hw.dropStep he, hc.shutdown.mono hle.shutdown, hc.graceful.mono hle.graceful, .inr rfl,
      ?_, ?_, fun ha => (by cases ha)⟩ <;> intro _ hf <;> cases hf

theorem StreamRule.wf {y : StreamAnswer} (hr : StreamRule c y d evs) (hc : c.WF h) : d.WF h := by
  cases hr with
  | call =>
    exact ⟨hc.shutdown, hc.graceful, hc.placed, hc.drop,
      fun deadline hs => firstRequestService_call_ne_none (hc.notify deadline hs),
      fun ha => by simp [hc.streams ha]⟩
  | drop =>
    exact ⟨hc.shutdown, hc.graceful, hc.placed, hc.drop, hc.notify,
      fun ha => by simp [hc.streams ha]⟩

theorem WF.record (hc : c.WF h) : (c.record now evs).WF h :=
  ⟨hc.shutdown, hc.graceful, hc.placed, hc.drop, hc.notify, hc.streams⟩

end

end Conn

/-! ## The future of `serve` -/

theorem ServeStage.eq_bind_of_arm {stage : ServeStage A E B} {rest : List ServeArm}
    (hp : .bind :: rest <:+ stage.arms) : stage = .bind := by
  cases stage with
  | draining w => cases w <;> simp [ServeStage.arms, List.suffix_cons_iff] at hp
  | _ => simp_all [ServeStage.arms, List.suffix_cons_iff]

namespace Serve

/-- What `serve` knows about the latches at each program point. -/
def Knows (h : Handle A) : ServeStage A E B → Prop
  | .addrWake _ => h.addrNotify.notified = true
  | .draining .shutdownWake => h.graceful.notified = true ∧ h.shutdown.notified = true
  | .draining _ => h.graceful.notified = true
  | _ => True

/-- The program points of `serve` in each of its stages. -/
def Placed (stage : ServeStage A E B) : SelectPc ServeArm → Prop
  | .idle => stage.awaits = true ∨ ∃ r, stage = .returned r
  | .next rest => rest <:+ stage.arms ∧ ∀ r, stage ≠ .returned r
  | .inside _ _ => False

structure WF (h : Handle A) (s : Serve A E B) : Prop where
  shutdown : s.shutdown.WF h.shutdown
  graceful : s.graceful.WF h.graceful
  connEnd : s.connEnd.WF h.connEnd
  knows : Knows h s.stage
  placed : Placed s.stage s.pc

section
variable {srv : Server A} {h k : Handle A} {now : Instant} {s t : Serve A E B}
  {x : ServeAnswer A E B} {cs : List (Conn A E B)} {evs : List (ServeEvent A E B)}
  {stage : ServeStage A E B}

theorem Knows.mono (hk : Knows h stage) (hle : h.Le k) : Knows k stage := by
  cases stage with
  | addrWake failed => exact hle.addrNotify.flag hk
  | draining w =>
    cases w with
    | shutdownWake => exact ⟨hle.graceful.flag hk.1, hle.shutdown.flag hk.2⟩
    | _ => exact hle.graceful.flag hk
  | _ => trivial

theorem Knows.graceful {w : WaitEnd} (hk : Knows h (.draining w : ServeStage A E B)) :
    h.graceful.notified = true := by
  cases w with
  | shutdownWake => exact hk.1
  | _ => exact hk

theorem WF.mono (hs : s.WF h) (hle : h.Le k) : s.WF k :=
  ⟨hs.shutdown.mono hle.shutdown, hs.graceful.mono hle.graceful, hs.connEnd.mono hle.connEnd,
    hs.knows.mono hle, hs.placed⟩

theorem wf_new (h : Handle A) : ({} : Serve A E B).WF h :=
  ⟨trivial, trivial, trivial, trivial, .inl rfl⟩

theorem Placed.tail {arm : ServeArm} {rest : List ServeArm}
    (hp : Placed stage (.next (arm :: rest))) : Placed stage (.next rest) :=
  ⟨(List.suffix_cons arm rest).trans hp.1, hp.2⟩

theorem Rule.le (hr : Rule srv h now s x k t cs evs) : h.Le k := by
  cases hr with
  | setAddr | watcher => exact ⟨.refl _, .refl _, .refl _, .refl _⟩
  | addrStore => exact h.le_notifyAddr .store
  | listening | bindFailed => exact h.le_notifyAddr .wake
  | shutdownStore => exact h.le_notifyShutdown .store
  | shutdownWake => exact h.le_notifyShutdown .wake
  | _ => exact .refl h

theorem Placed.sync (hp : Placed stage s.pc) (ha : stage.awaits = false)
    (hr : ∀ r, stage ≠ .returned r) : s.pc = .next [] := by
  cases hpc : s.pc with
  | idle =>
    rw [hpc] at hp
    rcases hp with hp | ⟨r, hp⟩
    · rw [hp] at ha
      cases ha
    · exact absurd hp (hr r)
  | next rest =>
    rw [hpc] at hp
    have harms : stage.arms = [] := by simpa [ServeStage.awaits] using ha
    have hrest : rest <:+ [] := harms ▸ hp.1
    rw [List.suffix_nil.mp hrest]
  | inside arm rest =>
    rw [hpc] at hp
    cases hp

theorem WF.ret (hs : s.WF h) (r : Except (IoError E B) Unit) : (s.ret r).WF h :=
  ⟨hs.shutdown, hs.graceful, hs.connEnd, trivial, .inr ⟨r, rfl⟩⟩

theorem WF.dropListener (hs : s.WF h) : s.dropListener.WF h :=
  ⟨hs.shutdown, hs.graceful, hs.connEnd, hs.knows, hs.placed⟩

theorem WF.loop (hs : s.WF h) : s.loop.WF h :=
  ⟨hs.shutdown, trivial, hs.connEnd, trivial, ⟨⟨[.shutdown], rfl⟩,
    by simp [Serve.loop]⟩⟩

theorem WF.enterSelect (hs : s.WF h) : s.enterSelect.WF h :=
  ⟨trivial, trivial, hs.connEnd, trivial, ⟨List.suffix_rfl, by simp [Serve.enterSelect]⟩⟩

theorem WF.await {w : WaitEnd} {arms : List ServeArm} (hs : s.WF h)
    (hk : Knows h (.draining w : ServeStage A E B))
    (harms : arms = (ServeStage.draining w : ServeStage A E B).arms) : (s.await w arms).WF h :=
  ⟨hs.shutdown, hs.graceful, trivial, hk, ⟨harms ▸ List.suffix_rfl, by simp [Serve.await]⟩⟩

/-- Move to a point where no arm is left to poll. -/
theorem WF.goto (hs : s.WF h) (hpc : s.pc = .next []) (hk : Knows h stage)
    (hr : ∀ r, stage ≠ .returned r) : ({ s with stage := stage } : Serve A E B).WF h :=
  ⟨hs.shutdown, hs.graceful, hs.connEnd, hk, by rw [hpc]; exact ⟨List.nil_suffix, hr⟩⟩

theorem WF.resume {arms : List ServeArm} (hs : s.WF h) (hk : Knows h stage)
    (harms : arms <:+ stage.arms) (hr : ∀ r, stage ≠ .returned r) :
    ({ s with stage := stage, pc := .next arms } : Serve A E B).WF h :=
  ⟨hs.shutdown, hs.graceful, hs.connEnd, hk, harms, hr⟩

theorem WF.skip {arm : ServeArm} {rest : List ServeArm} (hs : s.WF h)
    (hpc : s.pc = .next (arm :: rest)) : ({ s with pc := .next rest } : Serve A E B).WF h :=
  ⟨hs.shutdown, hs.graceful, hs.connEnd, hs.knows, (hpc ▸ hs.placed : Placed _ _).tail⟩

theorem Rule.wf (hr : Rule srv h now s x k t cs evs) (hw : h.WF) (hs : s.WF h) :
    k.WF ∧ t.WF k := by
  have hp := hs.placed
  have hk := hs.knows
  have hsm : s.WF k := hs.mono hr.le
  cases hr with
  | poll ha hpc =>
    refine ⟨hw, hs.shutdown, hs.graceful, hs.connEnd, hk, List.suffix_rfl, fun r hf => ?_⟩
    rw [hf] at ha
    cases ha
  | suspend ha hpc => exact ⟨hw, hs.shutdown, hs.graceful, hs.connEnd, hk, .inl ha⟩
  | bindPending rest ha hpc | shutdownPending rest ha hpc | gracefulPending rest ha hpc
  | connEndPending rest ha hpc =>
    exact ⟨hw, hs.skip hpc⟩
  | acceptPending rest hst hpc | readyPending rest addr hst hpc | makePending rest addr hst hpc
  | backoffPending rest deadline hst hpc | sleepPending rest deadline hst hpc =>
    exact ⟨hw, hs.skip hpc⟩
  | bound | bindErr =>
    exact ⟨hw, hs.shutdown, hs.graceful, hs.connEnd, trivial, List.nil_suffix, by simp⟩
  | localAddr addr hst =>
    rw [hst] at hp
    exact ⟨hw, hs.goto (hp.sync rfl (by simp)) trivial (by simp)⟩
  | setAddr addr failed hst =>
    rw [hst] at hp
    exact ⟨⟨hw.addrNotify, hw.shutdown, hw.graceful, hw.connEnd⟩,
      hsm.goto (hp.sync rfl (by simp)) trivial (by simp)⟩
  | addrStore failed hst =>
    rw [hst] at hp
    exact ⟨hw.notifyAddr (p := .store) trivial, hsm.goto (hp.sync rfl (by simp)) rfl (by simp)⟩
  | listening hst =>
    rw [hst] at hk
    exact ⟨hw.notifyAddr (p := .wake) hk, hsm.enterSelect⟩
  | bindFailed e hst =>
    rw [hst] at hk
    exact ⟨hw.notifyAddr (p := .wake) hk, hsm.ret _⟩
  | shutdownBusy rest f ha hpc hf =>
    exact ⟨hw, hs.shutdown.poll hw.shutdown hf, hs.graceful, hs.connEnd, hk, hp⟩
  | gracefulBusy rest f ha hpc hf =>
    exact ⟨hw, hs.shutdown, hs.graceful.poll hw.graceful hf, hs.connEnd, hk, hp⟩
  | connEndBusy rest f ha hpc hf =>
    exact ⟨hw, hs.shutdown, hs.graceful, hs.connEnd.poll hw.connEnd hf, hk, hp⟩
  | shutdownReady | readyErr => exact ⟨hw, hs.dropListener.ret _⟩
  | accepted | ready => exact ⟨hw, hs.resume trivial ⟨[.shutdown], rfl⟩ (by simp)⟩
  | acceptErr rest e hst hpc | backoffElapsed rest deadline hst hpc =>
    rw [hst, hpc] at hp
    exact ⟨hw, hs.shutdown, hs.graceful, hs.connEnd, trivial, hpc ▸ ⟨hp.1, by simp⟩⟩
  | gracefulReady rest ha hpc hf =>
    exact ⟨hw, hs.dropListener.resume (hs.graceful.notified_of_ready hw.graceful hf)
      List.nil_suffix (by simp)⟩
  | made => exact ⟨hw, hs.resume trivial List.nil_suffix (by simp)⟩
  | makeErr => exact ⟨hw, hs.loop⟩
  | watcher addr hst =>
    rw [hst] at hp
    exact ⟨⟨hw.addrNotify, hw.shutdown, hw.graceful, hw.connEnd⟩,
      hsm.goto (hp.sync rfl (by simp)) trivial (by simp)⟩
  | spawn => exact ⟨hw, hs.loop⟩
  | countZero | connEndReady => exact ⟨hw, hs.ret _⟩
  | countPos hst =>
    rw [hst] at hp hk
    exact ⟨hw, hs.goto (hp.sync rfl (by simp)) hk.graceful (by simp)⟩
  | timed duration hst | untimed hst =>
    rw [hst] at hk
    exact ⟨hw, hs.await hk.graceful rfl⟩
  | graceExpired rest deadline hst =>
    rw [hst] at hk
    exact ⟨hw, hs.resume hk.graceful List.nil_suffix (by simp)⟩
  | shutdownStore hst =>
    rw [hst] at hp hk
    exact ⟨hw.notifyShutdown (p := .store) trivial,
      hsm.goto (hp.sync rfl (by simp)) ⟨hk.graceful, rfl⟩ (by simp)⟩
  | shutdownWake hst =>
    rw [hst] at hk
    exact ⟨hw.notifyShutdown (p := .wake) hk.2, hsm.ret _⟩

theorem Rule.spawned (hr : Rule srv h now s x k t cs evs) {c : Conn A E B} (hc : c ∈ cs) :
    ∃ addr, c = { remoteAddr := addr } := by
  cases hr with
  | spawn addr hs => exact ⟨addr, List.mem_singleton.mp hc⟩
  | _ => cases hc

theorem Rule.spawned_wf (hr : Rule srv h now s x k t cs evs) : ∀ c ∈ cs, Conn.WF k c := by
  intro c hc
  obtain ⟨addr, rfl⟩ := hr.spawned hc
  exact Conn.wf_spawned k addr

theorem WF.record (hs : s.WF h) : (s.record now evs).WF h :=
  ⟨hs.shutdown, hs.graceful, hs.connEnd, hs.knows, hs.placed⟩

end

end Serve

/-! ## The whole server -/

namespace State

structure WF (s : State A E B) : Prop where
  handle : s.handle.WF
  serve : s.serve.WF s.handle
  tasks : ∀ c ∈ s.tasks, c.WF s.handle
  callers : ∀ c ∈ s.callers, c.WF s.handle

section
variable {srv : Server A} {P : State A E B → Action A E B → Prop} {s t : State A E B}
  {a : Action A E B} {as : List (Action A E B)}

theorem wf_init : ({} : State A E B).WF :=
  ⟨Handle.wf_new, Serve.wf_new _, by simp, by simp⟩

theorem Rule.le (hr : Rule srv s a t) : s.handle.Le t.handle := by
  cases hr with
  | tick | call | stream => exact .refl _
  | caller i c d k hi hr => exact hr.le
  | serve x k u cs evs hr => exact hr.le
  | task i x c d k evs hi hr => exact hr.le

theorem Rule.wf (hr : Rule srv s a t) (hs : s.WF) : t.WF := by
  have hle := hr.le
  cases hr with
  | tick d => exact ⟨hs.handle, hs.serve, hs.tasks, hs.callers⟩
  | call c =>
    exact ⟨hs.handle, hs.serve, hs.tasks, forall_mem_append hs.callers (fun _ => id)
      (by simpa using c.wf_start s.handle)⟩
  | caller i c d k hi hr =>
    obtain ⟨hk, hd⟩ := hr.wf hs.handle (hs.callers c (List.mem_of_getElem? hi))
    exact ⟨hk, hs.serve.mono hle, fun c hc => (hs.tasks c hc).mono hle,
      forall_mem_set hs.callers (fun _ hc => hc.mono hle) hd⟩
  | serve x k u cs evs hr =>
    obtain ⟨hk, hu⟩ := hr.wf hs.handle hs.serve
    exact ⟨hk, hu.record, forall_mem_append hs.tasks (fun _ hc => hc.mono hle) hr.spawned_wf,
      fun c hc => (hs.callers c hc).mono hle⟩
  | task i x c d k evs hi hr =>
    obtain ⟨hk, hd⟩ := hr.wf hs.handle (hs.tasks c (List.mem_of_getElem? hi))
    exact ⟨hk, hs.serve.mono hle, forall_mem_set hs.tasks (fun _ hc => hc.mono hle) hd.record,
      fun c hc => (hs.callers c hc).mono hle⟩
  | stream i x c d evs hi hr =>
    have hd := hr.wf (hs.tasks c (List.mem_of_getElem? hi))
    exact ⟨hs.handle, hs.serve, forall_mem_set hs.tasks (fun _ => id) hd.record, hs.callers⟩

theorem wf_step (hs : s.WF) (h : s.step srv a = some t) : t.WF := (rule_of_step h).wf hs

theorem ReachableIf.wf (h : ReachableIf srv P s) : s.WF :=
  Interleaving.Reachable.invariant h (fun hs _ move => wf_step hs move) wf_init

theorem Exec.wf (h : Exec srv P s as t) (hs : s.WF) : t.WF :=
  Interleaving.Exec.invariant h (fun hs _ move => wf_step hs move) hs

/-- Latches never go back during a run. -/
theorem Exec.le (h : Exec srv P s as t) : s.handle.Le t.handle := by
  refine Interleaving.Exec.invariant (I := fun u => s.handle.Le u.handle) h ?_ (.refl _)
  intro u a v hu _ move
  exact hu.trans (rule_of_step move).le

theorem GracefulReturned.fired (h : s.GracefulReturned) (hs : s.WF) : s.handle.graceful.Fired := by
  obtain ⟨duration, hc⟩ := h
  exact hs.callers _ hc

end

end State

end AxumServer
