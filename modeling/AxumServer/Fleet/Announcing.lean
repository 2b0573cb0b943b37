import AxumServer.Fleet.System
import AxumServer.Server.Listening

/-! # `listening()` on a shared handle

All servers on a handle write their listening addresses to one cell, and the first of them
to do so opens the latch. A call of `listening()` then answers what was written last before
it read the cell: a server that fails to bind hides the address of the others from the calls
that come after it.
-/

namespace AxumServer

open Interleaving

variable {A E B : Type}

/-- The address that `notify_listening` is about to write. -/
def ServeStage.storesAddr : ServeStage A E B → Option (Option A)
  | .setAddr addr _ => some addr
  | _ => none

/-- What an operation of `serve` has to do with the listening address. -/
structure Serve.Announces (h k : Handle A) (s t : Serve A E B) (x : ServeAnswer A E B) :
    Prop where
  addr : k.addr = s.stage.storesAddr.getD h.addr
  decided : ∀ addr, t.stage.storesAddr = some addr → s.stage.storesAddr = some addr ∨
    Action.bindOutcome (.serve x : Action A E B) = some addr
  stored : ∀ failed, t.stage = .addrStore failed → s.stage.storesAddr.isSome = true
  opened : k.addrNotify.notified = true → h.addrNotify.notified = true ∨
    ∃ failed, s.stage = .addrStore failed
  announced : t.stage.announce = .announced → s.stage.announce = .announced ∨
    k.addrNotify.Fired

section
variable {srv : Server A} {h k : Handle A} {now : Instant} {s t : Serve A E B}
  {x : ServeAnswer A E B} {cs : List (Conn A E B)} {evs : List (ServeEvent A E B)}

theorem ServeStage.storesAddr_of_awaits {stage : ServeStage A E B} (h : stage.awaits = true) :
    stage.storesAddr = none := by
  cases stage <;> first | rfl | cases h

theorem Serve.Announces.quiet (hs : s.stage.storesAddr = none) (ht : t.stage.storesAddr = none)
    (haddr : k.addr = h.addr) (hn : k.addrNotify = h.addrNotify)
    (hstore : ∀ failed, t.stage ≠ .addrStore failed)
    (hann : t.stage.announce = .announced → s.stage.announce = .announced) :
    Serve.Announces h k s t x where
  addr := by rw [hs, haddr, Option.getD_none]
  decided addr hd := by rw [ht] at hd; cases hd
  stored failed hf := absurd hf (hstore failed)
  opened ho := .inl (hn ▸ ho)
  announced ha := .inl (hann ha)

theorem Serve.Rule.announces (hr : Serve.Rule srv h now s x k t cs evs) (hs : s.WF h) :
    Serve.Announces h k s t x := by
  have hp := hs.placed
  have still : s.stage.awaits = true → t.stage = s.stage → k = h →
      Serve.Announces h k s t x := by
    rintro ha hst rfl
    have hnone := ServeStage.storesAddr_of_awaits ha
    refine .quiet hnone (by rw [hst, hnone]) rfl rfl (fun failed hf => ?_) (by rw [hst]; exact id)
    rw [← hst, hf] at ha
    cases ha
  have harm : ∀ {arm : ServeArm} {rest : List ServeArm}, s.pc = .next (arm :: rest) →
      arm ≠ .bind → s.stage.storesAddr = none ∧ s.stage.announce = .announced := by
    intro arm rest hpc hne
    rw [hpc] at hp
    have hann := ServeStage.announce_of_arm hp.1 hne
    refine ⟨?_, hann⟩
    cases hst : s.stage <;> rw [hst] at hann <;> first | rfl | cases hann
  cases hr with
  | poll ha | suspend ha | bindPending _ ha | shutdownBusy _ _ ha | shutdownPending _ ha
  | gracefulBusy _ _ ha | gracefulPending _ ha | connEndBusy _ _ ha | connEndPending _ ha =>
    exact still ha rfl rfl
  | acceptPending _ hst | backoffPending _ _ hst | readyPending _ _ hst | makePending _ _ hst
  | sleepPending _ _ hst =>
    exact still (by rw [hst]; rfl) rfl rfl
  | bound x rest ha hpc hx =>
    exact .quiet (ServeStage.storesAddr_of_awaits ha) rfl rfl rfl (by simp)
      (by simp [ServeStage.announce])
  | bindErr rest e ha hpc =>
    refine ⟨?_, fun addr hd => .inr hd, by simp, .inl, by simp [ServeStage.announce]⟩
    rw [ServeStage.storesAddr_of_awaits ha, Option.getD_none]
  | localAddr addr hst =>
    refine ⟨?_, fun addr hd => .inr hd, by simp, .inl, by simp [ServeStage.announce]⟩
    rw [hst]
    rfl
  | setAddr addr failed hst =>
    refine ⟨?_, by simp [ServeStage.storesAddr], ?_, .inl, by simp [ServeStage.announce]⟩
    · rw [hst]
      rfl
    · rintro _ -
      rw [hst]
      rfl
  | addrStore failed hst =>
    refine ⟨?_, by simp [ServeStage.storesAddr], by simp, fun _ => .inr ⟨failed, hst⟩,
      by simp [ServeStage.announce]⟩
    rw [hst]
    rfl
  | listening hst | bindFailed e hst =>
    have hn : h.addrNotify.notified = true := by
      have hk := hs.knows
      rwa [hst] at hk
    refine ⟨?_, by simp [ServeStage.storesAddr, Serve.enterSelect, Serve.ret],
      by simp [Serve.enterSelect, Serve.ret], fun _ => .inl hn, fun _ => .inr (Nat.succ_pos _)⟩
    rw [hst]
    rfl
  | shutdownReady _ _ hpc | gracefulReady _ _ hpc | connEndReady _ _ hpc | accepted _ _ _ hpc
  | acceptErr _ _ _ hpc | backoffElapsed _ _ _ hpc | ready _ _ _ hpc | readyErr _ _ _ _ hpc
  | made _ _ _ hpc | makeErr _ _ _ _ hpc | graceExpired _ _ _ hpc =>
    obtain ⟨hnone, hann⟩ := harm hpc (by simp)
    exact .quiet hnone rfl rfl rfl
      (by simp [Serve.ret, Serve.dropListener, Serve.loop]) fun _ => hann
  | watcher addr hst | spawn addr hst | countZero hst | countPos hst | timed d hst | untimed hst
  | shutdownStore hst | shutdownWake hst =>
    exact .quiet (by rw [hst]; rfl) rfl rfl rfl
      (by simp [Serve.ret, Serve.loop, Serve.await]) (by simp [hst, ServeStage.announce])

end

namespace Fleet

def storedAddr : Thread A E B → Answer A E B → Option (Option A)
  | .serve _ y, .serve _ => y.stage.storesAddr
  | _, _ => none

def Answer.decides : Answer A E B → Option (Option A)
  | .serve x => AxumServer.Action.bindOutcome (.serve x : AxumServer.Action A E B)
  | _ => none

/-- The addresses that were written in a run, with the threads that wrote them. -/
def announcements (srvs : ℕ → Server A) (as : List (Action A E B)) : List (ℕ × Option A) :=
  (program srvs).journal storedAddr ⟨{}, []⟩ as

def Opening : Thread A E B → Prop
  | .serve _ y => ∃ failed, y.stage = .addrStore failed
  | _ => False

def Storing (v : Option A) : Thread A E B → Prop
  | .serve _ y => y.stage.storesAddr = some v
  | _ => False

section
variable {srvs : ℕ → Server A} {s : State A E B} {as : List (Action A E B)} {i k : ℕ}
  {v : Option A} {m n : Cells A} {t u : Thread A E B} {us : List (Thread A E B)}
  {x : Answer A E B}

/-- Each server writes its address before it opens the latch. -/
theorem addr_publishes (srvs : ℕ → Server A) :
    Publishes (program (E := E) (B := B) srvs) (fun m => m.handle.WF) Thread.WF
      (fun m => m.handle.addr) (fun m => m.handle.addrNotify.notified = true) Opening
      storedAddr where
  outside {m n us e} he := by
    rw [handle_outside he]
    refine ⟨rfl, id, fun u hu => ?_⟩
    rcases started_outside he u hu with ⟨j, rfl⟩ | ⟨c, rfl⟩
    · rintro ⟨failed, hf⟩
      cases hf
    · exact id
  step {m n t u us x} hw ht hstep := by
    have hr := rule_of_step hstep
    have hspawned : ∀ v ∈ us, ¬ Opening v := by
      intro v hv
      obtain ⟨j, c, rfl⟩ := hr.spawned v hv
      exact id
    cases hr with
    | serve j y z x k cs evs hr =>
      have ha := hr.announces ht
      exact ⟨ha.addr, ha.opened, fun ⟨failed, hf⟩ => .inr (ha.stored failed hf), hspawned⟩
    | task j c d x k evs hr =>
      exact ⟨hr.frame.addr, fun hn => .inl (hr.frame.addrNotify ▸ hn), .inl, hspawned⟩
    | caller c d k hr =>
      exact ⟨hr.frame.addr, fun hn => .inl (hr.frame.addrNotify ▸ hn), .inl, hspawned⟩
    | cancelServe | panicServe | cancelCaller =>
      exact ⟨rfl, .inl, fun hu => hu.elim, hspawned⟩
    | panicTask => exact ⟨rfl, .inl, .inl, hspawned⟩
  helper {m t u x} hhelper hu := by
    obtain ⟨j, c, d, y, evs, rfl, rfl, hr, rfl⟩ := stream_of_helper hhelper
    exact hu

/-- The latch opens after the first address was written; then the cell holds the last one. -/
theorem Runs.addr (h : Runs srvs as s) (hn : s.memory.handle.addrNotify.notified = true) :
    ∃ k, (announcements srvs as).getLast? = some (k, s.memory.handle.addr) :=
  (addr_publishes srvs).latest (guarantee srvs) h ⟨Handle.wf_new, by simp⟩ (by simp) (by simp) hn

theorem Runs.decided (h : Runs srvs as s) (hv : (k, v) ∈ announcements srvs as) :
    Did srvs as k fun _ _ _ x => x.decides = some v := by
  obtain ⟨bs, cs, u, t, x, rfl, hexec, hk, hnote⟩ := (Program.mem_journal h).mp hv
  have hstoring : Storing v t := by
    cases t <;> cases x <;> first | exact hnote | cases hnote
  refine Program.Did.append ?_ _
  refine Runs.origin hexec (K := Storing v) (P := fun _ _ x => x.decides = some v) ?_ (fun _ => id)
    (fun _ _ => id) ?_ (fun _ => id) hk hstoring
  · intro j hs
    cases hs
  · intro m n t u us x hw ht hr hu
    cases hr with
    | serve j y z x k cs evs hr => exact (hr.announces ht).decided v hu
    | _ => cases hu

theorem Runs.listened (h : Runs srvs as s) (hi : s.pool[i]? = some (.caller (.listened v))) :
    Did srvs as i fun _ u t _ => t = .caller .listeningAddr ∧ u.memory.handle.addr = v := by
  refine h.origin (K := fun t => t = .caller (.listened v))
    (P := fun m t _ => t = .caller .listeningAddr ∧ m.handle.addr = v) (by simp) ?_ (by simp) ?_
    (by simp) hi rfl
  · intro c
    cases c <;> simp [Call.start]
  · intro m n t u us x hw ht hr hu
    cases hr with
    | caller c d k hr =>
      obtain rfl := Thread.caller.inj hu
      cases hr
      exact .inr ⟨rfl, rfl⟩
    | _ => cases hu

/-! ## Answers -/

def Announced (m : Cells A) : Thread A E B → Prop
  | .serve _ y => y.stage.announce = .announced → m.handle.addrNotify.Fired
  | _ => True

theorem announced_assertion (srvs : ℕ → Server A) :
    Assertion (program (E := E) (B := B) srvs) Cells.Le (fun m => m.handle.WF) Thread.WF
      Announced where
  mono {m n t} hle ht := by
    cases t with
    | serve j y => exact fun ha => (ht ha).mono hle.handle.addrNotify
    | _ => trivial
  step hw ht hstep hJ := by
    cases rule_of_step hstep with
    | serve j y z x k cs evs hr =>
      intro ha
      rcases (hr.announces ht).announced ha with hs | hf
      · exact (hJ hs).mono hr.le.addrNotify
      · exact hf
    | _ => trivial
  helper {m t u x} hw ht hhelper hJ := by
    obtain ⟨j, c, d, y, evs, rfl, rfl, hr, rfl⟩ := stream_of_helper hhelper
    trivial

theorem Runs.fired (h : Runs srvs as s) : ∀ t ∈ s.pool, Announced s.memory t := by
  refine (announced_assertion srvs).forall_threads (guarantee srvs) ?_ ?_ h
    ⟨Handle.wf_new, by simp⟩ (by simp)
  · intro m n us e hw he u hu
    rcases started_outside he u hu with ⟨j, rfl⟩ | ⟨c, rfl⟩
    · intro ha
      cases ha
    · trivial
  · intro m n t u us x hw ht hstep v hv
    obtain ⟨j, c, rfl⟩ := (rule_of_step hstep).spawned v hv
    trivial

/-- A call of `listening()` behind an open latch, unless its owner has dropped it. -/
def Listens (m : Cells A) : Thread A E B → Prop
  | .caller c => c.listens = true ∧ m.handle.addrNotify.Fired
  | .dropped => True
  | _ => False

def Thread.listenFuel : Thread A E B → ℕ
  | .caller c => c.left + 1
  | _ => 0

theorem listens_assertion (srvs : ℕ → Server A) :
    Assertion (program (E := E) (B := B) srvs) Cells.Le (fun m => m.handle.WF) Thread.WF
      Listens where
  mono {m n t} hle ht := by
    cases t with
    | caller c => exact ⟨ht.1, ht.2.mono hle.handle.addrNotify⟩
    | _ => exact ht
  step hw ht hstep hJ := by
    cases rule_of_step hstep with
    | caller c d k hr =>
      obtain ⟨hl, hf⟩ := hJ
      exact ⟨(hr.left_lt hl (Caller.WF.resolves ht hw hf)).1, hf.mono hr.le.addrNotify⟩
    | cancelCaller => trivial
    | serve | cancelServe | panicServe | task | panicTask => cases hJ
  helper {m t u x} hw ht hhelper hJ := by
    obtain ⟨j, c, d, y, evs, rfl, rfl, hr, rfl⟩ := stream_of_helper hhelper
    exact hJ

/-- What is left of the call `c` of `listening()`, which is thread `i`: unless its owner
drops it, it returns after the operations it has left, without waiting for anyone. -/
structure AnswersNow (srvs : ℕ → Server A) (s : State A E B) (i : ℕ) (c : Caller A) :
    Prop where
  bounded : ∀ {as t}, Exec srvs s as t → as.countP (Move.isThread i) ≤ c.left + 1
  run : ∀ {as t}, Exec srvs s as t → t.pool[i]? = some .dropped ∨
    ∃ d, t.pool[i]? = some (.caller d) ∧ d.listens = true ∧
      ((∃ v, d = .listened v) ∨ ∃ u, (program srvs).next t (.thread i .caller) = some u)

theorem answersNow_of_fired {c : Caller A} (hs : Sound s)
    (hf : s.memory.handle.addrNotify.Fired) (hi : s.pool[i]? = some (.caller c))
    (hl : c.listens = true) : AnswersNow srvs s i c where
  bounded {as t} h := by
    suffices as.countP (Move.isThread i) ≤ (Thread.caller (E := E) (B := B) c).listenFuel
      from this
    refine (listens_assertion srvs).countP_le (guarantee srvs) ?_ ?_ h hs hi ⟨hl, hf⟩
    · intro m n t u us x hw ht hJ hstep
      cases rule_of_step hstep with
      | caller c d k hr =>
        exact Nat.succ_lt_succ (hr.left_lt hJ.1 (Caller.WF.resolves ht hw hJ.2)).2
      | cancelCaller => exact Nat.succ_pos _
      | serve | cancelServe | panicServe | task | panicTask => cases hJ
    · intro m t u x hhelper
      obtain ⟨j, c, d, y, evs, rfl, rfl, hr, rfl⟩ := stream_of_helper hhelper
      rfl
  run {as t} h := by
    obtain ⟨u, hu, hJ⟩ := (listens_assertion srvs).exec (guarantee srvs) h hs hi ⟨hl, hf⟩
    cases u with
    | dropped => exact .inl hu
    | caller d =>
      refine .inr ⟨d, hu, hJ.1, ?_⟩
      exact (Caller.listened_or_step t.memory.handle hJ.1).imp_right fun ⟨k, d', hstep⟩ =>
        ⟨_, next_caller hu hstep⟩
    | serve | task => cases hJ

/-- The operation of a call that reads the address `v`: it is what was written last, by a
server whose attempt to listen had come to just that. -/
def ReadsLast (srvs : ℕ → Server A) (v : Option A) (bs : List (Action A E B))
    (_ : State A E B) (t : Thread A E B) (_ : Answer A E B) : Prop :=
  t = .caller .listeningAddr ∧ ∃ k, (announcements srvs bs).getLast? = some (k, v) ∧
    Did srvs bs k fun _ _ _ x => x.decides = some v

/-- On a shared handle a call of `listening()` answers the address that was written last
before it read the cell; and from the moment on that one server has announced its address
every call answers when it is polled. -/
theorem listening_latest (h : Runs srvs as s) :
    (∀ i v, s.pool[i]? = some (.caller (.listened v)) → Did srvs as i (ReadsLast srvs v)) ∧
    ((∃ j y, .serve j y ∈ s.pool ∧ y.stage.announce = .announced) →
      ∀ i c, s.pool[i]? = some (.caller c) → c.listens = true → AnswersNow srvs s i c) := by
  constructor
  · intro i v hi
    refine h.listened hi |>.imp ?_
    rintro bs u t - hexec hu ⟨rfl, rfl⟩
    have hn : u.memory.handle.addrNotify.notified = true :=
      (Runs.sound hexec).thread hu
    obtain ⟨k, hk⟩ := Runs.addr hexec hn
    exact ⟨rfl, k, hk, Runs.decided hexec (List.mem_of_getLast? hk)⟩
  · rintro ⟨j, y, hy, hann⟩ i c hi hl
    exact answersNow_of_fired h.sound (h.fired _ hy hann) hi hl

end

def mixed (j : ℕ) : Server ℕ := if j = 0 then .fromListener else .bind 0

/-- Server 0 listens, and a first call is made; then server 1 fails to bind, and a second. -/
def hiddenSchedule : List (Action ℕ Unit Unit) :=
  [Move.outside (.start 0), .outside (.start 1)] ++
    (AxumServer.Action.listen (some 5) ++ AxumServer.Action.callNow 2 .listening 3).map
      (place 0 id id) ++
    ([AxumServer.Action.serve .go, .serve (.bindErr (.raw ()))] ++
      List.replicate 3 (AxumServer.Action.serve .go) ++
      AxumServer.Action.callNow 3 .listening 3).map (place 1 id id)

/-- The second call answers `None`, although server 0 listens. -/
theorem listening_latest_hidden :
    Did mixed hiddenSchedule 2 (ReadsLast mixed (some 5)) ∧
      Did mixed hiddenSchedule 3 (ReadsLast mixed none) :=
  have hrun : Runs mixed hiddenSchedule (after mixed hiddenSchedule) :=
    exec_of_runIf (by decide)
  ⟨(listening_latest hrun).1 2 (some 5) (by decide), (listening_latest hrun).1 3 none (by decide)⟩

end Fleet

end AxumServer
