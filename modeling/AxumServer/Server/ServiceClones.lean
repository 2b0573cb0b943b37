import AxumServer.Interleaving.SharedMemory
import AxumServer.Interleaving.Simulation
import AxumServer.Server.FirstRequest

/-! # The clones of one service

A `FirstRequestService` is cloned for the requests of its connection, and the clones are
called and dropped by whichever tasks own them. With a first request timeout they share
the sender of its signal behind an `Arc` and a `Mutex`; without one they share nothing.
Here each operation on what they share is a step of its own.
-/

namespace AxumServer

open Interleaving

variable {A E B R : Type}

namespace FirstRequestService

/-- `Arc<Mutex<Option<oneshot::Sender<()>>>>` and its channel. -/
structure Shared where
  /-- The strong count of the `Arc`. -/
  strong : ℕ := 1
  locked : Bool := false
  /-- The mutex holds `Some(tx)`. -/
  sender : Bool := true
  channel : Oneshot := .empty
  deriving DecidableEq, Repr

/-- Where a clone stands, with the request it is called with. -/
inductive Place (R : Type) where
  | idle
  /-- In `call`, before `lock()`. -/
  | locking (req : R)
  /-- Under the lock, before `take()`. -/
  | taking (req : R)
  /-- Under the lock, which the guard keeps until the sender is used. -/
  | sending (req : R)
  | unlocking (req : R)
  /-- Before the call of the inner service. -/
  | calling (req : R)
  /-- Being dropped, before its `Arc` is. -/
  | dropping
  /-- It had the last `Arc`, and the content of the mutex is dropped. -/
  | freeing
  | dropped
  deriving DecidableEq, Repr

def Place.request : Place R → Option R
  | .locking req => some req
  | .taking req => some req
  | .sending req => some req
  | .unlocking req => some req
  | .calling req => some req
  | _ => none

/-- A clone of the service, with the requests it was given and those it passed on. -/
structure Clone (R : Type) where
  place : Place R := .idle
  given : List R := []
  passed : List R := []
  deriving DecidableEq, Repr

inductive Op (R : Type) where
  | call (req : R)
  | clone
  | drop
  /-- The next operation of the call or the drop that is in progress. -/
  | go
  deriving DecidableEq, Repr

abbrev Pool (R : Type) := Threads Shared (Clone R)

def step (m : Shared) (c : Clone R) (x : Op R) : Option (Shared × Clone R × List (Clone R)) :=
  match c.place, x with
  | .idle, .call req => some (m, { c with place := .locking req, given := c.given ++ [req] }, [])
  | .idle, .clone => some ({ m with strong := m.strong + 1 }, c, [{}])
  | .idle, .drop => some (m, { c with place := .dropping }, [])
  | .locking req, .go =>
    if m.locked then none
    else some ({ m with locked := true }, { c with place := .taking req }, [])
  | .taking req, .go =>
    if m.sender then some ({ m with sender := false }, { c with place := .sending req }, [])
    else some (m, { c with place := .unlocking req }, [])
  | .sending req, .go => some ({ m with channel := .sent }, { c with place := .unlocking req }, [])
  | .unlocking req, .go => some ({ m with locked := false }, { c with place := .calling req }, [])
  | .calling req, .go => some (m, { c with place := .idle, passed := c.passed ++ [req] }, [])
  | .dropping, .go =>
    some ({ m with strong := m.strong - 1 },
      { c with place := if m.strong - 1 = 0 then .freeing else .dropped }, [])
  | .freeing, .go =>
    some ({ m with sender := false, channel := if m.sender then .closed else m.channel },
      { c with place := .dropped }, [])
  | _, _ => none

def program (R : Type) : Program Shared (Clone R) Empty (Op R) where
  outside e := e.elim
  step := step
  helper _ _ _ := none

inductive Rule (m : Shared) (c : Clone R) : Op R → Shared → Clone R → List (Clone R) → Prop
  | call (req : R) (hc : c.place = .idle) :
    Rule m c (.call req) m { c with place := .locking req, given := c.given ++ [req] } []
  | clone (hc : c.place = .idle) : Rule m c .clone { m with strong := m.strong + 1 } c [{}]
  | drop (hc : c.place = .idle) : Rule m c .drop m { c with place := .dropping } []
  | lock (req : R) (hc : c.place = .locking req) (hl : m.locked = false) :
    Rule m c .go { m with locked := true } { c with place := .taking req } []
  | take (req : R) (hc : c.place = .taking req) (hs : m.sender = true) :
    Rule m c .go { m with sender := false } { c with place := .sending req } []
  | taken (req : R) (hc : c.place = .taking req) (hs : m.sender = false) :
    Rule m c .go m { c with place := .unlocking req } []
  | send (req : R) (hc : c.place = .sending req) :
    Rule m c .go { m with channel := .sent } { c with place := .unlocking req } []
  | unlock (req : R) (hc : c.place = .unlocking req) :
    Rule m c .go { m with locked := false } { c with place := .calling req } []
  | pass (req : R) (hc : c.place = .calling req) :
    Rule m c .go m { c with place := .idle, passed := c.passed ++ [req] } []
  | release (hc : c.place = .dropping) (hm : m.strong - 1 ≠ 0) :
    Rule m c .go { m with strong := m.strong - 1 } { c with place := .dropped } []
  | releaseLast (hc : c.place = .dropping) (hm : m.strong - 1 = 0) :
    Rule m c .go { m with strong := m.strong - 1 } { c with place := .freeing } []
  | free (hc : c.place = .freeing) :
    Rule m c .go { m with sender := false, channel := if m.sender then .closed else m.channel }
      { c with place := .dropped } []

theorem rule_of_step {m n : Shared} {c d : Clone R} {ds : List (Clone R)} {x : Op R}
    (h : step m c x = some (n, d, ds)) : Rule m c x n d ds := by
  unfold step at h
  split at h
  case h_4 req hc =>
    split_ifs at h with hl
    obtain ⟨rfl, rfl, rfl⟩ := by simpa only [Option.some.injEq, Prod.mk.injEq] using h
    exact .lock req hc (by simpa using hl)
  case h_5 req hc =>
    split_ifs at h with hs <;>
      obtain ⟨rfl, rfl, rfl⟩ := by simpa only [Option.some.injEq, Prod.mk.injEq] using h
    · exact .take req hc hs
    · exact .taken req hc (by simpa using hs)
  case h_9 hc =>
    obtain ⟨rfl, rfl, rfl⟩ := by simpa only [Option.some.injEq, Prod.mk.injEq] using h
    split_ifs with hm
    · exact .releaseLast hc hm
    · exact .release hc hm
  case h_11 => cases h
  all_goals
    rename_i hc
    obtain ⟨rfl, rfl, rfl⟩ := by simpa only [Option.some.injEq, Prod.mk.injEq] using h
  · exact .call _ hc
  · exact .clone hc
  · exact .drop hc
  · exact .send _ hc
  · exact .unlock _ hc
  · exact .pass _ hc
  · exact .free hc

abbrev Exec := (program R).Exec

def Reachable (s : Pool R) : Prop :=
  Interleaving.Reachable (program R).next Always ⟨{}, [{}]⟩ s

/-! ## What the clones rely on -/

/-- The sender does not come back, and a sent signal stays. -/
structure Shared.Le (m n : Shared) : Prop where
  sender : m.sender = false → n.sender = false
  channel : m.channel = .sent → n.channel = .sent

def Shared.WF (m : Shared) : Prop := m.sender = true → m.channel = .empty

structure Clone.WF (m : Shared) (c : Clone R) : Prop where
  requests : c.given = c.passed ++ c.place.request.toList
  sending : ∀ req, c.place = .sending req → m.sender = false

theorem guarantee (R : Type) : Guarantee (program R) Shared.Le Shared.WF Clone.WF where
  refl m := ⟨id, id⟩
  trans h g := ⟨g.sender ∘ h.sender, g.channel ∘ h.channel⟩
  mono hle hc := ⟨hc.requests, fun req hreq => hle.sender (hc.sending req hreq)⟩
  outside {_ _ _ e} := e.elim
  helper _ _ h := by cases h
  step {m n c d ds x} hm hc hstep := by
    have hreq := hc.requests
    have hnew : Clone.WF n ({} : Clone R) := ⟨rfl, by simp⟩
    cases rule_of_step hstep with
    | call req hidle => exact ⟨⟨id, id⟩, hm, ⟨by simp_all [Place.request], by simp⟩, by simp⟩
    | clone hidle => exact ⟨⟨id, id⟩, hm, ⟨hreq, by simp [hidle]⟩, by simpa using hnew⟩
    | drop hidle => exact ⟨⟨id, id⟩, hm, ⟨by simp_all [Place.request], by simp⟩, by simp⟩
    | lock req hp | unlock req hp | release hp | releaseLast hp =>
      exact ⟨⟨id, id⟩, hm, ⟨by simp_all [Place.request], by simp⟩, by simp⟩
    | take req hp hs =>
      exact ⟨⟨fun _ => rfl, id⟩, by simp [Shared.WF], ⟨by simp_all [Place.request], by simp⟩,
        by simp⟩
    | taken req hp hs => exact ⟨⟨id, id⟩, hm, ⟨by simp_all [Place.request], by simp⟩, by simp⟩
    | send req hp =>
      have hsender := hc.sending req hp
      exact ⟨⟨id, fun _ => rfl⟩, by simp [Shared.WF, hsender],
        ⟨by simp_all [Place.request], by simp⟩, by simp⟩
    | pass req hp => exact ⟨⟨id, id⟩, hm, ⟨by simp_all [Place.request], by simp⟩, by simp⟩
    | free hp =>
      refine ⟨⟨fun _ => rfl, fun hsent => ?_⟩, by simp [Shared.WF],
        ⟨by simp_all [Place.request], by simp⟩, by simp⟩
      by_cases hs : m.sender = true
      · simp [hm hs] at hsent
      · simp [hs, hsent]

abbrev Sound (s : Pool R) : Prop := s.Sound Shared.WF Clone.WF

theorem sound_init : Sound (⟨{}, [{}]⟩ : Pool R) := by
  refine ⟨fun _ => rfl, fun c hc => ?_⟩
  obtain rfl := List.mem_singleton.mp hc
  exact ⟨rfl, by simp⟩

/-! ## What they hold -/

def Clone.inside (c : Clone R) : Bool :=
  match c.place with
  | .taking _ => true
  | .sending _ => true
  | .unlocking _ => true
  | _ => false

def Clone.owns (c : Clone R) : Bool :=
  match c.place with
  | .freeing => false
  | .dropped => false
  | _ => true

/-- The clone has taken the sender and not used it yet. -/
def Clone.inHand (c : Clone R) : Bool :=
  match c.place with
  | .sending _ => true
  | _ => false

/-- The sender is neither in the mutex nor used. -/
def Shared.away (m : Shared) : Bool := !m.sender && decide (m.channel = .empty)

theorem counts_locked (R : Type) : Counts (program R) Shared.WF (fun m => m.locked.toNat)
    fun c => c.inside.toNat where
  outside {_ _ _ e} := e.elim
  helper h := by cases h
  step {m n c d ds x} _ hle hstep := by
    have hone := Bool.toNat_le m.locked
    cases rule_of_step hstep with
    | unlock req hp =>
      simp only [Clone.inside, hp] at hle ⊢
      simp only [Bool.toNat_true] at hle
      simp [Nat.le_antisymm hone hle]
    | _ => simp_all [Clone.inside]

theorem counts_strong (R : Type) : Counts (program R) Shared.WF Shared.strong
    fun c => c.owns.toNat where
  outside {_ _ _ e} := e.elim
  helper h := by cases h
  step {m n c d ds x} _ hle hstep := by
    cases rule_of_step hstep with
    | release hp | releaseLast hp =>
      simp only [Clone.owns, hp, Bool.toNat_true] at hle
      simp [Clone.owns, hp]
      omega
    | _ => simp_all [Clone.owns]

theorem counts_away (R : Type) : Counts (program R) Shared.WF (fun m => m.away.toNat)
    fun c => c.inHand.toNat where
  outside {_ _ _ e} := e.elim
  helper h := by cases h
  step {m n c d ds x} hm hle hstep := by
    have hone := Bool.toNat_le m.away
    cases rule_of_step hstep with
    | send req hp =>
      simp only [Clone.inHand, hp, Bool.toNat_true] at hle
      have hsent : ({ m with channel := .sent } : Shared).away = false := by simp [Shared.away]
      simp [Clone.inHand, hp, hsent, Nat.le_antisymm hone hle]
    | free hp =>
      by_cases hs : m.sender = true <;> simp_all [Clone.inHand, Shared.away, Shared.WF]
    | _ => simp_all [Clone.inHand, Shared.away, Shared.WF]

/-- The mutex, the `Arc` and the sender are where the clones say they are. -/
structure Exact (s : Pool R) : Prop where
  sound : Sound s
  locked : s.memory.locked.toNat = s.total fun c => c.inside.toNat
  strong : s.memory.strong = s.total fun c => c.owns.toNat
  away : s.memory.away.toNat = s.total fun c => c.inHand.toNat

theorem exact_init : Exact (⟨{}, [{}]⟩ : Pool R) := ⟨sound_init, rfl, rfl, rfl⟩

section Invariants
variable {s s' : Pool R} {as : List (Move Empty (Op R))} {a : Move Empty (Op R)} {c d : Clone R}
  {i : ℕ}

theorem Exact.exec (hs : Exact s) (h : Exec s as s') : Exact s' where
  sound := (guarantee R).sound h hs.sound
  locked := (counts_locked R).exact (guarantee R) h hs.sound hs.locked
  strong := (counts_strong R).exact (guarantee R) h hs.sound hs.strong
  away := (counts_away R).exact (guarantee R) h hs.sound hs.away

theorem Reachable.exact (h : Reachable s) : Exact s := by
  obtain ⟨as, h⟩ := h
  exact exact_init.exec h

theorem Exact.inside_unique (hs : Exact s) (hc : c ∈ s.pool) (hd : d ∈ s.pool)
    (hci : c.inside = true) (hdi : d.inside = true) : c = d := by
  by_contra hne
  have hle := Threads.add_le_total (fun c : Clone R => c.inside.toNat) hc hd hne
  have hone := Bool.toNat_le s.memory.locked
  rw [hs.locked] at hone
  simp only [hci, hdi, Bool.toNat_true] at hle
  omega

theorem Exact.strong_pos (hs : Exact s) (hc : c ∈ s.pool) (ho : c.owns = true) :
    0 < s.memory.strong := by
  have hle := Threads.le_total (fun c : Clone R => c.owns.toNat) hc
  rw [← hs.strong, ho] at hle
  exact hle

theorem Exact.exists_inHand (hs : Exact s) (ha : s.memory.away = true) :
    ∃ c ∈ s.pool, c.inHand = true :=
  Threads.exists_of_total_pos _ (by rw [← hs.away, ha]; exact Nat.one_pos)

theorem Exact.exists_inside (hs : Exact s) (hl : s.memory.locked = true) :
    ∃ c ∈ s.pool, c.inside = true :=
  Threads.exists_of_total_pos _ (by rw [← hs.locked, hl]; exact Nat.one_pos)

theorem Exact.exists_owner (hs : Exact s) (hpos : 0 < s.memory.strong) :
    ∃ c ∈ s.pool, c.owns = true :=
  Threads.exists_of_total_pos _ (hs.strong ▸ hpos)

theorem Clone.inside_of_inHand (h : c.inHand = true) : c.inside = true := by
  unfold Clone.inHand at h
  unfold Clone.inside
  split at h
  next hp => rw [hp]
  next => cases h

/-- The clone is past its turn under the lock, or was in an earlier call. -/
def Clone.signalled (c : Clone R) : Bool :=
  match c.place with
  | .unlocking _ => true
  | .calling _ => true
  | _ => !c.passed.isEmpty

/-- What the signal says about the clones. -/
structure Told (s : Pool R) : Prop where
  signalled : ∀ c ∈ s.pool, c.signalled = true → s.memory.channel = .sent
  sent : s.memory.channel = .sent → ∃ c ∈ s.pool, c.given ≠ []
  freeing : ∀ c ∈ s.pool, c.place = .freeing → s.memory.strong = 0
  closed : s.memory.channel = .closed → s.memory.strong = 0
  held : s.memory.sender = true → 0 < s.memory.strong ∨ ∃ c ∈ s.pool, c.place = .freeing

theorem told_init : Told (⟨{}, [{}]⟩ : Pool R) :=
  ⟨by simp [Clone.signalled], by simp, by simp, by simp, by simp⟩

theorem Told.sent_of_taken {req : R} (hs : Told s) (hx : Exact s) (hc : c ∈ s.pool)
    (hp : c.place = .taking req) (hsender : s.memory.sender = false) :
    s.memory.channel = .sent := by
  cases hch : s.memory.channel with
  | sent => rfl
  | closed =>
    have hpos := hx.strong_pos hc (by simp [Clone.owns, hp])
    rw [hs.closed hch] at hpos
    cases hpos
  | empty =>
    obtain ⟨d, hd, hhand⟩ := hx.exists_inHand (by simp [Shared.away, hsender, hch])
    obtain rfl := hx.inside_unique hc hd (by simp [Clone.inside, hp])
      (Clone.inside_of_inHand hhand)
    simp [Clone.inHand, hp] at hhand

section Rules
variable {m n : Shared} {ds : List (Clone R)} {x : Op R}

theorem Rule.spawned (hr : Rule m c x n d ds) : ∀ e ∈ ds, e = {} := by
  cases hr <;> simp

theorem Rule.signalled (hr : Rule m c x n d ds) (hle : m.Le n)
    (hc : c.signalled = true → m.channel = .sent)
    (htaken : ∀ req, c.place = .taking req → m.sender = false → m.channel = .sent)
    (hd : d.signalled = true) : n.channel = .sent := by
  cases hr with
  | taken req hp hs => exact htaken req hp hs
  | send => rfl
  | unlock _ hp | pass _ hp => exact hc (by simp [Clone.signalled, hp])
  | clone => exact hc hd
  | call _ hp | drop hp | lock _ hp | take _ hp | release hp | releaseLast hp | free hp =>
    exact hle.channel (hc (by simpa [Clone.signalled, hp] using hd))

theorem Rule.sent (hr : Rule m c x n d ds) (hc : c.WF m) (hn : n.channel = .sent) :
    m.channel = .sent ∨ d.given ≠ [] := by
  cases hr with
  | send req hp => exact .inr (by simp [hc.requests, hp, Place.request])
  | free hp =>
    split_ifs at hn
    exact .inl hn
  | _ => exact .inl hn

theorem Rule.given (hr : Rule m c x n d ds) (hc : c.given ≠ []) : d.given ≠ [] := by
  cases hr with
  | call => simp
  | _ => exact hc

/-- When the last `Arc` is gone, only the content of the mutex is left to drop. -/
theorem Rule.freed (hr : Rule m c x n d ds) (hown : c.owns = true → 0 < m.strong)
    (h0 : m.strong = 0) : n.strong = 0 ∧ d.place = .dropped ∧ ds = [] := by
  cases hr with
  | free hp => exact ⟨h0, rfl, rfl⟩
  | call _ hp | clone hp | drop hp | lock _ hp | take _ hp | taken _ hp | send _ hp | unlock _ hp
  | pass _ hp | release hp | releaseLast hp =>
    have hpos := hown (by simp [Clone.owns, hp])
    omega

theorem Rule.closed (hr : Rule m c x n d ds) (hn : n.channel = .closed) :
    m.channel = .closed ∨ c.place = .freeing := by
  cases hr with
  | free hp => exact .inr hp
  | send => cases hn
  | _ => exact .inl hn

theorem Rule.last (hr : Rule m c x n d ds) (hd : d.place = .freeing) : n.strong = 0 := by
  cases hr with
  | releaseLast hp hm => exact hm
  | clone hp => simp [hp] at hd
  | _ => cases hd

theorem Rule.held (hr : Rule m c x n d ds) (hn : n.sender = true) :
    m.sender = true ∧ c.place ≠ .freeing ∧
      (0 < m.strong → 0 < n.strong ∨ d.place = .freeing) := by
  cases hr with
  | take | free => cases hn
  | release hp hm => exact ⟨hn, by simp [hp], fun _ => .inl (Nat.pos_of_ne_zero hm)⟩
  | releaseLast hp => exact ⟨hn, by simp [hp], fun _ => .inr rfl⟩
  | clone hp => exact ⟨hn, by simp [hp], fun _ => .inl (Nat.succ_pos _)⟩
  | call _ hp | drop hp | lock _ hp | taken _ hp | send _ hp | unlock _ hp | pass _ hp =>
    exact ⟨hn, by simp [hp], .inl⟩

end Rules

theorem Told.step (hs : Told s) (hx : Exact s) (hr : (program R).Rule s a s') : Told s' := by
  cases hr with
  | outside e => exact e.elim
  | helper _ _ _ _ _ h => cases h
  | thread i x c d m ds hi hstep =>
    have hc := List.mem_of_getElem? hi
    have hd : d ∈ s.pool.set i d ++ ds :=
      List.mem_append_left _ (List.mem_set (List.getElem?_eq_some_iff.mp hi).1 d)
    have hle := ((guarantee R).step hx.sound.memory (hx.sound.thread hi) hstep).1
    have hr := rule_of_step hstep
    have hfreed := hr.freed (hx.strong_pos hc)
    refine ⟨?_, fun hsent => ?_, ?_, fun hclosed => ?_, fun hsender => ?_⟩
    · have hsd := hr.signalled hle (hs.signalled c hc)
        fun req hp hsender => hs.sent_of_taken hx hc hp hsender
      refine forall_mem_append (forall_mem_set hs.signalled (fun e he hsig => ?_) hsd)
        (fun _ => id) fun e he hsig => ?_
      · exact hle.channel (he hsig)
      · simp [hr.spawned e he, Clone.signalled] at hsig
    · rcases hr.sent (hx.sound.thread hi) hsent with hold | hgiven
      · obtain ⟨e, he, hge⟩ : ∃ e ∈ s.pool.set i d, e.given ≠ [] :=
          exists_mem_set (hs.sent hold) hi (fun _ => id) hr.given
        exact ⟨e, List.mem_append_left _ he, hge⟩
      · exact ⟨d, hd, hgiven⟩
    · refine forall_mem_append (forall_mem_set hs.freeing (fun e he hp => ?_) hr.last)
        (fun _ => id) fun e he hp => ?_
      · exact (hfreed (he hp)).1
      · simp [hr.spawned e he] at hp
    · rcases hr.closed hclosed with hold | hp
      · exact (hfreed (hs.closed hold)).1
      · exact (hfreed (hs.freeing c hc hp)).1
    · obtain ⟨hold, hnot, hpos⟩ := hr.held hsender
      rcases hs.held hold with h | ⟨e, he, hp⟩
      · exact (hpos h).imp_right fun hp => ⟨d, hd, hp⟩
      · obtain ⟨e, he, hp⟩ : ∃ e ∈ s.pool.set i d, e.place = .freeing :=
          exists_mem_set ⟨e, he, hp⟩ hi (fun _ => id) fun hp => absurd hp hnot
        exact .inr ⟨e, List.mem_append_left _ he, hp⟩

theorem Reachable.told (h : Reachable s) : Told s :=
  Interleaving.Reachable.invariant_under (J := Exact) h
    (fun hx _ move => hx.exec (.cons trivial move (.nil _))) exact_init
    (fun hx hs _ move => hs.step hx (Program.rule_of_next move)) told_init

/-- A clone that is not idle can make its next operation, unless it waits for the lock. -/
theorem exists_step (m : Shared) (hi : c.place ≠ .idle) (hd : c.place ≠ .dropped)
    (hl : ∀ req, c.place = .locking req → m.locked = false) :
    ∃ n d ds, step m c .go = some (n, d, ds) := by
  cases hp : c.place with
  | idle => exact absurd hp hi
  | dropped => exact absurd hp hd
  | locking req => simp [step, hp, hl req hp]
  | taking req => cases hs : m.sender <;> simp [step, hp, hs]
  | sending | unlocking | calling | dropping | freeing => simp [step, hp]

def CanGo (s : Pool R) (i : ℕ) : Prop := ∃ t, (program R).next s (.thread i .go) = some t

theorem canGo (hc : s.pool[i]? = some c) (hi : c.place ≠ .idle) (hd : c.place ≠ .dropped)
    (hl : ∀ req, c.place = .locking req → s.memory.locked = false) : CanGo s i := by
  obtain ⟨n, d, ds, hstep⟩ := exists_step s.memory hi hd hl
  exact ⟨_, Program.next_thread hc hstep⟩

theorem canGo_of_inside (hc : s.pool[i]? = some c) (hin : c.inside = true) : CanGo s i := by
  unfold Clone.inside at hin
  split at hin
  case h_4 => cases hin
  all_goals
    next hp => exact canGo hc (by simp [hp]) (by simp [hp]) (by simp [hp])

/-- A clone that cannot go on waits for the lock, and the one that has it can. -/
theorem Exact.canGo_or_waits (hs : Exact s) (hc : s.pool[i]? = some c) (hi : c.place ≠ .idle)
    (hd : c.place ≠ .dropped) : CanGo s i ∨ (∃ req, c.place = .locking req) ∧
      ∃ j e, s.pool[j]? = some e ∧ e.inside = true ∧ CanGo s j := by
  cases hl : s.memory.locked with
  | false => exact .inl (canGo hc hi hd fun _ _ => hl)
  | true =>
    by_cases hp : ∃ req, c.place = .locking req
    · obtain ⟨e, he, hin⟩ := hs.exists_inside hl
      obtain ⟨j, hj⟩ := List.mem_iff_getElem?.mp he
      exact .inr ⟨hp, j, e, hj, hin, canGo_of_inside hj hin⟩
    · exact .inl (canGo hc hi hd fun req h => absurd ⟨req, h⟩ hp)

/-- However the calls and the drops of the clones interleave: a request is passed on once,
and not before the signal was sent; the signal was sent only if there was a call, and its
channel is closed only if there was none; once all clones are gone it is one or the other;
and a clone in a call or a drop can go on, or waits for the lock of one that can. -/
theorem first_call_signals (hr : Reachable s) :
    (∀ c ∈ s.pool, c.given = c.passed ++ c.place.request.toList) ∧
    (∀ c ∈ s.pool, c.passed ≠ [] → s.memory.channel = .sent) ∧
    (s.memory.channel = .sent → ∃ c ∈ s.pool, c.given ≠ []) ∧
    (s.memory.channel = .closed → ∀ c ∈ s.pool, c.given = []) ∧
    ((∀ c ∈ s.pool, c.place = .dropped) → s.memory.channel ≠ .empty) ∧
    ∀ i c, s.pool[i]? = some c → c.place ≠ .idle → c.place ≠ .dropped →
      CanGo s i ∨ (∃ req, c.place = .locking req) ∧
        ∃ j e, s.pool[j]? = some e ∧ e.inside = true ∧ CanGo s j := by
  have hx := hr.exact
  have ht := hr.told
  have hpassed : ∀ c ∈ s.pool, c.passed ≠ [] → s.memory.channel = .sent := fun c hc hp =>
    ht.signalled c hc (by unfold Clone.signalled; split <;> simp [hp])
  refine ⟨fun c hc => (hx.sound.pool c hc).requests, hpassed, ht.sent, fun hcl c hc => ?_,
    fun hgone hempty => ?_, fun i c hc hi hd => hx.canGo_or_waits hc hi hd⟩
  · have hnone : c.passed = [] := by
      by_contra hp
      simp [hpassed c hc hp] at hcl
    have howns : c.owns = false := by
      by_contra ho
      have hpos := hx.strong_pos hc (by simpa using ho)
      rw [ht.closed hcl] at hpos
      cases hpos
    rw [(hx.sound.pool c hc).requests, hnone]
    cases hp : c.place <;> simp [Clone.owns, hp] at howns <;> rfl
  · cases hs : s.memory.sender with
    | true =>
      rcases ht.held hs with hpos | ⟨c, hc, hp⟩
      · obtain ⟨c, hc, ho⟩ := hx.exists_owner hpos
        simp [Clone.owns, hgone c hc] at ho
      · simp [hgone c hc] at hp
    | false =>
      obtain ⟨c, hc, hhand⟩ := hx.exists_inHand (by simp [Shared.away, hs, hempty])
      simp [Clone.inHand, hgone c hc] at hhand

end Invariants

/-- Two calls at once: the second waits for the lock, which the first keeps until it has
sent the signal. Then both clones are dropped. -/
def twoCalls : List (Move Empty (Op ℕ)) :=
  [.thread 0 .clone, .thread 0 (.call 1), .thread 1 (.call 2), .thread 0 .go, .thread 0 .go] ++
    List.replicate 3 (.thread 0 .go) ++ List.replicate 4 (.thread 1 .go) ++
    [.thread 0 .drop, .thread 1 .drop, .thread 0 .go, .thread 1 .go, .thread 1 .go]

def twoCalled : Pool ℕ where
  memory := { strong := 0, sender := false, channel := .sent }
  pool := [{ place := .dropped, given := [1], passed := [1] },
    { place := .dropped, given := [2], passed := [2] }]

theorem reachable_twoCalled : Reachable twoCalled :=
  ⟨twoCalls, exec_of_runIf (by decide)⟩

theorem first_call_signals_two : twoCalled.memory.channel ≠ .empty :=
  (first_call_signals reachable_twoCalled).2.2.2.2.1 (by decide)

/-! ## One instant for each call -/

/-- The calls that have taken effect: those past their turn under the lock. -/
def Clone.dispatched (c : Clone R) : ℕ :=
  match c.place with
  | .unlocking _ => c.passed.length + 1
  | .calling _ => c.passed.length + 1
  | _ => c.passed.length

end FirstRequestService

/-- What hyper's future can do to its task while it is polled: one call of the service, or
the end of its last clone. -/
def Conn.hyper (srv : Server A) (now : Instant) (rest : List Arm) (c : Conn A E B)
    (x : ConnAnswer E B) : Option (Conn A E B) :=
  (c.inArm srv now rest .serve x).map fun r => r.1.record now r.2

namespace FirstRequestService

/-- The connection knows what the clones have done: `c` is what it was at the start. -/
structure Linearized (c : Conn A E B) (s : Pool R) (d : Conn A E B) : Prop where
  exact : Exact s
  told : Told s
  notify : d.notify = some s.memory.channel
  calls : d.log.countP (fun e => e.2.calls) =
    c.log.countP (fun e => e.2.calls) + s.total Clone.dispatched

section Linearization
variable {srv : Server A} {now : Instant} {rest : List Arm} {c d : Conn A E B} {s s' : Pool R}
  {a : Move Empty (Op R)} {as : List (Move Empty (Op R))}

theorem hyper_serviceCall (hd : d.notify = some .empty ∨ d.notify = some .sent) :
    d.hyper srv now rest .serviceCall =
      some (({ d with notify := some .sent } : Conn A E B).record now [.serviceCall]) := by
  rcases hd with hd | hd <;> simp [Conn.hyper, Conn.inArm, hd, FirstRequestService.call]

theorem hyper_serviceDropped (hd : d.notify = some .empty) :
    d.hyper srv now rest .serviceDropped =
      some (({ d with notify := some .closed } : Conn A E B).record now []) := by
  simp [Conn.hyper, Conn.inArm, hd]

theorem Exact.empty_of_sending {e : Clone R} {req : R} (hx : Exact s) (he : e ∈ s.pool)
    (hp : e.place = .sending req) : s.memory.channel = .empty := by
  have hle := Threads.le_total (fun c : Clone R => c.inHand.toNat) he
  rw [← hx.away] at hle
  cases haway : s.memory.away with
  | true => simpa [Shared.away] using (Bool.and_eq_true_iff.mp haway).2
  | false => simp [Clone.inHand, hp, haway] at hle

/-- What the connection sees of one operation. -/
inductive Effect (m n : Shared) (e f : Clone R) : Prop
  | none (hch : n.channel = m.channel) (hcalls : f.dispatched = e.dispatched)
  | call (hm : m.channel = .empty ∨ m.channel = .sent) (hn : n.channel = .sent)
      (hcalls : f.dispatched = e.dispatched + 1)
  | dropped (hm : m.channel = .empty) (hn : n.channel = .closed)
      (hcalls : f.dispatched = e.dispatched)

theorem Rule.effect {m n : Shared} {e f : Clone R} {fs : List (Clone R)} {x : Op R}
    (hr : Rule m e x n f fs) (hm : m.WF)
    (htaken : ∀ req, e.place = .taking req → m.sender = false → m.channel = .sent)
    (hsending : ∀ req, e.place = .sending req → m.channel = .empty) : Effect m n e f := by
  cases hr with
  | taken req hp hs =>
    have hsent := htaken req hp hs
    exact .call (.inr hsent) hsent (by simp [Clone.dispatched, hp])
  | send req hp => exact .call (.inl (hsending req hp)) rfl (by simp [Clone.dispatched, hp])
  | free hp =>
    cases hs : m.sender with
    | true => exact .dropped (hm hs) (by simp) (by simp [Clone.dispatched, hp])
    | false => exact .none (by simp) (by simp [Clone.dispatched, hp])
  | clone => exact .none rfl rfl
  | call _ hp | drop hp | lock _ hp | take _ hp | unlock _ hp | pass _ hp | release hp
  | releaseLast hp =>
    exact .none rfl (by simp [Clone.dispatched, hp])

theorem Linearized.step (h : Linearized c s d) (move : (program R).next s a = some s') :
    Linearized c s' d ∨ ∃ x e, (x = .serviceCall ∨ x = .serviceDropped) ∧
      d.hyper srv now rest x = some e ∧ Linearized c s' e := by
  have hx := h.exact.exec (.cons trivial move (.nil _))
  have hr := Program.rule_of_next move
  have ht := h.told.step h.exact hr
  have hn := h.notify
  have hcalls := h.calls
  cases hr with
  | outside e => exact e.elim
  | helper _ _ _ _ _ h => cases h
  | thread i x e f m fs hi hstep =>
    have he := List.mem_of_getElem? hi
    have hr := rule_of_step hstep
    have hnew : (fs.map Clone.dispatched).sum = 0 := by
      refine List.sum_eq_zero fun k hk => ?_
      obtain ⟨g, hg, rfl⟩ := List.mem_map.mp hk
      rw [hr.spawned g hg]
      rfl
    have htotal := s.total_moved Clone.dispatched m f fs hi
    cases hr.effect h.exact.sound.memory
      (fun req hp hs => h.told.sent_of_taken h.exact he hp hs)
      (fun req hp => h.exact.empty_of_sending he hp) with
    | none hch hsame =>
      refine .inl ⟨hx, ht, by rw [hn, ← hch], ?_⟩
      rw [hcalls]
      omega
    | call hm hsent hone =>
      refine .inr ⟨.serviceCall, _, .inl rfl, hyper_serviceCall ?_, hx, ht, ?_, ?_⟩
      · rw [hn]
        exact hm.imp (congrArg some) (congrArg some)
      · exact congrArg some hsent.symm
      · have hlast :
            [(now, (.serviceCall : ConnEvent A E B))].countP (fun e => e.2.calls) = 1 := rfl
        simp only [Conn.record, stamp, List.countP_append, List.map_cons, List.map_nil, hlast,
          hcalls]
        omega
    | dropped hm hclosed hsame =>
      refine .inr ⟨.serviceDropped, _, .inr rfl, hyper_serviceDropped (by rw [hn, hm]), hx, ht,
        congrArg some hclosed.symm, ?_⟩
      simp only [Conn.record, stamp, List.countP_append, List.map_nil, List.countP_nil, hcalls]
      omega

theorem linearization (srv : Server A) (now : Instant) (rest : List Arm) (c : Conn A E B) :
    Simulation (program R).next Always (Conn.hyper srv now rest)
      (fun _ x => x = .serviceCall ∨ x = .serviceDropped) (Linearized c) :=
  .of_step fun h _ move => h.step move

/-- The atomic call of the service that a connection task sees is what the clones do
together, operation by operation: every run of them is one in which each call takes effect
at one instant between its start and its end, and the end of the last clone at another. -/
theorem calls_linearize (hr : Reachable s) (hc : c.notify = some .empty) :
    ∃ xs d, Interleaving.Exec (Conn.hyper srv now rest)
        (fun _ x => x = .serviceCall ∨ x = .serviceDropped) c xs d ∧
      d.notify = some s.memory.channel ∧
      d.log.countP (fun e => e.2.calls) =
        c.log.countP (fun e => e.2.calls) + s.total Clone.dispatched ∧
      ∀ e ∈ s.pool, e.passed.length ≤ e.dispatched ∧ e.dispatched ≤ e.given.length := by
  have hstart : Linearized c (⟨{}, [{}]⟩ : Pool R) c :=
    ⟨exact_init, told_init, hc, by simp [Threads.total, Clone.dispatched]⟩
  obtain ⟨d, ⟨xs, hxs⟩, hd⟩ := (linearization srv now rest c).reachable hr hstart
  refine ⟨xs, d, hxs, hd.notify, hd.calls, fun e he => ?_⟩
  have hreq := congrArg List.length (hd.exact.sound.pool e he).requests
  rw [List.length_append] at hreq
  cases hp : e.place <;> simp [Clone.dispatched, hp, Place.request] at hreq ⊢ <;> omega

def servedTask : Conn ℕ Unit Unit where
  remoteAddr := 1
  stage := .firstRequest 5
  pc := .inside .serve []
  notify := some .empty

theorem calls_linearize_two :
    ∃ xs d, Interleaving.Exec (Conn.hyper Server.fromListener 0 [])
        (fun _ x => x = .serviceCall ∨ x = .serviceDropped) servedTask xs d ∧
      d.notify = some .sent ∧ d.log.countP (fun e => e.2.calls) = 2 ∧
      ∀ e ∈ twoCalled.pool, e.passed.length ≤ e.dispatched ∧ e.dispatched ≤ e.given.length :=
  calls_linearize reachable_twoCalled rfl

end Linearization

end FirstRequestService

end AxumServer
