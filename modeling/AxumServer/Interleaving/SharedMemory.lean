import AxumServer.Interleaving.Exec
import AxumServer.Interleaving.Pool
import Mathlib.Algebra.GroupWithZero.Nat
import Mathlib.Algebra.Order.BigOperators.Group.List
import Mathlib.Algebra.Order.Group.Nat

/-! # Threads over a shared memory

A program says what one operation of a thread does to the memory and to the thread,
which threads it spawns, and what may happen outside of all threads. Threads are only
ever appended. A thread may have helpers, which run beside it and touch nothing but the
thread. The rules carry a fact about the operations of one thread through the runs of
all of them: what each thread relies on is what every operation guarantees.
-/

namespace AxumServer.Interleaving

variable {μ τ ε α : Type*}

structure Program (μ τ ε α : Type*) where
  /-- Something outside of the threads: the memory after it and the threads it starts. -/
  outside : ε → μ → μ × List τ
  /-- An operation of a thread, on an answer of the outside: the memory, the thread
  after it and the threads it spawns. -/
  step : μ → τ → α → Option (μ × τ × List τ)
  /-- An operation of a helper of a thread, on an answer of the outside. -/
  helper : μ → τ → α → Option τ

structure Threads (μ τ : Type*) where
  memory : μ
  pool : List τ := []
  deriving DecidableEq, Repr

inductive Move (ε α : Type*) where
  | outside (e : ε)
  | thread (i : ℕ) (x : α)
  | helper (i : ℕ) (x : α)
  deriving DecidableEq, Repr

def Move.isThread (i : ℕ) : Move ε α → Bool
  | .thread j _ => decide (j = i)
  | _ => false

namespace Program

def next (prog : Program μ τ ε α) (s : Threads μ τ) : Move ε α → Option (Threads μ τ)
  | .outside e => some ⟨(prog.outside e s.memory).1, s.pool ++ (prog.outside e s.memory).2⟩
  | .thread i x => (s.pool[i]?).bind fun t =>
    (prog.step s.memory t x).map fun (m, u, us) => ⟨m, s.pool.set i u ++ us⟩
  | .helper i x => (s.pool[i]?).bind fun t =>
    (prog.helper s.memory t x).map fun u => ⟨s.memory, s.pool.set i u⟩

inductive Rule (prog : Program μ τ ε α) (s : Threads μ τ) : Move ε α → Threads μ τ → Prop
  | outside (e : ε) (m : μ) (us : List τ) (he : prog.outside e s.memory = (m, us)) :
    Rule prog s (.outside e) ⟨m, s.pool ++ us⟩
  | thread (i : ℕ) (x : α) (t u : τ) (m : μ) (us : List τ) (hi : s.pool[i]? = some t)
      (hstep : prog.step s.memory t x = some (m, u, us)) :
    Rule prog s (.thread i x) ⟨m, s.pool.set i u ++ us⟩
  | helper (i : ℕ) (x : α) (t u : τ) (hi : s.pool[i]? = some t)
      (hhelper : prog.helper s.memory t x = some u) :
    Rule prog s (.helper i x) ⟨s.memory, s.pool.set i u⟩

theorem Rule.length_le {prog : Program μ τ ε α} {s s' : Threads μ τ} {a : Move ε α}
    (h : prog.Rule s a s') : s.pool.length ≤ s'.pool.length := by
  cases h <;> simp

theorem rule_of_next {prog : Program μ τ ε α} {s s' : Threads μ τ} {a : Move ε α}
    (h : prog.next s a = some s') : prog.Rule s a s' := by
  cases a with
  | outside e =>
    obtain rfl := Option.some.inj h
    exact .outside e _ _ rfl
  | thread i x =>
    obtain ⟨t, hi, h⟩ := Option.bind_eq_some_iff.mp h
    obtain ⟨⟨m, u, us⟩, hstep, rfl⟩ := Option.map_eq_some_iff.mp h
    exact .thread i x t u m us hi hstep
  | helper i x =>
    obtain ⟨t, hi, h⟩ := Option.bind_eq_some_iff.mp h
    obtain ⟨u, hhelper, rfl⟩ := Option.map_eq_some_iff.mp h
    exact .helper i x t u hi hhelper

theorem next_thread {prog : Program μ τ ε α} {s : Threads μ τ} {i : ℕ} {x : α} {t u : τ} {m : μ}
    {us : List τ} (hi : s.pool[i]? = some t) (hstep : prog.step s.memory t x = some (m, u, us)) :
    prog.next s (.thread i x) = some ⟨m, s.pool.set i u ++ us⟩ := by
  simp only [next, hi, hstep, Option.bind_some, Option.map_some]

abbrev Exec (prog : Program μ τ ε α) := Interleaving.Exec prog.next Always

end Program

/-! ## Rely and guarantee -/

/-- Every operation moves the memory along `R`, under which the assertions `T` about
single threads are stable, and keeps the assertion `I` about the memory. -/
structure Guarantee (prog : Program μ τ ε α) (R : μ → μ → Prop) (I : μ → Prop)
    (T : μ → τ → Prop) : Prop where
  refl : ∀ m, R m m
  trans : ∀ {m n l}, R m n → R n l → R m l
  mono : ∀ {m n t}, R m n → T m t → T n t
  outside : ∀ {m n us e}, I m → prog.outside e m = (n, us) → R m n ∧ I n ∧ ∀ u ∈ us, T n u
  step : ∀ {m n t u us x}, I m → T m t → prog.step m t x = some (n, u, us) →
    R m n ∧ I n ∧ T n u ∧ ∀ v ∈ us, T n v
  helper : ∀ {m t u x}, I m → T m t → prog.helper m t x = some u → T m u

structure Threads.Sound (I : μ → Prop) (T : μ → τ → Prop) (s : Threads μ τ) : Prop where
  memory : I s.memory
  pool : ∀ t ∈ s.pool, T s.memory t

section Guarantee
variable {prog : Program μ τ ε α} {R : μ → μ → Prop} {I : μ → Prop} {T : μ → τ → Prop}
  {s s' : Threads μ τ} {a : Move ε α} {as : List (Move ε α)} {i : ℕ} {t : τ}

theorem Threads.Sound.thread (hs : s.Sound I T) (hi : s.pool[i]? = some t) : T s.memory t :=
  hs.pool t (List.mem_of_getElem? hi)

theorem Guarantee.rule (hg : Guarantee prog R I T) (hs : s.Sound I T) (hr : prog.Rule s a s') :
    R s.memory s'.memory ∧ s'.Sound I T := by
  cases hr with
  | outside e m us he =>
    obtain ⟨hR, hI, hT⟩ := hg.outside hs.memory he
    exact ⟨hR, hI, forall_mem_append hs.pool (fun _ => hg.mono hR) hT⟩
  | thread i x t u m us hi hstep =>
    obtain ⟨hR, hI, hu, hus⟩ := hg.step hs.memory (hs.thread hi) hstep
    exact ⟨hR, hI, forall_mem_append (forall_mem_set hs.pool (fun _ => hg.mono hR) hu)
      (fun _ => id) hus⟩
  | helper i x t u hi hhelper =>
    exact ⟨hg.refl _, hs.memory,
      forall_mem_set hs.pool (fun _ => id) (hg.helper hs.memory (hs.thread hi) hhelper)⟩

theorem Guarantee.next (hg : Guarantee prog R I T) (hs : s.Sound I T)
    (h : prog.next s a = some s') : s'.Sound I T :=
  (hg.rule hs (Program.rule_of_next h)).2

theorem Guarantee.sound (hg : Guarantee prog R I T) (h : prog.Exec s as s') (hs : s.Sound I T) :
    s'.Sound I T :=
  Exec.invariant h (fun hs _ => hg.next hs) hs

/-- What is stable under `R` may be assumed of the memory as well. -/
theorem Guarantee.and_stable {K : μ → Prop} (hg : Guarantee prog R I T)
    (hK : ∀ {m n}, R m n → K m → K n) : Guarantee prog R (fun m => I m ∧ K m) T where
  refl := hg.refl
  trans := hg.trans
  mono := hg.mono
  outside hm he := by
    obtain ⟨hR, hI, hT⟩ := hg.outside hm.1 he
    exact ⟨hR, ⟨hI, hK hR hm.2⟩, hT⟩
  step hm ht hstep := by
    obtain ⟨hR, hI, hu, hus⟩ := hg.step hm.1 ht hstep
    exact ⟨hR, ⟨hI, hK hR hm.2⟩, hu, hus⟩
  helper hm ht hhelper := hg.helper hm.1 ht hhelper

end Guarantee

/-- An assertion about one thread that is stable under `R` and that the thread's own
operations keep, and those of its helpers. -/
structure Assertion (prog : Program μ τ ε α) (R : μ → μ → Prop) (I : μ → Prop)
    (T J : μ → τ → Prop) : Prop where
  mono : ∀ {m n t}, R m n → J m t → J n t
  step : ∀ {m n t u us x}, I m → T m t → prog.step m t x = some (n, u, us) → J m t → J n u
  helper : ∀ {m t u x}, I m → T m t → prog.helper m t x = some u → J m t → J m u

section Assertion
variable {prog : Program μ τ ε α} {R : μ → μ → Prop} {I : μ → Prop} {T J : μ → τ → Prop}
  {s s' : Threads μ τ} {a : Move ε α} {as : List (Move ε α)} {i : ℕ} {t : τ}

theorem Assertion.rule (hJ : Assertion prog R I T J) (hg : Guarantee prog R I T)
    (hs : s.Sound I T) (hr : prog.Rule s a s') (hi : s.pool[i]? = some t) (ht : J s.memory t) :
    ∃ u, s'.pool[i]? = some u ∧ J s'.memory u := by
  have hR := (hg.rule hs hr).1
  have hlt := (List.getElem?_eq_some_iff.mp hi).1
  cases hr with
  | outside e m us he =>
    exact ⟨t, by rw [List.getElem?_append_left hlt]; exact hi, hJ.mono hR ht⟩
  | thread j x t' u m us hj hstep =>
    rw [List.getElem?_append_left (by simpa using hlt)]
    by_cases hij : j = i
    · subst hij
      obtain rfl := Option.some.inj (hi.symm.trans hj)
      exact ⟨u, List.getElem?_set_self hlt, hJ.step hs.memory (hs.thread hi) hstep ht⟩
    · exact ⟨t, by rw [List.getElem?_set_ne hij]; exact hi, hJ.mono hR ht⟩
  | helper j x t' u hj hhelper =>
    by_cases hij : j = i
    · subst hij
      obtain rfl := Option.some.inj (hi.symm.trans hj)
      exact ⟨u, List.getElem?_set_self hlt, hJ.helper hs.memory (hs.thread hi) hhelper ht⟩
    · exact ⟨t, by rw [List.getElem?_set_ne hij]; exact hi, ht⟩

theorem Assertion.exec (hJ : Assertion prog R I T J) (hg : Guarantee prog R I T)
    (h : prog.Exec s as s') (hs : s.Sound I T) (hi : s.pool[i]? = some t) (ht : J s.memory t) :
    ∃ u, s'.pool[i]? = some u ∧ J s'.memory u :=
  Exec.invariant_under (J := Threads.Sound I T)
    (I := fun s => ∃ u, s.pool[i]? = some u ∧ J s.memory u) h (fun hs _ => hg.next hs) hs
    (fun hs ⟨_, hi, ht⟩ _ move => hJ.rule hg hs (Program.rule_of_next move) hi ht) ⟨t, hi, ht⟩

/-- The run rule for the threads at all places, if those that are started or spawned behind
the threads that are there come with the assertions. -/
theorem Assertion.forall_places {J : ℕ → μ → τ → Prop}
    (hJ : ∀ i, Assertion prog R I T (J i)) (hg : Guarantee prog R I T)
    (outside : ∀ {m n us e i}, s.pool.length ≤ i → I m → prog.outside e m = (n, us) →
      ∀ u ∈ us, J i n u)
    (spawned : ∀ {m n t u us x i}, s.pool.length ≤ i → I m → T m t →
      prog.step m t x = some (n, u, us) → ∀ v ∈ us, J i n v)
    (h : prog.Exec s as s') (hs : s.Sound I T)
    (ht : ∀ i t, s.pool[i]? = some t → J i s.memory t) :
    ∀ i t, s'.pool[i]? = some t → J i s'.memory t := by
  refine (Exec.invariant_under (J := Threads.Sound I T) (I := fun u =>
    s.pool.length ≤ u.pool.length ∧ ∀ i t, u.pool[i]? = some t → J i u.memory t)
    h (fun hs _ => hg.next hs) hs ?_ ⟨le_rfl, ht⟩).2
  rintro u a v hu ⟨hlen, hall⟩ - move
  have hr := Program.rule_of_next move
  refine ⟨hlen.trans hr.length_le, fun i t hi => ?_⟩
  cases hold : u.pool[i]? with
  | some w =>
    obtain ⟨w', hw', hJw⟩ := (hJ i).rule hg hu hr hold (hall i w hold)
    obtain rfl := Option.some.inj (hw'.symm.trans hi)
    exact hJw
  | none =>
    have hi0 := List.getElem?_eq_none_iff.mp hold
    cases hr with
    | outside e m us he =>
      rw [List.getElem?_append_right hi0] at hi
      exact outside (hlen.trans hi0) hu.memory he t (List.mem_of_getElem? hi)
    | thread k x w w' m us hk hstep =>
      rw [List.getElem?_append_right (by simpa using hi0)] at hi
      exact spawned (hlen.trans hi0) hu.memory (hu.thread hk) hstep t (List.mem_of_getElem? hi)
    | helper => simp [List.getElem?_eq_none (le_of_eq_of_le List.length_set hi0)] at hi

/-- The run rule for all threads, if those that are started or spawned come with the
assertion. -/
theorem Assertion.forall_threads (hJ : Assertion prog R I T J) (hg : Guarantee prog R I T)
    (outside : ∀ {m n us e}, I m → prog.outside e m = (n, us) → ∀ u ∈ us, J n u)
    (spawned : ∀ {m n t u us x}, I m → T m t → prog.step m t x = some (n, u, us) →
      ∀ v ∈ us, J n v)
    (h : prog.Exec s as s') (hs : s.Sound I T) (ht : ∀ t ∈ s.pool, J s.memory t) :
    ∀ t ∈ s'.pool, J s'.memory t := by
  intro t hmem
  obtain ⟨i, hi⟩ := List.mem_iff_getElem?.mp hmem
  exact Assertion.forall_places (J := fun _ => J) (fun _ => hJ) hg (fun _ => outside)
    (fun _ => spawned) h hs (fun i t hi => ht t (List.mem_of_getElem? hi)) i t hi

/-- A thread whose operations all use up `fuel`, which its helpers leave alone, makes at most
that many of them. -/
theorem Assertion.countP_le (hJ : Assertion prog R I T J) (hg : Guarantee prog R I T)
    {fuel : τ → ℕ} (uses : ∀ {m n t u us x}, I m → T m t → J m t →
      prog.step m t x = some (n, u, us) → fuel u < fuel t)
    (frame : ∀ {m t u x}, prog.helper m t x = some u → fuel u = fuel t)
    (h : prog.Exec s as s') (hs : s.Sound I T) (hi : s.pool[i]? = some t) (ht : J s.memory t) :
    as.countP (Move.isThread i) ≤ fuel t := by
  have hcount := Exec.countdown (Move.isThread i)
    (I := fun s => s.Sound I T ∧ ∃ u, s.pool[i]? = some u ∧ J s.memory u)
    (μ := fun s => (s.pool[i]?).elim 0 fuel) h ?_ ⟨hs, t, hi, ht⟩
  · have hle := hcount.2
    simp only [hi, Option.elim_some] at hle
    omega
  · rintro s a s' ⟨hs, t, hi, ht⟩ move
    have hr := Program.rule_of_next move
    have hlt := (List.getElem?_eq_some_iff.mp hi).1
    refine ⟨⟨hg.next hs move, hJ.rule hg hs hr hi ht⟩, ?_⟩
    cases hr with
    | outside e m us he =>
      rw [List.getElem?_append_left hlt]
      exact ⟨le_rfl, fun hown => by cases hown⟩
    | thread j x t' u m us hj hstep =>
      rw [List.getElem?_append_left (by simpa using hlt)]
      by_cases hij : j = i
      · subst hij
        obtain rfl := Option.some.inj (hi.symm.trans hj)
        have hless := uses hs.memory (hs.thread hi) ht hstep
        rw [List.getElem?_set_self hlt, hi]
        exact ⟨hless.le, fun _ => hless⟩
      · rw [List.getElem?_set_ne hij]
        exact ⟨le_rfl, fun hown => absurd (of_decide_eq_true hown) hij⟩
    | helper j x t' u hj hhelper =>
      refine ⟨?_, fun hown => by cases hown⟩
      by_cases hij : j = i
      · subst hij
        obtain rfl := Option.some.inj (hi.symm.trans hj)
        rw [List.getElem?_set_self hlt, hi]
        exact (frame hhelper).le
      · rw [List.getElem?_set_ne hij]

end Assertion

/-! ## Counters -/

/-- What the threads hold together. -/
def Threads.total (weight : τ → ℕ) (s : Threads μ τ) : ℕ := (s.pool.map weight).sum

/-- A cell of the memory moves with what the threads hold. -/
structure Counts (prog : Program μ τ ε α) (I : μ → Prop) (count : μ → ℕ) (weight : τ → ℕ) :
    Prop where
  outside : ∀ {m n us e}, prog.outside e m = (n, us) → count n = count m + (us.map weight).sum
  step : ∀ {m n t u us x}, I m → weight t ≤ count m → prog.step m t x = some (n, u, us) →
    count n + weight t = count m + weight u + (us.map weight).sum
  helper : ∀ {m t u x}, prog.helper m t x = some u → weight u = weight t

section Counts
variable {prog : Program μ τ ε α} {R : μ → μ → Prop} {I : μ → Prop} {T : μ → τ → Prop}
  {count : μ → ℕ} {weight : τ → ℕ} {s s' : Threads μ τ} {as : List (Move ε α)} {t : τ}

theorem sum_map_set_add (weight : τ → ℕ) {ts : List τ} {i : ℕ} {t : τ} (u : τ)
    (hi : ts[i]? = some t) :
    ((ts.set i u).map weight).sum + weight t = (ts.map weight).sum + weight u := by
  induction ts generalizing i with
  | nil => cases hi
  | cons x ts ih =>
    cases i with
    | zero =>
      obtain rfl := Option.some.inj hi
      simp only [List.set_cons_zero, List.map_cons, List.sum_cons]
      omega
    | succ i =>
      have hrest := ih (i := i) hi
      simp only [List.set_cons_succ, List.map_cons, List.sum_cons]
      omega

theorem Threads.le_total (weight : τ → ℕ) (ht : t ∈ s.pool) : weight t ≤ s.total weight :=
  List.single_le_sum (by simp) _ (List.mem_map_of_mem ht)

theorem Threads.add_le_total (weight : τ → ℕ) {t u : τ} (ht : t ∈ s.pool) (hu : u ∈ s.pool)
    (hne : t ≠ u) : weight t + weight u ≤ s.total weight := by
  obtain ⟨as, bs, hpool⟩ := List.append_of_mem ht
  have hrest : u ∈ as ++ bs := by
    rw [hpool] at hu
    simpa [hne.symm] using hu
  have hle := List.single_le_sum (by simp) _ (List.mem_map_of_mem (f := weight) hrest)
  simp only [Threads.total, hpool, List.map_append, List.map_cons, List.sum_append,
    List.sum_cons] at hle ⊢
  omega

theorem Threads.exists_of_total_pos (p : τ → Bool) (h : 0 < s.total fun t => (p t).toNat) :
    ∃ t ∈ s.pool, p t = true := by
  by_contra hnone
  have hzero : s.total (fun t => (p t).toNat) = 0 := by
    refine List.sum_eq_zero fun n hn => ?_
    obtain ⟨t, ht, rfl⟩ := List.mem_map.mp hn
    cases hp : p t with
    | false => rfl
    | true => exact absurd ⟨t, ht, hp⟩ hnone
  omega

theorem Threads.total_moved (s : Threads μ τ) (weight : τ → ℕ) (m : μ) (u : τ) (us : List τ)
    {i : ℕ} (hi : s.pool[i]? = some t) :
    (⟨m, s.pool.set i u ++ us⟩ : Threads μ τ).total weight + weight t =
      s.total weight + weight u + (us.map weight).sum := by
  have hset := sum_map_set_add weight u hi
  simp only [Threads.total, List.map_append, List.sum_append]
  omega

theorem Counts.exact (hc : Counts prog I count weight) (hg : Guarantee prog R I T)
    (h : prog.Exec s as s') (hs : s.Sound I T) (hcount : count s.memory = s.total weight) :
    count s'.memory = s'.total weight := by
  refine Exec.invariant_under (J := Threads.Sound I T)
    (I := fun s => count s.memory = s.total weight) h (fun hs _ => hg.next hs) hs ?_ hcount
  intro s a s' hs hcount _ move
  cases Program.rule_of_next move with
  | outside e m us he =>
    have hm := hc.outside he
    simp only [Threads.total, List.map_append, List.sum_append] at hcount ⊢
    omega
  | thread i x t u m us hi hstep =>
    have hle := Threads.le_total weight (List.mem_of_getElem? hi)
    have hm := hc.step hs.memory (hcount ▸ hle) hstep
    have hmoved := s.total_moved weight m u us hi
    change count m = _
    omega
  | helper i x t u hi hhelper =>
    have hset := sum_map_set_add weight u hi
    have hweight := hc.helper hhelper
    simp only [Threads.total] at hcount ⊢
    omega

end Counts

end AxumServer.Interleaving
