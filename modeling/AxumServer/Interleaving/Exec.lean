import Mathlib.Data.List.Basic

/-! # Interleaved runs of a partial step function

A scheduler offers one action after another; an action that is not enabled has
no successor. A guarded run additionally asks a condition of every state and
action on its way. The rules below turn a fact about one step into a fact about
a whole run.
-/

namespace AxumServer.Interleaving

variable {σ α : Type*}

abbrev Always : σ → α → Prop := fun _ _ => True

/-- `Exec step P s as t`: the actions `as` lead from `s` to `t`, and `P` holds
whenever one of them is taken. -/
inductive Exec (step : σ → α → Option σ) (P : σ → α → Prop) : σ → List α → σ → Prop
  | nil (s : σ) : Exec step P s [] s
  | cons {s t u : σ} {a : α} {as : List α} (guard : P s a) (move : step s a = some t)
      (rest : Exec step P t as u) : Exec step P s (a :: as) u

/-- Evaluate a schedule, stopping when an action is disabled or breaks the guard. -/
def runIf (step : σ → α → Option σ) (P : σ → α → Prop) [∀ s a, Decidable (P s a)] :
    σ → List α → Option σ
  | s, [] => some s
  | s, a :: as => if P s a then (step s a).bind fun t => runIf step P t as else none

def Reachable (step : σ → α → Option σ) (P : σ → α → Prop) (init s : σ) : Prop :=
  ∃ as, Exec step P init as s

section Rules
variable {step : σ → α → Option σ} {P Q : σ → α → Prop} {s t u : σ} {as bs : List α}

theorem exec_of_runIf [∀ s a, Decidable (P s a)] (h : runIf step P s as = some t) :
    Exec step P s as t := by
  induction as generalizing s with
  | nil =>
    simp only [runIf, Option.some.injEq] at h
    subst h
    exact .nil s
  | cons a as ih =>
    simp only [runIf] at h
    split_ifs at h with hP
    obtain ⟨r, hr, hrest⟩ := Option.bind_eq_some_iff.mp h
    exact .cons hP hr (ih hrest)

theorem Exec.append (h : Exec step P s as t) (g : Exec step P t bs u) :
    Exec step P s (as ++ bs) u := by
  induction h with
  | nil => exact g
  | cons guard move _ ih => exact .cons guard move (ih g)

theorem Exec.of_forall_mem (h : Exec step P s as t) (hQ : ∀ a ∈ as, ∀ s, Q s a) :
    Exec step Q s as t := by
  induction h with
  | nil s => exact .nil s
  | @cons s _ _ a as _ move _ ih =>
    exact .cons (hQ a List.mem_cons_self s) move
      (ih fun b hb => hQ b (List.mem_cons_of_mem a hb))

/-- A run meets any condition that each of its steps meets, given the run before it. -/
theorem Exec.strengthen (h : Exec step P s as t)
    (hQ : ∀ bs a cs u v, as = bs ++ a :: cs → Exec step P s bs u → step u a = some v → Q u a) :
    Exec step Q s as t := by
  induction h with
  | nil s => exact .nil s
  | cons guard move _ ih =>
    refine .cons (hQ [] _ _ _ _ rfl (.nil _) move) move ?_
    apply ih
    intro bs b cs u v heq hexec hmove
    exact hQ (_ :: bs) b cs u v (by rw [heq, List.cons_append]) (.cons guard move hexec) hmove

theorem Exec.of_append {cs : List α} (h : Exec step Q s (bs ++ cs) t)
    (g : Exec step P s bs u) : Exec step Q s bs u := by
  induction g with
  | nil s => exact .nil s
  | cons guard move _ ih =>
    cases h with
    | cons hguard hmove rest =>
      obtain rfl := Option.some.inj (move.symm.trans hmove)
      exact .cons hguard move (ih rest)

/-- What every step keeps, a run keeps. -/
theorem Exec.invariant {I : σ → Prop} (h : Exec step P s as t)
    (keep : ∀ {s a t}, I s → P s a → step s a = some t → I t) (hs : I s) : I t := by
  induction h with
  | nil => exact hs
  | cons guard move _ ih => exact ih (keep hs guard move)

/-- The run rule for an assertion about the actions that were taken, after `bs`, and the
state they led to. -/
theorem Exec.trace_invariant_after {I : List α → σ → Prop} (h : Exec step P s as t)
    (keep : ∀ {bs s a t}, I bs s → P s a → step s a = some t → I (bs ++ [a]) t)
    (hs : I bs s) : I (bs ++ as) t := by
  induction h generalizing bs with
  | nil =>
    rw [List.append_nil]
    exact hs
  | cons guard move _ ih =>
    rw [List.append_cons]
    apply ih
    exact keep hs guard move

theorem Exec.trace_invariant {I : List α → σ → Prop} (h : Exec step P s as t)
    (keep : ∀ {bs s a t}, I bs s → P s a → step s a = some t → I (bs ++ [a]) t)
    (hs : I [] s) : I as t :=
  h.trace_invariant_after keep hs

theorem filterMap_snoc {β : Type*} (f : α → Option β) (as : List α) (a : α) :
    (as ++ [a]).filterMap f = as.filterMap f ++ (f a).toList := by
  cases ha : f a <;> simp [List.filterMap_append, ha]

/-- The run rule with a second invariant `J` known beforehand. -/
theorem Exec.invariant_under {I J : σ → Prop} (h : Exec step P s as t)
    (keepJ : ∀ {s a t}, J s → P s a → step s a = some t → J t) (hJ : J s)
    (keep : ∀ {s a t}, J s → I s → P s a → step s a = some t → I t) (hs : I s) : I t :=
  (h.invariant (I := fun s => J s ∧ I s)
    (fun hi guard move => ⟨keepJ hi.1 guard move, keep hi.1 hi.2 guard move⟩) ⟨hJ, hs⟩).2

theorem Exec.split {a : α} (h : Exec step P s as t) (ha : a ∈ as) :
    ∃ as₁ as₂ s₁ s₂, as = as₁ ++ a :: as₂ ∧ Exec step P s as₁ s₁ ∧ P s₁ a ∧
      step s₁ a = some s₂ ∧ Exec step P s₂ as₂ t := by
  induction h with
  | nil => cases ha
  | @cons s r t b bs guard move rest ih =>
    rcases List.mem_cons.mp ha with rfl | hb
    · exact ⟨[], bs, s, r, rfl, .nil s, guard, move, rest⟩
    · obtain ⟨as₁, as₂, s₁, s₂, rfl, h₁, hP, hm, h₂⟩ := ih hb
      exact ⟨b :: as₁, as₂, s₁, s₂, rfl, .cons guard move h₁, hP, hm, h₂⟩

/-- If the actions selected by `own` use up a measure that no other action
raises, a run contains at most that many of them. -/
theorem Exec.countP_le {I : σ → Prop} (own : α → Bool) {μ : σ → ℕ} (h : Exec step P s as t)
    (keep : ∀ {s a t}, I s → P s a → step s a = some t → I t)
    (uses : ∀ {s a t}, I s → step s a = some t → own a = true → μ t < μ s)
    (others : ∀ {s a t}, I s → step s a = some t → own a = false → μ t ≤ μ s) (hs : I s) :
    as.countP own + μ t ≤ μ s := by
  induction h with
  | nil => simp
  | @cons s r t a as guard move _ ih =>
    have hr := ih (keep hs guard move)
    rw [List.countP_cons]
    cases ha : own a with
    | true =>
      have := uses hs move ha
      simp only [if_true]
      omega
    | false =>
      have := others hs move ha
      simp only [Bool.false_eq_true, if_false]
      omega

theorem Exec.countdown {I : σ → Prop} (own : α → Bool) {μ : σ → ℕ} (h : Exec step P s as t)
    (keep : ∀ {s a t}, I s → step s a = some t →
      I t ∧ μ t ≤ μ s ∧ (own a = true → μ t < μ s)) (hs : I s) :
    I t ∧ as.countP own + μ t ≤ μ s := by
  refine ⟨h.invariant (fun hi _ move => (keep hi move).1) hs, ?_⟩
  apply h.countP_le own
  · intro s a t hi _ move
    exact (keep hi move).1
  · intro s a t hi move hown
    exact (keep hi move).2.2 hown
  · intro s a t hi move _
    exact (keep hi move).2.1
  · exact hs

theorem Reachable.refl (s : σ) : Reachable step P s s := ⟨[], .nil s⟩

theorem Reachable.exec (h : Reachable step P s t) (g : Exec step P t as u) :
    Reachable step P s u := by
  obtain ⟨bs, hb⟩ := h
  exact ⟨bs ++ as, hb.append g⟩

/-- An invariant of the initial state and of every step holds in every reachable state. -/
theorem Reachable.invariant {I : σ → Prop} (h : Reachable step P s t)
    (keep : ∀ {s a t}, I s → P s a → step s a = some t → I t) (hs : I s) : I t := by
  obtain ⟨bs, hb⟩ := h
  exact hb.invariant keep hs

theorem Reachable.invariant_under {I J : σ → Prop} (h : Reachable step P s t)
    (keepJ : ∀ {s a t}, J s → P s a → step s a = some t → J t) (hJ : J s)
    (keep : ∀ {s a t}, J s → I s → P s a → step s a = some t → I t) (hs : I s) : I t := by
  obtain ⟨bs, hb⟩ := h
  exact hb.invariant_under keepJ hJ keep hs

end Rules

end AxumServer.Interleaving
