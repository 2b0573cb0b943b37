import Mathlib.Data.List.Perm.Basic

/-! # A growing pool of threads

The threads of a system are a list: a step replaces the entry of one thread, and
a spawn appends one. These are the corresponding update rules for properties of
all threads, of some thread, and for the number of threads with a property.
-/

namespace AxumServer.Interleaving

variable {τ : Type*} {ts : List τ} {i : ℕ} {t t' : τ}

theorem forall_mem_set {I J : τ → Prop} (h : ∀ x ∈ ts, I x) (move : ∀ x, I x → J x) (ht : J t') :
    ∀ x ∈ ts.set i t', J x := by
  intro x hx
  rcases List.mem_or_eq_of_mem_set hx with hx | rfl
  · exact move x (h x hx)
  · exact ht

theorem forall_mem_append {I J : τ → Prop} {us : List τ} (h : ∀ x ∈ ts, I x)
    (move : ∀ x, I x → J x) (hu : ∀ x ∈ us, J x) : ∀ x ∈ ts ++ us, J x := by
  intro x hx
  rcases List.mem_append.mp hx with hx | hx
  · exact move x (h x hx)
  · exact hu x hx

theorem getElem?_append_cases {us : List τ} (hi : (ts ++ us)[i]? = some t) :
    ts[i]? = some t ∨ t ∈ us := by
  rcases Nat.lt_or_ge i ts.length with hlt | hge
  · rw [List.getElem?_append_left hlt] at hi
    exact .inl hi
  · rw [List.getElem?_append_right hge] at hi
    exact .inr (List.mem_of_getElem? hi)

/-- A witness among the threads survives a step unless it is the one that moved. -/
theorem exists_mem_set {I J : τ → Prop} (h : ∃ x ∈ ts, I x) (hi : ts[i]? = some t)
    (move : ∀ x, I x → J x) (ht : I t → J t') : ∃ x ∈ ts.set i t', J x := by
  obtain ⟨x, hx, hI⟩ := h
  obtain ⟨j, hj⟩ := List.mem_iff_getElem?.mp hx
  have hlt : i < ts.length := (List.getElem?_eq_some_iff.mp hi).1
  by_cases hij : i = j
  · subst hij
    obtain rfl : t = x := Option.some.inj (hi.symm.trans hj)
    exact ⟨t', List.mem_iff_getElem?.mpr ⟨i, List.getElem?_set_self hlt⟩, ht hI⟩
  · exact ⟨x, List.mem_iff_getElem?.mpr ⟨j, by rw [List.getElem?_set_ne hij, hj]⟩, move x hI⟩

section Rank
variable {I : τ → Prop} {μ : τ → ℕ} {j : ℕ}

theorem getElem?_append_keeps (h : ∃ x, ts[i]? = some x ∧ I x) (us : List τ) :
    (∃ x, (ts ++ us)[i]? = some x ∧ I x) ∧
      ((ts ++ us)[i]?).elim 0 μ ≤ (ts[i]?).elim 0 μ := by
  obtain ⟨x, hx, hI⟩ := h
  rw [List.getElem?_append_left (List.getElem?_eq_some_iff.mp hx).1]
  exact ⟨⟨x, hx, hI⟩, Nat.le_refl _⟩

/-- Thread `i` keeps a property in which its rank does not grow, whichever thread moves. -/
theorem getElem?_set_keeps (h : ∃ x, ts[i]? = some x ∧ I x) (hj : ts[j]? = some t)
    (ht : I t → I t' ∧ μ t' ≤ μ t) :
    (∃ x, (ts.set j t')[i]? = some x ∧ I x) ∧
      ((ts.set j t')[i]?).elim 0 μ ≤ (ts[i]?).elim 0 μ := by
  obtain ⟨x, hx, hI⟩ := h
  by_cases hij : j = i
  · subst hij
    obtain rfl : t = x := Option.some.inj (hj.symm.trans hx)
    rw [List.getElem?_set_self (List.getElem?_eq_some_iff.mp hj).1, hj]
    exact ⟨⟨t', rfl, (ht hI).1⟩, (ht hI).2⟩
  · rw [List.getElem?_set_ne hij]
    exact ⟨⟨x, hx, hI⟩, Nat.le_refl _⟩

theorem getElem?_set_lt (h : ∃ x, ts[i]? = some x ∧ I x) (hi : ts[i]? = some t)
    (ht : I t → μ t' < μ t) : ((ts.set i t')[i]?).elim 0 μ < (ts[i]?).elim 0 μ := by
  obtain ⟨x, hx, hI⟩ := h
  obtain rfl : t = x := Option.some.inj (hi.symm.trans hx)
  rw [List.getElem?_set_self (List.getElem?_eq_some_iff.mp hi).1, hi]
  exact ht hI

end Rank

/-- The number of threads with a property moves with the thread that is replaced. -/
theorem countP_set_add (p : τ → Bool) (t' : τ) (hi : ts[i]? = some t) :
    (ts.set i t').countP p + (if p t then 1 else 0) = ts.countP p + (if p t' then 1 else 0) := by
  obtain ⟨hlt, rfl⟩ := List.getElem?_eq_some_iff.mp hi
  rw [List.countP_set hlt]
  split_ifs with hp hp'
  · have := List.countP_pos_iff.mpr ⟨ts[i], List.getElem_mem hlt, hp⟩
    omega
  · have := List.countP_pos_iff.mpr ⟨ts[i], List.getElem_mem hlt, hp⟩
    omega
  · omega
  · omega

theorem countP_eraseIdx_add {p : τ → Bool} (hi : ts[i]? = some t) :
    (ts.eraseIdx i).countP p + (if p t then 1 else 0) = ts.countP p := by
  obtain ⟨hlt, rfl⟩ := List.getElem?_eq_some_iff.mp hi
  rw [← (List.getElem_cons_eraseIdx_perm hlt).countP_eq, List.countP_cons]

end AxumServer.Interleaving
