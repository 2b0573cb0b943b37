import Mathlib.Data.List.Basic

/-! # Computations that may fail or never return

`ExceptT ε Option α` is a computation that returns a value, returns an error, or does not return
within the number of turns it was given.  `Yields` says that it returned a value; the rules take a
sequence of such computations apart.
-/

namespace AxumServer.Fallible

variable {ε ε' α β : Type}

/-- `x` returns the value `a`. -/
def Yields (x : ExceptT ε Option α) (a : α) : Prop := x.run = some (.ok a)

/-- `x` returns an error. -/
def Fails (x : ExceptT ε Option α) : Prop := ∃ e, x.run = some (.error e)

/-- `x` returns, a value or an error. -/
def Returns (x : ExceptT ε Option α) : Prop := x.run ≠ none

/-- A computation that returns at once. -/
def returned (r : Except ε α) : ExceptT ε Option α := ExceptT.mk (some r)

@[simp] theorem yields_returned {r : Except ε α} {a : α} : Yields (returned r) a ↔ r = .ok a := by
  simp [Yields, returned]

@[simp] theorem yields_pure {a b : α} :
    Yields (pure a : ExceptT ε Option α) b ↔ a = b := by
  simp [Yields]

@[simp] theorem yields_throw {e : ε} {a : α} :
    ¬ Yields (throw e : ExceptT ε Option α) a := by
  simp [Yields]

@[simp] theorem yields_bind {x : ExceptT ε Option α} {f : α → ExceptT ε Option β} {b : β} :
    Yields (x >>= f) b ↔ ∃ a, Yields x a ∧ Yields (f a) b := by
  simp only [Yields, ExceptT.run_bind]
  rcases x.run with _ | (e | a) <;> simp

@[simp] theorem mapError_eq_ok {r : Except ε α} {f : ε → ε'} {a : α} :
    r.mapError f = .ok a ↔ r = .ok a := by
  cases r <;> simp [Except.mapError]

@[simp] theorem yields_adapt {x : ExceptT ε Option α} {f : ε → ε'} {a : α} :
    Yields (x.adapt f) a ↔ Yields x a := by
  simp only [Yields, ExceptT.run_adapt]
  rcases x.run with _ | (e | a) <;> simp

theorem bind_eq_ok {x : Except ε α} {f : α → Except ε β} {b : β} :
    x >>= f = .ok b ↔ ∃ a, x = .ok a ∧ f a = .ok b := by
  cases x <;> simp [Bind.bind, Except.bind]

theorem Yields.unique {x : ExceptT ε Option α} {a b : α} (ha : Yields x a) (hb : Yields x b) :
    a = b := by
  have h := Eq.trans (Eq.symm ha) hb
  simpa using h

theorem Fails.not_yields {x : ExceptT ε Option α} (h : Fails x) (a : α) : ¬ Yields x a := by
  obtain ⟨e, he⟩ := h
  simp [Yields, he]

theorem Returns.fails_iff {x : ExceptT ε Option α} (h : Returns x) :
    Fails x ↔ ∀ a, ¬ Yields x a := by
  simp only [Returns, Fails, Yields] at h ⊢
  rcases hrun : x.run with _ | (e | a)
  · exact absurd hrun h
  · simp
  · simp

@[simp] theorem returns_returned (r : Except ε α) : Returns (returned r) := by
  simp [Returns, returned]

@[simp] theorem returns_pure (a : α) : Returns (pure a : ExceptT ε Option α) := by
  simp [Returns]

theorem Returns.bind {x : ExceptT ε Option α} {f : α → ExceptT ε Option β} (hx : Returns x)
    (hf : ∀ a, Yields x a → Returns (f a)) : Returns (x >>= f) := by
  simp only [Returns, Yields, ExceptT.run_bind] at hx hf ⊢
  rcases hrun : x.run with _ | (e | a)
  · exact absurd hrun hx
  · simp
  · simpa using hf a hrun

theorem Returns.adapt {x : ExceptT ε Option α} (hx : Returns x) (f : ε → ε') :
    Returns (x.adapt f) := by
  simp only [Returns, ExceptT.run_adapt] at hx ⊢
  rcases hrun : x.run with _ | (e | a) <;> simp_all

end AxumServer.Fallible
