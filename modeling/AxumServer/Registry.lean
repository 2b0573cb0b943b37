import Mathlib.Data.List.Forall2

/-! # Registries filled one entry after another

A later entry replaces an earlier one under the same key, so a key finds the last entry registered
for it.
-/

namespace AxumServer.Registry

variable {κ ι ι' β : Type*} [DecidableEq κ]

/-- The entry a key finds after the entries of the list were registered in order. -/
def registered : List (κ × β) → κ → Option β
  | [], _ => none
  | (k', b) :: entries, k => registered entries k <|> if k' = k then some b else none

/-- `e` stands in the list and no later element has its key. -/
def LastFor (key : ι → κ) (items : List ι) (e : ι) : Prop :=
  ∃ pre post, items = pre ++ e :: post ∧ ∀ e' ∈ post, key e' ≠ key e

theorem registered_eq_none {entries : List (κ × β)} {k : κ} :
    registered entries k = none ↔ ∀ e ∈ entries, e.1 ≠ k := by
  induction entries with
  | nil => simp [registered]
  | cons e entries ih =>
    simp only [registered, List.mem_cons, forall_eq_or_imp, Option.orElse_eq_orElse,
      Option.orElse_eq_or, Option.or_eq_none_iff, ih]
    by_cases h : e.1 = k <;> simp [h]

theorem registered_eq_some {entries : List (κ × β)} {k : κ} {b : β} :
    registered entries k = some b ↔ LastFor Prod.fst entries (k, b) := by
  induction entries with
  | nil => simp [registered, LastFor]
  | cons e entries ih =>
    simp only [registered, Option.orElse_eq_orElse, Option.orElse_eq_or]
    constructor
    · intro h
      cases hrest : registered entries k with
      | some b' =>
        rw [hrest, Option.some_or, Option.some.injEq] at h
        subst h
        obtain ⟨pre, post, rfl, hpost⟩ := ih.mp hrest
        exact ⟨e :: pre, post, rfl, hpost⟩
      | none =>
        rw [hrest, Option.none_or] at h
        split_ifs at h with hk
        obtain ⟨k', b'⟩ := e
        cases h
        cases hk
        exact ⟨[], entries, rfl, registered_eq_none.mp hrest⟩
    · rintro ⟨pre, post, heq, hpost⟩
      cases pre with
      | nil =>
        rw [List.nil_append, List.cons.injEq] at heq
        obtain ⟨rfl, rfl⟩ := heq
        simp [registered_eq_none.mpr hpost]
      | cons e' pre =>
        rw [List.cons_append, List.cons.injEq] at heq
        obtain ⟨rfl, rfl⟩ := heq
        rw [ih.mpr ⟨pre, post, rfl, hpost⟩, Option.some_or]

theorem exists_mem_of_forall₂ {R : ι → ι' → Prop} {items : List ι} {items' : List ι'} {e' : ι'}
    (hR : List.Forall₂ R items items') (h : e' ∈ items') : ∃ e ∈ items, R e e' := by
  induction hR with
  | nil => cases h
  | @cons a a' _ _ ha _ ih =>
    rcases List.mem_cons.mp h with rfl | h
    · exact ⟨a, List.mem_cons_self, ha⟩
    · obtain ⟨e, he, hee'⟩ := ih h
      exact ⟨e, List.mem_cons_of_mem a he, hee'⟩

omit [DecidableEq κ] in
/-- Lists related element by element under the same keys have related last elements. -/
theorem LastFor.transport {R : ι → ι' → Prop} {key : ι → κ} {key' : ι' → κ} {items : List ι}
    {items' : List ι'} {e : ι} (hR : List.Forall₂ R items items')
    (hkey : ∀ e e', R e e' → key e = key' e') (h : LastFor key items e) :
    ∃ e', R e e' ∧ LastFor key' items' e' := by
  obtain ⟨pre, post, rfl, hpost⟩ := h
  induction pre generalizing items' with
  | nil =>
    obtain ⟨e', post', he, hrest, rfl⟩ := List.forall₂_cons_left_iff.mp hR
    refine ⟨e', he, [], post', rfl, fun a' ha' => ?_⟩
    obtain ⟨a, ha, haa'⟩ := exists_mem_of_forall₂ hrest ha'
    rw [← hkey _ _ haa', ← hkey _ _ he]
    exact hpost a ha
  | cons a pre ih =>
    obtain ⟨a', rest', -, hrest, rfl⟩ := List.forall₂_cons_left_iff.mp hR
    obtain ⟨e', he, pre', post', rfl, hpost'⟩ := ih hrest
    exact ⟨e', he, a' :: pre', post', rfl, hpost'⟩

end AxumServer.Registry
