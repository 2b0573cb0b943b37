import AxumServer.Interleaving.Exec

/-! # Simulation of one system by another

Each step of the first system is answered by a run of the second, which may be empty, so
that related states stay related. What is known of all runs of the second system then
holds of the first, seen through the relation.
-/

namespace AxumServer.Interleaving

variable {σ τ υ α β γ : Type*}

structure Simulation (step : σ → α → Option σ) (P : σ → α → Prop) (step' : τ → β → Option τ)
    (Q : τ → β → Prop) (R : σ → τ → Prop) : Prop where
  answer : ∀ {s s' t a}, R s t → P s a → step s a = some s' →
    ∃ bs t', Exec step' Q t bs t' ∧ R s' t'

section Simulation
variable {step : σ → α → Option σ} {P : σ → α → Prop} {step' : τ → β → Option τ}
  {Q : τ → β → Prop} {R : σ → τ → Prop} {s s' : σ} {t t' : τ} {as : List α}

theorem Simulation.exec (h : Simulation step P step' Q R) (hrun : Exec step P s as s')
    (hst : R s t) : ∃ bs t', Exec step' Q t bs t' ∧ R s' t' := by
  induction hrun generalizing t with
  | nil => exact ⟨[], t, .nil t, hst⟩
  | cons guard move _ ih =>
    obtain ⟨bs, u, hbs, hu⟩ := h.answer hst guard move
    obtain ⟨cs, v, hcs, hv⟩ := ih hu
    exact ⟨bs ++ cs, v, hbs.append hcs, hv⟩

theorem Simulation.reachable (h : Simulation step P step' Q R) (hs : Reachable step P s s')
    (hst : R s t) : ∃ t', Reachable step' Q t t' ∧ R s' t' := by
  obtain ⟨as, hrun⟩ := hs
  obtain ⟨bs, t', hbs, ht'⟩ := h.exec hrun hst
  exact ⟨t', ⟨bs, hbs⟩, ht'⟩

/-- An invariant of the second system holds of the first, through the relation. -/
theorem Simulation.transfer {I : σ → Prop} {J : τ → Prop} (h : Simulation step P step' Q R)
    (hJ : ∀ t', Reachable step' Q t t' → J t') (hI : ∀ {s t}, R s t → J t → I s)
    (hs : Reachable step P s s') (hst : R s t) : I s' := by
  obtain ⟨t', ht', hR⟩ := h.reachable hs hst
  exact hI hR (hJ t' ht')

/-- A simulation that answers each step by at most one step. -/
theorem Simulation.of_step
    (h : ∀ {s s' t a}, R s t → P s a → step s a = some s' →
      R s' t ∨ ∃ b t', Q t b ∧ step' t b = some t' ∧ R s' t') : Simulation step P step' Q R where
  answer {s s' t a} hst guard move := by
    rcases h hst guard move with hs' | ⟨b, t', hQ, hb, hs'⟩
    · exact ⟨[], t, .nil t, hs'⟩
    · exact ⟨[b], t', .cons hQ hb (.nil t'), hs'⟩

end Simulation

end AxumServer.Interleaving
