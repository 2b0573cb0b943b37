import AxumServer.Interleaving.SharedMemory
import AxumServer.Interleaving.Simulation

/-! # Threads that carry more

The threads of one program may carry more than those of another. If every move is one of
the other program once the rest is forgotten, then runs are, and what the threads of the
other program rely on holds of these.
-/

namespace AxumServer.Interleaving

variable {μ τ τ' ε ε' α α' : Type*}

def Threads.map (forget : τ → τ') (s : Threads μ τ) : Threads μ τ' where
  memory := s.memory
  pool := s.pool.map forget

structure Projection (prog : Program μ τ ε α) (prog' : Program μ τ' ε' α') (forget : τ → τ') :
    Prop where
  outside : ∀ {m n us e}, prog.outside e m = (n, us) →
    ∃ e', prog'.outside e' m = (n, us.map forget)
  step : ∀ {m n t u us x}, prog.step m t x = some (n, u, us) →
    ∃ y, prog'.step m (forget t) y = some (n, forget u, us.map forget)
  helper : ∀ {m t u x}, prog.helper m t x = some u →
    ∃ y, prog'.helper m (forget t) y = some (forget u)

variable {prog : Program μ τ ε α} {prog' : Program μ τ' ε' α'} {forget : τ → τ'}

theorem Projection.next {s s' : Threads μ τ} {a : Move ε α} (h : Projection prog prog' forget)
    (move : prog.next s a = some s') :
    ∃ b, prog'.next (s.map forget) b = some (s'.map forget) := by
  cases Program.rule_of_next move with
  | outside e m us he =>
    obtain ⟨e', he'⟩ := h.outside he
    refine ⟨.outside e', ?_⟩
    simp only [Program.next, Threads.map, he', List.map_append]
  | thread i x t u m us hi hstep =>
    obtain ⟨y, hy⟩ := h.step hstep
    refine ⟨.thread i y, ?_⟩
    have hi' : (s.map forget).pool[i]? = some (forget t) := by
      simp only [Threads.map, List.getElem?_map, hi, Option.map_some]
    rw [Program.next_thread hi' hy]
    simp only [Threads.map, List.map_append, List.map_set]
  | helper i x t u hi hhelper =>
    obtain ⟨y, hy⟩ := h.helper hhelper
    refine ⟨.helper i y, ?_⟩
    simp only [Program.next, Threads.map, List.getElem?_map, hi, Option.map_some,
      Option.bind_some, hy, List.map_set]

theorem Projection.simulation (h : Projection prog prog' forget) :
    Simulation prog.next Always prog'.next Always fun s t => t = s.map forget := by
  apply Simulation.of_step
  rintro s s' t a rfl - move
  obtain ⟨b, hb⟩ := h.next move
  exact .inr ⟨b, _, trivial, hb, rfl⟩

theorem Projection.guarantee {R : μ → μ → Prop} {I : μ → Prop} {T : μ → τ' → Prop}
    (h : Projection prog prog' forget) (hg : Guarantee prog' R I T) :
    Guarantee prog R I fun m t => T m (forget t) where
  refl := hg.refl
  trans := hg.trans
  mono := hg.mono
  outside hm he := by
    obtain ⟨e', he'⟩ := h.outside he
    obtain ⟨hR, hI, hus⟩ := hg.outside hm he'
    exact ⟨hR, hI, fun u hu => hus _ (List.mem_map_of_mem hu)⟩
  step hm ht hstep := by
    obtain ⟨y, hy⟩ := h.step hstep
    obtain ⟨hR, hI, hu, hus⟩ := hg.step hm ht hy
    exact ⟨hR, hI, hu, fun v hv => hus _ (List.mem_map_of_mem hv)⟩
  helper hm ht hhelper := by
    obtain ⟨y, hy⟩ := h.helper hhelper
    exact hg.helper hm ht hy

end AxumServer.Interleaving
