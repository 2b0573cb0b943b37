import AxumServer.Interleaving.SharedMemory

/-! # What went before

These rules look back into the run that led to a state. What a thread holds, and what has
become of the memory, goes back to an operation that some thread made; and a cell holds
what the last operation wrote that wrote to it, which a journal of the run tells.
-/

namespace AxumServer.Interleaving

variable {μ τ ε α β : Type*}

namespace Program

/-- In the run `as` from `s` thread `i` made an operation with `P`, which is told of the
schedule before, the state, the thread and the answer. -/
def Did (prog : Program μ τ ε α) (s : Threads μ τ) (as : List (Move ε α)) (i : ℕ)
    (P : List (Move ε α) → Threads μ τ → τ → α → Prop) : Prop :=
  ∃ bs cs u t x, as = bs ++ .thread i x :: cs ∧ prog.Exec s bs u ∧ u.pool[i]? = some t ∧
    P bs u t x

def noted (note : τ → α → Option β) (s : Threads μ τ) : Move ε α → Option (ℕ × β)
  | .thread i x => (s.pool[i]?).bind fun t => (note t x).map (Prod.mk i)
  | _ => none

/-- The notes that are taken of a run, each with the thread it is about. -/
def journal (prog : Program μ τ ε α) (note : τ → α → Option β) :
    Threads μ τ → List (Move ε α) → List (ℕ × β)
  | _, [] => []
  | s, a :: as => (noted note s a).toList ++
    match prog.next s a with
    | some t => journal prog note t as
    | none => []

section
variable {prog : Program μ τ ε α} {note : τ → α → Option β} {s s' u : Threads μ τ}
  {a : Move ε α} {as bs : List (Move ε α)} {i : ℕ} {t : τ} {x : α}
  {P Q : List (Move ε α) → Threads μ τ → τ → α → Prop}

theorem Did.append (h : prog.Did s as i P) (bs : List (Move ε α)) : prog.Did s (as ++ bs) i P := by
  obtain ⟨ds, cs, u, t, x, rfl, hexec, hi, hP⟩ := h
  exact ⟨ds, cs ++ bs, u, t, x, by simp, hexec, hi, hP⟩

theorem did_snoc (h : prog.Exec s as u) (hi : u.pool[i]? = some t) (hP : P as u t x) :
    prog.Did s (as ++ [.thread i x]) i P :=
  ⟨as, [], u, t, x, rfl, h, hi, hP⟩

theorem Did.imp (h : prog.Did s as i P)
    (hPQ : ∀ bs u t x, prog.Exec s bs u → u.pool[i]? = some t → P bs u t x → Q bs u t x) :
    prog.Did s as i Q := by
  obtain ⟨bs, cs, u, t, x, rfl, hexec, hi, hP⟩ := h
  exact ⟨bs, cs, u, t, x, rfl, hexec, hi, hPQ bs u t x hexec hi hP⟩

theorem journal_append (h : prog.Exec s as u) (bs : List (Move ε α)) :
    prog.journal note s (as ++ bs) = prog.journal note s as ++ prog.journal note u bs := by
  induction h with
  | nil => rfl
  | cons _ move _ ih => simp only [List.cons_append, journal, move, ih, List.append_assoc]

theorem journal_snoc (h : prog.Exec s as u) (move : prog.next u a = some s') :
    prog.journal note s (as ++ [a]) = prog.journal note s as ++ (noted note u a).toList := by
  rw [journal_append h]
  simp only [journal, move, List.append_nil]

theorem mem_journal {b : β} (h : prog.Exec s as s') :
    (i, b) ∈ prog.journal note s as ↔ prog.Did s as i fun _ _ t x => note t x = some b := by
  constructor
  · intro hmem
    have hinv := Exec.trace_invariant (I := fun bs u => prog.Exec s bs u ∧
      ((i, b) ∈ prog.journal note s bs → prog.Did s bs i fun _ _ t x => note t x = some b)) h ?_
      ⟨.nil s, fun hmem => by cases hmem⟩
    · exact hinv.2 hmem
    · rintro bs u a v ⟨hexec, hdid⟩ hguard move
      refine ⟨hexec.append (.cons hguard move (.nil v)), fun hmem => ?_⟩
      rw [journal_snoc hexec move] at hmem
      rcases List.mem_append.mp hmem with hmem | hmem
      · exact (hdid hmem).append _
      · cases a with
        | outside | helper => cases hmem
        | thread k x =>
          obtain ⟨t, hk, hnote⟩ := Option.bind_eq_some_iff.mp (Option.mem_toList.mp hmem)
          obtain ⟨c, hc, heq⟩ := Option.map_eq_some_iff.mp hnote
          obtain ⟨rfl, rfl⟩ := Prod.mk.inj heq
          exact did_snoc hexec hk hc
  · rintro ⟨bs, cs, u, t, x, rfl, hexec, hi, hb⟩
    rw [journal_append hexec]
    simp [journal, noted, hi, hb]

end

end Program

section Guarantee
variable {prog : Program μ τ ε α} {R : μ → μ → Prop} {I : μ → Prop} {T : μ → τ → Prop}
  {s s' : Threads μ τ} {as : List (Move ε α)}

/-- What no thread holds at first, some thread came to hold by an operation of its own. -/
theorem Guarantee.origin (hg : Guarantee prog R I T) {K : τ → Prop} {P : μ → τ → α → Prop}
    (outside : ∀ {m n us e}, prog.outside e m = (n, us) → ∀ u ∈ us, ¬ K u)
    (step : ∀ {m n t u us x}, I m → T m t → prog.step m t x = some (n, u, us) →
      (K u → K t ∨ P m t x) ∧ ∀ v ∈ us, ¬ K v)
    (helper : ∀ {m t u x}, prog.helper m t x = some u → K u → K t)
    (h : prog.Exec s as s') (hs : s.Sound I T) (h0 : ∀ t ∈ s.pool, ¬ K t) {i : ℕ} {t : τ}
    (hi : s'.pool[i]? = some t) (hK : K t) :
    prog.Did s as i fun _ u t x => P u.memory t x := by
  have hinv := Exec.trace_invariant (I := fun bs u => prog.Exec s bs u ∧ u.Sound I T ∧
    ∀ i t, u.pool[i]? = some t → K t → prog.Did s bs i fun _ u t x => P u.memory t x) h ?_
    ⟨.nil s, hs, fun i t hi hK => absurd hK (h0 t (List.mem_of_getElem? hi))⟩
  · exact hinv.2.2 i t hi hK
  · rintro bs u a v ⟨hexec, hu, hthreads⟩ hguard move
    refine ⟨hexec.append (.cons hguard move (.nil v)), hg.next hu move, fun i t hi hK => ?_⟩
    have hrule := Program.rule_of_next move
    cases hrule with
    | outside e m us he =>
      rcases getElem?_append_cases hi with hi | hmem
      · exact (hthreads i t hi hK).append _
      · exact absurd hK (outside he t hmem)
    | thread k x w w' m us hk hstep =>
      obtain ⟨hown, hspawned⟩ := step hu.memory (hu.thread hk) hstep
      rcases getElem?_append_cases hi with hi | hmem
      · by_cases hik : k = i
        · subst hik
          rw [List.getElem?_set_self (List.getElem?_eq_some_iff.mp hk).1] at hi
          obtain rfl := Option.some.inj hi
          rcases hown hK with hw | hP
          · exact (hthreads k w hk hw).append _
          · exact Program.did_snoc hexec hk hP
        · rw [List.getElem?_set_ne hik] at hi
          exact (hthreads i t hi hK).append _
      · exact absurd hK (hspawned t hmem)
    | helper k x w w' hk hhelper =>
      by_cases hik : k = i
      · subst hik
        rw [List.getElem?_set_self (List.getElem?_eq_some_iff.mp hk).1] at hi
        obtain rfl := Option.some.inj hi
        exact (hthreads k w hk (helper hhelper hK)).append _
      · rw [List.getElem?_set_ne hik] at hi
        exact (hthreads i t hi hK).append _

/-- What the memory has come to, some operation brought about. -/
theorem Guarantee.cause (hg : Guarantee prog R I T) {K : μ → Prop} {P : μ → τ → α → Prop}
    (outside : ∀ {m n us e}, prog.outside e m = (n, us) → K n → K m)
    (step : ∀ {m n t u us x}, I m → T m t → prog.step m t x = some (n, u, us) → K n →
      K m ∨ P m t x)
    (h : prog.Exec s as s') (hs : s.Sound I T) (h0 : ¬ K s.memory) (hK : K s'.memory) :
    ∃ i, prog.Did s as i fun _ u t x => P u.memory t x := by
  have hinv := Exec.trace_invariant (I := fun bs u => prog.Exec s bs u ∧ u.Sound I T ∧
    (K u.memory → ∃ i, prog.Did s bs i fun _ u t x => P u.memory t x)) h ?_
    ⟨.nil s, hs, fun hK => absurd hK h0⟩
  · exact hinv.2.2 hK
  · rintro bs u a v ⟨hexec, hu, hcause⟩ hguard move
    refine ⟨hexec.append (.cons hguard move (.nil v)), hg.next hu move, fun hK => ?_⟩
    have before : K u.memory → ∃ i, prog.Did s (bs ++ [a]) i fun _ u t x => P u.memory t x :=
      fun hu => (hcause hu).imp fun _ hdid => hdid.append _
    have hrule := Program.rule_of_next move
    cases hrule with
    | outside e m us he => exact before (outside he hK)
    | thread k x w w' m us hk hstep =>
      rcases step hu.memory (hu.thread hk) hstep hK with hu | hP
      · exact before hu
      · exact ⟨k, Program.did_snoc hexec hk hP⟩
    | helper => exact before hK

/-- A cell that the operations write as `note` tells holds what was written last. -/
theorem Guarantee.last_write (hg : Guarantee prog R I T) {view : μ → β}
    {note : τ → α → Option β}
    (outside : ∀ {m n us e}, prog.outside e m = (n, us) → view n = view m)
    (step : ∀ {m n t u us x}, I m → T m t → prog.step m t x = some (n, u, us) →
      view n = (note t x).getD (view m))
    (h : prog.Exec s as s') (hs : s.Sound I T) :
    view s'.memory = ((prog.journal note s as).getLast?.map Prod.snd).getD (view s.memory) := by
  have hinv := Exec.trace_invariant (I := fun bs u => prog.Exec s bs u ∧ u.Sound I T ∧
    view u.memory = ((prog.journal note s bs).getLast?.map Prod.snd).getD (view s.memory)) h ?_
    ⟨.nil s, hs, rfl⟩
  · exact hinv.2.2
  · rintro bs u a v ⟨hexec, hu, hview⟩ hguard move
    refine ⟨hexec.append (.cons hguard move (.nil v)), hg.next hu move, ?_⟩
    rw [Program.journal_snoc hexec move]
    have hrule := Program.rule_of_next move
    cases hrule with
    | outside e m us he => simpa [Program.noted, hview] using outside he
    | helper => simpa [Program.noted] using hview
    | thread k x w w' m us hk hstep =>
      have hm := step hu.memory (hu.thread hk) hstep
      cases hn : note w x with
      | none => simpa [Program.noted, hk, hn, hview] using hm
      | some b => simpa [Program.noted, hk, hn] using hm

end Guarantee

/-! ## Publication -/

/-- A cell is written, then a latch is opened: an operation takes the cell to what `note`
tells of it, the latch opens by the operation of a thread that is `opening` it, and a
thread becomes so by writing the cell. -/
structure Publishes (prog : Program μ τ ε α) (I : μ → Prop) (T : μ → τ → Prop) (view : μ → β)
    (latch : μ → Prop) (opening : τ → Prop) (note : τ → α → Option β) : Prop where
  outside : ∀ {m n us e}, prog.outside e m = (n, us) →
    view n = view m ∧ (latch n → latch m) ∧ ∀ u ∈ us, ¬ opening u
  step : ∀ {m n t u us x}, I m → T m t → prog.step m t x = some (n, u, us) →
    view n = (note t x).getD (view m) ∧ (latch n → latch m ∨ opening t) ∧
      (opening u → opening t ∨ (note t x).isSome = true) ∧ ∀ v ∈ us, ¬ opening v
  helper : ∀ {m t u x}, prog.helper m t x = some u → opening u → opening t

section Publishes
variable {prog : Program μ τ ε α} {R : μ → μ → Prop} {I : μ → Prop} {T : μ → τ → Prop}
  {view : μ → β} {latch : μ → Prop} {opening : τ → Prop} {note : τ → α → Option β}
  {s s' : Threads μ τ} {as : List (Move ε α)}

/-- Behind the latch the cell holds what the last of its writers wrote. -/
theorem Publishes.latest (hp : Publishes prog I T view latch opening note)
    (hg : Guarantee prog R I T) (h : prog.Exec s as s') (hs : s.Sound I T)
    (h0 : ¬ latch s.memory) (hpool : ∀ t ∈ s.pool, ¬ opening t) (hlatch : latch s'.memory) :
    ∃ k, (prog.journal note s as).getLast? = some (k, view s'.memory) := by
  obtain ⟨k, bs, cs, u, t, x, has, hexec, hk, hopening⟩ :=
    hg.cause (P := fun _ t _ => opening t) (fun he => (hp.outside he).2.1)
      (fun hm ht hstep => (hp.step hm ht hstep).2.1) h hs h0 hlatch
  have hwrote := hg.origin (P := fun _ t x => (note t x).isSome = true)
    (fun he => (hp.outside he).2.2) (fun hm ht hstep => (hp.step hm ht hstep).2.2) hp.helper
    hexec hs hpool hk hopening
  have hview := hg.last_write (fun he => (hp.outside he).1)
    (fun hm ht hstep => (hp.step hm ht hstep).1) h hs
  cases hlast : (prog.journal note s as).getLast? with
  | none =>
    -- then nothing was written, but the thread that opened the latch had
    have hnil := List.getLast?_eq_none_iff.mp hlast
    obtain ⟨ds, es, w, t', x', hds, hw, hi, hsome⟩ := hwrote.append (.thread k x :: cs)
    obtain ⟨b, hb⟩ := Option.isSome_iff_exists.mp hsome
    have hmem : (k, b) ∈ prog.journal note s as :=
      (Program.mem_journal h).mpr ⟨ds, es, w, t', x', has.trans hds, hw, hi, hb⟩
    simp [hnil] at hmem
  | some e =>
    rw [hlast] at hview
    exact ⟨e.1, congrArg some (Prod.ext rfl hview.symm)⟩

end Publishes

end AxumServer.Interleaving
