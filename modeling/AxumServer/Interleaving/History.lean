import Mathlib.Data.List.Basic
import Mathlib.Data.List.Chain
import Mathlib.Data.List.TakeWhile

/-! # Histories

A history is a list of stamped events that only grows at its end. `Since` names
the part that was appended, `countSince` counts events after another, `Preceded` and
`FollowsAt` are orders between two kinds of events, and `notes` is what a reader takes
down of a history.
-/

namespace AxumServer.Interleaving

variable {τ ε β : Type*} {log log' : List (τ × ε)} {new l m evs : List ε} {p q : ε → Prop}
  {a b : ε → Bool}

def stamp (now : τ) (log : List (τ × ε)) (evs : List ε) : List (τ × ε) :=
  log ++ evs.map fun e => (now, e)

/-- The events `new` were appended to a history since it was `log`. -/
def Since (log log' : List (τ × ε)) (new : List ε) : Prop :=
  ∃ stamped, log' = log ++ stamped ∧ stamped.map Prod.snd = new

/-- How many events with `b` come after the first one with `a`. -/
def countSince (a b : ε → Bool) (log : List (τ × ε)) : ℕ :=
  (log.dropWhile fun e => !a e.2).countP fun e => b e.2

/-- Every event with `q` comes after one with `p`. -/
def Preceded (p q : ε → Prop) (l : List ε) : Prop :=
  ∀ l₁ e l₂, l = l₁ ++ e :: l₂ → q e → ∃ a ∈ l₁, p a

/-- Every event with `q` comes directly after one with `p`, at the same moment. -/
def FollowsAt (p q : ε → Prop) (log : List (τ × ε)) : Prop :=
  ∀ l₁ t e l₂, log = l₁ ++ (t, e) :: l₂ → q e → ∃ l₃ a, l₁ = l₃ ++ [(t, a)] ∧ p a

/-- Every event stands in the relation `P` to the events before it. -/
def AtEach (P : List ε → ε → Prop) (l : List ε) : Prop := ∀ l₁ e l₂, l = l₁ ++ e :: l₂ → P l₁ e

/-- What `f` takes down of a history. -/
def notes (f : ε → Option β) (log : List (τ × ε)) : List β := log.filterMap fun e => f e.2

/-- The part of a history that a condition selects. -/
def select (p : ε → Bool) (log : List (τ × ε)) : List (τ × ε) := log.filter fun e => p e.2

@[simp] theorem stamp_nil (now : τ) (log : List (τ × ε)) : stamp now log [] = log :=
  List.append_nil log

theorem notes_stamp (f : ε → Option β) (now : τ) (log : List (τ × ε)) (evs : List ε) :
    notes f (stamp now log evs) = notes f log ++ evs.filterMap f := by
  simp only [notes, stamp, List.filterMap_append, List.filterMap_map, Function.comp_def]

theorem select_stamp (p : ε → Bool) (now : τ) (log : List (τ × ε)) (evs : List ε) :
    select p (stamp now log evs) = stamp now (select p log) (evs.filter p) := by
  simp only [select, stamp, List.filter_append, List.filter_map, Function.comp_def]

theorem AtEach.nil {P : List ε → ε → Prop} : AtEach P [] := fun l₁ e l₂ h => by simp at h

theorem AtEach.snoc {P : List ε → ε → Prop} {e : ε} (h : AtEach P l) (he : P l e) :
    AtEach P (l ++ [e]) := by
  intro l₁ e' l₂ heq
  rcases List.eq_nil_or_concat l₂ with rfl | ⟨l₂, x, rfl⟩
  · obtain ⟨rfl, hlast⟩ := List.append_inj' heq rfl
    obtain rfl := List.singleton_inj.mp hlast
    exact he
  · have hend : l ++ [e] = (l₁ ++ e' :: l₂) ++ [x] := by
      rw [heq]
      simp
    exact h l₁ e' l₂ (List.append_inj' hend rfl).1

theorem FollowsAt.nil : FollowsAt p q ([] : List (τ × ε)) := fun l₁ t e l₂ h => by simp at h

theorem FollowsAt.append_of_forall_not {m : List (τ × ε)} (h : FollowsAt p q log)
    (hm : ∀ e ∈ m, ¬ q e.2) : FollowsAt p q (log ++ m) := by
  intro l₁ t e l₂ heq hq
  rcases List.append_eq_append_iff.mp heq with ⟨k, rfl, hk⟩ | ⟨k, rfl, hk⟩
  · exact absurd hq (hm (t, e) (by simp [hk]))
  · cases k with
    | nil => exact absurd hq (hm (t, e) (by simp at hk; simp [← hk]))
    | cons b k =>
      simp only [List.cons_append, List.cons.injEq] at hk
      obtain ⟨rfl, rfl⟩ := hk
      exact h l₁ t e k rfl hq

theorem FollowsAt.stamp (h : FollowsAt p q log) (hevs : ∀ e ∈ evs, ¬ q e) (now : τ) :
    FollowsAt p q (stamp now log evs) := by
  apply h.append_of_forall_not
  intro e he
  obtain ⟨e', he', rfl⟩ := List.mem_map.mp he
  exact hevs e' he'

theorem FollowsAt.stamp_pair {a b : ε} (h : FollowsAt p q log) (ha : p a) (hna : ¬ q a)
    (now : τ) : FollowsAt p q (Interleaving.stamp now log [a, b]) := by
  have hfirst : FollowsAt p q (log ++ [(now, a)]) :=
    h.append_of_forall_not (by simpa using hna)
  intro l₁ t e l₂ heq hq
  have hsplit : log ++ [(now, a)] ++ [(now, b)] = l₁ ++ (t, e) :: l₂ := by
    rw [← heq]
    simp [Interleaving.stamp]
  rcases List.eq_nil_or_concat l₂ with rfl | ⟨l₂, x, rfl⟩
  · obtain ⟨rfl, hbe⟩ := List.append_inj' hsplit rfl
    obtain ⟨rfl, rfl⟩ := Prod.mk.inj (List.singleton_inj.mp hbe)
    exact ⟨log, a, rfl, ha⟩
  · have hend : log ++ [(now, a)] ++ [(now, b)] = (l₁ ++ (t, e) :: l₂) ++ [x] := by
      rw [hsplit]
      simp
    exact hfirst l₁ t e l₂ (List.append_inj' hend rfl).1 hq

theorem mem_stamp {now t : τ} {e : ε} :
    (t, e) ∈ stamp now log evs ↔ (t, e) ∈ log ∨ t = now ∧ e ∈ evs := by
  simp only [stamp, List.mem_append, List.mem_map, Prod.mk.injEq]
  constructor
  · rintro (h | ⟨e', he, rfl, rfl⟩)
    · exact .inl h
    · exact .inr ⟨rfl, he⟩
  · rintro (h | ⟨rfl, he⟩)
    · exact .inl h
    · exact .inr ⟨e, he, rfl, rfl⟩

theorem Since.refl (log : List (τ × ε)) : Since log log [] := ⟨[], by simp, rfl⟩

theorem Since.stamp (h : Since log log' new) (now : τ) (evs : List ε) :
    Since log (stamp now log' evs) (new ++ evs) := by
  obtain ⟨stamped, rfl, rfl⟩ := h
  exact ⟨stamped ++ evs.map fun e => (now, e), by simp [Interleaving.stamp], by
    simp [Function.comp_def]⟩

theorem Since.trans {log'' : List (τ × ε)} (h : Since log log' l) (g : Since log' log'' m) :
    Since log log'' (l ++ m) := by
  obtain ⟨a, rfl, rfl⟩ := h
  obtain ⟨b, rfl, rfl⟩ := g
  exact ⟨a ++ b, by simp, by simp⟩

theorem Since.unique (h : Since log log' l) (g : Since log log' m) : l = m := by
  obtain ⟨a, rfl, rfl⟩ := h
  obtain ⟨b, hb, rfl⟩ := g
  rw [List.append_cancel_left hb]

theorem countSince_stamp (h : ∃ e ∈ log, a e.2 = true) (now : τ) (evs : List ε) :
    countSince a b (stamp now log evs) = countSince a b log + evs.countP b := by
  have hne : (log.dropWhile fun e => !a e.2) ≠ [] := by
    obtain ⟨e, he, hea⟩ := h
    intro hnil
    simpa [hea] using List.dropWhile_eq_nil_iff.mp hnil e he
  rw [countSince, stamp, List.dropWhile_append, if_neg (by simpa using hne), List.countP_append,
    List.countP_map]
  rfl

theorem countSince_first (h : ∀ e ∈ log, a e.2 = false) (now : τ) (e : ε) (he : b e = false) :
    countSince a b (stamp now log [e]) = 0 := by
  rw [countSince, stamp, List.dropWhile_append_of_pos (by simpa using h)]
  cases hae : a e <;> simp [hae, he]

theorem Preceded.nil : Preceded p q [] := fun l₁ e l₂ h => by simp at h

theorem Preceded.append_of_mem (h : Preceded p q l) (hp : ∃ a ∈ l, p a) :
    Preceded p q (l ++ m) := by
  intro l₁ e l₂ heq hq
  rcases List.append_eq_append_iff.mp heq with ⟨k, rfl, -⟩ | ⟨k, rfl, hk⟩
  · obtain ⟨a, ha, hpa⟩ := hp
    exact ⟨a, List.mem_append_left _ ha, hpa⟩
  · cases k with
    | nil =>
      obtain ⟨a, ha, hpa⟩ := hp
      exact ⟨a, by simpa using ha, hpa⟩
    | cons b k =>
      simp only [List.cons_append, List.cons.injEq] at hk
      obtain ⟨rfl, rfl⟩ := hk
      exact h l₁ e k rfl hq

theorem Preceded.append_of_forall_not (h : Preceded p q l) (hm : ∀ e ∈ m, ¬ q e) :
    Preceded p q (l ++ m) := by
  intro l₁ e l₂ heq hq
  rcases List.append_eq_append_iff.mp heq with ⟨k, rfl, hk⟩ | ⟨k, rfl, hk⟩
  · exact absurd hq (hm e (by simp [hk]))
  · cases k with
    | nil => exact absurd hq (hm e (by simp at hk; simp [← hk]))
    | cons b k =>
      simp only [List.cons_append, List.cons.injEq] at hk
      obtain ⟨rfl, rfl⟩ := hk
      exact h l₁ e k rfl hq

end AxumServer.Interleaving
