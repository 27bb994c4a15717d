import Mathlib.Tactic

/-!
Runs of a labelled step relation.

A system is given by its steps `step s e s'`: from the state `s`, with the
observable event `e`, to the state `s'`. A run is a finite chain of steps, and its
trace is the list of their events, oldest first.

* `Run`: the runs, grown at the end, so that a property of the history is proved
  by looking at one more step.
* `Run.trans`, `Run.split`: runs concatenate, and a run over `tr₁ ++ tr₂` passes
  through a state that splits it there.
* `Run.invariant`: a property of trace and state that holds at the start and is
  kept by every step holds at the end.
* `Run.simulate`: a run of one system read through a map that sends its steps to
  steps of another is a run of the other, with the same trace.
* `Guarded.Step`, `Guarded.Allowed.run`: the same for a system given by a decidable
  guard and a next-state function, where a list of actions can be executed.
-/

namespace Library

universe u v w
variable {σ : Type u} {τ : Type v} {ε : Type w}

/-- A run from `s`: the trace so far and the state reached. -/
inductive Run (step : σ → ε → σ → Prop) (s : σ) : List ε → σ → Prop
  | nil : Run step s [] s
  | snoc {tr : List ε} {e : ε} {s₁ s₂ : σ} (h : Run step s tr s₁) (hs : step s₁ e s₂) :
      Run step s (tr ++ [e]) s₂

namespace Run

variable {step : σ → ε → σ → Prop} {s s₁ s₂ : σ} {tr tr₁ tr₂ : List ε} {e : ε}

/-- One step is a run. -/
lemma single (h : step s e s₁) : Run step s [e] s₁ :=
  snoc nil h

/-- Runs concatenate. -/
lemma trans (h₁ : Run step s tr₁ s₁) (h₂ : Run step s₁ tr₂ s₂) :
    Run step s (tr₁ ++ tr₂) s₂ := by
  induction h₂ with
  | nil => rwa [List.append_nil]
  | snoc _ hs ih =>
      rw [← List.append_assoc]
      exact snoc ih hs

/-- A step in front of a run. -/
lemma cons (h : step s e s₁) (h₂ : Run step s₁ tr s₂) : Run step s (e :: tr) s₂ :=
  (single h).trans h₂

/-- A run over a concatenated trace splits at the seam. -/
lemma split (h : Run step s (tr₁ ++ tr₂) s₂) :
    ∃ m, Run step s tr₁ m ∧ Run step m tr₂ s₂ := by
  generalize ht : tr₁ ++ tr₂ = tr at h
  induction h generalizing tr₂ with
  | nil =>
      obtain ⟨rfl, rfl⟩ := List.append_eq_nil_iff.mp ht
      exact ⟨s, nil, nil⟩
  | @snoc tr e m s₂ h hs ih =>
      rcases List.eq_nil_or_concat tr₂ with rfl | ⟨tr₃, e', rfl⟩
      · rw [List.append_nil] at ht
        exact ⟨s₂, ht ▸ snoc h hs, nil⟩
      · rw [List.concat_eq_append, ← List.append_assoc] at ht
        obtain ⟨h1, h2⟩ := List.append_inj' ht rfl
        obtain ⟨m', hm, hm'⟩ := ih h1
        obtain rfl : e' = e := by simpa using h2
        exact ⟨m', hm, by rw [List.concat_eq_append]; exact snoc hm' hs⟩

/-- The empty trace leads nowhere. -/
lemma eq_of_nil (h : Run step s [] s₁) : s₁ = s := by
  generalize ht : ([] : List ε) = l at h
  cases h with
  | nil => rfl
  | snoc _ _ => simp at ht

/-- The last event of a trace is the event of the last step. -/
lemma unsnoc (h : Run step s (tr ++ [e]) s₂) : ∃ m, Run step s tr m ∧ step m e s₂ := by
  generalize ht : tr ++ [e] = l at h
  cases h with
  | nil => simp at ht
  | snoc h hs =>
      obtain ⟨rfl, h2⟩ := List.append_inj' ht rfl
      obtain rfl := List.singleton_inj.mp h2
      exact ⟨_, h, hs⟩

/-- The first event of a trace is the event of the first step. -/
lemma uncons (h : Run step s (e :: tr) s₂) : ∃ m, step s e m ∧ Run step m tr s₂ := by
  have h0 : Run step s ([e] ++ tr) s₂ := h
  obtain ⟨m, h1, h2⟩ := h0.split
  have h1' : Run step s ([] ++ [e]) m := h1
  obtain ⟨m', h3, hs⟩ := h1'.unsnoc
  obtain rfl := h3.eq_of_nil
  exact ⟨m, hs, h2⟩

/-- The invariant rule: what holds at the start and is kept by every step of the
run, given the history, holds at its end. -/
lemma invariant {I : List ε → σ → Prop} (h0 : I [] s)
    (hstep : ∀ {tr e s₁ s₂}, Run step s tr s₁ → I tr s₁ → step s₁ e s₂ → I (tr ++ [e]) s₂)
    (h : Run step s tr s₁) : I tr s₁ := by
  induction h with
  | nil => exact h0
  | snoc h hs ih => exact hstep h ih hs

/-- Simulation: a map that sends the steps of one system, in the states of an
invariant, to steps of another sends runs to runs. -/
lemma simulate {step' : τ → ε → τ → Prop} {I : σ → Prop} (f : σ → τ) (h0 : I s)
    (hI : ∀ {s e s'}, I s → step s e s' → I s')
    (hf : ∀ {s e s'}, I s → step s e s' → step' (f s) e (f s'))
    (h : Run step s tr s₁) : Run step' (f s) tr (f s₁) ∧ I s₁ := by
  induction h with
  | nil => exact ⟨nil, h0⟩
  | snoc _ hs ih => exact ⟨snoc ih.1 (hf ih.2 hs), hI ih.2 hs⟩

end Run

/-! ### Systems with a guard and a next-state function -/

/-- A system in guarded-command form: an action may be taken where its guard
holds, and then determines the next state and the event. -/
structure Guarded (σ : Type u) (α : Type v) (ε : Type w) where
  Enabled : σ → α → Prop
  next : σ → α → σ
  event : σ → α → ε

namespace Guarded

variable {α : Type v} (M : Guarded σ α ε)

/-- The steps whose actions also satisfy `ok`. -/
def Step (ok : σ → α → Prop) (s : σ) (e : ε) (s' : σ) : Prop :=
  ∃ a, M.Enabled s a ∧ ok s a ∧ M.event s a = e ∧ M.next s a = s'

/-- The state after a list of actions. -/
def exec (s : σ) : List α → σ
  | [] => s
  | a :: as => exec (M.next s a) as

/-- The events of a list of actions. -/
def trace (s : σ) : List α → List ε
  | [] => []
  | a :: as => M.event s a :: trace (M.next s a) as

/-- Every action of the list is enabled and allowed where it is taken. -/
def Allowed (ok : σ → α → Prop) (s : σ) : List α → Prop
  | [] => True
  | a :: as => (M.Enabled s a ∧ ok s a) ∧ Allowed ok (M.next s a) as

/-- The check that a list of actions can be executed is decidable as soon as the
guards are. -/
instance decidableAllowed (ok : σ → α → Prop) [∀ s a, Decidable (M.Enabled s a)]
    [∀ s a, Decidable (ok s a)] : ∀ (as : List α) (s : σ), Decidable (M.Allowed ok s as)
  | [], _ => isTrue trivial
  | a :: as, s =>
      @instDecidableAnd _ _ inferInstance (decidableAllowed ok as (M.next s a))

variable {M} {ok : σ → α → Prop} {s : σ}

/-- An allowed list of actions is a run. -/
lemma Allowed.run : ∀ {as : List α} {s : σ}, M.Allowed ok s as →
    Run (M.Step ok) s (M.trace s as) (M.exec s as)
  | [], _, _ => Run.nil
  | a :: _, _, ⟨⟨he, hok⟩, h⟩ => Run.cons ⟨a, he, hok, rfl, rfl⟩ h.run

end Guarded

/-! ### Small systems -/

/-- In a run that is written out, the parties of a system of one or two are `0` and `1`. -/
instance neZero_one : NeZero (1 : ℕ) := ⟨one_ne_zero⟩

instance neZero_two : NeZero (2 : ℕ) := ⟨two_ne_zero⟩

end Library
