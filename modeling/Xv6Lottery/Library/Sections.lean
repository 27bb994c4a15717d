import Xv6Lottery.Library.Run
import Mathlib.Data.List.ReduceOption

/-!
Threads with critical sections, several locks, and an environment.

Where many locks protect the shared state, each of them only for short sections in which the
holder does not sleep, a section is one step. A step changes the shared state and wakes the
sleepers of some channels, or puts the thread to sleep on a channel without changing anything.
The environment (devices, interrupt handlers) takes steps of its own. Sleepers may also be woken
for no reason.

* `Sections`, `SecState`, `act`: the code and the machine that executes it.
* `SecStep`: the steps one by one; `act_step` reads a step of the machine as one of them, and
  `step_env` is the way back for the environment.
* `Simulates`, `Simulates.run`: **the simulation rule**. A relation to the states of an abstract
  system that every step keeps, with the events as the abstract system's steps.
* `Excuses`, `Excuses.run`: **the sleepers' rule**. Whoever sleeps on a channel has a reason to: no
  step takes the reason away without waking the channel.
-/

namespace Library

variable {ι σ τ χ κ η ε α : Type}

/-! ### The machine -/

/-- What a thread does next. -/
inductive Section (σ τ χ ε : Type)
  /-- nothing: the code does not go on this way, or not now -/
  | blocked
  | go (s : σ) (t : τ) (wakes : List χ) (e : Option ε)
  | sleep (c : χ) (t : τ)

/-- The code of the threads, whose choices are from `κ`, and the environment, whose choices are
from `η`. -/
structure Sections (ι σ τ χ κ η ε : Type) where
  thread : ι → κ → σ → τ → Section σ τ χ ε
  env : η → σ → Option (σ × List χ × Option ε)

/-- The shared state, the places of the threads in their code, and on what they sleep. -/
structure SecState (ι σ τ χ : Type) where
  shared : σ
  place : ι → τ
  asleep : ι → Option χ

/-- The actions. -/
inductive SecAct (ι κ η : Type)
  | run (i : ι) (k : κ)
  | env (h : η)
  | rouse (i : ι)

namespace SecState

/-- `wakeup`, for a list of channels. -/
def wake [DecidableEq χ] (s : SecState ι σ τ χ) (cs : List χ) : SecState ι σ τ χ :=
  { s with asleep := fun i => (s.asleep i).filter fun c => c ∉ cs }

end SecState

namespace Sections

section Machine

variable [DecidableEq ι] [DecidableEq χ] (M : Sections ι σ τ χ κ η ε)

/-- The effect of an action, if it is possible. -/
def act (s : SecState ι σ τ χ) : SecAct ι κ η → Option (Option ε × SecState ι σ τ χ)
  | .run i k =>
      match s.asleep i with
      | some _ => none
      | none =>
          match M.thread i k s.shared (s.place i) with
          | .blocked => none
          | .go s' t cs e =>
              some (e, { s.wake cs with shared := s', place := Function.update s.place i t })
          | .sleep c t =>
              some (none, { s with
                place := Function.update s.place i t
                asleep := Function.update s.asleep i (some c) })
  | .env h => (M.env h s.shared).map fun x => (x.2.2, { s.wake x.2.1 with shared := x.1 })
  | .rouse i => some (none, { s with asleep := Function.update s.asleep i none })

/-- The threads and the environment as a guarded system. -/
def machine : Guarded (SecState ι σ τ χ) (SecAct ι κ η) (Option ε) where
  Enabled s a := (M.act s a).isSome
  next s a := ((M.act s a).map Prod.snd).getD s
  event s a := ((M.act s a).map Prod.fst).getD none

instance (s : SecState ι σ τ χ) (a : SecAct ι κ η) : Decidable (M.machine.Enabled s a) :=
  inferInstanceAs (Decidable (_ = true))

/-- The runs in which the threads and the environment keep to the rules `ok`. -/
abbrev Runs (ok : SecState ι σ τ χ → SecAct ι κ η → Prop) (s₀ : SecState ι σ τ χ) :
    List (Option ε) → SecState ι σ τ χ → Prop :=
  Run (M.machine.Step ok) s₀

/-! ### Steps -/

/-- The steps, by what happens. -/
inductive SecStep (ok : SecState ι σ τ χ → SecAct ι κ η → Prop) (s : SecState ι σ τ χ) :
    Option ε → SecState ι σ τ χ → Prop
  | go {i : ι} {k : κ} {s' : σ} {t : τ} {cs : List χ} {e : Option ε} (hok : ok s (.run i k))
      (hm : M.thread i k s.shared (s.place i) = .go s' t cs e) :
      SecStep ok s e { s.wake cs with shared := s', place := Function.update s.place i t }
  | sleep {i : ι} {k : κ} {c : χ} {t : τ} (hok : ok s (.run i k))
      (hm : M.thread i k s.shared (s.place i) = .sleep c t) :
      SecStep ok s none { s with
        place := Function.update s.place i t
        asleep := Function.update s.asleep i (some c) }
  | env {h : η} {s' : σ} {cs : List χ} {e : Option ε} (hok : ok s (.env h))
      (hm : M.env h s.shared = some (s', cs, e)) :
      SecStep ok s e { s.wake cs with shared := s' }
  | rouse {i : ι} :
      SecStep ok s none { s with asleep := Function.update s.asleep i none }

variable {M} {ok : SecState ι σ τ χ → SecAct ι κ η → Prop}

/-- A step of the machine is one of the steps above. -/
lemma act_step {s s' : SecState ι σ τ χ} {e : Option ε} (h : M.machine.Step ok s e s') :
    M.SecStep ok s e s' := by
  obtain ⟨a, hen, hok, he, hs⟩ := h
  obtain ⟨⟨e₁, s₁⟩, hact⟩ := Option.isSome_iff_exists.mp (show (M.act s a).isSome from hen)
  obtain rfl : e₁ = e := by simpa [machine, hact] using he
  obtain rfl : s₁ = s' := by simpa [machine, hact] using hs
  clear he hs hen
  cases a with
  | run i k =>
      cases hi : s.asleep i with
      | some c => simp [act, hi] at hact
      | none =>
          cases hm : M.thread i k s.shared (s.place i) with
          | blocked => simp [act, hi, hm] at hact
          | go s' t cs e =>
              simp only [act, hi, hm, Option.some.injEq, Prod.mk.injEq] at hact
              obtain ⟨rfl, rfl⟩ := hact
              exact .go hok hm
          | sleep c t =>
              simp only [act, hi, hm, Option.some.injEq, Prod.mk.injEq] at hact
              obtain ⟨rfl, rfl⟩ := hact
              exact .sleep hok hm
  | env h =>
      obtain ⟨⟨s', cs, e⟩, hm, heq⟩ := Option.map_eq_some_iff.mp hact
      obtain ⟨rfl, rfl⟩ := Prod.mk.inj heq
      exact .env hok hm
  | rouse i =>
      simp only [act, Option.some.injEq, Prod.mk.injEq] at hact
      obtain ⟨rfl, rfl⟩ := hact
      exact .rouse

/-- A step of the environment. -/
lemma step_env {s : SecState ι σ τ χ} {h : η} {s' : σ} {cs : List χ} {e : Option ε}
    (hok : ok s (.env h)) (hm : M.env h s.shared = some (s', cs, e)) :
    M.machine.Step ok s e { s.wake cs with shared := s' } := by
  have hact : M.act s (.env h) = some (e, { s.wake cs with shared := s' }) := by simp [act, hm]
  exact ⟨.env h, by simp [machine, hact], hok, by simp [machine, hact], by simp [machine, hact]⟩

end Machine

/-! ### Simulation -/

section Simulation

variable [DecidableEq ι] [DecidableEq χ] {M : Sections ι σ τ χ κ η ε}
  {ok : SecState ι σ τ χ → SecAct ι κ η → Prop} {abs : α → ε → α → Prop}
  {R : α → σ → (ι → τ) → Prop}

/-- The abstract states `A'` that account for an event. -/
def Explains (abs : α → ε → α → Prop) (A : α) : Option ε → α → Prop
  | none, A' => A' = A
  | some e, A' => abs A e A'

/-- Every step keeps the relation `R`, and its event is a step of the abstract system. -/
structure Simulates (M : Sections ι σ τ χ κ η ε)
    (ok : SecState ι σ τ χ → SecAct ι κ η → Prop) (abs : α → ε → α → Prop)
    (R : α → σ → (ι → τ) → Prop) : Prop where
  go {A : α} {s : SecState ι σ τ χ} {i : ι} {k : κ} {s' : σ} {t : τ} {cs : List χ}
    {e : Option ε} (hR : R A s.shared s.place) (hok : ok s (.run i k))
    (hm : M.thread i k s.shared (s.place i) = .go s' t cs e) :
    ∃ A', Explains abs A e A' ∧ R A' s' (Function.update s.place i t)
  sleep {A : α} {s : SecState ι σ τ χ} {i : ι} {k : κ} {c : χ} {t : τ}
    (hR : R A s.shared s.place) (hok : ok s (.run i k))
    (hm : M.thread i k s.shared (s.place i) = .sleep c t) :
    R A s.shared (Function.update s.place i t)
  env {A : α} {s : SecState ι σ τ χ} {h : η} {s' : σ} {cs : List χ} {e : Option ε}
    (hR : R A s.shared s.place) (hok : ok s (.env h)) (hm : M.env h s.shared = some (s', cs, e)) :
    ∃ A', Explains abs A e A' ∧ R A' s' s.place

lemma Simulates.step (h : Simulates M ok abs R) {A : α} {s s' : SecState ι σ τ χ}
    {e : Option ε} (hR : R A s.shared s.place) (hs : M.machine.Step ok s e s') :
    ∃ A', Explains abs A e A' ∧ R A' s'.shared s'.place := by
  cases act_step hs with
  | go hok hm => exact h.go hR hok hm
  | sleep hok hm => exact ⟨A, rfl, h.sleep hR hok hm⟩
  | env hok hm => exact h.env (s := s) hR hok hm
  | rouse => exact ⟨A, rfl, hR⟩

/-- **The simulation rule.** -/
lemma Simulates.run (h : Simulates M ok abs R) {A₀ : α} {s₀ s : SecState ι σ τ χ}
    {tr : List (Option ε)} (h₀ : R A₀ s₀.shared s₀.place) (hrun : M.Runs ok s₀ tr s) :
    ∃ A, Run abs A₀ tr.reduceOption A ∧ R A s.shared s.place := by
  induction hrun with
  | nil => exact ⟨A₀, Run.nil, h₀⟩
  | @snoc tr e s₁ s₂ _ hs ih =>
      obtain ⟨A, hA, hR⟩ := ih
      obtain ⟨A', he, hR'⟩ := h.step hR hs
      refine ⟨A', ?_, hR'⟩
      rw [List.reduceOption_append]
      cases e with
      | none =>
          obtain rfl : A' = A := he
          simpa using hA
      | some e => exact hA.snoc he

/-! ### Sleepers -/

/-- No step takes the reason to sleep on a channel away without waking it. -/
structure Excuses (M : Sections ι σ τ χ κ η ε) (ok : SecState ι σ τ χ → SecAct ι κ η → Prop)
    (R : α → σ → (ι → τ) → Prop) (Reason : σ → χ → Prop) : Prop where
  go {A : α} {s : SecState ι σ τ χ} {i : ι} {k : κ} {s' : σ} {t : τ} {cs : List χ}
    {e : Option ε} {c : χ} (hR : R A s.shared s.place) (hok : ok s (.run i k))
    (hm : M.thread i k s.shared (s.place i) = .go s' t cs e) (hc : c ∉ cs)
    (hr : Reason s.shared c) : Reason s' c
  sleep {A : α} {s : SecState ι σ τ χ} {i : ι} {k : κ} {c : χ} {t : τ}
    (hR : R A s.shared s.place) (hok : ok s (.run i k))
    (hm : M.thread i k s.shared (s.place i) = .sleep c t) : Reason s.shared c
  env {A : α} {s : SecState ι σ τ χ} {h : η} {s' : σ} {cs : List χ} {e : Option ε} {c : χ}
    (hR : R A s.shared s.place) (hok : ok s (.env h)) (hm : M.env h s.shared = some (s', cs, e))
    (hc : c ∉ cs) (hr : Reason s.shared c) : Reason s' c

/-- **The sleepers' rule.** -/
lemma Excuses.run {Reason : σ → χ → Prop} (h : Simulates M ok abs R)
    (hx : Excuses M ok R Reason) {A₀ : α} {s₀ s : SecState ι σ τ χ} {tr : List (Option ε)}
    (h₀ : R A₀ s₀.shared s₀.place) (hs₀ : ∀ i, s₀.asleep i = none) (hrun : M.Runs ok s₀ tr s) :
    ∀ i c, s.asleep i = some c → Reason s.shared c := by
  induction hrun with
  | nil =>
      intro i c hi
      rw [hs₀ i] at hi
      cases hi
  | @snoc tr e s s' hrun hs ih =>
      obtain ⟨A, -, hR⟩ := h.run h₀ hrun
      intro j c hj
      cases act_step hs with
      | go hok hm =>
          obtain ⟨hj, hc⟩ := Option.filter_eq_some_iff.mp hj
          exact hx.go hR hok hm (by simpa using hc) (ih j c hj)
      | @sleep i k c' t hok hm =>
          rcases eq_or_ne j i with rfl | hji
          · obtain rfl : c' = c := by simpa using hj
            exact hx.sleep (s := s) hR hok hm
          · exact ih j c (by simpa [hji] using hj)
      | env hok hm =>
          obtain ⟨hj, hc⟩ := Option.filter_eq_some_iff.mp hj
          exact hx.env hR hok hm (by simpa using hc) (ih j c hj)
      | @rouse i =>
          rcases eq_or_ne j i with rfl | hji
          · simp at hj
          · exact ih j c (by simpa [hji] using hj)

end Simulation

end Sections

end Library
