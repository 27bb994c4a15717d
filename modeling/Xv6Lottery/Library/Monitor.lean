import Xv6Lottery.Library.Run
import Mathlib.Data.List.ReduceOption

/-!
Monitors: any number of threads, one lock, and sleeping on channels.

A thread is outside the lock, waiting for it, inside, or asleep on a channel. Inside, it
executes its code in steps; each of them changes the shared state, wakes the sleepers of a
channel, goes to sleep (which gives the lock back in the same step, and takes it again after
waking up) or releases the lock. Sleepers may also be woken for no reason, and code may be
told at any step that its thread has been killed.

* `Monitor`, `MonState`, `act`: the code of the threads and the machine that executes it.
* `MonStep`: the steps one by one; `act_step` reads a step of the machine as one of them.
* `Keeps`, `Keeps.run`: **the invariant rule**. `I` holds of the shared state whenever the lock
  is free, and `J` of the shared state and the place of the holder whenever it is not.
* `Rouses`, `Rouses.run`: **the sleepers' rule**. Whoever sleeps on a channel has a reason to,
  whenever the lock is free: a holder that takes the reason away owes a wakeup, and pays
  before it leaves.
* `Holding`, `Keeps.holding`: **the rule of critical sections**. What the holder of the lock sees
  is its own work since it took the lock.
-/

namespace Library

variable {ι σ τ χ κ ε : Type}

/-! ### The machine -/

/-- What a thread without the lock does next. -/
inductive Outer (σ τ ε : Type)
  /-- nothing: the code does not go on this way -/
  | stuck
  /-- it calls `acquire`, and goes on at `t` with the lock -/
  | enter (t : τ)
  /-- a step that needs no lock -/
  | go (s : σ) (t : τ) (e : Option ε)

/-- What the holder of the lock does next. -/
inductive Inner (σ τ χ ε : Type)
  | go (s : σ) (t : τ) (e : Option ε)
  | wakeup (c : χ) (t : τ)
  | sleep (c : χ) (t : τ)
  | release (t : τ) (e : Option ε)

/-- The code of the threads. Without the lock a step is chosen by `κ`; with the lock it depends
on whether the thread has been killed. -/
structure Monitor (ι σ τ χ κ ε : Type) where
  outer : ι → κ → σ → τ → Outer σ τ ε
  inner : ι → Bool → σ → τ → Inner σ τ χ ε

/-- Where a thread is. -/
inductive Thread (τ χ : Type)
  | outside (t : τ)
  | waiting (t : τ)
  | inside (t : τ)
  | asleep (c : χ) (t : τ)
  deriving DecidableEq

/-- The shared state, the holder of the lock and the threads. -/
structure MonState (ι σ τ χ : Type) where
  shared : σ
  lock : Option ι
  threads : ι → Thread τ χ

/-- The actions: a step without the lock, taking the lock, a step with it, and a wakeup for no
reason. -/
inductive MonAct (ι κ : Type)
  | outer (i : ι) (k : κ)
  | acquire (i : ι)
  | inner (i : ι) (killed : Bool)
  | rouse (i : ι)

namespace Thread

/-- The place in its code. -/
def place : Thread τ χ → τ
  | .outside t | .waiting t | .inside t | .asleep _ t => t

variable [DecidableEq χ]

/-- `wakeup(c)`, for one thread. -/
def wake (c : χ) : Thread τ χ → Thread τ χ
  | .asleep c' t => if c' = c then .waiting t else .asleep c' t
  | x => x

variable {c c' : χ} {x : Thread τ χ} {t : τ}

@[simp] lemma wake_eq_outside : x.wake c = .outside t ↔ x = .outside t := by
  cases x with
  | asleep c' t' =>
      simp only [wake]
      split_ifs <;> simp
  | _ => simp [wake]

@[simp] lemma wake_eq_inside : x.wake c = .inside t ↔ x = .inside t := by
  cases x with
  | asleep c' t' =>
      simp only [wake]
      split_ifs <;> simp
  | _ => simp [wake]

@[simp] lemma wake_eq_waiting :
    x.wake c = .waiting t ↔ x = .waiting t ∨ x = .asleep c t := by
  cases x with
  | asleep c' t' =>
      simp only [wake]
      split_ifs with h <;> simp [h]
  | _ => simp [wake]

@[simp] lemma wake_eq_asleep : x.wake c = .asleep c' t ↔ x = .asleep c' t ∧ c' ≠ c := by
  cases x with
  | asleep c' t' =>
      simp only [wake]
      split_ifs with h
      · subst h
        simp only [asleep.injEq, false_iff]
        rintro ⟨⟨rfl, -⟩, hne⟩
        exact hne rfl
      · simp only [asleep.injEq]
        constructor
        · rintro ⟨rfl, rfl⟩
          exact ⟨⟨rfl, rfl⟩, h⟩
        · rintro ⟨⟨rfl, rfl⟩, -⟩
          exact ⟨rfl, rfl⟩
  | _ => simp [wake]

@[simp] lemma place_wake : (x.wake c).place = x.place := by
  cases x with
  | asleep c' t =>
      simp only [wake]
      split_ifs <;> rfl
  | _ => rfl

end Thread

namespace MonState

/-- The places of all threads. -/
def places (s : MonState ι σ τ χ) (i : ι) : τ := (s.threads i).place

variable [DecidableEq ι] (s : MonState ι σ τ χ)

/-- One thread goes on at `x`. -/
def put (i : ι) (x : Thread τ χ) : MonState ι σ τ χ :=
  { s with threads := Function.update s.threads i x }

@[simp] lemma places_put (i : ι) (x : Thread τ χ) :
    (s.put i x).places = Function.update s.places i x.place := by
  funext j
  rcases eq_or_ne j i with rfl | hj
  · simp [places, put]
  · simp [places, put, hj]

variable [DecidableEq χ]

/-- The holder's step. -/
def move (i : ι) : Inner σ τ χ ε → Option ε × MonState ι σ τ χ
  | .go s' t e => (e, { s.put i (.inside t) with shared := s' })
  | .wakeup c t =>
      (none, { s with threads := Function.update (fun j => (s.threads j).wake c) i (.inside t) })
  | .sleep c t => (none, { s.put i (.asleep c t) with lock := none })
  | .release t e => (e, { s.put i (.outside t) with lock := none })

end MonState

namespace Monitor

section Machine

variable [DecidableEq ι] [DecidableEq χ] (M : Monitor ι σ τ χ κ ε)

/-- The effect of an action, if it is possible. -/
def act (s : MonState ι σ τ χ) : MonAct ι κ → Option (Option ε × MonState ι σ τ χ)
  | .outer i k =>
      match s.threads i with
      | .outside t =>
          match M.outer i k s.shared t with
          | .stuck => none
          | .enter t' => some (none, s.put i (.waiting t'))
          | .go s' t' e => some (e, { s.put i (.outside t') with shared := s' })
      | _ => none
  | .acquire i =>
      match s.threads i, s.lock with
      | .waiting t, none => some (none, { s.put i (.inside t) with lock := some i })
      | _, _ => none
  | .inner i killed =>
      match s.threads i with
      | .inside t => some (s.move i (M.inner i killed s.shared t))
      | _ => none
  | .rouse i =>
      match s.threads i with
      | .asleep _ t => some (none, s.put i (.waiting t))
      | _ => none

/-- The monitor as a guarded system. -/
def machine : Guarded (MonState ι σ τ χ) (MonAct ι κ) (Option ε) where
  Enabled s a := (M.act s a).isSome
  next s a := ((M.act s a).map Prod.snd).getD s
  event s a := ((M.act s a).map Prod.fst).getD none

instance (s : MonState ι σ τ χ) (a : MonAct ι κ) : Decidable (M.machine.Enabled s a) :=
  inferInstanceAs (Decidable (_ = true))

/-- The calls made from outside satisfy `K`. -/
def Calls (K : κ → Prop) (_ : MonState ι σ τ χ) : MonAct ι κ → Prop
  | .outer _ k => K k
  | _ => True

instance (K : κ → Prop) [DecidablePred K] (s : MonState ι σ τ χ) (a : MonAct ι κ) :
    Decidable (Calls K s a) := by
  cases a <;> dsimp only [Calls] <;> infer_instance

/-- The runs of the monitor whose calls satisfy `K`. -/
abbrev Runs (K : κ → Prop) (s₀ : MonState ι σ τ χ) :
    List (Option ε) → MonState ι σ τ χ → Prop :=
  Run (M.machine.Step (Calls K)) s₀

/-! ### Steps -/

/-- The steps of a monitor, by what the thread `i` does. -/
inductive MonStep (K : κ → Prop) (s : MonState ι σ τ χ) : Option ε → MonState ι σ τ χ → Prop
  | enter {i : ι} {k : κ} {t t' : τ} (hk : K k) (ht : s.threads i = .outside t)
      (hm : M.outer i k s.shared t = .enter t') : MonStep K s none (s.put i (.waiting t'))
  | outer {i : ι} {k : κ} {t t' : τ} {s' : σ} {e : Option ε} (hk : K k)
      (ht : s.threads i = .outside t) (hm : M.outer i k s.shared t = .go s' t' e) :
      MonStep K s e { s.put i (.outside t') with shared := s' }
  | acquire {i : ι} {t : τ} (ht : s.threads i = .waiting t) (hl : s.lock = none) :
      MonStep K s none { s.put i (.inside t) with lock := some i }
  | go {i : ι} {b : Bool} {t t' : τ} {s' : σ} {e : Option ε} (ht : s.threads i = .inside t)
      (hm : M.inner i b s.shared t = .go s' t' e) :
      MonStep K s e { s.put i (.inside t') with shared := s' }
  | wakeup {i : ι} {b : Bool} {t t' : τ} {c : χ} (ht : s.threads i = .inside t)
      (hm : M.inner i b s.shared t = .wakeup c t') :
      MonStep K s none
        { s with threads := Function.update (fun j => (s.threads j).wake c) i (.inside t') }
  | sleep {i : ι} {b : Bool} {t t' : τ} {c : χ} (ht : s.threads i = .inside t)
      (hm : M.inner i b s.shared t = .sleep c t') :
      MonStep K s none { s.put i (.asleep c t') with lock := none }
  | release {i : ι} {b : Bool} {t t' : τ} {e : Option ε} (ht : s.threads i = .inside t)
      (hm : M.inner i b s.shared t = .release t' e) :
      MonStep K s e { s.put i (.outside t') with lock := none }
  | rouse {i : ι} {c : χ} {t : τ} (ht : s.threads i = .asleep c t) :
      MonStep K s none (s.put i (.waiting t))

variable {M}

/-- A step of the machine is one of the steps above. -/
lemma act_step {K : κ → Prop} {s s' : MonState ι σ τ χ} {e : Option ε}
    (h : M.machine.Step (Calls K) s e s') : M.MonStep K s e s' := by
  obtain ⟨a, hen, hk, he, hs⟩ := h
  obtain ⟨⟨e', s''⟩, hact⟩ := Option.isSome_iff_exists.mp (show (M.act s a).isSome from hen)
  obtain rfl : e' = e := by simpa [machine, hact] using he
  obtain rfl : s'' = s' := by simpa [machine, hact] using hs
  clear he hs hen
  cases a with
  | outer i k =>
      cases ht : s.threads i with
      | outside t =>
          cases hm : M.outer i k s.shared t with
          | stuck => simp [act, ht, hm] at hact
          | enter t' =>
              obtain ⟨rfl, rfl⟩ : none = e' ∧ s.put i (.waiting t') = s'' := by
                simpa [act, ht, hm] using hact
              exact .enter hk ht hm
          | go s₁ t' e =>
              obtain ⟨rfl, rfl⟩ : e = e' ∧ { s.put i (.outside t') with shared := s₁ } = s'' := by
                simpa [act, ht, hm] using hact
              exact .outer hk ht hm
      | _ => simp [act, ht] at hact
  | acquire i =>
      cases ht : s.threads i with
      | waiting t =>
          cases hl : s.lock with
          | some j => simp [act, ht, hl] at hact
          | none =>
              obtain ⟨rfl, rfl⟩ :
                  none = e' ∧ { s.put i (.inside t) with lock := some i } = s'' := by
                simpa [act, ht, hl] using hact
              exact .acquire ht hl
      | _ => simp [act, ht] at hact
  | inner i b =>
      cases ht : s.threads i with
      | inside t =>
          have hmove : s.move i (M.inner i b s.shared t) = (e', s'') := by
            simpa [act, ht] using hact
          cases hm : M.inner i b s.shared t with
          | go s₁ t' e =>
              obtain ⟨rfl, rfl⟩ := Prod.mk.inj ((congrArg (s.move i) hm).symm.trans hmove)
              exact .go ht hm
          | wakeup c t' =>
              obtain ⟨rfl, rfl⟩ := Prod.mk.inj ((congrArg (s.move i) hm).symm.trans hmove)
              exact .wakeup ht hm
          | sleep c t' =>
              obtain ⟨rfl, rfl⟩ := Prod.mk.inj ((congrArg (s.move i) hm).symm.trans hmove)
              exact .sleep ht hm
          | release t' e =>
              obtain ⟨rfl, rfl⟩ := Prod.mk.inj ((congrArg (s.move i) hm).symm.trans hmove)
              exact .release ht hm
      | _ => simp [act, ht] at hact
  | rouse i =>
      cases ht : s.threads i with
      | asleep c t =>
          obtain ⟨rfl, rfl⟩ : none = e' ∧ s.put i (.waiting t) = s'' := by
            simpa [act, ht] using hact
          exact .rouse ht
      | _ => simp [act, ht] at hact

/-- More calls are allowed, more runs are possible. -/
lemma Runs.mono {K K' : κ → Prop} (hK : ∀ k, K k → K' k) {s₀ s : MonState ι σ τ χ}
    {tr : List (Option ε)} (h : M.Runs K s₀ tr s) : M.Runs K' s₀ tr s := by
  induction h with
  | nil => exact Run.nil
  | snoc _ hs ih =>
      obtain ⟨a, hen, hk, he, hn⟩ := hs
      refine ih.snoc ⟨a, hen, ?_, he, hn⟩
      cases a with
      | outer i k => exact hK k hk
      | _ => trivial

/-! ### Places

For facts about who is where in the code it does not matter whether a thread waits, sleeps or is
inside. -/

/-- What a step of the thread `i` does to the shared state and to its place. -/
inductive Effect (M : Monitor ι σ τ χ κ ε) (K : κ → Prop) (i : ι) (s : σ) (t : τ) :
    σ → τ → Option ε → Prop
  | stay : Effect M K i s t s t none
  | enter {k : κ} {t' : τ} (hk : K k) (hm : M.outer i k s t = .enter t') :
      Effect M K i s t s t' none
  | outer {k : κ} {s' : σ} {t' : τ} {e : Option ε} (hk : K k)
      (hm : M.outer i k s t = .go s' t' e) : Effect M K i s t s' t' e
  | go {b : Bool} {s' : σ} {t' : τ} {e : Option ε} (hm : M.inner i b s t = .go s' t' e) :
      Effect M K i s t s' t' e
  | wakeup {b : Bool} {c : χ} {t' : τ} (hm : M.inner i b s t = .wakeup c t') :
      Effect M K i s t s t' none
  | sleep {b : Bool} {c : χ} {t' : τ} (hm : M.inner i b s t = .sleep c t') :
      Effect M K i s t s t' none
  | release {b : Bool} {t' : τ} {e : Option ε} (hm : M.inner i b s t = .release t' e) :
      Effect M K i s t s t' e

/-- A step moves one thread. -/
lemma MonStep.effect {K : κ → Prop} {s s' : MonState ι σ τ χ} {e : Option ε}
    (h : M.MonStep K s e s') :
    ∃ i t', s'.places = Function.update s.places i t' ∧
      Effect M K i s.shared (s.places i) s'.shared t' e := by
  have hplace : ∀ {i x}, s.threads i = x → s.places i = x.place := fun h => congrArg _ h
  cases h with
  | enter hk ht hm =>
      exact ⟨_, _, s.places_put _ _, by rw [hplace ht]; exact .enter hk hm⟩
  | outer hk ht hm =>
      exact ⟨_, _, s.places_put _ _, by rw [hplace ht]; exact .outer hk hm⟩
  | acquire ht hl =>
      exact ⟨_, _, s.places_put _ _, by rw [hplace ht]; exact .stay⟩
  | go ht hm =>
      exact ⟨_, _, s.places_put _ _, by rw [hplace ht]; exact .go hm⟩
  | @wakeup i b t t' c ht hm =>
      refine ⟨i, t', ?_, by rw [hplace ht]; exact .wakeup hm⟩
      funext j
      rcases eq_or_ne j i with rfl | hj
      · simp [MonState.places, Thread.place]
      · simp [MonState.places, hj]
  | sleep ht hm =>
      exact ⟨_, _, s.places_put _ _, by rw [hplace ht]; exact .sleep hm⟩
  | release ht hm =>
      exact ⟨_, _, s.places_put _ _, by rw [hplace ht]; exact .release hm⟩
  | rouse ht =>
      exact ⟨_, _, s.places_put _ _, by rw [hplace ht]; exact .stay⟩

end Machine

/-! ### The invariant rule -/

section Rules

variable (M : Monitor ι σ τ χ κ ε) (K : κ → Prop) (W : τ → Prop) (I : List ε → σ → Prop)
  (J : List ε → σ → τ → Prop)

/-- What the code has to keep: `W` describes the places at which a thread takes the lock, `I` the
shared state when the lock is free, `J` the shared state and the place of the holder. The list
is the history of the events so far. -/
structure Keeps : Prop where
  call : ∀ {i k s t t'}, K k → M.outer i k s t = .enter t' → W t'
  enter : ∀ {h s t}, W t → I h s → J h s t
  outer : ∀ {h i k s t s' t' e}, K k → M.outer i k s t = .go s' t' e →
    (I h s → I (h ++ e.toList) s') ∧ ∀ u, J h s u → J (h ++ e.toList) s' u
  go : ∀ {h i b s t s' t' e}, J h s t → M.inner i b s t = .go s' t' e → J (h ++ e.toList) s' t'
  wakeup : ∀ {h i b s t c t'}, J h s t → M.inner i b s t = .wakeup c t' → J h s t'
  sleep : ∀ {h i b s t c t'}, J h s t → M.inner i b s t = .sleep c t' → W t' ∧ I h s
  release : ∀ {h i b s t t' e}, J h s t → M.inner i b s t = .release t' e → I (h ++ e.toList) s

/-- The state after the history `h`. -/
structure Sound (h : List ε) (s : MonState ι σ τ χ) : Prop where
  held : ∀ i, s.lock = some i ↔ ∃ t, s.threads i = .inside t
  waits : ∀ i t, s.threads i = .waiting t → W t
  sleeps : ∀ i c t, s.threads i = .asleep c t → W t
  free : s.lock = none → I h s.shared
  busy : ∀ i t, s.threads i = .inside t → J h s.shared t

/-- The lock is free and every thread is outside. -/
structure Fresh (s : MonState ι σ τ χ) : Prop where
  free : s.lock = none
  outside : ∀ i, ∃ t, s.threads i = .outside t

variable {M K W I J} {s s' : MonState ι σ τ χ} {h : List ε} {e : Option ε} {i j : ι}

lemma Fresh.sound (hs : Fresh s) (h0 : I [] s.shared) : Sound W I J [] s where
  held i := by
    obtain ⟨t, ht⟩ := hs.outside i
    simp [hs.free, ht]
  waits i t hi := by
    obtain ⟨t', ht⟩ := hs.outside i
    simp [ht] at hi
  sleeps i c t hi := by
    obtain ⟨t', ht⟩ := hs.outside i
    simp [ht] at hi
  free _ := h0
  busy i t hi := by
    obtain ⟨t', ht⟩ := hs.outside i
    simp [ht] at hi

namespace Sound

variable (hs : Sound W I J h s)
include hs

lemma lock_eq {t : τ} (ht : s.threads i = .inside t) : s.lock = some i :=
  (hs.held i).mpr ⟨t, ht⟩

/-- Only one thread is inside. -/
lemma inside_unique {t u : τ} (hi : s.threads i = .inside t) (hj : s.threads j = .inside u) :
    i = j :=
  Option.some.inj ((hs.lock_eq hi).symm.trans (hs.lock_eq hj))

variable [DecidableEq ι]

/-- A thread that is not inside goes on at a place that is not inside either; the shared state
and the history may change. -/
lemma aside {x : Thread τ χ} {w : σ} {h₁ : List ε} (hi : ∀ t, s.threads i ≠ .inside t)
    (hx : ∀ t, x ≠ .inside t) (hw : ∀ t, x = .waiting t → W t)
    (ha : ∀ c t, x = .asleep c t → W t) (hI : I h s.shared → I h₁ w)
    (hJ : ∀ u, J h s.shared u → J h₁ w u) :
    Sound W I J h₁ { s.put i x with shared := w } where
  held j := by
    rcases eq_or_ne j i with rfl | hj
    · simp [MonState.put, hs.held j, hi, hx]
    · simp [MonState.put, hj, hs.held j]
  waits j t hj := by
    rcases eq_or_ne j i with rfl | hne
    · exact hw t (by simpa [MonState.put] using hj)
    · exact hs.waits j t (by simpa [MonState.put, hne] using hj)
  sleeps j c t hj := by
    rcases eq_or_ne j i with rfl | hne
    · exact ha c t (by simpa [MonState.put] using hj)
    · exact hs.sleeps j c t (by simpa [MonState.put, hne] using hj)
  free hl := hI (hs.free hl)
  busy j t hj := by
    rcases eq_or_ne j i with rfl | hne
    · exact absurd (by simpa [MonState.put] using hj) (hx t)
    · exact hJ t (hs.busy j t (by simpa [MonState.put, hne] using hj))

/-- The holder leaves the lock, to a place that is not inside. -/
lemma leave {x : Thread τ χ} {t : τ} {h₁ : List ε} (hi : s.threads i = .inside t)
    (hx : ∀ t, x ≠ .inside t) (hw : ∀ t, x ≠ .waiting t) (ha : ∀ c t, x = .asleep c t → W t)
    (hI : I h₁ s.shared) : Sound W I J h₁ { s.put i x with lock := none } where
  held j := by
    rcases eq_or_ne j i with rfl | hj
    · simp [MonState.put, hx]
    · have hne : ∀ u, s.threads j ≠ .inside u := fun u hu => hj (hs.inside_unique hu hi)
      simp [MonState.put, hj, hne]
  waits j t hj := by
    rcases eq_or_ne j i with rfl | hne
    · exact absurd (by simpa [MonState.put] using hj) (hw t)
    · exact hs.waits j t (by simpa [MonState.put, hne] using hj)
  sleeps j c t hj := by
    rcases eq_or_ne j i with rfl | hne
    · exact ha c t (by simpa [MonState.put] using hj)
    · exact hs.sleeps j c t (by simpa [MonState.put, hne] using hj)
  free _ := hI
  busy j u hj := by
    rcases eq_or_ne j i with rfl | hne
    · exact absurd (by simpa [MonState.put] using hj) (hx u)
    · exact absurd (hs.inside_unique (by simpa [MonState.put, hne] using hj) hi) hne

/-- The holder goes on inside. -/
lemma stay {t t' : τ} {s₁ : σ} {h₁ : List ε} (hi : s.threads i = .inside t) (hJ : J h₁ s₁ t') :
    Sound W I J h₁ { s.put i (.inside t') with shared := s₁ } where
  held j := by
    rcases eq_or_ne j i with rfl | hj
    · simp [MonState.put, hs.held j, hi]
    · simp [MonState.put, hj, hs.held j]
  waits j u hj := by
    rcases eq_or_ne j i with rfl | hne
    · simp [MonState.put] at hj
    · exact hs.waits j u (by simpa [MonState.put, hne] using hj)
  sleeps j c u hj := by
    rcases eq_or_ne j i with rfl | hne
    · simp [MonState.put] at hj
    · exact hs.sleeps j c u (by simpa [MonState.put, hne] using hj)
  free hl := by
    have hsome : s.lock = none := hl
    rw [hs.lock_eq hi] at hsome
    cases hsome
  busy j u hj := by
    rcases eq_or_ne j i with rfl | hne
    · obtain rfl : t' = u := by simpa [MonState.put] using hj
      exact hJ
    · exact absurd (hs.inside_unique (by simpa [MonState.put, hne] using hj) hi) hne

/-- A free lock is taken. -/
lemma take {t : τ} (hi : s.threads i = .waiting t) (hl : s.lock = none) (hJ : J h s.shared t) :
    Sound W I J h { s.put i (.inside t) with lock := some i } where
  held j := by
    rcases eq_or_ne j i with rfl | hj
    · simp [MonState.put]
    · have hne : ∀ u, s.threads j ≠ .inside u := fun u hu => by
        simpa [hl] using (hs.held j).mpr ⟨u, hu⟩
      simp [MonState.put, hj, hne, Ne.symm hj]
  waits j u hj := by
    rcases eq_or_ne j i with rfl | hne
    · simp [MonState.put] at hj
    · exact hs.waits j u (by simpa [MonState.put, hne] using hj)
  sleeps j c u hj := by
    rcases eq_or_ne j i with rfl | hne
    · simp [MonState.put] at hj
    · exact hs.sleeps j c u (by simpa [MonState.put, hne] using hj)
  free hl' := by simp at hl'
  busy j u hj := by
    rcases eq_or_ne j i with rfl | hne
    · obtain rfl : t = u := by simpa [MonState.put] using hj
      exact hJ
    · have hin : s.threads j = .inside u := by simpa [MonState.put, hne] using hj
      simpa [hl] using hs.lock_eq hin

omit [DecidableEq ι] in
/-- `wakeup` moves sleepers to the lock. -/
lemma wakeAll [DecidableEq χ] (c : χ) :
    Sound W I J h { s with threads := fun j => (s.threads j).wake c } where
  held j := by simp [hs.held j]
  waits j t hj := by
    rcases Thread.wake_eq_waiting.mp hj with hj | hj
    · exact hs.waits j t hj
    · exact hs.sleeps j c t hj
  sleeps j c' t hj := hs.sleeps j c' t (Thread.wake_eq_asleep.mp hj).1
  free := hs.free
  busy j t hj := hs.busy j t (Thread.wake_eq_inside.mp hj)

end Sound

variable [DecidableEq ι] [DecidableEq χ]

/-- One step keeps a sound state sound. -/
lemma Keeps.step (hM : Keeps M K W I J) (hs : Sound W I J h s) (hstep : M.MonStep K s e s') :
    Sound W I J (h ++ e.toList) s' := by
  cases hstep with
  | enter hk ht hm =>
      refine (hs.aside (x := .waiting _) (w := s.shared) (by simp [ht]) (by simp) ?_ (by simp)
        ?_ ?_)
      · intro t' ht'
        cases ht'
        exact hM.call hk hm
      · simp
      · simp
  | outer hk ht hm =>
      exact hs.aside (by simp [ht]) (by simp) (by simp) (by simp) (hM.outer hk hm).1
        (hM.outer hk hm).2
  | acquire ht hl =>
      simpa using hs.take ht hl (hM.enter (hs.waits _ _ ht) (hs.free hl))
  | go ht hm => exact hs.stay ht (hM.go (hs.busy _ _ ht) hm)
  | @wakeup i b t t' c ht hm =>
      have hin := Thread.wake_eq_inside (c := c).mpr ht
      have hstay := (hs.wakeAll c).stay hin (hM.wakeup (hs.busy _ _ ht) hm)
      rwa [Option.toList_none, List.append_nil]
  | sleep ht hm =>
      obtain ⟨hW, hI⟩ := hM.sleep (hs.busy _ _ ht) hm
      refine hs.leave ht (by simp) (by simp) ?_ (by simpa using hI)
      rintro c t' ⟨-, rfl⟩
      exact hW
  | release ht hm =>
      exact hs.leave ht (by simp) (by simp) (by simp) (hM.release (hs.busy _ _ ht) hm)
  | rouse ht =>
      refine (hs.aside (x := .waiting _) (w := s.shared) (by simp [ht]) (by simp) ?_ (by simp)
        ?_ ?_)
      · intro t' ht'
        cases ht'
        exact hs.sleeps _ _ _ ht
      · simp
      · simp

/-- **The invariant rule for monitors.** -/
lemma Keeps.run (hM : Keeps M K W I J) {s₀ : MonState ι σ τ χ} (h0 : Fresh s₀)
    (hI : I [] s₀.shared) {tr : List (Option ε)} (hrun : M.Runs K s₀ tr s) :
    Sound W I J tr.reduceOption s := by
  refine Run.invariant (I := fun tr s => Sound W I J tr.reduceOption s) (h0.sound hI) ?_ hrun
  intro tr e s₁ s₂ _ hs hstep
  rw [← List.concat_eq_append, List.reduceOption_concat]
  exact hM.step hs (act_step hstep)

/-! ### The sleepers' rule -/

variable (M K J) (G : σ → τ → Prop) (A : List ε → χ → σ → Prop) (D : χ → τ → Prop)

/-- `A` is the reason to sleep on a channel, and `D` says at which places the holder owes a wakeup
of it. Whoever goes to sleep has the reason; a step that takes it away leaves a debt; nobody
leaves the lock in debt. Steps without the lock keep the reasons, given what is known (`G`) at
the places outside. -/
structure Rouses : Prop where
  outer : ∀ {h i k s t s' t' e c}, K k → G s t → M.outer i k s t = .go s' t' e → A h c s →
    A (h ++ e.toList) c s'
  go : ∀ {h i b s t s' t' e c}, J h s t → M.inner i b s t = .go s' t' e → A h c s ∨ D c t →
    A (h ++ e.toList) c s' ∨ D c t'
  wakeup : ∀ {h i b s t c' t' c}, J h s t → M.inner i b s t = .wakeup c' t' → c ≠ c' →
    A h c s ∨ D c t → A h c s ∨ D c t'
  sleep : ∀ {h i b s t c t'}, J h s t → M.inner i b s t = .sleep c t' → A h c s
  settle : ∀ {h i b s t c t' c'}, J h s t → M.inner i b s t = .sleep c t' →
    A h c' s ∨ D c' t → A h c' s
  release : ∀ {h i b s t t' e c}, J h s t → M.inner i b s t = .release t' e →
    A h c s ∨ D c t → A (h ++ e.toList) c s

variable {M K J G A D}

/-- A sleeper has a reason, or the holder of the lock owes its wakeup. -/
def Roused (A : List ε → χ → σ → Prop) (D : χ → τ → Prop) (h : List ε)
    (s : MonState ι σ τ χ) : Prop :=
  ∀ i c t, s.threads i = .asleep c t →
    A h c s.shared ∨ ∃ j u, s.threads j = .inside u ∧ D c u

omit [DecidableEq ι] [DecidableEq χ] in
/-- The reason or the debt, seen by the thread that is inside. -/
lemma Sound.reason (hs : Sound W I J h s) {c : χ} {t : τ} (ht : s.threads i = .inside t)
    (hr : A h c s.shared ∨ ∃ j u, s.threads j = .inside u ∧ D c u) : A h c s.shared ∨ D c t := by
  rcases hr with hA | ⟨j, u, hj, hD⟩
  · exact Or.inl hA
  · obtain rfl := hs.inside_unique ht hj
    obtain rfl : t = u := by simpa [ht] using hj
    exact Or.inr hD

omit [DecidableEq χ] in
/-- A thread that leaves the lock has paid, so the sleepers that stay have their reason. -/
lemma Roused.leave (hr : Roused A D h s) {t : τ} {x : Thread τ χ} {h₁ : List ε}
    (hs : Sound W I J h s) (ht : s.threads i = .inside t)
    (hx : ∀ c u, x = .asleep c u → A h₁ c s.shared)
    (hpay : ∀ c, A h c s.shared ∨ D c t → A h₁ c s.shared) :
    Roused A D h₁ { s.put i x with lock := none } := by
  intro j c u hj
  left
  rcases eq_or_ne j i with rfl | hne
  · exact hx c u (by simpa [MonState.put] using hj)
  · exact hpay c (hs.reason ht (hr j c u (by simpa [MonState.put, hne] using hj)))

omit [DecidableEq χ] in
/-- A thread that is not inside goes on at a place where it is awake. -/
lemma Roused.aside (hr : Roused A D h s) {x : Thread τ χ} {w : σ} {h₁ : List ε}
    (hi : ∀ t, s.threads i ≠ .inside t) (hx : ∀ c t, x ≠ .asleep c t)
    (hA : ∀ c, A h c s.shared → A h₁ c w) :
    Roused A D h₁ { s.put i x with shared := w } := by
  intro j c u hj
  rcases eq_or_ne j i with rfl | hne
  · exact absurd (by simpa [MonState.put] using hj) (hx c u)
  · rcases hr j c u (by simpa [MonState.put, hne] using hj) with hA' | ⟨k, v, hk, hD⟩
    · exact Or.inl (hA c hA')
    · refine Or.inr ⟨k, v, ?_, hD⟩
      have hki : k ≠ i := by
        rintro rfl
        exact hi v hk
      simpa [MonState.put, hki] using hk

/-- One step: a reason that is taken away is owed to the sleepers. -/
lemma Rouses.step (hR : Rouses M K J G A D) (hs : Sound W I J h s)
    (hG : ∀ i t, s.threads i = .outside t → G s.shared t) (hr : Roused A D h s)
    (hstep : M.MonStep K s e s') : Roused A D (h ++ e.toList) s' := by
  cases hstep with
  | enter hk ht hm =>
      exact hr.aside (w := s.shared) (by simp [ht]) (by simp) (by simp)
  | outer hk ht hm =>
      exact hr.aside (by simp [ht]) (by simp) fun c => hR.outer hk (hG _ _ ht) hm
  | @acquire i t ht hl =>
      intro j c u hj
      rcases eq_or_ne j i with rfl | hne
      · simp [MonState.put] at hj
      · rcases hr j c u (by simpa [MonState.put, hne] using hj) with hA | ⟨k, v, hk, -⟩
        · rw [Option.toList_none, List.append_nil]
          exact Or.inl hA
        · simpa [hl] using hs.lock_eq hk
  | @go i b t t' s₁ e ht hm =>
      intro j c u hj
      rcases eq_or_ne j i with rfl | hne
      · simp [MonState.put] at hj
      · have hown := hs.reason ht (hr j c u (by simpa [MonState.put, hne] using hj))
        rcases hR.go (hs.busy _ _ ht) hm hown with hA | hD
        · exact Or.inl hA
        · exact Or.inr ⟨i, t', by simp [MonState.put], hD⟩
  | @wakeup i b t t' c' ht hm =>
      intro j c u hj
      rcases eq_or_ne j i with rfl | hne
      · simp at hj
      · obtain ⟨hj', hc⟩ := Thread.wake_eq_asleep.mp (by simpa [hne] using hj)
        have hown := hs.reason ht (hr j c u hj')
        rcases hR.wakeup (hs.busy _ _ ht) hm hc hown with hA | hD
        · exact Or.inl (by simpa using hA)
        · exact Or.inr ⟨i, t', by simp, hD⟩
  | sleep ht hm =>
      have hJ := hs.busy _ _ ht
      refine hr.leave hs ht ?_ fun c hc => by simpa using hR.settle hJ hm hc
      rintro c u ⟨rfl, rfl⟩
      simpa using hR.sleep hJ hm
  | release ht hm =>
      exact hr.leave hs ht (by simp) fun c hc => hR.release (hs.busy _ _ ht) hm hc
  | rouse ht => exact hr.aside (w := s.shared) (by simp [ht]) (by simp) (by simp)

/-- **The sleepers' rule.** When the lock is free, every sleeper has its reason to sleep. -/
lemma Rouses.run (hM : Keeps M K W I J) (hR : Rouses M K J G A D) {s₀ : MonState ι σ τ χ}
    (h0 : Fresh s₀) (hI : I [] s₀.shared)
    (hG : ∀ {tr s}, M.Runs K s₀ tr s → ∀ i t, s.threads i = .outside t → G s.shared t)
    {tr : List (Option ε)} (hrun : M.Runs K s₀ tr s)
    (hl : s.lock = none) {c : χ} {t : τ} (hi : s.threads i = .asleep c t) :
    A tr.reduceOption c s.shared := by
  have hroused : Sound W I J tr.reduceOption s ∧ Roused A D tr.reduceOption s := by
    refine Run.invariant
      (I := fun tr s => Sound W I J tr.reduceOption s ∧ Roused A D tr.reduceOption s) ?_ ?_ hrun
    · refine ⟨h0.sound hI, fun j c u hj => ?_⟩
      obtain ⟨v, hv⟩ := h0.outside j
      simp [hv] at hj
    · rintro tr e s₁ s₂ hrun₁ ⟨hs, hr⟩ hstep
      rw [← List.concat_eq_append, List.reduceOption_concat]
      exact ⟨hM.step hs (act_step hstep), hR.step hs (hG hrun₁) hr (act_step hstep)⟩
  rcases hroused.2 i c t hi with hA | ⟨j, u, hj, -⟩
  · exact hA
  · simpa [hl] using hroused.1.lock_eq hj

/-! ### Critical sections -/

variable (M) in
/-- What the thread `i` has done to the shared state, and where it has come, since it took the
lock at the place `t₀`. -/
inductive Holding (i : ι) (w₀ : σ) (t₀ : τ) : σ → τ → Prop
  | enter : Holding i w₀ t₀ w₀ t₀
  | go {b : Bool} {w w' : σ} {t t' : τ} {e : Option ε} (h : Holding i w₀ t₀ w t)
      (hm : M.inner i b w t = .go w' t' e) : Holding i w₀ t₀ w' t'
  | wakeup {b : Bool} {w : σ} {t t' : τ} {c : χ} (h : Holding i w₀ t₀ w t)
      (hm : M.inner i b w t = .wakeup c t') : Holding i w₀ t₀ w t'

/-- **The rule of critical sections.** If no step without the lock changes the shared state, then
what the holder sees is its own work since it took the lock. -/
lemma Keeps.holding (hM : Keeps M K W I J)
    (hquiet : ∀ i k w t w' t' e, M.outer i k w t ≠ .go w' t' e) {s₀ : MonState ι σ τ χ}
    (h0 : Fresh s₀) (hI : I [] s₀.shared) {tr : List (Option ε)} (hrun : M.Runs K s₀ tr s)
    {t : τ} (hi : s.threads i = .inside t) :
    ∃ tr₁ tr₂ s₁ t₀, tr = tr₁ ++ tr₂ ∧ M.Runs K s₀ tr₁ s₁ ∧ s₁.lock = none ∧
      s₁.threads i = .waiting t₀ ∧ Holding M i s₁.shared t₀ s.shared t := by
  induction hrun generalizing t with
  | nil =>
      obtain ⟨u, hu⟩ := h0.outside i
      simp [hu] at hi
  | @snoc tr e s s' hrun hstep ih =>
      have hs := hM.run h0 hI hrun
      -- a thread that was inside before goes on with its section
      have hstay : ∀ {u}, s.threads i = .inside u →
          (∀ {w₀ t₀}, Holding M i w₀ t₀ s.shared u → Holding M i w₀ t₀ s'.shared t) →
          ∃ tr₁ tr₂ s₁ t₀, tr ++ [e] = tr₁ ++ tr₂ ∧ M.Runs K s₀ tr₁ s₁ ∧ s₁.lock = none ∧
            s₁.threads i = .waiting t₀ ∧ Holding M i s₁.shared t₀ s'.shared t := by
        intro u hu hnext
        obtain ⟨tr₁, tr₂, s₁, t₀, rfl, hrun₁, hl, hw, hh⟩ := ih hu
        exact ⟨tr₁, tr₂ ++ [e], s₁, t₀, by rw [List.append_assoc], hrun₁, hl, hw, hnext hh⟩
      cases act_step hstep with
      | @enter j k u u' hk ht hm =>
          rcases eq_or_ne i j with rfl | hij
          · simp [MonState.put] at hi
          · exact hstay (by simpa [MonState.put, hij] using hi) id
      | outer hk ht hm => exact absurd hm (hquiet _ _ _ _ _ _ _)
      | @acquire j u ht hl =>
          rcases eq_or_ne i j with rfl | hij
          · obtain rfl : u = t := by simpa [MonState.put] using hi
            exact ⟨tr, [none], s, u, rfl, hrun, hl, ht, .enter⟩
          · have hin : s.threads i = .inside t := by simpa [MonState.put, hij] using hi
            simpa [hl] using hs.lock_eq hin
      | @go j b u u' w e ht hm =>
          rcases eq_or_ne i j with rfl | hij
          · obtain rfl : u' = t := by simpa [MonState.put] using hi
            exact hstay ht fun hh => hh.go hm
          · have hin : s.threads i = .inside t := by simpa [MonState.put, hij] using hi
            exact absurd (hs.inside_unique hin ht) hij
      | @wakeup j b u u' c ht hm =>
          rcases eq_or_ne i j with rfl | hij
          · obtain rfl : u' = t := by simpa using hi
            exact hstay ht fun hh => hh.wakeup hm
          · have hin : s.threads i = .inside t := by simpa [hij] using hi
            exact absurd (hs.inside_unique hin ht) hij
      | @sleep j b u u' c ht hm =>
          rcases eq_or_ne i j with rfl | hij
          · simp [MonState.put] at hi
          · exact hstay (by simpa [MonState.put, hij] using hi) id
      | @release j b u u' e ht hm =>
          rcases eq_or_ne i j with rfl | hij
          · simp [MonState.put] at hi
          · exact hstay (by simpa [MonState.put, hij] using hi) id
      | @rouse j c u ht =>
          rcases eq_or_ne i j with rfl | hij
          · simp [MonState.put] at hi
          · exact hstay (by simpa [MonState.put, hij] using hi) id

end Rules

end Monitor

end Library
