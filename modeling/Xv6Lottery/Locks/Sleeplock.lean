import Xv6Lottery.Library.Monitor

/-!
`sleeplock.c`: the locks that are held while their holder sleeps, such as those of the buffers and
the inodes.

* `Sleeplock`, `code`: `acquiresleep`, `releasesleep` and `holdingsleep`, called by any number of
  processes. As in `brelse` and `iunlock`, a process releases the lock only if it holds it.
* `Place.owns`: the points at which the lock belongs to the process.
* `Named`, `named_run`: the two fields of the lock name its owner.
* `sleeplock_safe`: **one holder at a time, no sleeper without a holder, and `holdingsleep` tells
  the truth.**
-/

namespace Xv6Lottery

open Library Monitor

/-- `struct sleeplock`. The processes are named by their pids, from `ι`. -/
structure Sleeplock (ι : Type) where
  locked : Bool
  pid : Option ι

namespace Sleeplock

variable {ι : Type}

/-- The calls. -/
inductive Call
  | acquiresleep | releasesleep | holdingsleep
  deriving DecidableEq, Repr

/-- What is seen: the answers of `holdingsleep`. -/
inductive Event (ι : Type)
  | answer (i : ι) (r : Bool)

/-- Where a process is in the code. -/
inductive Place
  /-- outside, without the lock -/
  | idle
  /-- outside, with the lock -/
  | holds
  /-- `acquiresleep`: at the test of `lk->locked` -/
  | acquire
  /-- `acquiresleep`: the fields have been set -/
  | acquired
  /-- `releasesleep`: the spinlock has been taken -/
  | release
  /-- `releasesleep`: the fields have been cleared -/
  | releaseWake
  /-- `releasesleep`: the sleepers have been woken -/
  | released
  /-- `holdingsleep`, called with the lock or without it -/
  | test (held : Bool)
  deriving DecidableEq, Repr

/-- The points at which the lock belongs to the process. -/
def Place.owns : Place → Bool
  | .holds | .acquired | .release => true
  | .test held => held
  | _ => false

variable [DecidableEq ι]

/-- The step of the process that holds the spinlock `lk->lk`. -/
def step (i : ι) (lk : Sleeplock ι) : Place → Inner (Sleeplock ι) Place Unit (Event ι)
  | .acquire => if lk.locked then .sleep () .acquire else .go ⟨true, some i⟩ .acquired none
  | .acquired => .release .holds none
  | .release => .go ⟨false, none⟩ .releaseWake none
  | .releaseWake => .wakeup () .released
  | .released => .release .idle none
  | .test held =>
      .release (if held then .holds else .idle) (some (.answer i (lk.locked && lk.pid = some i)))
  | .idle => .release .idle none
  | .holds => .release .holds none

/-- The start of a call. -/
def call : Call → Place → Outer (Sleeplock ι) Place (Event ι)
  | .acquiresleep, .idle => .enter .acquire
  | .releasesleep, .holds => .enter .release
  | .holdingsleep, .idle => .enter (.test false)
  | .holdingsleep, .holds => .enter (.test true)
  | _, _ => .stuck

variable (ι) in
/-- The code of the processes `ι`. -/
def code : Monitor ι (Sleeplock ι) Place Unit Call (Event ι) where
  outer _ k _ t := call k t
  inner i _ lk t := step i lk t

variable (ι) in
/-- `initsleeplock`, and no call in progress. -/
def start : MonState ι (Sleeplock ι) Place Unit := ⟨⟨false, none⟩, none, fun _ => .outside .idle⟩

omit [DecidableEq ι] in
lemma start_fresh : Fresh (start ι) := ⟨rfl, fun _ => ⟨.idle, rfl⟩⟩

section Step

variable {i : ι} {lk lk' : Sleeplock ι} {t t' : Place} {c : Unit} {e : Option (Event ι)}

/-- The fields are set when the lock is free, and cleared in `releasesleep`. -/
lemma step_go (h : step i lk t = .go lk' t' e) : e = none ∧
    ((t = .acquire ∧ t' = .acquired ∧ lk.locked = false ∧ lk' = ⟨true, some i⟩) ∨
      (t = .release ∧ t' = .releaseWake ∧ lk' = ⟨false, none⟩)) := by
  cases t with
  | acquire =>
      simp only [step] at h
      split_ifs at h with hlocked
      obtain ⟨rfl, rfl, rfl⟩ := Inner.go.inj h
      exact ⟨rfl, Or.inl ⟨rfl, rfl, by simpa using hlocked, rfl⟩⟩
  | release =>
      obtain ⟨rfl, rfl, rfl⟩ := Inner.go.inj h
      exact ⟨rfl, Or.inr ⟨rfl, rfl, rfl⟩⟩
  | _ => simp [step] at h

lemma step_wakeup (h : step i lk t = .wakeup c t') : t = .releaseWake ∧ t' = .released := by
  cases t with
  | releaseWake =>
      obtain ⟨-, rfl⟩ := Inner.wakeup.inj h
      exact ⟨rfl, rfl⟩
  | acquire =>
      simp only [step] at h
      split_ifs at h
  | _ => simp [step] at h

lemma step_sleep (h : step i lk t = .sleep c t') :
    t = .acquire ∧ t' = .acquire ∧ lk.locked = true := by
  cases t with
  | acquire =>
      simp only [step] at h
      split_ifs at h with hlocked
      obtain ⟨-, rfl⟩ := Inner.sleep.inj h
      exact ⟨rfl, rfl, hlocked⟩
  | _ => simp [step] at h

/-- A call ends where it began, or with the lock gained or given back. -/
lemma step_release (h : step i lk t = .release t' e) : t'.owns = t.owns ∧ t ≠ .releaseWake ∧
    ∀ j r, e = some (.answer j r) → j = i ∧ r = (lk.locked && lk.pid = some i) ∧
      ∃ held, t = .test held ∧ t' = if held then .holds else .idle := by
  cases t with
  | acquire =>
      simp only [step] at h
      split_ifs at h
  | test held =>
      obtain ⟨rfl, rfl⟩ := Inner.release.inj h
      refine ⟨by cases held <;> rfl, by simp, fun j r hr => ?_⟩
      obtain ⟨rfl, rfl⟩ := Event.answer.inj (Option.some.inj hr)
      exact ⟨rfl, rfl, held, rfl, rfl⟩
  | release | releaseWake => simp [step] at h
  | _ =>
      obtain ⟨rfl, rfl⟩ := Inner.release.inj h
      exact ⟨rfl, by simp, fun j r hr => by cases hr⟩

end Step

/-! ### The owner -/

/-- The fields name the owner. -/
def Named (s : MonState ι (Sleeplock ι) Place Unit) : Prop :=
  ∀ i, (s.threads i).place.owns = true ↔ s.shared.locked = true ∧ s.shared.pid = some i

/-- A step of one process that leaves the fields and its ownership alone. -/
lemma Named.put {s : MonState ι (Sleeplock ι) Place Unit} (hs : Named s) {i : ι}
    {x : Thread Place Unit} {l : Option ι}
    (hx : x.place.owns = (s.threads i).place.owns) : Named { s.put i x with lock := l } := by
  intro j
  refine Iff.trans ?_ (hs j)
  rcases eq_or_ne j i with rfl | hj
  · simp [MonState.put, hx]
  · simp [MonState.put, hj]

/-- One step keeps the fields right. -/
lemma Named.step {s s' : MonState ι (Sleeplock ι) Place Unit} {e : Option (Event ι)}
    (hs : Named s) (h : (code ι).MonStep (fun _ => True) s e s') : Named s' := by
  cases h with
  | @enter i k t t' _ ht hm =>
      refine hs.put ?_
      rw [ht]
      cases k <;> cases t <;> first | (cases Outer.enter.inj hm; rfl) | cases hm
  | @outer i k t t' lk e _ ht hm => cases k <;> cases t <;> cases hm
  | acquire ht hl => exact hs.put (by rw [ht]; rfl)
  | @go i b t t' lk e ht hm =>
      obtain ⟨-, ⟨rfl, rfl, hfree, rfl⟩ | ⟨rfl, rfl, rfl⟩⟩ := step_go hm
      · intro j
        rcases eq_or_ne j i with rfl | hj
        · simp [MonState.put, Thread.place, Place.owns]
        · -- the lock was free, so that nobody owned it
          have hnot : (s.threads j).place.owns ≠ true := by
            rw [Ne, hs j, hfree]
            simp
          simp [MonState.put, hj, hnot, Ne.symm hj]
      · have hown := (hs i).mp (by rw [ht]; rfl)
        intro j
        rcases eq_or_ne j i with rfl | hj
        · simp [MonState.put, Thread.place, Place.owns]
        · have hnot : (s.threads j).place.owns ≠ true := by
            rw [Ne, hs j, hown.2]
            exact fun h => hj (Option.some.inj h.2).symm
          simp [MonState.put, hj, hnot]
  | @wakeup i b t t' c ht hm =>
      obtain ⟨rfl, rfl⟩ := step_wakeup hm
      intro j
      refine Iff.trans ?_ (hs j)
      rcases eq_or_ne j i with rfl | hj
      · simp [ht, Thread.place, Place.owns]
      · simp [hj]
  | sleep ht hm =>
      obtain ⟨rfl, rfl, -⟩ := step_sleep hm
      exact hs.put (by rw [ht]; rfl)
  | release ht hm =>
      refine hs.put ?_
      rw [ht]
      exact (step_release hm).1
  | rouse ht => exact hs.put (by rw [ht]; rfl)

/-- The fields name the owner in every state of a run. -/
lemma named_run {tr : List (Option (Event ι))} {s : MonState ι (Sleeplock ι) Place Unit}
    (hrun : (code ι).Runs (fun _ => True) (start ι) tr s) : Named s := by
  refine Run.invariant (I := fun _ s => Named s) ?_ (fun _ hs h => hs.step (act_step h)) hrun
  intro i
  simp [start, Thread.place, Place.owns]

/-! ### Sleepers -/

/-- The points at which the sleepers have yet to be woken. -/
def Owes (_ : Unit) (t : Place) : Prop := t = .releaseWake

/-- A lock that is held has a holder. -/
def HasPid (lk : Sleeplock ι) : Prop := lk.locked = true → ∃ i, lk.pid = some i

lemma keeps_hasPid : Keeps (code ι) (fun _ => True) (fun _ => True) (fun _ lk => HasPid lk)
    (fun _ lk _ => HasPid lk) where
  call _ _ := trivial
  enter _ h := h
  outer {h i k lk t lk' t' e} _ hm := by cases k <;> cases t <;> cases hm
  go {h i b lk t lk' t' e} hlk hm := by
    obtain ⟨-, ⟨-, -, -, rfl⟩ | ⟨-, -, rfl⟩⟩ := step_go hm
    · exact fun _ => ⟨i, rfl⟩
    · exact fun h => by cases h
  wakeup h _ := h
  sleep h _ := ⟨trivial, h⟩
  release h _ := h

lemma rouses : Rouses (code ι) (fun _ => True) (fun _ lk _ => HasPid lk)
    (fun _ _ => True) (fun _ _ lk => lk.locked = true) Owes where
  outer {h i k lk t lk' t' e c} _ _ hm := by cases k <;> cases t <;> cases hm
  go {h i b lk t lk' t' e c} _ hm hr := by
    obtain ⟨-, ⟨-, -, -, rfl⟩ | ⟨-, rfl, rfl⟩⟩ := step_go hm
    · exact Or.inl rfl
    · exact Or.inr rfl
  wakeup _ _ hne _ := absurd rfl hne
  sleep _ hm := (step_sleep hm).2.2
  settle _ hm _ := (step_sleep hm).2.2
  release _ hm hr := hr.resolve_right (step_release hm).2.1

/-! ### Safety -/

/-- An answer of `holdingsleep` is given at the end of the call. -/
lemma answer_step {s s' : MonState ι (Sleeplock ι) Place Unit} {i : ι} {r : Bool}
    (h : (code ι).MonStep (fun _ => True) s (some (.answer i r)) s') :
    ∃ held, s.threads i = .inside (.test held) ∧
      r = (s.shared.locked && s.shared.pid = some i) ∧
      s'.threads i = .outside (if held then .holds else .idle) := by
  generalize he : some (Event.answer i r) = e at h
  cases h with
  | @outer j k t t' lk e _ ht hm => cases k <;> cases t <;> cases hm
  | go ht hm =>
      obtain ⟨rfl, -⟩ := step_go hm
      cases he
  | release ht hm =>
      obtain ⟨rfl, hr, held, rfl, rfl⟩ := (step_release hm).2.2 i r he.symm
      exact ⟨held, ht, hr, by simp [MonState.put]⟩
  | _ => cases he

/-- What a sleeplock is for. -/
structure Safe (tr : List (Option (Event ι))) (s : MonState ι (Sleeplock ι) Place Unit) : Prop where
  /-- one holder at a time -/
  exclusive : ∀ i j, s.threads i = .outside .holds → s.threads j = .outside .holds → i = j
  /-- whoever sleeps waits for somebody who has the lock, or is about to give it back -/
  awaited : s.lock = none → ∀ i c t, s.threads i = .asleep c t →
    ∃ j, (s.threads j).place.owns = true
  /-- `holdingsleep` tells the truth -/
  truthful : ∀ tr' i r, tr = tr' ++ [some (.answer i r)] →
    (r = true ↔ s.threads i = .outside .holds)

/-- **Sleeplocks exclude each other's holders**, in every run of any number of processes. -/
theorem sleeplock_safe {tr : List (Option (Event ι))} {s : MonState ι (Sleeplock ι) Place Unit}
    (hrun : (code ι).Runs (fun _ => True) (start ι) tr s) : Safe tr s where
  exclusive i j hi hj := by
    have hs := named_run hrun
    have hi' := (hs i).mp (by rw [hi]; rfl)
    have hj' := (hs j).mp (by rw [hj]; rfl)
    exact Option.some.inj (hi'.2.symm.trans hj'.2)
  awaited hl i c t hi := by
    have h0 : HasPid (start ι).shared := fun h => by cases h
    have hlocked := rouses.run keeps_hasPid start_fresh h0 (fun _ _ _ _ => trivial) hrun hl hi
    obtain ⟨j, hj⟩ := (keeps_hasPid.run start_fresh h0 hrun).free hl hlocked
    exact ⟨j, (named_run hrun j).mpr ⟨hlocked, hj⟩⟩
  truthful tr' i r htr := by
    subst htr
    obtain ⟨s₁, hrun₁, hstep⟩ := hrun.unsnoc
    obtain ⟨held, hi, rfl, hi'⟩ := answer_step (act_step hstep)
    have hs := named_run hrun₁ i
    rw [hi] at hs
    cases held with
    | true => simpa [hi', Thread.place, Place.owns] using hs
    | false => simpa [hi', Thread.place, Place.owns] using hs

/-- A process holds the lock, another one sleeps for it, and a third one asks whether it is its
own. -/
def contended : List (MonAct ℕ Call) :=
  [.outer 0 .acquiresleep, .acquire 0, .inner 0 false, .inner 0 false, .outer 1 .acquiresleep,
    .acquire 1, .inner 1 false, .outer 2 .holdingsleep, .acquire 2, .inner 2 false]

theorem sleeplock_safe_contended : Safe ((code ℕ).machine.trace (start ℕ) contended)
    ((code ℕ).machine.exec (start ℕ) contended) :=
  sleeplock_safe (show (code ℕ).machine.Allowed (Calls fun _ => True) (start ℕ) contended
    by decide +kernel).run

end Sleeplock

end Xv6Lottery
