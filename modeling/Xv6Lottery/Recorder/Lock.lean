import Xv6Lottery.Library.Run

/-!
The lock of the recorder, `proc_sched.lock`, on any number of CPUs.

* `Spinlock`, `initlock`, `holding`, `acquire`, `release`: the lock of `spinlock.c`, without
  the fields kept for debugging. Each of the three calls is one atomic step here.
* `LockAct`, `LockState`, `lockMachine`: every CPU initialises the lock when it enters
  `scheduler`, and then takes and releases it, as `scheduler` or as the process it runs, in
  `sys_change_schedorder_flag`. `scheduler` holds `ptable.lock` there, which can only take
  interleavings away.
* `HeldInv`: nobody has panicked, and a CPU holds the lock exactly while it is between `acquire`
  and `release`.
* `recorder_lock_safe`: this holds in every run in which no CPU initialises the lock while
  another is between the two, and as soon as one does, the `release` of the other panics.
-/

namespace Xv6Lottery

open Library

variable {n : ℕ}

/-! ### `spinlock.c` -/

/-- `struct spinlock`: whether it is held, and by which CPU. -/
structure Spinlock (n : ℕ) where
  locked : Bool
  cpu : Option (Fin n)
  deriving DecidableEq

/-- `initlock` -/
def initlock : Spinlock n := ⟨false, none⟩

namespace Spinlock

/-- `holding`, executed by CPU `c`. -/
def holding (lk : Spinlock n) (c : Fin n) : Bool := lk.locked && lk.cpu = some c

/-- What a call does: it returns with the lock changed, spins, or panics. -/
inductive Outcome (n : ℕ)
  | done (lk : Spinlock n)
  | spins
  | panics
  deriving DecidableEq

/-- `acquire`, executed by CPU `c`. -/
def acquire (lk : Spinlock n) (c : Fin n) : Outcome n :=
  if lk.holding c then .panics else if lk.locked then .spins else .done ⟨true, some c⟩

/-- `release`, executed by CPU `c`. -/
def release (lk : Spinlock n) (c : Fin n) : Outcome n :=
  if lk.holding c then .done ⟨false, none⟩ else .panics

lemma holding_iff {lk : Spinlock n} {c : Fin n} :
    lk.holding c = true ↔ lk = ⟨true, some c⟩ := by
  rcases lk with ⟨b, o⟩
  simp [holding]

lemma not_holding_initlock (c : Fin n) : (initlock : Spinlock n).holding c = false := rfl

end Spinlock

/-! ### The CPUs -/

/-- The code that uses the lock. -/
inductive Caller
  | scheduler
  | changeSchedorderFlag
  deriving DecidableEq

/-- Where a CPU is. -/
inductive Place
  /-- before the call of `initlock` in `scheduler` -/
  | starting
  /-- after it, and not between `acquire` and `release` -/
  | outside
  /-- between `acquire` and `release` -/
  | inside (code : Caller)
  /-- in `panic` -/
  | panicked
  deriving DecidableEq

/-- The lock and the CPUs. -/
structure LockState (n : ℕ) where
  lock : Spinlock n
  place : Fin n → Place

/-- The calls. -/
inductive LockAct (n : ℕ)
  | initlock (c : Fin n)
  | acquire (c : Fin n) (code : Caller)
  | release (c : Fin n)
  deriving DecidableEq

namespace LockState

/-- CPU `c` is between `acquire` and `release`. -/
def Between (s : LockState n) (c : Fin n) : Prop := ∃ code, s.place c = .inside code

instance (s : LockState n) (c : Fin n) : Decidable (s.Between c) :=
  match h : s.place c with
  | .inside code => isTrue ⟨code, h⟩
  | .starting | .outside | .panicked => isFalse fun ⟨_, h'⟩ => by simp [h] at h'

/-- CPU `c` goes on after a call. -/
def goesOn (s : LockState n) (c : Fin n) (p : Place) : Spinlock.Outcome n → LockState n
  | .done lk => ⟨lk, Function.update s.place c p⟩
  | .spins => s
  | .panics => ⟨s.lock, Function.update s.place c .panicked⟩

end LockState

/-- The machine. A CPU that spins is one whose `acquire` is taken later. -/
def lockMachine (n : ℕ) : Guarded (LockState n) (LockAct n) (LockAct n) where
  Enabled s
    | .initlock c => s.place c = .starting
    | .acquire c _ => s.place c = .outside ∧ s.lock.acquire c ≠ .spins
    | .release c => s.Between c
  next s
    | .initlock c => s.goesOn c .outside (.done initlock)
    | .acquire c code => s.goesOn c (.inside code) (s.lock.acquire c)
    | .release c => s.goesOn c .outside (s.lock.release c)
  event _ a := a

/-- The lock is all zeros at first, as the data of the kernel, and no CPU has entered
`scheduler`. -/
def LockState.start (n : ℕ) : LockState n := ⟨initlock, fun _ => .starting⟩

/-- The lock is not initialised while a CPU is between `acquire` and `release`. -/
def QuietInit (s : LockState n) : LockAct n → Prop
  | .initlock _ => ∀ c, ¬ s.Between c
  | _ => True

instance (s : LockState n) (a : LockAct n) : Decidable (QuietInit s a) := by
  cases a <;> dsimp only [QuietInit] <;> infer_instance

instance (s : LockState n) (a : LockAct n) : Decidable ((lockMachine n).Enabled s a) := by
  cases a <;> dsimp only [lockMachine] <;> infer_instance

/-! ### The invariant -/

/-- Nobody has panicked, and who is between `acquire` and `release` holds the lock. -/
structure HeldInv (s : LockState n) : Prop where
  safe : ∀ c, s.place c ≠ .panicked
  holding_iff : ∀ c, s.lock.holding c = true ↔ s.Between c

namespace HeldInv

variable {s : LockState n}

lemma start : HeldInv (LockState.start n) :=
  ⟨fun c => by simp [LockState.start], fun c => by
    simp [LockState.start, LockState.Between, Spinlock.not_holding_initlock]⟩

/-- At most one CPU is between `acquire` and `release`. -/
lemma between_unique (h : HeldInv s) {c d : Fin n} (hc : s.Between c) (hd : s.Between d) :
    c = d := by
  have hc' := Spinlock.holding_iff.mp ((h.holding_iff c).mpr hc)
  have hd' := Spinlock.holding_iff.mp ((h.holding_iff d).mpr hd)
  have hlk := hc'.symm.trans hd'
  simpa using hlk

/-- The invariant after CPU `c` has gone on with a call that returned. -/
lemma goesOn (h : HeldInv s) {c : Fin n} {p : Place} {lk : Spinlock n} (hp : p ≠ .panicked)
    (hc : lk.holding c = true ↔ ∃ code, p = .inside code)
    (hd : ∀ d, d ≠ c → (lk.holding d = true ↔ s.Between d)) :
    HeldInv (s.goesOn c p (.done lk)) := by
  refine ⟨fun d => ?_, fun d => ?_⟩
  · rcases eq_or_ne d c with rfl | hdc
    · simpa [LockState.goesOn] using hp
    · simpa [LockState.goesOn, hdc] using h.safe d
  · rcases eq_or_ne d c with rfl | hdc
    · simpa [LockState.goesOn, LockState.Between] using hc
    · simpa [LockState.goesOn, LockState.Between, hdc] using hd d hdc

/-- Every call keeps the invariant, if `initlock` is called at a quiet moment. -/
lemma step (h : HeldInv s) {a : LockAct n} (he : (lockMachine n).Enabled s a)
    (hok : QuietInit s a) : HeldInv ((lockMachine n).next s a) := by
  cases a with
  | initlock c =>
      refine h.goesOn (by simp) (by simp [Spinlock.not_holding_initlock]) fun d _ => ?_
      simp [Spinlock.not_holding_initlock, hok d]
  | acquire c code =>
      obtain ⟨hout, hspin⟩ := he
      have hbetween : ¬ s.Between c := fun ⟨_, hin⟩ => by simp [hin] at hout
      have hnot : s.lock.holding c = false :=
        Bool.eq_false_iff.mpr (mt (h.holding_iff c).mp hbetween)
      have hfree : s.lock.locked = false := by
        by_contra hl
        exact hspin (by simp [Spinlock.acquire, hnot, hl])
      have hnext : s.lock.acquire c = .done ⟨true, some c⟩ := by
        simp [Spinlock.acquire, hnot, hfree]
      simp only [lockMachine, hnext]
      refine h.goesOn (by simp) (by simp [Spinlock.holding]) fun d hd => ?_
      -- the lock was free, so that no other CPU is inside
      rw [← h.holding_iff d]
      simp [Spinlock.holding, hfree, Ne.symm hd]
  | release c =>
      have hhold := (h.holding_iff c).mpr he
      have hnext : s.lock.release c = .done ⟨false, none⟩ := by simp [Spinlock.release, hhold]
      simp only [lockMachine, hnext]
      refine h.goesOn (by simp) (by simp [Spinlock.holding]) fun d hd => ?_
      have : ¬ s.Between d := fun hin => hd (h.between_unique hin he)
      simp [Spinlock.holding, this]

end HeldInv

/-- **The lock of the recorder.** In every run in which no CPU initialises the lock while
another is between `acquire` and `release`, no CPU panics and at most one is between the two.
When a CPU does initialise it at such a moment, the `release` of the other panics. -/
theorem recorder_lock_safe (n : ℕ) :
    (∀ tr s, Run ((lockMachine n).Step QuietInit) (LockState.start n) tr s →
      (∀ c, s.place c ≠ .panicked) ∧ ∀ c d, s.Between c → s.Between d → c = d) ∧
    ∀ s : LockState n, ∀ c d, s.place c = .starting → s.Between d →
      (lockMachine n).Allowed (fun _ _ => True) s [.initlock c, .release d] ∧
      ((lockMachine n).exec s [.initlock c, .release d]).place d = .panicked := by
  refine ⟨fun tr s hrun => ?_, fun s c d hc hd => ?_⟩
  · have hinv : HeldInv s := hrun.invariant (I := fun _ s => HeldInv s) .start
      fun _ hinv ⟨_, he, hok, _, hs⟩ => hs ▸ hinv.step he hok
    exact ⟨hinv.safe, fun c d => hinv.between_unique⟩
  · have hdc : d ≠ c := fun hdc => by
      obtain ⟨code, hin⟩ := hd
      simp [hdc, hc] at hin
    have hd' : (s.goesOn c .outside (.done initlock)).Between d := by
      simpa [LockState.goesOn, LockState.Between, hdc] using hd
    refine ⟨⟨⟨hc, trivial⟩, ⟨hd', trivial⟩, trivial⟩, ?_⟩
    simp [Guarded.exec, lockMachine, LockState.goesOn, Spinlock.release,
      Spinlock.not_holding_initlock]

/-- CPU 0 takes the lock in `sys_change_schedorder_flag`; CPU 1 has entered `scheduler` before. -/
def orderlyRun : List (LockAct 2) :=
  [.initlock 0, .initlock 1, .acquire 0 .changeSchedorderFlag]

theorem recorder_lock_safe_orderlyRun :
    ((lockMachine 2).exec (.start 2) orderlyRun).Between 0 ∧
    ¬ ((lockMachine 2).exec (.start 2) orderlyRun).Between 1 := by
  have hrun := Guarded.Allowed.run
    (by decide : (lockMachine 2).Allowed QuietInit (.start 2) orderlyRun)
  have hin : ((lockMachine 2).exec (.start 2) orderlyRun).Between 0 := by decide
  obtain ⟨-, hone⟩ := (recorder_lock_safe 2).1 _ _ hrun
  exact ⟨hin, fun h => absurd (hone 0 1 hin h) (by decide)⟩

/-- CPU 1 enters `scheduler` while CPU 0 is in `sys_change_schedorder_flag`. -/
def lateRun : List (LockAct 2) :=
  [.initlock 0, .acquire 0 .changeSchedorderFlag, .initlock 1, .acquire 1 .scheduler]

/-- Both CPUs are then between `acquire` and `release`, and the `release` of CPU 0 panics. -/
theorem late_init_panics :
    (lockMachine 2).Allowed (fun _ _ => True) (.start 2) (lateRun ++ [.release 0]) ∧
    ((lockMachine 2).exec (.start 2) lateRun).Between 0 ∧
    ((lockMachine 2).exec (.start 2) lateRun).Between 1 ∧
    ((lockMachine 2).exec (.start 2) (lateRun ++ [.release 0])).place 0 = .panicked := by
  decide

end Xv6Lottery
