import Mathlib.Tactic

/-!
The data of `proc.h`, `types.h` and `param.h` that the life of a process is made
of, over an arbitrary type `ι` of table slots.

* `Procstate`, `Chan`, `Entry`: the process state, the sleep channel, and the
  fields of `struct proc` through which processes meet each other: `state`, `pid`,
  `parent`, `chan`, `killed`, `tickets`, `ticks`.
* `Procstate.Alive`, `Procstate.Born`, `Procstate.Wakes`: who can execute code, who has
  been published and not reaped, and what a wakeup does to a state.
* `IsInt`, `incInt`, `wrapInt`: the range of a C `int`, its increment and its overflow.
* `ProcessesInfo`: the listing that `sys_proc_info` fills in.
* `Event`: what an observer of the process table sees of a step.
-/

namespace Xv6Lottery

/-! ### Parameters (`param.h`) -/

/-- `NPROC`, the number of slots of the process table. -/
abbrev NPROC : ℕ := 64

/-- `NOFILE`, the open files of a process. -/
abbrev NOFILE : ℕ := 32

/-- `MAX_TICKETS_PER_PROCESS`, the bound that `assign-tickets.c` enforces. -/
abbrev maxTicketsPerProcess : ℤ := 1000

/-! ### The C `int` -/

/-- The largest `int`. -/
abbrev intMax : ℤ := 2 ^ 31 - 1

/-- The values of a C `int`. -/
def IsInt (x : ℤ) : Prop := -2 ^ 31 ≤ x ∧ x ≤ intMax

instance (x : ℤ) : Decidable (IsInt x) := inferInstanceAs (Decidable (_ ∧ _))

/-- `x++` on a counter of type `int`, as the compiled increment does it: the value
after `intMax` is `-2^31`. -/
def incInt (x : ℤ) : ℤ := if x = intMax then -2 ^ 31 else x + 1

lemma incInt_of_lt {x : ℤ} (h : x < intMax) : incInt x = x + 1 := by
  rw [incInt, if_neg (by omega)]

/-- The `int` left of a result out of range, as the compiled arithmetic does it. -/
def wrapInt (x : ℤ) : ℤ := x.bmod (2 ^ 32)

lemma wrapInt_eq (x : ℤ) : wrapInt x =
    if x % 4294967296 < 2147483648 then x % 4294967296 else x % 4294967296 - 4294967296 := by
  rw [wrapInt, Int.bmod_def]
  norm_num

lemma wrapInt_of_isInt {x : ℤ} (h : IsInt x) : wrapInt x = x := by
  obtain ⟨hlo, hhi⟩ := h
  have hhi : x ≤ 2147483647 := hhi
  rw [wrapInt_eq]
  split_ifs <;> omega

/-! ### `struct proc` -/

/-- `enum procstate`. -/
inductive Procstate where
  | unused | embryo | sleeping | runnable | running | zombie
  deriving DecidableEq, Repr

/-- A process that can still execute code: the states a parent may be in. -/
def Procstate.Alive (s : Procstate) : Prop := s = sleeping ∨ s = runnable ∨ s = running

instance : DecidablePred Procstate.Alive := fun _ => inferInstanceAs (Decidable (_ ∨ _ ∨ _))

/-- A process that `fork` has published and `wait` has not reaped. -/
def Procstate.Born (s : Procstate) : Prop := s.Alive ∨ s = zombie

instance : DecidablePred Procstate.Born := fun _ => inferInstanceAs (Decidable (_ ∨ _))

/-- What a wakeup may do to a state: a sleeper becomes runnable. -/
def Procstate.Wakes (s s' : Procstate) : Prop := s' = s ∨ (s = sleeping ∧ s' = runnable)

namespace Procstate

variable {s s' t : Procstate}

@[simp] lemma alive_sleeping : sleeping.Alive := Or.inl rfl

@[simp] lemma alive_runnable : runnable.Alive := Or.inr (Or.inl rfl)

@[simp] lemma alive_running : running.Alive := Or.inr (Or.inr rfl)

namespace Alive

variable (h : s.Alive)
include h

lemma born : s.Born := Or.inl h

lemma ne_unused : s ≠ unused := by
  rcases h with rfl | rfl | rfl <;> decide

lemma ne_embryo : s ≠ embryo := by
  rcases h with rfl | rfl | rfl <;> decide

lemma ne_zombie : s ≠ zombie := by
  rcases h with rfl | rfl | rfl <;> decide

end Alive

@[simp] lemma born_runnable : runnable.Born := alive_runnable.born

@[simp] lemma born_running : running.Born := alive_running.born

@[simp] lemma born_zombie : zombie.Born := Or.inr rfl

namespace Born

variable (h : s.Born)
include h

lemma ne_unused : s ≠ unused := by
  rcases h with h | rfl
  · exact h.ne_unused
  · decide

lemma ne_embryo : s ≠ embryo := by
  rcases h with h | rfl
  · exact h.ne_embryo
  · decide

end Born

/-- What `kill` does to a state. -/
lemma wakes_kill (s : Procstate) : s.Wakes (if s = sleeping then runnable else s) := by
  split_ifs with hs
  · exact Or.inr ⟨hs, rfl⟩
  · exact Or.inl rfl

namespace Wakes

variable (h : s.Wakes s')
include h

lemma trans {s'' : Procstate} (h' : s'.Wakes s'') : s.Wakes s'' := by
  rcases h with rfl | ⟨rfl, rfl⟩
  · exact h'
  · rcases h' with rfl | ⟨h', -⟩
    · exact Or.inr ⟨rfl, rfl⟩
    · cases h'

lemma alive (ha : s.Alive) : s'.Alive := by
  rcases h with rfl | ⟨-, rfl⟩
  · exact ha
  · exact alive_runnable

lemma born (hb : s'.Born) : s.Born := by
  rcases h with rfl | ⟨rfl, -⟩
  · exact hb
  · exact alive_sleeping.born

/-- States other than `runnable` are not reached by waking up. -/
lemma eq_of_ne (hs : s' = t) (ht : t ≠ runnable := by decide) : s = t := by
  rcases h with rfl | ⟨-, rfl⟩
  · exact hs
  · exact absurd hs.symm ht

/-- Only sleepers wake up. -/
lemma eq_of_ne_sleeping (hs : s ≠ sleeping) : s' = s := by
  rcases h with rfl | ⟨hs', -⟩
  · rfl
  · exact absurd hs' hs

lemma ne_sleeping (hs : s ≠ sleeping) : s' ≠ sleeping := by
  rwa [h.eq_of_ne_sleeping hs]

/-- A process in neither of the two states a wakeup is about. -/
lemma eq_iff (ht : t ≠ runnable := by decide) (ht' : t ≠ sleeping := by decide) :
    s' = t ↔ s = t := by
  refine ⟨fun hs => h.eq_of_ne hs ht, fun hs => ?_⟩
  rw [h.eq_of_ne_sleeping (hs ▸ ht'), hs]

/-- A process that waits for the CPU or for an event did so before. -/
lemma waiting (hs : s' = runnable ∨ s' = sleeping) : s = runnable ∨ s = sleeping := by
  rcases h with rfl | ⟨rfl, -⟩
  · exact hs
  · exact Or.inr rfl

end Wakes

end Procstate

/-- A sleep channel: the address of a slot of the process table, on which `wait`
sleeps, or the address of some other kernel object. -/
inductive Chan (ι : Type) where
  | proc (i : ι)
  | addr (a : ℕ)
  deriving DecidableEq, Repr

/-- The fields of `struct proc` that other processes read or write. -/
structure Entry (ι : Type) where
  state : Procstate
  pid : ℤ
  parent : Option ι
  chan : Option (Chan ι)
  killed : Bool
  tickets : ℤ
  ticks : ℤ
  deriving DecidableEq, Repr

/-! ### Observations -/

/-- `processes_info`: the number of entries, and the three arrays by index. -/
structure ProcessesInfo where
  numProcesses : ℕ
  pids : ℕ → ℤ
  ticks : ℕ → ℤ
  tickets : ℕ → ℤ

/-- The observable part of a kernel step. -/
inductive Event (ι : Type) where
  /-- nothing below happened -/
  | other
  /-- `allocproc` handed the slot `np` and the pid `pid` to a new process -/
  | alloc (np : ι) (pid : ℤ)
  /-- a `fork` returned -1, giving back the slot it had taken, if it had one -/
  | forkFailed (np : Option ι)
  /-- a `fork` by the process `parent` returned `child` -/
  | forked (parent child : ℤ) (np : ι)
  /-- the process `pid` in the slot `i` became a zombie -/
  | exited (i : ι) (pid : ℤ)
  /-- a `wait` by the process `parent` returned `child`, from the slot `z` -/
  | reaped (parent child : ℤ) (z : ι)
  /-- `scheduler` switched to the process `pid` in the slot `w` -/
  | dispatched (w : ι) (pid : ℤ)
  /-- `kill(pid)` was called; `hit` is the slot it marked -/
  | killed (pid : ℤ) (hit : Option ι)
  /-- the process `pid` in the slot `i` was marked by an unexpected user-mode trap -/
  | trapped (i : ι) (pid : ℤ)
  /-- `sys_assign_tickets` was called with `tickets`; `hit` is the slot it changed -/
  | assigned (tickets : ℤ) (hit : Option ι)
  /-- `sys_proc_info` returned this listing -/
  | snapshot (info : ProcessesInfo)

namespace Event

variable {ι : Type}

/-- Allocations of a pid. -/
def isAlloc : Event ι → Bool
  | .alloc _ _ => true
  | _ => false

/-- The pid that an allocation gives out. -/
def given : Event ι → Option ℤ
  | .alloc _ pid => some pid
  | _ => none

/-- Failures of a `fork` that had taken a slot. -/
def givesBack : Event ι → Bool
  | .forkFailed (some _) => true
  | _ => false

/-- Dispatches. -/
def isDispatch : Event ι → Bool
  | .dispatched _ _ => true
  | _ => false

/-- Dispatches of the process `q`. -/
def runs (q : ℤ) : Event ι → Bool
  | .dispatched _ x => x = q
  | _ => false

/-- Returns of `q` from `wait`. -/
def reaps (q : ℤ) : Event ι → Bool
  | .reaped _ x _ => x = q
  | _ => false

end Event

end Xv6Lottery
