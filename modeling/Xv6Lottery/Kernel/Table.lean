import Xv6Lottery.Life.Step

/-!
The process table of `proc.c` and the functions that work on it.

Each function below is the table part of the source function of that name, as a
function from tables to tables; locks, CPUs and the order of steps are the matter
of `Machine`. The loops over `ptable.proc` are recursions over the list `slots`.

* `Context`: where the kernel thread of a process continues, in place of the saved
  registers: the points of `fork`, `exit`, `wait`, `sleep` and `yield` between which
  other CPUs may run.
* `allocproc`, `allocprocStack`, `forkFill`, `forkUndo`: the pieces of `fork`.
* `wakeup1`, `exitTable`, `waitLoop`, `reap`, `kill`: the rest of `proc.c`.
* `sysAssignTickets`, `sysProcInfo`: the two system calls of `sysproc.c`.
* `exitTable_effect` and `waitLoop_some`, `waitLoop_none`: what the loops compute,
  in the terms of `Life`.
-/

namespace Xv6Lottery

open Procstate

/-- An index into `ptable.proc`. -/
abbrev Slot := Fin NPROC

instance neZero_NPROC : NeZero NPROC := ⟨by decide⟩

/-- The continuation of a kernel thread: where the process goes on when its CPU
executes it next. -/
inductive Context where
  /-- no context yet -/
  | null
  /-- a new process: `forkret`, which releases `ptable.lock` -/
  | forkret
  /-- user code, or kernel code outside `proc.c` -/
  | user
  /-- in `allocproc`, the slot `np` taken and the lock released; `kalloc` next -/
  | allocStack (np : Slot)
  /-- in `fork`; `copyuvm` next -/
  | forkCopy (np : Slot)
  /-- in `fork`; the fields of the child next -/
  | forkFill (np : Slot)
  /-- in `fork`; the child is complete, and becomes `RUNNABLE` next -/
  | forkPublish (np : Slot)
  /-- in `exit`; descriptor `fd` is closed next -/
  | exitClose (fd : ℕ)
  /-- in `exit`; the working directory is released next -/
  | exitCwd
  /-- in `exit`; `acquire(&ptable.lock)` next -/
  | exitLock
  /-- in the `sched` of `exit`, which does not return -/
  | exited
  /-- in `wait`, at the head of its loop with `ptable.lock` held -/
  | waitScan
  /-- in the `sched` of the `sleep(curproc, &ptable.lock)` of `wait` -/
  | waitSleep
  /-- in `sleep(a, lk)` called at `k`, with `lk` held; `acquire(&ptable.lock)` next -/
  | sleepEnter (a lk : ℕ) (k : Context)
  /-- in `sleep`, with both locks held; `release(lk)` next -/
  | sleepBoth (a lk : ℕ) (k : Context)
  /-- in `sleep`, with `ptable.lock` held; the state change next -/
  | sleepSet (a lk : ℕ) (k : Context)
  /-- in the `sched` of `sleep` -/
  | slept (lk : ℕ) (k : Context)
  /-- in `sleep` after waking, `ptable.lock` released; `acquire(lk)` next -/
  | sleepRelock (lk : ℕ) (k : Context)
  /-- in the `sched` of a `yield` that interrupted `k` -/
  | yielded (k : Context)
  deriving DecidableEq, Repr

namespace Context

/-- The thread holds `ptable.lock` when it is executed at this point. -/
def holds : Context → Bool
  | forkret | waitScan | waitSleep | sleepBoth _ _ _ | sleepSet _ _ _ | slept _ _
  | yielded _ => true
  | _ => false

/-- The thread has given up the CPU and may be switched to. -/
def parked : Context → Bool
  | forkret | waitSleep | slept _ _ | yielded _ => true
  | _ => false

/-- Points at which other kernel code, such as an interrupt handler, may run on the
same CPU. -/
def interruptible : Context → Bool
  | user | allocStack _ | forkCopy _ | forkFill _ | forkPublish _ | exitClose _ | exitCwd
  | exitLock | sleepRelock _ _ => true
  | _ => false

/-- Points from which kernel code calls `sleep`: system calls, and `exit` while it
closes files and releases the working directory. -/
def maySleep : Context → Bool
  | user | exitClose _ | exitCwd => true
  | _ => false

lemma holds_of_parked {k : Context} (h : k.parked = true) : k.holds = true := by
  cases k <;> simp_all [parked, holds]

lemma not_holds_of_maySleep {k : Context} (h : k.maySleep = true) : k.holds = false := by
  cases k <;> simp_all [maySleep, holds]

end Context

/-- `struct proc`: the shared fields and those only the process itself uses, less
the page directory and the trap frame. `kstack` says whether there is a kernel
stack. -/
structure Proc extends Entry Slot where
  context : Context
  kstack : Bool
  sz : ℕ
  ofile : Fin NOFILE → Option ℕ
  cwd : Option ℕ
  name : String

/-- `ptable.proc`. -/
abbrev Table := Slot → Proc

/-- The slots in the order of the loops `for(p = ptable.proc; …; p++)`. -/
def slots : List Slot := List.finRange NPROC

/-- The shared part of the table. -/
def Table.entries (t : Table) : Slot → Entry Slot := fun i => (t i).toEntry

/-- A slot of the statically zeroed table. -/
def zeroProc : Proc where
  state := unused
  pid := 0
  parent := none
  chan := none
  killed := false
  tickets := 0
  ticks := 0
  context := .null
  kstack := false
  sz := 0
  ofile := fun _ => none
  cwd := none
  name := ""

/-- Only the continuation of slot `i` changes. -/
def setContext (t : Table) (i : Slot) (k : Context) : Table :=
  Function.update t i { t i with context := k }

/-! ### `allocproc` and `fork` -/

/-- The scan of `allocproc` for a free slot. -/
def findUnused (t : Table) : Option Slot := slots.find? fun p => (t p).state = unused

/-- `allocproc` up to the release of the lock. -/
def allocproc (t : Table) (nextpid : ℤ) (p : Slot) : Table :=
  Function.update t p { t p with state := embryo, pid := nextpid, tickets := 100, ticks := 0 }

/-- `allocproc` from `kalloc` on: without a page the slot is given back, otherwise
the new context starts at `forkret`. -/
def allocprocStack (t : Table) (p : Slot) (kalloc : Bool) : Table :=
  if kalloc then Function.update t p { t p with kstack := true, context := .forkret }
  else Function.update t p { t p with kstack := false, state := unused }

/-- The failure branch of `fork` after `copyuvm`. -/
def forkUndo (t : Table) (np : Slot) : Table :=
  Function.update t np { t np with kstack := false, state := unused }

/-- `fork` after `copyuvm`: the fields of the child. Only the open descriptors of
the parent are written to `ofile`. -/
def forkFill (t : Table) (curproc np : Slot) : Table :=
  Function.update t np
    { t np with
      sz := (t curproc).sz
      parent := some curproc
      ofile := fun fd => ((t curproc).ofile fd).orElse fun _ => (t np).ofile fd
      cwd := (t curproc).cwd
      name := (t curproc).name }

/-- `np->state = RUNNABLE`. -/
def forkPublish (t : Table) (np : Slot) : Table :=
  Function.update t np { t np with state := runnable }

/-! ### `wakeup1`, `exit`, `wait`, `kill` -/

/-- `wakeup1(chan)`. -/
def wakeup1 (t : Table) (chan : Option (Chan Slot)) : Table := fun p =>
  if (t p).state = sleeping ∧ (t p).chan = chan then { t p with state := runnable } else t p

/-- The loop of `exit` that passes abandoned children to `initproc`. -/
def reparentLoop (initproc : Option Slot) (curproc : Slot) : List Slot → Table → Table
  | [], t => t
  | p :: ps, t =>
      if (t p).parent = some curproc then
        let t' := Function.update t p { t p with parent := initproc }
        if (t' p).state = zombie then
          reparentLoop initproc curproc ps (wakeup1 t' (initproc.map Chan.proc))
        else reparentLoop initproc curproc ps t'
      else reparentLoop initproc curproc ps t

/-- `exit` from `acquire(&ptable.lock)` to `sched()`. -/
def exitTable (initproc : Option Slot) (t : Table) (curproc : Slot) : Table :=
  let t₁ := wakeup1 t ((t curproc).parent.map Chan.proc)
  let t₂ := reparentLoop initproc curproc slots t₁
  Function.update t₂ curproc { t₂ curproc with state := zombie }

/-- The scan of `wait`: whether there are children, and the first zombie among them,
at which the scan stops. -/
def waitLoop (t : Table) (curproc : Slot) : List Slot → Bool → Bool × Option Slot
  | [], havekids => (havekids, none)
  | p :: ps, havekids =>
      if (t p).parent ≠ some curproc then waitLoop t curproc ps havekids
      else if (t p).state = zombie then (true, some p)
      else waitLoop t curproc ps true

/-- What `wait` does to the slot it found. -/
def reap (t : Table) (p : Slot) : Table :=
  Function.update t p
    { t p with
      kstack := false, pid := 0, tickets := 0, ticks := 0, parent := none, name := "",
      killed := false, state := unused }

/-- The scans of `kill` and `sys_assign_tickets` for a pid. -/
def findPid (t : Table) (pid : ℤ) : Option Slot := slots.find? fun p => (t p).pid = pid

/-- `kill(pid)`: the return value and the table. -/
def kill (t : Table) (pid : ℤ) : ℤ × Table :=
  match findPid t pid with
  | some p =>
      (0, Function.update t p
        { t p with
          killed := true
          state := if (t p).state = sleeping then runnable else (t p).state })
  | none => (-1, t)

/-! ### `sysproc.c` -/

/-- `sys_assign_tickets(pid, tickets)`: the return value and the table. -/
def sysAssignTickets (t : Table) (pid tickets : ℤ) : ℤ × Table :=
  if pid < 1 ∨ tickets < 1 then (-1, t)
  else
    match findPid t pid with
    | some p => (0, Function.update t p { t p with tickets := tickets })
    | none => (-2, t)

/-- The loop of `sys_proc_info`. -/
def procInfoLoop (t : Table) : List Slot → ProcessesInfo → ProcessesInfo
  | [], info => info
  | p :: ps, info =>
      if (t p).state = unused then procInfoLoop t ps info
      else procInfoLoop t ps
        { numProcesses := info.numProcesses + 1
          pids := Function.update info.pids info.numProcesses (t p).pid
          ticks := Function.update info.ticks info.numProcesses (t p).ticks
          tickets := Function.update info.tickets info.numProcesses (t p).tickets }

/-- `sys_proc_info`, writing over the old contents `info` of the caller's buffer. -/
def sysProcInfo (t : Table) (info : ProcessesInfo) : ProcessesInfo :=
  procInfoLoop t slots { info with numProcesses := 0 }

/-! ### `userinit` -/

/-- The slot of the first process: the scan of `allocproc` on the zeroed table. -/
def initSlot : Slot := 0

/-- The table after `userinit`, in which `kalloc` and `setupkvm` succeed: `allocproc`
has taken the first slot with pid 1, and `initcode` is `RUNNABLE`. -/
def userinit : Table :=
  let t := allocprocStack (allocproc (fun _ => zeroProc) 1 initSlot) initSlot true
  Function.update t initSlot
    { t initSlot with sz := 4096, name := "initcode", cwd := some 1, state := runnable }

example : findUnused (fun _ => zeroProc) = some initSlot := by decide

/-- The entry of the first process. -/
def initEntry : Entry Slot where
  state := runnable
  pid := 1
  parent := none
  chan := none
  killed := false
  tickets := 100
  ticks := 0

lemma userinit_init : (userinit initSlot).toEntry = initEntry ∧
    (userinit initSlot).context = .forkret := by
  simp [userinit, allocprocStack, allocproc, zeroProc, initEntry]

lemma userinit_of_ne {i : Slot} (h : i ≠ initSlot) : userinit i = zeroProc := by
  simp [userinit, allocprocStack, allocproc, h]

/-! ### What the loops compute -/

lemma mem_slots (i : Slot) : i ∈ slots := List.mem_finRange i

/-- A scan over the table stops at the first slot with the property. -/
lemma find_slots_eq_some_iff {p : Slot → Bool} {j : Slot} :
    slots.find? p = some j ↔ p j = true ∧ ∀ k < j, p k = false := by
  have hfirst : ∀ {j}, slots.find? p = some j → p j = true ∧ ∀ k < j, p k = false := by
    intro j hj
    obtain ⟨hpj, i, hi, hij, hbefore⟩ := List.find?_eq_some_iff_getElem.mp hj
    have hji : j.1 = i := by simp [← hij, slots]
    refine ⟨hpj, fun k hk => ?_⟩
    have hk' := hbefore k.1 (by rw [← hji]; exact hk)
    simpa [slots] using hk'
  refine ⟨hfirst, fun ⟨hj, hbefore⟩ => ?_⟩
  cases hf : slots.find? p with
  | none => exact absurd hj (List.find?_eq_none.mp hf j (mem_slots j))
  | some i =>
      obtain ⟨hi, hbefore'⟩ := hfirst hf
      rcases lt_trichotomy i j with hij | rfl | hji
      · rw [hbefore i hij] at hi
        cases hi
      · rfl
      · rw [hbefore' j hji] at hj
        cases hj

lemma findUnused_some {t : Table} {p : Slot} (h : findUnused t = some p) :
    (t p).state = unused := by
  simpa using List.find?_some h

lemma findPid_some {t : Table} {pid : ℤ} {p : Slot} (h : findPid t pid = some p) :
    (t p).pid = pid := by
  simpa using List.find?_some h

lemma findPid_none {t : Table} {pid : ℤ} (h : findPid t pid = none) (p : Slot) :
    (t p).pid ≠ pid := by
  simpa using List.find?_eq_none.mp h p (mem_slots p)

/-- A slot returned by the scan of `wait` is a zombie child. -/
lemma waitLoop_some {t : Table} {curproc z : Slot} {l : List Slot} {b b' : Bool}
    (h : waitLoop t curproc l b = (b', some z)) :
    (t z).parent = some curproc ∧ (t z).state = zombie := by
  induction l generalizing b with
  | nil => simp [waitLoop] at h
  | cons p ps ih =>
      rw [waitLoop] at h
      split_ifs at h with h1 h2
      · exact ih h
      · obtain rfl : p = z := by simpa using (Prod.mk.inj h).2
        exact ⟨not_not.mp h1, h2⟩
      · exact ih h

/-- When the scan of `wait` ends without a zombie there is none among the children,
and the flag says whether there are children. -/
lemma waitLoop_none {t : Table} {curproc : Slot} {l : List Slot} {b b' : Bool}
    (h : waitLoop t curproc l b = (b', none)) :
    (∀ p ∈ l, (t p).parent = some curproc → (t p).state ≠ zombie) ∧
      (b' = true ↔ b = true ∨ ∃ p ∈ l, (t p).parent = some curproc) := by
  induction l generalizing b with
  | nil =>
      obtain rfl : b = b' := (Prod.mk.inj h).1
      simp
  | cons p ps ih =>
      rw [waitLoop] at h
      split_ifs at h with h1 h2
      · obtain ⟨h3, h4⟩ := ih h
        simp only [List.forall_mem_cons, List.exists_mem_cons_iff, h4]
        exact ⟨⟨fun hpar => absurd hpar h1, h3⟩, by simp [h1]⟩
      · simp at h
      · obtain ⟨h3, h4⟩ := ih h
        simp only [List.forall_mem_cons, List.exists_mem_cons_iff, h4]
        exact ⟨⟨fun _ => h2, h3⟩, by simp [not_not.mp h1]⟩

/-- `wakeup1` changes nothing but the state of sleepers, and leaves none on the
channel. -/
lemma wakeup1_apply (t : Table) (ch : Option (Chan Slot)) (j : Slot) :
    ∃ st, (t j).state.Wakes st ∧ wakeup1 t ch j = { t j with state := st } ∧
      ((t j).chan = ch → st ≠ sleeping) := by
  by_cases h : (t j).state = sleeping ∧ (t j).chan = ch
  · exact ⟨runnable, Or.inr ⟨h.1, rfl⟩, by rw [wakeup1, if_pos h], fun _ => by simp⟩
  · exact ⟨(t j).state, Or.inl rfl, by rw [wakeup1, if_neg h], fun hch hs => h ⟨hs, hch⟩⟩

/-- `kill`, slot by slot. -/
lemma kill_apply (t : Table) (pid : ℤ) (j : Slot) :
    ∃ st b, (t j).state.Wakes st ∧ (kill t pid).2 j = { t j with state := st, killed := b } := by
  unfold kill
  cases findPid t pid with
  | none => exact ⟨_, _, Or.inl rfl, rfl⟩
  | some p =>
      rcases eq_or_ne j p with rfl | hj
      · exact ⟨_, true, wakes_kill _, Function.update_self _ _ _⟩
      · exact ⟨_, _, Or.inl rfl, Function.update_of_ne hj _ _⟩

/-- `sys_assign_tickets`, slot by slot. -/
lemma sysAssignTickets_apply (t : Table) (pid tickets : ℤ) (j : Slot) :
    ∃ m, (sysAssignTickets t pid tickets).2 j = { t j with tickets := m } := by
  unfold sysAssignTickets
  split_ifs with hbad
  · exact ⟨_, rfl⟩
  · cases findPid t pid with
    | none => exact ⟨_, rfl⟩
    | some p =>
        rcases eq_or_ne j p with rfl | hj
        · exact ⟨_, Function.update_self _ _ _⟩
        · exact ⟨_, Function.update_of_ne hj _ _⟩

/-- The effect of the reparenting loop of `exit` over the slots `l`. -/
structure Reparented (ip : Option Slot) (cur : Slot) (l : List Slot) (t t' : Table) : Prop where
  entry : ∀ j, ∃ st, (t j).state.Wakes st ∧
    t' j = { t j with
      state := st
      parent := if j ∈ l ∧ (t j).parent = some cur then ip else (t j).parent }
  wakesInit : ∀ k ∈ l, (t k).parent = some cur → (t k).state = zombie →
    ∀ j, (t j).chan = ip.map Chan.proc → (t' j).state ≠ sleeping

namespace Reparented

variable {ip : Option Slot} {cur p : Slot} {ps : List Slot} {t t₁ t₂ : Table}

/-- One turn of the loop and the turns after it. A wakeup does not touch zombies, and a
slot already given to `initproc` is not changed again, so the tests of the later turns
read the table the loop started from. -/
lemma cons (h₁ : Reparented ip cur [p] t t₁) (h₂ : Reparented ip cur ps t₁ t₂) :
    Reparented ip cur (p :: ps) t t₂ := by
  refine ⟨fun j => ?_, fun k hk hpar hz j hj => ?_⟩
  · obtain ⟨st₁, hw₁, he₁⟩ := h₁.entry j
    obtain ⟨st₂, hw₂, he₂⟩ := h₂.entry j
    rw [he₁] at hw₂ he₂
    refine ⟨st₂, hw₁.trans hw₂, ?_⟩
    rw [he₂]
    rcases eq_or_ne j p with rfl | hj
    · by_cases hpar : (t j).parent = some cur <;> simp [hpar]
    · simp [hj]
  · obtain ⟨st₂, hw₂, he₂⟩ := h₂.entry j
    rcases eq_or_ne k p with rfl | hkp
    · rw [he₂]
      exact hw₂.ne_sleeping (h₁.wakesInit k (List.mem_singleton_self k) hpar hz j hj)
    · obtain ⟨stk, hwk, hek⟩ := h₁.entry k
      obtain ⟨stj, -, hej⟩ := h₁.entry j
      refine h₂.wakesInit k (List.mem_of_ne_of_mem hkp hk) ?_ ?_ j ?_
      · rw [hek]
        simpa [hkp] using hpar
      · rw [hek]
        exact hwk.eq_iff.mpr hz
      · rw [hej]
        exact hj

end Reparented

/-- One turn of the loop: the visited slot changes its parent, and `initproc` is woken
for a zombie. -/
lemma reparentLoop_cons (ip : Option Slot) (cur p : Slot) (ps : List Slot) (t : Table) :
    ∃ t₁, reparentLoop ip cur (p :: ps) t = reparentLoop ip cur ps t₁ ∧
      Reparented ip cur [p] t t₁ := by
  by_cases hp : (t p).parent = some cur
  · set t₁ : Table := Function.update t p { t p with parent := ip } with ht₁
    have hpar : ∀ j, t₁ j =
        { t j with parent := if j ∈ [p] ∧ (t j).parent = some cur then ip else (t j).parent } := by
      refine (Function.forall_update_iff t fun j x => x =
        { t j with parent := if j ∈ [p] ∧ (t j).parent = some cur then ip else (t j).parent }).mpr
          ⟨by simp [hp], fun j hj => by simp [hj]⟩
    by_cases hz : (t₁ p).state = zombie
    · refine ⟨wakeup1 t₁ (ip.map Chan.proc), ?_, fun j => ?_, fun k _ _ _ j hj => ?_⟩
      · simp only [reparentLoop, hp, if_true]
        rw [if_pos hz]
      · obtain ⟨st, hw, he, -⟩ := wakeup1_apply t₁ (ip.map Chan.proc) j
        rw [hpar j] at hw he
        exact ⟨st, hw, he⟩
      · obtain ⟨st, -, he, hch⟩ := wakeup1_apply t₁ (ip.map Chan.proc) j
        rw [he]
        exact hch (by rw [hpar j]; exact hj)
    · refine ⟨t₁, ?_, fun j => ⟨(t j).state, Or.inl rfl, hpar j⟩, fun k hk _ hzk => ?_⟩
      · simp only [reparentLoop, hp, if_true]
        rw [if_neg hz]
      · obtain rfl := List.mem_singleton.mp hk
        exact absurd (by rw [hpar k]; exact hzk) hz
  · refine ⟨t, by rw [reparentLoop, if_neg hp], fun j => ⟨(t j).state, Or.inl rfl, ?_⟩,
      fun k hk hpar => ?_⟩
    · by_cases hj : j = p
      · subst hj
        simp [hp]
      · simp [hj]
    · obtain rfl := List.mem_singleton.mp hk
      exact absurd hpar hp

/-- The loop, slot by slot. -/
lemma reparented (ip : Option Slot) (cur : Slot) (l : List Slot) (t : Table) :
    Reparented ip cur l t (reparentLoop ip cur l t) := by
  induction l generalizing t with
  | nil => exact ⟨fun j => ⟨(t j).state, Or.inl rfl, by simp [reparentLoop]⟩, by simp⟩
  | cons p ps ih =>
      obtain ⟨t₁, hloop, hturn⟩ := reparentLoop_cons ip cur p ps t
      rw [hloop]
      exact hturn.cons (ih t₁)

/-- `exit`, slot by slot, in the full table: shared fields as `ExitEffect` says, and
the rest of every slot untouched. -/
lemma exitTable_apply (ip : Option Slot) (t : Table) (cur j : Slot) :
    ∃ st, (if j = cur then st = zombie else (t j).state.Wakes st) ∧
      exitTable ip t cur j = { t j with
        state := st
        parent := if (t j).parent = some cur then ip else (t j).parent } := by
  have hrep := reparented ip cur slots (wakeup1 t ((t cur).parent.map Chan.proc))
  obtain ⟨st₁, hw₁, he₁, _⟩ := wakeup1_apply t ((t cur).parent.map Chan.proc) j
  obtain ⟨st₂, hw₂, he₂⟩ := hrep.entry j
  rw [he₁] at hw₂ he₂
  by_cases hj : j = cur
  · subst hj
    refine ⟨zombie, by simp, ?_⟩
    simp only [exitTable, Function.update_self]
    rw [he₂]
    simp [mem_slots]
  · refine ⟨st₂, by rw [if_neg hj]; exact hw₁.trans hw₂, ?_⟩
    simp only [exitTable]
    rw [Function.update_of_ne hj, he₂]
    simp [mem_slots]

/-- **`exit` on the process table**: the loops of `exit` have the effect that the
abstract machine asks for. -/
lemma exitTable_effect (ip : Slot) (t : Table) (cur : Slot) :
    ExitEffect ip cur t.entries (Table.entries (exitTable (some ip) t cur)) := by
  set t₁ := wakeup1 t ((t cur).parent.map Chan.proc) with ht₁
  have hrep := reparented (some ip) cur slots t₁
  have hne : ∀ j, (reparentLoop (some ip) cur slots t₁ j).state ≠ sleeping →
      (exitTable (some ip) t cur j).state ≠ sleeping := by
    intro j h
    by_cases hj : j = cur
    · subst hj; simp [exitTable]
    · simp only [exitTable, Function.update_of_ne hj]
      exact h
  refine ⟨fun j => ?_, fun j hj => hne j ?_, fun k hpar hz j hj => hne j ?_⟩
  · obtain ⟨st, h1, h2⟩ := exitTable_apply (some ip) t cur j
    refine ⟨st, h1, ?_⟩
    simp only [Table.entries, h2]
    congr
  · obtain ⟨st₁, _, he₁, hch⟩ := wakeup1_apply t ((t cur).parent.map Chan.proc) j
    obtain ⟨st₂, hw₂, he₂⟩ := hrep.entry j
    rw [he₂]
    refine hw₂.ne_sleeping ?_
    rw [ht₁, he₁]
    exact hch hj
  · obtain ⟨stk, hwk, hek, _⟩ := wakeup1_apply t ((t cur).parent.map Chan.proc) k
    obtain ⟨stj, _, hej, _⟩ := wakeup1_apply t ((t cur).parent.map Chan.proc) j
    refine hrep.wakesInit k (mem_slots k) ?_ ?_ j ?_
    · rw [ht₁, hek]; exact hpar
    · rw [ht₁, hek]
      exact hwk.eq_iff.mpr hz
    · rw [ht₁, hej]; exact hj

end Xv6Lottery
