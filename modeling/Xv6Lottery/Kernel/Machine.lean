import Xv6Lottery.Kernel.Scheduler

/-!
The kernel as a system of CPUs that share the process table.

A CPU executes either its `scheduler()` loop (`SchedPc`) or the kernel thread of the
process it has switched to, which goes on at the `Context` in its slot. A step is one
action of one CPU. The stretches of code between `acquire(&ptable.lock)` and the
matching `release` are one action each, except that

* the lock is held from one action to the next where the source hands it over through
  `swtch`: from the `sched()` of a process to the end of the pass of `scheduler()`,
  and from a dispatch to the `release` in `forkret`, `yield` or `sleep`;
* `scheduler()`, `wait()` and `sleep()` take the lock in an action of their own;
* what the source writes without the lock (`fork` between `allocproc` and the last
  `acquire`, `exit` before it, `trap`) is separate actions, which other CPUs may see
  in any order, also while one of them holds the lock.

An action carries the CPU, the process and the data that the code reads where it is
taken, so that `Enabled` is a conjunction of equations and `next` a plain function. A
CPU that panics or faults stops (`halted`), with the locks it holds.

* `Kernel`, `Act`, `Enabled`, `next`, `event`: the machine. `origin_event` reads an event
  back as the action it comes from.
* `boot`: the kernel after `userinit`, every CPU about to enter its first pass.
* `Step`, `Reachable`: the steps and reachable states, for a restriction `ok` on the
  actions. `Reachable.invariant` is the induction over them.
-/

namespace Xv6Lottery

open Procstate Library

/-- Where a CPU is in `scheduler()`. -/
inductive SchedPc where
  /-- at the head of the loop; `acquire(&ptable.lock)` next -/
  | top
  /-- `ptable.lock` is held; the loop over the table next -/
  | pass
  /-- in `swtch(&(c->scheduler), p->context)`: the CPU executes the process -/
  | swtch
  /-- the process has switched back, `ptable.lock` held -/
  | back
  /-- `release(&ptable.lock)` next -/
  | done
  /-- stopped by a panic or a fault -/
  | halted
  deriving DecidableEq, Repr

/-- `struct cpu`, with the two locals of its `scheduler()` that outlive a pass. -/
structure Cpu where
  proc : Option Slot
  ncli : ℕ
  pc : SchedPc
  totalTickets : ℤ
  ticketsPassed : ℤ
  deriving DecidableEq, Repr

/-- The kernel: the process table, the static variables of `proc.c` and `rand.c`, the
holders of `ptable.lock` and of the other spinlocks by address, and the CPUs. -/
structure Kernel (n : ℕ) where
  table : Table
  nextpid : ℤ
  initproc : Option Slot
  startState : Ushort
  lock : Option (Fin n)
  locks : ℕ → Option (Fin n)
  cpus : Fin n → Cpu

/-- The actions. -/
inductive Act (n : ℕ) where
  /-- `scheduler()`: `acquire(&ptable.lock)` -/
  | schedAcquire (c : Fin n)
  /-- `scheduler()`: the pass up to the switch -/
  | schedPass (c : Fin n)
  /-- `scheduler()`: after the switch back -/
  | schedBack (c : Fin n)
  /-- `scheduler()`: `release(&ptable.lock)` -/
  | schedRelease (c : Fin n)
  /-- `forkret`: the first thing a new process does -/
  | forkret (c : Fin n) (i : Slot)
  /-- `yield` -/
  | yield (c : Fin n) (i : Slot) (k : Context)
  /-- `yield` after `sched()` -/
  | yieldReturn (c : Fin n) (i : Slot) (k : Context)
  /-- `fork`: `allocproc` up to the release of the lock -/
  | forkAlloc (c : Fin n) (i : Slot)
  /-- `fork`: `allocproc` from `kalloc` on, which succeeds or not -/
  | forkStack (c : Fin n) (i np : Slot) (ok : Bool)
  /-- `fork`: `copyuvm`, which succeeds or not -/
  | forkCopy (c : Fin n) (i np : Slot) (ok : Bool)
  /-- `fork`: the fields of the child -/
  | forkFill (c : Fin n) (i np : Slot)
  /-- `fork`: the child becomes `RUNNABLE` -/
  | forkPublish (c : Fin n) (i np : Slot)
  /-- `exit` is called -/
  | exitCall (c : Fin n) (i : Slot)
  /-- `exit`: one turn of the loop over the descriptors -/
  | exitClose (c : Fin n) (i : Slot) (fd : ℕ)
  /-- `exit`: `iput(curproc->cwd)` -/
  | exitCwd (c : Fin n) (i : Slot)
  /-- `exit`: from `acquire(&ptable.lock)` to `sched()` -/
  | exitSched (c : Fin n) (i : Slot)
  /-- `wait`: `acquire(&ptable.lock)` -/
  | waitCall (c : Fin n) (i : Slot)
  /-- `wait`: one turn of its loop, with the `sleep` at the end -/
  | waitScan (c : Fin n) (i : Slot)
  /-- `wait`: waking up in `sleep(curproc, &ptable.lock)` -/
  | waitWake (c : Fin n) (i : Slot)
  /-- `sleep(a, lk)` is called at `k` with `lk` held -/
  | sleepCall (c : Fin n) (i : Slot) (a lk : ℕ) (k : Context)
  /-- `sleep`: `acquire(&ptable.lock)` -/
  | sleepAcquire (c : Fin n) (i : Slot) (a lk : ℕ) (k : Context)
  /-- `sleep`: `release(lk)` -/
  | sleepRelease (c : Fin n) (i : Slot) (a lk : ℕ) (k : Context)
  /-- `sleep`: the state change and `sched()` -/
  | sleepSched (c : Fin n) (i : Slot) (a lk : ℕ) (k : Context)
  /-- `sleep`: after `sched()`, up to `release(&ptable.lock)` -/
  | sleepReturn (c : Fin n) (i : Slot) (lk : ℕ) (k : Context)
  /-- `sleep`: `acquire(lk)` -/
  | sleepRelock (c : Fin n) (i : Slot) (lk : ℕ) (k : Context)
  /-- `wakeup(ch)`, by a process or an interrupt handler -/
  | wakeup (c : Fin n) (ch : Chan Slot)
  /-- `kill(pid)` -/
  | kill (c : Fin n) (i : Slot) (pid : ℤ)
  /-- `sys_assign_tickets` -/
  | assignTickets (c : Fin n) (i : Slot) (pid tickets : ℤ)
  /-- `sys_proc_info` into a buffer with the contents `info` -/
  | procInfo (c : Fin n) (i : Slot) (info : ProcessesInfo)
  /-- `trap` on an unexpected trap in user mode: `myproc()->killed = 1` -/
  | trapKill (c : Fin n) (i : Slot)
  /-- other system calls, which change only the memory and files of their caller -/
  | sysOther (c : Fin n) (i : Slot) (sz : ℕ) (ofile : Fin NOFILE → Option ℕ)
      (cwd : Option ℕ) (name : String)
  /-- `acquire` of a lock other than `ptable.lock`, outside `sleep` -/
  | acquireLk (c : Fin n) (lk : ℕ)
  /-- `release` of a lock other than `ptable.lock`, outside `sleep` -/
  | releaseLk (c : Fin n) (lk : ℕ)

namespace Kernel

variable {n : ℕ} (s : Kernel n)

/-! ### Pieces of actions -/

/-- A change to one CPU. -/
@[simp] def setCpu (c : Fin n) (u : Cpu) : Kernel n := { s with cpus := Function.update s.cpus c u }

/-- `acquire(&ptable.lock)` of a free lock. -/
@[simp] def acquire (c : Fin n) : Kernel n :=
  { s.setCpu c { s.cpus c with ncli := (s.cpus c).ncli + 1 } with lock := some c }

/-- `release(&ptable.lock)`. -/
@[simp] def release (c : Fin n) : Kernel n :=
  { s.setCpu c { s.cpus c with ncli := (s.cpus c).ncli - 1 } with lock := none }

/-- `acquire` of another lock that is free. -/
@[simp] def acquireLk (c : Fin n) (lk : ℕ) : Kernel n :=
  { s.setCpu c { s.cpus c with ncli := (s.cpus c).ncli + 1 } with
    locks := Function.update s.locks lk (some c) }

/-- `release` of another lock. -/
@[simp] def releaseLk (c : Fin n) (lk : ℕ) : Kernel n :=
  { s.setCpu c { s.cpus c with ncli := (s.cpus c).ncli - 1 } with
    locks := Function.update s.locks lk none }

/-- The CPU goes on at `pc` in `scheduler()`. -/
@[simp] def setPc (c : Fin n) (pc : SchedPc) : Kernel n := s.setCpu c { s.cpus c with pc := pc }

/-- The process in slot `i` goes on at `k`. -/
@[simp] def goto (i : Slot) (k : Context) : Kernel n := { s with table := setContext s.table i k }

/-- `sched()` called by the process in slot `i`, to be continued at `k`. With another
lock held it panics. -/
@[simp] def sched (c : Fin n) (i : Slot) (k : Context) : Kernel n :=
  (s.goto i k).setPc c (if (s.cpus c).ncli = 1 then .back else .halted)

/-- `p->chan = ch; p->state = SLEEPING`. -/
@[simp] def setSleeping (i : Slot) (ch : Chan Slot) : Kernel n :=
  { s with
    table := Function.update s.table i { s.table i with chan := some ch, state := sleeping } }

/-- `p->chan = 0`. -/
@[simp] def clearChan (i : Slot) : Kernel n :=
  { s with table := Function.update s.table i { s.table i with chan := none } }

/-! ### The machine -/

/-- CPU `c` executes the process in slot `i`, which is at `k`. -/
def At (c : Fin n) (i : Slot) (k : Context) : Prop :=
  (s.cpus c).pc = .swtch ∧ (s.cpus c).proc = some i ∧ (s.table i).context = k

instance (c : Fin n) (i : Slot) (k : Context) : Decidable (s.At c i k) :=
  inferInstanceAs (Decidable (_ ∧ _ ∧ _))

/-- CPU `c` holds no lock, and interrupts are on. -/
def IntrOn (c : Fin n) : Prop := (s.cpus c).ncli = 0

instance (c : Fin n) : Decidable (s.IntrOn c) := inferInstanceAs (Decidable (_ = _))

/-- CPU `c` can execute kernel code outside the functions of `proc.c`: that of the
process it runs, or an interrupt handler. -/
def runsOther (c : Fin n) : Bool :=
  match (s.cpus c).pc, (s.cpus c).proc with
  | .top, _ => true
  | .swtch, some i => (s.table i).context.interruptible
  | _, _ => false

/-- The guard of an action. -/
def Enabled : Act n → Prop
  | .schedAcquire c => (s.cpus c).pc = .top ∧ s.IntrOn c ∧ s.lock = none
  | .schedPass c => (s.cpus c).pc = .pass
  | .schedBack c => (s.cpus c).pc = .back
  | .schedRelease c => (s.cpus c).pc = .done
  | .forkret c i => s.At c i .forkret
  | .yield c i k => s.At c i k ∧ s.IntrOn c ∧ s.lock = none
  | .yieldReturn c i k => s.At c i (.yielded k)
  | .forkAlloc c i => s.At c i .user ∧ s.IntrOn c ∧ s.lock = none
  | .forkStack c i np _ => s.At c i (.allocStack np) ∧ s.IntrOn c
  | .forkCopy c i np _ => s.At c i (.forkCopy np) ∧ s.IntrOn c
  | .forkFill c i np => s.At c i (.forkFill np) ∧ s.IntrOn c
  | .forkPublish c i np => s.At c i (.forkPublish np) ∧ s.IntrOn c ∧ s.lock = none
  | .exitCall c i => s.At c i .user ∧ s.IntrOn c
  | .exitClose c i fd => s.At c i (.exitClose fd) ∧ s.IntrOn c
  | .exitCwd c i => s.At c i .exitCwd ∧ s.IntrOn c
  | .exitSched c i => s.At c i .exitLock ∧ s.IntrOn c ∧ s.lock = none
  | .waitCall c i => s.At c i .user ∧ s.IntrOn c ∧ s.lock = none
  | .waitScan c i => s.At c i .waitScan
  | .waitWake c i => s.At c i .waitSleep
  | .sleepCall c i _ lk k => s.At c i k ∧ k.maySleep = true ∧ s.locks lk = some c
  | .sleepAcquire c i a lk k => s.At c i (.sleepEnter a lk k) ∧ s.lock = none
  | .sleepRelease c i a lk k => s.At c i (.sleepBoth a lk k)
  | .sleepSched c i a lk k => s.At c i (.sleepSet a lk k)
  | .sleepReturn c i lk k => s.At c i (.slept lk k)
  | .sleepRelock c i lk k => s.At c i (.sleepRelock lk k) ∧ s.IntrOn c ∧ s.locks lk = none
  | .wakeup c _ => s.runsOther c = true ∧ s.lock = none
  | .kill c i pid => s.At c i .user ∧ s.IntrOn c ∧ s.lock = none ∧ IsInt pid
  | .assignTickets c i pid tickets =>
      s.At c i .user ∧ s.IntrOn c ∧ s.lock = none ∧ IsInt pid ∧ IsInt tickets
  | .procInfo c i _ => s.At c i .user ∧ s.IntrOn c ∧ s.lock = none
  | .trapKill c i => s.At c i .user ∧ s.IntrOn c
  | .sysOther c i _ _ _ _ => s.At c i .user
  | .acquireLk c lk => s.runsOther c = true ∧ s.locks lk = none
  | .releaseLk c lk => s.runsOther c = true ∧ s.locks lk = some c

/-- The state after an action. -/
def next : Act n → Kernel n
  | .schedAcquire c => (s.acquire c).setPc c .pass
  | .schedPass c =>
      match schedulerPass s.table (s.cpus c).totalTickets (s.cpus c).ticketsPassed s.startState with
      | .idle totalTickets =>
          s.setCpu c { s.cpus c with pc := .done, totalTickets := totalTickets }
      | .fault _ startState => { s.setPc c .halted with startState := startState }
      | .dispatch w totalTickets ticketsPassed startState =>
          { s.setCpu c
              { s.cpus c with
                pc := .swtch, proc := some w, totalTickets := totalTickets,
                ticketsPassed := ticketsPassed } with
            startState := startState
            table := Function.update s.table w
              { s.table w with ticks := incInt (s.table w).ticks, state := running } }
  | .schedBack c =>
      s.setCpu c { s.cpus c with pc := .done, proc := none, totalTickets := 0, ticketsPassed := 0 }
  | .schedRelease c => (s.release c).setPc c .top
  | .forkret c i => (s.release c).goto i .user
  | .yield c i k =>
      { s.acquire c with
        table := Function.update s.table i { s.table i with state := runnable } }.sched c i
          (.yielded k)
  | .yieldReturn c i k => (s.release c).goto i k
  | .forkAlloc _ i =>
      match findUnused s.table with
      | none => s
      | some np =>
          { s with table := allocproc s.table s.nextpid np, nextpid := incInt s.nextpid }.goto i
            (.allocStack np)
  | .forkStack _ i np ok =>
      { s with table := allocprocStack s.table np ok }.goto i (if ok then .forkCopy np else .user)
  | .forkCopy _ i np ok =>
      if ok then s.goto i (.forkFill np)
      else { s with table := forkUndo s.table np }.goto i .user
  | .forkFill _ i np => { s with table := forkFill s.table i np }.goto i (.forkPublish np)
  | .forkPublish _ i np => { s with table := forkPublish s.table np }.goto i .user
  | .exitCall c i => if s.initproc = some i then s.setPc c .halted else s.goto i (.exitClose 0)
  | .exitClose _ i fd =>
      if h : fd < NOFILE then
        { s with
          table := Function.update s.table i
            { s.table i with ofile := Function.update (s.table i).ofile ⟨fd, h⟩ none } }.goto i
              (.exitClose (fd + 1))
      else s.goto i .exitCwd
  | .exitCwd _ i =>
      { s with table := Function.update s.table i { s.table i with cwd := none } }.goto i .exitLock
  | .exitSched c i =>
      { s.acquire c with table := exitTable s.initproc s.table i }.sched c i .exited
  | .waitCall c i => (s.acquire c).goto i .waitScan
  | .waitScan c i =>
      match waitLoop s.table i slots false with
      | (_, some z) => ({ s with table := reap s.table z }.release c).goto i .user
      | (havekids, none) =>
          if havekids = false ∨ (s.table i).killed = true then (s.release c).goto i .user
          else (s.setSleeping i (.proc i)).sched c i .waitSleep
  | .waitWake _ i => (s.clearChan i).goto i .waitScan
  | .sleepCall _ i a lk k => s.goto i (.sleepEnter a lk k)
  | .sleepAcquire c i a lk k => (s.acquire c).goto i (.sleepBoth a lk k)
  | .sleepRelease c i a lk k => (s.releaseLk c lk).goto i (.sleepSet a lk k)
  | .sleepSched c i a lk k => (s.setSleeping i (.addr a)).sched c i (.slept lk k)
  | .sleepReturn c i lk k => ((s.clearChan i).release c).goto i (.sleepRelock lk k)
  | .sleepRelock c i lk k => (s.acquireLk c lk).goto i k
  | .wakeup _ ch => { s with table := wakeup1 s.table (some ch) }
  | .kill _ _ pid => { s with table := (Xv6Lottery.kill s.table pid).2 }
  | .assignTickets _ _ pid tickets => { s with table := (sysAssignTickets s.table pid tickets).2 }
  | .procInfo _ _ _ => s
  | .trapKill _ i =>
      { s with table := Function.update s.table i { s.table i with killed := true } }
  | .sysOther _ i sz ofile cwd name =>
      { s with
        table := Function.update s.table i
          { s.table i with sz := sz, ofile := ofile, cwd := cwd, name := name } }
  | .acquireLk c lk => s.acquireLk c lk
  | .releaseLk c lk => s.releaseLk c lk

/-- What is seen of an action. -/
def event : Act n → Event Slot
  | .schedPass c =>
      match schedulerPass s.table (s.cpus c).totalTickets (s.cpus c).ticketsPassed s.startState with
      | .dispatch w _ _ _ => .dispatched w (s.table w).pid
      | _ => .other
  | .forkAlloc _ _ =>
      match findUnused s.table with
      | none => .forkFailed none
      | some np => .alloc np s.nextpid
  | .forkStack _ _ np ok => if ok then .other else .forkFailed (some np)
  | .forkCopy _ _ np ok => if ok then .other else .forkFailed (some np)
  | .forkPublish _ i np => .forked (s.table i).pid (s.table np).pid np
  | .exitSched _ i => .exited i (s.table i).pid
  | .waitScan _ i =>
      match waitLoop s.table i slots false with
      | (_, some z) => .reaped (s.table i).pid (s.table z).pid z
      | _ => .other
  | .kill _ _ pid => .killed pid (findPid s.table pid)
  | .assignTickets _ _ pid tickets =>
      .assigned tickets (if pid < 1 ∨ tickets < 1 then none else findPid s.table pid)
  | .procInfo _ _ info => .snapshot (sysProcInfo s.table info)
  | .trapKill _ i => .trapped i (s.table i).pid
  | _ => .other

/-- The pass that CPU `c` is about to make. -/
abbrev pass (c : Fin n) : Pass :=
  schedulerPass s.table (s.cpus c).totalTickets (s.cpus c).ticketsPassed s.startState

/-- What an event says about the action it comes from. -/
def Origin (a : Act n) : Event Slot → Prop
  | .dispatched w _ => ∃ c total passed v, a = .schedPass c ∧ s.pass c = .dispatch w total passed v
  | .reaped _ _ z => ∃ c i b, a = .waitScan c i ∧ waitLoop s.table i slots false = (b, some z)
  | .assigned m _ => ∃ c i pid, a = .assignTickets c i pid m
  | .snapshot info => ∃ c i info₀, a = .procInfo c i info₀ ∧ info = sysProcInfo s.table info₀
  | _ => True

/-- Dispatches, reaps, assignments and snapshots come from one kind of action each. -/
lemma origin_event (a : Act n) : s.Origin a (s.event a) := by
  cases a with
  | schedPass c =>
      simp only [event]
      split
      · rename_i w total passed v hp
        exact ⟨c, total, passed, v, rfl, hp⟩
      · trivial
  | waitScan c i =>
      simp only [event]
      split
      · rename_i b z hw
        exact ⟨c, i, b, rfl, hw⟩
      · trivial
  | forkAlloc c i =>
      simp only [event]
      split <;> trivial
  | forkStack c i np ok | forkCopy c i np ok => cases ok <;> trivial
  | assignTickets c i pid tickets => exact ⟨c, i, pid, rfl⟩
  | procInfo c i info => exact ⟨c, i, info, rfl, rfl⟩
  | _ => trivial

end Kernel

instance {n : ℕ} (s : Kernel n) (a : Act n) : Decidable (s.Enabled a) := by
  cases a <;> dsimp only [Kernel.Enabled] <;> infer_instance

/-- The kernel as a guarded system. -/
def machine (n : ℕ) : Guarded (Kernel n) (Act n) (Event Slot) where
  Enabled := Kernel.Enabled
  next := Kernel.next
  event := Kernel.event

instance {n : ℕ} (s : Kernel n) (a : Act n) : Decidable ((machine n).Enabled s a) :=
  inferInstanceAs (Decidable (s.Enabled a))

/-- The kernel when `main` has run `userinit`: `initcode` is the only process, and
every CPU is about to enter its first pass, with its locals at zero. -/
def boot (n : ℕ) : Kernel n where
  table := userinit
  nextpid := 2
  initproc := some initSlot
  startState := initialStartState
  lock := none
  locks := fun _ => none
  cpus := fun _ => { proc := none, ncli := 0, pc := .top, totalTickets := 0, ticketsPassed := 0 }

/-- The steps whose actions satisfy `ok`. -/
abbrev Step {n : ℕ} (ok : Kernel n → Act n → Prop) : Kernel n → Event Slot → Kernel n → Prop :=
  (machine n).Step ok

/-- The states reached from `boot` by actions that satisfy `ok`. -/
def Reachable {n : ℕ} (ok : Kernel n → Act n → Prop) (s : Kernel n) : Prop :=
  ∃ tr, Run (Step ok) (boot n) tr s

/-- An allowed list of actions leads to a reachable state. -/
lemma reachable_exec {n : ℕ} {ok : Kernel n → Act n → Prop} {as : List (Act n)}
    (h : (machine n).Allowed ok (boot n) as) : Reachable ok ((machine n).exec (boot n) as) :=
  ⟨_, h.run⟩

/-- What holds at boot and is kept by every action holds in every reachable state. -/
lemma Reachable.invariant {n : ℕ} {ok : Kernel n → Act n → Prop} {s : Kernel n}
    {I : Kernel n → Prop} (h : Reachable ok s) (h0 : I (boot n))
    (hstep : ∀ {s a}, Reachable ok s → I s → s.Enabled a → I (s.next a)) : I s := by
  obtain ⟨tr, hrun⟩ := h
  refine Run.invariant (I := fun _ s => I s) h0 ?_ hrun
  rintro tr e s₁ s₂ hrun₁ hI ⟨a, he, -, -, rfl⟩
  exact hstep ⟨tr, hrun₁⟩ hI he

/-- No restriction on the actions. -/
def AnyAct {n : ℕ} (_ : Kernel n) (_ : Act n) : Prop := True

/-- Ticket assignments stay within `MAX_TICKETS_PER_PROCESS`. -/
def TicketBound {n : ℕ} (_ : Kernel n) : Act n → Prop
  | .assignTickets _ _ _ tickets => tickets ≤ maxTicketsPerProcess
  | _ => True

instance {n : ℕ} (s : Kernel n) (a : Act n) : Decidable (AnyAct s a) := isTrue trivial

instance {n : ℕ} (s : Kernel n) (a : Act n) : Decidable (TicketBound s a) := by
  cases a <;> dsimp only [TicketBound] <;> infer_instance

end Xv6Lottery
