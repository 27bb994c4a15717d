import Xv6Lottery.Kernel.Preserve
import Xv6Lottery.Life.Tree

/-!
The kernel refines the abstract machine of process lives.

* `abs`: the shared part of the process table and the pid counter.
* `Coherent`: the invariants of CPUs, continuations and process tree together.
* `Coherent.lifeStep`: an action of the kernel is a step of `LifeStep` with the same
  event.
* `Coherent.step`, `Coherent.run`: the invariants hold in every state of every run.
* `Reachable.life`: a run of the kernel is a run of the abstract machine.
-/

namespace Xv6Lottery

open Procstate Library

variable {n : ℕ} {s : Kernel n}

@[simp] lemma entries_update (t : Table) (i : Slot) (x : Proc) :
    Table.entries (Function.update t i x) = Function.update t.entries i x.toEntry := by
  funext j
  rcases eq_or_ne j i with rfl | hj
  · simp [Table.entries]
  · simp [Table.entries, hj]

@[simp] lemma entries_setContext (t : Table) (i : Slot) (k : Context) :
    Table.entries (setContext t i k) = t.entries := by
  rw [setContext, entries_update]
  exact Function.update_eq_self i t.entries

/-- The abstract state of the kernel. -/
def abs (s : Kernel n) : Life Slot := ⟨s.table.entries, s.nextpid⟩

/-- The invariants of the machine. -/
structure Coherent (s : Kernel n) : Prop where
  cpu : CpuInv s
  role : RoleInv s
  tree : TreeInv initSlot s.table.entries

/-- An action that leaves the shared table alone. -/
lemma lifeStep_quiet {s' : Kernel n} {e : Event Slot} (he : e.Quiet)
    (htab : Table.entries s'.table = s.table.entries) (hpid : s'.nextpid = s.nextpid) :
    LifeStep initSlot (abs s) e (abs s') := by
  have habs : abs s' = abs s := by rw [abs, abs, htab, hpid]
  rw [habs]
  exact .quiet he

/-- The table of `wakeup` is the abstract one. -/
lemma entries_wakeup1 (t : Table) (ch : Option (Chan Slot)) :
    Table.entries (wakeup1 t ch) = wakeEntries t.entries ch := by
  funext j
  by_cases h : (t j).state = sleeping ∧ (t j).chan = ch
  · have ht : wakeup1 t ch j = { t j with state := runnable } := if_pos h
    rw [Table.entries, ht]
    exact (if_pos h).symm
  · have ht : wakeup1 t ch j = t j := if_neg h
    rw [Table.entries, ht]
    exact (if_neg h).symm

/-- **Refinement.** Every action of the kernel is a step in the life of processes. -/
lemma Coherent.lifeStep (h : Coherent s) {a : Act n} (he : s.Enabled a) :
    LifeStep initSlot (abs s) (s.event a) (abs (s.next a)) := by
  cases a with
  | schedAcquire c | schedBack c | schedRelease c | procInfo c i info | acquireLk c lk
  | releaseLk c lk => exact lifeStep_quiet trivial rfl rfl
  | schedPass c =>
      simp only [Kernel.next, Kernel.event]
      cases hp : schedulerPass s.table (s.cpus c).totalTickets (s.cpus c).ticketsPassed
          s.startState with
      | idle total => exact lifeStep_quiet trivial rfl rfl
      | fault f v => exact lifeStep_quiet trivial rfl rfl
      | dispatch w total passed v =>
          dsimp only [abs]
          rw [entries_update]
          exact .dispatch (schedulerPass_runnable hp)
  | forkret c i | sleepCall c i a lk k | sleepAcquire c i a lk k | sleepRelease c i a lk k
  | sleepRelock c i lk k | yieldReturn c i k | waitCall c i =>
      exact lifeStep_quiet trivial (by simp [Kernel.next]) rfl
  | exitCwd c i | sysOther c i sz ofile cwd name =>
      refine lifeStep_quiet trivial ?_ rfl
      simp only [Kernel.next, Kernel.goto, entries_setContext, entries_update]
      exact Function.update_eq_self i s.table.entries
  | exitCall c i =>
      refine lifeStep_quiet trivial ?_ ?_ <;> simp only [Kernel.next] <;> split_ifs <;> simp
  | exitClose c i fd =>
      refine lifeStep_quiet trivial ?_ ?_ <;> simp only [Kernel.next]
      · split_ifs
        · simp only [Kernel.goto, entries_setContext, entries_update]
          exact Function.update_eq_self i s.table.entries
        · simp
      · split_ifs <;> rfl
  | yield c i k =>
      have hrun := h.cpu.running_of_at he.1
      simp only [Kernel.next, Kernel.event, Kernel.sched, Kernel.goto, Kernel.setPc, Kernel.setCpu,
        Kernel.acquire, abs, entries_setContext, entries_update]
      exact .yield hrun
  | sleepSched c i a lk k =>
      have hrun := h.cpu.running_of_at he
      simp only [Kernel.next, Kernel.event, Kernel.sched, Kernel.goto, Kernel.setPc, Kernel.setCpu,
        Kernel.setSleeping, abs, entries_setContext, entries_update]
      exact .sleepOn hrun
  | waitWake c i =>
      have hrun := h.cpu.running_of_at he
      simp only [Kernel.next, Kernel.event, Kernel.goto, Kernel.clearChan, abs, entries_setContext,
        entries_update]
      exact .clearChan hrun
  | sleepReturn c i lk k =>
      have hrun := h.cpu.running_of_at he
      simp only [Kernel.next, Kernel.event, Kernel.goto, Kernel.clearChan, Kernel.release,
        Kernel.setCpu, abs, entries_setContext, entries_update]
      exact .clearChan hrun
  | waitScan c i =>
      have hrun := h.cpu.running_of_at he
      cases hw : waitLoop s.table i slots false with
      | mk havekids z =>
          cases z with
          | some z =>
              obtain ⟨hpar, hz⟩ := waitLoop_some hw
              simp only [Kernel.next, Kernel.event, hw, Kernel.goto, Kernel.release, Kernel.setCpu,
                abs, entries_setContext, reap, entries_update]
              exact .reap hrun hz hpar
          | none =>
              obtain ⟨hzombie, hkids⟩ := waitLoop_none hw
              simp only [Kernel.next, Kernel.event, hw]
              split_ifs with hgo
              · exact lifeStep_quiet trivial (by simp) rfl
              · simp only [not_or, Bool.not_eq_false, Bool.not_eq_true] at hgo
                obtain ⟨k, -, hk⟩ := (hkids.mp hgo.1).resolve_left (by simp)
                simp only [Kernel.sched, Kernel.goto, Kernel.setPc, Kernel.setCpu,
                  Kernel.setSleeping, abs, entries_setContext, entries_update]
                exact .sleepWait hrun ⟨k, hk⟩ (fun k => hzombie k (mem_slots k)) hgo.2
  | forkAlloc c i =>
      cases hf : findUnused s.table with
      | none =>
          simp only [Kernel.next, Kernel.event, hf]
          exact lifeStep_quiet trivial rfl rfl
      | some np =>
          simp only [Kernel.next, Kernel.event, hf, Kernel.goto, abs, entries_setContext, allocproc,
            entries_update]
          exact .alloc (findUnused_some hf)
  | forkStack c i np ok =>
      obtain ⟨hst, hpar⟩ := h.role.role_of_at he.1
      cases ok with
      | true =>
          refine lifeStep_quiet trivial ?_ rfl
          simp only [Kernel.next, Kernel.goto, entries_setContext, allocprocStack, if_true,
            entries_update]
          exact Function.update_eq_self np s.table.entries
      | false =>
          simp only [Kernel.next, Kernel.event, Kernel.goto, abs, entries_setContext,
            allocprocStack, Bool.false_eq_true, if_false, entries_update]
          exact .forkFail hst hpar
  | forkCopy c i np ok =>
      obtain ⟨hst, hpar, -⟩ := h.role.role_of_at he.1
      cases ok with
      | true => exact lifeStep_quiet trivial (by simp [Kernel.next]) rfl
      | false =>
          simp only [Kernel.next, Kernel.event, Kernel.goto, abs, entries_setContext,
            forkUndo, Bool.false_eq_true, if_false, entries_update]
          exact .forkFail hst hpar
  | forkFill c i np =>
      have hrun := h.cpu.running_of_at he.1
      obtain ⟨hst, hpar, -⟩ := h.role.role_of_at he.1
      simp only [Kernel.next, Kernel.event, Kernel.goto, abs, entries_setContext, forkFill,
        entries_update]
      exact .adopt hrun hst hpar
  | forkPublish c i np =>
      have hrun := h.cpu.running_of_at he.1
      obtain ⟨hst, hpar, -⟩ := h.role.role_of_at he.1
      simp only [Kernel.next, Kernel.event, Kernel.goto, abs, entries_setContext, forkPublish,
        entries_update]
      exact .publish hrun hst hpar
  | exitSched c i =>
      have hrun := h.cpu.running_of_at he.1
      have hip : s.initproc ≠ some i := h.role.role_of_at he.1
      rw [h.role.init] at hip
      simp only [Kernel.next, Kernel.event, Kernel.sched, Kernel.goto, Kernel.setPc, Kernel.setCpu,
        Kernel.acquire, abs, entries_setContext, h.role.init]
      exact .exit hrun (fun hi => hip (by rw [hi])) (exitTable_effect initSlot s.table i)
  | wakeup c ch =>
      simp only [Kernel.next, Kernel.event, abs, entries_wakeup1]
      exact .wakeup
  | kill c i pid =>
      cases hf : findPid s.table pid with
      | none =>
          simp only [Kernel.next, Kernel.event, Xv6Lottery.kill, hf]
          exact .killMiss (findPid_none hf)
      | some j =>
          simp only [Kernel.next, Kernel.event, Xv6Lottery.kill, hf, abs, entries_update]
          exact .kill (findPid_some hf)
  | assignTickets c i pid tickets =>
      simp only [Kernel.next, Kernel.event, sysAssignTickets]
      split_ifs with hbad
      · exact lifeStep_quiet trivial rfl rfl
      · cases hf : findPid s.table pid with
        | none => exact lifeStep_quiet trivial rfl rfl
        | some j =>
            simp only [abs, entries_update]
            exact .assign (by omega)
  | trapKill c i =>
      have hrun := h.cpu.running_of_at he.1
      simp only [Kernel.next, Kernel.event, abs, entries_update]
      exact .trap hrun

/-! ### Runs -/

/-- **Invariants of the machine**: every action keeps them. -/
lemma Coherent.step (h : Coherent s) {a : Act n} (he : s.Enabled a) : Coherent (s.next a) :=
  ⟨h.cpu.step h.role he, h.role.step h.cpu h.tree.free he, h.tree.step (h.lifeStep he)⟩

/-- The table at boot, slot by slot. -/
lemma boot_cases (n : ℕ) (i : Slot) :
    (i = initSlot ∧ ((boot n).table i).toEntry = initEntry ∧
      ((boot n).table i).context = .forkret) ∨
    (i ≠ initSlot ∧ (boot n).table i = zeroProc) := by
  rcases eq_or_ne i initSlot with rfl | hi
  · exact Or.inl ⟨rfl, userinit_init⟩
  · exact Or.inr ⟨hi, userinit_of_ne hi⟩

/-- At boot one process is `RUNNABLE`, and no CPU has a process. -/
lemma coherent_boot (n : ℕ) : Coherent (boot n) := by
  refine ⟨⟨fun c => ?_, ?_, fun i hi => ?_, fun i hi => ?_⟩, ⟨rfl, fun i => ?_, ?_⟩,
    ⟨?_, fun i q hq => ?_, fun i hi => ?_, fun i hi => ?_⟩⟩
  · simp [CpuOk, boot]
  · simp [boot]
  · rcases boot_cases n i with ⟨-, he, -⟩ | ⟨-, he⟩ <;> simp [he, initEntry, zeroProc] at hi
  · rcases boot_cases n i with ⟨-, -, hk⟩ | ⟨-, he⟩
    · rw [hk]
      rfl
    · simp [he, zeroProc] at hi
  · rcases boot_cases n i with ⟨-, -, hk⟩ | ⟨-, he⟩
    · rw [hk]
      trivial
    · rw [he]
      trivial
  · intro i j np hi
    rcases boot_cases n i with ⟨-, -, hk⟩ | ⟨-, he⟩
    · simp [hk, Context.child] at hi
    · simp [he, zeroProc, Context.child] at hi
  · have he : (boot n).table.entries initSlot = initEntry := userinit_init.1
    rw [he]
    exact ⟨alive_runnable, rfl⟩
  · rcases boot_cases n i with ⟨-, he, -⟩ | ⟨-, he⟩ <;>
      simp [Table.entries, he, initEntry, zeroProc] at hq
  · rcases boot_cases n i with ⟨-, he, -⟩ | ⟨-, he⟩ <;>
      simp [Table.entries, he, initEntry, zeroProc]
  · rcases boot_cases n i with ⟨rfl, -, -⟩ | ⟨-, he⟩
    · exact .root
    · exact absurd (by simp [Table.entries, he, zeroProc]) hi.ne_unused

/-- Every state of every run is coherent, and the run is one of the abstract machine. -/
lemma Coherent.run {ok : Kernel n → Act n → Prop} {s s' : Kernel n} {tr : List (Event Slot)}
    (h0 : Coherent s) (h : Run (Step ok) s tr s') :
    Run (LifeStep initSlot) (abs s) tr (abs s') ∧ Coherent s' := by
  refine h.simulate abs h0 ?_ ?_
  · rintro s e s' hs ⟨a, he, -, -, rfl⟩
    exact hs.step he
  · rintro s e s' hs ⟨a, he, -, rfl, rfl⟩
    exact hs.lifeStep he

/-- Every reachable state is coherent. -/
lemma Reachable.coherent {ok : Kernel n → Act n → Prop} (h : Reachable ok s) : Coherent s := by
  obtain ⟨tr, hrun⟩ := h
  exact ((coherent_boot n).run hrun).2

/-- A run from boot is a run of the abstract machine. -/
lemma Reachable.life {ok : Kernel n → Act n → Prop} {tr : List (Event Slot)}
    (h : Run (Step ok) (boot n) tr s) : Run (LifeStep initSlot) (abs (boot n)) tr (abs s) :=
  ((coherent_boot n).run h).1

end Xv6Lottery
