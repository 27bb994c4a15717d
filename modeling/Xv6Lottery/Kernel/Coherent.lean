import Xv6Lottery.Kernel.Machine

/-!
The invariant of the machine: CPUs, the lock and the continuations fit together.

* `CpuOk`, `CpuInv`: a CPU holds `ptable.lock` exactly at the points of `scheduler()`
  and of the process code where the source holds it; the process it has switched to is
  its `c->proc` and is `RUNNING`, no other CPU has it, and every `RUNNING` process is
  some CPU's; whatever is `RUNNABLE` or `SLEEPING` will go on with the lock held.
* `RoleOk`, `RoleInv`: what a continuation says about the table. A process in the
  middle of `fork` owns an `EMBRYO` that nobody else owns, with the parent link set or
  not according to the point reached, and the first process is never inside `exit`.
* `CpuInv.of`, `CpuInv.thread`, `CpuInv.park`, `RoleInv.of`: what has to be checked of an
  action so that it keeps them. `Preserve` goes through the actions one by one.
-/

namespace Xv6Lottery

open Procstate

variable {n : ℕ}

/-! ### CPUs and the lock -/

/-- CPU `c`, in the state `u`, fits the lock and the table. -/
def CpuOk (lock : Option (Fin n)) (t : Table) (c : Fin n) (u : Cpu) : Prop :=
  match u.pc with
  | .top => u.proc = none ∧ lock ≠ some c
  | .pass | .done => u.proc = none ∧ lock = some c
  | .swtch => ∃ i, u.proc = some i ∧ (t i).state = running ∧
      (lock = some c ↔ (t i).context.holds = true)
  | .back => ∃ i, u.proc = some i ∧ (t i).state ≠ running ∧ lock = some c
  | .halted => lock = some c ∨ ∃ i, u.proc = some i ∧ (t i).state = running

/-- The CPUs, the lock and the states of the processes fit together. -/
structure CpuInv (s : Kernel n) : Prop where
  cpu : ∀ c, CpuOk s.lock s.table c (s.cpus c)
  inj : ∀ c c' i, (s.cpus c).proc = some i → (s.cpus c').proc = some i → c = c'
  onCpu : ∀ i, (s.table i).state = running → ∃ c, (s.cpus c).proc = some i
  parked : ∀ i, (s.table i).state = runnable ∨ (s.table i).state = sleeping →
    (s.table i).context.parked = true

/-- A CPU is untouched by changes that keep its hold on the lock and the running state of
its process. -/
lemma CpuOk.frame {lock lock' : Option (Fin n)} {t t' : Table} {c : Fin n} {u : Cpu}
    (h : CpuOk lock t c u) (hl : lock' = some c ↔ lock = some c)
    (hj : ∀ j, u.proc = some j → ((t' j).state = running ↔ (t j).state = running) ∧
      ((t j).state = running → (t' j).context.holds = (t j).context.holds)) :
    CpuOk lock' t' c u := by
  unfold CpuOk at h ⊢
  cases hpc : u.pc with
  | top =>
      simp only [hpc] at h ⊢
      exact ⟨h.1, fun h' => h.2 (hl.mp h')⟩
  | pass | done =>
      simp only [hpc] at h ⊢
      exact ⟨h.1, hl.mpr h.2⟩
  | swtch =>
      simp only [hpc] at h ⊢
      obtain ⟨i, h1, h2, h3⟩ := h
      refine ⟨i, h1, (hj i h1).1.mpr h2, ?_⟩
      rw [hl, h3, (hj i h1).2 h2]
  | back =>
      simp only [hpc] at h ⊢
      obtain ⟨i, h1, h2, h3⟩ := h
      exact ⟨i, h1, fun h' => h2 ((hj i h1).1.mp h'), hl.mpr h3⟩
  | halted =>
      simp only [hpc] at h ⊢
      rcases h with h | ⟨i, h1, h2⟩
      · exact Or.inl (hl.mpr h)
      · exact Or.inr ⟨i, h1, (hj i h1).1.mpr h2⟩

/-- What an action of a process may do with `ptable.lock`, given whether the process holds
it before and after: nothing, take it when it is free, or release its own. -/
inductive LockMove (c : Fin n) : Option (Fin n) → Option (Fin n) → Bool → Bool → Prop
  | keep {l : Option (Fin n)} {b : Bool} : LockMove c l l b b
  | take {b : Bool} : LockMove c none (some c) b true
  | drop {l : Option (Fin n)} : LockMove c l none true false

lemma LockMove.self {c : Fin n} {l l' : Option (Fin n)} {b b' : Bool} (h : LockMove c l l' b b')
    (hl : l = some c ↔ b = true) : l' = some c ↔ b' = true := by
  cases h with
  | keep => exact hl
  | take | drop => simp

lemma LockMove.other {c c' : Fin n} {l l' : Option (Fin n)} {b b' : Bool}
    (h : LockMove c l l' b b') (hl : l = some c ↔ b = true) (hc : c' ≠ c) :
    l' = some c' ↔ l = some c' := by
  cases h with
  | keep => exact Iff.rfl
  | take => simp [Ne.symm hc]
  | drop =>
      rw [hl.mpr rfl]
      simp [Ne.symm hc]

namespace CpuInv

variable {s s' : Kernel n} (h : CpuInv s) {c : Fin n} {i : Slot} {k : Context}
include h

/-- A process that is executed is `RUNNING`. -/
lemma running_of_at (hat : s.At c i k) : (s.table i).state = running := by
  have hc := h.cpu c
  unfold CpuOk at hc
  simp only [hat.1] at hc
  obtain ⟨j, hj, hrun, _⟩ := hc
  obtain rfl : i = j := Option.some.inj (hat.2.1.symm.trans hj)
  exact hrun

/-- A slot that does not run is not the one executed. -/
lemma ne_of_not_running (hat : s.At c i k) {j : Slot} (hj : (s.table j).state ≠ running) :
    j ≠ i := by
  rintro rfl
  exact hj (h.running_of_at hat)

/-- A process that is executed holds the lock exactly where its continuation says so. -/
lemma lock_of_at (hat : s.At c i k) : s.lock = some c ↔ k.holds = true := by
  have hc := h.cpu c
  unfold CpuOk at hc
  simp only [hat.1] at hc
  obtain ⟨j, hj, _, hlock⟩ := hc
  obtain rfl : i = j := Option.some.inj (hat.2.1.symm.trans hj)
  rw [hlock, hat.2.2]

/-- Without the lock, the process of a CPU is `RUNNING`. -/
lemma running_of_proc (hl : s.lock ≠ some c) (hp : (s.cpus c).proc = some i) :
    (s.table i).state = running := by
  have hc := h.cpu c
  unfold CpuOk at hc
  cases hpc : (s.cpus c).pc with
  | top =>
      simp only [hpc, hp] at hc
      exact absurd hc.1 (by simp)
  | pass | done =>
      simp only [hpc] at hc
      exact absurd hc.2 hl
  | swtch =>
      simp only [hpc] at hc
      obtain ⟨j, hj, hrun, _⟩ := hc
      obtain rfl : i = j := Option.some.inj (hp.symm.trans hj)
      exact hrun
  | back =>
      simp only [hpc] at hc
      obtain ⟨j, _, _, hlock⟩ := hc
      exact absurd hlock hl
  | halted =>
      simp only [hpc] at hc
      rcases hc with hc | ⟨j, hj, hrun⟩
      · exact absurd hc hl
      · obtain rfl : i = j := Option.some.inj (hp.symm.trans hj)
        exact hrun

/-- What has to be checked of an action of CPU `c`. -/
lemma of (hcpus : ∀ c', c' ≠ c → s'.cpus c' = s.cpus c')
    (hlock : ∀ c', c' ≠ c → (s'.lock = some c' ↔ s.lock = some c'))
    (hother : ∀ c', c' ≠ c → ∀ j, (s.cpus c').proc = some j →
      (s'.cpus c).proc ≠ some j ∧ ((s'.table j).state = running ↔ (s.table j).state = running) ∧
      ((s.table j).state = running → (s'.table j).context.holds = (s.table j).context.holds))
    (hc : CpuOk s'.lock s'.table c (s'.cpus c))
    (hon : ∀ j, (s'.table j).state = running → (s'.cpus c).proc = some j ∨
      ((s.table j).state = running ∧ (s.cpus c).proc ≠ some j))
    (hpark : ∀ j, (s'.table j).state = runnable ∨ (s'.table j).state = sleeping →
      (s'.table j).context.parked = true) : CpuInv s' := by
  refine ⟨fun c' => ?_, fun c₁ c₂ j h₁ h₂ => ?_, fun j hj => ?_, hpark⟩
  · rcases eq_or_ne c' c with rfl | hne
    · exact hc
    · rw [hcpus c' hne]
      exact (h.cpu c').frame (hlock c' hne) fun j hj => (hother c' hne j hj).2
  · rcases eq_or_ne c₁ c with rfl | hne₁ <;> rcases eq_or_ne c₂ c₁ with rfl | hne₂
    · rfl
    · rw [hcpus c₂ hne₂] at h₂
      exact absurd h₁ (hother c₂ hne₂ j h₂).1
    · rfl
    · rcases eq_or_ne c₂ c with rfl | hne
      · rw [hcpus c₁ hne₁] at h₁
        exact absurd h₂ (hother c₁ hne₁ j h₁).1
      · rw [hcpus c₁ hne₁] at h₁
        rw [hcpus c₂ hne] at h₂
        exact h.inj c₁ c₂ j h₁ h₂
  · rcases hon j hj with hc' | ⟨hrun, hnc⟩
    · exact ⟨c, hc'⟩
    · obtain ⟨c', hc'⟩ := h.onCpu j hrun
      have hne : c' ≠ c := fun hcc => hnc (hcc ▸ hc')
      exact ⟨c', by rw [hcpus c' hne]; exact hc'⟩

/-- An action of `scheduler()` on CPU `c`, without a process, that leaves the table
alone. -/
lemma scheduler (hnone : (s.cpus c).proc = none) (hnone' : (s'.cpus c).proc = none)
    (htab : s'.table = s.table) (hcpus : ∀ c', c' ≠ c → s'.cpus c' = s.cpus c')
    (hlock : ∀ c', c' ≠ c → (s'.lock = some c' ↔ s.lock = some c'))
    (hc : CpuOk s'.lock s'.table c (s'.cpus c)) : CpuInv s' := by
  refine h.of hcpus hlock (fun c' hne j hj => ?_) hc (fun j hj => ?_) ?_
  · rw [htab, hnone']
    exact ⟨by simp, Iff.rfl, fun _ => rfl⟩
  · rw [htab] at hj
    exact Or.inr ⟨hj, by simp [hnone]⟩
  · rw [htab]
    exact h.parked

/-- Another CPU executes another process. -/
lemma ne_of_other (hat : s.At c i k) {c' : Fin n} (hc' : c' ≠ c) {j : Slot}
    (hj : (s.cpus c').proc = some j) : j ≠ i := fun hji =>
  hc' (h.inj c' c j hj (hji ▸ hat.2.1))

/-- An action of the process in slot `i` on CPU `c`, after which it still runs there. -/
lemma thread (k' : Context) (hat : s.At c i k)
    (hu : ∃ u, s'.cpus = Function.update s.cpus c u ∧ u.pc = .swtch ∧ u.proc = some i)
    (hl : LockMove c s.lock s'.lock k.holds k'.holds)
    (hself : (s'.table i).state = running ∧ (s'.table i).context = k')
    (hother : ∀ j, j ≠ i → ((s'.table j).state = running ↔ (s.table j).state = running) ∧
      ((s.table j).state = running → (s'.table j).context.holds = (s.table j).context.holds))
    (hpark : ∀ j, j ≠ i → (s'.table j).state = runnable ∨ (s'.table j).state = sleeping →
      (s'.table j).context.parked = true) : CpuInv s' := by
  obtain ⟨u, hcpus, hpc, hproc⟩ := hu
  have huc : s'.cpus c = u := by rw [hcpus, Function.update_self]
  have hlc := h.lock_of_at hat
  refine h.of (fun c' hc' => by rw [hcpus, Function.update_of_ne hc'])
    (fun c' hc' => hl.other hlc hc') (fun c' hc' j hj => ?_) ?_ (fun j hj => ?_) (fun j hj => ?_)
  · have hji := h.ne_of_other hat hc' hj
    refine ⟨?_, hother j hji⟩
    rw [huc, hproc]
    exact fun hij => hji (Option.some.inj hij).symm
  · unfold CpuOk
    simp only [huc, hpc]
    exact ⟨i, hproc, hself.1, by rw [hself.2]; exact hl.self hlc⟩
  · rcases eq_or_ne j i with rfl | hji
    · exact Or.inl (by rw [huc]; exact hproc)
    · refine Or.inr ⟨(hother j hji).1.mp hj, ?_⟩
      rw [hat.2.1]
      exact fun hij => hji (Option.some.inj hij).symm
  · rcases eq_or_ne j i with rfl | hji
    · rw [hself.1] at hj
      rcases hj with hj | hj <;> cases hj
    · exact hpark j hji hj

/-- The same for an action that changes no other slot. -/
lemma own (k' : Context) (hat : s.At c i k)
    (hu : ∃ u, s'.cpus = Function.update s.cpus c u ∧ u.pc = .swtch ∧ u.proc = some i)
    (hl : LockMove c s.lock s'.lock k.holds k'.holds)
    (hself : (s'.table i).state = running ∧ (s'.table i).context = k')
    (hsame : ∀ j, j ≠ i → s'.table j = s.table j) : CpuInv s' := by
  refine h.thread k' hat hu hl hself (fun j hj => ?_) (fun j hj => ?_) <;> rw [hsame j hj]
  · exact ⟨Iff.rfl, fun _ => rfl⟩
  · exact h.parked j

/-- An action of the process in slot `i` on CPU `c` that ends in `sched()`. -/
lemma park (hat : s.At c i k)
    (hu : ∃ u, s'.cpus = Function.update s.cpus c u ∧ (u.pc = .back ∨ u.pc = .halted) ∧
      u.proc = some i)
    (hfree : ∀ c', c' ≠ c → s.lock ≠ some c') (hlock : s'.lock = some c)
    (hself : (s'.table i).state ≠ running)
    (hother : ∀ j, j ≠ i → ((s'.table j).state = running ↔ (s.table j).state = running) ∧
      (s'.table j).context = (s.table j).context)
    (hpark : ∀ j, (s'.table j).state = runnable ∨ (s'.table j).state = sleeping →
      (s'.table j).context.parked = true) : CpuInv s' := by
  obtain ⟨u, hcpus, hpc, hproc⟩ := hu
  have huc : s'.cpus c = u := by rw [hcpus, Function.update_self]
  refine h.of (fun c' hc' => by rw [hcpus, Function.update_of_ne hc']) (fun c' hc' => ?_)
    (fun c' hc' j hj => ?_) ?_ (fun j hj => ?_) hpark
  · rw [hlock, Option.some.injEq]
    exact ⟨fun hcc => absurd hcc.symm hc', fun hl => absurd hl (hfree c' hc')⟩
  · have hji := h.ne_of_other hat hc' hj
    refine ⟨?_, (hother j hji).1, fun _ => by rw [(hother j hji).2]⟩
    rw [huc, hproc]
    exact fun hij => hji (Option.some.inj hij).symm
  · unfold CpuOk
    rw [huc]
    rcases hpc with hpc | hpc <;> simp only [hpc]
    · exact ⟨i, hproc, hself, hlock⟩
    · exact Or.inl hlock
  · have hji : j ≠ i := fun hji => hself (hji ▸ hj)
    refine Or.inr ⟨(hother j hji).1.mp hj, ?_⟩
    rw [hat.2.1]
    exact fun hij => hji (Option.some.inj hij).symm

/-- The same for an action that changes no other slot. -/
lemma parkOwn (k' : Context) (hk' : k'.parked = true) (hat : s.At c i k)
    (hu : ∃ u, s'.cpus = Function.update s.cpus c u ∧ (u.pc = .back ∨ u.pc = .halted) ∧
      u.proc = some i)
    (hfree : ∀ c', c' ≠ c → s.lock ≠ some c') (hlock : s'.lock = some c)
    (hself : (s'.table i).state ≠ running ∧ (s'.table i).context = k')
    (hsame : ∀ j, j ≠ i → s'.table j = s.table j) : CpuInv s' := by
  refine h.park hat hu hfree hlock hself.1 (fun j hj => ?_) (fun j hj => ?_)
  · rw [hsame j hj]
    exact ⟨Iff.rfl, rfl⟩
  · rcases eq_or_ne j i with rfl | hji
    · rw [hself.2]
      exact hk'
    · rw [hsame j hji] at hj ⊢
      exact h.parked j hj

/-- A change of the table under which everybody goes on as before. -/
lemma table (hcpus : ∀ c, (s'.cpus c).pc = (s.cpus c).pc ∧ (s'.cpus c).proc = (s.cpus c).proc)
    (hlock : s'.lock = s.lock)
    (htab : ∀ j, ((s'.table j).state = running ↔ (s.table j).state = running) ∧
      (s'.table j).context = (s.table j).context ∧
      ((s'.table j).state = runnable ∨ (s'.table j).state = sleeping →
        (s.table j).state = runnable ∨ (s.table j).state = sleeping)) : CpuInv s' := by
  refine ⟨fun c' => ?_, fun c₁ c₂ j h₁ h₂ => ?_, fun j hj => ?_, fun j hj => ?_⟩
  · have hc : CpuOk s'.lock s'.table c' (s.cpus c') :=
      (h.cpu c').frame (by rw [hlock]) fun j _ => ⟨(htab j).1, fun _ => by rw [(htab j).2.1]⟩
    unfold CpuOk at hc ⊢
    rw [(hcpus c').1, (hcpus c').2]
    exact hc
  · rw [(hcpus c₁).2] at h₁
    rw [(hcpus c₂).2] at h₂
    exact h.inj c₁ c₂ j h₁ h₂
  · obtain ⟨c', hc'⟩ := h.onCpu j ((htab j).1.mp hj)
    exact ⟨c', (hcpus c').2.trans hc'⟩
  · rw [(htab j).2.1]
    exact h.parked j ((htab j).2.2 hj)

end CpuInv

/-! ### Continuations -/

namespace Context

/-- The half-built child that a process in the middle of `fork` owns. -/
def child : Context → Option Slot
  | allocStack np | forkCopy np | forkFill np | forkPublish np => some np
  | sleepEnter _ _ k | sleepBoth _ _ k | sleepSet _ _ k | slept _ k | sleepRelock _ k
  | yielded k => child k
  | _ => none

end Context

/-- What the continuation of slot `i` says about the table, and that the code to return to
from `sleep` or `yield` does not hold the lock. -/
def RoleOk (ip : Option Slot) (t : Table) (i : Slot) : Context → Prop
  | .allocStack np => (t np).state = embryo ∧ (t np).parent = none
  | .forkCopy np | .forkFill np =>
      (t np).state = embryo ∧ (t np).parent = none ∧ (t np).context = .forkret
  | .forkPublish np =>
      (t np).state = embryo ∧ (t np).parent = some i ∧ (t np).context = .forkret
  | .exitClose _ | .exitCwd | .exitLock | .exited => ip ≠ some i
  | .sleepEnter _ _ k | .sleepBoth _ _ k | .sleepSet _ _ k | .slept _ k | .sleepRelock _ k
  | .yielded k => k.holds = false ∧ RoleOk ip t i k
  | _ => True

/-- The continuations fit the table, and no two processes own the same child. -/
structure RoleInv (s : Kernel n) : Prop where
  init : s.initproc = some initSlot
  role : ∀ i, RoleOk s.initproc s.table i (s.table i).context
  uniq : ∀ i j np, (s.table i).context.child = some np → (s.table j).context.child = some np →
    i = j

/-- The child of a process in the middle of `fork` is an `EMBRYO`, linked to nobody or to
that process. -/
lemma RoleOk.embryo {ip : Option Slot} {t : Table} {i np : Slot} {k : Context}
    (h : RoleOk ip t i k) (hk : k.child = some np) :
    (t np).state = embryo ∧ ((t np).parent = none ∨ (t np).parent = some i) := by
  induction k with
  | allocStack q =>
      obtain rfl : q = np := Option.some.inj hk
      exact ⟨h.1, Or.inl h.2⟩
  | forkCopy q | forkFill q =>
      obtain rfl : q = np := Option.some.inj hk
      exact ⟨h.1, Or.inl h.2.1⟩
  | forkPublish q =>
      obtain rfl : q = np := Option.some.inj hk
      exact ⟨h.1, Or.inr h.2.1⟩
  | sleepEnter _ _ _ ih | sleepBoth _ _ _ ih | sleepSet _ _ _ ih | slept _ _ ih
  | sleepRelock _ _ ih | yielded _ ih => exact ih h.2 hk
  | _ => cases hk

/-- What a continuation says depends only on the child. -/
lemma RoleOk.frame {ip : Option Slot} {t t' : Table} {i : Slot} {k : Context}
    (h : RoleOk ip t i k) (hk : ∀ np, k.child = some np → (t' np).state = (t np).state ∧
      (t' np).parent = (t np).parent ∧ (t' np).context = (t np).context) : RoleOk ip t' i k := by
  induction k with
  | allocStack np | forkCopy np | forkFill np | forkPublish np =>
      obtain ⟨h1, h2, h3⟩ := hk np rfl
      simp only [RoleOk, h1, h2, h3] at h ⊢
      exact h
  | sleepEnter _ _ _ ih | sleepBoth _ _ _ ih | sleepSet _ _ _ ih | slept _ _ ih
  | sleepRelock _ _ ih | yielded _ ih => exact ⟨h.1, ih h.2 hk⟩
  | _ => exact h

namespace RoleInv

variable {s s' : Kernel n} (h : RoleInv s)
include h

/-- The role of a process that is executed. -/
lemma role_of_at {c : Fin n} {i : Slot} {k : Context} (hat : s.At c i k) :
    RoleOk s.initproc s.table i k := by
  have hi := h.role i
  rwa [hat.2.2] at hi

/-- The child of the process that is executed. -/
lemma child_of_at {c : Fin n} {i np : Slot} {k : Context} (hc : CpuInv s) (hat : s.At c i k)
    (hk : k.child = some np) : (s.table np).state = embryo ∧ np ≠ i := by
  have hst := ((h.role_of_at hat).embryo hk).1
  exact ⟨hst, hc.ne_of_not_running hat (by simp [hst])⟩

/-- What has to be checked of an action of the process in slot `i`: the other processes
keep their place and their child, and the new place of `i` is right. -/
lemma of {i : Slot} (hinit : s'.initproc = s.initproc)
    (hctx : ∀ j, j ≠ i → (s'.table j).context = (s.table j).context ∨
      (s'.table j).context = .forkret)
    (hchild : ∀ j np, j ≠ i → (s.table j).context.child = some np →
      (s'.table np).state = (s.table np).state ∧ (s'.table np).parent = (s.table np).parent ∧
        (s'.table np).context = (s.table np).context)
    (hi : RoleOk s'.initproc s'.table i (s'.table i).context)
    (huniq : ∀ np, (s'.table i).context.child = some np →
      ∀ j, j ≠ i → (s.table j).context.child ≠ some np) : RoleInv s' := by
  have hsub : ∀ j np, j ≠ i → (s'.table j).context.child = some np →
      (s.table j).context.child = some np := by
    intro j np hj hnp
    rcases hctx j hj with hc | hc
    · rwa [hc] at hnp
    · rw [hc] at hnp
      cases hnp
  refine ⟨hinit.trans h.init, fun j => ?_, fun j₁ j₂ np h₁ h₂ => ?_⟩
  · rcases eq_or_ne j i with rfl | hj
    · exact hi
    · rcases hctx j hj with hc | hc
      · rw [hc, hinit]
        exact (h.role j).frame fun np hnp => hchild j np hj hnp
      · rw [hc]
        trivial
  · rcases eq_or_ne j₁ i with rfl | hj₁ <;> rcases eq_or_ne j₂ j₁ with rfl | hj₂
    · rfl
    · exact absurd (hsub j₂ np hj₂ h₂) (huniq np h₁ j₂ hj₂)
    · rfl
    · rcases eq_or_ne j₂ i with rfl | hj
      · exact absurd (hsub j₁ np hj₁ h₁) (huniq np h₂ j₁ hj₁)
      · exact h.uniq j₁ j₂ np (hsub j₁ np hj₁ h₁) (hsub j₂ np hj h₂)

/-- The same for an action after which `i` owns nothing it did not own before, and that
changes no `EMBRYO` but its own. -/
lemma thread {i : Slot} (hinit : s'.initproc = s.initproc)
    (hctx : ∀ j, j ≠ i → (s'.table j).context = (s.table j).context ∨
      (s'.table j).context = .forkret)
    (hembryo : ∀ np, (s.table np).state = embryo → (s.table i).context.child ≠ some np →
      (s'.table np).state = embryo ∧ (s'.table np).context = (s.table np).context ∧
        ((s.table np).parent ≠ some i → (s'.table np).parent = (s.table np).parent))
    (hi : RoleOk s'.initproc s'.table i (s'.table i).context)
    (hkeep : ∀ np, (s'.table i).context.child = some np → (s.table i).context.child = some np) :
    RoleInv s' := by
  refine h.of hinit hctx (fun j np hj hnp => ?_) hi fun np hnp j hj hnp' =>
    hj (h.uniq j i np hnp' (hkeep np hnp))
  obtain ⟨hst, hpar⟩ := (h.role j).embryo hnp
  have hne : (s.table i).context.child ≠ some np := fun hin => hj (h.uniq j i np hnp hin)
  obtain ⟨h1, h2, h3⟩ := hembryo np hst hne
  refine ⟨h1.trans hst.symm, h3 ?_, h2⟩
  rcases hpar with hp | hp <;> rw [hp]
  · simp
  · exact fun hji => hj (Option.some.inj hji)

/-- A change of the table that leaves continuations and `EMBRYO`s alone. -/
lemma table (hinit : s'.initproc = s.initproc)
    (htab : ∀ j, (s'.table j).context = (s.table j).context ∧
      ((s.table j).state = embryo → (s'.table j).state = embryo ∧
        (s'.table j).parent = (s.table j).parent)) : RoleInv s' := by
  refine ⟨hinit.trans h.init, fun j => ?_, fun j₁ j₂ np h₁ h₂ => ?_⟩
  · rw [(htab j).1, hinit]
    refine (h.role j).frame fun np hnp => ?_
    obtain ⟨hst, _⟩ := (h.role j).embryo hnp
    exact ⟨((htab np).2 hst).1.trans hst.symm, ((htab np).2 hst).2, (htab np).1⟩
  · rw [(htab j₁).1] at h₁
    rw [(htab j₂).1] at h₂
    exact h.uniq j₁ j₂ np h₁ h₂

end RoleInv

end Xv6Lottery
