import Xv6Lottery.Kernel.Lottery

/-!
What holds of processes and CPUs in every reachable state of the kernel.

* `process_tree`: parent pointers lead to `initproc`.
* `no_stuck_waiter`: a process asleep in `wait()` has something to wait for and nothing
  to collect.
* `running_iff_on_cpu`: `RUNNING` means being the process of one CPU, and a slot is not
  reaped, given back or dispatched while it is the process of a CPU.
* `kill_isolation`: the killed mark of a process comes from the state of its slot when
  `allocproc` took it, and is clear as long as no kill has marked a free slot and no
  `fork` has given a marked one back.
-/

namespace Xv6Lottery

open Procstate Library

variable {n : ℕ} {s : Kernel n} {ok : Kernel n → Act n → Prop}

/-! ### The process tree -/

/-- One step along the parent pointers. -/
def Table.up (t : Table) (o : Option Slot) : Option Slot := o.bind fun j => (t j).parent

/-- **Process tree.** In every reachable state, also while the lock is handed over by a
switch, every process that has been published and not reaped, other than `initproc`, has a
parent that lives, its ancestors lead to `initproc`, and a free slot has no parent. -/
theorem process_tree (h : Reachable ok s) :
    (∀ i, (s.table i).state.Born → s.initproc ≠ some i →
      ∃ q, (s.table i).parent = some q ∧ (s.table q).state.Alive ∧
        ∃ m, s.table.up^[m] (some i) = s.initproc) ∧
    ∀ i, (s.table i).state = unused → (s.table i).parent = none := by
  have hc := h.coherent
  refine ⟨fun i hi hne => ?_, hc.tree.free⟩
  rw [hc.role.init] at hne ⊢
  obtain ⟨q, hq, halive⟩ := hc.tree.exists_parent hi fun hii => hne (by rw [hii])
  exact ⟨q, hq, halive, (hc.tree.root i hi).exists_iterate⟩

/-- The first process forks on CPU 0, and CPU 1 dispatches the child: both are in user code. -/
def pairRun : List (Act 2) :=
  [.schedAcquire 0, .schedPass 0, .forkret 0 0, .forkAlloc 0 0, .forkStack 0 0 1 true,
    .forkCopy 0 0 1 true, .forkFill 0 0 1, .forkPublish 0 0 1, .schedAcquire 1, .schedPass 1,
    .forkret 1 1]

/-- The first process then waits for the child, which goes on running on the other CPU. -/
def waitRun : List (Act 2) :=
  pairRun ++ ([.waitCall 0 0, .waitScan 0 0, .schedBack 0, .schedRelease 0] : List (Act 2))

lemma reachable_waitRun : Reachable AnyAct ((machine 2).exec (boot 2) waitRun) :=
  reachable_exec (by decide +kernel)

theorem process_tree_waitRun :
    ∃ q, (((machine 2).exec (boot 2) waitRun).table 1).parent = some q ∧
      (((machine 2).exec (boot 2) waitRun).table q).state.Alive := by
  obtain ⟨q, hq, halive, -⟩ := (process_tree reachable_waitRun).1 1 (by decide +kernel)
    (by decide +kernel)
  exact ⟨q, hq, halive⟩

/-! ### Sleepers in `wait` -/

/-- The invariant of `wait` in every reachable state. -/
lemma Reachable.waitInv (h : Reachable ok s) : WaitInv s.table.entries := by
  refine h.invariant (I := fun s => WaitInv s.table.entries) (fun i hi => ?_)
    fun {s a} hr hw he => ?_
  · rcases boot_cases n i with ⟨-, he, -⟩ | ⟨-, he⟩ <;>
      simp [Table.entries, he, initEntry, zeroProc] at hi
  · exact WaitInv.step (L := abs s) hw hr.coherent.tree (hr.coherent.lifeStep he)

/-- **No stuck waiter.** In every reachable state, a process asleep in `wait()` has a child,
has no zombie child, and has not been killed. -/
theorem no_stuck_waiter (h : Reachable ok s) {i : Slot} (hs : (s.table i).state = sleeping)
    (hchan : (s.table i).chan = some (.proc i)) :
    (∃ k, (s.table k).parent = some i) ∧
      (∀ k, (s.table k).parent = some i → (s.table k).state ≠ zombie) ∧
      (s.table i).killed = false :=
  h.waitInv i hs hchan

theorem no_stuck_waiter_waitRun :
    ∃ k, (((machine 2).exec (boot 2) waitRun).table k).parent = some 0 :=
  (no_stuck_waiter reachable_waitRun (by decide +kernel) (by decide +kernel)).1

/-! ### CPUs -/

/-- A slot becomes the process of a CPU by a dispatch, which makes it `RUNNING`. -/
lemma proc_next {a : Act n} {c : Fin n} {i : Slot} (h : ((s.next a).cpus c).proc = some i) :
    (s.cpus c).proc = some i ∨ ((s.next a).table i).state = running := by
  by_cases ha : a.ofScheduler = false
  · rw [(keepsLocals_next s ha c).proc] at h
    exact Or.inl h
  cases a with
  | schedAcquire c' | schedRelease c' =>
      refine Or.inl ?_
      rcases eq_or_ne c c' with rfl | hc
      · simpa [Kernel.next] using h
      · simpa [Kernel.next, hc] using h
  | schedBack c' =>
      refine Or.inl ?_
      rcases eq_or_ne c c' with rfl | hc
      · simp [Kernel.next] at h
      · simpa [Kernel.next, hc] using h
  | schedPass c' =>
      simp only [Kernel.next] at h ⊢
      cases hp : schedulerPass s.table (s.cpus c').totalTickets (s.cpus c').ticketsPassed
          s.startState with
      | idle total | fault f v =>
          refine Or.inl ?_
          rcases eq_or_ne c c' with rfl | hc
          · simpa [hp] using h
          · simpa [hp, hc] using h
      | dispatch w total passed v =>
          rcases eq_or_ne c c' with rfl | hc
          · obtain rfl : w = i := by simpa [hp] using h
            exact Or.inr (by simp)
          · exact Or.inl (by simpa [hp, hc] using h)
  | _ => exact absurd rfl ha

/-- A zombie that is reaped is no longer the process of a CPU: the CPU it ran on has left it
before it released the lock. -/
lemma CpuInv.not_proc_of_reaped (h : CpuInv s) {a : Act n} (he : s.Enabled a) {P q : ℤ} {z : Slot}
    (hev : s.event a = .reaped P q z) (c : Fin n) : (s.cpus c).proc ≠ some z := by
  obtain ⟨c₀, i, b, rfl, hw⟩ : s.Origin a (.reaped P q z) := hev ▸ s.origin_event a
  obtain ⟨-, hz⟩ := waitLoop_some hw
  have hat : s.At c₀ i .waitScan := he
  have hne : z ≠ i := h.ne_of_not_running hat (by simp [hz])
  exact h.not_proc ((h.lock_of_at hat).mpr rfl) (by simp [hat.2.1, Ne.symm hne]) (by simp [hz]) c

/-- A process that is dispatched is not the process of a CPU yet. -/
lemma CpuInv.not_proc_of_dispatched (h : CpuInv s) {a : Act n} (he : s.Enabled a) {w : Slot}
    {pid : ℤ} (hev : s.event a = .dispatched w pid) (c : Fin n) : (s.cpus c).proc ≠ some w := by
  obtain ⟨c₀, total, passed, v, rfl, hp⟩ : s.Origin a (.dispatched w pid) := hev ▸ s.origin_event a
  have hpc : (s.cpus c₀).pc = .pass := he
  have hc := h.cpu c₀
  simp only [CpuOk, hpc] at hc
  exact h.not_proc hc.2 (by simp [hc.1]) (by simp [schedulerPass_runnable hp]) c

/-- The process of a CPU is one that has been published and not reaped. -/
def ProcInv (s : Kernel n) : Prop := ∀ c i, (s.cpus c).proc = some i → (s.table i).state.Born

lemma ProcInv.step (h : ProcInv s) (hc : Coherent s) {a : Act n} (he : s.Enabled a) :
    ProcInv (s.next a) := by
  intro c i hi
  rcases proc_next hi with hi | hrun
  · rcases ((hc.lifeStep he).change i).born (h c i hi) with hb | ⟨P, q, hev⟩
    · exact hb
    · exact absurd hi (hc.cpu.not_proc_of_reaped he hev c)
  · rw [hrun]
    exact born_running

lemma Reachable.procInv (h : Reachable ok s) : ProcInv s :=
  h.invariant (fun _ _ hi => by cases hi) fun hr hinv he => hinv.step hr.coherent he

/-- **`RUNNING` and CPUs.** In every reachable state with the lock free, a slot is `RUNNING`
if and only if it is the process of exactly one CPU; two CPUs never have the same process.
No step makes a slot free while it is the process of a CPU, in particular none that reaps
it and frees its stack, and no step dispatches a slot that already is. -/
theorem running_iff_on_cpu (h : Reachable ok s) :
    (s.lock = none → ∀ i, (s.table i).state = running ↔ ∃! c, (s.cpus c).proc = some i) ∧
    (∀ c c' i, (s.cpus c).proc = some i → (s.cpus c').proc = some i → c = c') ∧
    ∀ e s', Step ok s e s' →
      (∀ z, (s.table z).state ≠ unused → (s'.table z).state = unused →
        ∀ c, (s.cpus c).proc ≠ some z ∧ (s'.cpus c).proc ≠ some z) ∧
      (∀ P q z, e = .reaped P q z → (s.table z).state = zombie ∧ (s'.table z).state = unused ∧
        (s'.table z).kstack = false ∧ ∀ c, (s.cpus c).proc ≠ some z) ∧
      ∀ w pid, e = .dispatched w pid → ∀ c, (s.cpus c).proc ≠ some w := by
  have hc := h.coherent
  refine ⟨fun hl i => ⟨fun hi => ?_, fun ⟨c, hi, _⟩ => ?_⟩, hc.cpu.inj, ?_⟩
  · obtain ⟨c, hi⟩ := hc.cpu.onCpu i hi
    exact ⟨c, hi, fun c' hi' => hc.cpu.inj c' c i hi' hi⟩
  · exact hc.cpu.running_of_proc (by simp [hl]) hi
  rintro e s' ⟨a, he, hok, rfl, rfl⟩
  have hproc' : ProcInv (s.next a) := h.procInv.step hc he
  refine ⟨fun z hz hz' c => ⟨fun hi => ?_, fun hi => ?_⟩, fun P q z hev => ?_, fun w pid hev =>
    hc.cpu.not_proc_of_dispatched he hev⟩
  · rcases ((hc.lifeStep he).change z).freed hz hz' with ⟨hemb, -⟩ | ⟨-, P, hev⟩
    · exact (h.procInv c z hi).ne_embryo hemb
    · exact hc.cpu.not_proc_of_reaped he hev c hi
  · exact (hproc' c z hi).ne_unused hz'
  · have hno := hc.cpu.not_proc_of_reaped he hev
    obtain ⟨c₀, i, b, rfl, hw⟩ : s.Origin a (.reaped P q z) := hev ▸ s.origin_event a
    obtain ⟨-, hz⟩ := waitLoop_some hw
    have hne : z ≠ i := hc.cpu.ne_of_not_running he (by simp [hz])
    refine ⟨hz, ?_, ?_, hno⟩ <;> simp [machine, Kernel.next, hw, reap, hne]

theorem running_iff_on_cpu_pairRun :
    (∃! c, (((machine 2).exec (boot 2) pairRun).cpus c).proc = some 0) ∧
    ∃! c, (((machine 2).exec (boot 2) pairRun).cpus c).proc = some 1 := by
  have hrunning := (running_iff_on_cpu (reachable_exec (by decide +kernel :
    (machine 2).Allowed AnyAct (boot 2) pairRun))).1 (by decide +kernel)
  exact ⟨(hrunning 0).mp (by decide +kernel), (hrunning 1).mp (by decide +kernel)⟩

/-! ### Kills -/

/-- An action that marks no free slot and gives no marked slot back. -/
def KillSafeAct (s : Kernel n) (a : Act n) : Prop := KillSafe s.table.entries (s.event a)

instance (s : Kernel n) (a : Act n) : Decidable (KillSafeAct s a) :=
  inferInstanceAs (Decidable (KillSafe _ _))

/-- The invariant of killed marks in every safe run. -/
lemma killInv_of_run {tr : List (Event Slot)} (h : Run (Step KillSafeAct) (boot n) tr s) :
    KillInv tr s.table.entries := by
  refine Run.invariant (I := fun tr s => KillInv tr s.table.entries) (fun i hi => ?_) ?_ h
  · rcases boot_cases n i with ⟨-, he, -⟩ | ⟨-, he⟩ <;>
      simp [Table.entries, he, initEntry, zeroProc] at hi
  · rintro tr e s₁ s₂ hrun₁ hinv ⟨a, he, hok, rfl, rfl⟩
    have hc : Coherent s₁ := Reachable.coherent ⟨tr, hrun₁⟩
    exact KillInv.step (L := abs s₁) hinv (hc.lifeStep he) hok

/-- **Kill isolation.** In every run whose kills mark no free slot and whose forks give no
marked slot back, a process that nobody has aimed a kill at, and that took no unexpected
trap, is not marked. In any run, the mark of a process that is not aimed at is the one its
slot had when `allocproc` took it, as long as the process has the slot. -/
theorem kill_isolation (n : ℕ) :
    (∀ (tr : List (Event Slot)) (s : Kernel n) (q : ℤ) (i : Slot),
      Run (Step KillSafeAct) (boot n) tr s → (∀ e ∈ tr, e.aims q = false) →
      (s.table i).pid = q → (s.table i).killed = false) ∧
    ∀ (m m' s : Kernel n) (tr : List (Event Slot)) (i : Slot) (q : ℤ),
      Reachable AnyAct m → Step AnyAct m (.alloc i q) m' → Run (Step AnyAct) m' tr s →
      (∀ e ∈ tr, e.aims q = false ∧ e.frees i = false) →
      ((s.table i).killed = false ↔ (m.table i).killed = false) := by
  refine ⟨fun tr s q i hrun haim hq => ?_, fun m m' s tr i q hm hstep hrun hspare => ?_⟩
  · by_contra hk
    obtain ⟨-, e, he, ha⟩ := killInv_of_run hrun i (by simpa [Table.entries] using hk)
    rw [show (s.table.entries i).pid = q from hq, haim e he] at ha
    cases ha
  · obtain ⟨a, he, -, hev, rfl⟩ := hstep
    have hc := hm.coherent
    have hlife := hc.lifeStep he
    rw [show m.event a = .alloc i q from hev] at hlife
    obtain ⟨-, -, -, hprocs⟩ := hlife.of_alloc
    have hslot : (abs (m.next a)).procs i =
        { (abs m).procs i with state := embryo, pid := q, tickets := 100, ticks := 0 } := by
      rw [hprocs, Function.update_self]
    obtain ⟨-, -, hkilled⟩ := killed_of_spared (by simp [hslot]) (by simp [hslot])
      ((hc.step he).run hrun).1 hspare
    rw [hslot] at hkilled
    rw [show (s.table i).killed = (m.table i).killed from hkilled]

/-- The child kills its parent, from the other CPU. -/
def killRun : List (Act 2) := pairRun ++ ([.kill 1 1 1] : List (Act 2))

theorem kill_isolation_killRun :
    (((machine 2).exec (boot 2) killRun).table 0).killed = true ∧
    (((machine 2).exec (boot 2) killRun).table 1).pid = 2 ∧
    (((machine 2).exec (boot 2) killRun).table 1).killed = false :=
  ⟨by decide +kernel, by decide +kernel, (kill_isolation 2).1 _ _ 2 1
    (Guarded.Allowed.run (by decide +kernel : (machine 2).Allowed KillSafeAct (boot 2) killRun))
    (by decide +kernel) (by decide +kernel)⟩

/-- The first process calls `kill(0)`, whose scan stops at a free slot, and forks. -/
def leakRun : List (Act 1) :=
  [.schedAcquire 0, .schedPass 0, .forkret 0 0, .kill 0 0 0, .forkAlloc 0 0,
    .forkStack 0 0 1 true, .forkCopy 0 0 1 true, .forkFill 0 0 1, .forkPublish 0 0 1]

/-- The child is then born killed, though nobody has aimed at it. -/
theorem child_born_killed : ∃ (tr : List (Event Slot)) (s : Kernel 1),
    Run (Step AnyAct) (boot 1) tr s ∧ (∀ e ∈ tr, e.aims 2 = false) ∧ (s.table 1).pid = 2 ∧
    (s.table 1).state = runnable ∧ (s.table 1).killed = true :=
  ⟨_, _, Guarded.Allowed.run (by decide +kernel : (machine 1).Allowed AnyAct (boot 1) leakRun),
    by decide +kernel⟩

end Xv6Lottery
