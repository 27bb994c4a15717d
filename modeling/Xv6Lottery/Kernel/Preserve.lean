import Xv6Lottery.Kernel.Coherent

/-!
Every action keeps the invariant of the machine.

* `CpuInv.step`: CPUs, lock and running states, one case for each action.
* `RoleInv.step`: the same for the continuations. It needs that free slots have no
  parent, which is a fact about the table alone and comes from the process tree.
-/

namespace Xv6Lottery

open Procstate

variable {n : ℕ} {s s' : Kernel n}

@[simp] lemma setContext_self (t : Table) (i : Slot) (k : Context) :
    setContext t i k i = { t i with context := k } := Function.update_self i _ t

@[simp] lemma setContext_of_ne {t : Table} {i j : Slot} (h : j ≠ i) (k : Context) :
    setContext t i k j = t j := Function.update_of_ne h _ t

namespace CpuInv

variable (h : CpuInv s) {c : Fin n} {i : Slot} {k : Context}
include h

/-- A process about to acquire the lock does not hold it. -/
lemma not_holds_of_free (hat : s.At c i k) (hfree : s.lock = none) : k.holds = false := by
  have hl := h.lock_of_at hat
  rw [hfree] at hl
  by_contra hk
  exact absurd (hl.mpr (by simpa using hk)) (by simp)

/-- When one CPU holds the lock no other does. -/
lemma ne_of_at (hat : s.At c i k) (hk : k.holds = true) : ∀ c', c' ≠ c → s.lock ≠ some c' := by
  intro c' hc' hl
  rw [(h.lock_of_at hat).mpr hk] at hl
  exact hc' (Option.some.inj hl).symm

omit h in
/-- The CPU of a process that is executed, when the action leaves the CPUs alone. -/
lemma same_cpus (hat : s.At c i k) (hcpus : s'.cpus = s.cpus) :
    ∃ u, s'.cpus = Function.update s.cpus c u ∧ u.pc = .swtch ∧ u.proc = some i :=
  ⟨s.cpus c, by rw [hcpus, Function.update_eq_self], hat.1, hat.2.1⟩

/-- What does not run, and is not the process of the CPU that holds the lock, is the process
of no CPU. -/
lemma not_proc {j : Slot} (hl : s.lock = some c) (hc : (s.cpus c).proc ≠ some j)
    (hj : (s.table j).state ≠ running) (c' : Fin n) : (s.cpus c').proc ≠ some j := by
  rcases eq_or_ne c' c with rfl | hne
  · exact hc
  · refine fun hp => hj (h.running_of_proc ?_ hp)
    rw [hl]
    exact fun hcc => hne (Option.some.inj hcc).symm

/-- An action without effect on the lock, on other slots or on CPUs. -/
lemma goto (hat : s.At c i k) {k' : Context} (hk : k.holds = k'.holds) : CpuInv (s.goto i k') := by
  have hrun := h.running_of_at hat
  refine h.own k' hat (same_cpus hat rfl)
    (by rw [hk]; exact .keep) ?_ fun j hj => setContext_of_ne hj _
  simp [hrun]

/-- A pass of `scheduler()`. The winner of a dispatch is `RUNNABLE`, so it is nobody's
process yet, and it goes on with the lock held. -/
lemma schedPass (hpc : (s.cpus c).pc = .pass) : CpuInv (s.next (.schedPass c)) := by
  have hc := h.cpu c
  unfold CpuOk at hc
  simp only [hpc] at hc
  obtain ⟨hnone, hlock⟩ := hc
  simp only [Kernel.next]
  cases hp : schedulerPass s.table (s.cpus c).totalTickets (s.cpus c).ticketsPassed
      s.startState with
  | idle total =>
      refine h.scheduler (c := c) hnone (by simp [hnone]) rfl
        (fun c' hc' => Function.update_of_ne hc' _ _) (fun _ _ => Iff.rfl) ?_
      simp [CpuOk, hnone, hlock]
  | fault f v =>
      refine h.scheduler (c := c) hnone (by simp [hnone]) rfl
        (fun c' hc' => Function.update_of_ne hc' _ _) (fun _ _ => Iff.rfl) ?_
      simp [CpuOk, hlock]
  | dispatch w total passed v =>
      have hw := schedulerPass_runnable hp
      have hne : ∀ c' j, (s.cpus c').proc = some j → j ≠ w := by
        rintro c' j hj rfl
        exact h.not_proc hlock (by simp [hnone]) (by simp [hw]) c' hj
      refine h.of (c := c) (fun c' hc' => Function.update_of_ne hc' _ _) (fun _ _ => Iff.rfl)
        (fun c' hc' j hj => ?_) ?_ (fun j hj => ?_) (fun j hj => ?_)
      · have hjw := hne c' j hj
        simp [hjw, Ne.symm hjw]
      · have hholds := Context.holds_of_parked (h.parked w (Or.inl hw))
        simp [CpuOk, hlock, hholds]
      · rcases eq_or_ne j w with rfl | hjw
        · exact Or.inl (by simp)
        · refine Or.inr ⟨?_, by simp [hnone]⟩
          simpa [hjw] using hj
      · rcases eq_or_ne j w with rfl | hjw
        · simp at hj
        · simp only [Function.update_of_ne hjw] at hj ⊢
          exact h.parked j hj

/-- The other actions of `scheduler()`. -/
lemma schedOther {a : Act n} (he : s.Enabled a)
    (ha : a = .schedAcquire c ∨ a = .schedBack c ∨ a = .schedRelease c) : CpuInv (s.next a) := by
  have hc := h.cpu c
  unfold CpuOk at hc
  rcases ha with rfl | rfl | rfl
  · obtain ⟨hpc, _, hfree⟩ := he
    simp only [hpc] at hc
    refine h.scheduler (c := c) hc.1 (by simp [Kernel.next, hc.1]) rfl (fun c' hc' => ?_)
      (fun c' hc' => ?_) ?_
    · simp [Kernel.next, hc']
    · simp [Kernel.next, hfree, Ne.symm hc']
    · simp [CpuOk, Kernel.next, hc.1]
  · have hpc : (s.cpus c).pc = .back := he
    simp only [hpc] at hc
    obtain ⟨i, hproc, hrun, hlock⟩ := hc
    refine h.of (c := c) (fun c' hc' => Function.update_of_ne hc' _ _) (fun _ _ => Iff.rfl)
      (fun c' hc' j hj => ?_) ?_ (fun j hj => ?_) h.parked
    · exact ⟨by simp [Kernel.next], Iff.rfl, fun _ => rfl⟩
    · simp [CpuOk, Kernel.next, hlock]
    · refine Or.inr ⟨hj, fun hcj => hrun ?_⟩
      rw [hproc] at hcj
      rw [Option.some.inj hcj]
      exact hj
  · have hpc : (s.cpus c).pc = .done := he
    simp only [hpc] at hc
    refine h.scheduler (c := c) hc.1 (by simp [Kernel.next, hc.1]) rfl (fun c' hc' => ?_)
      (fun c' hc' => ?_) ?_
    · simp [Kernel.next, hc']
    · simp [Kernel.next, hc.2, Ne.symm hc']
    · simp [CpuOk, Kernel.next, hc.1]

/-- An action of the process in slot `i` that also changes a slot `np` which does not run,
before or after. -/
lemma onOther (k' : Context) (np : Slot) (hat : s.At c i k)
    (hu : ∃ u, s'.cpus = Function.update s.cpus c u ∧ u.pc = .swtch ∧ u.proc = some i)
    (hl : LockMove c s.lock s'.lock k.holds k'.holds)
    (hself : (s'.table i).state = running ∧ (s'.table i).context = k')
    (hnp : (s.table np).state ≠ running)
    (hnp' : (s'.table np).state = unused ∨ (s'.table np).state = embryo ∨
      (s'.table np).state = runnable ∧ (s'.table np).context = .forkret)
    (hsame : ∀ j, j ≠ i → j ≠ np → s'.table j = s.table j) : CpuInv s' := by
  refine h.thread k' hat hu hl hself (fun j hj => ?_) (fun j hj hst => ?_) <;>
    rcases eq_or_ne j np with rfl | hjn
  · have : (s'.table j).state ≠ running := by
      rcases hnp' with h' | h' | ⟨h', _⟩ <;> simp [h']
    exact ⟨by simp [this, hnp], fun hrun => absurd hrun hnp⟩
  · rw [hsame j hj hjn]
    exact ⟨Iff.rfl, fun _ => rfl⟩
  · rcases hnp' with h' | h' | ⟨_, h'⟩
    · simp [h'] at hst
    · simp [h'] at hst
    · rw [h']
      rfl
  · rw [hsame j hj hjn] at hst ⊢
    exact h.parked j hst

end CpuInv

/-- A change of the table that at most wakes processes up. -/
lemma CpuInv.wakes (h : CpuInv s)
    (hcpus : ∀ c, (s'.cpus c).pc = (s.cpus c).pc ∧ (s'.cpus c).proc = (s.cpus c).proc)
    (hlock : s'.lock = s.lock)
    (htab : ∀ j, (s.table j).state.Wakes (s'.table j).state ∧
      (s'.table j).context = (s.table j).context) : CpuInv s' :=
  h.table hcpus hlock fun j => ⟨(htab j).1.eq_iff, (htab j).2, (htab j).1.waiting⟩

/-- The state after `sched()`: the CPU is back in `scheduler()`, or has panicked. -/
lemma sched_cpus {c : Fin n} {i : Slot} (k : Context)
    (hu : ∃ u, s'.cpus = Function.update s.cpus c u ∧ u.pc = .swtch ∧ u.proc = some i) :
    ∃ u, (s'.sched c i k).cpus = Function.update s.cpus c u ∧
      (u.pc = .back ∨ u.pc = .halted) ∧ u.proc = some i := by
  obtain ⟨u, hcpus, -, hproc⟩ := hu
  refine ⟨{ u with pc := if u.ncli = 1 then .back else .halted }, by simp [hcpus], ?_, hproc⟩
  dsimp only
  split
  · exact Or.inl rfl
  · exact Or.inr rfl

/-- **CPUs and lock**: every action keeps them together. -/
lemma CpuInv.step (h : CpuInv s) (hr : RoleInv s) {a : Act n} (he : s.Enabled a) :
    CpuInv (s.next a) := by
  cases a with
  | schedAcquire c => exact h.schedOther he (Or.inl rfl)
  | schedPass c => exact h.schedPass he
  | schedBack c => exact h.schedOther he (Or.inr (Or.inl rfl))
  | schedRelease c => exact h.schedOther he (Or.inr (Or.inr rfl))
  | forkret c i =>
      have hrun := h.running_of_at he
      exact h.own .user he ⟨_, rfl, he.1, he.2.1⟩ .drop (by simp [Kernel.next, hrun])
        fun j hj => setContext_of_ne hj _
  | yieldReturn c i k =>
      have hrun := h.running_of_at he
      have hk : k.holds = false := (hr.role_of_at he).1
      exact h.own k he ⟨_, rfl, he.1, he.2.1⟩ (by rw [hk]; exact .drop)
        (by simp [Kernel.next, hrun]) fun j hj => setContext_of_ne hj _
  | waitCall c i =>
      obtain ⟨hat, -, hfree⟩ := he
      have hrun := h.running_of_at hat
      exact h.own .waitScan hat ⟨_, rfl, hat.1, hat.2.1⟩ (by rw [hfree]; exact .take)
        (by simp [Kernel.next, hrun]) fun j hj => setContext_of_ne hj _
  | waitWake c i =>
      have hrun := h.running_of_at he
      exact h.own .waitScan he (same_cpus he rfl) .keep (by simp [Kernel.next, hrun])
        fun j hj => by simp [Kernel.next, hj]
  | sleepCall c i a lk k =>
      obtain ⟨hat, hk, -⟩ := he
      exact h.goto hat (Context.not_holds_of_maySleep hk)
  | sleepAcquire c i a lk k =>
      obtain ⟨hat, hfree⟩ := he
      have hrun := h.running_of_at hat
      exact h.own (.sleepBoth a lk k) hat ⟨_, rfl, hat.1, hat.2.1⟩ (by rw [hfree]; exact .take)
        (by simp [Kernel.next, hrun]) fun j hj => setContext_of_ne hj _
  | sleepRelease c i a lk k =>
      have hrun := h.running_of_at he
      exact h.own (.sleepSet a lk k) he ⟨_, rfl, he.1, he.2.1⟩ .keep (by simp [Kernel.next, hrun])
        fun j hj => setContext_of_ne hj _
  | sleepReturn c i lk k =>
      have hrun := h.running_of_at he
      exact h.own (.sleepRelock lk k) he ⟨_, rfl, he.1, he.2.1⟩ .drop (by simp [Kernel.next, hrun])
        fun j hj => by simp [Kernel.next, hj]
  | sleepRelock c i lk k =>
      obtain ⟨hat, -, -⟩ := he
      have hrun := h.running_of_at hat
      have hk : k.holds = false := (hr.role_of_at hat).1
      exact h.own k hat ⟨_, rfl, hat.1, hat.2.1⟩ (by rw [hk]; exact .keep)
        (by simp [Kernel.next, hrun]) fun j hj => setContext_of_ne hj _
  | forkAlloc c i =>
      obtain ⟨hat, -, -⟩ := he
      have hrun := h.running_of_at hat
      cases hf : findUnused s.table with
      | none => simpa only [Kernel.next, hf] using h
      | some np =>
          have hst := findUnused_some hf
          have hne : np ≠ i := h.ne_of_not_running hat (by simp [hst])
          refine h.onOther (.allocStack np) np hat (same_cpus hat (by simp [Kernel.next, hf]))
            (by simp only [Kernel.next, hf]; exact .keep) ?_ (by simp [hst]) (Or.inr (Or.inl ?_))
            fun j hj hjn => ?_
          · simp [Kernel.next, hf, allocproc, Ne.symm hne, hrun]
          · simp [Kernel.next, hf, allocproc, hne]
          · simp [Kernel.next, hf, allocproc, hj, hjn]
  | forkStack c i np ok =>
      obtain ⟨hat, -⟩ := he
      have hrun := h.running_of_at hat
      obtain ⟨hst, hne⟩ := hr.child_of_at h hat rfl
      refine h.onOther (if ok then .forkCopy np else .user) np hat (same_cpus hat rfl)
        (by cases ok <;> exact .keep) ?_ (by simp [hst]) ?_ fun j hj hjn => ?_
      · cases ok <;> simp [Kernel.next, allocprocStack, Ne.symm hne, hrun]
      · cases ok <;> simp [Kernel.next, allocprocStack, hne, hst]
      · cases ok <;> simp [Kernel.next, allocprocStack, hj, hjn]
  | forkCopy c i np ok =>
      obtain ⟨hat, -⟩ := he
      have hrun := h.running_of_at hat
      obtain ⟨hst, hne⟩ := hr.child_of_at h hat rfl
      cases ok with
      | true => exact h.goto hat rfl
      | false =>
          refine h.onOther .user np hat (same_cpus hat rfl) .keep ?_ (by simp [hst]) (Or.inl ?_)
            fun j hj hjn => ?_
          · simp [Kernel.next, forkUndo, Ne.symm hne, hrun]
          · simp [Kernel.next, forkUndo, hne]
          · simp [Kernel.next, forkUndo, hj, hjn]
  | forkFill c i np =>
      obtain ⟨hat, -⟩ := he
      have hrun := h.running_of_at hat
      obtain ⟨hst, hne⟩ := hr.child_of_at h hat rfl
      refine h.onOther (.forkPublish np) np hat (same_cpus hat rfl) .keep ?_ (by simp [hst])
        (Or.inr (Or.inl ?_)) fun j hj hjn => ?_
      · simp [Kernel.next, forkFill, Ne.symm hne, hrun]
      · simp [Kernel.next, forkFill, hne, hst]
      · simp [Kernel.next, forkFill, hj, hjn]
  | forkPublish c i np =>
      obtain ⟨hat, -, -⟩ := he
      have hrun := h.running_of_at hat
      obtain ⟨-, -, hctx⟩ := hr.role_of_at hat
      obtain ⟨hst, hne⟩ := hr.child_of_at h hat rfl
      refine h.onOther .user np hat (same_cpus hat rfl) .keep ?_ (by simp [hst])
        (Or.inr (Or.inr ?_)) fun j hj hjn => ?_
      · simp [Kernel.next, forkPublish, Ne.symm hne, hrun]
      · simp [Kernel.next, forkPublish, hne, hctx]
      · simp [Kernel.next, forkPublish, hj, hjn]
  | exitCall c i =>
      obtain ⟨hat, -⟩ := he
      have hrun := h.running_of_at hat
      by_cases hip : s.initproc = some i
      · simp only [Kernel.next, if_pos hip]
        refine h.of (c := c) (fun c' hc' => Function.update_of_ne hc' _ _) (fun _ _ => Iff.rfl)
          (fun c' hc' j hj => ⟨?_, Iff.rfl, fun _ => rfl⟩) ?_ (fun j hj => ?_) h.parked
        · simp only [Kernel.setPc, Kernel.setCpu, Function.update_self]
          exact fun hj' => hc' (h.inj c' c j hj hj')
        · simp [CpuOk, hat.2.1, hrun]
        · by_cases hij : (s.cpus c).proc = some j
          · exact Or.inl (by simpa using hij)
          · exact Or.inr ⟨hj, hij⟩
      · simp only [Kernel.next, if_neg hip]
        exact h.goto hat rfl
  | exitClose c i fd =>
      obtain ⟨hat, -⟩ := he
      have hrun := h.running_of_at hat
      by_cases hfd : fd < NOFILE
      · simp only [Kernel.next, dif_pos hfd]
        exact h.own (.exitClose (fd + 1)) hat (same_cpus hat rfl) .keep (by simp [hrun])
          fun j hj => by simp [hj]
      · simp only [Kernel.next, dif_neg hfd]
        exact h.goto hat rfl
  | exitCwd c i =>
      obtain ⟨hat, -⟩ := he
      have hrun := h.running_of_at hat
      exact h.own .exitLock hat (same_cpus hat rfl) .keep (by simp [Kernel.next, hrun])
        fun j hj => by simp [Kernel.next, hj]
  | yield c i k =>
      obtain ⟨hat, -, hfree⟩ := he
      exact h.parkOwn (.yielded k) rfl hat (sched_cpus (.yielded k) ⟨_, rfl, hat.1, hat.2.1⟩)
        (by simp [hfree]) rfl (by simp [Kernel.next]) fun j hj => by simp [Kernel.next, hj]
  | exitSched c i =>
      obtain ⟨hat, -, hfree⟩ := he
      have htab : ∀ j, ((s.next (.exitSched c i)).table j).state =
          (exitTable s.initproc s.table i j).state := by
        intro j
        rcases eq_or_ne j i with rfl | hji
        · simp [Kernel.next]
        · simp [Kernel.next, hji]
      have hctx : ∀ j, j ≠ i → ((s.next (.exitSched c i)).table j).context =
          (s.table j).context := by
        intro j hji
        obtain ⟨st, -, he⟩ := exitTable_apply s.initproc s.table i j
        simp [Kernel.next, hji, he]
      refine h.park hat (sched_cpus .exited ⟨_, rfl, hat.1, hat.2.1⟩) (by simp [hfree]) rfl ?_
        (fun j hj => ⟨?_, hctx j hj⟩) fun j hj => ?_
      · rw [htab]
        simp [exitTable]
      · obtain ⟨st, hst, he⟩ := exitTable_apply s.initproc s.table i j
        rw [htab, he]
        rw [if_neg hj] at hst
        exact Procstate.Wakes.eq_iff hst
      · obtain ⟨st, hst, he⟩ := exitTable_apply s.initproc s.table i j
        rw [htab, he] at hj
        split_ifs at hst with hji
        · simp [hst] at hj
        · rw [hctx j hji]
          exact h.parked j (Procstate.Wakes.waiting hst hj)
  | waitScan c i =>
      have hrun := h.running_of_at he
      cases hw : waitLoop s.table i slots false with
      | mk havekids z =>
          cases z with
          | some z =>
              obtain ⟨-, hz⟩ := waitLoop_some hw
              have hne : z ≠ i := h.ne_of_not_running he (by simp [hz])
              simp only [Kernel.next, hw]
              refine h.onOther .user z he ⟨_, rfl, he.1, he.2.1⟩ .drop ?_ (by simp [hz])
                (Or.inl ?_) fun j hj hjz => ?_
              · simp [reap, Ne.symm hne, hrun]
              · simp [reap, hne]
              · simp [reap, hj, hjz]
          | none =>
              simp only [Kernel.next, hw]
              split_ifs with hgo
              · exact h.own .user he ⟨_, rfl, he.1, he.2.1⟩ .drop (by simp [hrun])
                  fun j hj => setContext_of_ne hj _
              · exact h.parkOwn .waitSleep rfl he (sched_cpus .waitSleep (same_cpus he rfl))
                  (h.ne_of_at he rfl) ((h.lock_of_at he).mpr rfl) (by simp)
                  fun j hj => by simp [hj]
  | sleepSched c i a lk k =>
      exact h.parkOwn (.slept lk k) rfl he (sched_cpus (.slept lk k) (same_cpus he rfl))
        (h.ne_of_at he rfl) ((h.lock_of_at he).mpr rfl) (by simp [Kernel.next])
        fun j hj => by simp [Kernel.next, hj]
  | wakeup c ch =>
      refine h.wakes (fun _ => ⟨rfl, rfl⟩) rfl fun j => ?_
      obtain ⟨st, hst, he, -⟩ := wakeup1_apply s.table (some ch) j
      simpa [Kernel.next, he] using hst
  | kill c i pid =>
      refine h.wakes (fun _ => ⟨rfl, rfl⟩) rfl fun j => ?_
      obtain ⟨st, b, hst, he⟩ := kill_apply s.table pid j
      simpa [Kernel.next, he] using hst
  | assignTickets c i pid tickets =>
      refine h.wakes (fun _ => ⟨rfl, rfl⟩) rfl fun j => ?_
      obtain ⟨m, he⟩ := sysAssignTickets_apply s.table pid tickets j
      simp [Kernel.next, he, Procstate.Wakes]
  | procInfo c i info => exact h
  | trapKill c i | sysOther c i =>
      refine h.wakes (fun _ => ⟨rfl, rfl⟩) rfl fun j => ?_
      rcases eq_or_ne j i with rfl | hji
      · simp [Kernel.next, Procstate.Wakes]
      · simp [Kernel.next, hji, Procstate.Wakes]
  | acquireLk c lk | releaseLk c lk =>
      refine h.wakes (fun c' => ?_) rfl fun j => ⟨Or.inl rfl, rfl⟩
      rcases eq_or_ne c' c with rfl | hc
      · simp [Kernel.next]
      · simp [Kernel.next, hc]

/-! ### Continuations -/

namespace RoleInv

variable (h : RoleInv s) {c : Fin n} {i : Slot} {k : Context}
include h

/-- An action of the process in slot `i` that changes no other slot. -/
lemma own (hc : CpuInv s) (hat : s.At c i k) (k' : Context) (hinit : s'.initproc = s.initproc)
    (hctx : (s'.table i).context = k') (hk' : RoleOk s.initproc s.table i k')
    (hkeep : k'.child = none ∨ k'.child = k.child)
    (hsame : ∀ j, j ≠ i → s'.table j = s.table j) : RoleInv s' := by
  have hemb : ∀ np, (s.table np).state = embryo → s'.table np = s.table np := by
    exact fun np hnp => hsame np (hc.ne_of_not_running hat (by simp [hnp]))
  refine h.thread (i := i) hinit (fun j hj => Or.inl (by rw [hsame j hj])) (fun np hnp _ => ?_) ?_
    fun np hnp => ?_
  · rw [hemb np hnp]
    exact ⟨hnp, rfl, fun _ => rfl⟩
  · rw [hctx, hinit]
    refine hk'.frame fun np hnp => ?_
    rw [hemb np (hk'.embryo hnp).1]
    exact ⟨rfl, rfl, rfl⟩
  · rw [hctx] at hnp
    rw [hat.2.2]
    rcases hkeep with hk | hk <;> rw [hk] at hnp
    · cases hnp
    · exact hnp

/-- An action of the process in slot `i` on the child it owns. -/
lemma onChild (hc : CpuInv s) (hat : s.At c i k) (np : Slot) (hk : k.child = some np)
    (hinit : s'.initproc = s.initproc)
    (hnp : (s'.table np).context = (s.table np).context ∨ (s'.table np).context = .forkret)
    (hi : RoleOk s'.initproc s'.table i (s'.table i).context)
    (hkeep : (s'.table i).context.child = none ∨ (s'.table i).context.child = some np)
    (hsame : ∀ j, j ≠ i → j ≠ np → s'.table j = s.table j) : RoleInv s' := by
  have hchild : (s.table i).context.child = some np := by rw [hat.2.2, hk]
  refine h.thread (i := i) hinit (fun j hj => ?_) (fun q hq hne => ?_) hi fun q hq => ?_
  · rcases eq_or_ne j np with rfl | hjn
    · exact hnp
    · exact Or.inl (by rw [hsame j hj hjn])
  · have hqn : q ≠ np := fun hqn => hne (hqn ▸ hchild)
    have hqi : q ≠ i := hc.ne_of_not_running hat (by simp [hq])
    rw [hsame q hqi hqn]
    exact ⟨hq, rfl, fun _ => rfl⟩
  · rcases hkeep with hk' | hk' <;> rw [hk'] at hq
    · cases hq
    · rw [hchild, ← hq]

end RoleInv

/-- **Continuations and table**: every action keeps them together. The scan of `allocproc`
may take any free slot, so free slots must have no parent. -/
lemma RoleInv.step (h : RoleInv s) (hc : CpuInv s)
    (hfree : ∀ i, (s.table i).state = unused → (s.table i).parent = none)
    {a : Act n} (he : s.Enabled a) : RoleInv (s.next a) := by
  cases a with
  | schedAcquire c | schedBack c | schedRelease c | procInfo c i info | acquireLk c lk
  | releaseLk c lk => exact h.table rfl fun j => ⟨rfl, fun hj => ⟨hj, rfl⟩⟩
  | schedPass c =>
      simp only [Kernel.next]
      cases hp : schedulerPass s.table (s.cpus c).totalTickets (s.cpus c).ticketsPassed
          s.startState with
      | idle total => exact h.table rfl fun j => ⟨rfl, fun hj => ⟨hj, rfl⟩⟩
      | fault f v => exact h.table rfl fun j => ⟨rfl, fun hj => ⟨hj, rfl⟩⟩
      | dispatch w total passed v =>
          have hw := schedulerPass_runnable hp
          refine h.table rfl fun j => ?_
          rcases eq_or_ne j w with rfl | hjw
          · simp [hw]
          · simp [hjw]
  | forkret c i =>
      exact h.own hc he .user rfl (by simp [Kernel.next]) trivial (Or.inl rfl)
        fun j hj => setContext_of_ne hj _
  | yield c i k =>
      obtain ⟨hat, -, hfree⟩ := he
      exact h.own hc hat (.yielded k) rfl (by simp [Kernel.next])
        ⟨hc.not_holds_of_free hat hfree, h.role_of_at hat⟩ (Or.inr rfl)
        fun j hj => by simp [Kernel.next, hj]
  | yieldReturn c i k =>
      exact h.own hc he k rfl (by simp [Kernel.next]) (h.role_of_at he).2 (Or.inr rfl)
        fun j hj => setContext_of_ne hj _
  | waitCall c i =>
      obtain ⟨hat, -⟩ := he
      exact h.own hc hat .waitScan rfl (by simp [Kernel.next]) trivial (Or.inl rfl)
        fun j hj => setContext_of_ne hj _
  | waitWake c i =>
      exact h.own hc he .waitScan rfl (by simp [Kernel.next]) trivial (Or.inl rfl)
        fun j hj => by simp [Kernel.next, hj]
  | sleepCall c i a lk k =>
      obtain ⟨hat, hk, -⟩ := he
      exact h.own hc hat (.sleepEnter a lk k) rfl (by simp [Kernel.next])
        ⟨Context.not_holds_of_maySleep hk, h.role_of_at hat⟩ (Or.inr rfl)
        fun j hj => setContext_of_ne hj _
  | sleepAcquire c i a lk k =>
      obtain ⟨hat, -⟩ := he
      have hk := h.role_of_at hat
      exact h.own hc hat (.sleepBoth a lk k) rfl (by simp [Kernel.next]) hk (Or.inr rfl)
        fun j hj => setContext_of_ne hj _
  | sleepRelease c i a lk k =>
      have hk := h.role_of_at he
      exact h.own hc he (.sleepSet a lk k) rfl (by simp [Kernel.next]) hk (Or.inr rfl)
        fun j hj => setContext_of_ne hj _
  | sleepSched c i a lk k =>
      have hk := h.role_of_at he
      exact h.own hc he (.slept lk k) rfl (by simp [Kernel.next]) hk (Or.inr rfl)
        fun j hj => by simp [Kernel.next, hj]
  | sleepReturn c i lk k =>
      have hk := h.role_of_at he
      exact h.own hc he (.sleepRelock lk k) rfl (by simp [Kernel.next]) hk (Or.inr rfl)
        fun j hj => by simp [Kernel.next, hj]
  | sleepRelock c i lk k =>
      obtain ⟨hat, -⟩ := he
      exact h.own hc hat k rfl (by simp [Kernel.next]) (h.role_of_at hat).2 (Or.inr rfl)
        fun j hj => setContext_of_ne hj _
  | exitCall c i =>
      obtain ⟨hat, -⟩ := he
      by_cases hip : s.initproc = some i
      · simp only [Kernel.next, if_pos hip]
        exact h.table rfl fun j => ⟨rfl, fun hj => ⟨hj, rfl⟩⟩
      · simp only [Kernel.next, if_neg hip]
        exact h.own hc hat (.exitClose 0) rfl (by simp) hip (Or.inl rfl)
          fun j hj => setContext_of_ne hj _
  | exitClose c i fd =>
      obtain ⟨hat, -⟩ := he
      have hip : s.initproc ≠ some i := h.role_of_at hat
      by_cases hfd : fd < NOFILE
      · simp only [Kernel.next, dif_pos hfd]
        exact h.own hc hat (.exitClose (fd + 1)) rfl (by simp) hip (Or.inl rfl)
          fun j hj => by simp [hj]
      · simp only [Kernel.next, dif_neg hfd]
        exact h.own hc hat .exitCwd rfl (by simp) hip (Or.inl rfl)
          fun j hj => setContext_of_ne hj _
  | exitCwd c i =>
      obtain ⟨hat, -⟩ := he
      have hip : s.initproc ≠ some i := h.role_of_at hat
      exact h.own hc hat .exitLock rfl (by simp [Kernel.next]) hip (Or.inl rfl)
        fun j hj => by simp [Kernel.next, hj]
  | exitSched c i =>
      obtain ⟨hat, -, -⟩ := he
      have hip : s.initproc ≠ some i := h.role_of_at hat
      have hself : ((s.next (.exitSched c i)).table i).context = .exited := by simp [Kernel.next]
      have hother : ∀ j, j ≠ i → (s.next (.exitSched c i)).table j =
          exitTable s.initproc s.table i j := fun j hj => by simp [Kernel.next, hj]
      refine h.thread (i := i) rfl (fun j hj => Or.inl ?_) (fun np hnp _ => ?_) ?_ ?_
      · obtain ⟨st, -, he⟩ := exitTable_apply s.initproc s.table i j
        rw [hother j hj, he]
      · have hne : np ≠ i := hc.ne_of_not_running hat (by simp [hnp])
        obtain ⟨st, hst, he⟩ := exitTable_apply s.initproc s.table i np
        rw [if_neg hne, hnp] at hst
        rw [hother np hne, he]
        exact ⟨Procstate.Wakes.eq_of_ne_sleeping hst (by simp), rfl, fun hpar => if_neg hpar⟩
      · rw [hself]
        exact hip
      · rw [hself]
        simp [Context.child]
  | waitScan c i =>
      cases hw : waitLoop s.table i slots false with
      | mk havekids z =>
          cases z with
          | some z =>
              obtain ⟨-, hz⟩ := waitLoop_some hw
              simp only [Kernel.next, hw]
              refine h.thread (i := i) rfl (fun j hj => Or.inl ?_) (fun np hnp _ => ?_)
                (by simp [RoleOk]) (by simp [Context.child])
              · rcases eq_or_ne j z with rfl | hjz
                · simp [reap, hj]
                · simp [reap, hj, hjz]
              · have hne : np ≠ i := hc.ne_of_not_running he (by simp [hnp])
                have hnz : np ≠ z := by
                  rintro rfl
                  simp [hz] at hnp
                simp [reap, hne, hnz, hnp]
          | none =>
              simp only [Kernel.next, hw]
              split_ifs with hgo
              · exact h.own hc he .user rfl (by simp) trivial (Or.inl rfl)
                  fun j hj => setContext_of_ne hj _
              · exact h.own hc he .waitSleep rfl (by simp) trivial (Or.inl rfl)
                  fun j hj => by simp [hj]
  | forkAlloc c i =>
      obtain ⟨hat, -, -⟩ := he
      cases hf : findUnused s.table with
      | none => simpa only [Kernel.next, hf] using h
      | some np =>
          have hst := findUnused_some hf
          have hne : np ≠ i := hc.ne_of_not_running hat (by simp [hst])
          -- the slot is free, so it is no one's child yet
          have hnc : ∀ j q, (s.table j).context.child = some q → q ≠ np := by
            rintro j q hq rfl
            simp [((h.role j).embryo hq).1] at hst
          simp only [Kernel.next, hf]
          refine h.of (i := i) rfl (fun j hj => Or.inl ?_) (fun j q hj hq => ?_) ?_ ?_
          · rcases eq_or_ne j np with rfl | hjn
            · simp [allocproc, hj]
            · simp [allocproc, hj, hjn]
          · have hqi : q ≠ i := hc.ne_of_not_running hat (by simp [((h.role j).embryo hq).1])
            simp [allocproc, hqi, hnc j q hq]
          · simp [RoleOk, allocproc, hne, hfree np hst]
          · intro q hq j hj hjq
            obtain rfl : np = q := by simpa [Context.child] using hq
            exact hnc j np hjq rfl
  | forkStack c i np ok =>
      obtain ⟨hat, -⟩ := he
      obtain ⟨hst, hne⟩ := h.child_of_at hc hat rfl
      obtain ⟨-, hpar⟩ := h.role_of_at hat
      refine h.onChild hc hat np rfl rfl ?_ ?_ ?_ fun j hj hjn => ?_
      · cases ok <;> simp [Kernel.next, allocprocStack, hne]
      · cases ok <;> simp [Kernel.next, allocprocStack, hne, RoleOk, hst, hpar]
      · cases ok <;> simp [Kernel.next, Context.child]
      · cases ok <;> simp [Kernel.next, allocprocStack, hj, hjn]
  | forkCopy c i np ok =>
      obtain ⟨hat, -⟩ := he
      obtain ⟨hst, hne⟩ := h.child_of_at hc hat rfl
      have hrole := h.role_of_at hat
      cases ok with
      | true =>
          exact h.own hc hat (.forkFill np) rfl (by simp [Kernel.next]) hrole (Or.inr rfl)
            fun j hj => setContext_of_ne hj _
      | false =>
          refine h.onChild hc hat np rfl rfl (Or.inl ?_) ?_ (Or.inl ?_) fun j hj hjn => ?_
          · simp [Kernel.next, forkUndo, hne]
          · simp [Kernel.next, RoleOk]
          · simp [Kernel.next, Context.child]
          · simp [Kernel.next, forkUndo, hj, hjn]
  | forkFill c i np =>
      obtain ⟨hat, -⟩ := he
      obtain ⟨hst, hne⟩ := h.child_of_at hc hat rfl
      obtain ⟨-, -, hctx⟩ := h.role_of_at hat
      refine h.onChild hc hat np rfl rfl (Or.inl ?_) ?_ (Or.inr ?_) fun j hj hjn => ?_
      · simp [Kernel.next, forkFill, hne]
      · simp [Kernel.next, forkFill, hne, RoleOk, hst, hctx]
      · simp [Kernel.next, Context.child]
      · simp [Kernel.next, forkFill, hj, hjn]
  | forkPublish c i np =>
      obtain ⟨hat, -, -⟩ := he
      obtain ⟨hst, hne⟩ := h.child_of_at hc hat rfl
      refine h.onChild hc hat np rfl rfl (Or.inl ?_) ?_ (Or.inl ?_) fun j hj hjn => ?_
      · simp [Kernel.next, forkPublish, hne]
      · simp [Kernel.next, RoleOk]
      · simp [Kernel.next, Context.child]
      · simp [Kernel.next, forkPublish, hj, hjn]
  | wakeup c ch =>
      refine h.table rfl fun j => ?_
      obtain ⟨st, hst, he, -⟩ := wakeup1_apply s.table (some ch) j
      dsimp only [Kernel.next]
      rw [he]
      exact ⟨rfl, fun hj => ⟨hst.eq_iff.mpr hj, rfl⟩⟩
  | kill c i pid =>
      refine h.table rfl fun j => ?_
      obtain ⟨st, b, hst, he⟩ := kill_apply s.table pid j
      dsimp only [Kernel.next]
      rw [he]
      exact ⟨rfl, fun hj => ⟨hst.eq_iff.mpr hj, rfl⟩⟩
  | assignTickets c i pid tickets =>
      refine h.table rfl fun j => ?_
      obtain ⟨m, he⟩ := sysAssignTickets_apply s.table pid tickets j
      dsimp only [Kernel.next]
      rw [he]
      exact ⟨rfl, fun hj => ⟨hj, rfl⟩⟩
  | trapKill c i | sysOther c i =>
      refine h.table rfl fun j => ?_
      rcases eq_or_ne j i with rfl | hji
      · simp [Kernel.next]
      · simp [Kernel.next, hji]

end Xv6Lottery
