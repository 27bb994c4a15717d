import Xv6Lottery.Kernel.Accounts

/-!
Pids: who has them, and what a scan for one finds.

* `pid_discipline`: in every run with fewer than `2^31 - 1` allocations the pids in use are
  below the counter, the non-zero pids in the table are distinct, and no pid is given out
  twice.
* `Table.HasPid`, `Table.FirstWith`: some process has the pid; the slot at which a scan for
  the pid stops.
* `KillSound`, `AssignSound`: what `kill` and `sys_assign_tickets` should answer.
* `pid_lookup_iff`: they do so exactly when the scan does not stop at a free slot.
-/

namespace Xv6Lottery

open Procstate Library

variable {n : ℕ} {s : Kernel n} {ok : Kernel n → Act n → Prop} {tr : List (Event Slot)} {t : Table}

/-! ### The scans -/

/-- The first slot with the pid. -/
def Table.FirstWith (t : Table) (pid : ℤ) (j : Slot) : Prop :=
  (t j).pid = pid ∧ ∀ k < j, (t k).pid ≠ pid

/-- The scans stop at the first slot with the pid. -/
lemma findPid_eq_some_iff {pid : ℤ} {j : Slot} : findPid t pid = some j ↔ t.FirstWith pid j := by
  rw [findPid, find_slots_eq_some_iff]
  simp [Table.FirstWith]

/-! ### Pids in a run -/

/-- **Pid discipline.** In every run with fewer than `2^31 - 1` allocations, that of the first
process included: every slot in use has a pid between 1 and the counter, the non-zero pids of
the table are distinct, also those left in free slots, no pid is given out twice, and a scan
for a positive pid stops at the only slot that has it. -/
theorem pid_discipline (h : Run (Step ok) (boot n) tr s) (hfew : (allocations tr : ℤ) < intMax) :
    (∀ i, (s.table i).state ≠ unused → 1 ≤ (s.table i).pid ∧ (s.table i).pid < s.nextpid) ∧
    (∀ i j, (s.table i).pid ≠ 0 → (s.table i).pid = (s.table j).pid → i = j) ∧
    (pidsGiven tr).Nodup ∧
    ∀ pid j, 1 ≤ pid → (findPid s.table pid = some j ↔ (s.table j).pid = pid) := by
  obtain ⟨hfew', hfresh⟩ := fewAllocs_of_allocations hfew
  have hp : PidInv initSlot tr (abs s) := (pastInv_of_run h hfew').1
  have hinj : ∀ i j, (s.table i).pid ≠ 0 → (s.table i).pid = (s.table j).pid → i = j :=
    fun i j h0 hij => hp.inj i j hij h0
  refine ⟨fun i hi => ⟨hp.pos i hi, ?_⟩, hinj, ?_, fun pid j hpid => ?_⟩
  · calc (s.table i).pid < fresh tr := (hp.lt i).2
      _ = s.nextpid := (hp.counter hfresh).symm
  · rw [pidsGiven_eq (initial_boot n) (coherent_boot n).tree (Reachable.life h) hfew']
    refine List.nodup_range.map fun a b hab => ?_
    simpa using hab
  · rw [findPid_eq_some_iff]
    refine ⟨And.left, fun hj => ⟨hj, fun k hk hkp => ?_⟩⟩
    exact hk.ne (hinj k j (by omega) (hkp.trans hj.symm))

/-- Both processes fork at the same time. The child of the first one gets no stack. -/
def forksRun : List (Act 2) :=
  pairRun ++ ([.forkAlloc 0 0, .forkAlloc 1 1, .forkStack 1 1 3 true, .forkStack 0 0 2 false,
    .forkCopy 1 1 3 true, .forkFill 1 1 3, .forkPublish 1 1 3] : List (Act 2))

theorem pid_discipline_forksRun :
    (pidsGiven ((machine 2).trace (boot 2) forksRun)).Nodup ∧
    findPid ((machine 2).exec (boot 2) forksRun).table 4 = some 3 := by
  have hrun := Guarded.Allowed.run
    (by decide +kernel : (machine 2).Allowed AnyAct (boot 2) forksRun)
  obtain ⟨-, -, hgiven, hscan⟩ := pid_discipline hrun (by decide +kernel)
  exact ⟨hgiven, (hscan 4 3 (by norm_num)).mpr (by decide +kernel)⟩

/-! ### What a lookup answers -/

/-- Some process has the pid. -/
def Table.HasPid (t : Table) (pid : ℤ) : Prop := ∃ j, (t j).state ≠ unused ∧ (t j).pid = pid

/-- `kill(pid)` answers 0 if some process has the pid, and otherwise -1, leaving the table
alone. -/
structure KillSound (t : Table) (pid : ℤ) : Prop where
  zero_iff : (kill t pid).1 = 0 ↔ t.HasPid pid
  miss : ¬ t.HasPid pid → kill t pid = (-1, t)

/-- `sys_assign_tickets(pid, tickets)`, with any positive `tickets`, answers 0 if some process
has the pid, changing the tickets of such a process and nothing else, and otherwise -2, leaving
the table alone. -/
structure AssignSound (t : Table) (pid : ℤ) : Prop where
  zero_iff : ∀ tickets, IsInt tickets → 1 ≤ tickets →
    ((sysAssignTickets t pid tickets).1 = 0 ↔ t.HasPid pid)
  hit : ∀ tickets, IsInt tickets → 1 ≤ tickets → t.HasPid pid →
    ∃ j, (t j).state ≠ unused ∧ (t j).pid = pid ∧
      (sysAssignTickets t pid tickets).2 = Function.update t j { t j with tickets := tickets }
  miss : ∀ tickets, IsInt tickets → 1 ≤ tickets → ¬ t.HasPid pid →
    sysAssignTickets t pid tickets = (-2, t)

/-- A scan that finds nothing. -/
lemma not_hasPid_of_findPid {pid : ℤ} (h : findPid t pid = none) : ¬ t.HasPid pid :=
  fun ⟨j, _, hj⟩ => findPid_none h j hj

/-- `kill` is right unless the pid stands in free slots only. -/
lemma killSound_iff (t : Table) (pid : ℤ) :
    KillSound t pid ↔ ((∃ j, (t j).pid = pid) → t.HasPid pid) := by
  cases hf : findPid t pid with
  | none =>
      have hno := not_hasPid_of_findPid hf
      have hkill : kill t pid = (-1, t) := by rw [kill, hf]
      have hnone : ¬ ∃ j, (t j).pid = pid := not_exists.mpr (findPid_none hf)
      refine ⟨fun _ hex => absurd hex hnone, fun _ => ⟨?_, fun _ => hkill⟩⟩
      simp [hkill, hno]
  | some p =>
      have hkill : (kill t pid).1 = 0 := by rw [kill, hf]
      refine ⟨fun h _ => h.zero_iff.mp hkill, fun h => ?_⟩
      have hhas := h ⟨p, findPid_some hf⟩
      exact ⟨iff_of_true hkill hhas, fun hno => absurd hhas hno⟩

/-- `sys_assign_tickets` is right unless its scan stops at a free slot. -/
lemma assignSound_iff (t : Table) {pid : ℤ} (hpid : 1 ≤ pid) :
    AssignSound t pid ↔ ∀ j, t.FirstWith pid j → (t j).state ≠ unused := by
  have hgood : ∀ {tickets : ℤ}, 1 ≤ tickets → ¬(pid < 1 ∨ tickets < 1) := by omega
  cases hf : findPid t pid with
  | none =>
      have hno := not_hasPid_of_findPid hf
      have hmiss : ∀ tickets, 1 ≤ tickets → sysAssignTickets t pid tickets = (-2, t) :=
        fun tickets ht => by rw [sysAssignTickets, if_neg (hgood ht), hf]
      refine ⟨fun _ j hj => absurd hj.1 (findPid_none hf j), fun _ => ⟨fun tickets _ ht => ?_,
        fun _ _ _ hhas => absurd hhas hno, fun tickets _ ht _ => hmiss tickets ht⟩⟩
      simp [hmiss tickets ht, hno]
  | some p =>
      have hfirst := findPid_eq_some_iff.mp hf
      have hset : ∀ tickets, 1 ≤ tickets → sysAssignTickets t pid tickets =
          (0, Function.update t p { t p with tickets := tickets }) :=
        fun tickets ht => by rw [sysAssignTickets, if_neg (hgood ht), hf]
      refine ⟨fun h j hj hfree => ?_, fun h => ?_⟩
      · -- the scan stops at `j`, so with a new number of tickets the change is seen there
        obtain rfl : j = p := Option.some.inj ((findPid_eq_some_iff.mpr hj).symm.trans hf)
        obtain ⟨m, hint, hm, hne⟩ : ∃ m, IsInt m ∧ 1 ≤ m ∧ m ≠ (t j).tickets := by
          rcases eq_or_ne (t j).tickets 1 with h1 | h1
          · exact ⟨2, by decide, by decide, by simp [h1]⟩
          · exact ⟨1, by decide, by decide, h1.symm⟩
        have hhas := (h.zero_iff m hint hm).mp (by rw [hset m hm])
        obtain ⟨i, hi, -, htab⟩ := h.hit m hint hm hhas
        have hij : j ≠ i := by
          rintro rfl
          exact hi hfree
        have hj' := congrArg (fun t' : Table => (t' j).tickets) htab
        simp only [hset m hm, Function.update_self, Function.update_of_ne hij] at hj'
        exact hne hj'
      · have huse := h p hfirst
        have hhas : t.HasPid pid := ⟨p, huse, hfirst.1⟩
        exact ⟨fun tickets _ ht => by simp [hset tickets ht, hhas],
          fun tickets _ ht _ => ⟨p, huse, hfirst.1, by rw [hset tickets ht]⟩,
          fun _ _ _ hno => absurd hhas hno⟩

/-- Actions in which no `fork` gives a slot back. -/
def NoUndoAct (s : Kernel n) (a : Act n) : Prop := (s.event a).givesBack = false

instance (s : Kernel n) (a : Act n) : Decidable (NoUndoAct s a) :=
  inferInstanceAs (Decidable (_ = _))

/-- As long as no `fork` gives a slot back, free slots have no pid. -/
lemma Reachable.pid_of_free (h : Reachable NoUndoAct s) :
    ∀ j, (s.table j).state = unused → (s.table j).pid = 0 := by
  obtain ⟨tr, hrun⟩ := h
  refine Run.invariant (I := fun _ s => ∀ j, (s.table j).state = unused → (s.table j).pid = 0)
    (fun j hj => ?_) ?_ hrun
  · rcases boot_cases n j with ⟨-, he, -⟩ | ⟨-, he⟩
    · simp [he, initEntry] at hj
    · simp [he, zeroProc]
  · rintro tr e s₁ s₂ hrun₁ hinv ⟨a, he, hok, rfl, rfl⟩ j hj
    have hc : Coherent s₁ := Reachable.coherent ⟨tr, hrun₁⟩
    refine ((hc.lifeStep he).change j).pid_of_free (fun hev => ?_) (hinv j) hj
    rw [NoUndoAct, hev] at hok
    cases hok

/-- **Pid lookup.** `kill(pid)` answers for the processes exactly when the pid does not stand
in free slots only, and `sys_assign_tickets` exactly when its scan does not stop at a free
slot. This holds of every non-zero pid in every run in which no `fork` fails after it has taken
a slot. -/
theorem pid_lookup_iff (n : ℕ) :
    (∀ (t : Table) (pid : ℤ), KillSound t pid ↔ ((∃ j, (t j).pid = pid) → t.HasPid pid)) ∧
    (∀ (t : Table) (pid : ℤ), 1 ≤ pid →
      (AssignSound t pid ↔ ∀ j, t.FirstWith pid j → (t j).state ≠ unused)) ∧
    ∀ s : Kernel n, Reachable NoUndoAct s → ∀ pid : ℤ,
      (pid ≠ 0 → KillSound s.table pid) ∧ (1 ≤ pid → AssignSound s.table pid) := by
  refine ⟨killSound_iff, fun t pid => assignSound_iff t, fun s hs pid => ?_⟩
  have huse : ∀ j, pid ≠ 0 → (s.table j).pid = pid → (s.table j).state ≠ unused :=
    fun j h0 hj hfree => h0 (hj.symm.trans (hs.pid_of_free j hfree))
  refine ⟨fun h0 => ?_, fun h1 => ?_⟩
  · rw [killSound_iff]
    exact fun ⟨j, hj⟩ => ⟨j, huse j h0 hj, hj⟩
  · rw [assignSound_iff s.table h1]
    exact fun j hj => huse j (by omega) hj.1

theorem pid_lookup_iff_pairRun :
    KillSound ((machine 2).exec (boot 2) pairRun).table 2 ∧
    AssignSound ((machine 2).exec (boot 2) pairRun).table 2 := by
  have hs : Reachable NoUndoAct ((machine 2).exec (boot 2) pairRun) :=
    reachable_exec (by decide +kernel)
  obtain ⟨hkill, hassign⟩ := (pid_lookup_iff 2).2.2 _ hs 2
  exact ⟨hkill (by decide), hassign (by decide)⟩

/-- The first process forks, and `kalloc` finds no page for the stack of the child. -/
def staleRun : List (Act 1) :=
  [.schedAcquire 0, .schedPass 0, .forkret 0 0, .forkAlloc 0 0, .forkStack 0 0 1 false]

/-- Nobody has pid 2 then, nor has anybody pid 0, but `kill` finds both, and
`sys_assign_tickets` gives the free slot tickets. -/
theorem stale_pid_found : ∃ s : Kernel 1, Reachable AnyAct s ∧
    (∀ j, (s.table j).state ≠ unused → (s.table j).pid = 1) ∧
    (kill s.table 0).1 = 0 ∧ (kill s.table 2).1 = 0 ∧ (sysAssignTickets s.table 2 50).1 = 0 ∧
    (s.table 1).state = unused ∧ ((sysAssignTickets s.table 2 50).2 1).tickets = 50 :=
  ⟨_, reachable_exec (by decide +kernel : (machine 1).Allowed AnyAct (boot 1) staleRun),
    by decide +kernel⟩

end Xv6Lottery
