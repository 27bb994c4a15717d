import Xv6Lottery.User.Fan
import Xv6Lottery.User.Nested

/-!
What the helpers of `sched_test_utils.c` tell their caller when a call fails in a process that
they have created.

The caller learns of these processes through a pipe only. It does not look at what `read` returns,
so that a pid that never comes leaves its place in the array as it was.

* `Helper.outcome`: how a run ends, for both helpers.
* `reported_iff_not_harmed`: the pids are right if and only if no failure has kept a process from
  being created.
-/

namespace Xv6Lottery

open Library

variable {n : ℕ} {childPids tickets arr : IntArray} {caller pid : ℤ} {tr : List UserEvent}
  {s : UserSys}

/-- The caller is one of the processes. -/
lemma caller_mem_pids {h : Helper}
    (hrun : Run (userMachine.Step AnyOutcome) (h.start caller childPids tickets n) tr s) :
    caller ∈ s.pids := by
  refine Run.invariant (I := fun _ s => caller ∈ s.pids) (List.mem_singleton_self caller) ?_ hrun
  intro tr s e s' _ ih hstep
  obtain ⟨pid, o, -, -, hact⟩ := exists_act_of_step hstep
  exact (Sys.act_event hact).2 ih

/-- The ways in which a call of a helper can return. -/
lemma Helper.outcome (h : Helper) (hn : 1 ≤ n)
    (hrun : Run (userMachine.Step AnyOutcome) (h.start caller childPids tickets n) tr s)
    (hret : s.prog caller = .ret (arr, pid)) :
    (¬ Harmed h n caller tr ∧ (Reported n arr tr ∨ GaveUp caller tr s)) ∨
      (Harmed h n caller tr ∧ Stunted n tr s) := by
  cases h with
  | more =>
      exact (harmless_run (.start caller) (Fan.Fanned.act hn) hrun).imp_left
        fun hgood => hgood.imp_right fun hI => hI.imp_left fun hfan => hfan.returned hret
  | nested =>
      exact (harmless_run (.start caller) (Nested.Chained.act hn) hrun).imp_left
        fun hgood => hgood.imp_right fun hI => hI.imp_left fun hchain => hchain.returned hn hret

/-- **When the pids are right.** In every run in which a helper returns, whatever fails and in
whatever order the processes move: a positive pid comes with an array of `n` different processes
that the call has created if and only if no process it has created was kept from creating the
others. -/
theorem reported_iff_not_harmed (h : Helper) (hn : 1 ≤ n)
    (hrun : Run (userMachine.Step AnyOutcome) (h.start caller childPids tickets n) tr s)
    (hret : s.prog caller = .ret (arr, pid)) :
    (0 < pid → Reported n arr tr) ↔ ¬ Harmed h n caller tr := by
  have hmem := caller_mem_pids hrun
  rcases h.outcome hn hrun hret with ⟨hunharmed, hrep | hup⟩ | ⟨hharmed, hstunted⟩
  · exact iff_of_true (fun _ => hrep) hunharmed
  · -- the caller itself has failed, and says so
    have hfree := hup.barren caller hmem
    rw [hret] at hfree
    cases hfree with
    | ret hle => exact iff_of_true (fun hpos => absurd hpos (not_lt.mpr hle)) hunharmed
  · have hfree := hstunted.1 caller hmem
    rw [hret] at hfree
    cases hfree with
    | ret hpos =>
        exact iff_of_false (fun hrep => not_reported_of_length_lt hstunted.2 (hrep hpos))
          (not_not.mpr hharmed)

/-- Process 5 about to create two processes. Both entries of its array are 1. -/
def pairStart (h : Helper) (tickets : IntArray) : UserSys := h.start 5 (fun _ => 1) tickets 2

/-- Process 7, which has no other to create, fails to set its tickets. -/
def leafFails : List (ℤ × Outcome) :=
  [(5, .go), (5, .child 6), (6, .go), (6, .go), (6, .answers 0), (6, .child 7), (7, .go),
    (7, .answers (-1)), (6, .go), (5, .go), (5, .go)]

theorem reported_of_leafFails :
    ∃ tr s arr, Run (userMachine.Step AnyOutcome) (pairStart .more fun i => 1000 + i) tr s ∧
      s.prog 5 = .ret (arr, 6) ∧ (∃ e ∈ tr, Failure e) ∧ ¬ Harmed .more 2 5 tr := by
  have hrun := Guarded.Allowed.run (by decide +kernel :
    userMachine.Allowed AnyOutcome (pairStart .more fun i => 1000 + i) leafFails)
  obtain ⟨arr, hret, hcreated, hne⟩ :
      ∃ arr, (userMachine.exec (pairStart .more fun i => 1000 + i) leafFails).prog 5 =
          .ret (arr, 6) ∧
        (∀ i < 2, arr i ∈ created
          (userMachine.trace (pairStart .more fun i => 1000 + i) leafFails)) ∧
        ∀ i < 2, ∀ j < 2, arr i = arr j → i = j :=
    ⟨_, rfl, by decide +kernel, by decide +kernel⟩
  exact ⟨_, _, arr, hrun, hret, by decide +kernel,
    (reported_iff_not_harmed .more (by decide) hrun hret).mp fun _ => ⟨hcreated, hne⟩⟩

/-- Process 6 fails to set its tickets, and ends before it has created process 7. -/
def makerFails : List (ℤ × Outcome) :=
  [(5, .go), (5, .child 6), (6, .go), (6, .go), (6, .answers (-1)), (6, .answers 0), (6, .go),
    (5, .go), (5, .go)]

/-- The helper returns the pid 6, and hands out 1 as the pid of the second process. -/
def HandsOutStale (h : Helper) : Prop :=
  ∃ tr s arr, Run (userMachine.Step AnyOutcome) (pairStart h fun _ => 0) tr s ∧
    s.prog 5 = .ret (arr, 6) ∧ arr 1 = 1 ∧ ¬ Reported 2 arr tr

lemma handsOutStale (h : Helper) : HandsOutStale h := by
  have hrun := Guarded.Allowed.run (by cases h <;> decide +kernel :
    userMachine.Allowed AnyOutcome (pairStart h fun _ => 0) makerFails)
  obtain ⟨arr, hret, harr⟩ :
      ∃ arr, (userMachine.exec (pairStart h fun _ => 0) makerFails).prog 5 = .ret (arr, 6) ∧
        arr 1 = 1 := by
    cases h with
    | more => exact ⟨_, rfl, by decide +kernel⟩
    | nested => exact ⟨_, rfl, by decide +kernel⟩
  have hnew : 1 ∉ created (userMachine.trace (pairStart h fun _ => 0) makerFails) := by
    cases h <;> decide +kernel
  exact ⟨_, _, arr, hrun, hret, harr, fun hrep => hnew (harr ▸ hrep.created 1 (by decide))⟩

theorem handsOutStale_both : HandsOutStale .more ∧ HandsOutStale .nested :=
  ⟨handsOutStale .more, handsOutStale .nested⟩

end Xv6Lottery
