import Xv6Lottery.Kernel.Processes
import Xv6Lottery.Life.History

/-!
What a run of the kernel leaves behind: reaps and tick counts.

* `reaped_exactly_once`: a pid is returned by `wait()` at most once, after its exit, to
  the process that forked it or to `initproc`.
* `findIndexOfPid`, `printTestResult`: the user programs that read the listings of
  `sys_proc_info`.
* `tick_accounting`: **the difference of the ticks in two listings is the number of
  dispatches in between**, and `print_test_result` prints it for every child in both.
-/

namespace Xv6Lottery

open Procstate Library

variable {n : ℕ} {s : Kernel n} {ok : Kernel n → Act n → Prop} {tr : List (Event Slot)}

/-- The abstract state at boot. -/
lemma initial_boot (n : ℕ) : (abs (boot n)).Initial initSlot := by
  have he : (abs (boot n)).procs initSlot = initEntry := userinit_init.1
  refine ⟨rfl, by simp [he, initEntry], fun j hj => ?_⟩
  rcases boot_cases n j with ⟨hj', -⟩ | ⟨-, he⟩
  · exact absurd hj' hj
  · simp [abs, Table.entries, he, zeroProc]

/-- Pids and the past in a run of the kernel. -/
lemma pastInv_of_run (h : Run (Step ok) (boot n) tr s) (hfew : FewAllocs tr) :
    PidInv initSlot tr (abs s) ∧ PastInv initSlot tr (abs s) := by
  obtain ⟨hp, hpast, -⟩ := PastInv.run (initial_boot n) (coherent_boot n).tree
    (Reachable.life h) hfew
  exact ⟨hp, hpast⟩

/-! ### Reaping -/

/-- **Exactly-once reaping.** In every run with fewer than `2^31 - 1` allocations, `wait()`
returns a pid at most once. When it returns `q` to `P`, then `q` had exited, and `P` forked
it, or `P` is `initproc`, with pid 1, and the process that forked `q` had exited. The slot
becomes free in that step, and no slot becomes free otherwise but by a failed fork. -/
theorem reaped_exactly_once (h : Run (Step ok) (boot n) tr s) (hfew : FewAllocs tr) :
    (∀ q, tr.countP (Event.reaps q) ≤ 1) ∧
    (∀ tr₁ P q z tr₂, tr = tr₁ ++ .reaped P q z :: tr₂ → .exited z q ∈ tr₁ ∧
      (.forked P q z ∈ tr₁ ∨ P = 1 ∧ ∃ P' k, .forked P' q z ∈ tr₁ ∧ .exited k P' ∈ tr₁)) ∧
    (s.initproc = some initSlot ∧ (s.table initSlot).pid = 1) ∧
    ∀ e s', Step ok s e s' →
      (∀ P q z, e = .reaped P q z → (s.table z).state = zombie ∧ (s.table z).pid = q ∧
        (s'.table z).state = unused) ∧
      ∀ z, (s.table z).state ≠ unused → (s'.table z).state = unused →
        (∃ P, e = .reaped P (s.table z).pid z) ∨ e = .forkFailed (some z) := by
  obtain ⟨hp, hpast⟩ := pastInv_of_run h hfew
  have hc : Coherent s := Reachable.coherent ⟨tr, h⟩
  refine ⟨hpast.once, ?_, ⟨hc.role.init, hp.init⟩, ?_⟩
  · rintro tr₁ P q z tr₂ rfl
    obtain ⟨m, hrun₁, hrun₂⟩ := h.split
    obtain ⟨m', ⟨a, he, -, hev, rfl⟩, -⟩ := hrun₂.uncons
    obtain ⟨hp, hpast⟩ := pastInv_of_run hrun₁ hfew.init
    have hc : Coherent m := Reachable.coherent ⟨tr₁, hrun₁⟩
    have hs := hc.lifeStep he
    rw [show m.event a = .reaped P q z from hev] at hs
    obtain ⟨hz, hzq, -, i, hpar, hiP⟩ := hs.of_reaped
    have hne : z ≠ initSlot := by
      rintro rfl
      exact hc.tree.init.1.ne_zombie hz
    obtain ⟨i', hpar', hforked⟩ := hpast.forked z (Or.inr hz) hne
    obtain rfl := Option.some.inj (hpar.symm.trans hpar')
    have hexit := hpast.exited z hz
    rw [hzq] at hexit hforked
    refine ⟨hexit, ?_⟩
    rcases hforked with hf | ⟨rfl, P', k, hf, hx⟩
    · exact Or.inl (hiP ▸ hf)
    · exact Or.inr ⟨hiP.symm.trans hp.init, P', k, hf, hx⟩
  · rintro e s' ⟨a, he, -, rfl, rfl⟩
    have hs := hc.lifeStep he
    refine ⟨fun P q z hev => ?_, fun z hz hz' => ?_⟩
    · rw [show s.event a = .reaped P q z from hev] at hs
      obtain ⟨h1, h2, h3, -⟩ := hs.of_reaped
      exact ⟨h1, h2, h3⟩
    · rcases (hs.change z).freed hz hz' with ⟨-, hev⟩ | ⟨-, P, hev⟩
      · exact Or.inr hev
      · exact Or.inl ⟨P, hev⟩

/-- While the first process waits, the child exits on CPU 1; it is then reaped on CPU 0. -/
def reapRun : List (Act 2) :=
  waitRun ++ ([.exitCall 1 1] : List (Act 2)) ++ (List.range 33).map (.exitClose 1 1) ++
    ([.exitCwd 1 1, .exitSched 1 1, .schedBack 1, .schedRelease 1, .schedAcquire 0, .schedPass 0,
      .waitWake 0 0, .waitScan 0 0] : List (Act 2))

theorem child_reaped_once : ((machine 2).trace (boot 2) reapRun).countP (Event.reaps 2) = 1 :=
  le_antisymm ((reaped_exactly_once (Guarded.Allowed.run
    (by decide +kernel : (machine 2).Allowed AnyAct (boot 2) reapRun)) (by decide +kernel)).1 2)
    (by decide +kernel)

/-! ### Ticks -/

/-- `find_index_of_pid`, with `none` for -1. -/
def findIndexOfPid (information : ProcessesInfo) (pid : ℤ) : Option ℕ :=
  (List.range information.numProcesses).find? fun i => information.pids i = pid

/-- What `print_test_result` prints for a child. -/
inductive ResultLine where
  | row (child : ℕ) (pid ticks tickets : ℤ)
  | notFound (pid : ℤ)

/-- `print_test_result`, as the list of its lines after the heading. -/
def printTestResult (before after : ProcessesInfo) (childPids : List ℤ) : List ResultLine :=
  childPids.zipIdx.map fun (pid, i) =>
    match findIndexOfPid before pid, findIndexOfPid after pid with
    | some index1, some index2 =>
        .row (i + 1) pid (wrapInt (after.ticks index2 - before.ticks index1)) (after.tickets index2)
    | _, _ => .notFound pid

/-- Every entry of the listing is that of a slot in use. -/
def Listed (t : Table) (info : ProcessesInfo) : Prop :=
  ∀ idx < info.numProcesses, ∃ j, (t j).state ≠ unused ∧ info.pids idx = (t j).pid ∧
    info.ticks idx = (t j).ticks ∧ info.tickets idx = (t j).tickets

/-- The loop of `sys_proc_info` appends the entries of the slots in use. -/
lemma procInfoLoop_listed {t : Table} (l : List Slot) {info : ProcessesInfo}
    (h : Listed t info) : Listed t (procInfoLoop t l info) := by
  induction l generalizing info with
  | nil => exact h
  | cons p ps ih =>
      rw [procInfoLoop]
      split_ifs with hp
      · exact ih h
      · refine ih fun idx hidx => ?_
        rcases Nat.lt_succ_iff_lt_or_eq.mp hidx with hlt | rfl
        · obtain ⟨j, hj⟩ := h idx hlt
          exact ⟨j, by simpa [hlt.ne] using hj⟩
        · exact ⟨p, by simp [hp]⟩

lemma sysProcInfo_listed (t : Table) (info : ProcessesInfo) : Listed t (sysProcInfo t info) :=
  procInfoLoop_listed slots fun idx hidx => absurd hidx (Nat.not_lt_zero idx)

/-- The lookup finds every pid that is listed, and finds that pid. -/
lemma findIndexOfPid_some {info : ProcessesInfo} {pid : ℤ} {idx : ℕ}
    (h : findIndexOfPid info pid = some idx) : idx < info.numProcesses ∧ info.pids idx = pid :=
  ⟨List.mem_range.mp (List.mem_of_find?_eq_some h), by simpa using List.find?_some h⟩

lemma exists_findIndexOfPid {info : ProcessesInfo} {pid : ℤ}
    (h : ∃ i < info.numProcesses, info.pids i = pid) :
    ∃ idx, findIndexOfPid info pid = some idx := by
  obtain ⟨i, hi, hp⟩ := h
  rw [← Option.isSome_iff_exists, findIndexOfPid, List.find?_isSome]
  exact ⟨i, List.mem_range.mpr hi, by simpa using hp⟩

/-- The line for a child that both listings have. -/
lemma printTestResult_getElem? {before after : ProcessesInfo} {childPids : List ℤ} {k : ℕ} {pid : ℤ}
    {index1 index2 : ℕ} (hk : childPids[k]? = some pid)
    (h1 : findIndexOfPid before pid = some index1) (h2 : findIndexOfPid after pid = some index2) :
    (printTestResult before after childPids)[k]? =
      some (.row (k + 1) pid (wrapInt (after.ticks index2 - before.ticks index1))
        (after.tickets index2)) := by
  simp [printTestResult, List.getElem?_zipIdx, hk, h1, h2]

/-- A snapshot is the listing of the table where it is taken. -/
lemma listed_of_snapshot {a : Act n} {info : ProcessesInfo} (h : s.event a = .snapshot info) :
    Listed s.table info := by
  obtain ⟨-, -, info₀, -, rfl⟩ : s.Origin a (.snapshot info) := h ▸ s.origin_event a
  exact sysProcInfo_listed s.table info₀

/-- The ticks that a snapshot lists for a pid are the dispatches of the process so far. -/
lemma snapshot_ticks (h : Run (Step ok) (boot n) tr s) (hfew : FewAllocs tr)
    (hticks : (tr.countP Event.isDispatch : ℤ) < intMax) {info : ProcessesInfo}
    (hinfo : Listed s.table info) {pid : ℤ} {idx : ℕ} (hidx : findIndexOfPid info pid = some idx) :
    info.ticks idx = tr.countP (Event.runs pid) := by
  obtain ⟨hlt, hpid⟩ := findIndexOfPid_some hidx
  obtain ⟨j, hj, hp, ht, -⟩ := hinfo idx hlt
  have hinv := TickInv.run (initial_boot n) (coherent_boot n).tree (Reachable.life h) hfew hticks j
    hj
  rw [ht, ← hpid, hp]
  exact hinv

/-- **Tick accounting.** In every run with fewer than `2^31 - 1` allocations and dispatches,
and for any two snapshots taken in it, `find_index_of_pid` finds every pid that both list,
and the difference of its ticks is the number of its dispatches between the snapshots; this
is the number that `print_test_result` prints in the line of each child with this pid, and it
prints no other. -/
theorem tick_accounting {tr₁ tr₂ tr₃ : List (Event Slot)} {before after : ProcessesInfo}
    (h : Run (Step ok) (boot n) (tr₁ ++ .snapshot before :: (tr₂ ++ .snapshot after :: tr₃)) s)
    (hfew : FewAllocs (tr₁ ++ .snapshot before :: (tr₂ ++ .snapshot after :: tr₃)))
    (hticks : ((tr₁ ++ .snapshot before :: (tr₂ ++ .snapshot after :: tr₃)).countP
      Event.isDispatch : ℤ) < intMax) :
    (∀ pid, (∃ i < before.numProcesses, before.pids i = pid) →
      (∃ i < after.numProcesses, after.pids i = pid) →
      ∃ index1 index2, findIndexOfPid before pid = some index1 ∧
        findIndexOfPid after pid = some index2 ∧
        after.ticks index2 - before.ticks index1 = tr₂.countP (Event.runs pid) ∧
        ∀ (childPids : List ℤ) (k : ℕ), childPids[k]? = some pid →
          (printTestResult before after childPids)[k]? =
            some (.row (k + 1) pid (tr₂.countP (Event.runs pid)) (after.tickets index2))) ∧
    ∀ (childPids : List ℤ) (child : ℕ) (pid ticks tickets : ℤ),
      .row child pid ticks tickets ∈ printTestResult before after childPids →
        ticks = tr₂.countP (Event.runs pid) := by
  -- the states in which the snapshots are taken
  have hsplit : tr₁ ++ .snapshot before :: (tr₂ ++ .snapshot after :: tr₃) =
      (tr₁ ++ .snapshot before :: tr₂) ++ .snapshot after :: tr₃ := by simp
  rw [hsplit] at h hfew hticks
  obtain ⟨m₂, hrun₂, hrest⟩ := h.split
  obtain ⟨-, ⟨a₂, -, -, hev₂, -⟩, -⟩ := hrest.uncons
  obtain ⟨m₁, hrun₁, hrest₁⟩ := hrun₂.split
  obtain ⟨-, ⟨a₁, -, -, hev₁, -⟩, -⟩ := hrest₁.uncons
  have hdiff : ∀ {pid index1 index2}, findIndexOfPid before pid = some index1 →
      findIndexOfPid after pid = some index2 →
      after.ticks index2 - before.ticks index1 = tr₂.countP (Event.runs pid) := by
    intro pid index1 index2 h1 h2
    rw [List.countP_append] at hticks
    have ht₂ := snapshot_ticks hrun₂ hfew.init (by omega) (listed_of_snapshot hev₂) h2
    rw [List.countP_append] at hticks
    have ht₁ := snapshot_ticks hrun₁ hfew.init.init (by omega) (listed_of_snapshot hev₁) h1
    calc after.ticks index2 - before.ticks index1
        = (tr₁ ++ .snapshot before :: tr₂).countP (Event.runs pid) -
            tr₁.countP (Event.runs pid) := by
          rw [ht₁, ht₂]
      _ = tr₂.countP (Event.runs pid) := by simp [Event.runs]
  -- there are few dispatches, so that the subtraction does not overflow
  have hint : ∀ pid, wrapInt (tr₂.countP (Event.runs pid)) = tr₂.countP (Event.runs pid) := by
    intro pid
    have hle := countP_runs_le pid tr₂
    simp only [List.countP_append, List.countP_cons] at hticks
    exact wrapInt_of_isInt ⟨by omega, by omega⟩
  refine ⟨fun pid hb ha => ?_, fun childPids child pid ticks tickets hrow => ?_⟩
  · obtain ⟨index1, h1⟩ := exists_findIndexOfPid hb
    obtain ⟨index2, h2⟩ := exists_findIndexOfPid ha
    refine ⟨index1, index2, h1, h2, hdiff h1 h2, fun childPids k hk => ?_⟩
    rw [printTestResult_getElem? hk h1 h2, hdiff h1 h2, hint]
  · obtain ⟨⟨pid', i⟩, -, hline⟩ := List.mem_map.mp hrow
    dsimp only at hline
    split at hline
    · rename_i index1 index2 h1 h2
      obtain ⟨-, rfl, rfl, -⟩ := ResultLine.row.inj hline
      rw [hdiff h1 h2, hint]
    · cases hline

/-- A call of `sys_proc_info` as a step. -/
lemma step_procInfo {c : Fin n} {i : Slot} {info : ProcessesInfo}
    (he : s.Enabled (.procInfo c i info)) (hok : ok s (.procInfo c i info)) :
    Step ok s (.snapshot (sysProcInfo s.table info)) s :=
  ⟨.procInfo c i info, he, hok, rfl, rfl⟩

/-- An empty buffer. -/
def noInfo : ProcessesInfo := ⟨0, fun _ => 0, fun _ => 0, fun _ => 0⟩

/-- Two processes in user code, and again after the second one has yielded and been dispatched
by its CPU. -/
def pairState : Kernel 2 := (machine 2).exec (boot 2) pairRun

def againRun : List (Act 2) :=
  [.yield 1 1 .user, .schedBack 1, .schedRelease 1, .schedAcquire 1, .schedPass 1,
    .yieldReturn 1 1 .user]

def againState : Kernel 2 := (machine 2).exec pairState againRun

theorem tick_accounting_againRun : ∃ index1 index2,
    findIndexOfPid (sysProcInfo pairState.table noInfo) 2 = some index1 ∧
    findIndexOfPid (sysProcInfo againState.table noInfo) 2 = some index2 ∧
    (sysProcInfo againState.table noInfo).ticks index2 -
      (sysProcInfo pairState.table noInfo).ticks index1 = 1 ∧
    (printTestResult (sysProcInfo pairState.table noInfo) (sysProcInfo againState.table noInfo)
      [7, 2])[1]? = some (.row 2 2 1 ((sysProcInfo againState.table noInfo).tickets index2)) := by
  have hrun₁ : Run (Step AnyAct) (boot 2) _ pairState := Guarded.Allowed.run
    (by decide +kernel : (machine 2).Allowed AnyAct (boot 2) pairRun)
  have hrun₂ : Run (Step AnyAct) pairState _ againState := Guarded.Allowed.run
    (by decide +kernel : (machine 2).Allowed AnyAct pairState againRun)
  have hsnap₁ : Step AnyAct pairState (.snapshot (sysProcInfo pairState.table noInfo)) pairState :=
    step_procInfo (by decide +kernel : pairState.Enabled (.procInfo 0 0 noInfo)) trivial
  have hsnap₂ :
      Step AnyAct againState (.snapshot (sysProcInfo againState.table noInfo)) againState :=
    step_procInfo (by decide +kernel : againState.Enabled (.procInfo 0 0 noInfo)) trivial
  have hrun := hrun₁.trans (.cons hsnap₁ (hrun₂.trans (.single hsnap₂)))
  have hone : ((machine 2).trace pairState againRun).countP (Event.runs 2) = 1 := by
    decide +kernel
  obtain ⟨index1, index2, h1, h2, hdiff, hprint⟩ := (tick_accounting hrun (by decide +kernel)
    (by decide +kernel)).1 2 (by decide +kernel) (by decide +kernel)
  rw [hone] at hdiff hprint
  exact ⟨index1, index2, h1, h2, hdiff, hprint [7, 2] 1 rfl⟩

end Xv6Lottery
