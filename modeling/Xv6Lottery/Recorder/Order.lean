import Xv6Lottery.Life.Data

/-!
The recorder of the scheduling order, `proc_sched` of a build with `SCHED_TEST`.

* `Recorder`, `record`, `changeSchedorderFlag`: the record and the code that writes it, in
  `scheduler` and in `sys_change_schedorder_flag`.
* `Call`, `Recorder.printed`, `Recorder.after`: the lines printed by a sequence of dispatches
  and flag changes, and the record it leaves. The lock makes each of them atomic.
* `runs`: the lines in terms of the pids dispatched, while the flag is set.
* `session_exact_iff`: the lines printed between a start and the next stop spell out the pids
  dispatched between them only if there are none. The run in progress at the stop is printed
  when another process is dispatched in a later session.
-/

namespace Xv6Lottery

/-- `struct proc_sched_test` without its lock. -/
structure Recorder where
  pid : ℤ
  ticks : ℤ
  startflag : ℤ
  deriving DecidableEq, Repr

namespace Recorder

/-- `proc_sched = {0, 0, 0}` -/
def init : Recorder := ⟨0, 0, 0⟩

/-- What `scheduler` does with `proc_sched` when it dispatches a process with pid `p`: the
line printed, if any, and the new record. -/
def record (r : Recorder) (p : ℤ) : List (ℤ × ℤ) × Recorder :=
  if r.startflag = 1 then
    if r.pid = 0 then ([], { r with pid := p, ticks := incInt r.ticks })
    else if p = r.pid then ([], { r with ticks := incInt r.ticks })
    else ([(r.pid, r.ticks)], { r with pid := p, ticks := 1 })
  else ([], r)

/-- `sys_change_schedorder_flag`, with the answer of `argint`: the result and the new record. -/
def changeSchedorderFlag (r : Recorder) : Option ℤ → ℤ × Recorder
  | none => (-1, r)
  | some flag => if flag ≠ 0 ∧ flag ≠ 1 then (-1, r) else (0, { r with startflag := flag })

end Recorder

/-- What happens to the recorder. -/
inductive Call
  /-- `scheduler` dispatches a process with this pid -/
  | dispatch (pid : ℤ)
  /-- `sys_change_schedorder_flag` is called, and `argint` reads this -/
  | changeFlag (arg : Option ℤ)
  deriving DecidableEq, Repr

/-- The pids dispatched. -/
def dispatched : List Call → List ℤ
  | [] => []
  | .dispatch p :: cs => p :: dispatched cs
  | .changeFlag _ :: cs => dispatched cs

lemma dispatched_append (cs ds : List Call) :
    dispatched (cs ++ ds) = dispatched cs ++ dispatched ds := by
  induction cs with
  | nil => rfl
  | cons c cs ih => cases c <;> simp [dispatched, ih]

namespace Recorder

/-- The lines printed by one call, and the new record. -/
def step (r : Recorder) : Call → List (ℤ × ℤ) × Recorder
  | .dispatch p => r.record p
  | .changeFlag arg => ([], (r.changeSchedorderFlag arg).2)

/-- The lines printed by a sequence of calls. -/
def printed (r : Recorder) : List Call → List (ℤ × ℤ)
  | [] => []
  | c :: cs => (r.step c).1 ++ (r.step c).2.printed cs

/-- The record after a sequence of calls. -/
def after (r : Recorder) : List Call → Recorder
  | [] => r
  | c :: cs => (r.step c).2.after cs

lemma printed_append (r : Recorder) (cs ds : List Call) :
    r.printed (cs ++ ds) = r.printed cs ++ (r.after cs).printed ds := by
  induction cs generalizing r with
  | nil => rfl
  | cons c cs ih => simp [printed, after, ih]

end Recorder

/-! ### The lines as runs -/

/-- The lines spelled out: each pid as often as its line says. -/
def expand (lines : List (ℤ × ℤ)) : List ℤ := lines.flatMap fun l => List.replicate l.2.toNat l.1

@[simp] lemma expand_nil : expand [] = [] := rfl

@[simp] lemma expand_cons (p t : ℤ) (lines : List (ℤ × ℤ)) :
    expand ((p, t) :: lines) = List.replicate t.toNat p ++ expand lines := rfl

/-- The lines that a recorder with the pair `(p, t)` pending prints for the pids dispatched. -/
def runs (p t : ℤ) : List ℤ → List (ℤ × ℤ)
  | [] => []
  | d :: ds =>
      if p = 0 then runs d (incInt t) ds
      else if d = p then runs p (incInt t) ds
      else (p, t) :: runs d 1 ds

/-- While the flag is set, the lines depend on the pids dispatched alone. -/
lemma Recorder.printed_eq_runs {r : Recorder} (hr : r.startflag = 1) {cs : List Call}
    (hcs : .changeFlag (some 0) ∉ cs) : r.printed cs = runs r.pid r.ticks (dispatched cs) := by
  induction cs generalizing r with
  | nil => rfl
  | cons c cs ih =>
      obtain ⟨hc, hrest⟩ := List.ne_and_not_mem_of_not_mem_cons hcs
      cases c with
      | dispatch p =>
          simp only [printed, step, record, hr, if_true, dispatched, runs]
          split_ifs with h0 hp
          · exact ih rfl hrest
          · exact ih rfl hrest
          · exact congrArg _ (ih rfl hrest)
      | changeFlag arg =>
          -- a call that does not stop the session leaves the record as it is
          have hstep : (r.changeSchedorderFlag arg).2 = r := by
            rcases arg with _ | flag
            · rfl
            · have hflag : flag ≠ 0 := fun h => hc (by rw [h])
              by_cases h1 : flag = 1
              · simp [changeSchedorderFlag, h1, ← hr]
              · simp [changeSchedorderFlag, hflag, h1]
          simp only [printed, step, hstep, dispatched]
          exact ih hr hrest

/-- A count grows by at most one at a time. -/
lemma toNat_incInt_le (t : ℤ) : (incInt t).toNat ≤ t.toNat + 1 := by
  unfold incInt
  split_ifs <;> omega

/-- The lines spell out at most the pending run and the pids dispatched. -/
lemma length_expand_runs_le (p t : ℤ) (ds : List ℤ) :
    (expand (runs p t ds)).length ≤ t.toNat + ds.length := by
  induction ds generalizing p t with
  | nil => simp [runs]
  | cons d ds ih =>
      have hinc := toNat_incInt_le t
      simp only [runs, List.length_cons]
      split_ifs with h0 hd
      · have := ih d (incInt t)
        omega
      · have := ih p (incInt t)
        omega
      · have := ih d 1
        simp only [expand_cons, List.length_append, List.length_replicate]
        omega

/-- No line has pid 0, which stands for an empty record. -/
lemma zero_notMem_expand_runs (p t : ℤ) (ds : List ℤ) : 0 ∉ expand (runs p t ds) := by
  induction ds generalizing p t with
  | nil => simp [runs]
  | cons d ds ih =>
      simp only [runs]
      split_ifs with h0 hd
      · exact ih _ _
      · exact ih _ _
      · have h0' : 0 ≠ p := Ne.symm h0
        simp [List.mem_replicate, h0', ih]

/-- The lines lag behind: with `p` pending they never spell out `p` some times and then all
that is dispatched, unless this is nothing at all. -/
lemma eq_nil_of_expand_runs {p t : ℤ} {ds : List ℤ} {k : ℕ} (hp : p ≠ 0) (hds : 0 ∉ ds)
    (h : expand (runs p t ds) = List.replicate k p ++ ds) : k = 0 ∧ ds = [] := by
  induction ds generalizing p t k with
  | nil => exact ⟨by simpa [runs] using h.symm, rfl⟩
  | cons d ds ih =>
      obtain ⟨hd0, hds⟩ := List.ne_and_not_mem_of_not_mem_cons hds
      simp only [runs, if_neg hp] at h
      split_ifs at h with hd
      · -- one more of the pending pid
        subst hd
        have hk : List.replicate k d ++ d :: ds = List.replicate (k + 1) d ++ ds := by
          simp [List.replicate_succ']
        exact absurd (ih hp hds (h.trans hk)).1 (Nat.succ_ne_zero k)
      · -- the pending run is printed: it has to be the `k` copies of `p`, and then `d` lags
        exfalso
        have hlen := length_expand_runs_le d 1 ds
        rcases lt_trichotomy t.toNat k with hlt | heq | hgt
        · have := congrArg List.length h
          simp at this hlen
          omega
        · rw [expand_cons, heq, List.append_cancel_left_eq] at h
          exact absurd (ih (Ne.symm hd0) hds (k := 1) h).1 one_ne_zero
        · obtain ⟨m, hm⟩ : ∃ m, t.toNat = k + (m + 1) := ⟨t.toNat - k - 1, by omega⟩
          rw [expand_cons, hm, List.replicate_add, List.append_assoc,
            List.append_cancel_left_eq, List.replicate_succ, List.cons_append] at h
          exact hd (List.cons.inj h).1.symm

/-- Whatever is pending, the lines spell out the pids dispatched only if there are none. -/
lemma expand_runs_eq_iff (p t : ℤ) (ds : List ℤ) : expand (runs p t ds) = ds ↔ ds = [] := by
  refine ⟨fun h => ?_, fun h => by simp [h, runs]⟩
  have h0 : 0 ∉ ds := h ▸ zero_notMem_expand_runs p t ds
  by_cases hp : p = 0
  · cases ds with
    | nil => rfl
    | cons d ds =>
        obtain ⟨hd, hds⟩ := List.ne_and_not_mem_of_not_mem_cons h0
        simp only [runs, if_pos hp] at h
        exact absurd (eq_nil_of_expand_runs (k := 1) (Ne.symm hd) hds h).1 one_ne_zero
  · exact (eq_nil_of_expand_runs (k := 0) hp h0 h).2

/-! ### Sessions -/

/-- The calls of a session: a start, what happens until the next stop, and that stop. -/
def session (mid : List Call) : List Call :=
  .changeFlag (some 1) :: mid ++ [.changeFlag (some 0)]

lemma dispatched_session (mid : List Call) : dispatched (session mid) = dispatched mid := by
  simp [session, dispatched, dispatched_append]

/-- The lines of a session continue the run that the recorder has pending. -/
lemma Recorder.printed_session (r : Recorder) {mid : List Call}
    (hmid : .changeFlag (some 0) ∉ mid) :
    r.printed (session mid) = runs r.pid r.ticks (dispatched mid) := by
  calc r.printed (session mid)
      = ({ r with startflag := 1 } : Recorder).printed (mid ++ [.changeFlag (some 0)]) := rfl
    _ = ({ r with startflag := 1 } : Recorder).printed mid := by
        rw [printed_append]
        exact List.append_nil _
    _ = runs r.pid r.ticks (dispatched mid) := printed_eq_runs rfl hmid

/-- **Sessions.** Whatever has happened before a session, the lines printed during it spell out
the pids dispatched during it exactly when no process is dispatched during it. -/
theorem session_exact_iff (before mid : List Call) (hmid : .changeFlag (some 0) ∉ mid) :
    expand ((Recorder.init.after before).printed (session mid)) = dispatched (session mid) ↔
      dispatched (session mid) = [] := by
  rw [Recorder.printed_session _ hmid, dispatched_session]
  exact expand_runs_eq_iff _ _ _

/-- After a session with two processes, a session with a dispatch is not spelt out, and one
without a dispatch is. -/
theorem session_exact_iff_after_session :
    expand ((Recorder.init.after (session [.dispatch 3, .dispatch 4])).printed
        (session [.dispatch 4, .changeFlag none, .dispatch 5])) ≠
      dispatched (session [.dispatch 4, .changeFlag none, .dispatch 5]) ∧
    expand ((Recorder.init.after (session [.dispatch 3, .dispatch 4])).printed
      (session [.changeFlag none])) = [] := by
  refine ⟨fun h => ?_, (session_exact_iff _ [.changeFlag none] (by decide)).mpr rfl⟩
  have hnil := (session_exact_iff _ _ (by decide)).mp h
  revert hnil
  decide

/-- The second of two sessions prints a pid that was dispatched in the first, and neither
prints its own. -/
theorem session_prints_previous :
    Recorder.init.printed (session [.dispatch 3]) = [] ∧
    (Recorder.init.after (session [.dispatch 3])).startflag = 0 ∧
    (Recorder.init.after (session [.dispatch 3])).printed (session [.dispatch 4]) = [(3, 1)] ∧
    expand [(3, 1)] ≠ dispatched (session [.dispatch 4]) := by
  decide

end Xv6Lottery
