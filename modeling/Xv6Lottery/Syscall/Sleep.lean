import Xv6Lottery.Syscall.Arguments

/-!
`sys_sleep` under an arbitrary sequence of timer interrupts and wakeups.

* `Sleeper`, `Sleeper.check`, `Sleeper.step`: the caller in the loop of `sys_sleep`. The test of
  the loop compares values of type `uint`, to which the argument is converted. `tickslock` is
  held from a wakeup to the next `sleep`, so that a check is one step; `sleep` itself is
  `Kernel.Wakeup`.
* `sysSleep`: the call, from its entry on.
* `Checks`, `SleepSound`: where the caller tests the condition of the loop, and that it returns
  at the first of these tests that finds `n` ticks to have passed.
* `sleep_sound_iff`: it does so, for every value of the tick counter at the entry, exactly when
  `n` is not negative. A negative `n` is converted to a `uint` of at least `2^31`.
-/

namespace Xv6Lottery

/-- Where the caller of `sys_sleep` is. -/
inductive SleepPhase
  | sleeping
  | runnable
  | returned (r : ℤ)
  deriving DecidableEq, Repr

/-- `wakeup` on the channel of the caller. -/
def SleepPhase.wakeup : SleepPhase → SleepPhase
  | .sleeping => .runnable
  | p => p

/-- What happens while the caller is in `sys_sleep`. -/
inductive SleepEvent
  /-- a timer interrupt: `ticks++; wakeup(&ticks)` -/
  | tick
  /-- another wakeup of the caller -/
  | wakeup
  /-- `kill`, which wakes the caller up too -/
  | kill
  /-- `sleep` returns in the caller, which tests the condition of the loop -/
  | resume
  deriving DecidableEq, Repr

/-- The tick counter, and the caller of `sys_sleep` with its local variable `ticks0`. -/
structure Sleeper where
  ticks : ℕ
  ticks0 : ℕ
  killed : Bool
  phase : SleepPhase
  deriving DecidableEq, Repr

namespace Sleeper

/-- The test of the loop, `ticks - ticks0 < n` in `uint`, and what follows it. -/
def check (n : ℤ) (s : Sleeper) : Sleeper :=
  { s with
    phase :=
      if (s.ticks + 2 ^ 32 - s.ticks0) % 2 ^ 32 < toUint n then
        if s.killed then .returned (-1) else .sleeping
      else .returned 0 }

/-- One event. -/
def step (n : ℤ) (s : Sleeper) : SleepEvent → Sleeper
  | .tick => { s with ticks := (s.ticks + 1) % 2 ^ 32, phase := s.phase.wakeup }
  | .wakeup => { s with phase := s.phase.wakeup }
  | .kill => { s with killed := true, phase := s.phase.wakeup }
  | .resume => if s.phase = .runnable then s.check n else s

/-- The caller with argument `n` after it has entered the loop and `evs` have happened. -/
def run (n : ℤ) (ticks0 : ℕ) (killed : Bool) (evs : List SleepEvent) : Sleeper :=
  evs.foldl (step n) (check n ⟨ticks0, ticks0, killed, .runnable⟩)

end Sleeper

/-- `sys_sleep`, with the answer of `argint`: where the caller is after `evs`. -/
def sysSleep (arg : Option ℤ) (ticks0 : ℕ) (killed : Bool) (evs : List SleepEvent) : SleepPhase :=
  match arg with
  | none => .returned (-1)
  | some n => (Sleeper.run n ticks0 killed evs).phase

/-! ### The counter -/

namespace Sleeper

variable {n : ℤ} {ticks0 : ℕ}

lemma run_append_singleton (killed : Bool) (evs : List SleepEvent) (e : SleepEvent) :
    run n ticks0 killed (evs ++ [e]) = (run n ticks0 killed evs).step n e := by
  simp [run]

/-- The counter counts the ticks modulo `2^32`, and `ticks0` stays. -/
lemma run_ticks (n : ℤ) (h0 : ticks0 < 2 ^ 32) (killed : Bool) (evs : List SleepEvent) :
    (run n ticks0 killed evs).ticks = (ticks0 + evs.count .tick) % 2 ^ 32 ∧
      (run n ticks0 killed evs).ticks0 = ticks0 := by
  induction evs using List.reverseRecOn with
  | nil =>
      simp only [run, check, List.foldl_nil, List.count_nil, and_true]
      omega
  | append_singleton evs e ih =>
      obtain ⟨iht, ih0⟩ := ih
      rw [run_append_singleton]
      cases e with
      | tick =>
          simp only [step, iht, ih0, List.count_append, List.count_singleton_self, and_true]
          omega
      | wakeup | kill => simp [step, iht, ih0]
      | resume =>
          simp only [step]
          split_ifs <;> simp [check, iht, ih0]

/-- A caller that nobody kills is not killed. -/
lemma run_killed {evs : List SleepEvent} (hkill : .kill ∉ evs) :
    (run n ticks0 false evs).killed = false := by
  induction evs using List.reverseRecOn with
  | nil => simp [run, check]
  | append_singleton evs e ih =>
      obtain ⟨h1, h2⟩ : .kill ∉ evs ∧ .kill ≠ e := by simpa using hkill
      rw [run_append_singleton]
      cases e with
      | kill => exact absurd rfl h2
      | tick | wakeup => simp only [step, ih h1]
      | resume =>
          simp only [step]
          split_ifs <;> simp only [check, ih h1]

/-- With an argument that is not negative, the test says whether `n` ticks have passed. -/
lemma check_phase {s : Sleeper} {k : ℕ} (hn : IsInt n) (hn0 : 0 ≤ n) (hkilled : s.killed = false)
    (ht : s.ticks = (ticks0 + k) % 2 ^ 32) (h0 : s.ticks0 = ticks0) (hlt : ticks0 < 2 ^ 32)
    (hk : k < 2 ^ 32) : (s.check n).phase = if n ≤ k then .returned 0 else .sleeping := by
  have hmax : n ≤ 2 ^ 31 - 1 := hn.2
  have huint : toUint n = n.toNat := toUint_of_lt hn0 (by omega)
  have hdiff : (s.ticks + 2 ^ 32 - s.ticks0) % 2 ^ 32 = k := by omega
  have hiff : k < n.toNat ↔ ¬ n ≤ k := by omega
  simp only [check, hdiff, huint, hkilled, hiff, Bool.false_eq_true, if_false, ite_not]

end Sleeper

/-! ### Checks -/

/-- The caller tests the condition of the loop as the last of these events happens: at the
entry, and when it goes on after a wakeup. -/
def Checks (n : ℤ) (ticks0 : ℕ) (evs : List SleepEvent) : Prop :=
  evs = [] ∨ ∃ pre, evs = pre ++ [.resume] ∧ sysSleep (some n) ticks0 false pre = .runnable

/-- Nobody kills the caller, and the counter does not come around. -/
def Quiet (evs : List SleepEvent) : Prop := .kill ∉ evs ∧ evs.count .tick < 2 ^ 32

/-- The caller returns 0 at the first check at which `n` ticks have passed since the entry, and
at no other moment. -/
structure SleepSound (n : ℤ) (ticks0 : ℕ) : Prop where
  returns : ∀ evs, Quiet evs → Checks n ticks0 evs →
    sysSleep (some n) ticks0 false evs = if n ≤ evs.count .tick then .returned 0 else .sleeping
  waits : ∀ evs e r, Quiet (evs ++ [e]) → ¬ Checks n ticks0 (evs ++ [e]) →
    sysSleep (some n) ticks0 false (evs ++ [e]) = .returned r →
    sysSleep (some n) ticks0 false evs = .returned r

/-- **`sys_sleep`.** For every `int` and every value of the tick counter at the entry, the call
returns as it should, under every sequence of ticks and wakeups, exactly when its argument is
not negative. -/
theorem sleep_sound_iff (n : ℤ) (hn : IsInt n) (ticks0 : ℕ) (h0 : ticks0 < 2 ^ 32) :
    SleepSound n ticks0 ↔ 0 ≤ n := by
  constructor
  · intro h
    by_contra hneg
    have huint : 0 < toUint n := by
      have hmin : -2 ^ 31 ≤ n := hn.1
      unfold toUint
      omega
    have hentry := h.returns [] ⟨by simp, by simp⟩ (Or.inl rfl)
    simp [sysSleep, Sleeper.run, Sleeper.check, huint, le_of_not_ge hneg] at hentry
  · refine fun hn0 => ⟨fun evs hq hc => ?_, fun evs e r hq hc hr => ?_⟩
    · rcases hc with rfl | ⟨pre, rfl, hpre⟩
      · have hstart : ticks0 = (ticks0 + 0) % 2 ^ 32 := by omega
        exact Sleeper.check_phase hn hn0 rfl hstart rfl h0 (by norm_num)
      · obtain ⟨hkill, hticks⟩ : .kill ∉ pre ∧ pre.count .tick < 2 ^ 32 := by
          simpa [Quiet] using hq
        obtain ⟨ht, ht0⟩ := Sleeper.run_ticks n h0 false pre
        have hrunnable : (Sleeper.run n ticks0 false pre).phase = .runnable := hpre
        have hcheck := Sleeper.check_phase hn hn0 (Sleeper.run_killed hkill) ht ht0 h0 hticks
        simpa [sysSleep, Sleeper.run_append_singleton, Sleeper.step, hrunnable] using hcheck
    · simp only [sysSleep, Sleeper.run_append_singleton] at hr ⊢
      cases e with
      | tick | wakeup | kill =>
          cases hp : (Sleeper.run n ticks0 false evs).phase <;>
            simp [Sleeper.step, SleepPhase.wakeup, hp] at hr ⊢
          exact hr
      | resume =>
          have hp : (Sleeper.run n ticks0 false evs).phase ≠ .runnable := fun hp =>
            hc (Or.inr ⟨evs, rfl, hp⟩)
          simpa [Sleeper.step, hp] using hr

theorem sleep_sound_iff_wrap : SleepSound 2 (2 ^ 32 - 1) :=
  (sleep_sound_iff 2 (by decide) (2 ^ 32 - 1) (by decide)).mpr (by decide)

/-- With the argument -1 the caller goes to sleep, and a tick later it does so again. -/
theorem sleep_negative_sleeps :
    sysSleep (some (-1)) 0 false [] = .sleeping ∧
    sysSleep (some (-1)) 0 false [.tick, .resume] = .sleeping ∧
    ¬ SleepSound (-1) 0 := by
  have hentry : sysSleep (some (-1)) 0 false [] = .sleeping := by decide
  refine ⟨hentry, by decide, fun h => ?_⟩
  have hreturns := h.returns [] ⟨by simp, by simp⟩ (Or.inl rfl)
  rw [hentry] at hreturns
  revert hreturns
  decide

end Xv6Lottery
