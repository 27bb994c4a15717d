import Xv6Lottery.Library.RunLength
import Xv6Lottery.Recorder.Order

/-!
The recorder as a run-length encoder.

* `Recorder.recorded`: the pids dispatched while the flag is set.
* `Tracks`: the lines printed and the pending pair are the runs of what has been recorded, each
  count as an `int`. `Tracks.step` carries this through one call and `Recorder.tracks` through
  any sequence of calls.
* `Recorder.encodesRuns_iff`: the lines and the pending pair spell out exactly what has been
  recorded unless a process was recorded `2^31` times in a row, when its count overflows.
-/

namespace Xv6Lottery

open Library

/-! ### What is recorded -/

namespace Recorder

/-- The pids dispatched by one call while the flag is set. -/
def records (r : Recorder) : Call → List ℤ
  | .dispatch p => if r.startflag = 1 then [p] else []
  | .changeFlag _ => []

/-- The pids dispatched by a sequence of calls while the flag is set. -/
def recorded (r : Recorder) : List Call → List ℤ
  | [] => []
  | c :: cs => r.records c ++ (r.step c).2.recorded cs

end Recorder

/-! ### The counts -/

/-- A run as the recorder keeps it: its count is an `int`. -/
def wrapRun (r : ℤ × ℕ) : ℤ × ℤ := (r.1, wrapInt r.2)

/-- Counting up keeps the count wrapped. -/
lemma incInt_wrapInt (n : ℕ) : incInt (wrapInt n) = wrapInt (n + 1 : ℕ) := by
  have h1 := wrapInt_eq n
  have h2 := wrapInt_eq (n + 1 : ℕ)
  simp only [incInt, intMax]
  split_ifs at h1 h2 ⊢ <;> omega

lemma wrapInt_one : wrapInt 1 = 1 := by decide

/-- A wrapped count spells out no more than it counts. -/
lemma toNat_wrapInt_le (n : ℕ) : (wrapInt n).toNat ≤ n := by
  rw [wrapInt_eq]
  split_ifs <;> omega

lemma toNat_wrapInt_eq_iff (n : ℕ) : (wrapInt n).toNat = n ↔ n < 2 ^ 31 := by
  rw [wrapInt_eq]
  split_ifs <;> omega

lemma expand_map_wrapRun (L : List (ℤ × ℕ)) :
    expand (L.map wrapRun) = spell (L.map fun r => (r.1, (wrapInt r.2).toNat)) := by
  simp only [expand, spell, List.flatMap_map, wrapRun]

/-! ### The recorder keeps the runs -/

/-- The lines `out` and the pending pair of `r` are the runs of the pids `ds`, with wrapped
counts. Before anything is recorded the pending pair is `(0, 0)`. -/
inductive Tracks : List (ℤ × ℤ) → Recorder → List ℤ → Prop
  | nothing (flag : ℤ) : Tracks [] ⟨0, 0, flag⟩ []
  | pending (flag : ℤ) {L : List (ℤ × ℕ)} {p : ℤ} {n : ℕ} (hp : p ≠ 0) (hL : Runs (L ++ [(p, n)])) :
      Tracks (L.map wrapRun) ⟨p, wrapInt n, flag⟩ (spell (L ++ [(p, n)]))

namespace Tracks

variable {out : List (ℤ × ℤ)} {r : Recorder} {ds : List ℤ}

/-- A change of the flag changes neither. -/
lemma setFlag (h : Tracks out r ds) (flag : ℤ) : Tracks out { r with startflag := flag } ds := by
  cases h with
  | nothing => exact nothing flag
  | pending _ hp hL =>
      dsimp only
      exact pending flag hp hL

/-- A dispatch while the flag is set starts the first run, makes the pending run longer, or
prints it and starts the next. -/
lemma record (h : Tracks out r ds) (hr : r.startflag = 1) {p : ℤ} (hp : 0 < p) :
    Tracks (out ++ (r.record p).1) (r.record p).2 (ds ++ [p]) := by
  cases h with
  | nothing flag =>
      obtain rfl : flag = 1 := hr
      have hstep : Recorder.record ⟨0, 0, 1⟩ p = ([], ⟨p, wrapInt (1 : ℕ), 1⟩) := by
        simp [Recorder.record, incInt_of_lt (show (0 : ℤ) < intMax by decide), wrapInt_one]
      rw [hstep]
      exact pending (L := []) 1 hp.ne' (Runs.singleton p)
  | @pending flag L q n hq hL =>
      obtain rfl : flag = 1 := hr
      by_cases hpq : p = q
      · subst hpq
        have hstep : Recorder.record ⟨p, wrapInt n, 1⟩ p = ([], ⟨p, wrapInt (n + 1 : ℕ), 1⟩) := by
          simp [Recorder.record, hq, incInt_wrapInt]
        have hspell : spell (L ++ [(p, n)]) ++ [p] = spell (L ++ [(p, n + 1)]) := by
          simp [spell_append, List.replicate_succ']
        rw [hstep, List.append_nil, hspell]
        exact pending 1 hq hL.extend
      · have hstep : Recorder.record ⟨q, wrapInt n, 1⟩ p =
            ([(q, wrapInt n)], ⟨p, wrapInt (1 : ℕ), 1⟩) := by
          simp [Recorder.record, hq, hpq, wrapInt_one]
        have hspell : spell (L ++ [(q, n)]) ++ [p] = spell (L ++ [(q, n)] ++ [(p, 1)]) := by
          simp [spell_append]
        have hout : L.map wrapRun ++ [(q, wrapInt n)] = (L ++ [(q, n)]).map wrapRun := by
          simp [wrapRun]
        rw [hstep, hspell, hout]
        exact pending 1 hp.ne' (hL.start (Ne.symm hpq))

/-- One call. -/
lemma step (h : Tracks out r ds) {c : Call} (hc : ∀ p, c = .dispatch p → 0 < p) :
    Tracks (out ++ (r.step c).1) (r.step c).2 (ds ++ r.records c) := by
  cases c with
  | dispatch p =>
      by_cases hr : r.startflag = 1
      · have hrec := h.record hr (hc p rfl)
        simpa [Recorder.step, Recorder.records, hr] using hrec
      · simpa [Recorder.step, Recorder.records, Recorder.record, hr] using h
  | changeFlag arg =>
      simp only [Recorder.step, Recorder.records, List.append_nil]
      cases arg with
      | none => exact h
      | some flag =>
          simp only [Recorder.changeSchedorderFlag]
          split_ifs
          · exact h
          · exact h.setFlag flag

end Tracks

/-- A sequence of calls, whatever was recorded before it. -/
lemma Recorder.tracks {out : List (ℤ × ℤ)} {r : Recorder} {ds : List ℤ} (h : Tracks out r ds)
    {cs : List Call} (hcs : ∀ p, .dispatch p ∈ cs → 0 < p) :
    Tracks (out ++ r.printed cs) (r.after cs) (ds ++ r.recorded cs) := by
  induction cs generalizing out r ds with
  | nil => simpa [printed, after, recorded] using h
  | cons c cs ih =>
      have hstep := h.step (c := c) fun p hp => hcs p (hp ▸ List.mem_cons_self ..)
      have hrest := ih hstep fun p hp => hcs p (List.mem_cons_of_mem c hp)
      simpa [printed, after, recorded] using hrest

/-! ### The encoder -/

namespace Recorder

/-- The lines printed from the initial record on, followed by the pending pair. -/
def pairs (cs : List Call) : List (ℤ × ℤ) :=
  init.printed cs ++ [((init.after cs).pid, (init.after cs).ticks)]

/-- The recorder is an exact run-length encoder on these calls. -/
structure EncodesRuns (cs : List Call) : Prop where
  expand_eq : expand (pairs cs) = init.recorded cs
  one_le : ∀ l ∈ init.printed cs, 1 ≤ l.2
  chain : (pairs cs).IsChain fun l l' => l.1 ≠ l'.1

/-- **The encoder.** For dispatches of processes with positive pids, and flag changes, in any
order: the lines and the pending pair encode the dispatches recorded exactly if no process is
recorded `2^31` times in a row. -/
theorem encodesRuns_iff (cs : List Call) (hcs : ∀ p, .dispatch p ∈ cs → 0 < p) :
    EncodesRuns cs ↔ ∀ p, ¬ List.replicate (2 ^ 31) p <:+: init.recorded cs := by
  have htracks : Tracks (init.printed cs) (init.after cs) (init.recorded cs) :=
    tracks (Tracks.nothing 0) hcs
  have hpairs : pairs cs = init.printed cs ++ [((init.after cs).pid, (init.after cs).ticks)] := rfl
  suffices h : (expand (pairs cs) = init.recorded cs ↔
      ∀ p, ¬ List.replicate (2 ^ 31) p <:+: init.recorded cs) ∧
      (expand (pairs cs) = init.recorded cs → ∀ l ∈ init.printed cs, 1 ≤ l.2) ∧
      (pairs cs).IsChain fun l l' => l.1 ≠ l'.1 from
    ⟨fun henc => h.1.mp henc.expand_eq, fun hno => ⟨h.1.mpr hno, h.2.1 (h.1.mpr hno), h.2.2⟩⟩
  generalize pairs cs = ps at hpairs ⊢
  generalize init.recorded cs = ds at htracks ⊢
  generalize init.printed cs = out at htracks hpairs ⊢
  generalize init.after cs = r at htracks hpairs
  subst hpairs
  -- the bound is a number like any other from here on
  have hcount : ∀ n : ℕ, (wrapInt n).toNat = n ↔ n < 2 ^ 31 := toNat_wrapInt_eq_iff
  have hbound : 0 < 2 ^ 31 := by norm_num
  generalize 2 ^ 31 = bound at hcount hbound ⊢
  cases htracks with
  | nothing flag =>
      have hne : ∀ p : ℤ, List.replicate bound p ≠ [] := by simp [hbound.ne']
      simp [expand, hne]
  | @pending flag L p n hp hL =>
      have hout : L.map wrapRun ++ [(p, wrapInt n)] = (L ++ [(p, n)]).map wrapRun := by
        simp [wrapRun]
      have hexp : expand ((L ++ [(p, n)]).map wrapRun) = spell (L ++ [(p, n)]) ↔
          ∀ r ∈ L ++ [(p, n)], r.2 < bound := by
        simp only [expand_map_wrapRun, spell_map_eq_iff toNat_wrapInt_le, hcount]
      rw [hout]
      refine ⟨?_, ?_, ?_⟩
      · have hlong := hL.replicate_infix_iff hbound
        rw [hexp, ← not_exists, hlong]
        simp only [not_exists, not_and, not_le]
      · intro h l hl
        obtain ⟨r, hr, rfl⟩ := List.mem_map.mp hl
        have hmem := List.mem_append_left [(p, n)] hr
        have hpos := hL.pos r hmem
        have hexact := (hcount r.2).mpr (hexp.mp h r hmem)
        simp only [wrapRun]
        omega
      · exact (List.isChain_map wrapRun).mpr hL.chain

/-- Two processes, of which the first is dispatched twice in a row. -/
theorem encodesRuns_two_processes :
    EncodesRuns [.changeFlag (some 1), .dispatch 3, .dispatch 3, .dispatch 4] := by
  refine (encodesRuns_iff _ (by simp)).mpr ?_
  intro p h
  have hlen := h.length_le
  rw [List.length_replicate] at hlen
  exact absurd hlen (by decide)

/-- A process that is dispatched again and again is counted in `int`, and nothing is printed. -/
lemma pairs_replicate (p : ℤ) (hp : p ≠ 0) (k : ℕ) :
    pairs (.changeFlag (some 1) :: List.replicate (k + 1) (.dispatch p)) =
      [(p, wrapInt (k + 1 : ℕ))] ∧
    init.recorded (.changeFlag (some 1) :: List.replicate (k + 1) (.dispatch p)) =
      List.replicate (k + 1) p := by
  have hgo : ∀ n : ℕ, ∀ r : Recorder, r = ⟨p, wrapInt n, 1⟩ →
      r.printed (List.replicate k (.dispatch p)) = [] ∧
      r.after (List.replicate k (.dispatch p)) = ⟨p, wrapInt (n + k : ℕ), 1⟩ ∧
      r.recorded (List.replicate k (.dispatch p)) = List.replicate k p := by
    induction k with
    | zero =>
        intro n r hr
        exact ⟨rfl, hr, rfl⟩
    | succ k ih =>
        intro n r hr
        have hstep : r.step (.dispatch p) = ([], ⟨p, wrapInt (n + 1 : ℕ), 1⟩) := by
          simp [hr, step, record, hp, incInt_wrapInt]
        obtain ⟨hout, hafter, hrec⟩ := ih (n + 1) _ rfl
        have hflag : r.records (.dispatch p) = [p] := by simp [hr, records]
        rw [show n + (k + 1) = n + 1 + k by omega]
        simp only [List.replicate_succ, printed, after, recorded, hstep, hflag, hout, hafter, hrec,
          List.nil_append, List.singleton_append, and_self]
  have hfirst : (init.changeSchedorderFlag (some 1)).2.record p =
      ([], ⟨p, wrapInt (1 : ℕ), 1⟩) := by
    simp [changeSchedorderFlag, init, record, incInt_of_lt (show (0 : ℤ) < intMax by decide),
      wrapInt_one]
  obtain ⟨hout, hafter, hrec⟩ := hgo 1 _ rfl
  have hflag : (init.changeSchedorderFlag (some 1)).2.startflag = 1 := rfl
  rw [Nat.add_comm 1 k] at hafter
  simp only [pairs, List.replicate_succ, printed, after, recorded, step, records, hfirst, hflag,
    hout, hafter, hrec, if_true, List.nil_append, List.singleton_append, and_self]

/-- After `2^31` dispatches in a row the count of the pending pair is negative, and all of them
are lost. -/
theorem encodesRuns_overflow :
    pairs (.changeFlag (some 1) :: List.replicate (2 ^ 31) (.dispatch 3)) = [(3, -2 ^ 31)] ∧
    ¬ EncodesRuns (.changeFlag (some 1) :: List.replicate (2 ^ 31) (.dispatch 3)) := by
  obtain ⟨k, hk⟩ : ∃ k, 2 ^ 31 = k + 1 := ⟨2 ^ 31 - 1, by norm_num⟩
  have hcount : wrapInt (2 ^ 31 : ℕ) = -2 ^ 31 := by
    rw [wrapInt_eq]
    norm_num
  rw [hk] at hcount ⊢
  obtain ⟨hpairs, hrec⟩ := pairs_replicate 3 (by norm_num) k
  rw [hpairs, hcount]
  refine ⟨rfl, ?_⟩
  intro h
  have hexp := h.expand_eq
  rw [hpairs, hrec, hcount, List.replicate_succ] at hexp
  exact absurd hexp (by simp)

end Recorder

end Xv6Lottery
