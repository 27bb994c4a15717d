import Xv6Lottery.Life.Change

/-!
The history of a run: pids, parents, exits, reaps and dispatches.

The invariants below relate the table to the trace that led to it. They hold as long as
the pid counter has not wrapped before the last allocation.

* `FewAllocs`, `fresh`: the bound on the allocations, and the next pid as the trace tells it.
* `PidInv`: the counter has counted the allocations, the pids in the table are below it
  and distinct, and those of past reaps and dispatches are below it as well.
* `PastInv`: whoever lives has been forked by its parent, or by a process that has
  exited and left it to `ip`; a zombie has exited; nobody in the table has been reaped,
  and nobody has been reaped twice.
* `TickInv`: the ticks of a process are its dispatches.
* `PastInv.run`, `TickInv.run`: the invariants in every run.
* `allocations`, `pidsGiven_eq`: the processes allocated in a run have got the pids
  1, 2, 3, … in this order.
-/

namespace Xv6Lottery

open Procstate Library

variable {ι : Type} [DecidableEq ι] {ip : ι} {L L' : Life ι} {e : Event ι} {tr : List (Event ι)}

/-- The table at boot: only `ip` is in use, with pid 1. -/
structure Life.Initial (ip : ι) (L : Life ι) : Prop where
  nextpid : L.nextpid = 2
  init : (L.procs ip).state = runnable ∧ (L.procs ip).pid = 1 ∧ (L.procs ip).ticks = 0
  free : ∀ j, j ≠ ip → (L.procs j).state = unused ∧ (L.procs j).pid = 0

/-- Fewer than `2^31 - 1` allocations after boot. -/
def FewAllocs (tr : List (Event ι)) : Prop := (tr.countP Event.isAlloc : ℤ) < intMax

instance (tr : List (Event ι)) : Decidable (FewAllocs tr) := inferInstanceAs (Decidable (_ < _))

omit [DecidableEq ι] in
lemma FewAllocs.init {tr' : List (Event ι)} (h : FewAllocs (tr ++ tr')) : FewAllocs tr := by
  rw [FewAllocs, List.countP_append] at h
  rw [FewAllocs]
  omega

/-- The next pid after a trace, if the counter does not wrap: the first process has pid 1. -/
def fresh (tr : List (Event ι)) : ℤ := tr.countP Event.isAlloc + 2

/-! ### What single events say -/

/-- The counter moves with the allocations. -/
lemma LifeStep.counter (hs : LifeStep ip L e L') :
    (∃ np, e = .alloc np L.nextpid) ∧ L'.nextpid = incInt L.nextpid ∨
      e.isAlloc = false ∧ L'.nextpid = L.nextpid := by
  cases hs with
  | alloc _ => exact Or.inl ⟨⟨_, rfl⟩, rfl⟩
  | quiet he =>
      refine Or.inr ⟨?_, rfl⟩
      cases e <;> first | rfl | cases he
  | _ => exact Or.inr ⟨rfl, rfl⟩

/-- A reap takes a zombie from its parent. -/
lemma LifeStep.of_reaped {P q : ℤ} {z : ι} (hs : LifeStep ip L (.reaped P q z) L') :
    (L.procs z).state = zombie ∧ (L.procs z).pid = q ∧ (L'.procs z).state = unused ∧
      ∃ i, (L.procs z).parent = some i ∧ (L.procs i).pid = P := by
  cases hs with
  | quiet he => cases he
  | reap _ hz hpar => exact ⟨hz, rfl, by simp, _, hpar, rfl⟩

/-- A dispatch counts a tick. -/
lemma LifeStep.of_dispatched {w : ι} {q : ℤ} (hs : LifeStep ip L (.dispatched w q) L') :
    (L.procs w).state = runnable ∧ (L.procs w).pid = q ∧
      L'.procs = Function.update L.procs w
        { L.procs w with ticks := incInt (L.procs w).ticks, state := running } := by
  cases hs with
  | quiet he => cases he
  | dispatch hw => exact ⟨hw, rfl, rfl⟩

omit [DecidableEq ι] in
/-- A pid stays, unless the slot is taken or reaped. -/
lemma Change.pid {n : ℤ} {j : ι} {x x' : Entry ι} (h : Change n e j x x') :
    x'.pid = x.pid ∧ (x'.state ≠ unused → x.state ≠ unused) ∨
      x.state = unused ∧ x'.pid = n ∧ e = .alloc j n ∨ x'.pid = 0 ∧ x'.state = unused := by
  cases h with
  | keep hpid _ _ _ hst =>
      exact Or.inl ⟨hpid, fun h hu => h ((unused_iff_of_keep hst).mpr hu)⟩
  | alloc he hst => exact Or.inr (Or.inl ⟨hst, rfl, he⟩)
  | forkFail _ _ => exact Or.inl ⟨rfl, fun h => absurd rfl h⟩
  | publish _ hst | dispatch _ hst | trap _ hst | exit _ hst =>
      exact Or.inl ⟨rfl, fun _ => by simp [hst]⟩
  | kill _ hst => exact Or.inl ⟨rfl, fun h hu => h (hst.eq_iff.mpr hu)⟩
  | assign _ _ => exact Or.inl ⟨rfl, id⟩
  | reap _ _ => exact Or.inr (Or.inr ⟨rfl, rfl⟩)

omit [DecidableEq ι] in
/-- A slot that becomes free has no pid, unless a failing `fork` gives it back. -/
lemma Change.pid_of_free {n : ℤ} {j : ι} {x x' : Entry ι} (h : Change n e j x x')
    (he : e ≠ .forkFailed (some j)) (hx : x.state = unused → x.pid = 0)
    (hx' : x'.state = unused) : x'.pid = 0 := by
  cases h with
  | keep hpid _ _ _ hst =>
      rw [hpid]
      exact hx ((unused_iff_of_keep hst).mp hx')
  | forkFail he' _ => exact absurd he' he
  | alloc _ _ | publish _ _ | dispatch _ _ | exit _ _ => cases hx'
  | kill _ hst => exact hx (hst.eq_iff.mp hx')
  | trap _ _ | assign _ _ => exact hx hx'
  | reap _ _ => rfl

/-! ### Pids -/

/-- The counter and the pids of the table, past reaps and past dispatches. -/
structure PidInv (ip : ι) (tr : List (Event ι)) (L : Life ι) : Prop where
  counter : fresh tr ≤ intMax → L.nextpid = fresh tr
  init : (L.procs ip).pid = 1
  lt : ∀ j, 0 ≤ (L.procs j).pid ∧ (L.procs j).pid < fresh tr
  pos : ∀ j, (L.procs j).state ≠ unused → 1 ≤ (L.procs j).pid
  inj : ∀ i j, (L.procs i).pid = (L.procs j).pid → (L.procs i).pid ≠ 0 → i = j
  old : ∀ e ∈ tr, ∀ q, e.reaps q = true ∨ e.runs q = true → q < fresh tr

omit [DecidableEq ι] in
lemma Event.of_reaps {q : ℤ} (h : e.reaps q = true) : ∃ P z, e = .reaped P q z := by
  cases e with
  | reaped P x z => exact ⟨P, z, by rw [of_decide_eq_true h]⟩
  | _ => cases h

omit [DecidableEq ι] in
lemma Event.of_runs {q : ℤ} (h : e.runs q = true) : ∃ w, e = .dispatched w q := by
  cases e with
  | dispatched w x => exact ⟨w, by rw [of_decide_eq_true h]⟩
  | _ => cases h

namespace PidInv

variable (h : PidInv ip tr L)
include h

/-- An allocation gives out the next pid of the trace, and nothing else moves the counter. -/
lemma fresh_step (hs : LifeStep ip L e L') (hfew : FewAllocs (tr ++ [e])) :
    (fresh (tr ++ [e]) ≤ intMax → L'.nextpid = fresh (tr ++ [e])) ∧
      fresh tr ≤ fresh (tr ++ [e]) ∧
      ∀ np, e = .alloc np L.nextpid → L.nextpid = fresh tr ∧ fresh tr < fresh (tr ++ [e]) := by
  have hc := h.counter
  simp only [FewAllocs, fresh] at hfew hc ⊢
  rcases hs.counter with ⟨⟨np, rfl⟩, hn⟩ | ⟨he, hn⟩
  · have hcount : (tr ++ [Event.alloc np L.nextpid]).countP Event.isAlloc =
        tr.countP Event.isAlloc + 1 := by simp [Event.isAlloc]
    rw [hcount] at hfew ⊢
    have hnext := hc (by omega)
    refine ⟨fun hle => ?_, by omega, fun _ _ => ⟨hnext, by omega⟩⟩
    calc L'.nextpid = incInt L.nextpid := hn
      _ = L.nextpid + 1 := incInt_of_lt (by omega)
      _ = ((tr.countP Event.isAlloc + 1 : ℕ) : ℤ) + 2 := by omega
  · have hcount : (tr ++ [e]).countP Event.isAlloc = tr.countP Event.isAlloc := by simp [he]
    rw [hcount, hn]
    exact ⟨hc, le_rfl, fun np hnp => by simp [hnp, Event.isAlloc] at he⟩

/-- **Pids**: the invariant in one step. -/
lemma step (ht : TreeInv ip L.procs) (hs : LifeStep ip L e L') (hfew : FewAllocs (tr ++ [e])) :
    PidInv ip (tr ++ [e]) L' := by
  obtain ⟨hcounter, hle, hlt⟩ := h.fresh_step hs hfew
  have hpid := fun j => (hs.change j).pid
  have hbase : 2 ≤ fresh tr := by
    rw [fresh]
    omega
  refine ⟨hcounter, ?_, fun j => ?_, fun j hj => ?_, fun i j hij h0 => ?_, fun e' he' q hq => ?_⟩
  · rcases hpid ip with ⟨hp, -⟩ | ⟨hu, -⟩ | ⟨-, hu⟩
    · rw [hp, h.init]
    · exact absurd hu ht.init.1.ne_unused
    · exact absurd hu (ht.step hs).init.1.ne_unused
  · have hj := h.lt j
    rcases hpid j with ⟨hp, -⟩ | ⟨-, hp, he⟩ | ⟨hp, -⟩ <;> rw [hp]
    · omega
    · have := hlt j he
      omega
    · omega
  · rcases hpid j with ⟨hp, hu⟩ | ⟨-, hp, he⟩ | ⟨-, hu⟩
    · rw [hp]
      exact h.pos j (hu hj)
    · have := hlt j he
      omega
    · exact absurd hu hj
  · have hi := h.lt i
    have hj := h.lt j
    rcases hpid i with ⟨hpi, -⟩ | ⟨-, hpi, hei⟩ | ⟨hpi, -⟩
    · rcases hpid j with ⟨hpj, -⟩ | ⟨-, hpj, hej⟩ | ⟨hpj, -⟩
      · exact h.inj i j (by rw [← hpi, hij, hpj]) (by rwa [← hpi])
      · have := hlt j hej
        omega
      · omega
    · rcases hpid j with ⟨hpj, -⟩ | ⟨-, -, hej⟩ | ⟨hpj, -⟩
      · have := hlt i hei
        omega
      · exact (Event.alloc.inj (hei.symm.trans hej)).1
      · omega
    · exact absurd hpi h0
  · rcases List.mem_append.mp he' with he' | he'
    · exact lt_of_lt_of_le (h.old e' he' q hq) hle
    · obtain rfl := List.mem_singleton.mp he'
      rcases hq with hq | hq
      · obtain ⟨P, z, rfl⟩ := Event.of_reaps hq
        have hz := h.lt z
        rw [hs.of_reaped.2.1] at hz
        omega
      · obtain ⟨w, rfl⟩ := Event.of_runs hq
        have hw := h.lt w
        rw [hs.of_dispatched.2.1] at hw
        omega

end PidInv

/-! ### Parents, exits and reaps -/

omit [DecidableEq ι] in
/-- A slot that is in use before and after keeps its pid. -/
lemma Change.pid_eq {n : ℤ} {j : ι} {x x' : Entry ι} (h : Change n e j x x')
    (hx : x.state ≠ unused) (hx' : x'.state ≠ unused) : x'.pid = x.pid := by
  rcases h.pid with ⟨hp, -⟩ | ⟨hu, -⟩ | ⟨-, hu⟩
  · exact hp
  · exact absurd hu hx
  · exact absurd hu hx'

/-- Where the parent of a process comes from: it had it before, it has just been published,
or its parent has just left it to `ip`. -/
lemma LifeStep.born_parent (hs : LifeStep ip L e L') {j : ι} (hj : (L'.procs j).state.Born) :
    (L.procs j).state.Born ∧ (L'.procs j).parent = (L.procs j).parent ∨
    (∃ i, e = .forked (L.procs i).pid (L.procs j).pid j ∧ (L.procs i).state = running ∧
      (L.procs j).state = embryo ∧ (L'.procs j).parent = some i) ∨
    ∃ i, i ≠ ip ∧ e = .exited i (L.procs i).pid ∧ (L.procs j).state.Born ∧
      (L.procs j).parent = some i ∧ (L'.procs j).parent = some ip := by
  -- steps that change one slot, and leave its parent alone
  have hone : ∀ {p : ι → Entry ι} {i : ι} {x : Entry ι}, (Function.update p i x j).state.Born →
      (x.state.Born → (p i).state.Born ∧ x.parent = (p i).parent) →
      (p j).state.Born ∧ (Function.update p i x j).parent = (p j).parent := by
    intro p i x hb hx
    rcases eq_or_ne j i with rfl | hji
    · rw [Function.update_self] at hb ⊢
      exact hx hb
    · rw [Function.update_of_ne hji] at hb ⊢
      exact ⟨hb, rfl⟩
  cases hs with
  | quiet _ | killMiss _ => exact Or.inl ⟨hj, rfl⟩
  | alloc _ => exact Or.inl (hone hj fun hb => absurd rfl hb.ne_embryo)
  | forkFail _ _ | reap _ _ _ => exact Or.inl (hone hj fun hb => absurd rfl hb.ne_unused)
  | adopt _ hnp _ => exact Or.inl (hone hj fun hb => absurd hnp hb.ne_embryo)
  | @publish p n i np hi hnp hpar =>
      rcases eq_or_ne j np with rfl | hji
      · exact Or.inr (Or.inl ⟨i, rfl, hi, hnp, by simpa using hpar⟩)
      · dsimp only at hj ⊢
        rw [Function.update_of_ne hji] at hj ⊢
        exact Or.inl ⟨hj, rfl⟩
  | dispatch hw => exact Or.inl (hone hj fun _ => ⟨by simp [hw], rfl⟩)
  | yield hi | sleepOn hi | sleepWait hi _ _ _ | clearChan hi | trap hi =>
      exact Or.inl (hone hj fun _ => ⟨by simp [hi], rfl⟩)
  | assign _ => exact Or.inl (hone hj fun hb => ⟨hb, rfl⟩)
  | @wakeup p n ch =>
      obtain ⟨st, hst, he⟩ := wakeEntries_apply p ch j
      dsimp only at hj ⊢
      rw [he] at hj ⊢
      exact Or.inl ⟨hst.born hj, rfl⟩
  | @kill p n x i _ =>
      exact Or.inl (hone hj fun hb => ⟨(wakes_kill _).born hb, rfl⟩)
  | @exit p p' n i hi hip heff =>
      obtain ⟨st, hst, he⟩ := heff.entry j
      dsimp only at hj ⊢
      rw [he] at hj ⊢
      have hb : (p j).state.Born := by
        split_ifs at hst with hji
        · rw [hji, hi]
          exact born_running
        · exact hst.born hj
      by_cases hpar : (p j).parent = some i
      · exact Or.inr (Or.inr ⟨i, hip, rfl, hb, hpar, if_pos hpar⟩)
      · exact Or.inl ⟨hb, if_neg hpar⟩

/-- The past of the processes in the table. -/
structure PastInv (ip : ι) (tr : List (Event ι)) (L : Life ι) : Prop where
  forked : ∀ j, (L.procs j).state.Born → j ≠ ip → ∃ q, (L.procs j).parent = some q ∧
    (.forked (L.procs q).pid (L.procs j).pid j ∈ tr ∨
      q = ip ∧ ∃ P k, .forked P (L.procs j).pid j ∈ tr ∧ .exited k P ∈ tr)
  exited : ∀ j, (L.procs j).state = zombie → .exited j (L.procs j).pid ∈ tr
  kept : ∀ j, (L.procs j).state ≠ unused → ∀ e ∈ tr, e.reaps (L.procs j).pid = false
  once : ∀ q, tr.countP (Event.reaps q) ≤ 1

omit [DecidableEq ι] in
/-- A zombie has been one before, or has just exited. -/
lemma Change.zombie {n : ℤ} {j : ι} {x x' : Entry ι} (h : Change n e j x x')
    (hx' : x'.state = zombie) : x.state = zombie ∨ e = .exited j x.pid := by
  cases h with
  | keep _ _ _ _ hst =>
      rcases hst with hst | ⟨-, hst⟩
      · exact Or.inl (hst ▸ hx')
      · exact absurd hx' hst.ne_zombie
  | alloc _ _ | forkFail _ _ | publish _ _ | dispatch _ _ | reap _ _ => cases hx'
  | kill _ hst => exact Or.inl (hst.eq_of_ne hx')
  | trap _ _ | assign _ _ => exact Or.inl hx'
  | exit he _ => exact Or.inr he

namespace PastInv

variable (h : PastInv ip tr L) (hp : PidInv ip tr L)
include h hp

/-- Whoever is in the table after a step has not been reaped, in this step or before. -/
lemma not_reaped (hs : LifeStep ip L e L') (hfew : FewAllocs (tr ++ [e])) {j : ι}
    (hj : (L'.procs j).state ≠ unused) :
    ∀ e' ∈ tr ++ [e], e'.reaps (L'.procs j).pid = false := by
  intro e' he'
  by_contra hr
  rw [Bool.not_eq_false] at hr
  obtain ⟨P, z, rfl⟩ := Event.of_reaps hr
  rcases (hs.change j).pid with ⟨hpid, hu⟩ | ⟨-, hpid, hal⟩ | ⟨-, hu⟩
  · rw [hpid] at he'
    rcases List.mem_append.mp he' with he' | he'
    · have hk := h.kept j (hu hj) _ he'
      simp [Event.reaps] at hk
    · -- the slot reaped now has the same pid, so it is the same slot, and free
      obtain rfl := List.mem_singleton.mp he'
      obtain ⟨-, hz, hz', -⟩ := hs.of_reaped
      have hpos := hp.pos j (hu hj)
      obtain rfl := hp.inj z j hz (by omega)
      exact hj hz'
  · rcases List.mem_append.mp he' with he' | he'
    · have hold := hp.old _ he' _ (Or.inl hr)
      have hnext := (hp.fresh_step hs hfew).2.2 j hal
      omega
    · rw [hal] at he'
      simp at he'
  · exact hj hu

/-- **The past**: the invariant in one step. -/
lemma step (ht : TreeInv ip L.procs) (hs : LifeStep ip L e L') (hfew : FewAllocs (tr ++ [e])) :
    PastInv ip (tr ++ [e]) L' := by
  have ht' := ht.step hs
  -- the parent of a process keeps its pid
  have hparent : ∀ {j q}, (L'.procs j).parent = some q → (L.procs q).state.Alive →
      (L'.procs q).pid = (L.procs q).pid := fun hq ha =>
    (hs.change _).pid_eq ha.ne_unused (ht'.alive _ _ hq).ne_unused
  refine ⟨fun j hj hne => ?_, fun j hj => ?_, fun j hj => h.not_reaped hp hs hfew hj,
    fun q => ?_⟩
  · rcases hs.born_parent hj with ⟨hb, hpar⟩ | ⟨i, rfl, hi, hemb, hpar⟩ |
      ⟨i, hip, rfl, hb, hi, hpar⟩
    · obtain ⟨q, hq, hcase⟩ := h.forked j hb hne
      rw [← hpar] at hq
      refine ⟨q, hq, ?_⟩
      rw [hparent hq (ht.alive j q (hpar ▸ hq)),
        (hs.change j).pid_eq hb.ne_unused hj.ne_unused]
      rcases hcase with hf | ⟨rfl, P, k, hf, hx⟩
      · exact Or.inl (List.mem_append_left _ hf)
      · exact Or.inr ⟨rfl, P, k, List.mem_append_left _ hf, List.mem_append_left _ hx⟩
    · refine ⟨i, hpar, Or.inl ?_⟩
      rw [hparent hpar (by simp [hi]),
        (hs.change j).pid_eq (by simp [hemb]) hj.ne_unused]
      simp
    · obtain ⟨q, hq, hcase⟩ := h.forked j hb hne
      obtain rfl := Option.some.inj (hi.symm.trans hq)
      rw [(hs.change j).pid_eq hb.ne_unused hj.ne_unused]
      rcases hcase with hf | ⟨rfl, -⟩
      · exact ⟨ip, hpar, Or.inr ⟨rfl, _, i, List.mem_append_left _ hf, by simp⟩⟩
      · exact absurd rfl hip
  · rcases (hs.change j).pid with ⟨hpid, -⟩ | ⟨hu, -, he⟩ | ⟨-, hu⟩
    · rw [hpid]
      rcases (hs.change j).zombie hj with hz | he
      · exact List.mem_append_left _ (h.exited j hz)
      · simp [he]
    · rcases (hs.change j).zombie hj with hz | he'
      · rw [hu] at hz
        cases hz
      · rw [he] at he'
        cases he'
    · rw [hu] at hj
      cases hj
  · rw [List.countP_append]
    by_cases hr : e.reaps q = true
    · obtain ⟨P, z, rfl⟩ := Event.of_reaps hr
      obtain ⟨hz, hzq, -⟩ := hs.of_reaped
      have hnone : tr.countP (Event.reaps q) = 0 := by
        refine List.countP_eq_zero.mpr fun e' he' => ?_
        rw [← hzq, h.kept z (by simp [hz]) e' he']
        simp
      simp [hnone, hr]
    · have hq := h.once q
      simpa [hr] using hq

end PastInv

/-! ### Ticks -/

/-- The ticks of a process are its dispatches. -/
def TickInv (tr : List (Event ι)) (L : Life ι) : Prop :=
  ∀ j, (L.procs j).state ≠ unused →
    (L.procs j).ticks = tr.countP (Event.runs (L.procs j).pid)

omit [DecidableEq ι] in
/-- A process is dispatched at most as often as there are dispatches. -/
lemma countP_runs_le (q : ℤ) (tr : List (Event ι)) :
    tr.countP (Event.runs q) ≤ tr.countP Event.isDispatch := by
  refine List.countP_mono_left fun e _ he => ?_
  obtain ⟨w, rfl⟩ := Event.of_runs he
  rfl

omit [DecidableEq ι] in
/-- Outside dispatches, ticks change only when the slot is taken or reaped. -/
lemma Change.ticks {n : ℤ} {j : ι} {x x' : Entry ι} (h : Change n e j x x')
    (he : e.isDispatch = false) (hx' : x'.state ≠ unused) :
    x.state ≠ unused ∧ x'.pid = x.pid ∧ x'.ticks = x.ticks ∨
      e = .alloc j n ∧ x'.pid = n ∧ x'.ticks = 0 := by
  cases h with
  | keep hpid _ _ hticks hst =>
      exact Or.inl ⟨fun hu => hx' ((unused_iff_of_keep hst).mpr hu), hpid, hticks⟩
  | alloc he _ => exact Or.inr ⟨he, rfl, rfl⟩
  | forkFail _ _ | reap _ _ => exact absurd rfl hx'
  | publish _ hst | trap _ hst | exit _ hst => exact Or.inl ⟨by simp [hst], rfl, rfl⟩
  | kill _ hst => exact Or.inl ⟨fun hu => hx' (hst.eq_iff.mpr hu), rfl, rfl⟩
  | assign _ _ => exact Or.inl ⟨hx', rfl, rfl⟩
  | dispatch hd _ =>
      rw [hd] at he
      cases he

/-- **Ticks**: the invariant in one step, with fewer than `2^31 - 1` dispatches. -/
lemma TickInv.step (h : TickInv tr L) (hp : PidInv ip tr L) (hs : LifeStep ip L e L')
    (hallocs : FewAllocs (tr ++ [e]))
    (hfew : ((tr ++ [e]).countP Event.isDispatch : ℤ) < intMax) : TickInv (tr ++ [e]) L' := by
  intro j hj
  cases he : e.isDispatch with
  | false =>
      have hruns : ∀ q, e.runs q = false := fun q => by
        cases e <;> first | rfl | cases he
      rw [List.countP_append]
      rcases (hs.change j).ticks he hj with ⟨hu, hpid, ht⟩ | ⟨hal, hpid, ht⟩
      · rw [hpid, ht, h j hu]
        simp [hruns]
      · -- a new pid has no dispatches yet
        have hnone : tr.countP (Event.runs (L'.procs j).pid) = 0 := by
          refine List.countP_eq_zero.mpr fun e' he' hr => ?_
          have hold := hp.old e' he' _ (Or.inr hr)
          have hnext := (hp.fresh_step hs hallocs).2.2 j hal
          omega
        rw [ht, hnone]
        simp [hruns]
  | true =>
      obtain ⟨w, q, rfl⟩ : ∃ w q, e = .dispatched w q := by
        cases e <;> first | exact ⟨_, _, rfl⟩ | cases he
      obtain ⟨hw, rfl, hprocs⟩ := hs.of_dispatched
      rw [hprocs] at hj ⊢
      rcases eq_or_ne j w with rfl | hjw
      · have hticks := h j (by simp [hw])
        have hle := countP_runs_le (L.procs j).pid tr
        rw [List.countP_append] at hfew
        simp only [List.countP_singleton, he, if_true] at hfew
        rw [Function.update_self]
        calc incInt (L.procs j).ticks = (L.procs j).ticks + 1 := incInt_of_lt (by omega)
          _ = tr.countP (Event.runs (L.procs j).pid) + 1 := by rw [hticks]
          _ = (tr ++ [Event.dispatched j (L.procs j).pid]).countP (Event.runs (L.procs j).pid) := by
              simp [Event.runs]
      · -- another process has another pid
        rw [Function.update_of_ne hjw] at hj ⊢
        have hpos := hp.pos j hj
        have hne : (L.procs w).pid ≠ (L.procs j).pid := fun hpid =>
          hjw (hp.inj w j hpid (by omega)).symm
        rw [List.countP_append, h j hj]
        simp [Event.runs, hne]

/-! ### Runs -/

namespace Life.Initial

variable (h : L.Initial ip)
include h

/-- A slot in use at boot is that of the first process. -/
lemma eq_init {j : ι} (hj : (L.procs j).state ≠ unused) : j = ip := by
  by_contra hne
  exact hj (h.free j hne).1

lemma pidInv : PidInv ip [] L := by
  have hpid : ∀ j, (L.procs j).pid ≠ 0 → j = ip := fun j hj => by
    by_contra hne
    exact hj (h.free j hne).2
  refine ⟨fun _ => h.nextpid, h.init.2.1, fun j => ?_, fun j hj => ?_, fun i j hij hi => ?_,
    by simp⟩
  · rcases eq_or_ne j ip with rfl | hj
    · simp [h.init.2.1, fresh]
    · simp [(h.free j hj).2, fresh]
  · rw [h.eq_init hj, h.init.2.1]
  · rw [hpid i hi, hpid j (hij ▸ hi)]

lemma pastInv : PastInv ip [] L := by
  refine ⟨fun j hj hne => absurd (h.eq_init hj.ne_unused) hne, fun j hj => ?_, by simp, by simp⟩
  have hjp : j = ip := h.eq_init (by simp [hj])
  rw [hjp, h.init.1] at hj
  cases hj

lemma tickInv : TickInv [] L := by
  intro j hj
  rw [h.eq_init hj, h.init.2.2]
  rfl

end Life.Initial

/-- **Pids and the past** in every run. -/
lemma PastInv.run (h0 : L.Initial ip) (ht : TreeInv ip L.procs) (hrun : Run (LifeStep ip) L tr L')
    (hfew : FewAllocs tr) : PidInv ip tr L' ∧ PastInv ip tr L' ∧ TreeInv ip L'.procs := by
  induction hrun with
  | nil => exact ⟨h0.pidInv, h0.pastInv, ht⟩
  | snoc _ hs ih =>
      obtain ⟨hp, hpast, ht⟩ := ih hfew.init
      exact ⟨hp.step ht hs hfew, hpast.step hp ht hs hfew, ht.step hs⟩

/-- **Ticks** in every run. -/
lemma TickInv.run (h0 : L.Initial ip) (ht : TreeInv ip L.procs) (hrun : Run (LifeStep ip) L tr L')
    (hfew : FewAllocs tr) (hticks : (tr.countP Event.isDispatch : ℤ) < intMax) :
    TickInv tr L' := by
  induction hrun with
  | nil => exact h0.tickInv
  | snoc hrun hs ih =>
      have hle := hticks
      rw [List.countP_append] at hle
      exact (ih hfew.init (by omega)).step (PastInv.run h0 ht hrun hfew.init).1 hs hfew hticks

/-! ### The pids given out -/

/-- The allocations in a trace, with that of the first process. -/
def allocations (tr : List (Event ι)) : ℕ := tr.countP Event.isAlloc + 1

/-- The pids given out in a trace, with that of the first process. -/
def pidsGiven (tr : List (Event ι)) : List ℤ := 1 :: tr.filterMap Event.given

omit [DecidableEq ι] in
/-- A trace within the bound when the first process is counted as well. -/
lemma fewAllocs_of_allocations (h : (allocations tr : ℤ) < intMax) :
    FewAllocs tr ∧ fresh tr ≤ intMax := by
  simp only [allocations, FewAllocs, fresh] at h ⊢
  omega

/-- **Pids given out**: the `k`-th allocation gives out the pid `k`. -/
lemma pidsGiven_eq (h0 : L.Initial ip) (ht : TreeInv ip L.procs)
    (hrun : Run (LifeStep ip) L tr L') (hfew : FewAllocs tr) :
    pidsGiven tr = (List.range (allocations tr)).map fun k : ℕ => (k : ℤ) + 1 := by
  induction hrun with
  | nil => rfl
  | @snoc tr e L₁ L₂ hrun hs ih =>
      have hgiven : pidsGiven (tr ++ [e]) = pidsGiven tr ++ [e].filterMap Event.given := by
        simp [pidsGiven]
      rw [hgiven, ih hfew.init]
      rcases hs.counter with ⟨⟨np, rfl⟩, -⟩ | ⟨he, -⟩
      · have hp := (PastInv.run h0 ht hrun hfew.init).1
        have hnext : L₁.nextpid = (allocations tr : ℤ) + 1 := by
          rw [((hp.fresh_step hs hfew).2.2 np rfl).1, fresh, allocations]
          omega
        have hcount : allocations (tr ++ [Event.alloc np L₁.nextpid]) = allocations tr + 1 := by
          simp [allocations, Event.isAlloc]
        rw [hcount, List.range_succ, List.map_append]
        simp [Event.given, hnext]
      · have hnone : e.given = none := by
          cases e <;> first | rfl | cases he
        have hcount : allocations (tr ++ [e]) = allocations tr := by simp [allocations, he]
        rw [hcount]
        simp [hnone]

end Xv6Lottery
