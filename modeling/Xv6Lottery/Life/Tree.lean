import Xv6Lottery.Life.Step

/-!
The process tree and the sleepers in `wait`.

* `Descends`: following the parent links of a slot leads to the first process.
* `TreeInv`: parents are alive, free slots have no parent, and every process that is
  born descends from the first. `TreeInv.step`: every step of the machine keeps it.
  Only four kinds of step touch the tree: the half-built child is linked (`adopt`) and
  published, `exit` hands the children to `ip`, and `reap` removes a leaf.
* `WaitInv`: a process asleep in `wait` has a child, has no zombie child, and has not
  been killed. `WaitInv.step`: every step keeps it, given the tree.
-/

namespace Xv6Lottery

open Procstate

variable {ι : Type} {ip : ι} {p p' : ι → Entry ι}

/-! ### The tree -/

/-- The parent links of a slot lead to `ip`. -/
inductive Descends (ip : ι) (p : ι → Entry ι) : ι → Prop
  | root : Descends ip p ip
  | child {i q : ι} (h : (p i).parent = some q) (hq : Descends ip p q) : Descends ip p i

/-- A descent stays a descent when the links along it stay. -/
lemma Descends.congr {S : ι → Prop} (hS : ∀ i q, S i → (p i).parent = some q → S q)
    (heq : ∀ i, S i → (p' i).parent = (p i).parent) {i : ι} (h : Descends ip p i) (hi : S i) :
    Descends ip p' i := by
  induction h with
  | root => exact .root
  | child h _ ih => exact .child ((heq _ hi).trans h) (ih (hS _ _ hi h))

/-- Following the links from a descendant reaches `ip` in finitely many steps. -/
lemma Descends.exists_iterate {i : ι} (h : Descends ip p i) :
    ∃ m, (fun o : Option ι => o.bind fun j => (p j).parent)^[m] (some i) = some ip := by
  induction h with
  | root => exact ⟨0, rfl⟩
  | child h _ ih =>
      obtain ⟨m, hm⟩ := ih
      refine ⟨m + 1, ?_⟩
      rw [Function.iterate_succ_apply, Option.bind_some, h]
      exact hm

/-- The process tree. -/
structure TreeInv (ip : ι) (p : ι → Entry ι) : Prop where
  init : (p ip).state.Alive ∧ (p ip).parent = none
  alive : ∀ i q, (p i).parent = some q → (p q).state.Alive
  free : ∀ i, (p i).state = unused → (p i).parent = none
  root : ∀ i, (p i).state.Born → Descends ip p i

namespace TreeInv

variable (h : TreeInv ip p)
include h

/-- A born process other than the first has a living parent. -/
lemma exists_parent {i : ι} (hi : (p i).state.Born) (hne : i ≠ ip) :
    ∃ q, (p i).parent = some q ∧ (p q).state.Alive := by
  cases h.root i hi with
  | root => exact absurd rfl hne
  | child hq _ => exact ⟨_, hq, h.alive _ _ hq⟩

/-- No process is its own parent. -/
lemma parent_ne_self {i : ι} (hi : (p i).state.Born) : (p i).parent ≠ some i := by
  have hd := h.root i hi
  clear hi
  induction hd with
  | root => simp [h.init.2]
  | child hq _ ih =>
      intro hself
      obtain rfl := Option.some.inj (hq.symm.trans hself)
      exact ih hself

/-- A step that keeps the links and the living, and bears and frees nobody, keeps the
tree. -/
lemma mono (hpar : ∀ i, (p' i).parent = (p i).parent)
    (hal : ∀ i, (p i).state.Alive → (p' i).state.Alive)
    (hborn : ∀ i, (p' i).state.Born → (p i).state.Born)
    (hfree : ∀ i, (p' i).state = unused → (p i).parent = none) : TreeInv ip p' := by
  refine ⟨⟨hal ip h.init.1, (hpar ip).trans h.init.2⟩, fun i q hq => ?_, fun i hi => ?_,
    fun i hi => ?_⟩
  · exact hal q (h.alive i q ((hpar i).symm.trans hq))
  · exact (hpar i).trans (hfree i hi)
  · have hd := h.root i (hborn i hi)
    exact hd.congr (S := fun _ => True) (fun _ _ _ _ => trivial) (fun i _ => hpar i) trivial

variable [DecidableEq ι]

/-- The same for a change of one slot. -/
lemma update {j : ι} {x : Entry ι} (hpar : x.parent = (p j).parent)
    (hal : (p j).state.Alive → x.state.Alive) (hborn : x.state.Born → (p j).state.Born)
    (hfree : x.state = unused → (p j).parent = none) : TreeInv ip (Function.update p j x) := by
  refine h.mono ?_ ?_ ?_ ?_
  · exact (Function.forall_update_iff p fun i y => y.parent = (p i).parent).mpr
      ⟨hpar, fun _ _ => rfl⟩
  · exact (Function.forall_update_iff p fun i y => (p i).state.Alive → y.state.Alive).mpr
      ⟨hal, fun _ _ => id⟩
  · exact (Function.forall_update_iff p fun i y => y.state.Born → (p i).state.Born).mpr
      ⟨hborn, fun _ _ => id⟩
  · exact (Function.forall_update_iff p fun i y => y.state = unused → (p i).parent = none).mpr
      ⟨hfree, fun i _ => h.free i⟩

/-- Linking a half-built child. -/
lemma adopt {i np : ι} (hi : (p i).state = running) (hnp : (p np).state = embryo) :
    TreeInv ip (Function.update p np { p np with parent := some i }) := by
  have hne : ∀ {j}, (p j).state.Born → j ≠ np := fun {j} hj hjn =>
    hj.ne_embryo (hjn ▸ hnp)
  have hst : ∀ j, (Function.update p np { p np with parent := some i } j).state = (p j).state :=
    (Function.forall_update_iff p fun j y => y.state = (p j).state).mpr ⟨rfl, fun _ _ => rfl⟩
  refine ⟨⟨by rw [hst]; exact h.init.1, ?_⟩, fun j q hq => ?_, fun j hj => ?_, fun j hj => ?_⟩
  · rw [Function.update_of_ne (hne (Or.inl h.init.1))]
    exact h.init.2
  · rw [hst]
    rcases eq_or_ne j np with rfl | hj
    · rw [Function.update_self] at hq
      obtain rfl : i = q := Option.some.inj hq
      rw [hi]
      exact alive_running
    · rw [Function.update_of_ne hj] at hq
      exact h.alive j q hq
  · rw [hst] at hj
    rw [Function.update_of_ne (fun hjn => by subst hjn; rw [hnp] at hj; cases hj)]
    exact h.free j hj
  · rw [hst] at hj
    refine (h.root j hj).congr (S := fun j => j ≠ np) (fun j q _ hq => ?_) (fun j hjn => ?_)
      (hne hj)
    · exact hne (h.alive j q hq).born
    · rw [Function.update_of_ne hjn]

/-- Publishing a linked child. -/
lemma publish {i np : ι} (hi : (p i).state = running) (hnp : (p np).state = embryo)
    (hpar : (p np).parent = some i) :
    TreeInv ip (Function.update p np { p np with state := runnable }) := by
  have hlink : ∀ j, (Function.update p np { p np with state := runnable } j).parent =
      (p j).parent :=
    (Function.forall_update_iff p fun j y => y.parent = (p j).parent).mpr ⟨rfl, fun _ _ => rfl⟩
  have hal : ∀ j, (p j).state.Alive →
      (Function.update p np { p np with state := runnable } j).state.Alive :=
    (Function.forall_update_iff p fun j y => (p j).state.Alive → y.state.Alive).mpr
      ⟨fun _ => alive_runnable, fun _ _ => id⟩
  have hdesc : ∀ j, Descends ip p j →
      Descends ip (Function.update p np { p np with state := runnable }) j := fun j hj =>
    hj.congr (S := fun _ => True) (fun _ _ _ _ => trivial) (fun i _ => hlink i) trivial
  refine ⟨⟨hal ip h.init.1, (hlink ip).trans h.init.2⟩, fun j q hq => ?_, fun j hj => ?_,
    fun j hj => ?_⟩
  · exact hal q (h.alive j q ((hlink j).symm.trans hq))
  · rcases eq_or_ne j np with rfl | hjn
    · rw [Function.update_self] at hj
      cases hj
    · rw [Function.update_of_ne hjn] at hj ⊢
      exact h.free j hj
  · rcases eq_or_ne j np with rfl | hjn
    · refine .child ((hlink j).trans hpar) (hdesc i (h.root i (Or.inl ?_)))
      rw [hi]
      exact alive_running
    · rw [Function.update_of_ne hjn] at hj
      exact hdesc j (h.root j hj)

/-- `exit` hands the children to `ip`; a path that went through the exiting process
now goes to `ip` directly. -/
lemma exit {i : ι} (hi : (p i).state = running) (hip : i ≠ ip) (heff : ExitEffect ip i p p') :
    TreeInv ip p' := by
  have hlink : ∀ j, (p' j).parent = if (p j).parent = some i then some ip else (p j).parent := by
    intro j
    obtain ⟨st, _, he⟩ := heff.entry j
    rw [he]
  have hother : ∀ j, j ≠ i → (p j).state.Wakes (p' j).state := by
    intro j hj
    obtain ⟨st, hw, he⟩ := heff.entry j
    rw [if_neg hj] at hw
    rw [he]
    exact hw
  have hself : (p' i).state = zombie := by
    obtain ⟨st, hw, he⟩ := heff.entry i
    rw [if_pos rfl] at hw
    rw [he, hw]
  have hinit : (p' ip).state.Alive := (hother ip (Ne.symm hip)).alive h.init.1
  refine ⟨⟨hinit, ?_⟩, fun j q hq => ?_, fun j hj => ?_, fun j hj => ?_⟩
  · rw [hlink, h.init.2]
    rfl
  · rw [hlink] at hq
    split_ifs at hq with hji
    · obtain rfl : ip = q := Option.some.inj hq
      exact hinit
    · have hqi : q ≠ i := fun hqi => hji (hqi ▸ hq)
      exact (hother q hqi).alive (h.alive j q hq)
  · have hji : j ≠ i := by
      rintro rfl
      rw [hself] at hj
      cases hj
    rw [hlink, h.free j ((hother j hji).eq_of_ne hj)]
    rfl
  · have hborn : (p j).state.Born := by
      rcases eq_or_ne j i with rfl | hji
      · rw [hi]
        exact born_running
      · exact (hother j hji).born hj
    have hdesc := h.root j hborn
    clear hj hborn
    induction hdesc with
    | root => exact .root
    | @child j q hq _ ih =>
        by_cases hji : (p j).parent = some i
        · exact .child (by rw [hlink, if_pos hji]) .root
        · exact .child (by rw [hlink, if_neg hji]; exact hq) ih

/-- `reap` removes a zombie, which is nobody's parent. -/
lemma reap {z : ι} (hz : (p z).state = zombie) :
    TreeInv ip (Function.update p z
      { p z with
        pid := 0, tickets := 0, ticks := 0, parent := none, killed := false,
        state := unused }) := by
  have hne : ∀ {j}, (p j).state.Alive → j ≠ z := fun {j} hj hjz => hj.ne_zombie (hjz ▸ hz)
  refine ⟨?_, fun j q hq => ?_, fun j hj => ?_, fun j hj => ?_⟩
  · rw [Function.update_of_ne (hne h.init.1)]
    exact h.init
  · rcases eq_or_ne j z with rfl | hjz
    · simp at hq
    · rw [Function.update_of_ne hjz] at hq
      rw [Function.update_of_ne (hne (h.alive j q hq))]
      exact h.alive j q hq
  · rcases eq_or_ne j z with rfl | hjz
    · rw [Function.update_self]
    · rw [Function.update_of_ne hjz] at hj ⊢
      exact h.free j hj
  · have hjz : j ≠ z := by
      rintro rfl
      rw [Function.update_self] at hj
      rcases hj with (hj | hj | hj) | hj <;> cases hj
    rw [Function.update_of_ne hjz] at hj
    refine (h.root j hj).congr (S := fun j => j ≠ z) (fun j q _ hq => hne (h.alive j q hq))
      (fun j hjz => ?_) hjz
    rw [Function.update_of_ne hjz]

end TreeInv

variable [DecidableEq ι]

/-- `wakeEntries` wakes. -/
lemma wakeEntries_apply (p : ι → Entry ι) (ch : Option (Chan ι)) (j : ι) :
    ∃ st, (p j).state.Wakes st ∧ wakeEntries p ch j = { p j with state := st } := by
  by_cases h : (p j).state = sleeping ∧ (p j).chan = ch
  · exact ⟨runnable, Or.inr ⟨h.1, rfl⟩, if_pos h⟩
  · exact ⟨(p j).state, Or.inl rfl, if_neg h⟩

/-- A wakeup does not touch the tree. -/
lemma TreeInv.wakeup (h : TreeInv ip p) (ch : Option (Chan ι)) : TreeInv ip (wakeEntries p ch) := by
  refine h.mono (fun i => ?_) (fun i hi => ?_) (fun i hi => ?_) (fun i hi => ?_) <;>
    obtain ⟨st, hw, he⟩ := wakeEntries_apply p ch i
  · rw [he]
  · rw [he]
    exact hw.alive hi
  · rw [he] at hi
    exact hw.born hi
  · rw [he] at hi
    exact h.free i (hw.eq_of_ne hi)

/-- **The tree is kept by every step.** -/
lemma TreeInv.step {L L' : Life ι} {e : Event ι} (h : TreeInv ip L.procs)
    (hs : LifeStep ip L e L') : TreeInv ip L'.procs := by
  cases hs with
  | quiet _ => exact h
  | alloc hnp =>
      refine h.update rfl (fun ha => ?_) (fun hb => ?_) (fun hu => by cases hu)
      · rw [hnp] at ha
        rcases ha with ha | ha | ha <;> cases ha
      · exact absurd rfl hb.ne_embryo
  | forkFail hnp hpar =>
      refine h.update rfl (fun ha => absurd hnp ha.ne_embryo) (fun hb => ?_) (fun _ => hpar)
      rcases hb with (hb | hb | hb) | hb <;> cases hb
  | adopt hi hnp _ => exact h.adopt hi hnp
  | publish hi hnp hpar => exact h.publish hi hnp hpar
  | dispatch hw =>
      exact h.update rfl (fun _ => alive_running) (fun _ => by simp [hw])
        (fun hu => by cases hu)
  | yield hi =>
      exact h.update rfl (fun _ => alive_runnable) (fun _ => by simp [hi])
        (fun hu => by cases hu)
  | sleepOn hi | sleepWait hi _ _ _ =>
      exact h.update rfl (fun _ => alive_sleeping) (fun _ => by simp [hi])
        (fun hu => by cases hu)
  | clearChan _ => exact h.update rfl id id (h.free _)
  | wakeup => exact h.wakeup _
  | @kill p n x j _ =>
      have hw := wakes_kill (p j).state
      exact h.update rfl hw.alive hw.born fun hu => h.free _ (hw.eq_of_ne hu)
  | killMiss _ => exact h
  | trap _ | assign _ => exact h.update rfl id id (h.free _)
  | exit hi hip heff => exact h.exit hi hip heff
  | reap _ hz _ => exact h.reap hz

/-! ### Sleepers in `wait` -/

/-- A process asleep in `wait` has a child, has no zombie child, and has not been
killed. -/
def WaitInv (p : ι → Entry ι) : Prop :=
  ∀ i, (p i).state = sleeping → (p i).chan = some (.proc i) →
    (∃ k, (p k).parent = some i) ∧ (∀ k, (p k).parent = some i → (p k).state ≠ zombie) ∧
      (p i).killed = false

namespace WaitInv

variable (h : WaitInv p)
include h

/-- A change of one slot that keeps its link, makes it neither a zombie nor a sleeper in
`wait`, and marks no sleeper, keeps the invariant. -/
lemma update {j : ι} {x : Entry ι} (hpar : x.parent = (p j).parent)
    (hz : x.state = zombie → (p j).state = zombie)
    (hw : x.state = sleeping → x.chan = some (.proc j) →
      (p j).state = sleeping ∧ (p j).chan = some (.proc j) ∧ x.killed = (p j).killed) :
    WaitInv (Function.update p j x) := by
  have hlink : ∀ k, (Function.update p j x k).parent = (p k).parent :=
    (Function.forall_update_iff p fun k y => y.parent = (p k).parent).mpr ⟨hpar, fun _ _ => rfl⟩
  have hzombie : ∀ k, (Function.update p j x k).state = zombie → (p k).state = zombie :=
    (Function.forall_update_iff p fun k y => y.state = zombie → (p k).state = zombie).mpr
      ⟨hz, fun _ _ => id⟩
  have hsleep : ∀ i, (Function.update p j x i).state = sleeping →
      (Function.update p j x i).chan = some (.proc i) → (p i).state = sleeping ∧
        (p i).chan = some (.proc i) ∧ (Function.update p j x i).killed = (p i).killed :=
    (Function.forall_update_iff p fun i y => y.state = sleeping → y.chan = some (.proc i) →
      (p i).state = sleeping ∧ (p i).chan = some (.proc i) ∧ y.killed = (p i).killed).mpr
      ⟨hw, fun _ _ hs hch => ⟨hs, hch, rfl⟩⟩
  intro i hs hch
  obtain ⟨hs', hch', hkill⟩ := hsleep i hs hch
  obtain ⟨⟨k, hk⟩, h2, h3⟩ := h i hs' hch'
  refine ⟨⟨k, (hlink k).trans hk⟩, fun k hk hzk => ?_, hkill.trans h3⟩
  exact h2 k ((hlink k).symm.trans hk) (hzombie k hzk)

/-- A wakeup leaves fewer sleepers. -/
lemma wakeup (ch : Option (Chan ι)) : WaitInv (wakeEntries p ch) := by
  intro i hs hch
  obtain ⟨st, hw, he⟩ := wakeEntries_apply p ch i
  rw [he] at hs hch
  obtain ⟨⟨k, hk⟩, h2, h3⟩ := h i (hw.eq_of_ne hs) hch
  refine ⟨⟨k, ?_⟩, fun k hk => ?_, by rw [he]; exact h3⟩
  · obtain ⟨st', _, he'⟩ := wakeEntries_apply p ch k
    rw [he']
    exact hk
  · obtain ⟨st', hw', he'⟩ := wakeEntries_apply p ch k
    rw [he'] at hk ⊢
    exact fun hz => h2 k hk (hw'.eq_of_ne hz)

/-- Linking a half-built child of a running process. -/
lemma adopt {i np : ι} (hi : (p i).state = running) (hnp : (p np).state = embryo)
    (hpar : (p np).parent = none) :
    WaitInv (Function.update p np { p np with parent := some i }) := by
  have hne : ∀ {j}, (p j).state = sleeping → j ≠ np := fun {j} hj hjn => by
    subst hjn
    rw [hnp] at hj
    cases hj
  intro j hs hch
  have hjn : j ≠ np := by
    rintro rfl
    rw [Function.update_self] at hs
    exact hne hs rfl
  rw [Function.update_of_ne hjn] at hs hch ⊢
  obtain ⟨⟨k, hk⟩, h2, h3⟩ := h j hs hch
  refine ⟨⟨k, ?_⟩, fun k hk => ?_, h3⟩
  · rw [Function.update_of_ne (fun hkn => by subst hkn; rw [hpar] at hk; cases hk)]
    exact hk
  · rcases eq_or_ne k np with rfl | hkn
    · rw [Function.update_self] at hk ⊢
      obtain rfl : i = j := Option.some.inj hk
      rw [hi] at hs
      cases hs
    · rw [Function.update_of_ne hkn] at hk ⊢
      exact h2 k hk

/-- Going to sleep in `wait`. -/
lemma sleepWait {i : ι} (hi : (p i).state = running) (hkid : ∃ k, (p k).parent = some i)
    (hzombie : ∀ k, (p k).parent = some i → (p k).state ≠ zombie)
    (hkilled : (p i).killed = false) :
    WaitInv (Function.update p i { p i with chan := some (.proc i), state := sleeping }) := by
  have hlink : ∀ k, (Function.update p i
      { p i with chan := some (.proc i), state := sleeping } k).parent = (p k).parent :=
    (Function.forall_update_iff p fun k y => y.parent = (p k).parent).mpr ⟨rfl, fun _ _ => rfl⟩
  have hst : ∀ k, (Function.update p i
      { p i with chan := some (.proc i), state := sleeping } k).state = zombie →
      (p k).state = zombie :=
    (Function.forall_update_iff p fun k y => y.state = zombie → (p k).state = zombie).mpr
      ⟨by simp, fun _ _ => id⟩
  intro j hs hch
  rcases eq_or_ne j i with rfl | hj
  · obtain ⟨k, hk⟩ := hkid
    refine ⟨⟨k, (hlink k).trans hk⟩, fun k hk hz => ?_, by rw [Function.update_self]; exact hkilled⟩
    exact hzombie k ((hlink k).symm.trans hk) (hst k hz)
  · rw [Function.update_of_ne hj] at hs hch ⊢
    obtain ⟨⟨k, hk⟩, h2, h3⟩ := h j hs hch
    exact ⟨⟨k, (hlink k).trans hk⟩, fun k hk hz => h2 k ((hlink k).symm.trans hk) (hst k hz), h3⟩

/-- `exit` wakes whoever waits for the exiting process, and `ip` if it inherits a
zombie; every other sleeper keeps its children. -/
lemma exit {i : ι} (hself : (p i).parent ≠ some i) (heff : ExitEffect ip i p p') :
    WaitInv p' := by
  intro j hs hch
  obtain ⟨st, hw, he⟩ := heff.entry j
  have hji : j ≠ i := by
    rintro rfl
    rw [if_pos rfl] at hw
    rw [he, hw] at hs
    cases hs
  rw [if_neg hji] at hw
  have hch' : (p j).chan = some (.proc j) := by rw [he] at hch; exact hch
  have hs' : (p j).state = sleeping := by
    rw [he] at hs
    exact hw.eq_of_ne hs
  obtain ⟨⟨k, hk⟩, h2, h3⟩ := h j hs' hch'
  refine ⟨⟨k, ?_⟩, fun k hk hz => ?_, by rw [he]; exact h3⟩
  · obtain ⟨_, _, hek⟩ := heff.entry k
    rw [hek]
    simp only [hk, Option.some.injEq]
    rw [if_neg hji]
  · obtain ⟨stk, hwk, hek⟩ := heff.entry k
    rw [hek] at hk hz
    simp only at hk hz
    -- a zombie child of `j`: the exiting process, an old child, or an inherited one
    rcases eq_or_ne k i with rfl | hki
    · rw [if_neg hself] at hk
      exact heff.wakesParent j (by rw [hch', hk]; rfl) hs
    · rw [if_neg hki] at hwk
      have hzk : (p k).state = zombie := hwk.eq_of_ne hz
      split_ifs at hk with hinh
      · obtain rfl : ip = j := Option.some.inj hk
        exact heff.wakesInit k hinh hzk ip hch' hs
      · exact h2 k hk hzk

/-- Reaping a zombie, which no sleeper has for a child. -/
lemma reap {z : ι} (hz : (p z).state = zombie) :
    WaitInv (Function.update p z
      { p z with
        pid := 0, tickets := 0, ticks := 0, parent := none, killed := false,
        state := unused }) := by
  intro j hs hch
  have hjz : j ≠ z := by
    rintro rfl
    rw [Function.update_self] at hs
    cases hs
  rw [Function.update_of_ne hjz] at hs hch ⊢
  obtain ⟨⟨k, hk⟩, h2, h3⟩ := h j hs hch
  refine ⟨⟨k, ?_⟩, fun k hk => ?_, h3⟩
  · rw [Function.update_of_ne (fun hkz : k = z => h2 k hk (hkz ▸ hz))]
    exact hk
  · rcases eq_or_ne k z with rfl | hkz
    · simp at hk
    · rw [Function.update_of_ne hkz] at hk ⊢
      exact h2 k hk

end WaitInv

/-- **No stuck waiter**: every step keeps the invariant of the sleepers in `wait`. -/
lemma WaitInv.step {L L' : Life ι} {e : Event ι} (h : WaitInv L.procs) (ht : TreeInv ip L.procs)
    (hs : LifeStep ip L e L') : WaitInv L'.procs := by
  cases hs with
  | quiet _ | killMiss _ => exact h
  | alloc _ | forkFail _ _ | publish _ _ _ | dispatch _ | yield _ =>
      exact h.update rfl (fun hz => by cases hz) (fun hs => by cases hs)
  | adopt hi hnp hpar => exact h.adopt hi hnp hpar
  | sleepOn _ => exact h.update rfl (fun hz => by cases hz) (fun _ hch => by cases hch)
  | sleepWait hi hkid hzombie hkilled => exact h.sleepWait hi hkid hzombie hkilled
  | clearChan _ => exact h.update rfl id (fun _ hch => by cases hch)
  | wakeup => exact h.wakeup _
  | kill _ =>
      refine h.update rfl (fun hz => ?_) (fun hs => ?_)
      · split_ifs at hz
        exact hz
      · split_ifs at hs with hsl
        exact absurd hs hsl
  | trap hi =>
      refine h.update rfl id (fun hs => ?_)
      exact absurd (hi.symm.trans hs) (by decide)
  | assign _ => exact h.update rfl id (fun hs hch => ⟨hs, hch, rfl⟩)
  | exit hi _ heff =>
      refine h.exit (ht.parent_ne_self ?_) heff
      rw [hi]
      exact born_running
  | reap _ hz _ => exact h.reap hz

end Xv6Lottery
