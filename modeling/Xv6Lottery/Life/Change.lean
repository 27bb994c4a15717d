import Xv6Lottery.Life.Tree
import Xv6Lottery.Library.Run

/-!
What one step can do to one slot, and the invariants of single fields.

* `Change`, `LifeStep.change`: the effect of a step on the state, pid, killed mark,
  tickets and ticks of a slot, by the event of the step. A slot is taken, published,
  given back, dispatched, killed, trapped, assigned tickets, left by `exit`, reaped, or
  keeps these fields.
* `Change.born`, `Change.freed`, `Change.embryo`: how a slot comes to be in use no longer, and
  how a child stops being half-built.
* `TicketInv.run`: every slot in use has at least one ticket, and at most `M` when
  assignments are bounded by `M`.
* `KillSafe`, `KillInv.step`: no kill marks a free slot and no marked slot is given
  back by a failing `fork`, and then marks are on processes that were killed or
  trapped themselves.
-/

namespace Xv6Lottery

open Procstate Library

variable {ι : Type} {ip : ι}

/-! ### One slot -/

/-- The change of the entry `x` of slot `j` in a step with the event `e`, where the pid
counter stands at `n`. -/
inductive Change (n : ℤ) (e : Event ι) (j : ι) (x : Entry ι) : Entry ι → Prop
  | keep {x' : Entry ι} (hpid : x'.pid = x.pid) (hkilled : x'.killed = x.killed)
      (htickets : x'.tickets = x.tickets) (hticks : x'.ticks = x.ticks)
      (hst : x'.state = x.state ∨ x.state.Alive ∧ x'.state.Alive) : Change n e j x x'
  | alloc (he : e = .alloc j n) (hst : x.state = unused) :
      Change n e j x { x with state := embryo, pid := n, tickets := 100, ticks := 0 }
  | forkFail (he : e = .forkFailed (some j)) (hst : x.state = embryo) :
      Change n e j x { x with state := unused }
  | publish {P : ℤ} (he : e = .forked P x.pid j) (hst : x.state = embryo) :
      Change n e j x { x with state := runnable }
  | dispatch (he : e = .dispatched j x.pid) (hst : x.state = runnable) :
      Change n e j x { x with ticks := incInt x.ticks, state := running }
  | kill {st : Procstate} (he : e = .killed x.pid (some j)) (hst : x.state.Wakes st) :
      Change n e j x { x with killed := true, state := st }
  | trap (he : e = .trapped j x.pid) (hst : x.state = running) :
      Change n e j x { x with killed := true }
  | assign {m : ℤ} (he : e = .assigned m (some j)) (hm : 1 ≤ m) :
      Change n e j x { x with tickets := m }
  | exit {q : Option ι} (he : e = .exited j x.pid) (hst : x.state = running) :
      Change n e j x { x with state := zombie, parent := q }
  | reap {P : ℤ} (he : e = .reaped P x.pid j) (hst : x.state = zombie) :
      Change n e j x
        { x with
          pid := 0, tickets := 0, ticks := 0, parent := none, killed := false, state := unused }

lemma Change.refl (n : ℤ) (e : Event ι) (j : ι) (x : Entry ι) : Change n e j x x :=
  .keep rfl rfl rfl rfl (Or.inl rfl)

/-- A wakeup changes no field but the state. -/
lemma Change.wakes {n : ℤ} {e : Event ι} {j : ι} {x x' : Entry ι} (hst : x.state.Wakes x'.state)
    (hpid : x'.pid = x.pid) (hkilled : x'.killed = x.killed) (htickets : x'.tickets = x.tickets)
    (hticks : x'.ticks = x.ticks) : Change n e j x x' := by
  refine .keep hpid hkilled htickets hticks ?_
  rcases hst with h | ⟨h, h'⟩
  · exact Or.inl h
  · exact Or.inr (by simp [h, h'])

variable [DecidableEq ι]

/-- A step that changes the slot `i` only. -/
lemma Change.update {n : ℤ} {e : Event ι} {p : ι → Entry ι} {i : ι} {x : Entry ι}
    (h : Change n e i (p i) x) (j : ι) : Change n e j (p j) (Function.update p i x j) :=
  (Function.forall_update_iff p fun j y => Change n e j (p j) y).mpr
    ⟨h, fun j _ => .refl n e j (p j)⟩ j

/-- **What a step does to a slot.** -/
lemma LifeStep.change {L L' : Life ι} {e : Event ι} (hs : LifeStep ip L e L') (j : ι) :
    Change L.nextpid e j (L.procs j) (L'.procs j) := by
  cases hs with
  | quiet _ | killMiss _ => exact .refl ..
  | alloc hnp => exact .update (.alloc rfl hnp) j
  | forkFail hnp _ => exact .update (.forkFail rfl hnp) j
  | adopt _ _ _ | clearChan _ =>
      refine Change.update ?_ j
      exact .keep rfl rfl rfl rfl (Or.inl rfl)
  | publish _ hnp _ => exact .update (.publish rfl hnp) j
  | dispatch hw => exact .update (.dispatch rfl hw) j
  | yield hi =>
      refine Change.update ?_ j
      exact .keep rfl rfl rfl rfl (Or.inr (by simp [hi]))
  | sleepOn hi | sleepWait hi _ _ _ =>
      refine Change.update ?_ j
      exact .keep rfl rfl rfl rfl (Or.inr (by simp [hi]))
  | @wakeup p n ch =>
      obtain ⟨st, hst, he⟩ := wakeEntries_apply p ch j
      show Change n _ j (p j) (wakeEntries p ch j)
      rw [he]
      exact .wakes hst rfl rfl rfl rfl
  | @kill p n x i hi =>
      exact .update (.kill (by rw [hi]) (wakes_kill _)) j
  | trap hi => exact .update (.trap rfl hi) j
  | assign hm => exact .update (.assign rfl hm) j
  | @exit p p' n i hi _ heff =>
      obtain ⟨st, hst, he⟩ := heff.entry j
      show Change n _ j (p j) (p' j)
      rw [he]
      split_ifs at hst with hj
      · subst hj hst
        exact .exit rfl hi
      · exact .wakes hst rfl rfl rfl rfl
  | reap _ hz _ => exact .update (.reap rfl hz) j

/-- The step in which `allocproc` takes a slot. -/
lemma LifeStep.of_alloc {L L' : Life ι} {np : ι} {q : ℤ} (hs : LifeStep ip L (.alloc np q) L') :
    (L.procs np).state = unused ∧ q = L.nextpid ∧ L'.nextpid = incInt L.nextpid ∧
      L'.procs = Function.update L.procs np
        { L.procs np with state := embryo, pid := q, tickets := 100, ticks := 0 } := by
  cases hs with
  | quiet he => cases he
  | alloc hnp => exact ⟨hnp, rfl, rfl, rfl⟩

omit [DecidableEq ι]

/-- The free slots are the same after a change among the living. -/
lemma unused_iff_of_keep {s s' : Procstate} (h : s' = s ∨ s.Alive ∧ s'.Alive) :
    s' = unused ↔ s = unused := by
  rcases h with rfl | ⟨h, h'⟩
  · exact Iff.rfl
  · exact ⟨fun hu => absurd hu h'.ne_unused, fun hu => absurd hu h.ne_unused⟩

/-- A process that has been published stays so until it is reaped. -/
lemma Change.born {n : ℤ} {e : Event ι} {j : ι} {x x' : Entry ι} (h : Change n e j x x')
    (hx : x.state.Born) : x'.state.Born ∨ ∃ P q, e = .reaped P q j := by
  cases h with
  | keep _ _ _ _ hst =>
      rcases hst with hst | ⟨-, hst⟩
      · exact Or.inl (hst ▸ hx)
      · exact Or.inl hst.born
  | alloc _ hst => exact absurd hst hx.ne_unused
  | forkFail _ hst | publish _ hst => exact absurd hst hx.ne_embryo
  | dispatch _ _ => exact Or.inl born_running
  | kill _ hst =>
      rcases hst with rfl | ⟨-, rfl⟩
      · exact Or.inl hx
      · exact Or.inl born_runnable
  | trap _ _ | assign _ _ => exact Or.inl hx
  | exit _ _ => exact Or.inl born_zombie
  | reap he _ => exact Or.inr ⟨_, _, he⟩

/-- A slot becomes free when its `fork` fails or when it is reaped. -/
lemma Change.freed {n : ℤ} {e : Event ι} {j : ι} {x x' : Entry ι} (h : Change n e j x x')
    (hx : x.state ≠ unused) (hx' : x'.state = unused) :
    (x.state = embryo ∧ e = .forkFailed (some j)) ∨
      (x.state = zombie ∧ ∃ P, e = .reaped P x.pid j) := by
  cases h with
  | keep _ _ _ _ hst => exact absurd ((unused_iff_of_keep hst).mp hx') hx
  | alloc _ hst => exact absurd hst hx
  | forkFail he hst => exact Or.inl ⟨hst, he⟩
  | publish _ _ | dispatch _ _ | exit _ _ => cases hx'
  | kill _ hst => exact absurd (hst.eq_iff.mp hx') hx
  | trap _ _ | assign _ _ => exact absurd hx' hx
  | reap he hst => exact Or.inr ⟨hst, _, he⟩

/-- A half-built child stays so until its `fork` fails or returns. -/
lemma Change.embryo {n : ℤ} {e : Event ι} {j : ι} {x x' : Entry ι} (h : Change n e j x x')
    (hx : x.state = embryo) (hx' : x'.state ≠ embryo) :
    e = .forkFailed (some j) ∨ ∃ P, e = .forked P x.pid j := by
  cases h with
  | keep _ _ _ _ hst =>
      rcases hst with hst | ⟨hal, -⟩
      · exact absurd (hst.trans hx) hx'
      · exact absurd hx hal.ne_embryo
  | forkFail he _ => exact Or.inl he
  | publish he _ => exact Or.inr ⟨_, he⟩
  | kill _ hst =>
      rcases hst with hst | ⟨hs, -⟩
      · exact absurd (hst.trans hx) hx'
      · simp [hs] at hx
  | alloc _ hst | dispatch _ hst | exit _ hst | reap _ hst => simp [hst] at hx
  | trap _ _ | assign _ _ => exact absurd hx hx'

/-! ### Tickets -/

/-- The tickets of the slots in use satisfy `B`. -/
def TicketInv (B : ℤ → Prop) (p : ι → Entry ι) : Prop :=
  ∀ j, (p j).state ≠ unused → B (p j).tickets

/-- A process starts with 100 tickets, and only `sys_assign_tickets` changes that. -/
lemma Change.tickets {B : ℤ → Prop} {n : ℤ} {e : Event ι} {j : ι} {x x' : Entry ι}
    (h : Change n e j x x') (h100 : B 100) (hB : ∀ m, e = .assigned m (some j) → 1 ≤ m → B m)
    (hx : x.state ≠ unused → B x.tickets) (hx' : x'.state ≠ unused) : B x'.tickets := by
  cases h with
  | keep _ _ htickets _ hst =>
      rw [htickets]
      exact hx fun hu => hx' ((unused_iff_of_keep hst).mpr hu)
  | alloc _ _ => exact h100
  | forkFail _ _ | reap _ _ => exact absurd rfl hx'
  | publish _ hst | dispatch _ hst | trap _ hst | exit _ hst => exact hx (by simp [hst])
  | kill _ hst => exact hx fun hu => hx' (hst.eq_iff.mpr hu)
  | assign he hm => exact hB _ he hm

/-- **Tickets**: the invariant along a run. -/
lemma TicketInv.run [DecidableEq ι] {B : ℤ → Prop} {L L' : Life ι} {tr : List (Event ι)}
    (h0 : TicketInv B L.procs) (h100 : B 100) (hrun : Run (LifeStep ip) L tr L')
    (hB : ∀ m j, .assigned m (some j) ∈ tr → 1 ≤ m → B m) : TicketInv B L'.procs := by
  induction hrun with
  | nil => exact h0
  | snoc _ hs ih =>
      have h := ih fun m j hm => hB m j (List.mem_append_left _ hm)
      exact fun j => (hs.change j).tickets h100 (fun m he => hB m j (by simp [he])) (h j)

/-! ### The killed mark -/

/-- A kill of the process `q`, or an unexpected trap that it takes. -/
def Event.aims (q : ℤ) : Event ι → Bool
  | .killed x _ | .trapped _ x => x = q
  | _ => false

/-- A step that marks no free slot and gives no marked slot back: a kill whose scan stops
at a free slot, and a failing `fork` whose child has been killed meanwhile, are excluded. -/
def KillSafe (p : ι → Entry ι) : Event ι → Prop
  | .killed _ (some j) => (p j).state ≠ unused
  | .forkFailed (some np) => (p np).killed = false
  | _ => True

instance (p : ι → Entry ι) (e : Event ι) : Decidable (KillSafe p e) := by
  unfold KillSafe
  split <;> infer_instance

/-- Marks are on slots in use, whose process has been killed or trapped. -/
def KillInv (tr : List (Event ι)) (p : ι → Entry ι) : Prop :=
  ∀ j, (p j).killed = true → (p j).state ≠ unused ∧ ∃ e ∈ tr, e.aims (p j).pid = true

/-- A change of one slot keeps the invariant if the step is safe. -/
lemma Change.killed {n : ℤ} {e : Event ι} {j : ι} {p : ι → Entry ι} {x' : Entry ι}
    {tr : List (Event ι)} (h : Change n e j (p j) x') (hinv : KillInv tr p) (hok : KillSafe p e)
    (hx' : x'.killed = true) :
    x'.state ≠ unused ∧ ∃ e' ∈ tr ++ [e], e'.aims x'.pid = true := by
  -- whoever was marked before has its reason in the past
  have hold : (p j).killed = true → (p j).state ≠ unused ∧
      ∃ e' ∈ tr ++ [e], e'.aims (p j).pid = true := by
    intro hk
    obtain ⟨hst, e', hm, he'⟩ := hinv j hk
    exact ⟨hst, e', List.mem_append_left _ hm, he'⟩
  cases h with
  | keep hpid hkilled _ _ hst =>
      obtain ⟨h1, h2⟩ := hold (hkilled ▸ hx')
      rw [hpid]
      exact ⟨fun hu => h1 ((unused_iff_of_keep hst).mp hu), h2⟩
  | alloc _ hst => exact absurd hst (hold hx').1
  | forkFail he _ =>
      rw [he] at hok
      exact absurd hx' (by rw [show (p j).killed = false from hok]; simp)
  | publish _ _ | dispatch _ _ | exit _ _ => exact ⟨by simp, (hold hx').2⟩
  | kill he hst =>
      rw [he] at hok
      exact ⟨fun hu => hok (hst.eq_iff.mp hu), e, by simp, by simp [he, Event.aims]⟩
  | trap he hst => exact ⟨by simp [hst], e, by simp, by simp [he, Event.aims]⟩
  | assign _ _ => exact hold hx'
  | reap _ _ => cases hx'

/-- **Killed marks**: the invariant in a safe step. -/
lemma KillInv.step [DecidableEq ι] {L L' : Life ι} {e : Event ι} {tr : List (Event ι)}
    (h : KillInv tr L.procs) (hs : LifeStep ip L e L') (hok : KillSafe L.procs e) :
    KillInv (tr ++ [e]) L'.procs :=
  fun j => (hs.change j).killed h hok

/-- A `wait` or a failing `fork` that gives slot `i` back. -/
def Event.frees (i : ι) : Event ι → Bool
  | .reaped _ _ z => z = i
  | .forkFailed (some np) => np = i
  | _ => false

/-- As long as a process is not aimed at and keeps its slot, its mark stays what it is. -/
lemma Change.spared [DecidableEq ι] {n : ℤ} {e : Event ι} {j : ι} {x x' : Entry ι}
    (h : Change n e j x x') (hx : x.state ≠ unused) (ha : e.aims x.pid = false)
    (hf : e.frees j = false) :
    x'.state ≠ unused ∧ x'.pid = x.pid ∧ x'.killed = x.killed := by
  cases h with
  | keep hpid hkilled _ _ hst =>
      exact ⟨fun hu => hx ((unused_iff_of_keep hst).mp hu), hpid, hkilled⟩
  | alloc _ hst => exact absurd hst hx
  | publish _ _ | dispatch _ _ | exit _ _ => exact ⟨by simp, rfl, rfl⟩
  | assign _ _ => exact ⟨hx, rfl, rfl⟩
  | kill h _ | trap h _ =>
      rw [h] at ha
      simp [Event.aims] at ha
  | forkFail h _ | reap h _ =>
      rw [h] at hf
      simp [Event.frees] at hf

/-- **Killed marks** over a stretch of a run that spares the process. -/
lemma killed_of_spared [DecidableEq ι] {L L' : Life ι} {i : ι} {q : ℤ} {tr : List (Event ι)}
    (hi : (L.procs i).state ≠ unused) (hq : (L.procs i).pid = q)
    (hrun : Run (LifeStep ip) L tr L') (htr : ∀ e ∈ tr, e.aims q = false ∧ e.frees i = false) :
    (L'.procs i).state ≠ unused ∧ (L'.procs i).pid = q ∧
      (L'.procs i).killed = (L.procs i).killed := by
  induction hrun with
  | nil => exact ⟨hi, hq, rfl⟩
  | snoc _ hs ih =>
      obtain ⟨h1, h2, h3⟩ := ih fun e he => htr e (List.mem_append_left _ he)
      obtain ⟨ha, hf⟩ := htr _ (List.mem_append_right _ (List.mem_singleton_self _))
      obtain ⟨h4, h5, h6⟩ := (hs.change i).spared h1 (h2.symm ▸ ha) hf
      exact ⟨h4, h5.trans h2, h6.trans h3⟩

end Xv6Lottery
