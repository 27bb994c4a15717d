import Xv6Lottery.Kernel.Table
import Xv6Lottery.Kernel.Rand
import Xv6Lottery.Library.Draw

/-!
One pass of the loop of `scheduler()`: from `acquire(&ptable.lock)` to the switch to
the winner, or to the end of the pass when there is no winner.

* `totalLoop`, `winnerLoop`: the two loops over the table, with the C `int` locals
  `total_tickets` and `tickets_passed` as accumulators that come from the pass
  before. A sum that leaves the range of `int` has no defined value.
* `schedulerPass`: the pass. Its outcome is a dispatch, an idle pass, or a fault:
  an overflow, a division by zero in `generate_random_number`, or a winner loop that
  runs off the end of the table.
* `schedulerPass_idle`, `schedulerPass_overflow`, `schedulerPass_divide`,
  `schedulerPass_dispatch`: the outcome in terms of the ticket total, for the locals
  at zero and at least one ticket with every runnable process.
-/

namespace Xv6Lottery

open Procstate Library

/-- `a + b` on `int`s: undefined on overflow. -/
def addInt (a b : ℤ) : Option ℤ := if IsInt (a + b) then some (a + b) else none

/-- The loop that adds up the tickets of the `RUNNABLE` processes. -/
def totalLoop (t : Table) : List Slot → ℤ → Option ℤ
  | [], totalTickets => some totalTickets
  | p :: ps, totalTickets =>
      if (t p).state = runnable then
        match addInt totalTickets (t p).tickets with
        | none => none
        | some totalTickets => totalLoop t ps totalTickets
      else totalLoop t ps totalTickets

/-- The loop that looks for the winner of `ticketNo`: `tickets_passed` where the loop
stops, and the slot at which it breaks, `none` for `&ptable.proc[NPROC]`. -/
def winnerLoop (t : Table) (ticketNo : ℤ) : List Slot → ℤ → Option (ℤ × Option Slot)
  | [], ticketsPassed => some (ticketsPassed, none)
  | p :: ps, ticketsPassed =>
      if (t p).state = runnable then
        match addInt ticketsPassed (t p).tickets with
        | none => none
        | some ticketsPassed =>
            if ticketsPassed > ticketNo then some (ticketsPassed, some p)
            else winnerLoop t ticketNo ps ticketsPassed
      else winnerLoop t ticketNo ps ticketsPassed

/-- The ways in which a pass can fail to decide. -/
inductive Fault where
  /-- signed overflow of `total_tickets` or `tickets_passed` -/
  | overflow
  /-- `lfsr % 0` -/
  | divide
  /-- the winner loop ends at `&ptable.proc[NPROC]` -/
  | offEnd
  deriving DecidableEq, Repr

/-- The outcome of a pass. -/
inductive Pass where
  /-- `total_tickets <= 0`: nobody is switched to, and the locals stay -/
  | idle (totalTickets : ℤ)
  /-- `w` is switched to; the locals stay until it switches back -/
  | dispatch (w : Slot) (totalTickets ticketsPassed : ℤ) (startState : Ushort)
  | fault (f : Fault) (startState : Ushort)
  deriving DecidableEq, Repr

/-- A pass of `scheduler()` over the table `t`, with the values of `total_tickets` and
`tickets_passed` left by the pass before, and the generator's `start_state`. The total
is narrowed to the `ushort` parameter of `generate_random_number`. -/
def schedulerPass (t : Table) (totalTickets ticketsPassed : ℤ) (startState : Ushort) : Pass :=
  match totalLoop t slots totalTickets with
  | none => .fault .overflow startState
  | some totalTickets =>
      if totalTickets > 0 then
        match generateRandomNumber startState (BitVec.ofInt 16 totalTickets) with
        | (none, startState) => .fault .divide startState
        | (some r, startState) =>
            match winnerLoop t r.toNat slots ticketsPassed with
            | none => .fault .overflow startState
            | some (_, none) => .fault .offEnd startState
            | some (ticketsPassed, some w) => .dispatch w totalTickets ticketsPassed startState
      else .idle totalTickets

/-- The winner loop breaks only at `RUNNABLE` slots. -/
lemma winnerLoop_runnable {t : Table} {ticketNo acc passed : ℤ} {l : List Slot} {w : Slot}
    (h : winnerLoop t ticketNo l acc = some (passed, some w)) : (t w).state = runnable := by
  induction l generalizing acc with
  | nil => simp [winnerLoop] at h
  | cons p ps ih =>
      rw [winnerLoop] at h
      by_cases hp : (t p).state = runnable
      · rw [if_pos hp] at h
        cases hadd : addInt acc (t p).tickets with
        | none => simp [hadd] at h
        | some acc' =>
            simp only [hadd] at h
            split_ifs at h with hlt
            · obtain ⟨_, rfl⟩ : acc' = passed ∧ p = w := by simpa using h
              exact hp
            · exact ih h
      · rw [if_neg hp] at h
        exact ih h

/-- Whatever the locals, a pass switches only to a `RUNNABLE` process. -/
lemma schedulerPass_runnable {t : Table} {total passed a b : ℤ} {v v' : Ushort} {w : Slot}
    (h : schedulerPass t total passed v = .dispatch w a b v') : (t w).state = runnable := by
  unfold schedulerPass at h
  split at h
  · cases h
  · split_ifs at h
    split at h
    · cases h
    · split at h
      · cases h
      · cases h
      · rename_i hloop
        obtain ⟨rfl, _⟩ := Pass.dispatch.inj h
        exact winnerLoop_runnable hloop

/-! ### The table as a lottery -/

/-- The processes that take part. -/
def Runnable (t : Table) (i : Slot) : Prop := (t i).state = runnable

instance (t : Table) : DecidablePred (Runnable t) := fun _ =>
  inferInstanceAs (Decidable (_ = _))

/-- The tickets of a slot. -/
def ticketsOf (t : Table) (i : Slot) : ℤ := (t i).tickets

/-- The tickets of all `RUNNABLE` processes. -/
def ticketTotal (t : Table) : ℤ := total (Runnable t) (ticketsOf t) slots

/-- The tickets of the `RUNNABLE` processes before slot `i`. -/
def ticketsBefore (t : Table) (i : Slot) : ℤ := before (Runnable t) (ticketsOf t) i slots

/-- Every `RUNNABLE` process has a ticket. -/
def TicketsPos (t : Table) : Prop := ∀ i, (t i).state = runnable → 1 ≤ (t i).tickets

/-- Slot `w` is `RUNNABLE` and ticket `r` is one of its own. -/
def Wins (t : Table) (r : ℤ) (w : Slot) : Prop :=
  (t w).state = runnable ∧ ticketsBefore t w ≤ r ∧ r < ticketsBefore t w + (t w).tickets

instance (t : Table) (r : ℤ) (w : Slot) : Decidable (Wins t r w) :=
  inferInstanceAs (Decidable (_ ∧ _ ∧ _))

lemma nodup_slots : slots.Nodup := List.nodup_finRange NPROC

lemma wins_iff_owns {t : Table} {r : ℤ} {w : Slot} :
    Wins t r w ↔ Owns (Runnable t) (ticketsOf t) slots r w :=
  ⟨fun h => ⟨mem_slots w, h⟩, fun h => h.2⟩

section Pos

variable {t : Table} (hpos : TicketsPos t)
include hpos

/-- The weights of the lottery are positive. -/
lemma TicketsPos.weights : ∀ i ∈ slots, Runnable t i → 1 ≤ ticketsOf t i := fun i _ => hpos i

lemma ticketTotal_nonneg : 0 ≤ ticketTotal t := total_nonneg hpos.weights

lemma ticketTotal_pos {i : Slot} (hi : (t i).state = runnable) : 0 < ticketTotal t :=
  total_pos hpos.weights (mem_slots i) hi

lemma ticketTotal_eq_zero_iff : ticketTotal t = 0 ↔ ∀ i, (t i).state ≠ runnable := by
  rw [ticketTotal, total_eq_zero_iff hpos.weights]
  exact ⟨fun h i => h i (mem_slots i), fun h i _ => h i⟩

lemma ticketsBefore_nonneg (i : Slot) : 0 ≤ ticketsBefore t i :=
  before_nonneg hpos.weights i

lemma ticketsBefore_add_le {i : Slot} (hi : (t i).state = runnable) :
    ticketsBefore t i + (t i).tickets ≤ ticketTotal t :=
  before_add_le_total hpos.weights (mem_slots i) hi

/-- At most one slot wins a ticket. -/
lemma Wins.unique {r : ℤ} {w w' : Slot} (hr : 0 ≤ r) (h : Wins t r w) (h' : Wins t r w') :
    w = w' := by
  rw [wins_iff_owns, ← pick_eq_some_iff hpos.weights nodup_slots hr] at h h'
  exact Option.some.inj (h.symm.trans h')

/-- Every ticket below the total is won. -/
lemma exists_wins {r : ℤ} (hr : 0 ≤ r) (hlt : r < ticketTotal t) : ∃ w, Wins t r w := by
  obtain ⟨w, hw⟩ := exists_pick hlt hr
  exact ⟨w, wins_iff_owns.mpr ((pick_eq_some_iff hpos.weights nodup_slots hr).mp hw)⟩

end Pos

/-! ### The loops -/

section Loops

variable {t : Table} {l : List Slot} (hpos : ∀ i ∈ l, (t i).state = runnable → 1 ≤ (t i).tickets)
include hpos

/-- The first loop adds the tickets of the list, or overflows. Partial sums only
grow, so it overflows exactly when the whole sum is out of range. -/
lemma totalLoop_eq {acc : ℤ} (hacc : 0 ≤ acc) (hint : acc ≤ intMax) :
    totalLoop t l acc =
      if acc + total (Runnable t) (ticketsOf t) l ≤ intMax
      then some (acc + total (Runnable t) (ticketsOf t) l) else none := by
  induction l generalizing acc with
  | nil => simp [totalLoop, total, hint]
  | cons p ps ih =>
      have hps : ∀ i ∈ ps, (t i).state = runnable → 1 ≤ (t i).tickets :=
        fun i hi => hpos i (List.mem_cons_of_mem p hi)
      have hnn : 0 ≤ total (Runnable t) (ticketsOf t) ps := total_nonneg hps
      rw [totalLoop, total]
      by_cases hp : (t p).state = runnable
      · have h1 := hpos p (by simp) hp
        have htp : (if Runnable t p then ticketsOf t p else 0) = (t p).tickets := if_pos hp
        rw [if_pos hp, htp, addInt]
        by_cases hov : acc + (t p).tickets ≤ intMax
        · rw [if_pos ⟨by omega, hov⟩]
          simp only [ih hps (by omega) hov, add_assoc]
        · rw [if_neg (fun h => hov h.2), if_neg (by omega)]
      · have htp : (if Runnable t p then ticketsOf t p else 0) = 0 := if_neg hp
        rw [if_neg hp, htp, zero_add, ih hps hacc hint]

/-- The second loop does not overflow where the first one did not, and it breaks at
the slot that the walk with a running sum finds. -/
lemma winnerLoop_eq {ticketNo acc : ℤ} (hacc : 0 ≤ acc)
    (hint : acc + total (Runnable t) (ticketsOf t) l ≤ intMax) :
    ∃ passed, winnerLoop t ticketNo l acc =
      some (passed, pick (Runnable t) (ticketsOf t) (ticketNo - acc) l) := by
  induction l generalizing acc with
  | nil => exact ⟨acc, rfl⟩
  | cons p ps ih =>
      have hps : ∀ i ∈ ps, (t i).state = runnable → 1 ≤ (t i).tickets :=
        fun i hi => hpos i (List.mem_cons_of_mem p hi)
      have hnn : 0 ≤ total (Runnable t) (ticketsOf t) ps := total_nonneg hps
      rw [total] at hint
      rw [winnerLoop, pick]
      by_cases hp : (t p).state = runnable
      · have h1 := hpos p (by simp) hp
        have htp : (if Runnable t p then ticketsOf t p else 0) = (t p).tickets := if_pos hp
        have hrp : Runnable t p := hp
        rw [htp] at hint
        rw [if_pos hp, if_pos hrp, addInt, if_pos ⟨by omega, by omega⟩]
        by_cases hlt : acc + (t p).tickets > ticketNo
        · have hlt' : ticketNo - acc < ticketsOf t p := by
            show ticketNo - acc < (t p).tickets
            omega
          exact ⟨acc + (t p).tickets, by rw [if_pos hlt']; simp only [hlt, if_true]⟩
        · have hlt' : ¬ticketNo - acc < ticketsOf t p := by
            show ¬ticketNo - acc < (t p).tickets
            omega
          have hacc' : 0 ≤ acc + (t p).tickets := by omega
          obtain ⟨passed, h⟩ := ih hps hacc' (by omega)
          refine ⟨passed, ?_⟩
          rw [if_neg hlt']
          simp only [hlt, if_false]
          rw [h, ticketsOf, sub_sub]
      · have htp : (if Runnable t p then ticketsOf t p else 0) = 0 := if_neg hp
        rw [htp, zero_add] at hint
        rw [if_neg hp, if_neg (show ¬Runnable t p from hp)]
        exact ih hps hacc hint

end Loops

/-! ### The pass -/

section PassSpec

variable {t : Table} (hpos : TicketsPos t)
include hpos

/-- With nothing to run the pass does nothing. -/
lemma schedulerPass_idle (hnone : ∀ i, (t i).state ≠ runnable) (v : Ushort) :
    schedulerPass t 0 0 v = .idle 0 := by
  have hT : total (Runnable t) (ticketsOf t) slots = 0 := (ticketTotal_eq_zero_iff hpos).mpr hnone
  rw [schedulerPass, totalLoop_eq (fun i _ => hpos i) le_rfl (by norm_num), hT]
  rfl

/-- A total beyond `int` overflows. -/
lemma schedulerPass_overflow (hT : intMax < ticketTotal t) (v : Ushort) :
    schedulerPass t 0 0 v = .fault .overflow v := by
  have hT' : ¬0 + total (Runnable t) (ticketsOf t) slots ≤ intMax := by
    rw [zero_add]
    exact not_le.mpr hT
  rw [schedulerPass, totalLoop_eq (fun i _ => hpos i) le_rfl (by norm_num), if_neg hT']

omit hpos in
/-- The limit passed to the generator: the total modulo `2^16`. -/
lemma toNat_ofInt_ticketTotal :
    ((BitVec.ofInt 16 (ticketTotal t)).toNat : ℤ) = ticketTotal t % 65536 := by
  rw [BitVec.toNat_ofInt, Int.toNat_of_nonneg]
  · rfl
  · exact Int.emod_nonneg _ (by norm_num)

/-- A total that is a multiple of `2^16` divides by zero. -/
lemma schedulerPass_divide (hT : 0 < ticketTotal t) (hint : ticketTotal t ≤ intMax)
    (hmod : ticketTotal t % 65536 = 0) (v : Ushort) :
    schedulerPass t 0 0 v = .fault .divide (nextState v) := by
  have hlim : BitVec.ofInt 16 (ticketTotal t) = 0 := by
    apply BitVec.eq_of_toNat_eq
    have h := toNat_ofInt_ticketTotal (t := t)
    rw [hmod] at h
    exact_mod_cast h
  have hloop : totalLoop t slots 0 = some (ticketTotal t) := by
    rw [totalLoop_eq (fun i _ => hpos i) le_rfl (by norm_num), zero_add]
    exact if_pos hint
  simp only [schedulerPass, hloop, if_pos (show ticketTotal t > 0 from hT), hlim,
    generateRandomNumber_eq, if_true]
  rfl

/-- **The pass is a lottery**: otherwise the generator is asked for a ticket below
the limit, and the one slot that holds this ticket is dispatched. -/
lemma schedulerPass_dispatch (hT : 0 < ticketTotal t) (hint : ticketTotal t ≤ intMax)
    (hmod : ticketTotal t % 65536 ≠ 0) (v : Ushort) :
    ∃ (r : Ushort) (w : Slot) (passed : ℤ),
      generateRandomNumber v (BitVec.ofInt 16 (ticketTotal t)) = (some r, nextState v) ∧
      (r.toNat : ℤ) < ticketTotal t % 65536 ∧ Wins t r.toNat w ∧
      schedulerPass t 0 0 v = .dispatch w (ticketTotal t) passed (nextState v) := by
  have hlim := toNat_ofInt_ticketTotal (t := t)
  have hne : BitVec.ofInt 16 (ticketTotal t) ≠ 0 := by
    intro h
    rw [h] at hlim
    exact hmod hlim.symm
  obtain ⟨r, hr⟩ : ∃ r, generateRandomNumber v (BitVec.ofInt 16 (ticketTotal t)) =
      (some r, nextState v) := ⟨_, by rw [generateRandomNumber_eq, if_neg hne]; rfl⟩
  have hrlt : (r.toNat : ℤ) < ticketTotal t % 65536 := by
    rw [← hlim]
    exact_mod_cast generateRandomNumber_lt hr
  have hrT : (r.toNat : ℤ) < ticketTotal t := by
    omega
  obtain ⟨w, hw⟩ := exists_wins hpos (Int.natCast_nonneg _) hrT
  have hpick : pick (Runnable t) (ticketsOf t) (r.toNat - 0) slots = some w := by
    rw [sub_zero]
    exact (pick_eq_some_iff hpos.weights nodup_slots (Int.natCast_nonneg _)).mpr
      (wins_iff_owns.mp hw)
  have hloop : totalLoop t slots 0 = some (ticketTotal t) := by
    rw [totalLoop_eq (fun i _ => hpos i) le_rfl (by norm_num), zero_add]
    exact if_pos hint
  obtain ⟨passed, hwin⟩ : ∃ passed, winnerLoop t r.toNat slots 0 = some (passed, some w) := by
    rw [← hpick]
    exact winnerLoop_eq hpos.weights le_rfl (by rw [zero_add]; exact hint)
  refine ⟨r, w, passed, hr, hrlt, hw, ?_⟩
  simp only [schedulerPass, hloop, if_pos (show ticketTotal t > 0 from hT), hr, hwin]

end PassSpec

end Xv6Lottery
