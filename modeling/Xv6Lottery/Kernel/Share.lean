import Xv6Lottery.Kernel.Lottery
import Xv6Lottery.Library.Residue

/-!
Proportional share: what a full period of draws gives each process.

The seeds of 65535 consecutive calls of the generator are the non-zero 16-bit values,
each once (`seedAt`), and the `T` steps of the shift register permute them, so the
values of the register are `1, …, 65535` in some order; the tickets are their residues
modulo `T`, and a slot with `k` tickets owns a window of `k` residues.

* `SameDraws`: every pass that draws sees the same `RUNNABLE` set and tickets.
* `ticketAt`, `count_ticketAt`: the tickets of a full period.
* `marked`: the kernel, with the passes that draw marked in the trace.
* `ShareInv`: a run seen through the passes that draw.
* `proportional_share`: **every pass that draws dispatches, and a full period of them gives every
  slot its share.** `Duo.run` is a run of two processes to which this applies.
-/

namespace Xv6Lottery

open Procstate Library

/-! ### A full period of the generator -/

/-- The ticket that the call number `j` returns for the limit `T`, when the generator
starts at `v`. -/
def ticketAt (T : ℕ) (v : Ushort) (j : ℕ) : ℕ := (lfsrStep^[T] (seedAt v j)).toNat % T

/-- Over a full period the tickets in a window of `k` are drawn `k` times as often as
each. -/
lemma count_ticketAt {T a k : ℕ} (h : a + k ≤ T) (v : Ushort) :
    k * (65535 / T) ≤ Nat.count (fun j => a ≤ ticketAt T v j ∧ ticketAt T v j < a + k) 65535 ∧
      Nat.count (fun j => a ≤ ticketAt T v j ∧ ticketAt T v j < a + k) 65535 ≤
        k * ((65535 + T - 1) / T) := by
  -- the register after the call number `j`, less one
  obtain ⟨f, hreg⟩ : ∃ f : ℕ → ℕ, ∀ j, f j + 1 = (lfsrStep^[T] (seedAt v j)).toNat := by
    refine ⟨fun j => (lfsrStep^[T] (seedAt v j)).toNat - 1, fun j => Nat.sub_one_add_one ?_⟩
    exact fun h0 => lfsrStep_iterate_ne_zero (seed_ne_zero _) T (BitVec.eq_of_toNat_eq h0)
  have hmaps : ∀ i < 65535, f i < 65535 := by
    intro i _
    have hlt : (lfsrStep^[T] (seedAt v i)).toNat < 2 ^ 16 := (lfsrStep^[T] (seedAt v i)).isLt
    have := hreg i
    omega
  have hinj : ∀ i < 65535, ∀ j < 65535, f i = f j → i = j := by
    intro i hi j hj hij
    have heq : lfsrStep^[T] (seedAt v i) = lfsrStep^[T] (seedAt v j) := by
      apply BitVec.eq_of_toNat_eq
      rw [← hreg i, ← hreg j, hij]
    exact seedAt_inj hi hj ((lfsrStep_iterate_bijective T).1 heq)
  have hticket : ∀ j, ticketAt T v j = (f j + 1) % T := fun j => by rw [ticketAt, hreg j]
  simp only [hticket]
  rw [count_reindex (fun y => a ≤ (y + 1) % T ∧ (y + 1) % T < a + k) hmaps hinj]
  exact count_window 65535 h

/-! ### Runs with constant tickets -/

/-- The same processes are `RUNNABLE`, with the same tickets. -/
def SameTickets (t t' : Table) : Prop :=
  ∀ i, ((t i).state = runnable ↔ (t' i).state = runnable) ∧
    ((t' i).state = runnable → (t i).tickets = (t' i).tickets)

namespace SameTickets

variable {t t' : Table} (h : SameTickets t t')
include h

lemma ticketsPos (hpos : TicketsPos t') : TicketsPos t := fun i hi => by
  rw [(h i).2 ((h i).1.mp hi)]
  exact hpos i ((h i).1.mp hi)

lemma ticketTotal_eq : ticketTotal t = ticketTotal t' :=
  total_congr (fun i _ => (h i).1) fun i _ hi => (h i).2 ((h i).1.mp hi)

/-- The winners are the same. -/
lemma wins_iff (hpos : TicketsPos t') {r : ℤ} (hr : 0 ≤ r) {w : Slot} :
    Wins t r w ↔ Wins t' r w := by
  have hpick :
      pick (Runnable t) (ticketsOf t) r slots = pick (Runnable t') (ticketsOf t') r slots :=
    pick_congr (fun i _ => (h i).1) fun i _ hi => (h i).2 ((h i).1.mp hi)
  rw [wins_iff_owns, wins_iff_owns, ← pick_eq_some_iff (h.ticketsPos hpos).weights nodup_slots hr,
    ← pick_eq_some_iff hpos.weights nodup_slots hr, hpick]

end SameTickets

/-- Dispatches of slot `i`. -/
def Event.dispatches (i : Slot) : Event Slot → Bool
  | .dispatched w _ => w = i
  | _ => false

variable {n : ℕ} {s : Kernel n} {t : Table} {v : Ushort}

/-- Every pass that draws sees the `RUNNABLE` processes of `t`, with their tickets. -/
def SameDraws (t : Table) (s : Kernel n) : Act n → Prop
  | .schedPass _ => (∃ i, (s.table i).state = runnable) → SameTickets s.table t
  | _ => True

/-- The action is a pass that draws: it finds something `RUNNABLE`. -/
def Act.draws (s : Kernel n) : Act n → Bool
  | .schedPass _ => decide (∃ i, (s.table i).state = runnable)
  | _ => false

/-- The kernel, with the passes that draw marked in the trace. -/
def marked (n : ℕ) : Guarded (Kernel n) (Act n) (Bool × Event Slot) where
  Enabled := Kernel.Enabled
  next := Kernel.next
  event s a := (a.draws s, s.event a)

instance (s : Kernel n) (a : Act n) : Decidable ((marked n).Enabled s a) :=
  inferInstanceAs (Decidable (s.Enabled a))

/-- The passes of a trace that draw. -/
def draws (tr : List (Bool × Event Slot)) : ℕ := tr.countP Prod.fst

/-- The dispatches of slot `i` in a trace. -/
def dispatchesOf (i : Slot) (tr : List (Bool × Event Slot)) : ℕ :=
  tr.countP fun x => x.2.dispatches i

/-- A run with constant tickets, seen through the passes that draw: the generator has been called
once for each of them, and a slot has been dispatched whenever it held the ticket. -/
structure ShareInv (t : Table) (v : Ushort) (tr : List (Bool × Event Slot)) (s : Kernel n) :
    Prop where
  clean : Clean s
  startState : s.startState = nextState^[draws tr] v
  dispatch : ∀ x ∈ tr, x.1 = true → x.2.isDispatch = true
  share : ∀ i, dispatchesOf i tr =
    Nat.count (fun j => Wins t (ticketAt (ticketTotal t).toNat v j) i) (draws tr)

/-- Only a pass of `scheduler()` dispatches or calls the generator. -/
lemma quiet_of_not_schedPass {a : Act n} (ha : ∀ c, a ≠ .schedPass c) :
    (s.event a).isDispatch = false ∧ (s.next a).startState = s.startState := by
  cases a with
  | schedPass c => exact absurd rfl (ha c)
  | forkAlloc c i | waitScan c i =>
      simp only [Kernel.event, Kernel.next]
      refine ⟨by split <;> rfl, ?_⟩
      split
      · rfl
      · first
        | rfl
        | split_ifs <;> rfl
  | forkStack c i np ok | forkCopy c i np ok =>
      simp only [Kernel.event, Kernel.next]
      exact ⟨by split_ifs <;> rfl, by first | rfl | split_ifs <;> rfl⟩
  | exitCall c i =>
      simp only [Kernel.event, Kernel.next]
      exact ⟨rfl, by split_ifs <;> rfl⟩
  | exitClose c i fd =>
      simp only [Kernel.event, Kernel.next]
      exact ⟨rfl, by split_ifs <;> rfl⟩
  | _ => exact ⟨rfl, rfl⟩

/-- A step that neither draws nor dispatches changes none of the counts. -/
lemma ShareInv.quiet {s' : Kernel n} {tr : List (Bool × Event Slot)} {e : Event Slot}
    (h : ShareInv t v tr s) (he : e.isDispatch = false) (hs : s'.startState = s.startState)
    (hc : Clean s') : ShareInv t v (tr ++ [(false, e)]) s' := by
  have hdraws : draws (tr ++ [(false, e)]) = draws tr := by simp [draws]
  refine ⟨hc, by rw [hdraws, hs, h.startState], ?_, fun i => ?_⟩
  · simpa [List.forall_mem_append] using h.dispatch
  · have hi : Event.dispatches i e = false := by
      cases e <;> simp_all [Event.dispatches, Event.isDispatch]
    rw [hdraws, ← h.share i]
    simp [dispatchesOf, hi]

/-- A pass that draws, if the slot that it dispatches holds the next ticket. -/
lemma ShareInv.draw {s' : Kernel n} {tr : List (Bool × Event Slot)} {w : Slot} {pid : ℤ}
    (h : ShareInv t v tr s)
    (hwin : ∀ i, Wins t (ticketAt (ticketTotal t).toNat v (draws tr)) i ↔ w = i)
    (hs : s'.startState = nextState s.startState) (hc : Clean s') :
    ShareInv t v (tr ++ [(true, .dispatched w pid)]) s' := by
  have hdraws : draws (tr ++ [(true, .dispatched w pid)]) = draws tr + 1 := by simp [draws]
  refine ⟨hc, ?_, ?_, fun i => ?_⟩
  · rw [hdraws, Function.iterate_succ_apply', ← h.startState, hs]
  · intro x hx
    rcases List.mem_append.mp hx with hx | hx
    · exact h.dispatch x hx
    · obtain rfl := List.mem_singleton.mp hx
      exact fun _ => rfl
  · rw [hdraws, Nat.count_succ, ← h.share i]
    simp [dispatchesOf, hwin i, Event.dispatches, List.countP_cons]

/-- The ticket of a call with the generator at `start_state` number `m`. -/
lemma toNat_eq_ticketAt {m : ℕ} {limit r v' : Ushort} {T : ℕ} (hlim : limit.toNat = T)
    (h : generateRandomNumber (nextState^[m] v) limit = (some r, v')) :
    r.toNat = ticketAt T v m := by
  rw [generateRandomNumber_eq] at h
  split_ifs at h with h0
  · simp at h
  · obtain ⟨hr, -⟩ := Prod.mk.inj h
    rw [← Option.some.inj hr, BitVec.toNat_umod, hlim]
    rfl

/-- **One more step** of a run with constant tickets. -/
lemma ShareInv.step (hpos : TicketsPos t) (hle : ticketTotal t ≤ 65535) {a : Act n}
    {tr : List (Bool × Event Slot)} (h : ShareInv t v tr s) (he : s.Enabled a)
    (hok : SameDraws t s a) : ShareInv t v (tr ++ [(a.draws s, s.event a)]) (s.next a) := by
  by_cases ha : ∀ c, a ≠ .schedPass c
  · obtain ⟨h1, h2⟩ := quiet_of_not_schedPass (s := s) ha
    have hdraws : a.draws s = false := by
      cases a with
      | schedPass c => exact absurd rfl (ha c)
      | _ => rfl
    rw [hdraws]
    exact h.quiet h1 h2 (h.clean.step he fun c hc => absurd hc (ha c))
  push Not at ha
  obtain ⟨c, rfl⟩ := ha
  have hl := h.clean c (Or.inr (Or.inl he))
  by_cases hrun : ∃ i, (s.table i).state = runnable
  · have hsame := hok hrun
    have hpos' := hsame.ticketsPos hpos
    have hclean := h.clean.step he fun _ _ => hpos'
    have hdraws : Act.draws s (.schedPass c) = true := decide_eq_true hrun
    obtain ⟨i₀, hi₀⟩ := hrun
    have hT := ticketTotal_pos hpos' hi₀
    have heq := hsame.ticketTotal_eq
    obtain ⟨hint, hmod⟩ := ticketTotal_fits hT (heq ▸ hle)
    obtain ⟨r, w, passed, hr, -, hw, hp⟩ := schedulerPass_dispatch hpos' hT hint hmod s.startState
    have hev : s.event (.schedPass c) = .dispatched w (s.table w).pid := by
      simp [Kernel.event, hl.1, hl.2, hp]
    rw [hdraws, hev]
    refine h.draw (fun i => ?_) (by simp [Kernel.next, hl.1, hl.2, hp]) hclean
    -- the winner of this pass is the holder of the next ticket
    rw [h.startState] at hr
    have hlim := toNat_ofInt_ticketTotal (t := s.table)
    rw [← toNat_eq_ticketAt (T := (ticketTotal t).toNat) (by omega) hr]
    have hw' := (hsame.wins_iff hpos (Int.natCast_nonneg _)).mp hw
    exact ⟨fun hi => hw'.unique hpos (Int.natCast_nonneg _) hi, fun hi => hi ▸ hw'⟩
  · have hdraws : Act.draws s (.schedPass c) = false := decide_eq_false hrun
    push Not at hrun
    have hpos' : TicketsPos s.table := fun i hi => absurd hi (hrun i)
    have hp := schedulerPass_idle hpos' hrun s.startState
    rw [hdraws]
    refine h.quiet ?_ ?_ (h.clean.step he fun _ _ => hpos')
    · simp [Kernel.event, hl.1, hl.2, hp, Event.isDispatch]
    · simp [Kernel.next, hl.1, hl.2, hp]

/-- **Proportional share.** Let every `RUNNABLE` slot of `t` have a ticket, with a total
`T ≤ 65535`. In every run from a state with clean locals, whatever the generator's
`start_state`, in which the passes that draw see the `RUNNABLE` set and the tickets of `t`, every
pass that draws dispatches; and if there are 65535 of them, then a slot with `k` tickets is
dispatched at least `k * ⌊65535 / T⌋` and at most `k * ⌈65535 / T⌉` times. -/
theorem proportional_share {s' : Kernel n} {tr : List (Bool × Event Slot)} (hpos : TicketsPos t)
    (hle : ticketTotal t ≤ 65535) (hclean : Clean s)
    (hrun : Run ((marked n).Step (SameDraws t)) s tr s') :
    (∀ x ∈ tr, x.1 = true → x.2.isDispatch = true) ∧
    (draws tr = 65535 → ∀ i, (t i).state = runnable →
      (t i).tickets * (65535 / ticketTotal t) ≤ dispatchesOf i tr ∧
        dispatchesOf i tr ≤ (t i).tickets * ((65535 + ticketTotal t - 1) / ticketTotal t)) := by
  have hinv : ShareInv t s.startState tr s' := by
    refine Run.invariant (I := fun tr s' => ShareInv t s.startState tr s')
      ⟨hclean, rfl, by simp, fun _ => rfl⟩ ?_ hrun
    rintro tr e s₁ s₂ - h ⟨a, he, hok, rfl, rfl⟩
    exact h.step hpos hle he hok
  refine ⟨hinv.dispatch, fun hcount i hi => ?_⟩
  -- the slot owns a window of the tickets
  obtain ⟨T, hT⟩ := Int.eq_ofNat_of_zero_le (ticketTotal_nonneg hpos)
  obtain ⟨a, ha⟩ := Int.eq_ofNat_of_zero_le (ticketsBefore_nonneg hpos i)
  obtain ⟨k, hk⟩ := Int.eq_ofNat_of_zero_le ((hpos i hi).trans' zero_le_one)
  have hwindow := ticketsBefore_add_le hpos hi
  have hwins : (fun j => Wins t (ticketAt (ticketTotal t).toNat s.startState j) i) =
      fun j => a ≤ ticketAt T s.startState j ∧ ticketAt T s.startState j < a + k := by
    funext j
    simp only [Wins, hi, ha, hk, hT, Int.toNat_natCast, eq_iff_iff, true_and]
    omega
  have hshare := hinv.share i
  rw [hcount] at hshare
  simp only [hwins] at hshare
  rw [hT, ha, hk] at hwindow
  have hbounds := count_ticketAt (T := T) (a := a) (k := k) (by omega) s.startState
  have hceil : (65535 + T - 1 : ℤ) = (65535 + T - 1 : ℕ) := by omega
  rw [hshare, hT, hk, hceil]
  exact ⟨by exact_mod_cast hbounds.1, by exact_mod_cast hbounds.2⟩

/-! ### Two processes -/

/-- The first process forks, and gives the child 300 tickets; both of them yield in user code,
the first on CPU 0 and the child on CPU 1. -/
def duoSetup : List (Act 2) :=
  laterPass ++
    ([.schedPass 1, .forkret 1 1, .yield 1 1 .user, .schedBack 1, .schedRelease 1] : List (Act 2))

def duoState : Kernel 2 := (machine 2).exec (boot 2) duoSetup

/-- The first two processes have yielded in user code, with the tickets of `duoState`, and both
CPUs are about to look for a process. -/
structure Duo (s : Kernel 2) : Prop where
  same : SameTickets s.table duoState.table
  yielded : ∀ i, (s.table i).state = runnable → (s.table i).context = .yielded .user
  lock : s.lock = none
  cpu : ∀ c, s.cpus c = ⟨none, 0, .top, 0, 0⟩

lemma duo_duoState : Duo duoState where
  same _ := ⟨Iff.rfl, fun _ => rfl⟩
  yielded := by decide +kernel
  lock := by decide +kernel
  cpu := by decide +kernel

lemma duoState_pos : TicketsPos duoState.table := fun i => by
  decide +kernel +revert

lemma duoState_total : ticketTotal duoState.table = 400 := by decide +kernel

/-- A round of CPU `c`: the pass, the process until it yields, and the end of the pass. -/
def duoCycle (c : Fin 2) (w : Slot) : List (Act 2) :=
  [.schedAcquire c, .schedPass c, .yieldReturn c w .user, .yield c w .user, .schedBack c,
    .schedRelease c]

/-- After a round, in which one of the processes has been dispatched, it is as before. -/
lemma Duo.cycle {s : Kernel 2} (h : Duo s) (c : Fin 2) : ∃ tr s', draws tr = 1 ∧
    Run ((marked 2).Step (SameDraws duoState.table)) s tr s' ∧ Duo s' := by
  have hpos := h.same.ticketsPos duoState_pos
  have hT : ticketTotal s.table = 400 := h.same.ticketTotal_eq.trans duoState_total
  obtain ⟨r, w, passed, -, -, hw, hp⟩ := schedulerPass_dispatch hpos (by rw [hT]; norm_num)
    (by rw [hT]; norm_num) (by rw [hT]; norm_num) s.startState
  have hlock := h.lock
  have hcpu := h.cpu c
  have hctx := h.yielded w hw.1
  have hallowed : (marked 2).Allowed (SameDraws duoState.table) s (duoCycle c w) := by
    simp [Guarded.Allowed, duoCycle, marked, Kernel.Enabled, Kernel.next, hp, SameDraws, h.same,
      Kernel.IntrOn, Kernel.At, hlock, hcpu, hctx]
  refine ⟨_, _, ?_, hallowed.run, ?_⟩
  · have hw : ∃ i, (s.table i).state = runnable := ⟨w, hw.1⟩
    simp [Guarded.trace, duoCycle, marked, draws, Act.draws, Kernel.next, hw]
  · have hexec : (marked 2).exec s (duoCycle c w) = { s with
        startState := nextState s.startState
        table := Function.update s.table w
          { s.table w with ticks := incInt (s.table w).ticks } } := by
      simp [Guarded.exec, duoCycle, marked, Kernel.next, hp, hcpu, setContext, hw.1, hctx, hlock]
    rw [hexec]
    refine ⟨fun i => ?_, fun i => ?_, hlock, h.cpu⟩
    · rcases eq_or_ne i w with rfl | hi
      · simpa using h.same i
      · simpa [hi] using h.same i
    · rcases eq_or_ne i w with rfl | hi
      · simpa using h.yielded i
      · simpa [hi] using h.yielded i

/-- Any number of rounds, of the two CPUs in turn. -/
lemma Duo.run {s : Kernel 2} (h : Duo s) (m : ℕ) : ∃ tr s', draws tr = m ∧
    Run ((marked 2).Step (SameDraws duoState.table)) s tr s' := by
  induction m generalizing s with
  | zero => exact ⟨[], s, rfl, .nil⟩
  | succ m ih =>
      obtain ⟨tr₁, s₁, h1, hrun₁, hs₁⟩ := h.cycle (if Even m then 0 else 1)
      obtain ⟨tr₂, s₂, h2, hrun₂⟩ := ih hs₁
      refine ⟨tr₁ ++ tr₂, s₂, ?_, hrun₁.trans hrun₂⟩
      rw [draws, List.countP_append, ← draws, ← draws, h1, h2, Nat.add_comm]

/-- From `duoState`, which is reachable, the process with 100 tickets and the one with 300 get
their shares of 65535 draws. -/
theorem proportional_share_duo : Reachable TicketBound duoState ∧
    ∃ tr s, Run ((marked 2).Step (SameDraws duoState.table)) duoState tr s ∧ draws tr = 65535 ∧
      (100 * 163 ≤ (dispatchesOf 0 tr : ℤ) ∧ (dispatchesOf 0 tr : ℤ) ≤ 100 * 164) ∧
      300 * 163 ≤ (dispatchesOf 1 tr : ℤ) ∧ (dispatchesOf 1 tr : ℤ) ≤ 300 * 164 := by
  have hreach : Reachable TicketBound duoState := reachable_exec (by decide +kernel)
  obtain ⟨tr, s, hm, hrun⟩ := duo_duoState.run 65535
  have hshare := (proportional_share duoState_pos (by rw [duoState_total]; norm_num) hreach.clean
    hrun).2 hm
  have hparent : (duoState.table 0).tickets = 100 := by decide +kernel
  have hchild : (duoState.table 1).tickets = 300 := by decide +kernel
  have h0 := hshare 0 (by decide +kernel)
  have h1 := hshare 1 (by decide +kernel)
  rw [duoState_total, hparent] at h0
  rw [duoState_total, hchild] at h1
  exact ⟨hreach, tr, s, hrun, hm, h0, h1⟩

end Xv6Lottery
