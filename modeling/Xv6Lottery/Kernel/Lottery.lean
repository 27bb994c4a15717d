import Xv6Lottery.Kernel.Refine
import Xv6Lottery.Life.Change

/-!
The passes of `scheduler()` in a run of the kernel.

* `Clean`, `Clean.step`: the locals `total_tickets` and `tickets_passed` of a CPU are
  zero whenever it is not switched to a process. They are reset only after a dispatch,
  so this rests on idle passes finding no tickets at all.
* `Reachable.ticketsPos`, `Reachable.ticketTotal_le`: every process has a ticket, and at
  most `MAX_TICKETS_PER_PROCESS` of them when assignments keep to that bound.
* `pass_dispatches_iff`: when a pass with something to run dispatches.
* `winnable_iff`: when a process can win the next pass at all.
* `schedPass_refines_lottery`: with bounded assignments a pass is the stateless
  `Lottery` on the table it sees.
-/

namespace Xv6Lottery

open Procstate Library

variable {n : ℕ} {s : Kernel n} {ok : Kernel n → Act n → Prop}

/-! ### Tickets in a run -/

/-- Bounded actions assign bounded numbers. -/
lemma assigned_le {s' : Kernel n} {tr : List (Event Slot)} (h : Run (Step TicketBound) s tr s')
    {m : ℤ} {hit : Option Slot} (hm : .assigned m hit ∈ tr) : m ≤ maxTicketsPerProcess := by
  induction h with
  | nil => cases hm
  | @snoc tr e s₁ s₂ _ hs ih =>
      rcases List.mem_append.mp hm with hm | hm
      · exact ih hm
      · obtain ⟨a, -, hok, he, -⟩ := hs
        have horigin : s₁.Origin a e := he ▸ s₁.origin_event a
        rw [← List.mem_singleton.mp hm] at horigin
        obtain ⟨c, i, pid, rfl⟩ := horigin
        exact hok

/-- At boot the one process has 100 tickets. -/
lemma ticketInv_boot {B : ℤ → Prop} (h100 : B 100) : TicketInv B (abs (boot n)).procs := by
  intro j hj
  rcases boot_cases n j with ⟨-, he, -⟩ | ⟨-, he⟩
  · have hp : (abs (boot n)).procs j = initEntry := he
    rw [hp]
    exact h100
  · exact absurd (show ((boot n).table j).state = unused by rw [he]; rfl) hj

/-- In every reachable state every `RUNNABLE` process has a ticket. -/
lemma Reachable.ticketsPos (h : Reachable ok s) : TicketsPos s.table := by
  obtain ⟨tr, hrun⟩ := h
  have hinv := (ticketInv_boot (B := fun m => 1 ≤ m) (by norm_num)).run (by norm_num)
    (Reachable.life hrun) fun _ _ _ hm => hm
  exact fun i hi => hinv i (by rw [show ((abs s).procs i).state = runnable from hi]; simp)

/-- With bounded assignments the total stays within the range of the generator. -/
lemma Reachable.ticketTotal_le (h : Reachable TicketBound s) : ticketTotal s.table ≤ 64000 := by
  obtain ⟨tr, hrun⟩ := h
  have hinv := (ticketInv_boot (B := fun m => m ≤ maxTicketsPerProcess) (by norm_num)).run
    (by norm_num) (Reachable.life hrun) fun m j hm _ => assigned_le hrun hm
  have hlen : slots.length = 64 := List.length_finRange
  calc ticketTotal s.table ≤ maxTicketsPerProcess * slots.length := by
        refine total_le (by norm_num) fun i _ (hi : (s.table i).state = runnable) => hinv i ?_
        rw [show ((abs s).procs i).state = runnable from hi]
        simp
    _ = 64000 := by rw [hlen]; norm_num

/-! ### The locals of `scheduler()` -/

/-- The locals of every CPU that is not switched to a process are zero. -/
def Clean (s : Kernel n) : Prop :=
  ∀ c, (s.cpus c).pc = .top ∨ (s.cpus c).pc = .pass ∨ (s.cpus c).pc = .done →
    (s.cpus c).totalTickets = 0 ∧ (s.cpus c).ticketsPassed = 0

/-- The outcomes of a pass with the locals at zero. -/
lemma schedulerPass_cases {t : Table} (hpos : TicketsPos t) (v : Ushort) :
    (∀ i, (t i).state ≠ runnable) ∧ schedulerPass t 0 0 v = .idle 0 ∨
    (0 < ticketTotal t ∧
      (intMax < ticketTotal t ∧ schedulerPass t 0 0 v = .fault .overflow v ∨
      ticketTotal t ≤ intMax ∧ ticketTotal t % 65536 = 0 ∧
        schedulerPass t 0 0 v = .fault .divide (nextState v) ∨
      ticketTotal t ≤ intMax ∧ ticketTotal t % 65536 ≠ 0 ∧
        ∃ w passed, schedulerPass t 0 0 v = .dispatch w (ticketTotal t) passed (nextState v))) := by
  rcases (ticketTotal_nonneg hpos).eq_or_lt with h0 | hT
  · have hnone := (ticketTotal_eq_zero_iff hpos).mp h0.symm
    exact Or.inl ⟨hnone, schedulerPass_idle hpos hnone v⟩
  refine Or.inr ⟨hT, ?_⟩
  by_cases hint : ticketTotal t ≤ intMax
  · by_cases hmod : ticketTotal t % 65536 = 0
    · exact Or.inr (Or.inl ⟨hint, hmod, schedulerPass_divide hpos hT hint hmod v⟩)
    · obtain ⟨-, w, passed, -, -, -, hp⟩ := schedulerPass_dispatch hpos hT hint hmod v
      exact Or.inr (Or.inr ⟨hint, hmod, w, passed, hp⟩)
  · exact Or.inl ⟨not_le.mp hint, schedulerPass_overflow hpos (not_le.mp hint) v⟩

/-- The CPU keeps its process, the locals of its `scheduler()` and where it is in it, unless
the process it executes calls `sched()` or stops it. -/
structure KeepsLocals (u u' : Cpu) : Prop where
  total : u'.totalTickets = u.totalTickets
  passed : u'.ticketsPassed = u.ticketsPassed
  proc : u'.proc = u.proc
  pc : u'.pc = u.pc ∨ u'.pc = .back ∨ u'.pc = .halted

/-- Taking and releasing locks. -/
lemma KeepsLocals.ncli (u : Cpu) (m : ℕ) : KeepsLocals u { u with ncli := m } :=
  ⟨rfl, rfl, rfl, Or.inl rfl⟩

lemma KeepsLocals.refl (u : Cpu) : KeepsLocals u u := .ncli u u.ncli

lemma KeepsLocals.update {f : Fin n → Cpu} {c : Fin n} {u : Cpu} (h : KeepsLocals (f c) u)
    (c' : Fin n) : KeepsLocals (f c') (Function.update f c u c') :=
  (Function.forall_update_iff f fun c' u' => KeepsLocals (f c') u').mpr ⟨h, fun _ _ => .refl _⟩ c'

/-- The CPU after `sched()`. -/
lemma KeepsLocals.sched {s' : Kernel n} {c : Fin n} {u : Cpu} (i : Slot) (k : Context)
    (hs : s'.cpus = Function.update s.cpus c u) (hu : KeepsLocals (s.cpus c) u) (c' : Fin n) :
    KeepsLocals (s.cpus c') ((s'.sched c i k).cpus c') := by
  simp only [Kernel.sched, Kernel.setPc, Kernel.setCpu, Kernel.goto, hs, Function.update_self,
    Function.update_idem]
  refine KeepsLocals.update ?_ c'
  split_ifs
  · exact ⟨hu.total, hu.passed, hu.proc, Or.inr (Or.inl rfl)⟩
  · exact ⟨hu.total, hu.passed, hu.proc, Or.inr (Or.inr rfl)⟩

/-- The actions of `scheduler()`. -/
def Act.ofScheduler : Act n → Bool
  | .schedAcquire _ | .schedPass _ | .schedBack _ | .schedRelease _ => true
  | _ => false

/-- Only `scheduler()` touches its locals, or changes `c->proc`. -/
lemma keepsLocals_next (s : Kernel n) {a : Act n} (ha : a.ofScheduler = false) (c' : Fin n) :
    KeepsLocals (s.cpus c') ((s.next a).cpus c') := by
  have hsame : ∀ c, s.cpus = Function.update s.cpus c (s.cpus c) := fun c =>
    (Function.update_eq_self c s.cpus).symm
  cases a with
  | schedAcquire c | schedPass c | schedBack c | schedRelease c => cases ha
  | forkret c i | yieldReturn c i k | waitCall c i | sleepAcquire c i a lk k
  | sleepRelease c i a lk k | sleepReturn c i lk k | sleepRelock c i lk k | acquireLk c lk
  | releaseLk c lk => exact .update (.ncli _ _) c'
  | yield c i k | exitSched c i => exact .sched i _ rfl (.ncli _ _) c'
  | sleepSched c i a lk k => exact .sched i (.slept lk k) (hsame c) (.refl _) c'
  | waitScan c i =>
      simp only [Kernel.next]
      split
      · exact .update (.ncli _ _) c'
      · split_ifs
        · exact .update (.ncli _ _) c'
        · exact .sched i .waitSleep (hsame c) (.refl _) c'
  | exitCall c i =>
      simp only [Kernel.next]
      split_ifs
      · refine KeepsLocals.update ?_ c'
        exact ⟨rfl, rfl, rfl, Or.inr (Or.inr rfl)⟩
      · exact .refl _
  | forkAlloc c i | forkCopy c i np ok | exitClose c i fd =>
      simp only [Kernel.next]
      split <;> exact .refl _
  | _ => exact .refl _

/-- **The locals are clean**: every action keeps them so, if the tickets it sees are
positive. -/
lemma Clean.step (h : Clean s) {a : Act n} (he : s.Enabled a)
    (hpos : ∀ c, a = .schedPass c → TicketsPos s.table) : Clean (s.next a) := by
  intro c' hpc
  by_cases ha : a.ofScheduler = false
  · obtain ⟨h1, h2, -, h3⟩ := keepsLocals_next s ha c'
    rw [h1, h2]
    refine h c' ?_
    rcases h3 with h3 | h3 | h3
    · rwa [h3] at hpc
    · simp [h3] at hpc
    · simp [h3] at hpc
  cases a with
  | schedAcquire c =>
      rcases eq_or_ne c' c with rfl | hc
      · have hl := h c' (Or.inl he.1)
        simpa [Kernel.next] using hl
      · simp only [Kernel.next, Kernel.setPc, Kernel.setCpu, Kernel.acquire,
          Function.update_of_ne hc] at hpc ⊢
        exact h c' hpc
  | schedRelease c =>
      rcases eq_or_ne c' c with rfl | hc
      · have hl := h c' (Or.inr (Or.inr he))
        simpa [Kernel.next] using hl
      · simp only [Kernel.next, Kernel.setPc, Kernel.setCpu, Kernel.release,
          Function.update_of_ne hc] at hpc ⊢
        exact h c' hpc
  | schedBack c =>
      rcases eq_or_ne c' c with rfl | hc
      · simp [Kernel.next]
      · simp only [Kernel.next, Kernel.setCpu, Function.update_of_ne hc] at hpc ⊢
        exact h c' hpc
  | schedPass c =>
      have hl := h c (Or.inr (Or.inl he))
      simp only [Kernel.next, hl.1, hl.2] at hpc ⊢
      rcases eq_or_ne c' c with rfl | hc
      · rcases schedulerPass_cases (hpos c' rfl) s.startState with ⟨-, hp⟩ |
          ⟨-, ⟨-, hp⟩ | ⟨-, -, hp⟩ | ⟨-, -, w, passed, hp⟩⟩ <;> simp [hp, hl.2] at hpc ⊢
      · rcases schedulerPass_cases (hpos c rfl) s.startState with ⟨-, hp⟩ |
          ⟨-, ⟨-, hp⟩ | ⟨-, -, hp⟩ | ⟨-, -, w, passed, hp⟩⟩ <;>
        · simp only [hp, Kernel.setPc, Kernel.setCpu, Function.update_of_ne hc] at hpc ⊢
          exact h c' hpc
  | _ => exact absurd rfl ha

/-- In every reachable state the locals are clean. -/
lemma Reachable.clean (h : Reachable ok s) : Clean s :=
  h.invariant (fun _ _ => ⟨rfl, rfl⟩) fun hr hc he => hc.step he fun _ _ => hr.ticketsPos

/-! ### What a pass decides -/

/-- With the locals at zero a pass dispatches exactly when the total is an `int` whose low
sixteen bits are not all zero, and it never runs off the end of the table. -/
lemma schedulerPass_dispatch_iff {t : Table} (hpos : TicketsPos t)
    (hrun : ∃ i, (t i).state = runnable) (v : Ushort) :
    ((∃ w total passed v', schedulerPass t 0 0 v = .dispatch w total passed v') ↔
      ticketTotal t ≤ intMax ∧ ticketTotal t % 65536 ≠ 0) ∧
    ∀ v', schedulerPass t 0 0 v ≠ .fault .offEnd v' := by
  obtain ⟨i, hi⟩ := hrun
  rcases schedulerPass_cases hpos v with ⟨hnone, -⟩ |
    ⟨-, ⟨hT, hp⟩ | ⟨-, hm, hp⟩ | ⟨hT, hm, w, b, hp⟩⟩
  · exact absurd hi (hnone i)
  · simp [hp, not_le.mpr hT]
  · simp [hp, hm]
  · simp [hp, hm, hT]

/-- A total below `2^16` is its own limit. -/
lemma ticketTotal_fits {t : Table} (hT : 0 < ticketTotal t) (hle : ticketTotal t ≤ 65535) :
    ticketTotal t ≤ intMax ∧ ticketTotal t % 65536 ≠ 0 :=
  ⟨hle.trans (by norm_num), by omega⟩

/-- **When a pass dispatches.** In every reachable state in which a CPU is in a pass and
something is `RUNNABLE`, the pass switches to a `RUNNABLE` process if and only if the
total of the tickets is an `int` and not a multiple of `2^16`; the winner loop never runs
off the table. If no assignment exceeds `MAX_TICKETS_PER_PROCESS` this is always so. -/
theorem pass_dispatches_iff (h : Reachable AnyAct s) {c : Fin n} (hpc : (s.cpus c).pc = .pass)
    (hrun : ∃ i, (s.table i).state = runnable) :
    ((∃ w total passed v, s.pass c = .dispatch w total passed v ∧ (s.table w).state = runnable) ↔
      ticketTotal s.table ≤ intMax ∧ ticketTotal s.table % 65536 ≠ 0) ∧
    (∀ v, s.pass c ≠ .fault .offEnd v) ∧
    (Reachable TicketBound s →
      ticketTotal s.table ≤ intMax ∧ ticketTotal s.table % 65536 ≠ 0) := by
  have hl := h.clean c (Or.inr (Or.inl hpc))
  have hspec := schedulerPass_dispatch_iff h.ticketsPos hrun s.startState
  simp only [Kernel.pass, hl.1, hl.2]
  refine ⟨⟨fun ⟨w, a, b, v, hp, _⟩ => hspec.1.mp ⟨w, a, b, v, hp⟩, fun hT => ?_⟩, hspec.2,
    fun hb => ?_⟩
  · obtain ⟨w, a, b, v, hp⟩ := hspec.1.mpr hT
    exact ⟨w, a, b, v, hp, schedulerPass_runnable hp⟩
  · obtain ⟨i, hi⟩ := hrun
    exact ticketTotal_fits (ticketTotal_pos h.ticketsPos hi) (by linarith [hb.ticketTotal_le])

/-- On CPU 0 the first process forks, gives the child 300 tickets and yields. CPU 1 then enters
a pass, with both of them `RUNNABLE`. -/
def laterPass : List (Act 2) :=
  [.schedAcquire 0, .schedPass 0, .forkret 0 0, .forkAlloc 0 0, .forkStack 0 0 1 true,
    .forkCopy 0 0 1 true, .forkFill 0 0 1, .forkPublish 0 0 1, .assignTickets 0 0 2 300,
    .yield 0 0 .user, .schedBack 0, .schedRelease 0, .schedAcquire 1]

def laterState : Kernel 2 := (machine 2).exec (boot 2) laterPass

lemma reachable_laterState : Reachable AnyAct laterState := reachable_exec (by decide +kernel)

lemma laterState_pc : (laterState.cpus 1).pc = .pass := by decide +kernel

theorem pass_dispatches_later : ticketTotal laterState.table = 400 ∧
    ∃ w total passed v, laterState.pass 1 = .dispatch w total passed v ∧
      (laterState.table w).state = runnable := by
  have htotal : ticketTotal laterState.table = 400 := by decide +kernel
  refine ⟨htotal, (pass_dispatches_iff reachable_laterState laterState_pc
    ⟨1, by decide +kernel⟩).1.mpr ?_⟩
  rw [htotal]
  norm_num

/-- The first process assigns itself 65536 tickets and yields. -/
def divideRun : List (Act 1) :=
  [.schedAcquire 0, .schedPass 0, .forkret 0 0, .assignTickets 0 0 1 65536, .yield 0 0 .user,
    .schedBack 0, .schedRelease 0, .schedAcquire 0]

/-- The pass then divides by zero, though the process is `RUNNABLE`. -/
theorem pass_divides_by_zero : ∃ s : Kernel 1, Reachable AnyAct s ∧ (s.cpus 0).pc = .pass ∧
    (s.table 0).state = runnable ∧ s.pass 0 = .fault .divide 0xACE3 :=
  ⟨(machine 1).exec (boot 1) divideRun, reachable_exec (by decide +kernel), by decide +kernel⟩

/-! ### Who can win -/

/-- The slots a pass can dispatch, over all values of `start_state`: those whose first
ticket lies below the limit that reaches the generator. -/
lemma exists_dispatch_iff {t : Table} (hpos : TicketsPos t) {p : Slot}
    (hp : (t p).state = runnable) :
    (∃ v total passed v', schedulerPass t 0 0 v = .dispatch p total passed v') ↔
      ticketTotal t ≤ intMax ∧ ticketsBefore t p < ticketTotal t % 65536 := by
  have hT := ticketTotal_pos hpos hp
  have hb := ticketsBefore_nonneg hpos p
  constructor
  · rintro ⟨v, total, passed, v', hd⟩
    obtain ⟨hint, hmod⟩ :=
      (schedulerPass_dispatch_iff hpos ⟨p, hp⟩ v).1.mp ⟨p, total, passed, v', hd⟩
    obtain ⟨r, w, b, -, hr, hw, hd'⟩ := schedulerPass_dispatch hpos hT hint hmod v
    obtain ⟨rfl, -⟩ := Pass.dispatch.inj (hd.symm.trans hd')
    exact ⟨hint, lt_of_le_of_lt hw.2.1 hr⟩
  · rintro ⟨hint, hlt⟩
    have hlim := toNat_ofInt_ticketTotal (t := t)
    -- the start state for which the generator returns the first ticket of `p`
    have hfirst : (ticketsBefore t p).toNat < (BitVec.ofInt 16 (ticketTotal t)).toNat := by omega
    obtain ⟨v, x, hx, hxr⟩ := exists_generateRandomNumber hfirst
    obtain ⟨r, w, b, hg, -, hw, hd⟩ := schedulerPass_dispatch hpos hT hint (by omega) v
    have hxr' : x = r := by
      rw [hg] at hx
      exact (Option.some.inj hx).symm
    have hwin : Wins t r.toNat p := by
      have hpp := hpos p hp
      refine ⟨hp, ?_, ?_⟩ <;> rw [← hxr', hxr] <;> omega
    obtain rfl := hw.unique hpos (Int.natCast_nonneg _) hwin
    exact ⟨v, _, _, _, hd⟩

/-- **Who can win.** In every reachable state, a `RUNNABLE` process can win the next pass of
a CPU, for some value of `start_state`, if and only if the total of the tickets is an
`int` and the tickets before the process are fewer than its low sixteen bits. If no
assignment exceeds `MAX_TICKETS_PER_PROCESS` every process can. -/
theorem winnable_iff (h : Reachable AnyAct s) {c : Fin n}
    (hpc : (s.cpus c).pc = .top ∨ (s.cpus c).pc = .pass) {p : Slot}
    (hp : (s.table p).state = runnable) :
    ((∃ v total passed v', ({ s with startState := v } : Kernel n).pass c =
        .dispatch p total passed v') ↔
      ticketTotal s.table ≤ intMax ∧ ticketsBefore s.table p < ticketTotal s.table % 65536) ∧
    (Reachable TicketBound s →
      ticketTotal s.table ≤ intMax ∧ ticketsBefore s.table p < ticketTotal s.table % 65536) := by
  have hl := h.clean c (hpc.imp_right Or.inl)
  simp only [Kernel.pass, hl.1, hl.2]
  refine ⟨exists_dispatch_iff h.ticketsPos hp, fun hb => ?_⟩
  have hle := hb.ticketTotal_le
  have hT := ticketTotal_pos h.ticketsPos hp
  have hbefore := ticketsBefore_add_le h.ticketsPos hp
  have hpp := h.ticketsPos p hp
  exact ⟨hle.trans (by norm_num), by omega⟩

/-- In the later pass above the child, whose tickets come after the 100 of its parent, can win. -/
theorem child_winnable_later : ∃ v total passed v',
    ({ laterState with startState := v } : Kernel 2).pass 1 = .dispatch 1 total passed v' :=
  (winnable_iff reachable_laterState (Or.inr laterState_pc) (by decide +kernel)).1.mpr
    (by decide +kernel)

/-- The first process forks, assigns itself 65536 tickets and yields. -/
def starveRun : List (Act 1) :=
  [.schedAcquire 0, .schedPass 0, .forkret 0 0, .forkAlloc 0 0, .forkStack 0 0 1 true,
    .forkCopy 0 0 1 true, .forkFill 0 0 1, .forkPublish 0 0 1, .assignTickets 0 0 1 65536,
    .yield 0 0 .user, .schedBack 0, .schedRelease 0, .schedAcquire 0]

/-- The total is then 65636, the generator returns tickets below 100, and the child, which
comes after 65536 tickets, wins for no value of `start_state`. -/
theorem child_cannot_win : ∃ s : Kernel 1, Reachable AnyAct s ∧ (s.cpus 0).pc = .pass ∧
    (s.table 1).state = runnable ∧ ∀ v total passed v',
      ({ s with startState := v } : Kernel 1).pass 0 ≠ .dispatch 1 total passed v' := by
  have hreach : Reachable AnyAct ((machine 1).exec (boot 1) starveRun) :=
    reachable_exec (by decide +kernel)
  have hpc : (((machine 1).exec (boot 1) starveRun).cpus 0).pc = .pass := by decide +kernel
  have hp : (((machine 1).exec (boot 1) starveRun).table 1).state = runnable := by decide +kernel
  refine ⟨_, hreach, hpc, hp, fun v total passed v' hd => ?_⟩
  have hl := hreach.clean 0 (Or.inr (Or.inl hpc))
  simp only [Kernel.pass, hl.1, hl.2] at hd
  have hlt := ((exists_dispatch_iff hreach.ticketsPos hp).mp ⟨v, total, passed, v', hd⟩).2
  revert hlt
  decide +kernel

/-! ### The reference lottery -/

/-- The stateless lottery on a table: nobody and no draw if nothing is `RUNNABLE`, otherwise
one draw with the total `T` as limit and the holder of the ticket drawn. -/
inductive Lottery (t : Table) (v : Ushort) : Option Slot → Ushort → Prop
  | idle (h : ∀ i, (t i).state ≠ runnable) : Lottery t v none v
  | draw {limit r v' : Ushort} {w : Slot} (hT : (limit.toNat : ℤ) = ticketTotal t)
      (hr : generateRandomNumber v limit = (some r, v')) (hw : Wins t r.toNat w) :
      Lottery t v (some w) v'

/-- The lottery has at most one outcome. -/
lemma Lottery.unique {t : Table} (hpos : TicketsPos t) {v v₁ v₂ : Ushort} {o₁ o₂ : Option Slot}
    (h₁ : Lottery t v o₁ v₁) (h₂ : Lottery t v o₂ v₂) : o₁ = o₂ ∧ v₁ = v₂ := by
  cases h₁ with
  | idle hnone =>
      cases h₂ with
      | idle _ => exact ⟨rfl, rfl⟩
      | draw _ _ hw => exact absurd hw.1 (hnone _)
  | @draw limit r v' w hT hr hw =>
      cases h₂ with
      | idle hnone => exact absurd hw.1 (hnone _)
      | @draw limit₂ r₂ v₂ w₂ hT₂ hr₂ hw₂ =>
          obtain rfl : limit = limit₂ := by
            apply BitVec.eq_of_toNat_eq
            exact_mod_cast hT.trans hT₂.symm
          obtain ⟨h1, rfl⟩ := Prod.mk.inj (hr.symm.trans hr₂)
          obtain rfl := Option.some.inj h1
          exact ⟨by rw [hw.unique hpos (Int.natCast_nonneg _) hw₂], rfl⟩

/-- The state after a pass that realises the outcome `o` of the lottery, with the generator
at `v`. -/
structure Realises (s : Kernel n) (c : Fin n) (o : Option Slot) (v : Ushort) : Prop where
  startState : (s.next (.schedPass c)).startState = v
  proc : ((s.next (.schedPass c)).cpus c).proc = o
  table : (s.next (.schedPass c)).table = match o with
    | none => s.table
    | some w => Function.update s.table w
        { s.table w with ticks := incInt (s.table w).ticks, state := running }
  event : s.event (.schedPass c) = match o with
    | none => .other
    | some w => .dispatched w (s.table w).pid

/-- A pass over tickets that fit the generator realises the lottery. -/
lemma schedPass_realises {c : Fin n} (hnone : (s.cpus c).proc = none)
    (hl : (s.cpus c).totalTickets = 0 ∧ (s.cpus c).ticketsPassed = 0)
    (hpos : TicketsPos s.table) (hle : ticketTotal s.table ≤ 65535) :
    ∃ o v, Lottery s.table s.startState o v ∧ Realises s c o v := by
  rcases (ticketTotal_nonneg hpos).eq_or_lt with h0 | hT
  · have hno := (ticketTotal_eq_zero_iff hpos).mp h0.symm
    have hp := schedulerPass_idle hpos hno s.startState
    refine ⟨none, s.startState, .idle hno, ?_, ?_, ?_, ?_⟩ <;>
      simp [Kernel.next, Kernel.event, hl.1, hl.2, hp, hnone]
  · obtain ⟨hint, hmod⟩ := ticketTotal_fits hT hle
    obtain ⟨r, w, passed, hr, -, hw, hp⟩ := schedulerPass_dispatch hpos hT hint hmod s.startState
    have hlim := toNat_ofInt_ticketTotal (t := s.table)
    refine ⟨some w, nextState s.startState, .draw (by omega) hr hw, ?_, ?_, ?_, ?_⟩ <;>
      simp [Kernel.next, Kernel.event, hl.1, hl.2, hp]

/-- **A pass is the stateless lottery.** In every run with ticket assignments of at most
`MAX_TICKETS_PER_PROCESS`, the locals of a CPU are zero at the start of every pass, the
lottery on the table has exactly one outcome, and the pass realises it. -/
theorem schedPass_refines_lottery (h : Reachable TicketBound s) (c : Fin n) :
    ((s.cpus c).pc = .top ∨ (s.cpus c).pc = .pass →
      (s.cpus c).totalTickets = 0 ∧ (s.cpus c).ticketsPassed = 0) ∧
    ((s.cpus c).pc = .pass → ∃ o v, Realises s c o v ∧
      ∀ o' v', Lottery s.table s.startState o' v' ↔ o' = o ∧ v' = v) := by
  refine ⟨fun hpc => h.clean c (hpc.imp_right Or.inl), fun hpc => ?_⟩
  have hnone : (s.cpus c).proc = none := by
    have hc := h.coherent.cpu.cpu c
    simp only [CpuOk, hpc] at hc
    exact hc.1
  obtain ⟨o, v, hlot, hreal⟩ := schedPass_realises hnone (h.clean c (Or.inr (Or.inl hpc)))
    h.ticketsPos (h.ticketTotal_le.trans (by norm_num))
  refine ⟨o, v, hreal, fun o' v' => ⟨fun h' => h'.unique h.ticketsPos hlot, ?_⟩⟩
  rintro ⟨rfl, rfl⟩
  exact hlot

theorem schedPass_refines_lottery_later :
    ∃ o v, Realises laterState 1 o v ∧
      ∀ o' v', Lottery laterState.table laterState.startState o' v' ↔ o' = o ∧ v' = v :=
  (schedPass_refines_lottery (reachable_exec (by decide +kernel)) 1).2 laterState_pc

end Xv6Lottery
