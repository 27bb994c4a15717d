import Xv6Lottery.Kernel.Refine

/-!
What an action leaves alone: the other CPUs, the locks of others, and the slots of processes
that have no part in it.

* `Act.cpu`, `cpus_next_of_ne`: the CPU of an action, and no action changes another one.
* `LockMoves`, `LockInv.moves`: an action acquires or releases at most one lock, for its own
  CPU. `LockInv` follows: `ncli` counts the locks that a CPU holds, so a CPU with a lock has
  its interrupts off, and a thread that enters `sleep` has its lock.
* `Act.own`, `Act.point`, `Kernel.goesOn`: the slot of the process that acts, where it is and
  where it goes on. `Kernel.workedOn`: the other slot that `fork` or `wait` works on.
* `Kernel.CallsWakeup1`, `Kernel.Kills`: who wakes sleepers up.
* `Spectates`, `spectates_next`: every other slot keeps its continuation, channel and files;
  a sleeper among them is woken only by a `wakeup1` on its channel or by a kill.
  `keeps_of_not_own`: the same for continuations and files, of the slots worked on too.
* `SyncInv`: `Coherent` and `LockInv`, together an invariant of the machine.
-/

namespace Xv6Lottery

open Procstate Library

variable {n : ℕ} {s : Kernel n} {a : Act n}

/-! ### CPUs and locks -/

/-- The CPU that takes the action. -/
def Act.cpu : Act n → Fin n
  | .schedAcquire c | .schedPass c | .schedBack c | .schedRelease c | .forkret c _ | .yield c _ _
  | .yieldReturn c _ _ | .forkAlloc c _ | .forkStack c _ _ _ | .forkCopy c _ _ _ | .forkFill c _ _
  | .forkPublish c _ _ | .exitCall c _ | .exitClose c _ _ | .exitCwd c _ | .exitSched c _
  | .waitCall c _ | .waitScan c _ | .waitWake c _ | .sleepCall c _ _ _ _ | .sleepAcquire c _ _ _ _
  | .sleepRelease c _ _ _ _ | .sleepSched c _ _ _ _ | .sleepReturn c _ _ _ | .sleepRelock c _ _ _
  | .wakeup c _ | .kill c _ _ | .assignTickets c _ _ _ | .procInfo c _ _ | .trapKill c _
  | .sysOther c _ _ _ _ _ | .acquireLk c _ | .releaseLk c _ => c

/-- What an action does to the locks and to the `ncli` of its CPU `c`. -/
inductive LockMoves (c : Fin n) (s s' : Kernel n) : Prop
  | keep (hlock : s'.lock = s.lock) (hlocks : s'.locks = s.locks)
      (hncli : (s'.cpus c).ncli = (s.cpus c).ncli)
  | acquire (hfree : s.lock = none) (hlock : s'.lock = some c) (hlocks : s'.locks = s.locks)
      (hncli : (s'.cpus c).ncli = (s.cpus c).ncli + 1)
  | release (hheld : s.lock = some c) (hlock : s'.lock = none) (hlocks : s'.locks = s.locks)
      (hncli : (s'.cpus c).ncli = (s.cpus c).ncli - 1)
  | acquireLk {lk : ℕ} (hfree : s.locks lk = none) (hlock : s'.lock = s.lock)
      (hlocks : s'.locks = Function.update s.locks lk (some c))
      (hncli : (s'.cpus c).ncli = (s.cpus c).ncli + 1)
  | releaseLk {lk : ℕ} (hheld : s.locks lk = some c) (hlock : s'.lock = s.lock)
      (hlocks : s'.locks = Function.update s.locks lk none)
      (hncli : (s'.cpus c).ncli = (s.cpus c).ncli - 1)

namespace LockMoves

variable {c c' : Fin n} {s' : Kernel n} (h : LockMoves c s s') (hc : c' ≠ c)
include h hc

/-- Another CPU keeps its hold on `ptable.lock`. -/
lemma lock_iff : s'.lock = some c' ↔ s.lock = some c' := by
  cases h with
  | keep hlock _ _ | acquireLk _ hlock _ _ | releaseLk _ hlock _ _ => rw [hlock]
  | acquire hfree hlock _ _ => simp [hfree, hlock, hc.symm]
  | release hheld hlock _ _ => simp [hheld, hlock, hc.symm]

/-- And so it does on any other lock. -/
lemma locks_iff (lk : ℕ) : s'.locks lk = some c' ↔ s.locks lk = some c' := by
  cases h with
  | keep _ hlocks _ | acquire _ _ hlocks _ | release _ _ hlocks _ => rw [hlocks]
  | @acquireLk lk' hfree _ hlocks _ =>
      rcases eq_or_ne lk lk' with rfl | hne
      · simp [hlocks, hfree, hc.symm]
      · simp [hlocks, hne]
  | @releaseLk lk' hheld _ hlocks _ =>
      rcases eq_or_ne lk lk' with rfl | hne
      · simp [hlocks, hheld, hc.symm]
      · simp [hlocks, hne]

end LockMoves

/-- An action changes no CPU but its own. -/
lemma cpus_next_of_ne {c : Fin n} (hc : c ≠ a.cpu) : (s.next a).cpus c = s.cpus c := by
  cases a with
  | schedPass c' =>
      simp only [Act.cpu] at hc
      simp only [Kernel.next]
      split <;> simp [hc]
  | forkAlloc c' i =>
      simp only [Kernel.next]
      split <;> rfl
  | forkCopy c' i np ok => cases ok <;> rfl
  | exitCall c' i =>
      simp only [Act.cpu] at hc
      simp only [Kernel.next]
      split_ifs <;> simp [hc]
  | exitClose c' i fd =>
      simp only [Kernel.next]
      split_ifs <;> rfl
  | waitScan c' i =>
      simp only [Act.cpu] at hc
      simp only [Kernel.next]
      split
      · simp [hc]
      · split_ifs <;> simp [hc]
  | _ =>
      simp only [Act.cpu] at hc
      simp [Kernel.next, hc]

/-! ### Slots -/

/-- The slot whose process the action moves on, or whose private fields it sets. -/
def Act.own : Act n → Option Slot
  | .forkret _ i | .yield _ i _ | .yieldReturn _ i _ | .forkAlloc _ i | .forkStack _ i _ _
  | .forkCopy _ i _ _ | .forkFill _ i _ | .forkPublish _ i _ | .exitCall _ i | .exitClose _ i _
  | .exitCwd _ i | .exitSched _ i | .waitCall _ i | .waitScan _ i | .waitWake _ i
  | .sleepCall _ i _ _ _ | .sleepAcquire _ i _ _ _ | .sleepRelease _ i _ _ _
  | .sleepSched _ i _ _ _ | .sleepReturn _ i _ _ | .sleepRelock _ i _ _
  | .sysOther _ i _ _ _ _ => some i
  | _ => none

/-- The point at which the process that acts is. -/
def Act.point : Act n → Context
  | .forkret _ _ => .forkret
  | .forkAlloc _ _ | .exitCall _ _ | .waitCall _ _ | .sysOther _ _ _ _ _ _ => .user
  | .yield _ _ k | .sleepCall _ _ _ _ k => k
  | .yieldReturn _ _ k => .yielded k
  | .forkStack _ _ np _ => .allocStack np
  | .forkCopy _ _ np _ => .forkCopy np
  | .forkFill _ _ np => .forkFill np
  | .forkPublish _ _ np => .forkPublish np
  | .exitClose _ _ fd => .exitClose fd
  | .exitCwd _ _ => .exitCwd
  | .exitSched _ _ => .exitLock
  | .waitScan _ _ => .waitScan
  | .waitWake _ _ => .waitSleep
  | .sleepAcquire _ _ a lk k => .sleepEnter a lk k
  | .sleepRelease _ _ a lk k => .sleepBoth a lk k
  | .sleepSched _ _ a lk k => .sleepSet a lk k
  | .sleepReturn _ _ lk k => .slept lk k
  | .sleepRelock _ _ lk k => .sleepRelock lk k
  | _ => .null

namespace Kernel

variable (s)

/-- Where the process that acts goes on. -/
def goesOn : Act n → Context
  | .forkret _ _ | .forkPublish _ _ _ | .sysOther _ _ _ _ _ _ => .user
  | .yield _ _ k => .yielded k
  | .yieldReturn _ _ k | .sleepRelock _ _ _ k => k
  | .forkAlloc _ _ =>
      match findUnused s.table with
      | none => .user
      | some np => .allocStack np
  | .forkStack _ _ np ok => if ok then .forkCopy np else .user
  | .forkCopy _ _ np ok => if ok then .forkFill np else .user
  | .forkFill _ _ np => .forkPublish np
  | .exitCall _ i => if s.initproc = some i then .user else .exitClose 0
  | .exitClose _ _ fd => if fd < NOFILE then .exitClose (fd + 1) else .exitCwd
  | .exitCwd _ _ => .exitLock
  | .exitSched _ _ => .exited
  | .waitCall _ _ | .waitWake _ _ => .waitScan
  | .waitScan _ i =>
      match waitLoop s.table i slots false with
      | (_, some _) => .user
      | (havekids, none) =>
          if havekids = false ∨ (s.table i).killed = true then .user else .waitSleep
  | .sleepCall _ _ a lk k => .sleepEnter a lk k
  | .sleepAcquire _ _ a lk k => .sleepBoth a lk k
  | .sleepRelease _ _ a lk k => .sleepSet a lk k
  | .sleepSched _ _ _ lk k => .slept lk k
  | .sleepReturn _ _ lk k => .sleepRelock lk k
  | _ => .null

/-- The slot that `fork` fills or gives back, or that `wait` collects. -/
def workedOn : Act n → Option Slot
  | .forkAlloc _ _ => findUnused s.table
  | .forkStack _ _ np _ | .forkCopy _ _ np _ | .forkFill _ _ np | .forkPublish _ _ np => some np
  | .waitScan _ i => (waitLoop s.table i slots false).2
  | _ => none

/-- The action calls `wakeup1(ch)`: in `wakeup`, in `exit` for the parent, or in `exit` for
`initproc` when a zombie is passed on to it. -/
def CallsWakeup1 (ch : Option (Chan Slot)) : Act n → Prop
  | .wakeup _ ch' => ch = some ch'
  | .exitSched _ i => ch = (s.table i).parent.map Chan.proc ∨
      ch = s.initproc.map Chan.proc ∧
        ∃ p, (s.table p).parent = some i ∧ (s.table p).state = zombie
  | _ => False

/-- The action is a `kill` that finds slot `j`. -/
def Kills (j : Slot) : Act n → Prop
  | .kill _ _ pid => findPid s.table pid = some j
  | _ => False

end Kernel

/-- What happens to the slot `j` of a process that has no part in the action `a`. -/
structure Spectates (s : Kernel n) (a : Act n) (j : Slot) : Prop where
  context : ((s.next a).table j).context = (s.table j).context
  chan : ((s.next a).table j).chan = (s.table j).chan
  ofile : ((s.next a).table j).ofile = (s.table j).ofile
  parent : (s.table j).parent = none → ((s.next a).table j).parent = none
  state : ((s.next a).table j).state = (s.table j).state ∨
    (s.table j).state = runnable ∧ ((s.next a).table j).state = running ∨
    (s.table j).state = sleeping ∧ ((s.next a).table j).state = runnable ∧
      (s.CallsWakeup1 (s.table j).chan a ∨ s.Kills j a)

/-- The slot that an action has to do with is another one than those it has not. -/
lemma ne_of_ne_some {o : Option Slot} {i j : Slot} (hi : o = some i) (hj : o ≠ some j) : j ≠ i :=
  fun h => hj (hi.trans (congrArg some h.symm))

/-- A slot that the action leaves alone. -/
lemma Spectates.of_eq {j : Slot} (h : (s.next a).table j = s.table j) : Spectates s a j :=
  ⟨by rw [h], by rw [h], by rw [h], by rw [h]; exact id, Or.inl (by rw [h])⟩

/-- A sleeper that `wakeup1` wakes up sleeps on the channel. -/
lemma wakeup1_wakes {t : Table} {ch : Option (Chan Slot)} {j : Slot}
    (hs : (t j).state = sleeping) (hw : (wakeup1 t ch j).state ≠ sleeping) : (t j).chan = ch := by
  by_contra hne
  rw [wakeup1, if_neg fun h => hne h.2] at hw
  exact hw hs

/-- A sleeper that the loop of `exit` wakes up sleeps on the channel of `initproc`, to which a
zombie is passed on. -/
lemma reparentLoop_wakes {ip : Option Slot} {cur : Slot} {l : List Slot} {t : Table} {j : Slot}
    (hs : (t j).state = sleeping) (hw : (reparentLoop ip cur l t j).state ≠ sleeping) :
    (t j).chan = ip.map Chan.proc ∧ ∃ p, (t p).parent = some cur ∧ (t p).state = zombie := by
  induction l generalizing t with
  | nil => exact absurd hs hw
  | cons p ps ih =>
      by_cases hp : (t p).parent = some cur
      · set t₁ : Table := Function.update t p { t p with parent := ip } with ht₁
        have hsame : ∀ j, (t₁ j).state = (t j).state ∧ (t₁ j).chan = (t j).chan := by
          refine (Function.forall_update_iff t fun j x => x.state = (t j).state ∧
            x.chan = (t j).chan).mpr ⟨⟨rfl, rfl⟩, fun j _ => ⟨rfl, rfl⟩⟩
        by_cases hz : (t₁ p).state = zombie
        · refine ⟨?_, p, hp, (hsame p).1 ▸ hz⟩
          simp only [reparentLoop, hp, if_true] at hw
          rw [if_pos hz] at hw
          -- woken in this turn, or in a later one
          by_cases hs₁ : (wakeup1 t₁ (ip.map Chan.proc) j).state = sleeping
          · obtain ⟨st, -, he, -⟩ := wakeup1_apply t₁ (ip.map Chan.proc) j
            have hchan := (ih hs₁ hw).1
            rw [he] at hchan
            rw [← (hsame j).2]
            exact hchan
          · rw [← (hsame j).2]
            exact wakeup1_wakes ((hsame j).1.trans hs) hs₁
        · simp only [reparentLoop, hp, if_true] at hw
          rw [if_neg hz] at hw
          obtain ⟨hchan, q, hq, hqz⟩ := ih ((hsame j).1.trans hs) hw
          have hqp : q ≠ p := by
            rintro rfl
            exact hz hqz
          refine ⟨(hsame j).2 ▸ hchan, q, ?_, (hsame q).1 ▸ hqz⟩
          rwa [ht₁, Function.update_of_ne hqp] at hq
      · rw [reparentLoop, if_neg hp] at hw
        exact ih hs hw

/-- A sleeper that `exit` wakes up sleeps on a channel for which `exit` calls `wakeup1`. -/
lemma exitTable_wakes {ip : Option Slot} {t : Table} {cur j : Slot} (hj : j ≠ cur)
    (hs : (t j).state = sleeping) (hw : (exitTable ip t cur j).state ≠ sleeping) :
    (t j).chan = (t cur).parent.map Chan.proc ∨ (t j).chan = ip.map Chan.proc ∧
      ∃ p, (t p).parent = some cur ∧ (t p).state = zombie := by
  simp only [exitTable, Function.update_of_ne hj] at hw
  set t₁ := wakeup1 t ((t cur).parent.map Chan.proc) with ht₁
  have happ := wakeup1_apply t ((t cur).parent.map Chan.proc)
  by_cases hs₁ : (t₁ j).state = sleeping
  · obtain ⟨hchan, p, hp, hz⟩ := reparentLoop_wakes hs₁ hw
    obtain ⟨st, -, he, -⟩ := happ j
    obtain ⟨stp, hstp, hep, -⟩ := happ p
    rw [ht₁, he] at hchan
    rw [ht₁, hep] at hp hz
    exact Or.inr ⟨hchan, p, hp, hstp.eq_iff.mp hz⟩
  · exact Or.inl (wakeup1_wakes hs hs₁)

/-- **Spectators.** A slot that is neither the one of the process that acts nor worked on by it
keeps its continuation, channel and files, and is woken up only by a call to `wakeup1` for its
channel or by a kill. -/
lemma spectates_next {j : Slot} (hown : a.own ≠ some j) (hwork : s.workedOn a ≠ some j) :
    Spectates s a j := by
  cases a with
  | schedPass c =>
      cases hp : s.pass c with
      | idle total | fault f v => exact .of_eq (by simp [Kernel.next, hp])
      | dispatch w total passed v =>
          rcases eq_or_ne j w with rfl | hjw
          · have hw := schedulerPass_runnable hp
            constructor <;> simp [Kernel.next, hp, hw]
          · exact .of_eq (by simp [Kernel.next, hp, hjw])
  | wakeup c ch =>
      by_cases h : (s.table j).state = sleeping ∧ (s.table j).chan = some ch
      · have hj : wakeup1 s.table (some ch) j = { s.table j with state := runnable } := if_pos h
        refine ⟨?_, ?_, ?_, ?_, Or.inr (Or.inr ⟨h.1, ?_, Or.inl h.2⟩)⟩ <;>
          simp [Kernel.next, hj]
      · exact .of_eq (if_neg h)
  | kill c i pid =>
      cases hf : findPid s.table pid with
      | none => exact .of_eq (by simp [Kernel.next, Xv6Lottery.kill, hf])
      | some p =>
          rcases eq_or_ne j p with rfl | hjp
          · constructor
            case state =>
              by_cases hs : (s.table j).state = sleeping
              · refine Or.inr (Or.inr ⟨hs, ?_, Or.inr hf⟩)
                simp [Kernel.next, Xv6Lottery.kill, hf, hs]
              · exact Or.inl (by simp [Kernel.next, Xv6Lottery.kill, hf, hs])
            all_goals simp [Kernel.next, Xv6Lottery.kill, hf]
          · exact .of_eq (by simp [Kernel.next, Xv6Lottery.kill, hf, hjp])
  | assignTickets c i pid tickets =>
      obtain ⟨m, hm⟩ := sysAssignTickets_apply s.table pid tickets j
      constructor <;> simp [Kernel.next, hm]
  | trapKill c i =>
      rcases eq_or_ne j i with rfl | hji
      · constructor <;> simp [Kernel.next]
      · exact .of_eq (by simp [Kernel.next, hji])
  | exitSched c i =>
      have hji := ne_of_ne_some (i := i) rfl hown
      obtain ⟨st, hst, he⟩ := exitTable_apply s.initproc s.table i j
      rw [if_neg hji] at hst
      have hj : (s.next (.exitSched c i)).table j = exitTable s.initproc s.table i j := by
        simp [Kernel.next, hji]
      refine ⟨by rw [hj, he], by rw [hj, he], by rw [hj, he], fun hpar => ?_, ?_⟩
      · rw [hj, he]
        simp [hpar]
      · rw [hj, he]
        rcases hst with rfl | ⟨hs, rfl⟩
        · exact Or.inl rfl
        · exact Or.inr (Or.inr ⟨hs, rfl, Or.inl (exitTable_wakes hji hs (by rw [he]; simp))⟩)
  | forkAlloc c i =>
      have hji := ne_of_ne_some (i := i) rfl hown
      cases hf : findUnused s.table with
      | none => exact .of_eq (by simp [Kernel.next, hf])
      | some np =>
          have hjn : j ≠ np := fun h => hwork (by rw [Kernel.workedOn, hf, h])
          exact .of_eq (by simp [Kernel.next, hf, allocproc, hji, hjn])
  | forkStack c i np ok =>
      have hji := ne_of_ne_some (i := i) rfl hown
      have hjn := ne_of_ne_some (i := np) rfl hwork
      cases ok <;> exact .of_eq (by simp [Kernel.next, allocprocStack, hji, hjn])
  | forkCopy c i np ok =>
      have hji := ne_of_ne_some (i := i) rfl hown
      have hjn := ne_of_ne_some (i := np) rfl hwork
      cases ok <;> exact .of_eq (by simp [Kernel.next, forkUndo, hji, hjn])
  | forkFill c i np | forkPublish c i np =>
      have hji := ne_of_ne_some (i := i) rfl hown
      have hjn := ne_of_ne_some (i := np) rfl hwork
      exact .of_eq (by simp [Kernel.next, forkFill, forkPublish, hji, hjn])
  | exitCall c i | exitClose c i fd =>
      have hji := ne_of_ne_some (i := i) rfl hown
      refine .of_eq ?_
      simp only [Kernel.next]
      split_ifs <;> simp [hji]
  | waitScan c i =>
      have hji := ne_of_ne_some (i := i) rfl hown
      refine .of_eq ?_
      cases hw : waitLoop s.table i slots false with
      | mk havekids z =>
          cases z with
          | some z =>
              have hjz : j ≠ z := fun h => hwork (by rw [Kernel.workedOn, hw, h])
              simp [Kernel.next, hw, reap, hji, hjz]
          | none =>
              simp only [Kernel.next, hw]
              split_ifs <;> simp [hji]
  | forkret c i | yield c i k | yieldReturn c i k | exitCwd c i | waitCall c i | waitWake c i
  | sleepCall c i a lk k | sleepAcquire c i a lk k | sleepRelease c i a lk k
  | sleepSched c i a lk k | sleepReturn c i lk k | sleepRelock c i lk k
  | sysOther c i sz ofile cwd name =>
      have hji := ne_of_ne_some (i := i) rfl hown
      exact .of_eq (by simp [Kernel.next, hji])
  | _ => exact .of_eq rfl

/-- The process that acts is executed by the CPU of the action. -/
lemma at_of_own {j : Slot} (he : s.Enabled a) (hown : a.own = some j) : s.At a.cpu j a.point := by
  cases a with
  | schedAcquire c | schedPass c | schedBack c | schedRelease c | wakeup c ch | kill c i pid
  | assignTickets c i pid tickets | procInfo c i info | trapKill c i | acquireLk c lk
  | releaseLk c lk => cases hown
  | forkret c i | yieldReturn c i k | waitScan c i | waitWake c i | sleepRelease c i a lk k
  | sleepSched c i a lk k | sleepReturn c i lk k | sysOther c i sz ofile cwd name =>
      obtain rfl : i = j := Option.some.inj hown
      exact he
  | _ c i =>
      obtain rfl : i = j := Option.some.inj hown
      exact he.1

/-- The continuation of the process that acts. -/
lemma context_of_own {j : Slot} (he : s.Enabled a) (hown : a.own = some j) :
    ((s.next a).table j).context = s.goesOn a := by
  cases a with
  | schedAcquire c | schedPass c | schedBack c | schedRelease c | wakeup c ch | kill c i pid
  | assignTickets c i pid tickets | procInfo c i info | trapKill c i | acquireLk c lk
  | releaseLk c lk => cases hown
  | forkAlloc c i =>
      obtain rfl : i = j := Option.some.inj hown
      cases hf : findUnused s.table with
      | none => simpa [Kernel.next, Kernel.goesOn, hf] using he.1.2.2
      | some np => simp [Kernel.next, Kernel.goesOn, hf]
  | forkCopy c i np ok =>
      obtain rfl : i = j := Option.some.inj hown
      cases ok <;> simp [Kernel.next, Kernel.goesOn]
  | exitCall c i =>
      obtain rfl : i = j := Option.some.inj hown
      simp only [Kernel.next, Kernel.goesOn]
      split_ifs
      · exact he.1.2.2
      · simp
  | exitClose c i fd =>
      obtain rfl : i = j := Option.some.inj hown
      simp only [Kernel.next, Kernel.goesOn]
      split_ifs <;> simp
  | waitScan c i =>
      obtain rfl : i = j := Option.some.inj hown
      cases hw : waitLoop s.table i slots false with
      | mk havekids z =>
          cases z with
          | some z => simp [Kernel.next, Kernel.goesOn, hw]
          | none =>
              simp only [Kernel.next, Kernel.goesOn, hw]
              split_ifs <;> simp
  | sysOther c i sz ofile cwd name =>
      obtain rfl : i = j := Option.some.inj hown
      simpa [Kernel.next, Kernel.goesOn] using he.2.2
  | _ c i =>
      obtain rfl : i = j := Option.some.inj hown
      simp [Kernel.next, Kernel.goesOn]

/-- A slot that `fork` or `wait` works on is free, half-built or a zombie. -/
lemma Coherent.not_alive_of_workedOn (h : Coherent s) (he : s.Enabled a) {j : Slot}
    (hwork : s.workedOn a = some j) : ¬ (s.table j).state.Alive := by
  cases a with
  | forkAlloc c i =>
      rw [findUnused_some hwork]
      exact fun hu => hu.ne_unused rfl
  | forkStack c i np ok | forkCopy c i np ok | forkFill c i np | forkPublish c i np =>
      obtain rfl : np = j := Option.some.inj hwork
      rw [(h.role.child_of_at h.cpu he.1 rfl).1]
      exact fun hu => hu.ne_embryo rfl
  | waitScan c i =>
      have hw : waitLoop s.table i slots false = (_, some j) := Prod.ext rfl hwork
      rw [(waitLoop_some hw).2]
      exact fun hu => hu.ne_zombie rfl
  | _ => cases hwork

/-- A process that is alive spectates every action that is not its own. -/
lemma Coherent.spectates (h : Coherent s) (he : s.Enabled a) {j : Slot}
    (halive : (s.table j).state.Alive) (hown : a.own ≠ some j) : Spectates s a j :=
  spectates_next hown fun hwork => h.not_alive_of_workedOn he hwork halive

/-- A process that does not run spectates every action. -/
lemma Coherent.spectates_of_waiting (h : Coherent s) (he : s.Enabled a) {j : Slot}
    (hst : (s.table j).state = sleeping ∨ (s.table j).state = runnable) : Spectates s a j := by
  refine h.spectates he ?_ fun hown => ?_
  · rcases hst with hst | hst <;> simp [hst]
  · have hrun := h.cpu.running_of_at (at_of_own he hown)
    rcases hst with hst | hst <;> simp [hst] at hrun

/-! ### Locks across actions -/

namespace Context

/-- The lock that a thread in `sleep` has been called with and not released yet. -/
def lkHeld : Context → Option ℕ
  | sleepEnter _ lk _ | sleepBoth _ lk _ => some lk
  | _ => none

/-- `sleep` returns to code that calls it, and `yield` to code that holds no lock. -/
def Nested : Context → Prop
  | sleepEnter _ _ k | sleepBoth _ _ k | sleepSet _ _ k | slept _ k | sleepRelock _ k =>
      k.maySleep = true
  | yielded k => k.lkHeld = none ∧ Nested k
  | _ => True

lemma lkHeld_of_maySleep {k : Context} (h : k.maySleep = true) : k.lkHeld = none ∧ k.Nested := by
  cases k <;> first | exact ⟨rfl, trivial⟩ | cases h

lemma not_interruptible_of_lkHeld {k : Context} {lk : ℕ} (h : k.lkHeld = some lk) :
    k.interruptible = false := by
  cases k <;> first | rfl | cases h

end Context

/-- The locks fit the continuations and the `ncli` of the CPUs: a thread that enters `sleep` is
executed by the CPU that holds its lock, and `ncli` counts the locks of a CPU. -/
structure LockInv (s : Kernel n) : Prop where
  nested : ∀ i, (s.table i).context.Nested
  held : ∀ i lk, (s.table i).context.lkHeld = some lk →
    ∃ c, s.At c i (s.table i).context ∧ s.locks lk = some c
  count : ∀ c, ∃ F : Finset ℕ, (∀ lk, lk ∈ F ↔ s.locks lk = some c) ∧
    (s.cpus c).ncli = F.card + if s.lock = some c then 1 else 0

/-- A CPU that executes a process where no interrupt can come takes no other action. -/
lemma own_of_busy {j : Slot} {k : Context} (he : s.Enabled a) (hat : s.At a.cpu j k)
    (hk : k.interruptible = false) : a.own = some j := by
  cases a with
  | schedAcquire c =>
      have hpc : SchedPc.top = .swtch := he.1.symm.trans hat.1
      cases hpc
  | schedPass c | schedBack c | schedRelease c =>
      have hpc := Eq.trans (Eq.symm he) hat.1
      cases hpc
  | wakeup c ch | acquireLk c lk | releaseLk c lk =>
      have hr : s.runsOther c = true := he.1
      obtain ⟨hpc, hproc, rfl⟩ := hat
      simp only [Act.cpu] at hpc hproc
      simp [Kernel.runsOther, hpc, hproc, hk] at hr
  | kill c i pid | assignTickets c i pid tickets | procInfo c i info | trapKill c i =>
      obtain ⟨-, hproc, hctx⟩ := he.1
      obtain rfl : i = j := Option.some.inj (hproc.symm.trans hat.2.1)
      rw [← hat.2.2, hctx] at hk
      cases hk
  | forkret c i | yieldReturn c i k | waitScan c i | waitWake c i | sleepRelease c i a lk k
  | sleepSched c i a lk k | sleepReturn c i lk k | sysOther c i sz ofile cwd name =>
      exact he.2.1.symm.trans hat.2.1
  | _ c i => exact he.1.2.1.symm.trans hat.2.1

/-- What becomes of a slot that is not the one of the process that acts: its continuation
stays, or it is a new process that starts at `forkret`; its files stay, or it is the child that
`fork` fills. -/
lemma keeps_of_not_own {j : Slot} (hown : a.own ≠ some j) :
    (((s.next a).table j).context = (s.table j).context ∨
      ((s.next a).table j).context = .forkret) ∧
    (((s.next a).table j).ofile = (s.table j).ofile ∨ ∃ c i, a = .forkFill c i j) := by
  by_cases hwork : s.workedOn a = some j
  · cases a with
    | forkAlloc c i =>
        have hji := ne_of_ne_some (i := i) rfl hown
        have hf : findUnused s.table = some j := hwork
        constructor <;> exact Or.inl (by simp [Kernel.next, hf, allocproc, hji])
    | forkStack c i np ok =>
        obtain rfl : np = j := Option.some.inj hwork
        have hji := ne_of_ne_some (i := i) rfl hown
        cases ok with
        | true =>
            refine ⟨Or.inr ?_, Or.inl ?_⟩ <;> simp [Kernel.next, allocprocStack, hji]
        | false => constructor <;> exact Or.inl (by simp [Kernel.next, allocprocStack, hji])
    | forkCopy c i np ok =>
        obtain rfl : np = j := Option.some.inj hwork
        have hji := ne_of_ne_some (i := i) rfl hown
        cases ok <;> constructor <;> exact Or.inl (by simp [Kernel.next, forkUndo, hji])
    | forkFill c i np =>
        obtain rfl : np = j := Option.some.inj hwork
        have hji := ne_of_ne_some (i := i) rfl hown
        exact ⟨Or.inl (by simp [Kernel.next, forkFill, hji]), Or.inr ⟨c, i, rfl⟩⟩
    | forkPublish c i np =>
        obtain rfl : np = j := Option.some.inj hwork
        have hji := ne_of_ne_some (i := i) rfl hown
        constructor <;> exact Or.inl (by simp [Kernel.next, forkPublish, hji])
    | waitScan c i =>
        have hji := ne_of_ne_some (i := i) rfl hown
        obtain ⟨b, hw⟩ : ∃ b, waitLoop s.table i slots false = (b, some j) :=
          ⟨_, Prod.ext rfl hwork⟩
        constructor <;> exact Or.inl (by simp [Kernel.next, hw, reap, hji])
    | _ => cases hwork
  · have hspec := spectates_next hown hwork
    exact ⟨Or.inl hspec.context, Or.inl hspec.ofile⟩

namespace LockInv

variable (hl : LockInv s)
include hl

/-- A CPU that holds a lock has its interrupts off. -/
lemma not_intrOn {c : Fin n} {lk : ℕ} (h : s.locks lk = some c) : ¬ s.IntrOn c := by
  obtain ⟨F, hF, hncli⟩ := hl.count c
  have hpos : 0 < F.card := Finset.card_pos.mpr ⟨lk, (hF lk).mpr h⟩
  rw [Kernel.IntrOn, hncli]
  omega

/-- A process that can be interrupted is not about to release the lock of `sleep`. -/
lemma lkHeld_eq_none (h : Coherent s) {c : Fin n} {i : Slot} {k : Context} (hat : s.At c i k)
    (hintr : s.IntrOn c) : k.lkHeld = none := by
  cases hk : k.lkHeld with
  | none => rfl
  | some lk =>
      obtain ⟨c', hat', hlk⟩ := hl.held i lk (by rw [hat.2.2, hk])
      obtain rfl := h.cpu.inj c c' i hat.2.1 hat'.2.1
      exact absurd hintr (hl.not_intrOn hlk)

/-- **Locks**: an action moves at most one lock, and only for its own CPU. -/
lemma moves (h : Coherent s) (he : s.Enabled a) : LockMoves a.cpu s (s.next a) := by
  cases a with
  | schedAcquire c | yield c i k | exitSched c i | waitCall c i =>
      obtain ⟨-, -, hfree⟩ := he
      exact .acquire hfree rfl rfl (by simp [Kernel.next, Act.cpu])
  | sleepAcquire c i a lk k =>
      obtain ⟨-, hfree⟩ := he
      exact .acquire hfree rfl rfl (by simp [Kernel.next, Act.cpu])
  | schedRelease c =>
      have hpc : (s.cpus c).pc = .done := he
      have hc := h.cpu.cpu c
      simp only [CpuOk, hpc] at hc
      exact .release hc.2 rfl rfl (by simp [Kernel.next, Act.cpu])
  | forkret c i | yieldReturn c i k | sleepReturn c i lk k =>
      exact .release ((h.cpu.lock_of_at he).mpr rfl) rfl rfl (by simp [Kernel.next, Act.cpu])
  | waitScan c i =>
      have hheld := (h.cpu.lock_of_at he).mpr rfl
      simp only [Kernel.next]
      split
      · exact .release hheld rfl rfl (by simp [Act.cpu])
      · split_ifs
        · exact .release hheld rfl rfl (by simp [Act.cpu])
        · exact .keep rfl rfl (by simp [Act.cpu])
  | sleepRelease c i a lk k =>
      obtain ⟨c', hat', hlk⟩ := hl.held i lk (by rw [he.2.2]; rfl)
      obtain rfl := h.cpu.inj c c' i he.2.1 hat'.2.1
      exact .releaseLk hlk rfl rfl (by simp [Kernel.next, Act.cpu])
  | sleepRelock c i lk k =>
      obtain ⟨-, -, hfree⟩ := he
      exact .acquireLk hfree rfl rfl (by simp [Kernel.next, Act.cpu])
  | acquireLk c lk => exact .acquireLk he.2 rfl rfl (by simp [Kernel.next, Act.cpu])
  | releaseLk c lk => exact .releaseLk he.2 rfl rfl (by simp [Kernel.next, Act.cpu])
  | schedPass c =>
      simp only [Kernel.next]
      split <;> exact .keep rfl rfl (by simp [Act.cpu])
  | schedBack c | sleepSched c i a lk k => exact .keep rfl rfl (by simp [Kernel.next, Act.cpu])
  | forkAlloc c i =>
      simp only [Kernel.next]
      split <;> exact .keep rfl rfl rfl
  | forkCopy c i np ok => cases ok <;> exact .keep rfl rfl rfl
  | exitCall c i =>
      simp only [Kernel.next]
      split_ifs <;> exact .keep rfl rfl (by simp [Act.cpu])
  | exitClose c i fd =>
      simp only [Kernel.next]
      split_ifs <;> exact .keep rfl rfl rfl
  | _ => exact .keep rfl rfl rfl

/-- The count of the locks of a CPU follows every move. -/
lemma count_next {s' : Kernel n} {c₀ : Fin n} (hm : LockMoves c₀ s s')
    (hcpus : ∀ c, c ≠ c₀ → s'.cpus c = s.cpus c) (c : Fin n) :
    ∃ F : Finset ℕ, (∀ lk, lk ∈ F ↔ s'.locks lk = some c) ∧
      (s'.cpus c).ncli = F.card + if s'.lock = some c then 1 else 0 := by
  obtain ⟨F, hF, hncli⟩ := hl.count c
  rcases eq_or_ne c c₀ with rfl | hc
  · cases hm with
    | keep hlock hlocks hn => exact ⟨F, by rw [hlocks]; exact hF, by rw [hn, hlock, hncli]⟩
    | acquire hfree hlock hlocks hn =>
        refine ⟨F, by rw [hlocks]; exact hF, ?_⟩
        rw [hn, hlock, hncli, hfree]
        simp
    | release hheld hlock hlocks hn =>
        refine ⟨F, by rw [hlocks]; exact hF, ?_⟩
        rw [hn, hlock, hncli, hheld]
        simp
    | @acquireLk lk hfree hlock hlocks hn =>
        have hlk : lk ∉ F := fun h => by simp [(hF lk).mp h] at hfree
        refine ⟨insert lk F, fun lk' => ?_, ?_⟩
        · rcases eq_or_ne lk' lk with rfl | hne
          · simp [hlocks]
          · simp [hlocks, hne, hF]
        · rw [hn, hlock, hncli, Finset.card_insert_of_notMem hlk]
          omega
    | @releaseLk lk hheld hlock hlocks hn =>
        have hlk : lk ∈ F := (hF lk).mpr hheld
        refine ⟨F.erase lk, fun lk' => ?_, ?_⟩
        · rcases eq_or_ne lk' lk with rfl | hne
          · simp [hlocks]
          · simp [hlocks, hne, hF]
        · have hcard := Finset.card_erase_add_one hlk
          rw [hn, hlock, hncli]
          omega
  · refine ⟨F, fun lk => (hF lk).trans (hm.locks_iff hc lk).symm, ?_⟩
    rw [hcpus c hc, hncli]
    simp only [hm.lock_iff hc]

/-- Where the process that acts goes on, it holds a lock of `sleep` only if it had it before or
has just called `sleep`. -/
lemma goesOn (h : Coherent s) (he : s.Enabled a) {j : Slot} (hown : a.own = some j) :
    (s.goesOn a).Nested ∧ ∀ lk, (s.goesOn a).lkHeld = some lk →
      s.locks lk = some a.cpu ∧ (s.next a).locks = s.locks ∧
        (s.next a).At a.cpu j (s.goesOn a) := by
  have hnested := hl.nested j
  have hat := at_of_own he hown
  have hctx := context_of_own he hown
  cases a with
  | sleepCall c i a lk k =>
      obtain rfl : i = j := Option.some.inj hown
      refine ⟨he.2.1, fun lk' hlk => ?_⟩
      obtain rfl : lk = lk' := Option.some.inj hlk
      exact ⟨he.2.2, rfl, hat.1, hat.2.1, hctx⟩
  | sleepAcquire c i a lk k =>
      obtain rfl : i = j := Option.some.inj hown
      rw [he.1.2.2] at hnested
      refine ⟨hnested, fun lk' hlk => ?_⟩
      obtain rfl : lk = lk' := Option.some.inj hlk
      obtain ⟨c', hat', hheld⟩ := hl.held i lk (by rw [he.1.2.2]; rfl)
      obtain rfl := h.cpu.inj c c' i hat.2.1 hat'.2.1
      refine ⟨hheld, rfl, ?_, ?_, hctx⟩
      · simpa [Kernel.next, Act.cpu] using hat.1
      · simpa [Kernel.next, Act.cpu] using hat.2.1
  | sleepRelease c i a lk k | sleepSched c i a lk k | sleepReturn c i lk k =>
      obtain rfl : i = j := Option.some.inj hown
      rw [he.2.2] at hnested
      exact ⟨hnested, fun lk' hlk => by cases hlk⟩
  | sleepRelock c i lk k =>
      obtain rfl : i = j := Option.some.inj hown
      rw [he.1.2.2] at hnested
      obtain ⟨hnone, hn⟩ := Context.lkHeld_of_maySleep hnested
      exact ⟨hn, fun lk' hlk => by simp [Kernel.goesOn, hnone] at hlk⟩
  | yieldReturn c i k =>
      obtain rfl : i = j := Option.some.inj hown
      rw [he.2.2] at hnested
      exact ⟨hnested.2, fun lk' hlk => by simp [Kernel.goesOn, hnested.1] at hlk⟩
  | yield c i k =>
      obtain rfl : i = j := Option.some.inj hown
      rw [he.1.2.2] at hnested
      exact ⟨⟨hl.lkHeld_eq_none h he.1 he.2.1, hnested⟩, fun lk' hlk => by cases hlk⟩
  | forkAlloc c i | forkStack c i np ok | forkCopy c i np ok | exitCall c i | exitClose c i fd =>
      simp only [Kernel.goesOn]
      split <;> exact ⟨trivial, fun lk' hlk => by cases hlk⟩
  | waitScan c i =>
      simp only [Kernel.goesOn]
      split
      · exact ⟨trivial, fun lk' hlk => by cases hlk⟩
      · split_ifs <;> exact ⟨trivial, fun lk' hlk => by cases hlk⟩
  | _ => exact ⟨trivial, fun lk' hlk => by cases hlk⟩

/-- **Locks and continuations**: every action keeps them together. -/
lemma step (h : Coherent s) (he : s.Enabled a) : LockInv (s.next a) := by
  have hm := hl.moves h he
  have hcpus : ∀ c, c ≠ a.cpu → (s.next a).cpus c = s.cpus c := fun c hc => cpus_next_of_ne hc
  refine ⟨fun j => ?_, fun j lk hlk => ?_, hl.count_next hm hcpus⟩
  · by_cases hown : a.own = some j
    · rw [context_of_own he hown]
      exact (hl.goesOn h he hown).1
    · rcases (keeps_of_not_own (s := s) hown).1 with hc | hc <;> rw [hc]
      · exact hl.nested j
      · trivial
  · by_cases hown : a.own = some j
    · rw [context_of_own he hown] at hlk ⊢
      obtain ⟨hheld, hlocks, hat⟩ := (hl.goesOn h he hown).2 lk hlk
      exact ⟨a.cpu, hat, by rw [hlocks]; exact hheld⟩
    · rcases (keeps_of_not_own (s := s) hown).1 with hc | hc
      · rw [hc] at hlk ⊢
        obtain ⟨c, hat, hheld⟩ := hl.held j lk hlk
        -- the CPU of this process is busy with it, so the action is another CPU's
        have hne : c ≠ a.cpu := by
          rintro rfl
          exact hown (own_of_busy he hat (Context.not_interruptible_of_lkHeld hlk))
        refine ⟨c, ⟨?_, ?_, hc⟩, (hm.locks_iff hne lk).mpr hheld⟩
        · rw [hcpus c hne]
          exact hat.1
        · rw [hcpus c hne]
          exact hat.2.1
      · rw [hc] at hlk
        cases hlk

end LockInv

/-- The locks in every reachable state. -/
lemma Reachable.lockInv {ok : Kernel n → Act n → Prop} (h : Reachable ok s) : LockInv s := by
  refine h.invariant ⟨fun i => ?_, fun i lk hlk => ?_, fun c => ⟨∅, by simp [boot], rfl⟩⟩
    fun hr hinv he => hinv.step hr.coherent he
  · rcases boot_cases n i with ⟨-, -, hk⟩ | ⟨-, he⟩
    · rw [hk]
      trivial
    · rw [he]
      trivial
  · rcases boot_cases n i with ⟨-, -, hk⟩ | ⟨-, he⟩
    · rw [hk] at hlk
      cases hlk
    · rw [he] at hlk
      cases hlk

/-- The invariants of CPUs, continuations, process tree and locks. -/
structure SyncInv (s : Kernel n) : Prop extends Coherent s where
  locks : LockInv s

lemma SyncInv.step (h : SyncInv s) (he : s.Enabled a) : SyncInv (s.next a) :=
  ⟨h.toCoherent.step he, h.locks.step h.toCoherent he⟩

lemma Reachable.syncInv {ok : Kernel n → Act n → Prop} (h : Reachable ok s) : SyncInv s :=
  ⟨h.coherent, h.lockInv⟩

/-- A process that holds `ptable.lock`, or has not yet released the lock of `sleep`, is neither
preempted nor calls `sleep`. -/
lemma SyncInv.not_busy (h : SyncInv s) {c : Fin n} {i : Slot} {k : Context}
    (he : s.Enabled (.yield c i k) ∨ ∃ ad lk, s.Enabled (.sleepCall c i ad lk k)) :
    k.holds = false ∧ k.lkHeld = none := by
  rcases he with ⟨hat, hintr, hfree⟩ | ⟨ad, lk, -, hk, -⟩
  · exact ⟨h.cpu.not_holds_of_free hat hfree, h.locks.lkHeld_eq_none h.toCoherent hat hintr⟩
  · exact ⟨Context.not_holds_of_maySleep hk, (Context.lkHeld_of_maySleep hk).1⟩

/-- **Inside `sleep`** there is one way to go on, but for the `acquire` at its end, where the
process may be preempted. -/
lemma SyncInv.sleep_moves (h : SyncInv s) (he : s.Enabled a) {i : Slot} (hown : a.own = some i) :
    match a.point with
    | .sleepEnter ad lk k => a = .sleepAcquire a.cpu i ad lk k
    | .sleepBoth ad lk k => a = .sleepRelease a.cpu i ad lk k
    | .sleepSet ad lk k => a = .sleepSched a.cpu i ad lk k
    | .slept lk k => a = .sleepReturn a.cpu i lk k
    | .sleepRelock lk k => a = .sleepRelock a.cpu i lk k ∨ a = .yield a.cpu i (.sleepRelock lk k)
    | .yielded k => a = .yieldReturn a.cpu i k
    | .waitSleep => a = .waitWake a.cpu i
    | _ => True := by
  cases a with
  | yield c j k =>
      obtain rfl : j = i := Option.some.inj hown
      obtain ⟨hholds, hlk⟩ := h.not_busy (Or.inl he)
      cases k with
      | sleepRelock lk k => exact Or.inr rfl
      | sleepEnter ad lk k => cases hlk
      | sleepBoth _ _ _ | sleepSet _ _ _ | slept _ _ | yielded _ | waitSleep => cases hholds
      | _ => trivial
  | sleepCall c j ad lk k =>
      have hk := he.2.1
      cases k <;> trivial
  | sleepAcquire c j ad lk k | sleepRelease c j ad lk k | sleepSched c j ad lk k
  | sleepReturn c j lk k | yieldReturn c j k | waitWake c j =>
      obtain rfl : j = i := Option.some.inj hown
      rfl
  | sleepRelock c j lk k =>
      obtain rfl : j = i := Option.some.inj hown
      exact Or.inl rfl
  | _ => trivial

end Xv6Lottery
