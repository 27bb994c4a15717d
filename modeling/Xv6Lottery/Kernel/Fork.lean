import Xv6Lottery.Kernel.Pids
import Xv6Lottery.Kernel.Wakeup

/-!
What `fork` leaves behind, when it fails and when it succeeds.

* `Kernel.fork`: a call of `fork` executed without interruption, with the answers of `kalloc`
  and `copyuvm` as arguments. `Coherent.fork_run`: it is a run of the machine.
* `failed_fork_iff`: a failed call leaves the slots as they were exactly when no slot is free,
  or the first free one has the pid, tickets and ticks of a new process already.
* `FilesOk`, `FilesInv`: free slots and zombies have no open files, a half-built child has
  none before `fork` copies them and those of its parent after that, and `exit` has closed
  what it has passed.
* `fork_copies_files`: a child becomes `RUNNABLE` with the open files of its parent.
-/

namespace Xv6Lottery

open Procstate Library

variable {n : ℕ} {s : Kernel n} {a : Act n} {ok : Kernel n → Act n → Prop} {tr : List (Event Slot)}

/-! ### A failed `fork` -/

/-- The first free slot. -/
def Table.FirstFree (t : Table) (np : Slot) : Prop :=
  (t np).state = unused ∧ ∀ k < np, (t k).state ≠ unused

lemma findUnused_eq_some_iff {t : Table} {np : Slot} :
    findUnused t = some np ↔ t.FirstFree np := by
  rw [findUnused, find_slots_eq_some_iff]
  simp [Table.FirstFree]

/-- If a slot is free then there is a first one. -/
lemma exists_firstFree {t : Table} {j : Slot} (hj : (t j).state = unused) :
    ∃ np, t.FirstFree np := by
  cases hf : findUnused t with
  | none => exact absurd hj (by simpa using List.find?_eq_none.mp hf j (mem_slots j))
  | some np => exact ⟨np, findUnused_eq_some_iff.mp hf⟩

/-- A call of `fork` by the process in slot `i`, with the answers of `kalloc` and `copyuvm`.
The value is `none` where `fork` returns -1. -/
def Kernel.fork (s : Kernel n) (c : Fin n) (i : Slot) (kalloc copyuvm : Bool) :
    Option ℤ × Kernel n :=
  let s₁ := s.next (.forkAlloc c i)
  match findUnused s.table with
  | none => (none, s₁)
  | some np =>
      let s₂ := s₁.next (.forkStack c i np kalloc)
      if kalloc then
        let s₃ := s₂.next (.forkCopy c i np copyuvm)
        if copyuvm then
          let s₄ := s₃.next (.forkFill c i np)
          (some (s₄.table np).pid, s₄.next (.forkPublish c i np))
        else (none, s₃)
      else (none, s₂)

/-- The fields of a slot that a failed `fork` should leave alone. -/
structure SameSlot (p p' : Proc) : Prop where
  state : p'.state = p.state
  pid : p'.pid = p.pid
  tickets : p'.tickets = p.tickets
  ticks : p'.ticks = p.ticks
  parent : p'.parent = p.parent
  killed : p'.killed = p.killed
  ofile : p'.ofile = p.ofile

/-- The process in slot `i` is executed at `k` by a CPU with its interrupts on. -/
structure Kernel.Ready (s : Kernel n) (c : Fin n) (i : Slot) (k : Context) : Prop where
  at_ : s.At c i k
  intr : s.IntrOn c
  free : s.lock = none

/-- A step of `fork` from where the process is, after which it goes on elsewhere. -/
lemma Kernel.Ready.step {c : Fin n} {i : Slot} {k : Context} (h : s.Ready c i k)
    (he : s.Ready c i k → s.Enabled a) (hown : a.own = some i)
    (hsame : (s.next a).cpus = s.cpus ∧ (s.next a).lock = s.lock) :
    ActStep s a (s.next a) ∧ (s.next a).Ready c i (s.goesOn a) := by
  refine ⟨⟨he h, rfl⟩, ⟨?_, ?_, context_of_own (he h) hown⟩, ?_, hsame.2.trans h.free⟩
  · rw [hsame.1]
    exact h.at_.1
  · rw [hsame.1]
    exact h.at_.2.1
  · rw [Kernel.IntrOn, hsame.1]
    exact h.intr

/-- A call of `fork` is a run of the machine. -/
lemma fork_run {c : Fin n} {i : Slot} (he : s.Enabled (.forkAlloc c i)) (kalloc copyuvm : Bool) :
    ∃ as, Run ActStep s as (s.fork c i kalloc copyuvm).2 := by
  have h₀ : s.Ready c i .user := ⟨he.1, he.2.1, he.2.2⟩
  have hsame₁ : (s.next (.forkAlloc c i)).cpus = s.cpus ∧
      (s.next (.forkAlloc c i)).lock = s.lock := by
    simp only [Kernel.next]
    split <;> exact ⟨rfl, rfl⟩
  obtain ⟨st₁, h₁⟩ := h₀.step (a := .forkAlloc c i) (fun _ => he) rfl hsame₁
  cases hf : findUnused s.table with
  | none =>
      simp only [Kernel.fork, hf]
      exact ⟨_, Run.single st₁⟩
  | some np =>
      simp only [Kernel.goesOn, hf] at h₁
      obtain ⟨st₂, h₂⟩ := h₁.step (a := .forkStack c i np kalloc) (fun h => ⟨h.at_, h.intr⟩) rfl
        ⟨rfl, rfl⟩
      have hrun₂ := (Run.single st₁).snoc st₂
      cases kalloc with
      | false =>
          simp only [Kernel.fork, hf, Bool.false_eq_true, if_false]
          exact ⟨_, hrun₂⟩
      | true =>
          have hsame₃ : ∀ m : Kernel n, (m.next (.forkCopy c i np copyuvm)).cpus = m.cpus ∧
              (m.next (.forkCopy c i np copyuvm)).lock = m.lock := fun m => by
            cases copyuvm <;> exact ⟨rfl, rfl⟩
          obtain ⟨st₃, h₃⟩ := h₂.step (a := .forkCopy c i np copyuvm) (fun h => ⟨h.at_, h.intr⟩)
            rfl (hsame₃ _)
          have hrun₃ := hrun₂.snoc st₃
          cases copyuvm with
          | false =>
              simp only [Kernel.fork, hf, if_true, Bool.false_eq_true, if_false]
              exact ⟨_, hrun₃⟩
          | true =>
              obtain ⟨st₄, h₄⟩ := h₃.step (a := .forkFill c i np) (fun h => ⟨h.at_, h.intr⟩) rfl
                ⟨rfl, rfl⟩
              obtain ⟨st₅, -⟩ := h₄.step (a := .forkPublish c i np)
                (fun h => ⟨h.at_, h.intr, h.free⟩) rfl ⟨rfl, rfl⟩
              simp only [Kernel.fork, hf, if_true]
              exact ⟨_, (hrun₃.snoc st₄).snoc st₅⟩

/-- What a failed `fork` that has taken the slot `np` leaves in the table. -/
lemma fork_failed {c : Fin n} {i np : Slot} {kalloc copyuvm : Bool} (hne : np ≠ i)
    (hf : findUnused s.table = some np) (hfail : (s.fork c i kalloc copyuvm).1 = none) :
    (∀ j, j ≠ np → SameSlot (s.table j) ((s.fork c i kalloc copyuvm).2.table j)) ∧
      SameSlot { s.table np with pid := s.nextpid, tickets := 100, ticks := 0 }
        ((s.fork c i kalloc copyuvm).2.table np) := by
  have hfree := findUnused_some hf
  cases kalloc with
  | false =>
      refine ⟨fun j hj => ?_, ?_⟩
      · rcases eq_or_ne j i with rfl | hji
        · constructor <;> simp [Kernel.fork, hf, Kernel.next, allocproc, allocprocStack, hj]
        · constructor <;> simp [Kernel.fork, hf, Kernel.next, allocproc, allocprocStack, hj, hji]
      · constructor <;>
          simp [Kernel.fork, hf, Kernel.next, allocproc, allocprocStack, hne, hfree]
  | true =>
      cases copyuvm with
      | true => simp [Kernel.fork, hf] at hfail
      | false =>
          refine ⟨fun j hj => ?_, ?_⟩
          · rcases eq_or_ne j i with rfl | hji
            · constructor <;>
                simp [Kernel.fork, hf, Kernel.next, allocproc, allocprocStack, forkUndo, hj]
            · constructor <;>
                simp [Kernel.fork, hf, Kernel.next, allocproc, allocprocStack, forkUndo, hj, hji]
          · constructor <;>
              simp [Kernel.fork, hf, Kernel.next, allocproc, allocprocStack, forkUndo, hne, hfree]

/-- **A failed `fork`.** In every reachable state, a call of `fork` that fails leaves every slot
as it was if and only if the first free slot, if there is one, has the pid, tickets and ticks
that `allocproc` gives to a new process. Before the pid counter wraps around this is so only
when no slot is free. -/
theorem failed_fork_iff (h : Run (Step ok) (boot n) tr s) {c : Fin n} {i : Slot}
    (he : s.Enabled (.forkAlloc c i)) (kalloc copyuvm : Bool)
    (hfail : (s.fork c i kalloc copyuvm).1 = none) :
    (∃ as, Run ActStep s as (s.fork c i kalloc copyuvm).2) ∧
    ((∀ j, SameSlot (s.table j) ((s.fork c i kalloc copyuvm).2.table j)) ↔
      ∀ np, s.table.FirstFree np →
        (s.table np).pid = s.nextpid ∧ (s.table np).tickets = 100 ∧ (s.table np).ticks = 0) ∧
    ((allocations tr : ℤ) < intMax →
      ((∀ j, SameSlot (s.table j) ((s.fork c i kalloc copyuvm).2.table j)) ↔
        ∀ j, (s.table j).state ≠ unused)) := by
  have hc : Coherent s := Reachable.coherent ⟨tr, h⟩
  have hiff : (∀ j, SameSlot (s.table j) ((s.fork c i kalloc copyuvm).2.table j)) ↔
      ∀ np, s.table.FirstFree np →
        (s.table np).pid = s.nextpid ∧ (s.table np).tickets = 100 ∧ (s.table np).ticks = 0 := by
    cases hf : findUnused s.table with
    | none =>
        have hsame : ∀ j, (s.fork c i kalloc copyuvm).2.table j = s.table j := fun j => by
          simp [Kernel.fork, hf, Kernel.next]
        refine iff_of_true (fun j => ?_) fun np hnp => ?_
        · rw [hsame j]
          exact ⟨rfl, rfl, rfl, rfl, rfl, rfl, rfl⟩
        · rw [findUnused_eq_some_iff.mpr hnp] at hf
          cases hf
    | some np =>
        have hfirst := findUnused_eq_some_iff.mp hf
        have hne : np ≠ i := hc.cpu.ne_of_not_running he.1 (by simp [hfirst.1])
        obtain ⟨hother, hnp⟩ := fork_failed hne hf hfail
        refine ⟨fun hsame q hq => ?_, fun hnew j => ?_⟩
        · obtain rfl : q = np :=
            Option.some.inj ((findUnused_eq_some_iff.mpr hq).symm.trans hf)
          exact ⟨(hsame q).pid.symm.trans hnp.pid, (hsame q).tickets.symm.trans hnp.tickets,
            (hsame q).ticks.symm.trans hnp.ticks⟩
        · rcases eq_or_ne j np with rfl | hj
          · obtain ⟨h1, h2, h3⟩ := hnew j hfirst
            exact ⟨hnp.state, hnp.pid.trans h1.symm, hnp.tickets.trans h2.symm,
              hnp.ticks.trans h3.symm, hnp.parent, hnp.killed, hnp.ofile⟩
          · exact hother j hj
  refine ⟨fork_run he kalloc copyuvm, hiff, fun hfew => hiff.trans ⟨fun hnew j hj => ?_,
    fun hnone np hnp => absurd hnp.1 (hnone np)⟩⟩
  obtain ⟨hfew', hfresh⟩ := fewAllocs_of_allocations hfew
  have hp : PidInv initSlot tr (abs s) := (pastInv_of_run h hfew').1
  obtain ⟨np, hnp⟩ := exists_firstFree hj
  have hlt : (s.table np).pid < s.nextpid :=
    calc (s.table np).pid < fresh tr := (hp.lt np).2
      _ = s.nextpid := (hp.counter hfresh).symm
  exact hlt.ne (hnew np hnp).1

/-- A failing `kalloc` in a `fork` of the second process, with free slots. -/
theorem failed_fork_iff_pairRun :
    ¬ ∀ j, SameSlot (((machine 2).exec (boot 2) pairRun).table j)
      ((((machine 2).exec (boot 2) pairRun).fork 1 1 false true).2.table j) := by
  intro hsame
  have hrun := Guarded.Allowed.run
    (by decide +kernel : (machine 2).Allowed AnyAct (boot 2) pairRun)
  obtain ⟨-, -, hiff⟩ := failed_fork_iff hrun (c := 1) (i := 1) (by decide +kernel) false true
    (by decide +kernel)
  exact (hiff (by decide +kernel)).mp hsame 2 (by decide +kernel)

/-- The first process runs in user code, on the only CPU. -/
def userRun : List (Act 1) := [.schedAcquire 0, .schedPass 0, .forkret 0 0]

/-- The free slot found by the failing `fork` of the first process keeps pid 2 and 100 tickets,
where it had pid 0 and no tickets before. -/
theorem failed_fork_leaves_pid : ∃ s : Kernel 1, Reachable AnyAct s ∧
    s.Enabled (.forkAlloc 0 0) ∧ (s.fork 0 0 false true).1 = none ∧
    ((s.table 1).pid = 0 ∧ (s.table 1).tickets = 0) ∧
    ((s.fork 0 0 false true).2.table 1).state = unused ∧
    ((s.fork 0 0 false true).2.table 1).pid = 2 ∧
    ((s.fork 0 0 false true).2.table 1).tickets = 100 :=
  ⟨_, reachable_exec (by decide +kernel : (machine 1).Allowed AnyAct (boot 1) userRun),
    by decide +kernel⟩

/-! ### Open files -/

/-- What the continuation of slot `i` says about open files. -/
def FilesOk (t : Table) (i : Slot) : Context → Prop
  | .allocStack np | .forkCopy np | .forkFill np => ∀ fd, (t np).ofile fd = none
  | .forkPublish np => (t np).ofile = (t i).ofile
  | .exitClose fd => ∀ d : Fin NOFILE, d.1 < fd → (t i).ofile d = none
  | .exitCwd | .exitLock | .exited => ∀ fd, (t i).ofile fd = none
  | .sleepEnter _ _ k | .sleepBoth _ _ k | .sleepSet _ _ k | .slept _ k | .sleepRelock _ k
  | .yielded k => FilesOk t i k
  | _ => True

/-- The open files fit the continuations, and free slots and zombies have none. -/
structure FilesInv (s : Kernel n) : Prop where
  role : ∀ i, FilesOk s.table i (s.table i).context
  closed : ∀ i, (s.table i).state = unused ∨ (s.table i).state = zombie →
    ∀ fd, (s.table i).ofile fd = none

/-- What a continuation says depends only on the files of the process and of its child. -/
lemma FilesOk.frame {t t' : Table} {i : Slot} {k : Context} (h : FilesOk t i k)
    (hi : (t' i).ofile = (t i).ofile)
    (hk : ∀ np, k.child = some np → (t' np).ofile = (t np).ofile) : FilesOk t' i k := by
  induction k with
  | allocStack np | forkCopy np | forkFill np | forkPublish np =>
      simp only [FilesOk, hk np rfl, hi] at h ⊢
      exact h
  | exitClose _ | exitCwd | exitLock | exited =>
      simp only [FilesOk, hi] at h ⊢
      exact h
  | sleepEnter _ _ _ ih | sleepBoth _ _ _ ih | sleepSet _ _ _ ih | slept _ _ ih
  | sleepRelock _ _ ih | yielded _ ih => exact ih h hk
  | _ => trivial

/-- A slot that is free or a zombie keeps its files. -/
lemma Coherent.ofile_of_dead (hc : Coherent s) (he : s.Enabled a) {j : Slot}
    (hj : (s.table j).state = unused ∨ (s.table j).state = zombie) :
    ((s.next a).table j).ofile = (s.table j).ofile := by
  have hown : a.own ≠ some j := fun hown => by
    have hrun := hc.cpu.running_of_at (at_of_own he hown)
    rcases hj with hj | hj <;> simp [hj] at hrun
  rcases (keeps_of_not_own (s := s) hown).2 with hsame | ⟨c, i, rfl⟩
  · exact hsame
  · have hemb := (hc.role.child_of_at hc.cpu he.1 rfl).1
    rcases hj with hj | hj <;> simp [hj] at hemb

/-- The actions behind the events at the ends of `fork` and `exit`. -/
def Kernel.EndOrigin (s : Kernel n) (a : Act n) : Event Slot → Prop
  | .exited j _ => ∃ c, a = .exitSched c j
  | .forkFailed (some np) => ∃ c i, a = .forkStack c i np false ∨ a = .forkCopy c i np false
  | .forked P _ np => ∃ c i, a = .forkPublish c i np ∧ P = (s.table i).pid
  | _ => True

lemma endOrigin_event (a : Act n) : s.EndOrigin a (s.event a) := by
  cases a with
  | schedPass c =>
      simp only [Kernel.event]
      split <;> trivial
  | forkAlloc c i =>
      simp only [Kernel.event]
      split <;> trivial
  | forkStack c i np ok =>
      cases ok with
      | true => trivial
      | false => exact ⟨c, i, Or.inl rfl⟩
  | forkCopy c i np ok =>
      cases ok with
      | true => trivial
      | false => exact ⟨c, i, Or.inr rfl⟩
  | forkPublish c i np => exact ⟨c, i, rfl, rfl⟩
  | exitSched c i => exact ⟨c, rfl⟩
  | waitScan c i =>
      simp only [Kernel.event]
      split <;> trivial
  | _ => trivial

/-- The child of a process in the middle of `fork` keeps its files while others act. -/
lemma Coherent.child_ofile (hc : Coherent s) (he : s.Enabled a) {j np : Slot}
    (hown : a.own ≠ some j) (hchild : (s.table j).context.child = some np) :
    ((s.next a).table np).ofile = (s.table np).ofile := by
  have hemb := ((hc.role.role j).embryo hchild).1
  have hne : a.own ≠ some np := fun hown' => by
    simp [hc.cpu.running_of_at (at_of_own he hown')] at hemb
  rcases (keeps_of_not_own (s := s) hne).2 with hsame | ⟨c, i, rfl⟩
  · exact hsame
  · -- two processes would own the same child
    have hat : s.At c i (.forkFill np) := he.1
    have hij := hc.role.uniq i j np (by rw [hat.2.2]; rfl) hchild
    exact absurd (congrArg some hij) hown

namespace FilesInv

variable (h : FilesInv s) (hc : Coherent s) (he : s.Enabled a)
include h

/-- What the point at which a process is executed says about open files. -/
lemma files_of_at {c : Fin n} {i : Slot} {k : Context} (hat : s.At c i k) :
    FilesOk s.table i k := by
  have hrole := h.role i
  rwa [hat.2.2] at hrole

include hc he

/-- The files of the process that acts, where it goes on. -/
lemma goesOn {j : Slot} (hown : a.own = some j) :
    FilesOk (s.next a).table j (s.goesOn a) := by
  have hrole := h.files_of_at (at_of_own he hown)
  cases a with
  | schedAcquire c | schedPass c | schedBack c | schedRelease c | wakeup c ch | kill c i pid
  | assignTickets c i pid tickets | procInfo c i info | trapKill c i | acquireLk c lk
  | releaseLk c lk => cases hown
  | forkAlloc c i =>
      obtain rfl : i = j := Option.some.inj hown
      cases hf : findUnused s.table with
      | none =>
          simp only [Kernel.goesOn, hf]
          trivial
      | some np =>
          have hfree := findUnused_some hf
          have hne : np ≠ i := hc.cpu.ne_of_not_running he.1 (by simp [hfree])
          simpa [FilesOk, Kernel.goesOn, Kernel.next, hf, allocproc, hne] using
            h.closed np (Or.inl hfree)
  | forkStack c i np ok =>
      obtain rfl : i = j := Option.some.inj hown
      obtain ⟨-, hne⟩ := hc.role.child_of_at hc.cpu he.1 rfl
      have hnone : ∀ fd, (s.table np).ofile fd = none := hrole
      cases ok with
      | true => simpa [FilesOk, Kernel.goesOn, Kernel.next, allocprocStack, hne] using hnone
      | false => trivial
  | forkCopy c i np ok =>
      obtain rfl : i = j := Option.some.inj hown
      obtain ⟨-, hne⟩ := hc.role.child_of_at hc.cpu he.1 rfl
      have hnone : ∀ fd, (s.table np).ofile fd = none := hrole
      cases ok with
      | true => simpa [FilesOk, Kernel.goesOn, Kernel.next, hne] using hnone
      | false => trivial
  | forkFill c i np =>
      obtain rfl : i = j := Option.some.inj hown
      obtain ⟨-, hne⟩ := hc.role.child_of_at hc.cpu he.1 rfl
      have hnone : ∀ fd, (s.table np).ofile fd = none := hrole
      -- only the open descriptors are written, the others are null from the start
      have hcopy : ∀ fd, ((s.table i).ofile fd).orElse (fun _ => (s.table np).ofile fd) =
          (s.table i).ofile fd := fun fd => by
        rw [hnone fd]
        cases (s.table i).ofile fd <;> rfl
      simpa [FilesOk, Kernel.goesOn, Kernel.next, forkFill, hne, hne.symm] using funext hcopy
  | exitCall c i =>
      simp only [Kernel.goesOn]
      split_ifs
      · trivial
      · exact fun d hd => absurd hd (Nat.not_lt_zero _)
  | exitClose c i fd =>
      obtain rfl : i = j := Option.some.inj hown
      have hbelow : ∀ d : Fin NOFILE, d.1 < fd → (s.table i).ofile d = none := hrole
      by_cases hfd : fd < NOFILE
      · simp only [Kernel.goesOn, Kernel.next, hfd, if_true, dif_pos]
        intro d hd
        simp only [Kernel.goto, setContext_self, Function.update_self]
        rcases eq_or_ne d ⟨fd, hfd⟩ with rfl | hne
        · simp
        · have hne' : d.1 ≠ fd := fun hd' => hne (Fin.ext hd')
          rw [Function.update_of_ne hne]
          exact hbelow d (by omega)
      · simp only [Kernel.goesOn, Kernel.next, hfd, if_false, dif_neg, not_false_eq_true]
        intro d
        simp only [Kernel.goto, setContext_self]
        exact hbelow d (by omega)
  | exitCwd c i =>
      obtain rfl : i = j := Option.some.inj hown
      have hnone : ∀ fd, (s.table i).ofile fd = none := hrole
      simpa [FilesOk, Kernel.goesOn, Kernel.next] using hnone
  | exitSched c i =>
      obtain rfl : i = j := Option.some.inj hown
      have hnone : ∀ fd, (s.table i).ofile fd = none := hrole
      obtain ⟨st, -, hi⟩ := exitTable_apply s.initproc s.table i i
      simpa [FilesOk, Kernel.goesOn, Kernel.next, hi] using hnone
  | yield c i k | yieldReturn c i k | sleepCall c i ad lk k | sleepAcquire c i ad lk k
  | sleepRelease c i ad lk k | sleepSched c i ad lk k | sleepReturn c i lk k
  | sleepRelock c i lk k =>
      obtain rfl : i = j := Option.some.inj hown
      refine FilesOk.frame (k := k) hrole (by simp [Kernel.next]) fun np _ => ?_
      rcases eq_or_ne np i with rfl | hnp
      · simp [Kernel.next]
      · simp [Kernel.next, hnp]
  | waitScan c i =>
      simp only [Kernel.goesOn]
      split
      · trivial
      · split_ifs <;> trivial
  | _ => trivial

/-- **Open files**: every action keeps the invariant. -/
lemma step : FilesInv (s.next a) := by
  have hlife := hc.lifeStep he
  refine ⟨fun j => ?_, fun j hj => ?_⟩
  · by_cases hown : a.own = some j
    · rw [context_of_own he hown]
      exact h.goesOn hc he hown
    · rcases (keeps_of_not_own (s := s) hown).1 with hctx | hctx
      · rcases (keeps_of_not_own (s := s) hown).2 with hsame | ⟨c, i, rfl⟩
        · rw [hctx]
          exact (h.role j).frame hsame fun np hnp => hc.child_ofile he hown hnp
        · -- the child that is filled is about to start at `forkret`
          rw [hctx, (hc.role.role_of_at he.1).2.2]
          trivial
      · rw [hctx]
        trivial
  · have hch := hlife.change j
    by_cases hdead : (s.table j).state = unused ∨ (s.table j).state = zombie
    · rw [hc.ofile_of_dead he hdead]
      exact h.closed j hdead
    · obtain ⟨hu, hz⟩ := not_or.mp hdead
      have hact := endOrigin_event (s := s) a
      rcases hj with hj | hj
      · rcases hch.freed hu hj with ⟨-, hev⟩ | ⟨hz', -⟩
        · -- a failing `fork` gives its child back before it has copied the files
          rw [hev] at hact
          obtain ⟨c, i, rfl | rfl⟩ := hact
          · have hne := (hc.role.child_of_at hc.cpu he.1 rfl).2
            have hnone : ∀ fd, (s.table j).ofile fd = none := h.files_of_at he.1
            simpa [Kernel.next, allocprocStack, hne] using hnone
          · have hne := (hc.role.child_of_at hc.cpu he.1 rfl).2
            have hnone : ∀ fd, (s.table j).ofile fd = none := h.files_of_at he.1
            simpa [Kernel.next, forkUndo, hne] using hnone
        · exact absurd hz' hz
      · rcases hch.zombie hj with hz' | hev
        · exact absurd hz' hz
        · rw [hev] at hact
          obtain ⟨c, rfl⟩ := hact
          exact h.goesOn hc he rfl

end FilesInv

/-- The open files in every reachable state. -/
lemma Reachable.filesInv (h : Reachable ok s) : FilesInv s := by
  refine h.invariant ⟨fun i => ?_, fun i _ fd => ?_⟩ fun hr hinv he => hinv.step hr.coherent he
  · rcases boot_cases n i with ⟨-, -, hk⟩ | ⟨-, he⟩
    · rw [hk]
      trivial
    · rw [he]
      trivial
  · rcases eq_or_ne i initSlot with rfl | hi
    · simp [boot, userinit, allocprocStack, allocproc, zeroProc]
    · simp [boot, userinit_of_ne hi, zeroProc]

/-- **Open files of a child.** In every step from a reachable state in which a `fork` returns,
the child becomes `RUNNABLE` with the open files of its parent at every descriptor, and a
half-built child leaves that state in no other way, unless its `fork` fails. -/
theorem fork_copies_files (h : Reachable ok s) {e : Event Slot} {s' : Kernel n}
    (hs : Step ok s e s') :
    (∀ P q np, e = .forked P q np → ∃ i, (s'.table i).pid = P ∧ (s'.table np).pid = q ∧
      (s.table np).state = embryo ∧ (s'.table np).state = runnable ∧
      (s'.table np).parent = some i ∧ ∀ fd, (s'.table np).ofile fd = (s'.table i).ofile fd) ∧
    ∀ np, (s.table np).state = embryo → (s'.table np).state ≠ embryo →
      e = .forkFailed (some np) ∨ ∃ P, e = .forked P (s.table np).pid np := by
  obtain ⟨a, he, -, rfl, rfl⟩ := hs
  have hc := h.coherent
  refine ⟨fun P q np hev => ?_, fun np hemb hnp => ?_⟩
  · have hact := endOrigin_event (s := s) a
    rw [show s.event a = .forked P q np from hev] at hact
    obtain ⟨c, i, rfl, rfl⟩ := hact
    obtain rfl : (s.table np).pid = q := (Event.forked.inj hev).2.1
    obtain ⟨hemb, hpar, -⟩ := hc.role.role_of_at he.1
    have hne := (hc.role.child_of_at hc.cpu he.1 rfl).2
    have hcopy : (s.table np).ofile = (s.table i).ofile := h.filesInv.files_of_at he.1
    refine ⟨i, ?_, ?_, hemb, ?_, ?_, fun fd => ?_⟩ <;>
      simp [machine, Kernel.next, forkPublish, hne, hne.symm, hpar, hcopy]
  · exact ((hc.lifeStep he).change np).embryo hemb hnp

/-- The second process opens a file at descriptor 1 and forks, up to the publication of the
child, while the first one opens another file on the other CPU. -/
def openRun : List (Act 2) :=
  pairRun ++ ([.sysOther 1 1 0 (fun fd => if fd.1 = 1 then some 7 else none) none "",
    .forkAlloc 1 1, .forkStack 1 1 2 true, .forkCopy 1 1 2 true, .forkFill 1 1 2,
    .sysOther 0 0 0 (fun fd => if fd.1 = 1 then some 8 else none) none ""] : List (Act 2))

theorem fork_copies_files_openRun :
    ((((machine 2).exec (boot 2) openRun).next (.forkPublish 1 1 2)).table 2).ofile 1 = some 7 := by
  have hr := reachable_exec (by decide +kernel : (machine 2).Allowed AnyAct (boot 2) openRun)
  have hs : Step AnyAct ((machine 2).exec (boot 2) openRun)
      (((machine 2).exec (boot 2) openRun).event (.forkPublish 1 1 2))
      (((machine 2).exec (boot 2) openRun).next (.forkPublish 1 1 2)) :=
    ⟨.forkPublish 1 1 2, by decide +kernel, trivial, rfl, rfl⟩
  obtain ⟨i, -, -, -, -, hpar, hfiles⟩ := (fork_copies_files hr hs).1 _ _ _ rfl
  obtain rfl : 1 = i := Option.some.inj (hpar.symm.trans (by decide +kernel)).symm
  exact (hfiles 1).trans (by decide +kernel)

end Xv6Lottery
