import Xv6Lottery.Life.Data
import Xv6Lottery.Library.Run

/-!
The life of processes, as an abstract machine: what any kernel step may do to the
shared process table, with CPUs, locks, stacks and the scheduler's choice left out.

A state is the table of `Entry`s and the pid counter. The slots are an arbitrary
type `ι` with decidable equality, and `ip` is the slot of the first process. Each
constructor of `LifeStep` is one way of changing the table, with what is known of
the table where it happens, and the event an observer sees.

* `Life`, `LifeStep`: the machine. A process is born in three steps (`alloc`,
  `adopt`, `publish`, or `forkFail` in between), lives between `runnable`, `running`
  and `sleeping`, becomes a zombie (`exit`) and is collected (`reap`).
* `ExitEffect`: what `exit` does to the table as a whole: the parent is woken, the
  children go to `ip`, which is woken if one of them is a zombie.
-/

namespace Xv6Lottery

open Procstate

variable {ι : Type} [DecidableEq ι]

/-- The shared process table and the pid counter. -/
structure Life (ι : Type) where
  procs : ι → Entry ι
  nextpid : ℤ

/-- What `exit` of the process in slot `i` does to the table: the children of `i` go
to `ip`, the slot itself becomes a zombie, and of the sleepers at least those that
wait for `i`, or in `ip` for one of its zombies, are woken. -/
structure ExitEffect (ip i : ι) (p p' : ι → Entry ι) : Prop where
  entry : ∀ j, ∃ st, (if j = i then st = zombie else (p j).state.Wakes st) ∧
    p' j = { p j with
      state := st
      parent := if (p j).parent = some i then some ip else (p j).parent }
  wakesParent : ∀ j, (p j).chan = (p i).parent.map Chan.proc → (p' j).state ≠ sleeping
  wakesInit : ∀ k, (p k).parent = some i → (p k).state = zombie →
    ∀ j, (p j).chan = some (.proc ip) → (p' j).state ≠ sleeping

/-- `wakeup1`: every sleeper on the channel becomes runnable. -/
def wakeEntries (p : ι → Entry ι) (ch : Option (Chan ι)) : ι → Entry ι := fun j =>
  if (p j).state = sleeping ∧ (p j).chan = ch then { p j with state := runnable } else p j

/-- The events of steps that leave the table as it is. -/
def Event.Quiet : Event ι → Prop
  | .other | .forkFailed none | .snapshot _ | .assigned _ none => True
  | _ => False

/-- The steps of the process table. -/
inductive LifeStep (ip : ι) : Life ι → Event ι → Life ι → Prop
  /-- nothing in the table changes -/
  | quiet {L : Life ι} {e : Event ι} (he : e.Quiet) : LifeStep ip L e L
  /-- `allocproc` takes a free slot -/
  | alloc {p : ι → Entry ι} {n : ℤ} {np : ι} (hnp : (p np).state = unused) :
      LifeStep ip ⟨p, n⟩ (.alloc np n)
        ⟨Function.update p np { p np with state := embryo, pid := n, tickets := 100, ticks := 0 },
          incInt n⟩
  /-- `kalloc` or `copyuvm` fails, before the parent link is set -/
  | forkFail {p : ι → Entry ι} {n : ℤ} {np : ι} (hnp : (p np).state = embryo)
      (hpar : (p np).parent = none) :
      LifeStep ip ⟨p, n⟩ (.forkFailed (some np))
        ⟨Function.update p np { p np with state := unused }, n⟩
  /-- `fork` sets the parent link of the half-built child -/
  | adopt {p : ι → Entry ι} {n : ℤ} {i np : ι} (hi : (p i).state = running)
      (hnp : (p np).state = embryo) (hpar : (p np).parent = none) :
      LifeStep ip ⟨p, n⟩ .other ⟨Function.update p np { p np with parent := some i }, n⟩
  /-- `fork` makes the child runnable and returns its pid -/
  | publish {p : ι → Entry ι} {n : ℤ} {i np : ι} (hi : (p i).state = running)
      (hnp : (p np).state = embryo) (hpar : (p np).parent = some i) :
      LifeStep ip ⟨p, n⟩ (.forked (p i).pid (p np).pid np)
        ⟨Function.update p np { p np with state := runnable }, n⟩
  /-- `scheduler` switches to a runnable process -/
  | dispatch {p : ι → Entry ι} {n : ℤ} {w : ι} (hw : (p w).state = runnable) :
      LifeStep ip ⟨p, n⟩ (.dispatched w (p w).pid)
        ⟨Function.update p w { p w with ticks := incInt (p w).ticks, state := running }, n⟩
  /-- `yield` -/
  | yield {p : ι → Entry ι} {n : ℤ} {i : ι} (hi : (p i).state = running) :
      LifeStep ip ⟨p, n⟩ .other ⟨Function.update p i { p i with state := runnable }, n⟩
  /-- `sleep` on a channel that is not a slot of the table -/
  | sleepOn {p : ι → Entry ι} {n : ℤ} {i : ι} {a : ℕ} (hi : (p i).state = running) :
      LifeStep ip ⟨p, n⟩ .other
        ⟨Function.update p i { p i with chan := some (.addr a), state := sleeping }, n⟩
  /-- `wait` goes to sleep: there are children, none a zombie, and no kill is pending -/
  | sleepWait {p : ι → Entry ι} {n : ℤ} {i : ι} (hi : (p i).state = running)
      (hkid : ∃ k, (p k).parent = some i)
      (hzombie : ∀ k, (p k).parent = some i → (p k).state ≠ zombie)
      (hkilled : (p i).killed = false) :
      LifeStep ip ⟨p, n⟩ .other
        ⟨Function.update p i { p i with chan := some (.proc i), state := sleeping }, n⟩
  /-- `sleep` tidies up after waking -/
  | clearChan {p : ι → Entry ι} {n : ℤ} {i : ι} (hi : (p i).state = running) :
      LifeStep ip ⟨p, n⟩ .other ⟨Function.update p i { p i with chan := none }, n⟩
  /-- `wakeup` -/
  | wakeup {p : ι → Entry ι} {n : ℤ} {ch : Option (Chan ι)} :
      LifeStep ip ⟨p, n⟩ .other ⟨wakeEntries p ch, n⟩
  /-- `kill` finds a slot with the pid -/
  | kill {p : ι → Entry ι} {n x : ℤ} {j : ι} (hj : (p j).pid = x) :
      LifeStep ip ⟨p, n⟩ (.killed x (some j))
        ⟨Function.update p j
          { p j with
            killed := true
            state := if (p j).state = sleeping then runnable else (p j).state }, n⟩
  /-- `kill` finds no slot with the pid -/
  | killMiss {p : ι → Entry ι} {n x : ℤ} (hx : ∀ j, (p j).pid ≠ x) :
      LifeStep ip ⟨p, n⟩ (.killed x none) ⟨p, n⟩
  /-- `trap` marks the running process after an unexpected trap in user mode -/
  | trap {p : ι → Entry ι} {n : ℤ} {i : ι} (hi : (p i).state = running) :
      LifeStep ip ⟨p, n⟩ (.trapped i (p i).pid)
        ⟨Function.update p i { p i with killed := true }, n⟩
  /-- `sys_assign_tickets` finds a slot with the pid -/
  | assign {p : ι → Entry ι} {n m : ℤ} {j : ι} (hm : 1 ≤ m) :
      LifeStep ip ⟨p, n⟩ (.assigned m (some j))
        ⟨Function.update p j { p j with tickets := m }, n⟩
  /-- `exit`, up to the switch to the scheduler -/
  | exit {p p' : ι → Entry ι} {n : ℤ} {i : ι} (hi : (p i).state = running) (hip : i ≠ ip)
      (heff : ExitEffect ip i p p') :
      LifeStep ip ⟨p, n⟩ (.exited i (p i).pid) ⟨p', n⟩
  /-- `wait` collects a zombie child -/
  | reap {p : ι → Entry ι} {n : ℤ} {i z : ι} (hi : (p i).state = running)
      (hz : (p z).state = zombie) (hpar : (p z).parent = some i) :
      LifeStep ip ⟨p, n⟩ (.reaped (p i).pid (p z).pid z)
        ⟨Function.update p z
          { p z with
            pid := 0, tickets := 0, ticks := 0, parent := none, killed := false,
            state := unused }, n⟩

end Xv6Lottery
