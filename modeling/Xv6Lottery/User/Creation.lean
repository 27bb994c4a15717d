import Mathlib.Data.List.Intervals
import Xv6Lottery.Library.Process
import Xv6Lottery.Life.Data
import Xv6Lottery.Pipe.Code

/-!
`sched_test_utils.c`: the helpers of the scheduler tests that create processes and collect their
pids through pipes.

* `encodeInt`, `decodeInt`, `store`: an `int` as the four bytes that go through a pipe. A read
  that comes up short leaves the other bytes of the variable alone.
* `createProcess`, `createMoreProcesses`, `createNestedProcesses`: the code, each call with what
  is done with its answer. A function takes as its last argument what its caller does next.
* `Helper`, `Helper.start`: a process about to call one of the two helpers.
* `Reported`: the helper has reported processes that it has created, all different.
* `Failure`, `Harmful`, `Harmed`: the calls that fail, and those of them that keep it from that.
* `collected`, `inTransit`: the pids that are in the array and those that are in the pipe, when
  some of them have been read and some more have been written.
-/

namespace Xv6Lottery

open Library
open Pipe (PIPESIZE)

/-! ### Bytes -/

/-- The four bytes of an `int`, lowest first. -/
def encodeInt (x : ℤ) : List UInt8 :=
  let v := (x % 2 ^ 32).toNat
  [UInt8.ofNat v, UInt8.ofNat (v / 2 ^ 8), UInt8.ofNat (v / 2 ^ 16), UInt8.ofNat (v / 2 ^ 24)]

/-- The `int` that bytes stand for. -/
def decodeInt (bs : List UInt8) : ℤ := wrapInt (Nat.ofDigits 256 (bs.map UInt8.toNat) : ℕ)

/-- An `int` variable after bytes have been stored at its address. -/
def store (old : ℤ) (bs : List UInt8) : ℤ := decodeInt (bs ++ (encodeInt old).drop bs.length)

@[simp] lemma length_encodeInt (x : ℤ) : (encodeInt x).length = 4 := rfl

lemma decodeInt_encodeInt {x : ℤ} (h : IsInt x) : decodeInt (encodeInt x) = x := by
  obtain ⟨h1, h2⟩ := h
  have hv : Nat.ofDigits 256 ((encodeInt x).map UInt8.toNat) = (x % 2 ^ 32).toNat := by
    have hlt : (x % 2 ^ 32).toNat < 2 ^ 32 := by omega
    simp only [encodeInt, List.map_cons, List.map_nil, UInt8.toNat_ofNat', Nat.ofDigits_cons,
      Nat.ofDigits_nil]
    omega
  rw [decodeInt, hv, wrapInt_eq]
  simp only [intMax] at h2
  split_ifs <;> omega

/-- A read that gets a whole `int` stores it. -/
lemma store_encodeInt (old : ℤ) {x : ℤ} (h : IsInt x) : store old (encodeInt x) = x := by
  have hdrop : (encodeInt old).drop (encodeInt x).length = [] := rfl
  rw [store, hdrop, List.append_nil, decodeInt_encodeInt h]

/-! ### The code -/

/-- The system calls besides those on processes and pipes. -/
inductive UserCall
  | assignTickets (pid tickets : ℤ)
  | printf (text : String)
  deriving DecidableEq, Repr

/-- An array of `int`. -/
abbrev IntArray := ℕ → ℤ

/-- A program that ends with the array `child_pids` and the value returned. -/
abbrev UserProg := Prog UserCall UInt8 (IntArray × ℤ)

/-- `printf(1, text); exit();` -/
def complain (text : String) : UserProg := .call (.printf text) fun _ => .exit

/-- `assign_tickets(pid, tickets)`, and what is done if it succeeds. -/
def assignTo (pid tickets : ℤ) (k : UserProg) : UserProg :=
  .call (.assignTickets pid tickets) fun r =>
    if r = 0 then k else complain "Error setting the tickets\n"

/-- The same for the pid of the process itself. -/
def assignOwn (tickets : ℤ) (k : UserProg) : UserProg := .getpid fun pid => assignTo pid tickets k

/-- `create_process` -/
def createProcess (tickets : ℤ) (k : ℤ → UserProg) : UserProg :=
  .fork fun pid =>
    if pid = 0 then assignOwn tickets .spin
    else if pid > 0 then k pid
    else k (-1)

/-- The loop of `count` turns `read(pfd[0], &child_pids[i], sizeof(int)); i++`. -/
def readPids (p : ℕ) (k : IntArray → UserProg) : ℕ → ℕ → IntArray → UserProg
  | 0, _, childPids => k childPids
  | count + 1, i, childPids =>
      .read p 4 fun bs =>
        readPids p k count (i + 1) (Function.update childPids i (store (childPids i) bs))

/-- The loop of `count` turns `write(pfd[1], &child_pids[i], sizeof(int)); i++`. -/
def writePids (p : ℕ) (childPids : IntArray) (k : UserProg) : ℕ → ℕ → UserProg
  | 0, _ => k
  | count + 1, i =>
      .write p (encodeInt (childPids i)) fun _ => writePids p childPids k count (i + 1)

/-- The loop of `create_more_processes` over the tickets, with `count` turns to go. -/
def createRest (p : ℕ) (tickets : IntArray) : ℕ → ℕ → UserProg
  | 0, _ => .spin
  | count + 1, i =>
      createProcess (tickets i) fun pid =>
        if pid = -1 then complain "Error creating child process\n"
        else .write p (encodeInt pid) fun _ => createRest p tickets count (i + 1)

/-- What the parent does behind the `fork` of both helpers: it closes the writing end, and reads
the pids that follow the first. -/
def collect (p n : ℕ) (childPids : IntArray) (pid : ℤ) (k : IntArray → ℤ → UserProg) : UserProg :=
  .close ⟨p, true⟩ (readPids p (fun childPids => k childPids pid) (n - 1) 1
    (Function.update childPids 0 pid))

/-- `create_more_processes` -/
def createMoreProcesses (childPids tickets : IntArray) (n : ℕ) (k : IntArray → ℤ → UserProg) :
    UserProg :=
  .pipe fun pfd =>
    match pfd with
    | none => complain "Error creating pipe\n"
    | some p =>
        .fork fun pid =>
          if pid = 0 then
            .close ⟨p, false⟩ (assignOwn (tickets 0) (createRest p tickets (n - 1) 1))
          else if pid > 0 then collect p n childPids pid k
          else k childPids (-1)

/-- What a child of `create_nested_processes` does when its own call has returned. -/
def passOn (p count : ℕ) (childPids : IntArray) (pid : ℤ) : UserProg :=
  if pid ≠ 0 then writePids p childPids .spin count 0 else .spin

/-- `create_nested_processes` -/
def createNestedProcesses (childPids : IntArray) :
    IntArray → ℕ → (IntArray → ℤ → UserProg) → UserProg
  | _, 0, k => k childPids 0
  | tickets, n + 1, k =>
      .pipe fun pfd =>
        match pfd with
        | none => complain "Error creating pipe\n"
        | some p =>
            .fork fun pid =>
              if pid = 0 then
                .close ⟨p, false⟩ (assignOwn (tickets 0)
                  (createNestedProcesses childPids (fun i => tickets (i + 1)) n (passOn p n)))
              else if pid > 0 then collect p (n + 1) childPids pid k
              else k childPids (-1)

/-! ### The system -/

/-- The states of the processes that a helper has created, and of its caller. -/
abbrev UserSys := Sys UserCall UInt8 (IntArray × ℤ)

abbrev UserEvent := SysEvent UserCall

/-- The processes on the pipes of `pipe.c`. -/
def userMachine : Guarded UserSys (ℤ × Outcome) UserEvent :=
  sysMachine UserCall UInt8 (IntArray × ℤ) PIPESIZE intMax

instance (s : UserSys) (a : ℤ × Outcome) : Decidable (userMachine.Enabled s a) :=
  inferInstanceAs (Decidable ((sysMachine _ _ _ _ _).Enabled s a))

/-- Any call may fail. -/
def AnyOutcome (_ : UserSys) (_ : ℤ × Outcome) : Prop := True

instance : DecidableRel AnyOutcome := fun _ _ => isTrue trivial

/-- The two helpers. -/
inductive Helper
  | more | nested
  deriving DecidableEq, Repr

/-- The call of a helper, whose result is handed to the caller. -/
def Helper.code (h : Helper) (childPids tickets : IntArray) (n : ℕ) : UserProg :=
  match h with
  | .more => createMoreProcesses childPids tickets n fun childPids pid => .ret (childPids, pid)
  | .nested => createNestedProcesses childPids tickets n fun childPids pid => .ret (childPids, pid)

/-- A process about to call a helper. -/
def Helper.start (h : Helper) (caller : ℤ) (childPids tickets : IntArray) (n : ℕ) : UserSys :=
  Sys.start caller (h.code childPids tickets n)

/-! ### What is reported, and what keeps it from being so -/

/-- The first `n` entries of the array are processes created in the run, all different. -/
structure Reported (n : ℕ) (childPids : IntArray) (tr : List UserEvent) : Prop where
  created : ∀ i < n, childPids i ∈ created tr
  distinct : ∀ i < n, ∀ j < n, childPids i = childPids j → i = j

/-- With fewer than `n` processes created, no `n` entries are right. -/
lemma not_reported_of_length_lt {n : ℕ} {childPids : IntArray} {tr : List UserEvent}
    (h : (created tr).length < n) : ¬ Reported n childPids tr := by
  intro hrep
  have hsub : (Finset.range n).image childPids ⊆ (created tr).toFinset := by
    intro x hx
    obtain ⟨i, hi, rfl⟩ := Finset.mem_image.mp hx
    exact List.mem_toFinset.mpr (hrep.created i (Finset.mem_range.mp hi))
  have hcard : ((Finset.range n).image childPids).card = n := by
    rw [Finset.card_image_of_injOn, Finset.card_range]
    intro i hi j hj hij
    exact hrep.distinct i (Finset.mem_range.mp hi) j (Finset.mem_range.mp hj) hij
  have := (Finset.card_le_card hsub).trans (List.toFinset_card_le _)
  omega

/-- The process that is created at the place `j`, counted from 0, has others to create. -/
def Helper.Creates (h : Helper) (n j : ℕ) : Prop :=
  match h with
  | .more => j = 0 ∧ 1 < n
  | .nested => j + 1 < n

/-- A failure of a process other than the caller that keeps others from being created, when those
of `cs` have been: its `pipe` or `fork` fails, or its `assign_tickets` if it has others to
create. -/
def Harmful (h : Helper) (n : ℕ) (caller : ℤ) (cs : List ℤ) : UserEvent → Prop
  | .pipeFailed pid => pid ≠ caller
  | .forkFailed pid => pid ≠ caller
  | .called pid (.assignTickets _ _) r => r ≠ 0 ∧ ∃ j, h.Creates n j ∧ cs[j]? = some pid
  | _ => False

/-- A call of `pipe`, `fork` or `assign_tickets` fails. -/
def Failure : UserEvent → Prop
  | .pipeFailed _ => True
  | .forkFailed _ => True
  | .called _ (.assignTickets _ _) r => r ≠ 0
  | _ => False

instance : DecidablePred Failure
  | .pipeFailed _ | .forkFailed _ => isTrue trivial
  | .called _ (.assignTickets _ _) r => inferInstanceAs (Decidable (r ≠ 0))
  | .called _ (.printf _) _ | .tau | .forked _ _ => isFalse id

lemma Harmful.failure {h : Helper} {n : ℕ} {caller : ℤ} {cs : List ℤ} {e : UserEvent}
    (he : Harmful h n caller cs e) : Failure e := by
  unfold Harmful at he
  split at he
  · trivial
  · trivial
  · exact he.1
  · exact he.elim

/-- A harmful failure happens in the run. -/
def Harmed (h : Helper) (n : ℕ) (caller : ℤ) (tr : List UserEvent) : Prop :=
  ∃ tr₁ e tr₂, tr = tr₁ ++ e :: tr₂ ∧ Harmful h n caller (created tr₁) e

lemma not_harmed_nil (h : Helper) (n : ℕ) (caller : ℤ) : ¬ Harmed h n caller [] := by
  rintro ⟨tr₁, e, tr₂, htr, -⟩
  simp at htr

lemma not_harmed_of_forall {h : Helper} {n : ℕ} {caller : ℤ} {tr : List UserEvent}
    (htr : ∀ e ∈ tr, ¬ Failure e) : ¬ Harmed h n caller tr := by
  rintro ⟨tr₁, e, tr₂, rfl, he⟩
  exact htr e (by simp) he.failure

lemma harmed_snoc_iff {h : Helper} {n : ℕ} {caller : ℤ} {tr : List UserEvent} {e : UserEvent} :
    Harmed h n caller (tr ++ [e]) ↔
      Harmed h n caller tr ∨ Harmful h n caller (created tr) e := by
  constructor
  · rintro ⟨tr₁, e', tr₂, htr, he⟩
    rcases List.eq_nil_or_concat tr₂ with rfl | ⟨tr₃, e'', rfl⟩
    · obtain ⟨rfl, h2⟩ := List.append_inj' htr rfl
      obtain rfl := List.singleton_inj.mp h2
      exact .inr he
    · rw [List.concat_eq_append, ← List.cons_append, ← List.append_assoc] at htr
      obtain ⟨rfl, -⟩ := List.append_inj' htr rfl
      exact .inl ⟨tr₁, e', tr₃, rfl, he⟩
  · rintro (⟨tr₁, e', tr₂, rfl, he⟩ | he)
    · exact ⟨tr₁, e', tr₂ ++ [e], by simp, he⟩
    · exact ⟨tr, e, [], rfl, he⟩

/-! ### Programs that create nothing more -/

section ForkFree

variable {Q : IntArray × ℤ → Prop}

lemma forkFree_complain (text : String) : ForkFree Q (complain text) := .call _ fun _ => .exit

lemma forkFree_writePids (p : ℕ) (childPids : IntArray) {k : UserProg} (hk : ForkFree Q k)
    (count i : ℕ) : ForkFree Q (writePids p childPids k count i) := by
  induction count generalizing i with
  | zero => exact hk
  | succ count ih => exact .write _ _ fun _ => ih (i + 1)

lemma forkFree_readPids (p : ℕ) {k : IntArray → UserProg} (hk : ∀ a, ForkFree Q (k a))
    (count i : ℕ) (childPids : IntArray) : ForkFree Q (readPids p k count i childPids) := by
  induction count generalizing i childPids with
  | zero => exact hk childPids
  | succ count ih => exact .read _ _ fun bs => ih (i + 1) _

lemma forkFree_passOn (p count : ℕ) (childPids : IntArray) (pid : ℤ) :
    ForkFree Q (passOn p count childPids pid) := by
  rw [passOn]
  split_ifs
  · exact forkFree_writePids _ _ .spin _ _
  · exact .spin

lemma forkFree_assignTo {k : UserProg} (hk : ForkFree Q k) (pid tickets : ℤ) :
    ForkFree Q (assignTo pid tickets k) := by
  refine .call _ fun r => ?_
  split_ifs
  · exact hk
  · exact forkFree_complain _

end ForkFree

/-! ### Pids on their way -/

/-- The array when the first `ρ + 1` pids, those of the processes behind `c k`, are in it. -/
def collected (childPids : IntArray) (c : ℕ → ℤ) (k ρ : ℕ) : IntArray :=
  fun i => if i ≤ ρ then c (k + 1 + i) else childPids i

lemma update_zero_eq_collected (childPids : IntArray) (c : ℕ → ℤ) (k : ℕ) :
    Function.update childPids 0 (c (k + 1)) = collected childPids c k 0 := by
  funext i
  cases i with
  | zero => simp [collected]
  | succ i => simp [collected]

lemma update_collected (childPids : IntArray) (c : ℕ → ℤ) (k ρ : ℕ) :
    Function.update (collected childPids c k ρ) (ρ + 1) (c (k + 2 + ρ)) =
      collected childPids c k (ρ + 1) := by
  funext i
  rcases lt_trichotomy i (ρ + 1) with h | rfl | h
  · rw [Function.update_of_ne h.ne, collected, collected, if_pos (by omega), if_pos (by omega)]
  · rw [Function.update_self, collected, if_pos le_rfl]
    congr 1
    omega
  · rw [Function.update_of_ne h.ne', collected, collected, if_neg (by omega), if_neg (by omega)]

/-- The bytes in the pipe behind `c k`: the writer has written `b` pids, and the reader has read
`a` of them. -/
def inTransit (c : ℕ → ℤ) (k a b : ℕ) : List UInt8 :=
  (List.Ico a b).flatMap fun l => encodeInt (c (k + 2 + l))

lemma inTransit_self (c : ℕ → ℤ) (k a : ℕ) : inTransit c k a a = [] := by
  rw [inTransit, List.Ico.self_empty]
  rfl

/-- The pid that is read next. -/
lemma inTransit_cons {a b : ℕ} (h : a < b) (c : ℕ → ℤ) (k : ℕ) :
    inTransit c k a b = encodeInt (c (k + 2 + a)) ++ inTransit c k (a + 1) b := by
  rw [inTransit, List.Ico.eq_cons h]
  rfl

/-- A pid is written. -/
lemma inTransit_snoc {a b : ℕ} (h : a ≤ b) (c : ℕ → ℤ) (k : ℕ) :
    inTransit c k a (b + 1) = inTransit c k a b ++ encodeInt (c (k + 2 + b)) := by
  rw [inTransit, List.Ico.succ_top h, List.flatMap_append]
  simp [inTransit]

lemma length_inTransit (c : ℕ → ℤ) (k a b : ℕ) : (inTransit c k a b).length = 4 * (b - a) := by
  rw [inTransit, List.length_flatMap]
  simp [Nat.mul_comm]

/-- The pids on their way are those of processes that have been created. -/
lemma inTransit_congr {c c' : ℕ → ℤ} {k a b m : ℕ} (hc : ∀ i ≤ m, c' i = c i)
    (hb : k + 1 + b ≤ m) : inTransit c' k a b = inTransit c k a b := by
  refine List.flatMap_congr fun l hl => ?_
  have := (List.Ico.mem.mp hl).2
  rw [hc _ (by omega)]

lemma collected_congr {childPids : IntArray} {c c' : ℕ → ℤ} {k ρ m : ℕ}
    (hc : ∀ i ≤ m, c' i = c i) (hρ : k + 1 + ρ ≤ m) :
    collected childPids c' k ρ = collected childPids c k ρ := by
  funext i
  rw [collected, collected]
  split_ifs with hi
  · exact hc _ (by omega)
  · rfl

end Xv6Lottery
