import Xv6Lottery.Library.Monitor
import Xv6Lottery.Library.Ring

/-!
`pipe.c`: `pipewrite`, `piperead` and `pipeclose`, called by any number of processes at once.

The lock of a pipe makes it a monitor: `sleep(chan, &p->lock)` gives the lock back and sleeps in
one step, as far as the holders of the lock can see (see `Kernel.Wakeup`).

* `Pipe`: `struct pipe` without its lock. The counters are of type `uint`.
* `Place`, `code`: the points of the three functions, and what each of them does next. Every
  byte that is copied is a step of its own.
* `PipeEvent`: the bytes that are written, and how the calls return.
* `bytes`: what is in a pipe. `Pipe.Ok` says that the counters fit the buffer.
* `put_bytes`, `take_bytes`: what the two copying statements do.
-/

namespace Xv6Lottery

open Library

/-- `struct pipe` -/
structure Pipe where
  data : ℕ → UInt8
  nread : ℕ
  nwrite : ℕ
  readopen : Bool
  writeopen : Bool

namespace Pipe

/-- `PIPESIZE` -/
abbrev PIPESIZE : ℕ := 512

/-- The number of values of a `uint`. -/
abbrev uintSize : ℕ := 2 ^ 32

/-- The channels that processes sleep on: the addresses of the two counters. -/
inductive PipeChan
  | nread | nwrite
  deriving DecidableEq, Repr

/-- The calls. -/
inductive PipeCall
  | write (addr : List UInt8)
  | read (n : ℕ)
  | close (writable : Bool)
  deriving DecidableEq, Repr

/-- What is seen of the calls. -/
inductive PipeEvent
  /-- a byte has been copied into the pipe -/
  | put (b : UInt8)
  /-- `pipewrite` has returned the number of bytes in `addr` -/
  | wrote (addr : List UInt8)
  /-- `pipewrite` has returned -1 -/
  | failed
  /-- `piperead`, called with `n`, has returned with the bytes in `addr` -/
  | gave (n : ℕ) (addr : List UInt8)
  /-- `piperead` has returned -1 -/
  | interrupted
  /-- `pipeclose` has returned, and has given the page to `kfree` or not -/
  | closed (writable freed : Bool)
  deriving DecidableEq, Repr

/-- Where a process is in the code. -/
inductive Place
  /-- outside -/
  | idle
  /-- `pipewrite`: at the test `i < n` -/
  | write (addr : List UInt8) (i : ℕ)
  /-- `pipewrite`: the pipe is full, and its readers have been woken -/
  | full (addr : List UInt8) (i : ℕ)
  /-- `pipewrite`: the readers have been woken after the last byte -/
  | written (addr : List UInt8)
  /-- `piperead`: at the test for an empty pipe -/
  | read (n : ℕ)
  /-- `piperead`: at the test `i < n`, with the bytes copied so far -/
  | copy (n : ℕ) (addr : List UInt8)
  /-- `piperead`: the writers have been woken -/
  | copied (n : ℕ) (addr : List UInt8)
  /-- `pipeclose`: the lock has been taken -/
  | close (writable : Bool)
  /-- `pipeclose`: the flag has been cleared -/
  | closeWake (writable : Bool)
  /-- `pipeclose`: at the test of the two flags -/
  | closeTest (writable : Bool)
  deriving DecidableEq, Repr

/-- The start of a call. -/
def PipeCall.start : PipeCall → Place
  | .write addr => .write addr 0
  | .read n => .read n
  | .close writable => .close writable

/-- `p->data[p->nwrite++ % PIPESIZE] = b` -/
def put (p : Pipe) (b : UInt8) : Pipe :=
  { p with
    data := Function.update p.data (p.nwrite % PIPESIZE) b
    nwrite := (p.nwrite + 1) % uintSize }

/-- `p->nread++`; the byte read is the one below. -/
def take (p : Pipe) : Pipe := { p with nread := (p.nread + 1) % uintSize }

/-- `p->data[p->nread % PIPESIZE]` -/
def front (p : Pipe) : UInt8 := p.data (p.nread % PIPESIZE)

/-- The step of the process that holds `p->lock`; `killed` is `myproc()->killed`. -/
def step (killed : Bool) (p : Pipe) : Place → Inner Pipe Place PipeChan PipeEvent
  | .idle => .release .idle none
  | .write addr i =>
      match addr[i]? with
      | none => .wakeup .nread (.written addr)
      | some b =>
          if p.nwrite = (p.nread + PIPESIZE) % uintSize then
            if p.readopen = false ∨ killed = true then .release .idle (some .failed)
            else .wakeup .nread (.full addr i)
          else .go (p.put b) (.write addr (i + 1)) (some (.put b))
  | .full addr i => .sleep .nwrite (.write addr i)
  | .written addr => .release .idle (some (.wrote addr))
  | .read n =>
      if p.nread = p.nwrite ∧ p.writeopen = true then
        if killed = true then .release .idle (some .interrupted) else .sleep .nread (.read n)
      else .go p (.copy n []) none
  | .copy n addr =>
      if addr.length < n ∧ p.nread ≠ p.nwrite then .go p.take (.copy n (addr ++ [p.front])) none
      else .wakeup .nwrite (.copied n addr)
  | .copied n addr => .release .idle (some (.gave n addr))
  | .close writable =>
      if writable then .go { p with writeopen := false } (.closeWake writable) none
      else .go { p with readopen := false } (.closeWake writable) none
  | .closeWake writable => .wakeup (if writable then .nread else .nwrite) (.closeTest writable)
  | .closeTest writable =>
      .release .idle (some (.closed writable (!p.readopen && !p.writeopen)))

/-- The code of the processes `ι`. -/
def code (ι : Type) : Monitor ι Pipe Place PipeChan PipeCall PipeEvent where
  outer _ k _ t := if t = .idle then .enter k.start else .stuck
  inner _ killed p t := step killed p t

/-- A pipe as `pipealloc` leaves it; `data` is what was in the page. -/
def pipealloc (data : ℕ → UInt8) : Pipe := ⟨data, 0, 0, true, true⟩

/-- A new pipe, with no call in progress. -/
def start (ι : Type) (data : ℕ → UInt8) : MonState ι Pipe Place PipeChan :=
  ⟨pipealloc data, none, fun _ => .outside .idle⟩

lemma start_fresh {ι : Type} (data : ℕ → UInt8) : Monitor.Fresh (start ι data) :=
  ⟨rfl, fun _ => ⟨.idle, rfl⟩⟩

/-! ### The buffer -/

variable {p : Pipe}

/-- The number of bytes in the pipe. -/
def len (p : Pipe) : ℕ := Ring.count uintSize p.nread p.nwrite

/-- The bytes in the pipe, the next one to be read first. -/
def bytes (p : Pipe) : List UInt8 := Ring.contents PIPESIZE p.data p.nread p.len

/-- The counters are values of `uint` at most `PIPESIZE` apart. -/
structure Ok (p : Pipe) : Prop where
  nread_lt : p.nread < uintSize
  nwrite_lt : p.nwrite < uintSize
  len_le : p.len ≤ PIPESIZE

@[simp] lemma length_bytes (p : Pipe) : p.bytes.length = p.len := Ring.length_contents _ _

namespace Ok

variable (hp : p.Ok)
include hp

/-- The test for an empty pipe. -/
lemma empty_iff : p.nread = p.nwrite ↔ p.bytes = [] := by
  rw [← List.length_eq_zero_iff, length_bytes]
  exact (Ring.count_eq_zero_iff hp.nread_lt).symm

/-- The test for a full pipe. -/
lemma full_iff : p.nwrite = (p.nread + PIPESIZE) % uintSize ↔ p.len = PIPESIZE :=
  (Ring.count_eq_iff hp.nread_lt hp.nwrite_lt (by norm_num)).symm

lemma put_bytes (h : p.len ≠ PIPESIZE) (b : UInt8) : (p.put b).bytes = p.bytes ++ [b] :=
  Ring.contents_push (by decide) hp.nread_lt hp.nwrite_lt p.data b
    (lt_of_le_of_ne hp.len_le h) (by norm_num)

lemma put_ok (h : p.len ≠ PIPESIZE) (b : UInt8) : (p.put b).Ok where
  nread_lt := hp.nread_lt
  nwrite_lt := Nat.mod_lt _ (by norm_num)
  len_le := by
    rw [← length_bytes, hp.put_bytes h b, List.length_append, length_bytes, List.length_singleton]
    exact lt_of_le_of_ne hp.len_le h

lemma take_bytes (h : p.nread ≠ p.nwrite) : p.bytes = p.front :: p.take.bytes :=
  Ring.contents_pop (by decide) hp.nread_lt hp.nwrite_lt p.data h

lemma take_ok (h : p.nread ≠ p.nwrite) : p.take.Ok where
  nread_lt := Nat.mod_lt _ (by norm_num)
  nwrite_lt := hp.nwrite_lt
  len_le := by
    have hlen := congrArg List.length (hp.take_bytes h)
    rw [List.length_cons, length_bytes, length_bytes] at hlen
    have hle := hp.len_le
    omega

end Ok

lemma pipealloc_ok (data : ℕ → UInt8) : (pipealloc data).Ok :=
  ⟨by norm_num [pipealloc], by norm_num [pipealloc], by simp [len, pipealloc, Ring.count]⟩

end Pipe

end Xv6Lottery
