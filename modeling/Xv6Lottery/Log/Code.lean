import Xv6Lottery.Library.Monitor

/-!
`log.c`: the log that makes file system calls atomic with respect to crashes.

* `Block`, `Disk`: a block is its words. The log begins at `logstart`, with the header; the blocks
  from `inodestart` on are those of the file system (`mkfs.c`).
* `Logheader`, `LogState`: `struct logheader`, and the log with the disk under it and the
  contents of the blocks as `bread` returns them. Blocks in the log are pinned in the buffer
  cache, so that what it holds is what was last written to it.
* `Place`, `code`: `begin_op`, `log_write`, `end_op` and `commit`, executed by any number of
  system calls at once. Every disk write is a step of its own.
* `FsCalls`: how many different blocks a system call may give to `log_write`, which absorbs those
  that are in the log already.
* `recover`, `Interrupted`: `recover_from_log`, and what it has done after some of its writes.
* `Move`: the moves of the code, read off it by `effect_move`.
-/

namespace Xv6Lottery

open Library Monitor

namespace Log

/-! ### Layout -/

/-- `MAXOPBLOCKS` -/
abbrev MAXOPBLOCKS : ℕ := 10

/-- `LOGSIZE` -/
abbrev LOGSIZE : ℕ := MAXOPBLOCKS * 3

/-- `sb.nlog`, as `mkfs` sets it: the header and the blocks of the log. -/
abbrev nlog : ℕ := LOGSIZE

/-- `sb.logstart` -/
abbrev logstart : ℕ := 2

/-- `sb.inodestart`: the first block after the log. -/
abbrev inodestart : ℕ := logstart + nlog

/-- The words of a block. -/
abbrev Block := ℕ → ℕ

/-- A disk. -/
abbrev Disk := ℕ → Block

/-- `struct logheader` -/
structure Logheader where
  n : ℕ
  block : ℕ → ℕ

namespace Logheader

/-- The loop of `log_write`: the place of a block that is in the log already, or the next one. -/
def index (lh : Logheader) (b : ℕ) : ℕ :=
  ((List.range lh.n).find? fun i => lh.block i = b).getD lh.n

/-- `log_write` behind its checks: the block is added, or absorbed. -/
def add (lh : Logheader) (b : ℕ) : Logheader where
  n := if lh.index b = lh.n then lh.n + 1 else lh.n
  block := Function.update lh.block (lh.index b) b

/-- `write_head`: the header block with `lh` in it. -/
def encode (lh : Logheader) (old : Block) : Block := fun k =>
  if k = 0 then lh.n else if k ≤ lh.n then lh.block (k - 1) else old k

/-- `read_head` -/
def decode (old : Logheader) (b : Block) : Logheader where
  n := b 0
  block := fun i => if i < b 0 then b (i + 1) else old.block i

end Logheader

/-! ### The state -/

/-- `struct log`, the disk, and the blocks as `bread` returns them. -/
structure LogState where
  lh : Logheader
  outstanding : ℕ
  committing : Bool
  disk : Disk
  cache : Disk

namespace LogState

/-- A block is changed in the cache and written to the disk (`bwrite`). -/
def bwrite (s : LogState) (b : ℕ) (data : Block) : LogState :=
  { s with cache := Function.update s.cache b data, disk := Function.update s.disk b data }

/-- One turn of the loop of `write_log`. -/
def writeLog (s : LogState) (tail : ℕ) : LogState :=
  s.bwrite (logstart + tail + 1) (s.cache (s.lh.block tail))

/-- `write_head` -/
def writeHead (s : LogState) : LogState := s.bwrite logstart (s.lh.encode (s.cache logstart))

/-- One turn of the loop of `install_trans`. -/
def install (s : LogState) (tail : ℕ) : LogState :=
  s.bwrite (s.lh.block tail) (s.cache (logstart + tail + 1))

end LogState

/-! ### Recovery -/

/-- The disk after `k` turns of the loop of `install_trans`. -/
def installed (lh : Logheader) (d : Disk) : ℕ → Disk
  | 0 => d
  | k + 1 =>
      Function.update (installed lh d k) (lh.block k) (installed lh d k (logstart + k + 1))

/-- The header that `read_head` finds. -/
def headOf (d : Disk) : Logheader := Logheader.decode ⟨0, fun _ => 0⟩ (d logstart)

/-- The disk when the machine stops in `recover_from_log`, before the log is cleared. -/
def Interrupted (d d' : Disk) : Prop := ∃ k ≤ (headOf d).n, d' = installed (headOf d) d k

/-! ### The code -/

/-- The steps that a system call chooses: it begins, modifies a block after it has given the blocks
`ws` to `log_write`, ends, or goes on with what it is doing. -/
inductive FsCall
  | begin
  | write (ws : List ℕ) (b : ℕ) (data : Block)
  | finish
  | go

/-- What is seen. -/
inductive LogEvent
  /-- a system call has been admitted by `begin_op` -/
  | began
  /-- a block has been modified, and is about to be given to `log_write` -/
  | wrote (b : ℕ) (data : Block)
  /-- a system call has ended in `end_op` -/
  | ended
  /-- `commit` has written the header -/
  | committed
  /-- a `panic` -/
  | panicked

/-- Where a process is. -/
inductive Place
  | idle
  /-- `begin_op`: at the head of its loop -/
  | begin
  /-- `begin_op`: admitted, about to release the lock -/
  | began
  /-- in a system call that has given the blocks `ws` to `log_write` -/
  | op (ws : List ℕ)
  /-- `log_write(b)`: at its checks, without the lock -/
  | check (ws : List ℕ) (b : ℕ)
  /-- `log_write(b)`: behind them -/
  | log (ws : List ℕ) (b : ℕ)
  /-- `log_write`: about to release the lock -/
  | logged (ws : List ℕ)
  /-- `end_op`, at its beginning -/
  | endOp
  /-- `end_op`: others are outstanding -/
  | endWake
  /-- `end_op`: about to release the lock -/
  | ended
  /-- `end_op`: about to release the lock, with `do_commit` -/
  | endCommit
  /-- `commit`, at its beginning -/
  | commit
  /-- `write_log`: at the head of its loop -/
  | writeLog (tail : ℕ)
  /-- `commit`: `write_head` next -/
  | writeHead
  /-- `install_trans`: at the head of its loop -/
  | install (tail : ℕ)
  /-- `commit`: the second `write_head` next -/
  | clearHead
  /-- `commit`, at its end -/
  | cleared
  /-- `end_op`, after `commit` -/
  | finish
  /-- `end_op`, after `log.committing = 0` -/
  | finishWake
  /-- `end_op`: about to release the lock for the last time -/
  | finished
  /-- after a `panic` -/
  | halted
  deriving DecidableEq, Repr

/-- The steps without `log.lock`. -/
def outer (s : LogState) : FsCall → Place → Outer LogState Place LogEvent
  | .begin, .idle => .enter .begin
  | .write ws b data, .op ws' =>
      if ws = ws' then
        .go { s with cache := Function.update s.cache b data } (.check ws b) (some (.wrote b data))
      else .stuck
  | .finish, .op _ => .enter .endOp
  | .go, .check ws b =>
      if s.lh.n ≥ LOGSIZE ∨ s.lh.n ≥ nlog - 1 then .go s .halted (some .panicked)
      else if s.outstanding < 1 then .go s .halted (some .panicked)
      else .enter (.log ws b)
  | .go, .commit => if s.lh.n > 0 then .go s (.writeLog 0) none else .enter .finish
  | .go, .writeLog tail =>
      if tail < s.lh.n then .go (s.writeLog tail) (.writeLog (tail + 1)) none
      else .go s .writeHead none
  | .go, .writeHead => .go s.writeHead (.install 0) (some .committed)
  | .go, .install tail =>
      if tail < s.lh.n then .go (s.install tail) (.install (tail + 1)) none
      else .go { s with lh := { s.lh with n := 0 } } .clearHead none
  | .go, .clearHead => .go s.writeHead .cleared none
  | .go, .cleared => .enter .finish
  | _, _ => .stuck

/-- The steps with `log.lock`. -/
def inner (s : LogState) : Place → Inner LogState Place Unit LogEvent
  | .begin =>
      if s.committing then .sleep () .begin
      else if s.lh.n + (s.outstanding + 1) * MAXOPBLOCKS > LOGSIZE then .sleep () .begin
      else .go { s with outstanding := s.outstanding + 1 } .began (some .began)
  | .began => .release (.op []) none
  | .log ws b => .go { s with lh := s.lh.add b } (.logged (b :: ws)) none
  | .logged ws => .release (.op ws) none
  | .endOp =>
      if s.committing then
        .go { s with outstanding := s.outstanding - 1 } .halted (some .panicked)
      else if s.outstanding - 1 = 0 then
        .go { s with outstanding := s.outstanding - 1, committing := true } .endCommit
          (some .ended)
      else .go { s with outstanding := s.outstanding - 1 } .endWake (some .ended)
  | .endWake => .wakeup () .ended
  | .ended => .release .idle none
  | .endCommit => .release .commit none
  | .finish => .go { s with committing := false } .finishWake none
  | .finishWake => .wakeup () .finished
  | .finished => .release .idle none
  | t => .release t none

/-- The code of the processes `ι`. -/
def code (ι : Type) : Monitor ι LogState Place Unit FsCall LogEvent where
  outer _ k s t := outer s k t
  inner _ _ s t := inner s t

/-- What system calls do: each of them gives at most `m` different blocks to `log_write`, all of
them of the file system, and each as often as it likes. -/
def FsCalls (m : ℕ) : FsCall → Prop
  | .write ws b _ => (b :: ws).toFinset.card ≤ m ∧ inodestart ≤ b
  | _ => True

instance (m : ℕ) : DecidablePred (FsCalls m) := fun k => by
  cases k <;> dsimp only [FsCalls] <;> infer_instance

/-- The log after `initlog` on the disk `d`. -/
def boot (ι : Type) (d : Disk) : MonState ι LogState Place Unit :=
  ⟨⟨⟨0, fun _ => 0⟩, 0, false, d, d⟩, none, fun _ => .outside .idle⟩

lemma boot_fresh {ι : Type} (d : Disk) : Fresh (boot ι d) := ⟨rfl, fun _ => ⟨.idle, rfl⟩⟩

/-! ### Moves -/

/-- The moves that change nothing but the place. -/
inductive Quiet (s : LogState) : Place → Place → Prop
  | stay {t : Place} : Quiet s t t
  | begin : Quiet s .idle .begin
  | began : Quiet s .began (.op [])
  | logged {ws : List ℕ} : Quiet s (.logged ws) (.op ws)
  | endOp {ws : List ℕ} : Quiet s (.op ws) .endOp
  | ended : Quiet s .endWake .ended
  | idle : Quiet s .ended .idle
  | commit : Quiet s .endCommit .commit
  | nothing (h : s.lh.n = 0) : Quiet s .commit .finish
  | writeLog (h : s.lh.n > 0) : Quiet s .commit (.writeLog 0)
  | writeHead {tail : ℕ} (h : s.lh.n ≤ tail) : Quiet s (.writeLog tail) .writeHead
  | finish : Quiet s .cleared .finish
  | finished : Quiet s .finishWake .finished
  | done : Quiet s .finished .idle

/-- The moves of a process, with the calls restricted to `FsCalls m`. -/
inductive Move (m : ℕ) (s : LogState) : Place → LogState → Place → Option LogEvent → Prop
  | quiet {t t' : Place} (h : Quiet s t t') : Move m s t s t' none
  | begins (hc : s.committing = false)
      (hroom : s.lh.n + (s.outstanding + 1) * MAXOPBLOCKS ≤ LOGSIZE) :
      Move m s .begin { s with outstanding := s.outstanding + 1 } .began (some .began)
  | write {ws : List ℕ} {b : ℕ} {data : Block} (hm : (b :: ws).toFinset.card ≤ m)
      (hb : inodestart ≤ b) :
      Move m s (.op ws) { s with cache := Function.update s.cache b data } (.check ws b)
        (some (.wrote b data))
  | checked {ws : List ℕ} {b : ℕ} (hn : s.lh.n < nlog - 1) :
      Move m s (.check ws b) s (.log ws b) none
  | overflow {ws : List ℕ} {b : ℕ} (h : nlog - 1 ≤ s.lh.n ∨ s.outstanding < 1) :
      Move m s (.check ws b) s .halted (some .panicked)
  | log {ws : List ℕ} {b : ℕ} :
      Move m s (.log ws b) { s with lh := s.lh.add b } (.logged (b :: ws)) none
  | endPanic (hc : s.committing = true) :
      Move m s .endOp { s with outstanding := s.outstanding - 1 } .halted (some .panicked)
  | endWake (hc : s.committing = false) (ho : s.outstanding - 1 ≠ 0) :
      Move m s .endOp { s with outstanding := s.outstanding - 1 } .endWake (some .ended)
  | endCommit (hc : s.committing = false) (ho : s.outstanding - 1 = 0) :
      Move m s .endOp { s with outstanding := s.outstanding - 1, committing := true } .endCommit
        (some .ended)
  | writeLog {tail : ℕ} (h : tail < s.lh.n) :
      Move m s (.writeLog tail) (s.writeLog tail) (.writeLog (tail + 1)) none
  | writeHead : Move m s .writeHead s.writeHead (.install 0) (some .committed)
  | install {tail : ℕ} (h : tail < s.lh.n) :
      Move m s (.install tail) (s.install tail) (.install (tail + 1)) none
  | clear {tail : ℕ} (h : s.lh.n ≤ tail) :
      Move m s (.install tail) { s with lh := { s.lh with n := 0 } } .clearHead none
  | clearHead : Move m s .clearHead s.writeHead .cleared none
  | finish : Move m s .finish { s with committing := false } .finishWake none

section Moves

variable {m : ℕ} {s s' : LogState} {t t' : Place} {e : Option LogEvent}

lemma inner_move (h : inner s t = .go s' t' e) : Move m s t s' t' e := by
  cases t with
  | begin =>
      simp only [inner] at h
      split_ifs at h with hc hroom
      obtain ⟨rfl, rfl, rfl⟩ := Inner.go.inj h
      exact .begins (by simpa using hc) (by omega)
  | log ws b =>
      obtain ⟨rfl, rfl, rfl⟩ := Inner.go.inj h
      exact .log
  | endOp =>
      simp only [inner] at h
      split_ifs at h with hc ho
      · obtain ⟨rfl, rfl, rfl⟩ := Inner.go.inj h
        exact .endPanic hc
      · obtain ⟨rfl, rfl, rfl⟩ := Inner.go.inj h
        exact .endCommit (by simpa using hc) ho
      · obtain ⟨rfl, rfl, rfl⟩ := Inner.go.inj h
        exact .endWake (by simpa using hc) ho
  | finish =>
      obtain ⟨rfl, rfl, rfl⟩ := Inner.go.inj h
      exact .finish
  | _ => simp [inner] at h

lemma inner_wakeup {c : Unit} (h : inner s t = .wakeup c t') :
    (t = .endWake ∧ t' = .ended) ∨ (t = .finishWake ∧ t' = .finished) := by
  cases t with
  | begin | endOp =>
      simp only [inner] at h
      split_ifs at h
  | endWake =>
      obtain ⟨-, rfl⟩ := Inner.wakeup.inj h
      exact Or.inl ⟨rfl, rfl⟩
  | finishWake =>
      obtain ⟨-, rfl⟩ := Inner.wakeup.inj h
      exact Or.inr ⟨rfl, rfl⟩
  | _ => simp [inner] at h

lemma inner_sleep {c : Unit} (h : inner s t = .sleep c t') : t = .begin ∧ t' = .begin ∧
    (s.committing = true ∨ LOGSIZE < s.lh.n + (s.outstanding + 1) * MAXOPBLOCKS) := by
  cases t with
  | begin =>
      simp only [inner] at h
      split_ifs at h with hc hroom
      · obtain ⟨-, rfl⟩ := Inner.sleep.inj h
        exact ⟨rfl, rfl, Or.inl hc⟩
      · obtain ⟨-, rfl⟩ := Inner.sleep.inj h
        exact ⟨rfl, rfl, Or.inr hroom⟩
  | endOp =>
      simp only [inner] at h
      split_ifs at h
  | _ => simp [inner] at h

lemma inner_release (h : inner s t = .release t' e) : Quiet s t t' ∧ e = none := by
  cases t with
  | begin | endOp =>
      simp only [inner] at h
      split_ifs at h
  | log ws b | endWake | finish | finishWake => simp [inner] at h
  | began =>
      obtain ⟨rfl, rfl⟩ := Inner.release.inj h
      exact ⟨.began, rfl⟩
  | logged ws =>
      obtain ⟨rfl, rfl⟩ := Inner.release.inj h
      exact ⟨.logged, rfl⟩
  | ended =>
      obtain ⟨rfl, rfl⟩ := Inner.release.inj h
      exact ⟨.idle, rfl⟩
  | endCommit =>
      obtain ⟨rfl, rfl⟩ := Inner.release.inj h
      exact ⟨.commit, rfl⟩
  | finished =>
      obtain ⟨rfl, rfl⟩ := Inner.release.inj h
      exact ⟨.done, rfl⟩
  | _ =>
      obtain ⟨rfl, rfl⟩ := Inner.release.inj h
      exact ⟨.stay, rfl⟩

lemma outer_enter {k : FsCall} (h : outer s k t = .enter t') : Move m s t s t' none := by
  cases k with
  | begin =>
      cases t with
      | idle =>
          obtain rfl := Outer.enter.inj h
          exact .quiet .begin
      | _ => cases h
  | write ws b data =>
      cases t with
      | op ws' =>
          simp only [outer] at h
          split_ifs at h
      | _ => cases h
  | finish =>
      cases t with
      | op ws =>
          obtain rfl := Outer.enter.inj h
          exact .quiet .endOp
      | _ => cases h
  | go =>
      cases t with
      | check ws b =>
          simp only [outer] at h
          split_ifs at h with hn ho
          obtain rfl := Outer.enter.inj h
          exact .checked (by omega)
      | commit =>
          simp only [outer] at h
          split_ifs at h with hn
          obtain rfl := Outer.enter.inj h
          exact .quiet (.nothing (by omega))
      | writeLog tail | install tail =>
          simp only [outer] at h
          split_ifs at h
      | cleared =>
          obtain rfl := Outer.enter.inj h
          exact .quiet .finish
      | _ => cases h

lemma outer_move {k : FsCall} (hk : FsCalls m k) (h : outer s k t = .go s' t' e) :
    Move m s t s' t' e := by
  cases k with
  | begin | finish => cases t <;> cases h
  | write ws b data =>
      cases t with
      | op ws' =>
          simp only [outer] at h
          split_ifs at h with hws
          obtain ⟨rfl, rfl, rfl⟩ := Outer.go.inj h
          subst hws
          exact .write hk.1 hk.2
      | _ => cases h
  | go =>
      cases t with
      | check ws b =>
          simp only [outer] at h
          split_ifs at h with hn ho
          · obtain ⟨rfl, rfl, rfl⟩ := Outer.go.inj h
            exact .overflow (Or.inl (hn.elim (le_trans (by decide)) id))
          · obtain ⟨rfl, rfl, rfl⟩ := Outer.go.inj h
            exact .overflow (Or.inr ho)
      | commit =>
          simp only [outer] at h
          split_ifs at h with hn
          obtain ⟨rfl, rfl, rfl⟩ := Outer.go.inj h
          exact .quiet (.writeLog hn)
      | writeLog tail =>
          simp only [outer] at h
          split_ifs at h with hn
          · obtain ⟨rfl, rfl, rfl⟩ := Outer.go.inj h
            exact .writeLog hn
          · obtain ⟨rfl, rfl, rfl⟩ := Outer.go.inj h
            exact .quiet (.writeHead (by omega))
      | writeHead =>
          obtain ⟨rfl, rfl, rfl⟩ := Outer.go.inj h
          exact .writeHead
      | install tail =>
          simp only [outer] at h
          split_ifs at h with hn
          · obtain ⟨rfl, rfl, rfl⟩ := Outer.go.inj h
            exact .install hn
          · obtain ⟨rfl, rfl, rfl⟩ := Outer.go.inj h
            exact .clear (by omega)
      | clearHead =>
          obtain ⟨rfl, rfl, rfl⟩ := Outer.go.inj h
          exact .clearHead
      | _ => cases h

/-- What a step does to the log and to the place of its process. -/
lemma effect_move {ι : Type} {i : ι} (h : Effect (code ι) (FsCalls m) i s t s' t' e) :
    Move m s t s' t' e := by
  cases h with
  | stay => exact .quiet .stay
  | enter hk hm => exact outer_enter hm
  | outer hk hm => exact outer_move hk hm
  | go hm => exact inner_move hm
  | wakeup hm =>
      rcases inner_wakeup hm with ⟨rfl, rfl⟩ | ⟨rfl, rfl⟩
      · exact .quiet .ended
      · exact .quiet .finished
  | sleep hm =>
      obtain ⟨rfl, rfl, -⟩ := inner_sleep hm
      exact .quiet .stay
  | release hm =>
      obtain ⟨hq, rfl⟩ := inner_release hm
      exact .quiet hq

end Moves

end Log

end Xv6Lottery
