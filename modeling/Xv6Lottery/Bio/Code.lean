import Xv6Lottery.Library.Links
import Xv6Lottery.Library.Sections
import Mathlib.Data.List.FinRange

/-!
`bio.c` and `ide.c`: the cache of disk blocks, and the driver of the disk under it.

* `Buf`, `Cache`: `struct buf`; `bcache`, with its list of buffers through `prev` and `next`, the
  queue of the driver, the drive and the disks. What is in a block does not matter to this code,
  and is of any type `β`.
* `Place`, `call`, `cont`: `bread` with `bget`, `bwrite`, `brelse` and `iderw`, by any number of
  processes. The sections of `bcache.lock`, `idelock` and the spinlocks of the sleeplocks are
  single steps; a process that waits for a buffer or for the disk sleeps.
* `Command`, `taskFile`: what `idestart` tells the drive through its registers.
* `complete`, `ideintr`: the drive ends a command, and the interrupt that follows.
* `Careful`: the rules for those who use buffers.
* `Moves`, `Refuses`: the steps of a process one by one, read off the code by `thread_moves`.
-/

namespace Xv6Lottery.Bio

open Library

/-- `FSSIZE` -/
abbrev FSSIZE : ℕ := 1000

/-- A block: its device and its number. -/
abbrev Key := ℕ × ℕ

variable {ι β : Type} {n : ℕ}

/-! ### State -/

/-- `struct buf` without its links. The sleeplock is given by the process that has locked it. -/
structure Buf (ι β : Type) where
  valid : Bool
  dirty : Bool
  dev : ℕ
  blockno : ℕ
  lock : Option ι
  refcnt : ℕ
  data : β

/-- The block that the buffer is for. -/
def Buf.key (b : Buf ι β) : Key := (b.dev, b.blockno)

/-- A command to the drive: the disk, the sector, and what to write there. -/
structure Command (β : Type) where
  unit : ℕ
  lba : ℕ
  write : Option β

/-- The drive. When it is done it raises its interrupt, and a sector that it has read can be
fetched. -/
inductive Drive (β : Type)
  | idle
  | busy (c : Command β)
  | done (r : Option β)

/-- `bcache` with `n = NBUF` buffers, `idequeue` linked through `qnext` as a list, and the
hardware. -/
structure Cache (ι β : Type) (n : ℕ) where
  buf : Fin n → Buf ι β
  links : Links (Fin n)
  queue : List (Fin n)
  drive : Drive β
  disk : Key → β
  havedisk1 : Bool

namespace Cache

/-- One buffer changes. -/
def setBuf (s : Cache ι β n) (b : Fin n) (x : Buf ι β) : Cache ι β n :=
  { s with buf := Function.update s.buf b x }

end Cache

/-- The loop of `binit`. -/
def binit (n : ℕ) : Links (Fin n) := (List.finRange n).foldl Links.pushFront Links.empty

/-- The cache after `binit` and `ideinit`. The buffers are all zero, so that all of them are for
block 0 of device 0. -/
def boot (n : ℕ) (zero : β) (disk : Key → β) (havedisk1 : Bool) : Cache ι β n where
  buf _ := ⟨false, false, 0, 0, none, 0, zero⟩
  links := binit n
  queue := []
  drive := .idle
  disk := disk
  havedisk1 := havedisk1

/-! ### The drive -/

/-- The number of the first sector; a block is one sector. -/
def Buf.sector (b : Buf ι β) : ℕ := b.blockno * (512 / 512)

/-- What `idestart` writes to the registers 0x1f3 to 0x1f6. -/
def Buf.taskFile (b : Buf ι β) : ℕ × ℕ × ℕ × ℕ :=
  (b.sector &&& 0xff, (b.sector >>> 8) &&& 0xff, (b.sector >>> 16) &&& 0xff,
    0xe0 ||| ((b.dev &&& 1) <<< 4) ||| ((b.sector >>> 24) &&& 0x0f))

/-- What the drive reads from these registers. -/
def Command.ofRegisters (r : ℕ × ℕ × ℕ × ℕ) (write : Option β) : Command β where
  unit := (r.2.2.2 >>> 4) &&& 1
  lba := r.1 + r.2.1 * 2 ^ 8 + r.2.2.1 * 2 ^ 16 + (r.2.2.2 &&& 0x0f) * 2 ^ 24
  write := write

/-- The command for a buffer: to write it if it is dirty, and to read it otherwise. -/
def Buf.command (b : Buf ι β) : Command β :=
  .ofRegisters b.taskFile (if b.dirty then some b.data else none)

namespace Cache

variable (s : Cache ι β n)

/-- `idestart`. As long as the drive is busy, `idewait` does not return. -/
def idestart (b : Fin n) : Option (Except String (Cache ι β n)) :=
  if (s.buf b).blockno ≥ FSSIZE then some (.error "incorrect blockno")
  else
    match s.drive with
    | .busy _ => none
    | _ => some (.ok { s with drive := .busy (s.buf b).command })

end Cache

/-- The steps of the hardware: the drive ends a command, with an error or without one, and its
interrupt is taken. -/
inductive Hardware
  | complete (err : Bool)
  | ideintr

/-- The channels: `&b->lock` and `b`. -/
inductive Chan (n : ℕ)
  | lock (b : Fin n)
  | disk (b : Fin n)
  deriving DecidableEq

/-- What is seen: the ends of the calls and the changes to the data, with the block and its
contents, and panics. -/
inductive BioEvent (ι β : Type)
  | bread (i : ι) (k : Key) (data : β)
  | modify (i : ι) (k : Key) (data : β)
  | bwrite (i : ι) (k : Key) (data : β)
  | brelse (i : ι) (k : Key) (data : β)
  | panic (msg : String)
  deriving DecidableEq

namespace Cache

variable (s : Cache ι β n)

/-- The drive ends its command. -/
def complete (err : Bool) : Option (Cache ι β n) :=
  match s.drive with
  | .busy c =>
      match c.write, err with
      | some data, false =>
          some { s with drive := .done none, disk := Function.update s.disk (c.unit, c.lba) data }
      | none, false => some { s with drive := .done (some (s.disk (c.unit, c.lba))) }
      | _, true => some { s with drive := .done none }
  | _ => none

/-- The buffer of the request that the drive has done. A sector is only fetched if there was no
error, but the buffer becomes valid all the same. -/
def fetched (x : Buf ι β) (r : Option β) : Buf ι β :=
  { x with valid := true, dirty := false, data := if x.dirty then x.data else r.getD x.data }

/-- `ideintr` -/
def ideintr : Option (Cache ι β n × List (Chan n) × Option (BioEvent ι β)) :=
  match s.drive, s.queue with
  | .done _, [] => some ({ s with drive := .idle }, [], none)
  | .done r, b :: q =>
      let s' := { s.setBuf b (fetched (s.buf b) r) with queue := q, drive := .idle }
      match q with
      | [] => some (s', [.disk b], none)
      | c :: _ =>
          match s'.idestart c with
          | none => none
          | some (.error msg) => some (s', [.disk b], some (.panic msg))
          | some (.ok s'') => some (s'', [.disk b], none)
  | _, _ => none

end Cache

/-- The steps of the hardware on the cache. -/
def hardware : Hardware → Cache ι β n →
    Option (Cache ι β n × List (Chan n) × Option (BioEvent ι β))
  | .complete err, s => (s.complete err).map fun s' => (s', [], none)
  | .ideintr, s => s.ideintr

/-! ### The code -/

/-- The calls of a process, and what it does with the data of a buffer: it changes them, or sets
`B_DIRTY` as `log_write` does. -/
inductive BioCall (β : Type) (n : ℕ)
  | bread (dev blockno : ℕ)
  | modify (b : Fin n) (data : β)
  | mark (b : Fin n)
  | bwrite (b : Fin n)
  | brelse (b : Fin n)
  /-- it goes on with the call that it is in -/
  | go

/-- Who has called `iderw`. -/
inductive Caller
  | bread (dev blockno : ℕ)
  | bwrite
  deriving DecidableEq, Repr

/-- Where a process is. -/
inductive Place (n : ℕ)
  /-- outside -/
  | user
  /-- `bget`, at its beginning -/
  | bget (dev blockno : ℕ)
  /-- `bget`: at `acquiresleep(&b->lock)` -/
  | lockBuf (b : Fin n) (dev blockno : ℕ)
  /-- `bread`: at the test of `B_VALID` -/
  | check (b : Fin n) (dev blockno : ℕ)
  /-- `iderw`: at its checks -/
  | iderw (b : Fin n) (r : Caller)
  /-- `iderw`: at `acquire(&idelock)` -/
  | enqueue (b : Fin n) (r : Caller)
  /-- `iderw`: at the test of its loop -/
  | await (b : Fin n) (r : Caller)
  /-- `brelse`: at `releasesleep(&b->lock)` -/
  | release (b : Fin n)
  /-- `brelse`: at `acquire(&bcache.lock)` -/
  | drop (b : Fin n)
  /-- after a `panic` -/
  | halted
  deriving DecidableEq, Repr

namespace Cache

variable (s : Cache ι β n)

/-- The first loop of `bget`. -/
def lookup (k : Key) : Option (Option (Fin n)) :=
  search s.links.next (fun b => (s.buf b).key = k) (n + 1) (s.links.next none)

/-- The second loop of `bget`. -/
def victim : Option (Option (Fin n)) :=
  search s.links.prev (fun b => (s.buf b).refcnt = 0 ∧ (s.buf b).dirty = false) (n + 1)
    (s.links.prev none)

/-- A buffer that is found gets one more reference. -/
def addRef (b : Fin n) : Cache ι β n :=
  s.setBuf b { s.buf b with refcnt := (s.buf b).refcnt + 1 }

/-- A buffer is recycled for another block. -/
def recycle (b : Fin n) (k : Key) : Cache ι β n :=
  s.setBuf b { s.buf b with
    dev := k.1, blockno := k.2, valid := false, dirty := false, refcnt := 1 }

/-- The section of `bcache.lock` in `brelse`. -/
def unref (b : Fin n) : Cache ι β n :=
  let s' := s.setBuf b { s.buf b with refcnt := (s.buf b).refcnt - 1 }
  if (s.buf b).refcnt - 1 = 0 then { s' with links := (s.links.unlink b).pushFront b } else s'

end Cache

/-- The step of a process. -/
abbrev Move (ι β : Type) (n : ℕ) := Section (Cache ι β n) (Place n) (Chan n) (BioEvent ι β)

/-- `panic` -/
def panic (s : Cache ι β n) (msg : String) : Move ι β n := .go s .halted [] (some (.panic msg))

variable [DecidableEq ι]

/-- The start of a call. -/
def call (i : ι) (s : Cache ι β n) : BioCall β n → Move ι β n
  | .bread dev blockno => .go s (.bget dev blockno) [] none
  | .modify b data =>
      .go (s.setBuf b { s.buf b with data := data }) .user [] (some (.modify i (s.buf b).key data))
  | .mark b => .go (s.setBuf b { s.buf b with dirty := true }) .user [] none
  | .bwrite b =>
      if (s.buf b).lock = some i then
        .go (s.setBuf b { s.buf b with dirty := true }) (.iderw b .bwrite) [] none
      else panic s "bwrite"
  | .brelse b =>
      if (s.buf b).lock = some i then .go s (.release b) [] none else panic s "brelse"
  | .go => .blocked

/-- The end of a call that used the disk. -/
def finish (i : ι) (s : Cache ι β n) (b : Fin n) : Caller → Move ι β n
  | .bread dev blockno => .go s .user [] (some (.bread i (dev, blockno) (s.buf b).data))
  | .bwrite => .go s .user [] (some (.bwrite i (s.buf b).key (s.buf b).data))

/-- The next step of a call. -/
def cont (i : ι) (s : Cache ι β n) : Place n → Move ι β n
  | .bget dev blockno =>
      match s.lookup (dev, blockno) with
      | none => .blocked
      | some (some b) => .go (s.addRef b) (.lockBuf b dev blockno) [] none
      | some none =>
          match s.victim with
          | none => .blocked
          | some (some b) => .go (s.recycle b (dev, blockno)) (.lockBuf b dev blockno) [] none
          | some none => panic s "bget: no buffers"
  | .lockBuf b dev blockno =>
      if (s.buf b).lock.isSome then .sleep (.lock b) (.lockBuf b dev blockno)
      else .go (s.setBuf b { s.buf b with lock := some i }) (.check b dev blockno) [] none
  | .check b dev blockno =>
      if (s.buf b).valid then finish i s b (.bread dev blockno)
      else .go s (.iderw b (.bread dev blockno)) [] none
  | .iderw b r =>
      if (s.buf b).lock ≠ some i then panic s "iderw: buf not locked"
      else if (s.buf b).valid ∧ (s.buf b).dirty = false then panic s "iderw: nothing to do"
      else if (s.buf b).dev ≠ 0 ∧ s.havedisk1 = false then
        panic s "iderw: ide disk 1 not present"
      else .go s (.enqueue b r) [] none
  | .enqueue b r =>
      let s' := { s with queue := s.queue ++ [b] }
      if s'.queue.head? = some b then
        match s'.idestart b with
        | none => .blocked
        | some (.error msg) => panic s' msg
        | some (.ok s'') => .go s'' (.await b r) [] none
      else .go s' (.await b r) [] none
  | .await b r =>
      if (s.buf b).valid ∧ (s.buf b).dirty = false then finish i s b r
      else .sleep (.disk b) (.await b r)
  | .release b =>
      .go (s.setBuf b { s.buf b with lock := none }) (.drop b) [.lock b]
        (some (.brelse i (s.buf b).key (s.buf b).data))
  | .drop b => .go (s.unref b) .user [] none
  | .user | .halted => .blocked

/-- The code of a process. -/
def thread (i : ι) (k : BioCall β n) (s : Cache ι β n) : Place n → Move ι β n
  | .user => call i s k
  | t =>
      match k with
      | .go => cont i s t
      | _ => .blocked

variable (ι β n) in
/-- The processes and the hardware. -/
def code : Sections ι (Cache ι β n) (Place n) (Chan n) (BioCall β n) Hardware (BioEvent ι β) where
  thread := thread
  env := hardware

/-- The whole system. -/
abbrev Sys (ι β : Type) (n : ℕ) := SecState ι (Cache ι β n) (Place n) (Chan n)

/-- The actions of the system. -/
abbrev Act (ι β : Type) (n : ℕ) := SecAct ι (BioCall β n) Hardware

/-- The system after `binit` and `ideinit`. -/
def start (n : ℕ) (zero : β) (disk : Key → β) (havedisk1 : Bool) : Sys ι β n :=
  ⟨boot n zero disk havedisk1, fun _ => .user, fun _ => none⟩

/-- The blocks that there are. -/
def Exists (havedisk1 : Bool) (k : Key) : Prop :=
  (k.1 = 0 ∨ k.1 = 1 ∧ havedisk1 = true) ∧ k.2 < FSSIZE

instance (havedisk1 : Bool) (k : Key) : Decidable (Exists havedisk1 k) :=
  inferInstanceAs (Decidable (_ ∧ _))

/-- The rules: only blocks that exist are asked for, only buffers that the process has locked are
used, a buffer is not given back when its data differ from the disk unless it is marked dirty;
and the drive makes no errors. -/
def Careful (s : Sys ι β n) : Act ι β n → Prop
  | .run _ (.bread dev blockno) => Exists s.shared.havedisk1 (dev, blockno)
  | .run i (.modify b _) | .run i (.mark b) | .run i (.bwrite b) =>
      (s.shared.buf b).lock = some i
  | .run i (.brelse b) => (s.shared.buf b).lock = some i ∧
      ((s.shared.buf b).dirty = true ∨ (s.shared.buf b).data = s.shared.disk (s.shared.buf b).key)
  | .env (.complete err) => err = false
  | _ => True

instance [DecidableEq β] (s : Sys ι β n) (a : Act ι β n) : Decidable (Careful s a) := by
  rcases a with ⟨i, k⟩ | h | i
  · cases k <;> dsimp only [Careful] <;> infer_instance
  · cases h <;> dsimp only [Careful] <;> infer_instance
  · exact isTrue trivial

/-! ### Steps -/

/-- The checks of the code that fail with a `panic`, other than the one of `bget`. -/
inductive Refuses (i : ι) (s : Cache ι β n) : BioCall β n → Place n → Prop
  | bwrite {b : Fin n} (h : (s.buf b).lock ≠ some i) : Refuses i s (.bwrite b) .user
  | brelse {b : Fin n} (h : (s.buf b).lock ≠ some i) : Refuses i s (.brelse b) .user
  | unlocked {b : Fin n} {r : Caller} (h : (s.buf b).lock ≠ some i) :
      Refuses i s .go (.iderw b r)
  | nothing {b : Fin n} {r : Caller} (h : (s.buf b).valid ∧ (s.buf b).dirty = false) :
      Refuses i s .go (.iderw b r)
  | absent {b : Fin n} {r : Caller} (h : (s.buf b).dev ≠ 0 ∧ s.havedisk1 = false) :
      Refuses i s .go (.iderw b r)
  | blockno {b : Fin n} {r : Caller} (h : (s.buf b).blockno ≥ FSSIZE) :
      Refuses i s .go (.enqueue b r)

/-- The steps of a process. -/
inductive Moves (i : ι) (s : Cache ι β n) : BioCall β n → Place n →
    Cache ι β n → Place n → List (Chan n) → Option (BioEvent ι β) → Prop
  | bread {dev blockno : ℕ} :
      Moves i s (.bread dev blockno) .user s (.bget dev blockno) [] none
  | modify {b : Fin n} {data : β} :
      Moves i s (.modify b data) .user (s.setBuf b { s.buf b with data := data }) .user []
        (some (.modify i (s.buf b).key data))
  | mark {b : Fin n} :
      Moves i s (.mark b) .user (s.setBuf b { s.buf b with dirty := true }) .user [] none
  | bwrite {b : Fin n} (h : (s.buf b).lock = some i) :
      Moves i s (.bwrite b) .user (s.setBuf b { s.buf b with dirty := true })
        (.iderw b .bwrite) [] none
  | brelse {b : Fin n} (h : (s.buf b).lock = some i) :
      Moves i s (.brelse b) .user s (.release b) [] none
  | found {b : Fin n} {dev blockno : ℕ} (h : s.lookup (dev, blockno) = some (some b)) :
      Moves i s .go (.bget dev blockno) (s.addRef b) (.lockBuf b dev blockno) [] none
  | recycled {b : Fin n} {dev blockno : ℕ} (h : s.lookup (dev, blockno) = some none)
      (hb : s.victim = some (some b)) :
      Moves i s .go (.bget dev blockno) (s.recycle b (dev, blockno)) (.lockBuf b dev blockno)
        [] none
  | full {dev blockno : ℕ} (h : s.lookup (dev, blockno) = some none)
      (hb : s.victim = some none) :
      Moves i s .go (.bget dev blockno) s .halted [] (some (.panic "bget: no buffers"))
  | lock {b : Fin n} {dev blockno : ℕ} (h : (s.buf b).lock = none) :
      Moves i s .go (.lockBuf b dev blockno) (s.setBuf b { s.buf b with lock := some i })
        (.check b dev blockno) [] none
  | cached {b : Fin n} {dev blockno : ℕ} (h : (s.buf b).valid = true) :
      Moves i s .go (.check b dev blockno) s .user []
        (some (.bread i (dev, blockno) (s.buf b).data))
  | fetch {b : Fin n} {dev blockno : ℕ} (h : (s.buf b).valid = false) :
      Moves i s .go (.check b dev blockno) s (.iderw b (.bread dev blockno)) [] none
  | checked {b : Fin n} {r : Caller} (h : (s.buf b).lock = some i) :
      Moves i s .go (.iderw b r) s (.enqueue b r) [] none
  | start {b : Fin n} {r : Caller} (hq : (s.queue ++ [b]).head? = some b)
      (hd : ∀ c, s.drive ≠ .busy c) :
      Moves i s .go (.enqueue b r)
        { s with queue := s.queue ++ [b], drive := .busy (s.buf b).command } (.await b r) [] none
  | enqueue {b : Fin n} {r : Caller} (hq : (s.queue ++ [b]).head? ≠ some b) :
      Moves i s .go (.enqueue b r) { s with queue := s.queue ++ [b] } (.await b r) [] none
  | fetched {b : Fin n} {dev blockno : ℕ} (h : (s.buf b).valid ∧ (s.buf b).dirty = false) :
      Moves i s .go (.await b (.bread dev blockno)) s .user []
        (some (.bread i (dev, blockno) (s.buf b).data))
  | written {b : Fin n} (h : (s.buf b).valid ∧ (s.buf b).dirty = false) :
      Moves i s .go (.await b .bwrite) s .user []
        (some (.bwrite i (s.buf b).key (s.buf b).data))
  | release {b : Fin n} :
      Moves i s .go (.release b) (s.setBuf b { s.buf b with lock := none }) (.drop b) [.lock b]
        (some (.brelse i (s.buf b).key (s.buf b).data))
  | drop {b : Fin n} : Moves i s .go (.drop b) (s.unref b) .user [] none
  | refused {k : BioCall β n} {t : Place n} {s' : Cache ι β n} {msg : String}
      (h : Refuses i s k t) : Moves i s k t s' .halted [] (some (.panic msg))

section Moves

variable {i : ι} {s s' : Cache ι β n} {k : BioCall β n} {t t' : Place n} {cs : List (Chan n)}
  {e : Option (BioEvent ι β)}

lemma call_moves (h : call i s k = .go s' t' cs e) : Moves i s k .user s' t' cs e := by
  cases k with
  | bread dev blockno =>
      obtain ⟨rfl, rfl, rfl, rfl⟩ := Section.go.inj h
      exact .bread
  | modify b data =>
      obtain ⟨rfl, rfl, rfl, rfl⟩ := Section.go.inj h
      exact .modify
  | mark b =>
      obtain ⟨rfl, rfl, rfl, rfl⟩ := Section.go.inj h
      exact .mark
  | bwrite b =>
      simp only [call] at h
      split_ifs at h with hb
      · obtain ⟨rfl, rfl, rfl, rfl⟩ := Section.go.inj h
        exact .bwrite hb
      · obtain ⟨rfl, rfl, rfl, rfl⟩ := Section.go.inj h
        exact .refused (.bwrite hb)
  | brelse b =>
      simp only [call] at h
      split_ifs at h with hb
      · obtain ⟨rfl, rfl, rfl, rfl⟩ := Section.go.inj h
        exact .brelse hb
      · obtain ⟨rfl, rfl, rfl, rfl⟩ := Section.go.inj h
        exact .refused (.brelse hb)
  | go => cases h

lemma bget_moves {dev blockno : ℕ} (h : cont i s (.bget dev blockno) = .go s' t' cs e) :
    Moves i s .go (.bget dev blockno) s' t' cs e := by
  simp only [cont] at h
  split at h
  · cases h
  · obtain ⟨rfl, rfl, rfl, rfl⟩ := Section.go.inj h
    exact .found ‹_›
  · split at h
    · cases h
    · obtain ⟨rfl, rfl, rfl, rfl⟩ := Section.go.inj h
      exact .recycled ‹_› ‹_›
    · obtain ⟨rfl, rfl, rfl, rfl⟩ := Section.go.inj h
      exact .full ‹_› ‹_›

lemma iderw_moves {b : Fin n} {r : Caller} (h : cont i s (.iderw b r) = .go s' t' cs e) :
    Moves i s .go (.iderw b r) s' t' cs e := by
  simp only [cont] at h
  split_ifs at h with hl hn hd
  · obtain ⟨rfl, rfl, rfl, rfl⟩ := Section.go.inj h
    exact .refused (.unlocked hl)
  · obtain ⟨rfl, rfl, rfl, rfl⟩ := Section.go.inj h
    exact .refused (.nothing hn)
  · obtain ⟨rfl, rfl, rfl, rfl⟩ := Section.go.inj h
    exact .refused (.absent hd)
  · obtain ⟨rfl, rfl, rfl, rfl⟩ := Section.go.inj h
    exact .checked (not_not.mp hl)

lemma enqueue_moves {b : Fin n} {r : Caller} (h : cont i s (.enqueue b r) = .go s' t' cs e) :
    Moves i s .go (.enqueue b r) s' t' cs e := by
  simp only [cont, Cache.idestart] at h
  split_ifs at h with hq hb
  · obtain ⟨rfl, rfl, rfl, rfl⟩ := Section.go.inj h
    exact .refused (.blockno hb)
  · cases hd : s.drive with
    | busy c => simp [hd] at h
    | idle | done =>
        simp only [hd] at h
        obtain ⟨rfl, rfl, rfl, rfl⟩ := Section.go.inj h
        exact .start hq (by simp [hd])
  · obtain ⟨rfl, rfl, rfl, rfl⟩ := Section.go.inj h
    exact .enqueue hq

lemma await_moves {b : Fin n} {r : Caller} (h : cont i s (.await b r) = .go s' t' cs e) :
    Moves i s .go (.await b r) s' t' cs e := by
  simp only [cont] at h
  split_ifs at h with hd
  cases r with
  | bread dev blockno =>
      obtain ⟨rfl, rfl, rfl, rfl⟩ := Section.go.inj h
      exact .fetched hd
  | bwrite =>
      obtain ⟨rfl, rfl, rfl, rfl⟩ := Section.go.inj h
      exact .written hd

lemma cont_moves (h : cont i s t = .go s' t' cs e) : Moves i s .go t s' t' cs e := by
  cases t with
  | user | halted => cases h
  | bget dev blockno => exact bget_moves h
  | lockBuf b dev blockno =>
      simp only [cont] at h
      split_ifs at h with hl
      obtain ⟨rfl, rfl, rfl, rfl⟩ := Section.go.inj h
      exact .lock (by simpa using hl)
  | check b dev blockno =>
      simp only [cont] at h
      split_ifs at h with hv
      · obtain ⟨rfl, rfl, rfl, rfl⟩ := Section.go.inj h
        exact .cached hv
      · obtain ⟨rfl, rfl, rfl, rfl⟩ := Section.go.inj h
        exact .fetch (by simpa using hv)
  | iderw b r => exact iderw_moves h
  | enqueue b r => exact enqueue_moves h
  | await b r => exact await_moves h
  | release b =>
      obtain ⟨rfl, rfl, rfl, rfl⟩ := Section.go.inj h
      exact .release
  | drop b =>
      obtain ⟨rfl, rfl, rfl, rfl⟩ := Section.go.inj h
      exact .drop

/-- A step of the code is one of the steps above. -/
lemma thread_moves (h : thread i k s t = .go s' t' cs e) : Moves i s k t s' t' cs e := by
  cases t with
  | user => exact call_moves h
  | _ =>
      cases k with
      | go => exact cont_moves h
      | _ => cases h

lemma cont_sleep {c : Chan n} (h : cont i s t = .sleep c t') : t' = t ∧
    ((∃ b dev blockno, t = .lockBuf b dev blockno ∧ c = .lock b ∧ (s.buf b).lock.isSome) ∨
      ∃ b r, t = .await b r ∧ c = .disk b ∧ ¬ ((s.buf b).valid ∧ (s.buf b).dirty = false)) := by
  cases t with
  | lockBuf b dev blockno =>
      simp only [cont] at h
      split_ifs at h with hl
      obtain ⟨rfl, rfl⟩ := Section.sleep.inj h
      exact ⟨rfl, Or.inl ⟨b, dev, blockno, rfl, rfl, hl⟩⟩
  | await b r =>
      simp only [cont] at h
      split_ifs at h with hd
      · cases r <;> cases h
      · obtain ⟨rfl, rfl⟩ := Section.sleep.inj h
        exact ⟨rfl, Or.inr ⟨b, r, rfl, rfl, hd⟩⟩
  | bget dev blockno =>
      simp only [cont] at h
      split at h
      · cases h
      · cases h
      · split at h <;> cases h
  | enqueue b r =>
      simp only [cont] at h
      split_ifs at h
      split at h <;> cases h
  | check b dev blockno | iderw b r =>
      simp only [cont] at h
      split_ifs at h <;> cases h
  | user | release b | drop b | halted => cases h

/-- A process goes to sleep in `acquiresleep` or in the loop of `iderw`. -/
lemma thread_sleep {c : Chan n} (h : thread i k s t = .sleep c t') : t' = t ∧
    ((∃ b dev blockno, t = .lockBuf b dev blockno ∧ c = .lock b ∧ (s.buf b).lock.isSome) ∨
      ∃ b r, t = .await b r ∧ c = .disk b ∧ ¬ ((s.buf b).valid ∧ (s.buf b).dirty = false)) := by
  cases t with
  | user =>
      cases k with
      | bwrite b | brelse b =>
          simp only [thread, call] at h
          split_ifs at h
          cases h
      | _ => cases h
  | _ =>
      cases k with
      | go => exact cont_sleep (i := i) h
      | _ => cases h

end Moves

end Xv6Lottery.Bio
