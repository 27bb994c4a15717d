import Xv6Lottery.Bio.Code

/-!
The invariant of the cache of disk blocks.

* `Store`, `StoreStep`: what the processes should see. Every block has contents, at most one
  process at a time has it, and `bread` returns what the last one left there.
* `Buf.command_eq`: what the drive gets through its registers.
* `Inv`: how the cache, the queue and the drive hold the contents of the blocks.
* `Inv.moved`, `Inv.change`, `Inv.recount`: the invariant under the three kinds of steps of a
  process: it goes on without touching the cache, it changes a buffer that it has locked, or it
  changes the number of references to a buffer.
-/

namespace Xv6Lottery.Bio

open Library Sections

variable {ι β : Type} {n : ℕ}

/-! ### The store -/

/-- The blocks: their contents, what of them is on the disk, and who has them. -/
structure Store (ι β : Type) where
  contents : Key → β
  durable : Key → β
  owner : Key → Option ι

/-- The steps of the store. A block is handed out as it is, to one process at a time, which may
change its contents; `bwrite` puts them on the disk. -/
inductive StoreStep [DecidableEq ι] (A : Store ι β) : BioEvent ι β → Store ι β → Prop
  | bread {i : ι} {k : Key} (h : A.owner k = none) :
      StoreStep A (.bread i k (A.contents k)) { A with owner := Function.update A.owner k (some i) }
  | modify {i : ι} {k : Key} {data : β} (h : A.owner k = some i) :
      StoreStep A (.modify i k data) { A with contents := Function.update A.contents k data }
  | bwrite {i : ι} {k : Key} (h : A.owner k = some i) :
      StoreStep A (.bwrite i k (A.contents k))
        { A with durable := Function.update A.durable k (A.contents k) }
  | brelse {i : ι} {k : Key} (h : A.owner k = some i) :
      StoreStep A (.brelse i k (A.contents k)) { A with owner := Function.update A.owner k none }
  | full : StoreStep A (.panic "bget: no buffers") A

/-! ### The drive's registers -/

/-- The drive gets the disk and the sector right. -/
lemma Buf.command_eq {x : Buf ι β} {havedisk1 : Bool} (h : Exists havedisk1 x.key) :
    x.command = ⟨x.dev, x.blockno, if x.dirty then some x.data else none⟩ := by
  obtain ⟨hdev, hblock⟩ := h
  have hdev : x.dev = 0 ∨ x.dev = 1 := hdev.imp id And.left
  have hblock : x.blockno < 1000 := hblock
  have hsector : x.sector = x.blockno := Nat.mul_one _
  have h24 : x.blockno >>> 24 &&& 0x0f = 0 := by
    rw [Nat.shiftRight_eq_div_pow, Nat.div_eq_of_lt (by omega)]
    rfl
  have hlow : ∀ m : ℕ, m &&& 0xff = m % 256 := fun m => Nat.and_two_pow_sub_one_eq_mod m 8
  simp only [command, taskFile, Command.ofRegisters, hsector, h24, hlow, Command.mk.injEq]
  refine ⟨?_, ?_, trivial⟩
  · rcases hdev with h | h <;> rw [h] <;> rfl
  · have hhigh : (0xe0 ||| (x.dev &&& 1) <<< 4 ||| 0) &&& 0x0f = 0 := by
      rcases hdev with h | h <;> rw [h] <;> rfl
    rw [hhigh, Nat.shiftRight_eq_div_pow, Nat.shiftRight_eq_div_pow]
    omega

/-! ### The invariant -/

namespace Cache

variable {s : Cache ι β n} {b c : Fin n} {x : Buf ι β}

@[simp] lemma setBuf_buf_self : (s.setBuf b x).buf b = x := Function.update_self ..

lemma setBuf_buf_ne (h : c ≠ b) : (s.setBuf b x).buf c = s.buf c := Function.update_of_ne h ..

@[simp] lemma setBuf_self : s.setBuf b (s.buf b) = s := by
  simp [setBuf]

end Cache

/-- A buffer that has not been used since `binit`. -/
def Buf.Fresh (x : Buf ι β) : Prop := x.refcnt = 0 ∧ x.valid = false

namespace Place

/-- The process has a reference to `b`, but not its lock. -/
def Pends (b : Fin n) : Place n → Prop
  | .lockBuf c _ _ | .drop c => c = b
  | _ => False

/-- The process is in `bread`, and has locked `b`. -/
def Reads (b : Fin n) : Place n → Prop
  | .check c _ _ | .iderw c (.bread _ _) | .enqueue c (.bread _ _) | .await c (.bread _ _) => c = b
  | _ => False

/-- The process is in `bwrite`. -/
def Writes (b : Fin n) : Place n → Prop
  | .iderw c .bwrite | .enqueue c .bwrite | .await c .bwrite => c = b
  | _ => False

instance (b : Fin n) (t : Place n) : Decidable (t.Writes b) := by
  rcases t with _ | _ | _ | _ | ⟨c, _ | _⟩ | ⟨c, _ | _⟩ | ⟨c, _ | _⟩ | _ | _ | _ <;>
    dsimp only [Writes] <;> infer_instance

/-- A process in `bread` has to do with one buffer. -/
lemma Reads.unique {b : Fin n} {t : Place n} (h : t.Reads b) :
    (∀ c, t.Reads c → c = b) ∧ (∀ c, ¬ t.Pends c) ∧ ∀ c, ¬ t.Writes c := by
  cases t with
  | check c _ _ =>
      obtain rfl : c = b := h
      exact ⟨fun _ hd => hd.symm, fun _ => id, fun _ => id⟩
  | iderw c r | enqueue c r | await c r =>
      cases r with
      | bread dev blockno =>
          obtain rfl : c = b := h
          exact ⟨fun _ hd => hd.symm, fun _ => id, fun _ => id⟩
      | bwrite => exact h.elim
  | _ => exact h.elim

end Place

/-- The flags of a buffer that is to be read or written. -/
def Caller.Asks (x : Buf ι β) : Caller → Prop
  | .bread dev blockno => x.key = (dev, blockno) ∧ x.valid = false ∧ x.dirty = false
  | .bwrite => x.valid = true ∧ x.dirty = true

/-- The buffer is the one that was asked for. -/
def Caller.Gets (x : Buf ι β) : Caller → Prop
  | .bread dev blockno => x.key = (dev, blockno)
  | .bwrite => True

/-- What a process knows at a place. -/
def PlaceOk (s : Cache ι β n) (i : ι) : Place n → Prop
  | .bget dev blockno => Exists s.havedisk1 (dev, blockno)
  | .lockBuf b dev blockno => (s.buf b).key = (dev, blockno)
  | .check b dev blockno => (s.buf b).lock = some i ∧ (s.buf b).key = (dev, blockno)
  | .iderw b r | .enqueue b r => (s.buf b).lock = some i ∧ r.Asks (s.buf b)
  | .await b r => (s.buf b).lock = some i ∧
      (b ∈ s.queue ∧ r.Asks (s.buf b) ∨
        b ∉ s.queue ∧ r.Gets (s.buf b) ∧ (s.buf b).valid = true ∧ (s.buf b).dirty = false ∧
          (s.buf b).data = s.disk (s.buf b).key)
  | .release b => (s.buf b).lock = some i ∧
      ((s.buf b).dirty = true ∨ (s.buf b).data = s.disk (s.buf b).key)
  | .user | .drop _ | .halted => True

/-- What holds of the buffer `b` with the fields `x`. -/
structure BufOk (A : Store ι β) (s : Cache ι β n) (p : ι → Place n) (b : Fin n) (x : Buf ι β) :
    Prop where
  /-- its references are counted -/
  refs : ∃ P : Finset ι, (∀ i, i ∈ P ↔ (p i).Pends b) ∧
    x.refcnt = P.card + x.lock.elim 0 fun _ => 1
  /-- if it is in the queue, then the process that has locked it waits for it -/
  queued : b ∈ s.queue → ∃ i r, x.lock = some i ∧ p i = .await b r
  exist : Exists s.havedisk1 x.key
  dirty : x.dirty = true → x.valid = true
  /-- the process that has got it from `bread` has the block -/
  given : ∀ i, x.lock = some i → ¬ (p i).Reads b → A.owner x.key = some i ∧ x.valid = true
  /-- it holds the contents of the block -/
  kept : x.valid = true → x.data = A.contents x.key
  /-- as long as no process has got it, it is dirty if they are not on the disk -/
  clean : (∀ i, x.lock = some i → (p i).Reads b) → x.valid = true →
    x.dirty = true ∨ x.data = s.disk x.key

/-- The drive works on the request for `b`, or is done with it. -/
def Serves (s : Cache ι β n) (b : Fin n) : Prop :=
  s.drive = .busy (s.buf b).command ∨
    ∃ r, s.drive = .done r ∧
      if (s.buf b).dirty then s.disk (s.buf b).key = (s.buf b).data
      else r = some (s.disk (s.buf b).key)

/-- The drive works on the first request of the queue. -/
def DriveOk (s : Cache ι β n) : Prop :=
  match s.queue with
  | [] => s.drive = .idle
  | b :: _ => Serves s b

/-- The buffer `c` may be behind `b` in the list. -/
def Behind (s : Cache ι β n) (b c : Fin n) : Prop :=
  (s.buf b).key = (s.buf c).key → (s.buf c).Fresh

/-- The list of buffers. Buffers for the same block are behind the first of them, and fresh. -/
def ListOk (s : Cache ι β n) : Prop := ∃ l, Circle s.links l ∧ (∀ b, b ∈ l) ∧ l.Pairwise (Behind s)

/-- The invariant. -/
structure Inv (A : Store ι β) (s : Cache ι β n) (p : ι → Place n) : Prop where
  list : ListOk s
  bufs : ∀ b, BufOk A s p b (s.buf b)
  places : ∀ i, PlaceOk s i (p i)
  nodup : s.queue.Nodup
  drive : DriveOk s
  owned : ∀ k i, A.owner k = some i →
    ∃ b, (s.buf b).key = k ∧ (s.buf b).lock = some i ∧ ¬ (p i).Reads b
  /-- a block that is not in the cache is on the disk -/
  absent : ∀ k, (∀ b, (s.buf b).key = k → (s.buf b).valid = false) → A.contents k = s.disk k
  durable : ∀ k, (∀ i b, (p i).Writes b → (s.buf b).key ≠ k) → s.disk k = A.durable k

/-! ### Frames -/

section Frames

variable {A A' : Store ι β} {s s' : Cache ι β n} {p p' : ι → Place n} {b c : Fin n} {i j : ι}
  {t : Place n} {x : Buf ι β}

/-- A buffer has no references if it is not locked and nobody waits for it. -/
lemma BufOk.refcnt_eq_zero_iff (h : BufOk A s p b x) :
    x.refcnt = 0 ↔ x.lock = none ∧ ∀ i, ¬ (p i).Pends b := by
  obtain ⟨P, hmem, hP⟩ := h.refs
  have hempty : P.card = 0 ↔ ∀ i, ¬ (p i).Pends b := by
    simp only [Finset.card_eq_zero, Finset.eq_empty_iff_forall_notMem, hmem]
  rw [← hempty, hP]
  cases x.lock <;> simp

/-- A buffer that somebody has locked or waits for is not fresh. -/
lemma BufOk.not_fresh_of_lock (h : BufOk A s p b x) (hb : x.lock = some i) : ¬ x.Fresh := by
  rintro ⟨h0, -⟩
  simpa [hb] using (h.refcnt_eq_zero_iff.mp h0).1

lemma BufOk.not_fresh_of_pends (h : BufOk A s p b x) (hb : (p i).Pends b) : ¬ x.Fresh := fun hf =>
  (h.refcnt_eq_zero_iff.mp hf.1).2 i hb

/-- A buffer that is not touched stays as it is. -/
lemma BufOk.frame (h : BufOk A s p b x) (hq : b ∈ s'.queue → b ∈ s.queue)
    (hh : s'.havedisk1 = s.havedisk1) (hpend : ∀ i, (p' i).Pends b ↔ (p i).Pends b)
    (hread : ∀ i, x.lock = some i → ((p' i).Reads b ↔ (p i).Reads b))
    (hwait : ∀ i r, b ∈ s'.queue → p i = .await b r → p' i = .await b r)
    (hkey : ¬ x.Fresh → A'.owner x.key = A.owner x.key ∧ A'.contents x.key = A.contents x.key ∧
      s'.disk x.key = s.disk x.key) : BufOk A' s' p' b x where
  refs := by
    obtain ⟨P, hmem, hP⟩ := h.refs
    exact ⟨P, fun i => (hmem i).trans (hpend i).symm, hP⟩
  queued hb := by
    obtain ⟨i, r, hl, hp⟩ := h.queued (hq hb)
    exact ⟨i, r, hl, hwait i r hb hp⟩
  exist := by
    rw [hh]
    exact h.exist
  dirty := h.dirty
  given i hi hr := by
    rw [(hkey (h.not_fresh_of_lock hi)).1]
    exact h.given i hi fun hr' => hr ((hread i hi).mpr hr')
  kept hv := by
    rw [(hkey fun hf => by simp [hf.2] at hv).2.1]
    exact h.kept hv
  clean hr hv := by
    rw [(hkey fun hf => by simp [hf.2] at hv).2.2]
    exact h.clean (fun i hi => (hread i hi).mp (hr i hi)) hv

/-- What a process knows does not depend on buffers that it has not locked, apart from the block
that a buffer is for if it waits for it. -/
lemma PlaceOk.frame (h : PlaceOk s j t) (hh : s'.havedisk1 = s.havedisk1)
    (hpend : ∀ b, t.Pends b → (s'.buf b).key = (s.buf b).key)
    (hlock : ∀ b, (s.buf b).lock = some j → (∃ r, s'.buf b = { s.buf b with refcnt := r }) ∧
      (b ∈ s'.queue ↔ b ∈ s.queue) ∧ s'.disk (s.buf b).key = s.disk (s.buf b).key) :
    PlaceOk s' j t := by
  cases t with
  | user | halted | drop b => trivial
  | bget dev blockno =>
      rw [PlaceOk, hh]
      exact h
  | lockBuf b dev blockno => exact (hpend b rfl).trans h
  | check b dev blockno =>
      obtain ⟨⟨r, hb⟩, -⟩ := hlock b h.1
      rw [PlaceOk, hb]
      exact h
  | iderw b r | enqueue b r =>
      obtain ⟨⟨m, hb⟩, -⟩ := hlock b h.1
      rw [PlaceOk, hb]
      cases r <;> exact h
  | await b r =>
      obtain ⟨⟨m, hb⟩, hq, hd⟩ := hlock b h.1
      rw [PlaceOk, hb, hq]
      have hd : s'.disk (Buf.key { s.buf b with refcnt := m }) = s.disk (s.buf b).key := hd
      rw [hd]
      cases r <;> exact h
  | release b =>
      obtain ⟨⟨m, hb⟩, -, hd⟩ := hlock b h.1
      rw [PlaceOk, hb]
      have hd : s'.disk (Buf.key { s.buf b with refcnt := m }) = s.disk (s.buf b).key := hd
      rw [hd]
      exact h

/-- Who writes a buffer has locked it. -/
lemma PlaceOk.lock_of_writes (h : PlaceOk s i t) (hw : t.Writes b) :
    (s.buf b).lock = some i := by
  cases t with
  | iderw c r | enqueue c r | await c r =>
      cases r with
      | bread => exact hw.elim
      | bwrite =>
          obtain rfl : c = b := hw
          exact h.1
  | _ => exact hw.elim

section List

variable {l l₁ l₂ : List (Fin n)}

/-- The list has room in the fuel of the loops. -/
lemma length_lt_of_nodup (hl : l.Nodup) : l.length < n + 1 := by
  simpa [Nat.lt_succ_iff] using hl.length_le_card

/-- The first loop of `bget` stops at the first buffer for the block. -/
lemma Cache.lookup_eq (hl : Circle s.links l) (k : Key) :
    s.lookup k = some (l.find? fun b => (s.buf b).key = k) :=
  hl.search_next (length_lt_of_nodup hl.nodup)

/-- The second loop of `bget` stops at the last buffer that is neither used nor dirty. -/
lemma Cache.victim_eq (hl : Circle s.links l) :
    s.victim =
      some (l.reverse.find? fun b => (s.buf b).refcnt = 0 ∧ (s.buf b).dirty = false) :=
  hl.search_prev (length_lt_of_nodup hl.nodup)

lemma pairwise_middle_iff {R : Fin n → Fin n → Prop} : (l₁ ++ b :: l₂).Pairwise R ↔
    (l₁ ++ l₂).Pairwise R ∧ (∀ c ∈ l₁, R c b) ∧ ∀ c ∈ l₂, R b c := by
  simp only [List.pairwise_append, List.pairwise_cons, List.forall_mem_cons, forall_and]
  tauto

/-- Buffers other than `b`, when `b` changes. -/
lemma pairwise_setBuf (hb : b ∉ l) (hp : l.Pairwise (Behind s)) :
    l.Pairwise (Behind (s.setBuf b x)) := by
  refine hp.imp_of_mem fun {c d} hc hd hcd => ?_
  rwa [Behind, Cache.setBuf_buf_ne (ne_of_mem_of_not_mem hc hb),
    Cache.setBuf_buf_ne (ne_of_mem_of_not_mem hd hb)]

/-- The list of buffers, when one of them changes. -/
lemma ListOk.replace (hl : Circle s.links (l₁ ++ b :: l₂)) (hmem : ∀ c, c ∈ l₁ ++ b :: l₂)
    (hp : (l₁ ++ b :: l₂).Pairwise (Behind s)) (h₁ : ∀ c ∈ l₁, (s.buf c).key = x.key → x.Fresh)
    (h₂ : ∀ c ∈ l₂, x.key = (s.buf c).key → (s.buf c).Fresh) : ListOk (s.setBuf b x) := by
  have hb : b ∉ l₁ ++ l₂ := (List.nodup_middle.mp hl.nodup).notMem
  refine ⟨_, hl, hmem, pairwise_middle_iff.mpr
    ⟨pairwise_setBuf hb (pairwise_middle_iff.mp hp).1, fun c hc => ?_, fun c hc => ?_⟩⟩
  · rw [Behind, Cache.setBuf_buf_self,
      Cache.setBuf_buf_ne (ne_of_mem_of_not_mem (List.mem_append_left l₂ hc) hb)]
    exact h₁ c hc
  · rw [Behind, Cache.setBuf_buf_self,
      Cache.setBuf_buf_ne (ne_of_mem_of_not_mem (List.mem_append_right l₁ hc) hb)]
    exact h₂ c hc

/-- A buffer that is not fresh changes, but stays for the same block. -/
lemma ListOk.setBuf (h : ListOk s) (hkey : x.key = (s.buf b).key) (hf : ¬ (s.buf b).Fresh) :
    ListOk (s.setBuf b x) := by
  obtain ⟨l, hl, hmem, hp⟩ := h
  obtain ⟨l₁, l₂, rfl⟩ := List.append_of_mem (hmem b)
  obtain ⟨-, h₁, h₂⟩ := pairwise_middle_iff.mp hp
  exact .replace hl hmem hp (fun c hc hk => absurd (h₁ c hc (hk.trans hkey)) hf)
    fun c hc hk => h₂ c hc (hkey.symm.trans hk)

end List

/-- The drive, when the buffers in the queue are not touched. -/
lemma DriveOk.frame (h : DriveOk s) (hq : s'.queue = s.queue) (hd : s'.drive = s.drive)
    (hb : ∀ b ∈ s.queue, (∃ r, s'.buf b = { s.buf b with refcnt := r }) ∧
      s'.disk (s.buf b).key = s.disk (s.buf b).key) : DriveOk s' := by
  unfold DriveOk at h ⊢
  rw [hq]
  cases hqs : s.queue with
  | nil =>
      rw [hqs] at h
      exact hd.trans h
  | cons b q =>
      rw [hqs] at h
      obtain ⟨⟨r, hr⟩, hk⟩ := hb b (by simp [hqs])
      have hk : s'.disk (Buf.key { s.buf b with refcnt := r }) = s.disk (s.buf b).key := hk
      dsimp only [Serves]
      rw [hd, hr, hk]
      exact h

variable [DecidableEq ι]

/-- What holds of the places of the processes, when one of them goes on. -/
lemma update_imp {Q : Place n → Prop} (h : Q (p i) → Q t) (hj : Q (p j)) :
    Q (Function.update p i t j) := by
  rcases eq_or_ne j i with rfl | hji
  · rw [Function.update_self]
    exact h hj
  · rwa [Function.update_of_ne hji]

lemma update_iff {Q : Place n → Prop} (h : Q t ↔ Q (p i)) (j : ι) :
    Q (Function.update p i t j) ↔ Q (p j) := by
  rcases eq_or_ne j i with rfl | hj
  · simpa using h
  · simp [hj]

end Frames

namespace Inv

variable {A A' : Store ι β} {s : Cache ι β n} {p : ι → Place n} {b c : Fin n} {i : ι}

/-- There is one buffer for a block, apart from the fresh ones. -/
lemma unique (h : Inv A s p) (hk : (s.buf b).key = (s.buf c).key) (hb : ¬ (s.buf b).Fresh)
    (hc : ¬ (s.buf c).Fresh) : b = c := by
  obtain ⟨l, -, hmem, hl⟩ := h.list
  obtain ⟨l₁, l₂, rfl⟩ := List.append_of_mem (hmem b)
  obtain ⟨-, h₁, h₂⟩ := pairwise_middle_iff.mp hl
  rcases List.mem_append.mp (hmem c) with hc₁ | hc₂
  · exact absurd (h₁ c hc₁ hk.symm) hb
  · rcases List.mem_cons.mp hc₂ with rfl | hc₂
    · rfl
    · exact absurd (h₂ c hc₂ hk) hc

/-- In the queue there are only buffers whose processes wait for them. -/
lemma not_queued (h : Inv A s p) (hb : ∀ j, (s.buf b).lock = some j → ∀ r, p j ≠ .await b r) :
    b ∉ s.queue := by
  intro hq
  obtain ⟨j, r, hj, hp⟩ := (h.bufs b).queued hq
  exact hb j hj r hp

/-- The process that has a block has locked its buffer. -/
lemma lock_of_owner (h : Inv A s p) (hf : ¬ (s.buf b).Fresh)
    (ho : A.owner (s.buf b).key = some i) : (s.buf b).lock = some i ∧ ¬ (p i).Reads b := by
  obtain ⟨c, hk, hl, hr⟩ := h.owned _ i ho
  obtain rfl := h.unique hk ((h.bufs c).not_fresh_of_lock hl) hf
  exact ⟨hl, hr⟩

/-- What a buffer that is not valid stands for is on the disk. -/
lemma contents_eq (h : Inv A s p) (hf : ¬ (s.buf b).Fresh) (hv : (s.buf b).valid = false) :
    A.contents (s.buf b).key = s.disk (s.buf b).key := by
  refine h.absent _ fun c hk => ?_
  by_cases hc : (s.buf c).Fresh
  · exact hc.2
  · rw [h.unique hk hc hf]
    exact hv

/-- The disk holds what was last written there, if nobody is writing. -/
lemma durable_eq (h : Inv A s p) (hf : ¬ (s.buf b).Fresh) (hw : ∀ i, ¬ (p i).Writes b) :
    s.disk (s.buf b).key = A.durable (s.buf b).key := by
  refine h.durable _ fun i c hc hk => ?_
  obtain rfl := h.unique hk
    ((h.bufs c).not_fresh_of_lock ((h.places i).lock_of_writes hc)) hf
  exact hw i hc

/-- A buffer that a process has got is not in the queue, unless the process waits for it. -/
lemma not_queued_of_lock (h : Inv A s p) (hl : (s.buf b).lock = some i)
    (hp : ∀ r, p i ≠ .await b r) : b ∉ s.queue :=
  h.not_queued fun j hj => by
    obtain rfl := Option.some.inj (hl.symm.trans hj)
    exact hp

/-- If the process that has locked a buffer does not write it, nobody does. -/
lemma durable_of_lock (h : Inv A s p) (hl : (s.buf b).lock = some i) (hw : ¬ (p i).Writes b) :
    s.disk (s.buf b).key = A.durable (s.buf b).key := by
  refine h.durable_eq ((h.bufs b).not_fresh_of_lock hl) fun j hj => ?_
  obtain rfl := Option.some.inj (hl.symm.trans ((h.places j).lock_of_writes hj))
  exact hw hj

variable [DecidableEq ι] {t : Place n}

/-- The references to a buffer, when a process neither gets nor loses one. -/
lemma refs_update (h : Inv A s p) (hpend : t.Pends b ↔ (p i).Pends b) :
    ∃ P : Finset ι, (∀ j, j ∈ P ↔ (Function.update p i t j).Pends b) ∧
      (s.buf b).refcnt = P.card + (s.buf b).lock.elim 0 fun _ => 1 := by
  obtain ⟨P, hmem, hP⟩ := (h.bufs b).refs
  exact ⟨P, fun j => (hmem j).trans (update_iff hpend j).symm, hP⟩

/-- A process gets a reference. -/
lemma refs_insert (h : Inv A s p) (hi : ¬ (p i).Pends b) (ht : t.Pends b) :
    ∃ P : Finset ι, (∀ j, j ∈ P ↔ (Function.update p i t j).Pends b) ∧
      (s.buf b).refcnt + 1 = P.card + (s.buf b).lock.elim 0 fun _ => 1 := by
  obtain ⟨P, hmem, hP⟩ := (h.bufs b).refs
  refine ⟨insert i P, fun j => ?_, ?_⟩
  · rw [Finset.mem_insert, hmem]
    rcases eq_or_ne j i with rfl | hj
    · simp [ht]
    · simp [hj]
  · rw [hP, Finset.card_insert_of_notMem fun hiP => hi ((hmem i).mp hiP)]
    omega

/-- A process gives its reference back, or exchanges it for the lock. -/
lemma refs_erase (h : Inv A s p) (hi : (p i).Pends b) (ht : ¬ t.Pends b) :
    ∃ P : Finset ι, (∀ j, j ∈ P ↔ (Function.update p i t j).Pends b) ∧
      (s.buf b).refcnt = P.card + 1 + (s.buf b).lock.elim 0 fun _ => 1 := by
  obtain ⟨P, hmem, hP⟩ := (h.bufs b).refs
  refine ⟨P.erase i, fun j => ?_, ?_⟩
  · rw [Finset.mem_erase, hmem]
    rcases eq_or_ne j i with rfl | hj
    · simp [ht]
    · simp [hj]
  · rw [hP, Finset.card_erase_add_one ((hmem i).mpr hi)]

/-- A step of a process on the buffer `b`, which it has locked or locks now. -/
lemma change (h : Inv A s p) {x : Buf ι β} (hlock : ∀ j, (s.buf b).lock = some j → j = i)
    (hkey : x.key = (s.buf b).key) (hf : ¬ (s.buf b).Fresh) (hq : b ∉ s.queue)
    (hwait : ∀ c r, c ∈ s.queue → p i ≠ .await c r)
    (hpend : ∀ c ≠ b, t.Pends c ↔ (p i).Pends c) (hread : ∀ c ≠ b, t.Reads c ↔ (p i).Reads c)
    (hwrite : ∀ c ≠ b, (p i).Writes c → t.Writes c)
    (hA : ∀ k ≠ (s.buf b).key, A'.owner k = A.owner k ∧ A'.contents k = A.contents k ∧
      A'.durable k = A.durable k)
    (hplace : PlaceOk (s.setBuf b x) i t)
    (hbuf : BufOk A' s (Function.update p i t) b x)
    (howned : ∀ j, A'.owner (s.buf b).key = some j →
      x.lock = some j ∧ ¬ (Function.update p i t j).Reads b)
    (habsent : x.valid = false → A'.contents (s.buf b).key = s.disk (s.buf b).key)
    (hdurable : ¬ t.Writes b → s.disk (s.buf b).key = A'.durable (s.buf b).key) :
    Inv A' (s.setBuf b x) (Function.update p i t) := by
  have hbuf' : ∀ c, c ≠ b → (s.setBuf b x).buf c = s.buf c := fun c hc => Cache.setBuf_buf_ne hc
  have hself : (s.setBuf b x).buf b = x := Cache.setBuf_buf_self
  have hkeys : ∀ c, ((s.setBuf b x).buf c).key = (s.buf c).key := by
    intro c
    rcases eq_or_ne c b with rfl | hc
    · rw [hself, hkey]
    · rw [hbuf' c hc]
  have hkne : ∀ c, c ≠ b → ¬ (s.buf c).Fresh → (s.buf c).key ≠ (s.buf b).key :=
    fun c hc hcf hk => hc (h.unique hk hcf hf)
  refine ⟨h.list.setBuf hkey hf, fun c => ?_, fun j => ?_, h.nodup, ?_, ?_,
    ?_, ?_⟩
  · rcases eq_or_ne c b with rfl | hc
    · rw [hself]
      exact hbuf.frame id rfl (fun _ => Iff.rfl) (fun _ _ => Iff.rfl) (fun _ _ _ => id)
        fun _ => ⟨rfl, rfl, rfl⟩
    · rw [hbuf' c hc]
      refine (h.bufs c).frame id rfl (fun j => update_iff (hpend c hc) j)
        (fun j _ => update_iff (hread c hc) j)
        (fun j r hcq => update_imp (Q := (· = .await c r)) fun hpi => absurd hpi (hwait c r hcq))
        fun hcf => ?_
      obtain ⟨h1, h2, -⟩ := hA _ (hkne c hc hcf)
      exact ⟨h1, h2, rfl⟩
  · rcases eq_or_ne j i with rfl | hji
    · rwa [Function.update_self]
    · rw [Function.update_of_ne hji]
      refine (h.places j).frame rfl (fun c _ => hkeys c) fun c hc => ?_
      have hcb : c ≠ b := by
        rintro rfl
        exact hji (hlock j hc)
      exact ⟨⟨_, hbuf' c hcb⟩, Iff.rfl, rfl⟩
  · refine h.drive.frame rfl rfl fun c hc => ⟨⟨_, hbuf' c ?_⟩, rfl⟩
    rintro rfl
    exact hq hc
  · intro k j hk
    by_cases hkb : k = (s.buf b).key
    · subst hkb
      obtain ⟨h1, h2⟩ := howned j hk
      exact ⟨b, hkeys b, by rw [hself, h1], h2⟩
    · rw [(hA k hkb).1] at hk
      obtain ⟨c, hc, hl, hr⟩ := h.owned k j hk
      have hcb : c ≠ b := by
        rintro rfl
        exact hkb hc.symm
      exact ⟨c, by rw [hkeys, hc], by rw [hbuf' c hcb, hl],
        fun hr' => hr ((update_iff (hread c hcb) j).mp hr')⟩
  · intro k hk
    by_cases hkb : k = (s.buf b).key
    · subst hkb
      exact habsent (hself ▸ hk b (hkeys b))
    · rw [(hA k hkb).2.1]
      refine h.absent k fun c hc => ?_
      have hcb : c ≠ b := by
        rintro rfl
        exact hkb hc.symm
      exact hbuf' c hcb ▸ hk c (by rw [hkeys, hc])
  · intro k hk
    by_cases hkb : k = (s.buf b).key
    · subst hkb
      refine hdurable fun ht => hk i b ?_ (hkeys b)
      rwa [Function.update_self]
    · rw [(hA k hkb).2.2]
      refine h.durable k fun j c hw hc => ?_
      have hcb : c ≠ b := by
        rintro rfl
        exact hkb hc.symm
      exact hk j c (update_imp (hwrite c hcb) hw) (by rw [hkeys, hc])

/-- A process goes on without touching the cache. -/
lemma moved (h : Inv A s p) (hplace : PlaceOk s i t) (hpend : ∀ b, t.Pends b ↔ (p i).Pends b)
    (hread : ∀ b, t.Reads b ↔ (p i).Reads b) (hwrite : ∀ b, (p i).Writes b → t.Writes b)
    (hwait : ∀ b r, p i ≠ .await b r) : Inv A s (Function.update p i t) where
  list := h.list
  bufs b := (h.bufs b).frame id rfl (fun j => update_iff (hpend b) j)
    (fun j _ => update_iff (hread b) j)
    (fun j r _ => update_imp (Q := (· = .await b r)) fun hpi => absurd hpi (hwait b r))
    fun _ => ⟨rfl, rfl, rfl⟩
  places j := by
    rcases eq_or_ne j i with rfl | hji
    · rwa [Function.update_self]
    · rw [Function.update_of_ne hji]
      exact h.places j
  nodup := h.nodup
  drive := h.drive
  owned k j hk := by
    obtain ⟨b, hb, hl, hr⟩ := h.owned k j hk
    exact ⟨b, hb, hl, fun hr' => hr ((update_iff (hread b) j).mp hr')⟩
  absent := h.absent
  durable k hk := h.durable k fun j b hw => hk j b (update_imp (hwrite b) hw)

/-- A process changes the number of references to `b`, and the buffers may change places in their
list. -/
lemma recount (h : Inv A s p) {m : ℕ} (links : Links (Fin n))
    (hlist : ListOk { s.setBuf b { s.buf b with refcnt := m } with links := links })
    (hplace : PlaceOk s i t) (hpend : ∀ c ≠ b, t.Pends c ↔ (p i).Pends c)
    (hread : ∀ c, t.Reads c ↔ (p i).Reads c) (hwrite : ∀ c, (p i).Writes c → t.Writes c)
    (hwait : ∀ c r, p i ≠ .await c r)
    (hrefs : ∃ P : Finset ι, (∀ j, j ∈ P ↔ (Function.update p i t j).Pends b) ∧
      m = P.card + (s.buf b).lock.elim 0 fun _ => 1) :
    Inv A { s.setBuf b { s.buf b with refcnt := m } with links := links }
      (Function.update p i t) := by
  set s' : Cache ι β n := { s.setBuf b { s.buf b with refcnt := m } with links := links }
  have hbuf : ∀ c, ∃ r, s'.buf c = { s.buf c with refcnt := r } := by
    intro c
    rcases eq_or_ne c b with rfl | hc
    · exact ⟨m, Cache.setBuf_buf_self⟩
    · exact ⟨_, Cache.setBuf_buf_ne hc⟩
  have hkeys : ∀ c, (s'.buf c).key = (s.buf c).key := by
    intro c
    obtain ⟨r, hr⟩ := hbuf c
    rw [hr]
    rfl
  have hlocks : ∀ c, (s'.buf c).lock = (s.buf c).lock ∧ (s'.buf c).valid = (s.buf c).valid := by
    intro c
    obtain ⟨r, hr⟩ := hbuf c
    rw [hr]
    exact ⟨rfl, rfl⟩
  have hplaces : ∀ {j u}, PlaceOk s j u → PlaceOk s' j u := fun hu =>
    hu.frame rfl (fun c _ => hkeys c) fun c _ => ⟨hbuf c, Iff.rfl, rfl⟩
  have hstays : ∀ j c r, p j = .await c r → Function.update p i t j = .await c r :=
    fun j c r => update_imp (Q := (· = .await c r)) fun hpi => absurd hpi (hwait c r)
  refine ⟨hlist, fun c => ?_, fun j => ?_, h.nodup, ?_, ?_, ?_, ?_⟩
  · have hc := h.bufs c
    rcases eq_or_ne c b with rfl | hcb
    · -- the fields other than `refcnt` are as they were
      rw [show s'.buf c = _ from Cache.setBuf_buf_self]
      exact ⟨hrefs, fun hq => by
          obtain ⟨j, r, hl, hj⟩ := hc.queued hq
          exact ⟨j, r, hl, hstays j c r hj⟩,
        hc.exist, hc.dirty, fun j hj hr => hc.given j hj fun hr' =>
          hr ((update_iff (hread c) j).mpr hr'), hc.kept, fun hr => hc.clean fun j hj =>
          (update_iff (hread c) j).mp (hr j hj)⟩
    · rw [show s'.buf c = _ from Cache.setBuf_buf_ne hcb]
      exact hc.frame id rfl (fun j => update_iff (hpend c hcb) j)
        (fun j _ => update_iff (hread c) j) (fun j r _ hj => hstays j c r hj)
        fun _ => ⟨rfl, rfl, rfl⟩
  · rcases eq_or_ne j i with rfl | hji
    · rw [Function.update_self]
      exact hplaces hplace
    · rw [Function.update_of_ne hji]
      exact hplaces (h.places j)
  · exact h.drive.frame rfl rfl fun c _ => ⟨hbuf c, rfl⟩
  · intro k j hk
    obtain ⟨c, hc, hl, hr⟩ := h.owned k j hk
    exact ⟨c, (hkeys c).trans hc, (hlocks c).1.trans hl,
      fun hr' => hr ((update_iff (hread c) j).mp hr')⟩
  · intro k hk
    exact h.absent k fun c hc => (hlocks c).2.symm.trans (hk c ((hkeys c).trans hc))
  · intro k hk
    exact h.durable k fun j c hw hc => hk j c (update_imp (hwrite c) hw) ((hkeys c).trans hc)

end Inv

end Xv6Lottery.Bio
