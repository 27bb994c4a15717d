import Xv6Lottery.Pipe.Fifo

/-!
Records through a pipe.

The programs that share a pipe often write and read pieces of one size, such as the `int`s that
`sched_test_utils.c` sends. Where the size divides `PIPESIZE`, a writer that finds the pipe full
has not begun to write, so the pieces stay whole.

* `Sized`: all reads and writes are of `m` bytes.
* `records`, `answers`: what the writes that have returned wrote, and what the reads that have
  returned got, without the empty answers at the end of the stream.
* `Whole`: how far the call in progress has come.
* `records_in_order`: **every read gets one whole record, in the order of the writes**, for any
  number of readers and writers.
-/

namespace Xv6Lottery

open Library Monitor

namespace Pipe

/-! ### Records -/

/-- Reads and writes are of `m` bytes. -/
def Sized (m : ℕ) : PipeCall → Prop
  | .write addr => addr.length = m
  | .read n => n = m
  | .close _ => True

instance (m : ℕ) : DecidablePred (Sized m) := fun k => by
  cases k <;> dsimp only [Sized] <;> infer_instance

/-- The records written, by writes that have returned. -/
def records (h : List PipeEvent) : List (List UInt8) :=
  h.filterMap fun
    | .wrote addr => some addr
    | _ => none

/-- The answers of the reads that got something. -/
def answers (h : List PipeEvent) : List (List UInt8) :=
  h.filterMap fun
    | .gave _ addr => if addr = [] then none else some addr
    | _ => none

@[simp] lemma records_append (h h' : List PipeEvent) :
    records (h ++ h') = records h ++ records h' :=
  List.filterMap_append

@[simp] lemma answers_append (h h' : List PipeEvent) :
    answers (h ++ h') = answers h ++ answers h' :=
  List.filterMap_append

/-- What the reads have delivered is what they have answered. -/
lemma delivered_eq (h : List PipeEvent) : delivered h = (answers h).flatten := by
  induction h with
  | nil => rfl
  | cons e h ih =>
      cases e with
      | gave n addr =>
          by_cases hnil : addr = []
          · simpa [delivered, answers, hnil] using ih
          · simpa [delivered, answers, hnil] using ih
      | _ => simpa [delivered, answers] using ih

/-- Records of one size are found again in their concatenation. -/
lemma isPrefix_of_flatten {m : ℕ} (hm : 0 < m) :
    ∀ {l l' : List (List UInt8)} {rest : List UInt8}, (∀ r ∈ l, r.length = m) →
      (∀ r ∈ l', r.length = m) → l.flatten ++ rest = l'.flatten → l <+: l'
  | [], _, _, _, _, _ => List.nil_prefix
  | r :: l, [], rest, hl, _, h => by
      have hr := hl r (by simp)
      have hlen := congrArg List.length h
      simp only [List.flatten_cons, List.append_assoc, List.length_append, hr, List.flatten_nil,
        List.length_nil] at hlen
      omega
  | r :: l, r' :: l', rest, hl, hl', h => by
      have hr : r.length = r'.length := by rw [hl r (by simp), hl' r' (by simp)]
      simp only [List.flatten_cons, List.append_assoc] at h
      obtain ⟨rfl, h'⟩ := List.append_inj h hr
      refine List.cons_prefix_cons.mpr ⟨rfl, ?_⟩
      exact isPrefix_of_flatten hm (fun x hx => hl x (List.mem_cons_of_mem _ hx))
        (fun x hx => hl' x (List.mem_cons_of_mem _ hx)) h'

/-! ### The invariant -/

/-- What has been written is whole records, and the beginning of one. -/
structure Whole (m : ℕ) (h : List PipeEvent) (begun : List UInt8) : Prop where
  wrote : written h = (records h).flatten ++ begun
  records_length : ∀ r ∈ records h, r.length = m
  answers_length : ∀ r ∈ answers h, r.length = m

/-- What a write in progress has written. -/
def Place.begun : Place → List UInt8
  | .write addr i => addr.take i
  | .written addr => addr
  | _ => []

/-- The calls in progress are of `m` bytes. A full pipe is found only before the first byte, and
a read ends with all of a record or nothing. -/
def Place.Sized (m : ℕ) (p : Pipe) : Place → Prop
  | .write addr i => addr.length = m ∧ i ≤ m ∧ i ≤ p.len
  | .full addr i => addr.length = m ∧ i = 0
  | .written addr => addr.length = m ∧ m ≤ p.len
  | .read n | .copy n _ => n = m
  | .copied _ addr => addr = [] ∨ addr.length = m
  | _ => True

/-- The points at which the lock is taken. -/
def Place.SizedEntry (m : ℕ) : Place → Prop
  | .write addr i => addr.length = m ∧ i = 0
  | .read n => n = m
  | .close _ => True
  | _ => False

section Whole

variable {m : ℕ} {h : List PipeEvent} {p : Pipe} {begun taken : List UInt8}

lemma length_flatten_of_forall {l : List (List UInt8)} (hl : ∀ r ∈ l, r.length = m) :
    l.flatten.length = m * l.length := by
  rw [List.length_flatten, List.map_congr_left hl, List.map_const', List.sum_replicate,
    smul_eq_mul, Nat.mul_comm]

/-- The bytes in the buffer and those in the hands of the holder make up whole records. -/
lemma Whole.dvd (hw : Whole m h begun) (hk : Kept h p taken) :
    m ∣ taken.length + p.len ↔ m ∣ begun.length := by
  have hlen := congrArg List.length (hw.wrote.symm.trans hk.fifo)
  rw [delivered_eq, List.length_append, List.length_append, List.length_append,
    length_flatten_of_forall hw.records_length, length_flatten_of_forall hw.answers_length,
    length_bytes, Nat.add_assoc] at hlen
  calc m ∣ taken.length + p.len
      ↔ m ∣ m * (answers h).length + (taken.length + p.len) :=
        (Nat.dvd_add_right (dvd_mul_right m _)).symm
    _ ↔ m ∣ m * (records h).length + begun.length := by rw [hlen]
    _ ↔ m ∣ begun.length := Nat.dvd_add_right (dvd_mul_right m _)

/-- A write that finds the pipe full has not begun: the buffer holds whole records. -/
lemma Whole.not_begun {addr : List UInt8} {i : ℕ} (hw : Whole m h (addr.take i))
    (hk : Kept h p []) (hdvd : m ∣ PIPESIZE) (hlen : addr.length = m) (hi : i < addr.length)
    (hfull : p.nwrite = (p.nread + PIPESIZE) % uintSize) : i = 0 := by
  have hbuffer : m ∣ ([] : List UInt8).length + p.len := by
    rw [hk.ok.full_iff.mp hfull]
    simpa using hdvd
  have hd : m ∣ i := by simpa [hi.le] using (hw.dvd hk).mp hbuffer
  exact Nat.eq_zero_of_dvd_of_lt hd (by omega)

/-- Events other than a return with bytes leave the records alone. -/
lemma Whole.other {e : PipeEvent} (hw : Whole m h begun) (hwr : written [e] = [])
    (hr : records [e] = []) (ha : answers [e] = []) : Whole m (h ++ [e]) begun where
  wrote := by simp [hwr, hr, hw.wrote]
  records_length := by simpa [hr] using hw.records_length
  answers_length := by simpa [ha] using hw.answers_length

lemma Whole.put (hw : Whole m h begun) (b : UInt8) : Whole m (h ++ [.put b]) (begun ++ [b]) where
  wrote := by
    have hb : written [.put b] = [b] ∧ records [.put b] = [] := ⟨rfl, rfl⟩
    simp [hb, hw.wrote]
  records_length := by simpa [records] using hw.records_length
  answers_length := by simpa [answers] using hw.answers_length

lemma Whole.wroteAll {addr : List UInt8} (hw : Whole m h addr) (hlen : addr.length = m) :
    Whole m (h ++ [.wrote addr]) [] where
  wrote := by
    have he : written [.wrote addr] = [] ∧ records [.wrote addr] = [addr] := ⟨rfl, rfl⟩
    simp [he, hw.wrote]
  records_length := by
    intro r hr
    rcases List.mem_append.mp (records_append h _ ▸ hr) with hr | hr
    · exact hw.records_length r hr
    · exact List.mem_singleton.mp hr ▸ hlen
  answers_length := by simpa [answers] using hw.answers_length

lemma Whole.gave {n : ℕ} {addr : List UInt8} (hw : Whole m h [])
    (hlen : addr = [] ∨ addr.length = m) : Whole m (h ++ [.gave n addr]) [] where
  wrote := by
    have he : written [.gave n addr] = [] ∧ records [.gave n addr] = [] := ⟨rfl, rfl⟩
    simp [he, hw.wrote]
  records_length := by simpa [records] using hw.records_length
  answers_length := by
    intro r hr
    rcases List.mem_append.mp (answers_append h _ ▸ hr) with hr | hr
    · exact hw.answers_length r hr
    · by_cases hnil : addr = []
      · simp [answers, hnil] at hr
      · obtain rfl : r = addr := by simpa [answers, hnil] using hr
        exact hlen.resolve_left hnil

end Whole

variable {ι : Type} {m : ℕ}

/-- The code keeps records whole. -/
lemma keeps_whole (hm : 0 < m) (hdvd : m ∣ PIPESIZE) :
    Keeps (code ι) (Sized m) (Place.SizedEntry m) (fun h p => Kept h p [] ∧ Whole m h [])
      (fun h p t => (Kept h p t.taken ∧ t.Fits p) ∧ Whole m h t.begun ∧ t.Sized m p) where
  call {i k p t t'} hk hm := by
    simp only [code] at hm
    split_ifs at hm
    obtain rfl := Outer.enter.inj hm
    cases k with
    | write addr => exact ⟨hk, rfl⟩
    | read n => exact hk
    | close w => trivial
  enter {h p t} ht hI := by
    obtain ⟨hk, hw⟩ := hI
    cases t with
    | write addr i =>
        obtain ⟨hlen, rfl⟩ := ht
        exact ⟨⟨hk, trivial⟩, hw, hlen, Nat.zero_le _, Nat.zero_le _⟩
    | read n => exact ⟨⟨hk, trivial⟩, hw, ht⟩
    | close w => exact ⟨⟨hk, trivial⟩, hw, trivial⟩
    | _ => exact ht.elim
  outer {h i k p t p' t' e} _ hm := by
    simp only [code] at hm
    split_ifs at hm
  go {h i b p t p' t' e} hJ hm := by
    obtain ⟨hfifo, hw, hsize⟩ := hJ
    refine ⟨keeps.go hfifo hm, ?_⟩
    cases step_go hm with
    | @put addr i b hb hroom =>
        obtain ⟨hlen, -, hi⟩ := hsize
        have hlt : i < addr.length := (List.getElem?_eq_some_iff.mp hb).1
        have hlen' : (p.put b).len = p.len + 1 := by
          rw [← length_bytes, hfifo.1.ok.put_bytes fun hf => hroom (hfifo.1.ok.full_iff.mpr hf)]
          simp
        refine ⟨?_, hlen, by omega, by omega⟩
        have htake : addr.take (i + 1) = addr.take i ++ [b] := by
          rw [List.take_add_one, hb, Option.toList_some]
        simpa [Place.begun, htake] using hw.put b
    | begin | take | closeWrite | closeRead =>
        rw [Option.toList_none, List.append_nil]
        exact ⟨hw, hsize⟩
  wakeup {h i b p t c t'} hJ hm := by
    obtain ⟨hfifo, hw, hsize⟩ := hJ
    refine ⟨keeps.wakeup hfifo hm, ?_⟩
    cases step_wakeup hm with
    | @full addr i hi hfull hopen =>
        obtain rfl := Whole.not_begun hw hfifo.1 hdvd hsize.1 hi hfull
        exact ⟨hw, hsize.1, rfl⟩
    | @written addr i hi =>
        obtain ⟨hlen, hle, hi'⟩ := hsize
        have htake : addr.take i = addr := List.take_of_length_le hi
        exact ⟨by simpa [Place.begun, htake] using hw, hlen, by omega⟩
    | @copied n addr hend =>
        refine ⟨hw, ?_⟩
        obtain rfl : n = m := hsize
        rcases hend with hn | hempty
        · exact Or.inr (le_antisymm hfifo.2.1 hn)
        · -- the pipe has been emptied, of whole records
          have hzero : p.len = 0 := by
            rw [← length_bytes, hfifo.1.ok.empty_iff.mp hempty, List.length_nil]
          have hd : n ∣ addr.length := by
            simpa [Place.taken, Place.begun, hzero] using (hw.dvd hfifo.1).mpr (dvd_zero n)
          rcases Nat.eq_zero_or_pos addr.length with h0 | hpos
          · exact Or.inl (List.length_eq_zero_iff.mp h0)
          · exact Or.inr (le_antisymm hfifo.2.1 (Nat.le_of_dvd hpos hd))
    | closeWrite | closeRead => exact ⟨hw, trivial⟩
  sleep {h i b p t c t'} hJ hm := by
    obtain ⟨hfifo, hw, hsize⟩ := hJ
    cases step_sleep hm with
    | full => exact ⟨hsize, hfifo.1, hw⟩
    | empty => exact ⟨hsize, hfifo.1, hw⟩
  release {h i b p t t' e} hJ hm := by
    obtain ⟨hfifo, hw, hsize⟩ := hJ
    refine ⟨keeps.release hfifo hm, ?_⟩
    cases step_release hm with
    | idle =>
        rw [Option.toList_none, List.append_nil]
        exact hw
    | @failed addr i hi hfull =>
        obtain rfl := Whole.not_begun hw hfifo.1 hdvd hsize.1 hi hfull
        exact hw.other rfl rfl rfl
    | wrote => exact hw.wroteAll hsize.1
    | interrupted | closed => exact hw.other rfl rfl rfl
    | gave => exact hw.gave hsize

/-! ### Every read gets one record -/

/-- What a write in progress has written is still in the buffer. -/
lemma Place.Sized.begun_le {p : Pipe} {t : Place} (h : t.Sized m p) : t.begun.length ≤ p.len := by
  cases t with
  | write addr i =>
      obtain ⟨hlen, hi, hle⟩ := h
      simpa [Place.begun, hlen, hi] using hle
  | written addr => exact h.1.le.trans h.2
  | _ => exact Nat.zero_le _

/-- The answers are the first records. -/
lemma Whole.answers_first {h : List PipeEvent} {p : Pipe} {begun taken : List UInt8} (hm : 0 < m)
    (hw : Whole m h begun) (hk : Kept h p taken) (hle : begun.length ≤ p.len) :
    answers h <+: records h := by
  have heq := hw.wrote.symm.trans hk.fifo
  rw [delivered_eq, ← List.take_append_drop (p.len - begun.length) p.bytes,
    ← List.append_assoc] at heq
  have hdrop : begun.length = (p.bytes.drop (p.len - begun.length)).length := by
    simp only [List.length_drop, length_bytes]
    omega
  have hrest := (List.append_inj' heq hdrop).1
  rw [List.append_assoc] at hrest
  exact isPrefix_of_flatten hm hw.answers_length hw.records_length hrest.symm

variable [DecidableEq ι] {data : ℕ → UInt8} {tr : List (Option PipeEvent)}
  {s : MonState ι Pipe Place PipeChan}

/-- **Records stay whole and in order.** If all reads and writes are of `m` bytes, and `m` divides
`PIPESIZE`, then the reads that return bytes return one record each: the first one what the
first write wrote, the second one what the second write wrote, and so on. -/
theorem records_in_order (hm : 0 < m) (hdvd : m ∣ PIPESIZE)
    (hrun : (code ι).Runs (Sized m) (start ι data) tr s) :
    answers tr.reduceOption <+: records tr.reduceOption := by
  have hs := (keeps_whole hm hdvd).run (start_fresh data)
    ⟨⟨pipealloc_ok data, rfl⟩, ⟨rfl, by simp [records], by simp [answers]⟩⟩ hrun
  cases hl : s.lock with
  | none =>
      obtain ⟨hk, hw⟩ := hs.free hl
      exact hw.answers_first hm hk (Nat.zero_le _)
  | some i =>
      obtain ⟨t, ht⟩ := (hs.held i).mp hl
      obtain ⟨⟨hk, -⟩, hw, hsize⟩ := hs.busy i t ht
      exact hw.answers_first hm hk hsize.begun_le

/-- Two processes write a record of two bytes each, while a third one waits for one. -/
def twoRecords : List (MonAct ℕ PipeCall) :=
  [.outer 2 (.read 2), .acquire 2, .inner 2 false, .outer 0 (.write [1, 2]),
    .outer 1 (.write [3, 4]), .acquire 1, .inner 1 false, .inner 1 false, .inner 1 false,
    .inner 1 false, .acquire 0, .inner 0 false, .inner 0 false, .inner 0 false, .inner 0 false,
    .acquire 2, .inner 2 false, .inner 2 false, .inner 2 false, .inner 2 false, .inner 2 false]

theorem records_in_order_twoRecords :
    records ((code ℕ).machine.trace (start ℕ fun _ => 0) twoRecords).reduceOption =
      [[3, 4], [1, 2]] ∧
    answers ((code ℕ).machine.trace (start ℕ fun _ => 0) twoRecords).reduceOption <+:
      records ((code ℕ).machine.trace (start ℕ fun _ => 0) twoRecords).reduceOption :=
  ⟨by decide +kernel, records_in_order (m := 2) (by decide) (by decide)
    (show (code ℕ).machine.Allowed (Calls (Sized 2)) (start ℕ fun _ => 0) twoRecords
      by decide +kernel).run⟩

end Pipe

end Xv6Lottery
