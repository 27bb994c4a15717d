import Xv6Lottery.Pipe.Fifo

/-!
Nobody sleeps on a pipe for nothing.

A writer sleeps while the pipe is full, a reader while it is empty. Whoever changes that wakes
the sleepers before it gives the lock back, with one exception: a `pipewrite` that has filled
the pipe and then finds that its process has been killed returns at once.

* `Reason`, `Owes`: why a process sleeps on a channel, and where the holder of the lock still
  has to wake its sleepers.
* `sleepers_have_reason`: **when the lock is free, writers asleep have a full pipe, and readers
  asleep an empty one**, unless a write has failed.
* `reader_stranded`: after a write that has failed, a reader may sleep beside a full pipe.
-/

namespace Xv6Lottery

open Library Monitor

namespace Pipe

/-- The reason to sleep on a channel. -/
def Reason (h : List PipeEvent) (c : PipeChan) (p : Pipe) : Prop :=
  match c with
  | .nread => (p.nread = p.nwrite ∧ p.writeopen = true) ∨ .failed ∈ h
  | .nwrite => p.nwrite = (p.nread + PIPESIZE) % uintSize ∧ p.readopen = true

/-- The points at which the holder of the lock has yet to wake the sleepers of a channel. -/
def Owes : PipeChan → Place → Prop
  | .nread, .write _ _ | .nread, .closeWake true => True
  | .nwrite, .copy _ _ | .nwrite, .closeWake false => True
  | _, _ => False

/-- What the holder knows when it is about to sleep in `pipewrite`. -/
def Place.KnowsFull (p : Pipe) : Place → Prop
  | .full _ _ => p.nwrite = (p.nread + PIPESIZE) % uintSize ∧ p.readopen = true
  | _ => True

variable {ι : Type}

lemma keeps_knowsFull :
    Keeps (code ι) (fun _ => True) Place.entry (fun _ _ => True) (fun _ p t => t.KnowsFull p) where
  call := keeps.call
  enter {h p t} ht _ := by
    cases t with
    | full addr i => exact ht.elim
    | _ => trivial
  outer {h i k p t p' t' e} _ hm := by
    simp only [code] at hm
    split_ifs at hm
  go {h i b p t p' t' e} _ hm := by cases step_go hm <;> trivial
  wakeup {h i b p t c t'} _ hm := by
    cases step_wakeup hm with
    | full hi hfull hopen => exact ⟨hfull, hopen⟩
    | _ => trivial
  sleep {h i b p t c t'} _ hm := by cases step_sleep hm <;> exact ⟨trivial, trivial⟩
  release _ _ := trivial

lemma Reason.mono {h : List PipeEvent} {c : PipeChan} {p : Pipe} (hr : Reason h c p)
    (e : Option PipeEvent) : Reason (h ++ e.toList) c p := by
  cases c with
  | nread => exact hr.imp_right fun hf => List.mem_append_left _ hf
  | nwrite => exact hr

/-- Reasons and debts of the code. -/
lemma rouses : Rouses (code ι) (fun _ => True) (fun _ p t => t.KnowsFull p)
    (fun _ _ => True) Reason Owes where
  outer {h i k p t p' t' e c} _ _ hm := by
    simp only [code] at hm
    split_ifs at hm
  go {h i b p t p' t' e c} _ hm hr := by
    cases step_go hm with
    | put hb hroom =>
        cases c with
        | nread => exact Or.inr trivial
        | nwrite => exact (hr.resolve_right id).elim fun hfull _ => absurd hfull hroom
    | begin hne => exact Or.inl ((hr.resolve_right (by cases c <;> exact id)).mono none)
    | take hn hne =>
        cases c with
        | nread =>
            rcases hr.resolve_right id with ⟨hempty, -⟩ | hf
            · exact absurd hempty hne
            · exact Or.inl (Or.inr (by simpa using hf))
        | nwrite => exact Or.inr trivial
    | closeWrite =>
        cases c with
        | nread => exact Or.inr trivial
        | nwrite => exact Or.inl (hr.resolve_right id)
    | closeRead =>
        cases c with
        | nread => exact Or.inl ((hr.resolve_right id).mono none)
        | nwrite => exact Or.inr trivial
  wakeup {h i b p t c' t' c} _ hm hc hr := by
    cases step_wakeup hm <;> cases c <;> first
      | exact absurd rfl hc
      | exact Or.inl (hr.resolve_right id)
  sleep {h i b p t c t'} hJ hm := by
    cases step_sleep hm with
    | full => exact hJ
    | empty hempty hopen => exact Or.inl ⟨hempty, hopen⟩
  settle {h i b p t c t' c'} _ hm hr := by
    cases step_sleep hm <;> cases c' <;> exact hr.resolve_right id
  release {h i b p t t' e c} _ hm hr := by
    cases step_release hm with
    | failed =>
        cases c with
        | nread => exact Or.inr (by simp)
        | nwrite => exact hr.resolve_right id
    | _ => cases c <;> exact (hr.resolve_right id).mono _

variable [DecidableEq ι] {data : ℕ → UInt8} {tr : List (Option PipeEvent)}
  {s : MonState ι Pipe Place PipeChan}

/-- **No sleeper is forgotten.** When the lock is free, a process asleep in `pipewrite` has a full
pipe with an open read end, and, unless some write has returned -1, a process asleep in
`piperead` has an empty pipe with an open write end. -/
theorem sleepers_have_reason (hrun : (code ι).Runs (fun _ => True) (start ι data) tr s)
    (hl : s.lock = none) {i : ι} {c : PipeChan} {t : Place} (hi : s.threads i = .asleep c t) :
    (c = .nwrite → s.shared.bytes.length = PIPESIZE ∧ s.shared.readopen = true) ∧
    (c = .nread → .failed ∉ tr.reduceOption →
      s.shared.bytes = [] ∧ s.shared.writeopen = true) := by
  have hreason := rouses.run keeps_knowsFull (start_fresh data) trivial (fun _ _ _ _ => trivial)
    hrun hl hi
  have hok := ((sound_run hrun).free hl).ok
  constructor
  · rintro rfl
    exact ⟨(length_bytes _).trans (hok.full_iff.mp hreason.1), hreason.2⟩
  · rintro rfl hf
    obtain ⟨hempty, hopen⟩ := hreason.resolve_right hf
    exact ⟨hok.empty_iff.mp hempty, hopen⟩

/-- A process is asleep in `piperead`, and another one has called `pipewrite`. -/
def waitingReader : List (MonAct Bool PipeCall) :=
  [.outer false (.read 4), .acquire false, .inner false false, .outer true (.write [7, 8])]

/-- The state after `waitingReader`. -/
abbrev waitingReaderEnd : MonState Bool Pipe Place PipeChan :=
  (code Bool).machine.exec (start Bool fun _ => 0) waitingReader

theorem sleepers_have_reason_waitingReader :
    (PipeChan.nread = .nwrite → waitingReaderEnd.shared.bytes.length = PIPESIZE ∧
      waitingReaderEnd.shared.readopen = true) ∧
    (PipeChan.nread = .nread → PipeEvent.failed ∉
        ((code Bool).machine.trace (start Bool fun _ => 0) waitingReader).reduceOption →
      waitingReaderEnd.shared.bytes = [] ∧ waitingReaderEnd.shared.writeopen = true) :=
  sleepers_have_reason (i := false) (t := .read 4)
    (show (code Bool).machine.Allowed (Calls fun _ => True) (start Bool fun _ => 0) waitingReader
      by decide +kernel).run rfl rfl

/-! ### A killed writer -/

/-- More bytes than fit into a pipe. -/
def tooMuch : List UInt8 := List.replicate (PIPESIZE + 1) 0

lemma tooMuch_getElem? {n : ℕ} (hn : n ≤ PIPESIZE) : tooMuch[n]? = some 0 := by
  rw [tooMuch, List.getElem?_replicate, if_pos (by omega)]

/-- A reader is asleep, and a writer with more than `PIPESIZE` bytes has the lock. -/
def longWrite : List (MonAct Bool PipeCall) :=
  [.outer false (.read 4), .acquire false, .inner false false,
    .outer true (.write tooMuch), .acquire true]

/-- The write has come as far as its `n`-th byte, and the reader still sleeps. -/
structure Filling (n : ℕ) (s : MonState Bool Pipe Place PipeChan) : Prop where
  writer : s.threads true = .inside (.write tooMuch n)
  reader : s.threads false = .asleep .nread (.read 4)
  ok : s.shared.Ok
  len : s.shared.len = n
  writeopen : s.shared.writeopen = true

lemma Filling.step {n : ℕ} {s : MonState Bool Pipe Place PipeChan} (h : Filling n s)
    (hn : n < PIPESIZE) :
    ∃ e s', (code Bool).machine.Step (Calls fun _ => True) s e s' ∧ Filling (n + 1) s' := by
  have hroom : s.shared.len ≠ PIPESIZE := by
    rw [h.len]
    exact hn.ne
  have hact : (code Bool).act s (.inner true false) =
      some (some (.put 0), { s.put true (.inside (.write tooMuch (n + 1))) with
        shared := s.shared.put 0 }) := by
    have hfull : s.shared.nwrite ≠ (s.shared.nread + PIPESIZE) % uintSize := fun hf =>
      hroom (h.ok.full_iff.mp hf)
    simp only [act, h.writer, code, Pipe.step, tooMuch_getElem? hn.le, if_neg hfull,
      MonState.move]
  refine ⟨_, _, ⟨.inner true false, ?_, trivial, rfl, rfl⟩, ?_⟩
  · simp [Monitor.machine, hact]
  · simp only [Monitor.machine, hact, Option.map_some, Option.getD_some]
    refine ⟨by simp [MonState.put], by simpa [MonState.put] using h.reader,
      h.ok.put_ok hroom 0, ?_, h.writeopen⟩
    rw [← length_bytes, h.ok.put_bytes hroom 0, List.length_append, length_bytes, h.len,
      List.length_singleton]

/-- **A killed writer strands a reader.** The reader sleeps, the lock is free and the write end is
open, and there are `PIPESIZE` bytes to be read. -/
theorem reader_stranded : ∃ tr s, (code Bool).Runs (fun _ => True) (start Bool fun _ => 0) tr s ∧
    s.lock = none ∧ s.threads false = .asleep .nread (.read 4) ∧
    s.shared.bytes.length = PIPESIZE ∧ s.shared.writeopen = true := by
  have hfill : ∀ n ≤ PIPESIZE, ∃ tr s,
      (code Bool).Runs (fun _ => True) (start Bool fun _ => 0) tr s ∧ Filling n s := by
    intro n
    induction n with
    | zero =>
        intro _
        refine ⟨_, _, (show (code Bool).machine.Allowed (Calls fun _ => True)
          (start Bool fun _ => 0) longWrite by decide +kernel).run, ?_⟩
        exact ⟨rfl, rfl, pipealloc_ok _, rfl, rfl⟩
    | succ n ih =>
        intro hn
        obtain ⟨tr, s, hrun, hs⟩ := ih (by omega)
        obtain ⟨e, s', hstep, hs'⟩ := hs.step (by omega)
        exact ⟨_, s', hrun.snoc hstep, hs'⟩
  obtain ⟨tr, s, hrun, hs⟩ := hfill PIPESIZE le_rfl
  -- the next byte does not fit, and the process has been killed
  have hact : (code Bool).act s (.inner true true) =
      some (some .failed, { s.put true (.outside .idle) with lock := none }) := by
    have hfull := hs.ok.full_iff.mpr hs.len
    simp only [act, hs.writer, code, Pipe.step, tooMuch_getElem? le_rfl, if_pos hfull, or_true,
      if_true, MonState.move]
  refine ⟨_, _, hrun.snoc ⟨.inner true true, by simp [Monitor.machine, hact], trivial, rfl, rfl⟩,
    ?_⟩
  simp only [Monitor.machine, hact, Option.map_some, Option.getD_some]
  refine ⟨trivial, by simpa [MonState.put] using hs.reader, ?_, hs.writeopen⟩
  exact (length_bytes _).trans hs.len

end Pipe

end Xv6Lottery
