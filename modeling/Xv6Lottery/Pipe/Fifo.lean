import Xv6Lottery.Pipe.Code

/-!
What goes into a pipe comes out of it, once and in order.

* `Goes`, `Wakes`, `Sleeps`, `Releases`: what the holder of `p->lock` does at each point;
  `step_go`, `step_wakeup`, `step_sleep`, `step_release` read them off the code.
* `written`, `delivered`, `heldBytes`: the bytes written, the bytes that reads have returned,
  and those that the holder of the lock has taken for the read that it is in.
* `Kept`, `keeps`: the invariant of the lock.
* `pipe_fifo`: **a pipe is a queue of at most `PIPESIZE` bytes**, for any number of readers and
  writers and also when the counters wrap around.
* `read_end`: a read returns no bytes only at the end of the stream.
-/

namespace Xv6Lottery

open Library Monitor

namespace Pipe

/-! ### Steps -/

/-- The steps that change the pipe, or nothing. -/
inductive Goes (p : Pipe) : Place → Pipe → Place → Option PipeEvent → Prop
  | put {addr : List UInt8} {i : ℕ} {b : UInt8} (hb : addr[i]? = some b)
      (hroom : p.nwrite ≠ (p.nread + PIPESIZE) % uintSize) :
      Goes p (.write addr i) (p.put b) (.write addr (i + 1)) (some (.put b))
  | begin {n : ℕ} (h : ¬(p.nread = p.nwrite ∧ p.writeopen = true)) :
      Goes p (.read n) p (.copy n []) none
  | take {n : ℕ} {addr : List UInt8} (hn : addr.length < n) (h : p.nread ≠ p.nwrite) :
      Goes p (.copy n addr) p.take (.copy n (addr ++ [p.front])) none
  | closeWrite : Goes p (.close true) { p with writeopen := false } (.closeWake true) none
  | closeRead : Goes p (.close false) { p with readopen := false } (.closeWake false) none

/-- The wakeups. -/
inductive Wakes (p : Pipe) : Place → PipeChan → Place → Prop
  | full {addr : List UInt8} {i : ℕ} (hi : i < addr.length)
      (hfull : p.nwrite = (p.nread + PIPESIZE) % uintSize) (hopen : p.readopen = true) :
      Wakes p (.write addr i) .nread (.full addr i)
  | written {addr : List UInt8} {i : ℕ} (hi : addr.length ≤ i) :
      Wakes p (.write addr i) .nread (.written addr)
  | copied {n : ℕ} {addr : List UInt8} (h : n ≤ addr.length ∨ p.nread = p.nwrite) :
      Wakes p (.copy n addr) .nwrite (.copied n addr)
  | closeWrite : Wakes p (.closeWake true) .nread (.closeTest true)
  | closeRead : Wakes p (.closeWake false) .nwrite (.closeTest false)

/-- Going to sleep. -/
inductive Sleeps (p : Pipe) : Place → PipeChan → Place → Prop
  | full {addr : List UInt8} {i : ℕ} : Sleeps p (.full addr i) .nwrite (.write addr i)
  | empty {n : ℕ} (h : p.nread = p.nwrite) (hopen : p.writeopen = true) :
      Sleeps p (.read n) .nread (.read n)

/-- The ends of the calls. -/
inductive Releases (p : Pipe) : Place → Option PipeEvent → Prop
  | idle : Releases p .idle none
  | failed {addr : List UInt8} {i : ℕ} (hi : i < addr.length)
      (hfull : p.nwrite = (p.nread + PIPESIZE) % uintSize) :
      Releases p (.write addr i) (some .failed)
  | wrote {addr : List UInt8} : Releases p (.written addr) (some (.wrote addr))
  | interrupted {n : ℕ} : Releases p (.read n) (some .interrupted)
  | gave {n : ℕ} {addr : List UInt8} : Releases p (.copied n addr) (some (.gave n addr))
  | closed {writable : Bool} : Releases p (.closeTest writable)
      (some (.closed writable (!p.readopen && !p.writeopen)))

section Step

variable {killed : Bool} {p p' : Pipe} {t t' : Place} {e : Option PipeEvent} {c : PipeChan}

lemma step_go (h : step killed p t = .go p' t' e) : Goes p t p' t' e := by
  cases t with
  | write addr i =>
      cases hb : addr[i]? with
      | none => simp [step, hb] at h
      | some b =>
          simp only [step, hb] at h
          split_ifs at h with hfull
          obtain ⟨rfl, rfl, rfl⟩ := Inner.go.inj h
          exact .put hb hfull
  | read n =>
      simp only [step] at h
      split_ifs at h with hempty
      obtain ⟨rfl, rfl, rfl⟩ := Inner.go.inj h
      exact .begin hempty
  | copy n addr =>
      simp only [step] at h
      split_ifs at h with hmore
      obtain ⟨rfl, rfl, rfl⟩ := Inner.go.inj h
      exact .take hmore.1 hmore.2
  | close writable =>
      cases writable
      · obtain ⟨rfl, rfl, rfl⟩ := Inner.go.inj h
        exact .closeRead
      · obtain ⟨rfl, rfl, rfl⟩ := Inner.go.inj h
        exact .closeWrite
  | _ => simp [step] at h

lemma step_wakeup (h : step killed p t = .wakeup c t') : Wakes p t c t' := by
  cases t with
  | write addr i =>
      cases hb : addr[i]? with
      | none =>
          simp only [step, hb] at h
          obtain ⟨rfl, rfl⟩ := Inner.wakeup.inj h
          exact .written (List.getElem?_eq_none_iff.mp hb)
      | some b =>
          simp only [step, hb] at h
          split_ifs at h with hfull hfail
          obtain ⟨rfl, rfl⟩ := Inner.wakeup.inj h
          obtain ⟨hopen, -⟩ := not_or.mp hfail
          obtain ⟨hi, -⟩ := List.getElem?_eq_some_iff.mp hb
          exact .full hi hfull (by simpa using hopen)
  | read n =>
      simp only [step] at h
      split_ifs at h
  | copy n addr =>
      simp only [step] at h
      split_ifs at h with hmore
      obtain ⟨rfl, rfl⟩ := Inner.wakeup.inj h
      refine .copied ?_
      by_contra hne
      push Not at hne
      exact hmore hne
  | close writable => cases writable <;> simp [step] at h
  | closeWake writable =>
      cases writable
      · obtain ⟨rfl, rfl⟩ := Inner.wakeup.inj h
        exact .closeRead
      · obtain ⟨rfl, rfl⟩ := Inner.wakeup.inj h
        exact .closeWrite
  | _ => simp [step] at h

lemma step_sleep (h : step killed p t = .sleep c t') : Sleeps p t c t' := by
  cases t with
  | write addr i =>
      simp only [step] at h
      split at h
      · cases h
      · split_ifs at h
  | full addr i =>
      obtain ⟨rfl, rfl⟩ := Inner.sleep.inj h
      exact .full
  | read n =>
      simp only [step] at h
      split_ifs at h with hempty hkilled
      obtain ⟨rfl, rfl⟩ := Inner.sleep.inj h
      exact .empty hempty.1 hempty.2
  | copy n addr =>
      simp only [step] at h
      split_ifs at h
  | close writable => cases writable <;> simp [step] at h
  | _ => simp [step] at h

lemma step_release (h : step killed p t = .release t' e) : Releases p t e := by
  cases t with
  | idle =>
      obtain ⟨-, rfl⟩ := Inner.release.inj h
      exact .idle
  | write addr i =>
      cases hb : addr[i]? with
      | none => simp [step, hb] at h
      | some b =>
          simp only [step, hb] at h
          split_ifs at h with hfull hfail
          obtain ⟨-, rfl⟩ := Inner.release.inj h
          obtain ⟨hi, -⟩ := List.getElem?_eq_some_iff.mp hb
          exact .failed hi hfull
  | written addr =>
      obtain ⟨-, rfl⟩ := Inner.release.inj h
      exact .wrote
  | read n =>
      simp only [step] at h
      split_ifs at h
      obtain ⟨-, rfl⟩ := Inner.release.inj h
      exact .interrupted
  | copy n addr =>
      simp only [step] at h
      split_ifs at h
  | copied n addr =>
      obtain ⟨-, rfl⟩ := Inner.release.inj h
      exact .gave
  | close writable => cases writable <;> simp [step] at h
  | closeTest writable =>
      obtain ⟨-, rfl⟩ := Inner.release.inj h
      exact .closed
  | _ => simp [step] at h

end Step

/-! ### The invariant -/

/-- The bytes written so far. -/
def written (h : List PipeEvent) : List UInt8 :=
  h.filterMap fun
    | .put b => some b
    | _ => none

/-- The bytes that reads have returned so far. -/
def delivered (h : List PipeEvent) : List UInt8 :=
  h.flatMap fun
    | .gave _ addr => addr
    | _ => []

@[simp] lemma written_append (h h' : List PipeEvent) :
    written (h ++ h') = written h ++ written h' :=
  List.filterMap_append

@[simp] lemma delivered_append (h h' : List PipeEvent) :
    delivered (h ++ h') = delivered h ++ delivered h' :=
  List.flatMap_append

/-- The bytes that a read in progress has taken. -/
def Place.taken : Place → List UInt8
  | .copy _ addr | .copied _ addr => addr
  | _ => []

/-- The bytes that the holder of the lock has taken. -/
def heldBytes {ι : Type} (s : MonState ι Pipe Place PipeChan) : List UInt8 :=
  s.lock.elim [] fun i => (s.threads i).place.taken

/-- The points at which the lock is taken. -/
def Place.entry : Place → Prop
  | .write _ _ | .read _ | .close _ => True
  | _ => False

/-- What a read in progress knows about the pipe: it never takes more than it was asked for, and
if it has got nothing, the stream is at its end. -/
def Place.Fits (p : Pipe) : Place → Prop
  | .copy n addr => addr.length ≤ n ∧ (addr = [] → p.bytes = [] → p.writeopen = false)
  | .copied n addr =>
      addr.length ≤ n ∧ (addr = [] → 0 < n → p.bytes = [] ∧ p.writeopen = false)
  | _ => True

/-- The invariant of `p->lock`, with the bytes that its holder has taken. -/
structure Kept (h : List PipeEvent) (p : Pipe) (taken : List UInt8) : Prop where
  ok : p.Ok
  fifo : written h = delivered h ++ taken ++ p.bytes

lemma Kept.put {h : List PipeEvent} {p : Pipe} {b : UInt8} (hk : Kept h p [])
    (hroom : p.len ≠ PIPESIZE) : Kept (h ++ [.put b]) (p.put b) [] where
  ok := hk.ok.put_ok hroom b
  fifo := by
    rw [hk.ok.put_bytes hroom, written_append, hk.fifo]
    simp [written, delivered]

lemma Kept.take {h : List PipeEvent} {p : Pipe} {addr : List UInt8} (hk : Kept h p addr)
    (hne : p.nread ≠ p.nwrite) : Kept h p.take (addr ++ [p.front]) where
  ok := hk.ok.take_ok hne
  fifo := by simp [hk.fifo, hk.ok.take_bytes hne]

lemma Kept.gave {h : List PipeEvent} {p : Pipe} {n : ℕ} {addr : List UInt8} (hk : Kept h p addr) :
    Kept (h ++ [.gave n addr]) p [] where
  ok := hk.ok
  fifo := by
    rw [written_append, hk.fifo]
    simp [written, delivered]

/-- Other events are no bytes. -/
lemma Kept.other {h : List PipeEvent} {p : Pipe} {e : PipeEvent} (hk : Kept h p [])
    (hw : written [e] = []) (hd : delivered [e] = []) : Kept (h ++ [e]) p [] where
  ok := hk.ok
  fifo := by simp [hw, hd, hk.fifo]

/-- The flags are not part of the buffer. -/
lemma Kept.flags {h : List PipeEvent} {p : Pipe} (r w : Bool) (hk : Kept h p []) :
    Kept h { p with readopen := r, writeopen := w } [] :=
  ⟨⟨hk.ok.nread_lt, hk.ok.nwrite_lt, hk.ok.len_le⟩, hk.fifo⟩

variable {ι : Type}

/-- The code keeps the invariant. -/
lemma keeps : Keeps (code ι) (fun _ => True) Place.entry (fun h p => Kept h p [])
    (fun h p t => Kept h p t.taken ∧ t.Fits p) where
  call {i k p t t'} _ hm := by
    simp only [code] at hm
    split_ifs at hm
    obtain rfl := Outer.enter.inj hm
    cases k <;> trivial
  enter {h p t} ht hk := by
    cases t with
    | write addr i | read n | close w => exact ⟨hk, trivial⟩
    | _ => exact ht.elim
  outer {h i k p t p' t' e} _ hm := by
    simp only [code] at hm
    split_ifs at hm
  go {h i b p t p' t' e} hJ hm := by
    obtain ⟨hk, hfit⟩ := hJ
    cases step_go hm with
    | put hb hroom =>
        exact ⟨hk.put fun hlen => hroom (hk.ok.full_iff.mpr hlen), trivial⟩
    | begin hne =>
        rw [Option.toList_none, List.append_nil]
        refine ⟨hk, Nat.zero_le _, fun _ hnil => ?_⟩
        by_contra hopen
        exact hne ⟨hk.ok.empty_iff.mpr hnil, by simpa using hopen⟩
    | take hn hne =>
        rw [Option.toList_none, List.append_nil]
        refine ⟨hk.take hne, ?_, fun hnil => by simp at hnil⟩
        simpa using hn
    | closeWrite =>
        rw [Option.toList_none, List.append_nil]
        exact ⟨hk.flags p.readopen false, trivial⟩
    | closeRead =>
        rw [Option.toList_none, List.append_nil]
        exact ⟨hk.flags false p.writeopen, trivial⟩
  wakeup {h i b p t c t'} hJ hm := by
    obtain ⟨hk, hfit⟩ := hJ
    cases step_wakeup hm with
    | full | written | closeWrite | closeRead => exact ⟨hk, trivial⟩
    | copied hend =>
        refine ⟨hk, hfit.1, fun hnil hn => ?_⟩
        -- nothing has been copied although something was asked for: the pipe is empty
        have hempty : p.bytes = [] := by
          rcases hend with hlen | heq
          · simp only [hnil, List.length_nil] at hlen
            omega
          · exact hk.ok.empty_iff.mp heq
        exact ⟨hempty, hfit.2 hnil hempty⟩
  sleep {h i b p t c t'} hJ hm := by
    cases step_sleep hm with
    | full | empty => exact ⟨trivial, hJ.1⟩
  release {h i b p t t' e} hJ hm := by
    obtain ⟨hk, hfit⟩ := hJ
    cases step_release hm with
    | idle =>
        rw [Option.toList_none, List.append_nil]
        exact hk
    | failed | wrote | interrupted | closed => exact hk.other rfl rfl
    | gave => exact hk.gave

variable [DecidableEq ι] {data : ℕ → UInt8} {tr : List (Option PipeEvent)}
  {s : MonState ι Pipe Place PipeChan}

/-- The invariant in every state of a run. -/
lemma sound_run (hrun : (code ι).Runs (fun _ => True) (start ι data) tr s) :
    Sound Place.entry (fun h p => Kept h p []) (fun h p t => Kept h p t.taken ∧ t.Fits p)
      tr.reduceOption s :=
  keeps.run (start_fresh data) ⟨pipealloc_ok data, rfl⟩ hrun

/-- **A pipe is a queue.** Whatever the processes that share it do, and in whatever order: the
bytes written are those that reads have returned, then those that the holder of the lock has
taken for the read that it is in, then those in the buffer, which holds at most `PIPESIZE`. -/
theorem pipe_fifo (hrun : (code ι).Runs (fun _ => True) (start ι data) tr s) :
    written tr.reduceOption = delivered tr.reduceOption ++ heldBytes s ++ s.shared.bytes ∧
      s.shared.bytes.length ≤ PIPESIZE := by
  have hs := sound_run hrun
  have hk : Kept tr.reduceOption s.shared (heldBytes s) := by
    cases hl : s.lock with
    | none => simpa [heldBytes, hl] using hs.free hl
    | some i =>
        obtain ⟨t, ht⟩ := (hs.held i).mp hl
        simpa [heldBytes, hl, ht, Thread.place] using (hs.busy i t ht).1
  exact ⟨hk.fifo, by simpa using hk.ok.len_le⟩

/-- A process reads from an empty pipe and sleeps; another one writes two bytes; the first one
has taken one of them. -/
def relay : List (MonAct Bool PipeCall) :=
  [.outer false (.read 4), .acquire false, .inner false false, .outer true (.write [7, 8]),
    .acquire true, .inner true false, .inner true false, .inner true false, .inner true false,
    .acquire false, .inner false false, .inner false false]

/-- The events and the last state of `relay`. -/
abbrev relayTrace : List (Option PipeEvent) :=
  (code Bool).machine.trace (start Bool fun _ => 0) relay

abbrev relayEnd : MonState Bool Pipe Place PipeChan :=
  (code Bool).machine.exec (start Bool fun _ => 0) relay

theorem pipe_fifo_relay : relayTrace.reduceOption = [.put 7, .put 8, .wrote [7, 8]] ∧
    heldBytes relayEnd = [7] ∧ relayEnd.shared.bytes = [8] ∧
    written relayTrace.reduceOption =
      delivered relayTrace.reduceOption ++ heldBytes relayEnd ++ relayEnd.shared.bytes ∧
    relayEnd.shared.bytes.length ≤ PIPESIZE :=
  ⟨by decide +kernel, by decide +kernel, by decide +kernel,
    pipe_fifo (Guarded.Allowed.run (by decide +kernel))⟩

/-- The return of a read is a release of the lock after the writers have been woken. -/
lemma gave_step {K : PipeCall → Prop} {s₁ : MonState ι Pipe Place PipeChan} {n : ℕ}
    {addr : List UInt8} (h : (code ι).MonStep K s (some (.gave n addr)) s₁) :
    ∃ i, s.threads i = .inside (.copied n addr) ∧ s₁.shared = s.shared := by
  generalize he : some (PipeEvent.gave n addr) = e at h
  cases h with
  | outer hk ht hm =>
      simp only [code] at hm
      split_ifs at hm
  | go ht hm =>
      subst he
      cases step_go hm
  | release ht hm =>
      subst he
      cases step_release hm
      exact ⟨_, ht, rfl⟩
  | _ => cases he

/-- **The end of the stream.** A read returns at most as many bytes as it was asked for, and it
returns none only when the write end is closed and everything written has been read. -/
theorem read_end {n : ℕ} {addr : List UInt8}
    (hrun : (code ι).Runs (fun _ => True) (start ι data) (tr ++ [some (.gave n addr)]) s) :
    addr.length ≤ n ∧ (addr = [] → 0 < n → s.shared.writeopen = false ∧
      written tr.reduceOption = delivered tr.reduceOption) := by
  obtain ⟨s₁, hrun₁, hstep⟩ := hrun.unsnoc
  obtain ⟨i, hi, hshared⟩ := gave_step (act_step hstep)
  obtain ⟨hk, hlen, hend⟩ := (sound_run hrun₁).busy i _ hi
  refine ⟨hlen, fun hnil hn => ?_⟩
  obtain ⟨hempty, hclosed⟩ := hend hnil hn
  refine ⟨hshared ▸ hclosed, ?_⟩
  simpa [Place.taken, hnil, hempty] using hk.fifo

/-- A byte is written and read, the write end is closed, and a second read is about to
return. -/
def hangup : List (MonAct Bool PipeCall) :=
  [.outer true (.write [7]), .acquire true, .inner true false, .inner true false,
    .inner true false, .outer false (.read 4), .acquire false, .inner false false,
    .inner false false, .inner false false, .inner false false, .outer true (.close true),
    .acquire true, .inner true false, .inner true false, .inner true false,
    .outer false (.read 4), .acquire false, .inner false false, .inner false false]

/-- The events before the second read returns. -/
abbrev hangupTrace : List (Option PipeEvent) :=
  (code Bool).machine.trace (start Bool fun _ => 0) hangup

/-- The state after it has returned. -/
abbrev hangupEnd : MonState Bool Pipe Place PipeChan :=
  (code Bool).machine.exec (start Bool fun _ => 0) (hangup ++ [.inner false false])

theorem read_end_hangup :
    hangupTrace.reduceOption = [.put 7, .wrote [7], .gave 4 [7], .closed true false] ∧
    ([] : List UInt8).length ≤ 4 ∧ (([] : List UInt8) = [] → 0 < 4 →
      hangupEnd.shared.writeopen = false ∧
        written hangupTrace.reduceOption = delivered hangupTrace.reduceOption) := by
  have hrun : (code Bool).Runs (fun _ => True) (start Bool fun _ => 0)
      (hangupTrace ++ [some (.gave 4 [])]) hangupEnd :=
    (show (code Bool).machine.Allowed (Calls fun _ => True) (start Bool fun _ => 0)
      (hangup ++ [.inner false false]) by decide +kernel).run
  exact ⟨by decide +kernel, read_end hrun⟩

end Pipe

end Xv6Lottery
