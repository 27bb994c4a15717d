import Xv6Lottery.Bio.Drive
import Xv6Lottery.Bio.Steps

/-!
The cache of disk blocks is coherent.

* `cache_coherent`: **what the processes see of the blocks is a run of the store**, in which every
  block has one contents; every valid buffer holds them, and what `bwrite` has written is on the
  disk.
* `requests_served`: **the drive serves every request.** A process that sleeps in `iderw` is woken
  by the drive and its interrupts alone.
* `panics_only_when_full`: the only panic is the one of `bget`, when every buffer is in use.
-/

namespace Xv6Lottery.Bio

open Library Sections

variable {ι β : Type} {n : ℕ} {zero : β} {disk : Key → β} {havedisk1 : Bool}

/-- Before the first request every block is on the disk only. -/
lemma inv_boot : Inv (⟨disk, disk, fun _ => none⟩ : Store ι β) (boot n zero disk havedisk1)
    fun _ => .user where
  list := by
    have hcircle : Circle (binit n) ((List.finRange n).reverse ++ []) :=
      circle_empty.foldl_pushFront (List.nodup_finRange n) (by simp)
    exact ⟨_, hcircle, by simp, List.pairwise_of_forall fun _ _ _ => ⟨rfl, rfl⟩⟩
  bufs b :=
    { refs := ⟨∅, by simp [Place.Pends], rfl⟩
      queued := fun hb => by cases hb
      exist := ⟨Or.inl rfl, (by decide : 0 < FSSIZE)⟩
      dirty := fun hd => by cases hd
      given := fun i hi => by cases hi
      kept := fun hv => by cases hv
      clean := fun _ hv => by cases hv }
  places _ := trivial
  nodup := List.nodup_nil
  drive := rfl
  owned _ _ hk := by cases hk
  absent _ _ := rfl
  durable _ _ := rfl

section Moves

variable {i : ι} {s s' : Cache ι β n} {k : BioCall β n} {t t' : Place n} {cs : List (Chan n)}
  {e : Option (BioEvent ι β)}

/-- A lock is given back in `brelse` only, which wakes up those who wait for it. -/
lemma Moves.lock_isSome {d : Fin n} (hno : ¬ Refuses i s k t)
    (hm : Moves i s k t s' t' cs e) (hc : .lock d ∉ cs) (hd : (s.buf d).lock.isSome) :
    (s'.buf d).lock.isSome := by
  have hset : ∀ (b : Fin n) (x : Buf ι β), (d = b → x.lock.isSome) →
      ((s.setBuf b x).buf d).lock.isSome := by
    intro b x hx
    rcases eq_or_ne d b with rfl | hdb
    · rw [Cache.setBuf_buf_self]
      exact hx rfl
    · rwa [Cache.setBuf_buf_ne hdb]
  cases hm with
  | modify | mark | bwrite | found | recycled => exact hset _ _ fun h => h ▸ hd
  | lock => exact hset _ _ fun _ => rfl
  | @release b =>
      refine hset _ _ fun h => absurd ?_ hc
      simp [h]
  | @drop b =>
      have hb := hset b { s.buf b with refcnt := (s.buf b).refcnt - 1 } fun h => h ▸ hd
      unfold Cache.unref
      split_ifs <;> exact hb
  | refused hr => exact absurd hr hno
  | _ => exact hd

/-- Processes take nothing out of the queue. -/
lemma Moves.queue_subset (hno : ¬ Refuses i s k t) (hm : Moves i s k t s' t' cs e) :
    s.queue ⊆ s'.queue := by
  cases hm with
  | start | enqueue => exact List.subset_append_left ..
  | @drop b =>
      unfold Cache.unref
      split_ifs <;> exact List.Subset.refl _
  | refused hr => exact absurd hr hno
  | _ => exact List.Subset.refl _

end Moves

variable [DecidableEq ι]

/-! ### The simulation -/

/-- The code simulates the store. -/
lemma simulates : Simulates (code ι β n) Careful StoreStep Inv where
  go hR hok hm := hR.moves hok (thread_moves hm)
  sleep {A s i k c t} hR _ hm := by
    rw [(thread_sleep hm).1, Function.update_eq_self]
    exact hR
  env {A s h s' cs e} hR hok hm := by
    cases h with
    | complete err =>
        obtain rfl : err = false := hok
        obtain ⟨s₁, hc, heq⟩ := Option.map_eq_some_iff.mp hm
        obtain ⟨rfl, -, rfl⟩ := by simpa using heq
        exact ⟨A, rfl, (hR.complete hc).1⟩
    | ideintr =>
        obtain ⟨rfl, hinv, -⟩ := hR.ideintr hm
        exact ⟨A, rfl, hinv⟩

/-- Why a process may sleep: the buffer is locked, or its request is in the queue. -/
def Reason (s : Cache ι β n) : Chan n → Prop
  | .lock b => (s.buf b).lock.isSome
  | .disk b => b ∈ s.queue

/-- No step takes the reason to sleep away without waking up. -/
lemma excuses : Excuses (code ι β n) Careful Inv Reason where
  go {A s i k s' t cs e c} hR hok hm hc hr := by
    have hmoves := thread_moves hm
    have hno := hR.not_refuses hok
    cases c with
    | lock b => exact hmoves.lock_isSome hno hc hr
    | disk b => exact hmoves.queue_subset hno hr
  sleep {A s i k c t} hR _ hm := by
    obtain ⟨-, ⟨b, dev, blockno, -, rfl, hl⟩ | ⟨b, r, hp, rfl, hd⟩⟩ := thread_sleep hm
    · exact hl
    · have hplace := hR.places i
      rw [hp] at hplace
      obtain ⟨-, ⟨hq, -⟩ | ⟨-, -, hv, hclean, -⟩⟩ := hplace
      · exact hq
      · exact absurd ⟨hv, hclean⟩ hd
  env {A s h s' cs e c} hR hok hm hc hr := by
    cases h with
    | complete err =>
        obtain rfl : err = false := hok
        obtain ⟨s₁, hs₁, heq⟩ := Option.map_eq_some_iff.mp hm
        obtain ⟨rfl, -, -⟩ := by simpa using heq
        obtain ⟨-, hbuf, hqueue, -⟩ := hR.complete hs₁
        cases c with
        | lock b =>
            rw [Reason, hbuf]
            exact hr
        | disk b =>
            rw [Reason, hqueue]
            exact hr
    | ideintr =>
        obtain ⟨-, -, b, hq, rfl, hlock⟩ := hR.ideintr hm
        cases c with
        | lock d =>
            rw [Reason, hlock]
            exact hr
        | disk d =>
            have hdb : d ≠ b := by simpa using hc
            simpa [Reason, hq, hdb] using hr

/-! ### The drive alone -/

section Serve

variable {A : Store ι β} {S : Sys ι β n} {b : Fin n} {l q : List (Fin n)}

/-- Only the drive and its interrupts go on, without errors. -/
def DriveOnly (_ : Sys ι β n) : Act ι β n → Prop
  | .env (.complete err) => err = false
  | .env .ideintr => True
  | _ => False

/-- The state after the first request, that for `b`, has been served. -/
structure Served (A : Store ι β) (S S' : Sys ι β n) (b : Fin n) (q : List (Fin n)) : Prop where
  inv : Inv A S'.shared S'.place
  place : S'.place = S.place
  queue : S'.shared.queue = q
  valid : (S'.shared.buf b).valid = true ∧ (S'.shared.buf b).dirty = false
  asleep : S'.asleep = (S.wake [.disk b]).asleep

lemma serve_done (h : Inv A S.shared S.place) (hq : S.shared.queue = b :: q) {r : Option β}
    (hd : S.shared.drive = .done r) :
    ∃ tr S', (code ι β n).Runs DriveOnly S tr S' ∧ Served A S S' b q := by
  have hok : DriveOnly S (.env .ideintr) := trivial
  have hstep := step_env (M := code ι β n) hok (h.ideintr_eq hq hd)
  refine ⟨_, _, Run.single hstep, h.served hq hd, rfl, rfl, ?_, rfl⟩
  simp [Cache.setBuf, Cache.fetched]

lemma serve_first (h : Inv A S.shared S.place) (hq : S.shared.queue = b :: q) :
    ∃ tr S', (code ι β n).Runs DriveOnly S tr S' ∧ Served A S S' b q := by
  obtain hserve | ⟨r, hserve, -⟩ := h.serves hq
  · -- the drive ends its command first
    have hc := h.complete_eq hq hserve
    obtain ⟨hinv, -, hqueue, r, hdone⟩ := h.complete hc
    have hok : DriveOnly S (.env (.complete false)) := rfl
    have hstep := step_env (M := code ι β n) hok
      (congrArg (Option.map fun s' => (s', [], none)) hc)
    obtain ⟨tr, S', hrun, hS'⟩ := serve_done (S := { S.wake [] with shared := _ }) hinv
      (hqueue.trans hq) hdone
    refine ⟨_, S', Run.cons hstep hrun, hS'.inv, hS'.place, hS'.queue, hS'.valid, ?_⟩
    rw [hS'.asleep]
    funext i
    simp [SecState.wake]
  · exact serve_done h hq hserve

/-- Every request is served in the end. -/
lemma serve (h : Inv A S.shared S.place) (hq : S.shared.queue = l ++ b :: q) :
    ∃ tr S', (code ι β n).Runs DriveOnly S tr S' ∧ S'.place = S.place ∧
      ((S'.shared.buf b).valid = true ∧ (S'.shared.buf b).dirty = false) ∧
      ∀ i, S.asleep i = some (.disk b) → S'.asleep i = none := by
  induction l generalizing S with
  | nil =>
      obtain ⟨tr, S', hrun, hS'⟩ := serve_first h hq
      refine ⟨tr, S', hrun, hS'.place, hS'.valid, fun i hi => ?_⟩
      simp [hS'.asleep, SecState.wake, hi]
  | cons d l ih =>
      have hdb : b ≠ d := by
        have hnd := h.nodup
        rintro rfl
        simp [hq] at hnd
      obtain ⟨tr₁, S₁, hrun₁, hS₁⟩ := serve_first h hq
      obtain ⟨tr₂, S₂, hrun₂, hplace, hvalid, hasleep⟩ := ih hS₁.inv hS₁.queue
      refine ⟨_, S₂, hrun₁.trans hrun₂, hplace.trans hS₁.place, hvalid, fun i hi => hasleep i ?_⟩
      simp [hS₁.asleep, SecState.wake, hi, hdb]

end Serve

/-! ### Results -/

section Results

variable {tr : List (Option (BioEvent ι β))} {s : Sys ι β n}

/-- **Coherence.** Whatever processes do with the blocks, as long as they keep to the rules, what
they see is a run of the store. Every valid buffer holds the contents of its block, there is one
valid buffer for a block at most, and apart from blocks that are being written, the disk holds what
was written last. -/
theorem cache_coherent
    (hrun : (code ι β n).Runs Careful (start n zero disk havedisk1) tr s) :
    ∃ A, Run StoreStep ⟨disk, disk, fun _ => none⟩ tr.reduceOption A ∧
      (∀ b, (s.shared.buf b).valid = true →
        (s.shared.buf b).data = A.contents (s.shared.buf b).key) ∧
      (∀ b c, (s.shared.buf b).valid = true → (s.shared.buf c).valid = true →
        (s.shared.buf b).key = (s.shared.buf c).key → b = c) ∧
      ∀ k, (∀ i b, (s.place i).Writes b → (s.shared.buf b).key ≠ k) →
        s.shared.disk k = A.durable k := by
  obtain ⟨A, hA, hinv⟩ := simulates.run inv_boot hrun
  have hfresh : ∀ {b}, (s.shared.buf b).valid = true → ¬ (s.shared.buf b).Fresh := by
    intro b hb hf
    simp [hf.2] at hb
  exact ⟨A, hA, fun b hb => (hinv.bufs b).kept hb,
    fun b c hb hc hk => hinv.unique hk (hfresh hb) (hfresh hc), hinv.durable⟩

/-- Block 3 of the disk holds 3. -/
def smallStart (n : ℕ) : Sys Bool ℕ n := start n 0 Prod.snd false

/-- The first process reads a block and changes it. The second one asks for the same block, and has
to wait until the first one has written it and given it back. -/
def sharedRun : List (Act Bool ℕ 2) :=
  [.run false (.bread 0 3), .run false .go, .run false .go, .run false .go, .run false .go,
    .run false .go, .run false .go, .env (.complete false), .env .ideintr, .run false .go,
    .run false (.modify ⟨0, Nat.zero_lt_two⟩ 7),
    .run true (.bread 0 3), .run true .go, .run true .go,
    .run false (.bwrite ⟨0, Nat.zero_lt_two⟩), .run false .go, .run false .go,
    .env (.complete false), .env .ideintr, .run false .go,
    .run false (.brelse ⟨0, Nat.zero_lt_two⟩), .run false .go, .run true .go, .run true .go]

/-- The second process gets what the first one has left, and the disk holds it too. -/
theorem cache_coherent_sharedRun :
    ((code Bool ℕ 2).machine.trace (smallStart 2) sharedRun).reduceOption =
      [.bread false (0, 3) 3, .modify false (0, 3) 7, .bwrite false (0, 3) 7,
        .brelse false (0, 3) 7, .bread true (0, 3) 7] ∧
    ∃ A, Run StoreStep ⟨Prod.snd, Prod.snd, fun _ => none⟩
        ((code Bool ℕ 2).machine.trace (smallStart 2) sharedRun).reduceOption A ∧
      ((code Bool ℕ 2).machine.exec (smallStart 2) sharedRun).shared.disk (0, 3) = 7 ∧
      A.durable (0, 3) = 7 := by
  obtain ⟨A, hA, -, -, hdisk⟩ := cache_coherent
    (by decide +kernel : (code Bool ℕ 2).machine.Allowed Careful (smallStart 2) sharedRun).run
  have h7 : ((code Bool ℕ 2).machine.exec (smallStart 2) sharedRun).shared.disk (0, 3) = 7 := by
    decide +kernel
  exact ⟨by decide +kernel, A, hA, h7, (hdisk (0, 3) (by decide +kernel)).symm.trans h7⟩

/-- **No process waits for nothing.** A process that sleeps for a buffer waits for one that somebody
has locked. A process that sleeps in `iderw` is woken by the drive and its interrupts, even if no
process goes on, and then its buffer is valid. -/
theorem requests_served
    (hrun : (code ι β n).Runs Careful (start n zero disk havedisk1) tr s) (i : ι) (b : Fin n) :
    (s.asleep i = some (.lock b) → ∃ j, (s.shared.buf b).lock = some j) ∧
    (s.asleep i = some (.disk b) → ∃ tr' s', (code ι β n).Runs DriveOnly s tr' s' ∧
      s'.place = s.place ∧ s'.asleep i = none ∧
      (s'.shared.buf b).valid = true ∧ (s'.shared.buf b).dirty = false) := by
  have hreason := Excuses.run simulates excuses inv_boot (fun _ => rfl) hrun
  refine ⟨fun hi => Option.isSome_iff_exists.mp (hreason i _ hi), fun hi => ?_⟩
  obtain ⟨A, -, hinv⟩ := simulates.run inv_boot hrun
  obtain ⟨l, q, hq⟩ := List.append_of_mem (show b ∈ s.shared.queue from hreason i _ hi)
  obtain ⟨tr', s', hrun', hplace, hvalid, hasleep⟩ := serve hinv hq
  exact ⟨tr', s', hrun', hplace, hasleep i hi, hvalid⟩

/-- Two processes read two blocks: the second request is behind the first one in the queue. -/
def queuedRun : List (Act Bool ℕ 2) :=
  [.run false (.bread 0 3), .run true (.bread 0 4), .run false .go, .run true .go, .run false .go,
    .run true .go, .run false .go, .run true .go, .run false .go, .run true .go, .run false .go,
    .run true .go, .run false .go, .run true .go]

theorem requests_served_queuedRun :
    ((code Bool ℕ 2).machine.exec (smallStart 2) queuedRun).shared.queue =
      [⟨0, Nat.zero_lt_two⟩, ⟨1, Nat.one_lt_two⟩] ∧
    ∃ tr' s', (code Bool ℕ 2).Runs DriveOnly
        ((code Bool ℕ 2).machine.exec (smallStart 2) queuedRun) tr' s' ∧
      s'.asleep true = none ∧ (s'.shared.buf ⟨1, Nat.one_lt_two⟩).valid = true := by
  obtain ⟨tr', s', hrun', -, hawake, hvalid, -⟩ := (requests_served
    (by decide +kernel : (code Bool ℕ 2).machine.Allowed Careful (smallStart 2) queuedRun).run
    true ⟨1, Nat.one_lt_two⟩).2 (by decide +kernel)
  exact ⟨by decide +kernel, tr', s', hrun', hawake, hvalid⟩

/-- **The only panic** is the one of `bget`, and then every buffer is dirty, or locked, or somebody
waits for it or is about to give it back. -/
theorem panics_only_when_full
    (hrun : (code ι β n).Runs Careful (start n zero disk havedisk1) tr s) {msg : String}
    {s' : Sys ι β n} (hstep : (code ι β n).machine.Step Careful s (some (.panic msg)) s') :
    msg = "bget: no buffers" ∧ ∀ b, (s.shared.buf b).dirty = true ∨
      (∃ i, (s.shared.buf b).lock = some i) ∨ ∃ i, (s.place i).Pends b := by
  obtain ⟨A, -, hinv⟩ := simulates.run inv_boot hrun
  obtain ⟨e, he⟩ : ∃ e : Option (BioEvent ι β), e = some (.panic msg) := ⟨_, rfl⟩
  rw [← he] at hstep
  cases act_step hstep with
  | @go i k s' t cs e hok hm =>
      have hmoves : Moves i s.shared k (s.place i) s' t cs e := thread_moves hm
      have hno := hinv.not_refuses hok
      generalize s.place i = t₀ at hmoves hno
      cases hmoves with
      | full hk hb =>
          obtain ⟨l, hl, hmem, -⟩ := hinv.list
          rw [Cache.victim_eq hl, Option.some.injEq, List.find?_eq_none] at hb
          refine ⟨by simpa using he.symm, fun b => ?_⟩
          by_contra hfree
          simp only [not_or, not_exists, Bool.not_eq_true] at hfree
          obtain ⟨hclean, hlock, hpends⟩ := hfree
          have h0 := (hinv.bufs b).refcnt_eq_zero_iff.mpr
            ⟨Option.eq_none_iff_forall_ne_some.mpr hlock, hpends⟩
          exact hb b (by simp [hmem b]) (by simp [h0, hclean])
      | refused hr => exact absurd hr hno
      | _ => cases he
  | sleep | rouse => cases he
  | @env h s' cs e hok hm =>
      cases h with
      | complete err =>
          obtain ⟨s₁, -, heq⟩ := Option.map_eq_some_iff.mp hm
          subst he
          simp at heq
      | ideintr =>
          obtain ⟨rfl, -⟩ := hinv.ideintr hm
          cases he

/-- With one buffer, which the first process has, the second one asks for another block. -/
def fullRun : List (Act Bool ℕ 1) :=
  [.run false (.bread 0 3), .run false .go, .run false .go, .run false .go, .run false .go,
    .run false .go, .run false .go, .env (.complete false), .env .ideintr, .run false .go,
    .run true (.bread 0 4)]

def fullState : Sys Bool ℕ 1 := (code Bool ℕ 1).machine.exec (smallStart 1) fullRun

theorem panics_only_when_full_fullRun : ∃ s',
    (code Bool ℕ 1).machine.Step Careful fullState (some (.panic "bget: no buffers")) s' ∧
    ∀ b, (fullState.shared.buf b).dirty = true ∨
      (∃ i, (fullState.shared.buf b).lock = some i) ∨ ∃ i, (fullState.place i).Pends b := by
  have hrun : (code Bool ℕ 1).Runs Careful (smallStart 1) _ fullState :=
    (by decide +kernel : (code Bool ℕ 1).machine.Allowed Careful (smallStart 1) fullRun).run
  have hstep : (code Bool ℕ 1).machine.Step Careful fullState
      (some (.panic "bget: no buffers")) _ :=
    ⟨.run true .go, by decide +kernel, trivial, by decide +kernel, rfl⟩
  exact ⟨_, hstep, (panics_only_when_full hrun hstep).2⟩

end Results

end Xv6Lottery.Bio
