import Xv6Lottery.Kernel.Frame
import Xv6Lottery.Kernel.Processes

/-!
No wakeup is lost between `sleep` and `wakeup`.

A process that calls `sleep(chan, lk)` passes through three stages: it enters, still holding
`lk` or already `ptable.lock`; it is `SLEEPING` on `chan`; it has been woken up and is on its
way out. A waker that holds `lk` cannot meet it in the first stage.

* `ActStep`: the steps of the machine, labelled by their actions.
* `Kernel.Asleep`, `Woken`: the second stage, and that an action has ended it.
* `Kernel.Entering`, `Entering.step`: the first stage, in which the process is executed by the
  holder of `lk` or of `ptable.lock`.
* `sleep_stages`: the three stages along a run.
* `Kernel.sleepLocked`: `sleep(chan, &ptable.lock)`, which has no first stage.
* `no_lost_wakeup`: what a waker finds and leaves behind.
-/

namespace Xv6Lottery

open Procstate Library

variable {n : ℕ} {s s' s₁ s₂ : Kernel n} {a : Act n} {as : List (Act n)} {i : Slot}
  {ch : Chan Slot}

/-- The steps of the machine, labelled by their actions. -/
def ActStep (s : Kernel n) (a : Act n) (s' : Kernel n) : Prop := s.Enabled a ∧ s.next a = s'

/-- An allowed list of actions is a run over these actions. -/
lemma actRun {ok : Kernel n → Act n → Prop} : ∀ {as : List (Act n)} {s : Kernel n},
    (machine n).Allowed ok s as → Run ActStep s as ((machine n).exec s as)
  | [], _, _ => Run.nil
  | _ :: _, _, ⟨⟨he, _⟩, h⟩ => Run.cons ⟨he, rfl⟩ (actRun h)

lemma SyncInv.run (h : SyncInv s) (hrun : Run ActStep s as s') : SyncInv s' := by
  refine Run.invariant (I := fun _ s => SyncInv s) h ?_ hrun
  rintro as a s₁ s₂ - h₁ ⟨he, rfl⟩
  exact h₁.step he

/-! ### The stages of `sleep` -/

/-- The process in slot `i` is `SLEEPING` on the channel. -/
def Kernel.Asleep (s : Kernel n) (i : Slot) (ch : Chan Slot) : Prop :=
  (s.table i).state = sleeping ∧ (s.table i).chan = some ch

/-- In the run from `s` over the actions `as`, the process in slot `i` was `SLEEPING` on the
channel, and a call to `wakeup1` for it or a `kill` made it `RUNNABLE`. -/
def Woken (s : Kernel n) (i : Slot) (ch : Chan Slot) (as : List (Act n)) : Prop :=
  ∃ as₁ b as₂ m, as = as₁ ++ b :: as₂ ∧ Run ActStep s as₁ m ∧ m.Enabled b ∧ m.Asleep i ch ∧
    (m.CallsWakeup1 (some ch) b ∨ m.Kills i b) ∧ ((m.next b).table i).state = runnable

lemma Woken.append (h : Woken s i ch as) (a : Act n) : Woken s i ch (as ++ [a]) := by
  obtain ⟨as₁, b, as₂, m, rfl, h⟩ := h
  exact ⟨as₁, b, as₂ ++ [a], m, by simp, h⟩

/-- The process in slot `i` has called `sleep(ad, lk)` at `k` and is not `SLEEPING` yet. -/
def Kernel.Entering (s : Kernel n) (i : Slot) (ad lk : ℕ) (k : Context) : Prop :=
  ∃ c x, s.At c i x ∧ (x = .sleepEnter ad lk k ∨ x = .sleepBoth ad lk k ∨ x = .sleepSet ad lk k)

/-- A process at a point where it cannot be interrupted stays there until it acts itself. -/
lemma SyncInv.at_of_not_own (h : SyncInv s) (he : s.Enabled a) {c : Fin n} {x : Context}
    (hat : s.At c i x) (hx : x.interruptible = false) (hown : a.own ≠ some i) :
    (s.next a).At c i x := by
  have hne : c ≠ a.cpu := by
    rintro rfl
    exact hown (own_of_busy he hat hx)
  have hrun := h.cpu.running_of_at hat
  have hspec := h.toCoherent.spectates he (by simp [hrun]) hown
  refine ⟨?_, ?_, hspec.context.trans hat.2.2⟩
  · rw [cpus_next_of_ne hne]
    exact hat.1
  · rw [cpus_next_of_ne hne]
    exact hat.2.1

/-- A process that enters `sleep` goes on entering, or goes to sleep. -/
lemma Kernel.Entering.step {ad lk : ℕ} {k : Context} (hin : s.Entering i ad lk k) (h : SyncInv s)
    (he : s.Enabled a) : (s.next a).Entering i ad lk k ∨
      (s.next a).Asleep i (.addr ad) ∧ ((s.next a).table i).context = .slept lk k := by
  obtain ⟨c, x, hat, hx⟩ := hin
  by_cases hown : a.own = some i
  · have hpoint : a.point = x := (at_of_own he hown).2.2.symm.trans hat.2.2
    have hmove := h.sleep_moves he hown
    rw [hpoint] at hmove
    obtain rfl : c = a.cpu := h.cpu.inj c a.cpu i hat.2.1 (at_of_own he hown).2.1
    rcases hx with rfl | rfl | rfl
    · rw [hmove]
      exact Or.inl ⟨a.cpu, _, ⟨by simp [Kernel.next, hat.1], by simp [Kernel.next, hat.2.1],
        by simp [Kernel.next]⟩, Or.inr (Or.inl rfl)⟩
    · rw [hmove]
      exact Or.inl ⟨a.cpu, _, ⟨by simp [Kernel.next, hat.1], by simp [Kernel.next, hat.2.1],
        by simp [Kernel.next]⟩, Or.inr (Or.inr rfl)⟩
    · rw [hmove]
      exact Or.inr ⟨⟨by simp [Kernel.next], by simp [Kernel.next]⟩, by simp [Kernel.next]⟩
  · have hbusy : x.interruptible = false := by rcases hx with rfl | rfl | rfl <;> rfl
    exact Or.inl ⟨c, x, h.at_of_not_own he hat hbusy hown, hx⟩

/-- A sleeper sleeps on, or is woken up by a call to `wakeup1` for its channel or by a kill. -/
lemma SyncInv.asleep_step (h : SyncInv s) (hs : s.Asleep i ch) (he : s.Enabled a) :
    ((s.next a).table i).context = (s.table i).context ∧
      ((s.next a).Asleep i ch ∨ ((s.next a).table i).state = runnable ∧
        (s.CallsWakeup1 (some ch) a ∨ s.Kills i a)) := by
  obtain ⟨hst, hchan⟩ := hs
  have hspec := h.toCoherent.spectates_of_waiting he (Or.inl hst)
  refine ⟨hspec.context, ?_⟩
  rcases hspec.state with hsame | ⟨hrun, -⟩ | ⟨-, hrun, hwake⟩
  · exact Or.inl ⟨hsame.trans hst, hspec.chan.trans hchan⟩
  · simp [hst] at hrun
  · exact Or.inr ⟨hrun, by rwa [hchan] at hwake⟩

/-- The process in slot `i` waits for a CPU or has one. -/
def Kernel.Awake (s : Kernel n) (i : Slot) : Prop :=
  (s.table i).state = runnable ∨ (s.table i).state = running

/-- An awake process that does not act stays awake, at the same point. -/
lemma SyncInv.awake_step (h : SyncInv s) (hs : s.Awake i) (he : s.Enabled a)
    (hown : a.own ≠ some i) :
    ((s.next a).table i).context = (s.table i).context ∧ (s.next a).Awake i := by
  have halive : (s.table i).state.Alive := by rcases hs with hs | hs <;> simp [hs]
  have hspec := h.toCoherent.spectates he halive hown
  refine ⟨hspec.context, ?_⟩
  rcases hspec.state with hsame | ⟨-, hrun⟩ | ⟨hsleep, -⟩
  · rw [Kernel.Awake, hsame]
    exact hs
  · exact Or.inr hrun
  · rcases hs with hs | hs <;> simp [hs] at hsleep

/-- **The stages of `sleep`** along a run: entering, asleep, and woken. After that the process
is awake, at one of the points `tail`, until it returns by an action of `ret`. -/
lemma sleep_stages (entering : Kernel n → Prop) (tail : Context → Prop) (ret : Act n → Prop)
    (h : SyncInv s₁) (h0 : entering s₁ ∨ s₁.Asleep i ch ∧ tail (s₁.table i).context)
    (henter : ∀ {s a}, SyncInv s → s.Enabled a → entering s → entering (s.next a) ∨
      (s.next a).Asleep i ch ∧ tail ((s.next a).table i).context)
    (htail : ∀ {s a}, SyncInv s → s.Enabled a → a.own = some i → tail (s.table i).context →
      ret a ∨ tail ((s.next a).table i).context ∧ (s.next a).Awake i)
    (hrun : Run ActStep s₁ as s₂) :
    entering s₂ ∨ s₂.Asleep i ch ∧ tail (s₂.table i).context ∨
      Woken s₁ i ch as ∧ ((∃ b ∈ as, ret b) ∨ tail (s₂.table i).context ∧ s₂.Awake i) := by
  refine Run.invariant (I := fun as s => entering s ∨ s.Asleep i ch ∧ tail (s.table i).context ∨
    Woken s₁ i ch as ∧ ((∃ b ∈ as, ret b) ∨ tail (s.table i).context ∧ s.Awake i)) ?_ ?_ hrun
  · rcases h0 with h0 | h0
    · exact Or.inl h0
    · exact Or.inr (Or.inl h0)
  · rintro as a m m' hrun₁ hstage ⟨he, rfl⟩
    have hm := h.run hrun₁
    rcases hstage with hin | ⟨hsleep, ht⟩ | ⟨hwoken, hback⟩
    · rcases henter hm he hin with hin | hsleep
      · exact Or.inl hin
      · exact Or.inr (Or.inl hsleep)
    · obtain ⟨hctx, hsleep' | ⟨hrun, hwake⟩⟩ := hm.asleep_step hsleep he
      · exact Or.inr (Or.inl ⟨hsleep', by rwa [hctx]⟩)
      · exact Or.inr (Or.inr ⟨⟨as, a, [], m, rfl, hrun₁, he, hsleep, hwake, hrun⟩,
          Or.inr ⟨by rwa [hctx], Or.inl hrun⟩⟩)
    · refine Or.inr (Or.inr ⟨hwoken.append a, ?_⟩)
      rcases hback with ⟨b, hb, hret⟩ | ⟨ht, hawake⟩
      · exact Or.inl ⟨b, List.mem_append_left _ hb, hret⟩
      · by_cases hown : a.own = some i
        · rcases htail hm he hown ht with hret | hnext
          · exact Or.inl ⟨a, by simp, hret⟩
          · exact Or.inr hnext
        · obtain ⟨hctx, hawake'⟩ := hm.awake_step hawake he hown
          exact Or.inr ⟨by rwa [hctx], hawake'⟩

/-! ### Wakers -/

/-- After a call to `wakeup1(ch)` nobody is `SLEEPING` on the channel. -/
lemma SyncInv.not_asleep (h : SyncInv s) (he : s.Enabled a) (hw : s.CallsWakeup1 (some ch) a)
    (j : Slot) : ¬ (s.next a).Asleep j ch := by
  cases a with
  | wakeup c ch' =>
      obtain rfl : ch = ch' := Option.some.inj hw
      obtain ⟨st, -, hj, hwake⟩ := wakeup1_apply s.table (some ch) j
      rintro ⟨hst, hchan⟩
      simp only [Kernel.next, hj] at hst hchan
      exact hwake hchan hst
  | exitSched c i =>
      have heff := exitTable_effect initSlot s.table i
      rw [← h.role.init] at heff
      rintro ⟨hst, hchan⟩
      have hji : j ≠ i := by
        rintro rfl
        simp [Kernel.next, exitTable] at hst
      obtain ⟨st, -, hj⟩ := exitTable_apply s.initproc s.table i j
      simp only [Kernel.next, Kernel.sched, Kernel.goto, Kernel.setPc, Kernel.setCpu,
        Kernel.acquire, setContext_of_ne hji] at hst hchan
      have hchan' : (s.table j).chan = some ch := by rw [← hchan, hj]
      rcases hw with hpar | ⟨hip, p, hp, hz⟩
      · exact heff.wakesParent j (hchan'.trans hpar) hst
      · rw [h.role.init] at hip
        exact heff.wakesInit p hp hz j (hchan'.trans hip) hst
  | _ => cases hw

/-- What the waker `b` finds of the process in slot `i`, which has called `sleep` on the channel
in `s₁`, and how it leaves it. `ret` are the actions by which that call returns. -/
structure WakeupArrives (s₁ s₂ : Kernel n) (i : Slot) (ch : Chan Slot) (as : List (Act n))
    (b : Act n) (ret : Act n → Prop) : Prop where
  finds : s₂.Asleep i ch ∨ Woken s₁ i ch as
  leaves : ¬ (s₂.next b).Asleep i ch
  awake : (∀ a ∈ as, ¬ ret a) → ((s₂.next b).table i).state ≠ sleeping

lemma Kernel.Awake.ne_sleeping (h : s.Awake i) : (s.table i).state ≠ sleeping := by
  rcases h with h | h <;> simp [h]

/-- A waker that meets the process in one of the last two stages. -/
lemma wakeupArrives_of_stage (tail : Context → Prop) {ret : Act n → Prop} {b : Act n}
    (h : SyncInv s₂)
    (htail : ∀ {s a}, SyncInv s → s.Enabled a → a.own = some i → tail (s.table i).context →
      ret a ∨ tail ((s.next a).table i).context ∧ (s.next a).Awake i)
    (hstage : s₂.Asleep i ch ∧ tail (s₂.table i).context ∨
      Woken s₁ i ch as ∧ ((∃ b ∈ as, ret b) ∨ tail (s₂.table i).context ∧ s₂.Awake i))
    (he : s₂.Enabled b) (hw : s₂.CallsWakeup1 (some ch) b) (hret : ¬ ret b) :
    WakeupArrives s₁ s₂ i ch as b ret := by
  have hleft := h.not_asleep he hw i
  refine ⟨?_, hleft, fun hnone => ?_⟩
  · rcases hstage with ⟨hs, -⟩ | ⟨hs, -⟩
    · exact Or.inl hs
    · exact Or.inr hs
  · rcases hstage with ⟨hs, -⟩ | ⟨-, ⟨a, ha, hra⟩ | ⟨ht, hawake⟩⟩
    · obtain ⟨-, hs' | ⟨hrun, -⟩⟩ := h.asleep_step hs he
      · exact absurd hs' hleft
      · simp [hrun]
    · exact absurd hra (hnone a ha)
    · by_cases hown : b.own = some i
      · rcases htail h he hown ht with hrb | ⟨-, hawake'⟩
        · exact absurd hrb hret
        · exact hawake'.ne_sleeping
      · exact (h.awake_step hawake he hown).2.ne_sleeping

/-- `wakeup1` is called with `ptable.lock` free before. -/
lemma lock_of_callsWakeup1 {ch : Option (Chan Slot)} (he : s.Enabled a)
    (hw : s.CallsWakeup1 ch a) : s.lock = none := by
  cases a with
  | wakeup c ch' => exact he.2
  | exitSched c i => exact he.2.2
  | _ => cases hw

/-- A waker that holds the lock of `sleep` does not meet the process while it enters: it would
be executed by the CPU that holds this lock, or by the one that holds `ptable.lock`. -/
lemma Kernel.Entering.not_wakeup {ad lk : ℕ} {k : Context} (hin : s.Entering i ad lk k)
    (h : SyncInv s) {c : Fin n} {ch : Chan Slot} (he : s.Enabled (.wakeup c ch)) :
    s.locks lk ≠ some c := by
  obtain ⟨c', x, hat, hx⟩ := hin
  intro hlk
  have hfree : s.lock = none := he.2
  rcases hx with rfl | rfl | rfl
  · obtain ⟨c'', hat'', hlk'⟩ := h.locks.held i lk (by rw [hat.2.2]; rfl)
    obtain rfl := Option.some.inj (hlk.symm.trans hlk')
    have hown := own_of_busy he hat'' (by rw [hat.2.2]; rfl)
    cases hown
  · have hl := (h.cpu.lock_of_at hat).mpr rfl
    simp [hfree] at hl
  · have hl := (h.cpu.lock_of_at hat).mpr rfl
    simp [hfree] at hl

/-! ### `sleep` with `ptable.lock` -/

/-- `sleep(ch, &ptable.lock)`, called from `wait`: no lock is exchanged, so the state changes
and `sched()` is called without a gap. -/
def Kernel.sleepLocked (s : Kernel n) (c : Fin n) (i : Slot) (ch : Chan Slot) : Kernel n :=
  (s.setSleeping i ch).sched c i .waitSleep

/-- `wait` goes to sleep in this way. -/
lemma next_waitScan_of_sleeping {c : Fin n} (h : SyncInv s) (he : s.Enabled (.waitScan c i))
    (hs : ((s.next (.waitScan c i)).table i).state = sleeping) :
    s.next (.waitScan c i) = s.sleepLocked c i (.proc i) := by
  have hrun := h.cpu.running_of_at he
  cases hw : waitLoop s.table i slots false with
  | mk havekids z =>
      cases z with
      | some z =>
          have hne : i ≠ z := by
            rintro rfl
            simp [(waitLoop_some hw).2] at hrun
          simp [Kernel.next, hw, reap, hne, hrun] at hs
      | none =>
          by_cases hgo : havekids = false ∨ (s.table i).killed = true
          · simp [Kernel.next, hw, hgo, hrun] at hs
          · simp only [Kernel.next, hw, if_neg hgo]
            rfl

/-- The invariants hold after `sleep(ch, &ptable.lock)`, whatever the channel. -/
lemma SyncInv.sleepLocked {c : Fin n} (h : SyncInv s) (hat : s.At c i .waitScan) (ch : Chan Slot) :
    SyncInv (s.sleepLocked c i ch) := by
  have hrun := h.cpu.running_of_at hat
  have hself : ((s.sleepLocked c i ch).table i).state = sleeping ∧
      ((s.sleepLocked c i ch).table i).context = .waitSleep := by
    simp [Kernel.sleepLocked]
  have hsame : ∀ j, j ≠ i → (s.sleepLocked c i ch).table j = s.table j := fun j hj => by
    simp [Kernel.sleepLocked, hj]
  have hcpus : ∀ c', c' ≠ c → (s.sleepLocked c i ch).cpus c' = s.cpus c' := fun c' hc => by
    simp [Kernel.sleepLocked, hc]
  refine ⟨⟨?_, ?_, ?_⟩, fun j => ?_, fun j lk hlk => ?_, fun c' => ?_⟩
  · exact h.cpu.parkOwn .waitSleep rfl hat
      (sched_cpus .waitSleep (CpuInv.same_cpus hat rfl)) (h.cpu.ne_of_at hat rfl)
      ((h.cpu.lock_of_at hat).mpr rfl) ⟨by simp [hself.1], hself.2⟩ hsame
  · exact h.role.own h.cpu hat .waitSleep rfl hself.2 trivial (Or.inl rfl) hsame
  · simp only [Kernel.sleepLocked, Kernel.sched, Kernel.goto, Kernel.setPc, Kernel.setCpu,
      Kernel.setSleeping, entries_setContext, entries_update]
    refine h.tree.update rfl (fun _ => alive_sleeping) (fun _ => ?_) (fun hu => by cases hu)
    rw [Table.entries, hrun]
    exact born_running
  · rcases eq_or_ne j i with rfl | hj
    · rw [hself.2]
      trivial
    · rw [hsame j hj]
      exact h.locks.nested j
  · have hj : j ≠ i := by
      rintro rfl
      rw [hself.2] at hlk
      cases hlk
    rw [hsame j hj] at hlk ⊢
    obtain ⟨c', hat', hheld⟩ := h.locks.held j lk hlk
    have hne : c' ≠ c := by
      rintro rfl
      exact hj (Option.some.inj (hat'.2.1.symm.trans hat.2.1))
    refine ⟨c', ⟨?_, ?_, by rw [hsame j hj]⟩, hheld⟩
    · rw [hcpus c' hne]
      exact hat'.1
    · rw [hcpus c' hne]
      exact hat'.2.1
  · have hncli : ((s.sleepLocked c i ch).cpus c').ncli = (s.cpus c').ncli := by
      rcases eq_or_ne c' c with rfl | hc
      · simp [Kernel.sleepLocked]
      · rw [hcpus c' hc]
    obtain ⟨F, hF, hcard⟩ := h.locks.count c'
    exact ⟨F, hF, hncli.trans hcard⟩

/-! ### No lost wakeup -/

/-- The points of `sleep(ad, lk)` called at `k`, from the state change on. -/
def Context.Leaving (lk : ℕ) (k x : Context) : Prop :=
  x = .slept lk k ∨ x = .sleepRelock lk k ∨ x = .yielded (.sleepRelock lk k)

/-- On its way out of `sleep` the process stays awake until it has `lk` again. -/
lemma SyncInv.leaving_step {lk : ℕ} {k : Context} (h : SyncInv s) (he : s.Enabled a)
    (hown : a.own = some i) (hx : Context.Leaving lk k (s.table i).context) :
    (∃ c, a = .sleepRelock c i lk k) ∨
      Context.Leaving lk k ((s.next a).table i).context ∧ (s.next a).Awake i := by
  have hat := at_of_own he hown
  have hrun := h.cpu.running_of_at hat
  have hmove := h.sleep_moves he hown
  rw [← hat.2.2] at hmove
  rw [context_of_own he hown]
  rcases hx with hx | hx | hx <;> rw [hx] at hmove
  · rw [hmove]
    refine Or.inr ⟨Or.inr (Or.inl rfl), Or.inr ?_⟩
    simpa [Kernel.next] using hrun
  · rcases hmove with hmove | hmove
    · exact Or.inl ⟨_, hmove⟩
    · rw [hmove]
      refine Or.inr ⟨Or.inr (Or.inr rfl), Or.inl ?_⟩
      simp [Kernel.next]
  · rw [hmove]
    refine Or.inr ⟨Or.inr (Or.inl rfl), Or.inr ?_⟩
    simpa [Kernel.next] using hrun

/-- **No lost wakeup.** When a process that holds `lk` has called `sleep(ad, lk)`, a call to
`wakeup(ad)` by a CPU that holds `lk`, after any further steps of the machine, finds it
`SLEEPING` on the channel or woken up before, and leaves it awake, unless `sleep` has returned
in the meantime. The same holds of a call to `wakeup1` when `lk` is `ptable.lock`, as in `wait`.
No `wakeup1` is called while a process is between the release of `lk` and the state change. -/
theorem no_lost_wakeup {ok : Kernel n → Act n → Prop} (h : Reachable ok s) :
    (∀ c i ad lk k, s.Enabled (.sleepCall c i ad lk k) →
      ∀ as s', Run ActStep (s.next (.sleepCall c i ad lk k)) as s' →
      ∀ c', s'.Enabled (.wakeup c' (.addr ad)) → s'.locks lk = some c' →
        WakeupArrives (s.next (.sleepCall c i ad lk k)) s' i (.addr ad) as
          (.wakeup c' (.addr ad)) fun b => ∃ c₁, b = .sleepRelock c₁ i lk k) ∧
    (∀ c i ch, s.At c i .waitScan →
      ∀ as s', Run ActStep (s.sleepLocked c i ch) as s' →
      ∀ b, s'.Enabled b → s'.CallsWakeup1 (some ch) b →
        WakeupArrives (s.sleepLocked c i ch) s' i ch as b fun b => ∃ c₁, b = .waitWake c₁ i) ∧
    (∀ c i, s.Enabled (.waitScan c i) → ((s.next (.waitScan c i)).table i).state = sleeping →
      s.next (.waitScan c i) = s.sleepLocked c i (.proc i)) ∧
    ∀ b ch, s.Enabled b → s.CallsWakeup1 ch b → ∀ c i ad lk k, ¬ s.At c i (.sleepSet ad lk k) := by
  have hs := h.syncInv
  refine ⟨fun c i ad lk k he as s' hrun c' hwake hlk => ?_, fun c i ch hat as s' hrun b hb hw => ?_,
    fun c i he => next_waitScan_of_sleeping hs he, fun b ch hb hw c i ad lk k hat => ?_⟩
  · have htail : ∀ {s : Kernel n} {a : Act n}, SyncInv s → s.Enabled a → a.own = some i →
        Context.Leaving lk k (s.table i).context → (∃ c₁, a = .sleepRelock c₁ i lk k) ∨
          Context.Leaving lk k ((s.next a).table i).context ∧ (s.next a).Awake i :=
      fun h he hown hx => h.leaving_step he hown hx
    have hin : (s.next (.sleepCall c i ad lk k)).Entering i ad lk k :=
      ⟨c, _, ⟨he.1.1, he.1.2.1, context_of_own he rfl⟩, Or.inl rfl⟩
    have hs₁ := hs.step he
    rcases sleep_stages (fun s => s.Entering i ad lk k) (Context.Leaving lk k) _ hs₁ (Or.inl hin)
      (fun h he hin => (hin.step h he).imp id fun hsleep => ⟨hsleep.1, Or.inl hsleep.2⟩) htail hrun
      with hin' | hstage
    · exact absurd hlk (hin'.not_wakeup (hs₁.run hrun) hwake)
    · exact wakeupArrives_of_stage _ (hs₁.run hrun) htail hstage hwake rfl (by simp)
  · have hs₁ := hs.sleepLocked hat ch
    have htail : ∀ {s : Kernel n} {a : Act n}, SyncInv s → s.Enabled a → a.own = some i →
        (s.table i).context = .waitSleep → (∃ c₁, a = .waitWake c₁ i) ∨
          ((s.next a).table i).context = .waitSleep ∧ (s.next a).Awake i := by
      intro s a h he hown hx
      have hmove := h.sleep_moves he hown
      rw [← (at_of_own he hown).2.2, hx] at hmove
      exact Or.inl ⟨_, hmove⟩
    have h0 : (s.sleepLocked c i ch).Asleep i ch ∧
        ((s.sleepLocked c i ch).table i).context = .waitSleep := by
      simp [Kernel.sleepLocked, Kernel.Asleep]
    rcases sleep_stages (fun _ => False) (· = .waitSleep) (fun b => ∃ c₁, b = .waitWake c₁ i) hs₁
      (Or.inr h0) (fun _ _ hin => hin.elim) htail hrun with hin | hstage
    · exact hin.elim
    · refine wakeupArrives_of_stage (· = .waitSleep) (hs₁.run hrun) htail hstage hb hw ?_
      rintro ⟨c₁, rfl⟩
      exact hw
  · have hfree := lock_of_callsWakeup1 hb hw
    have hl := (hs.cpu.lock_of_at hat).mpr rfl
    simp [hfree] at hl

/-- The first process calls `sleep(5, 7)` with the lock held. -/
def sleepCalled : Kernel 2 :=
  ((machine 2).exec (boot 2) (pairRun ++ ([.acquireLk 0 7] : List (Act 2)))).next
    (.sleepCall 0 0 5 7 .user)

/-- The other CPU acquires the lock as soon as `sleep` has released it, before the state
change. -/
def sleepRun : List (Act 2) :=
  [.sleepAcquire 0 0 5 7 .user, .sleepRelease 0 0 5 7 .user, .acquireLk 1 7,
    .sleepSched 0 0 5 7 .user, .schedBack 0, .schedRelease 0]

theorem no_lost_wakeup_sleepRun :
    ((machine 2).exec sleepCalled sleepRun).Asleep 0 (.addr 5) ∧
    ((((machine 2).exec sleepCalled sleepRun).next (.wakeup 1 (.addr 5))).table 0).state
      ≠ sleeping := by
  have hreach : Reachable AnyAct
      ((machine 2).exec (boot 2) (pairRun ++ ([.acquireLk 0 7] : List (Act 2)))) :=
    reachable_exec (by decide +kernel)
  have hwake := (no_lost_wakeup hreach).1 0 0 5 7 .user (by decide +kernel) sleepRun _
    (actRun (by decide +kernel : (machine 2).Allowed AnyAct sleepCalled sleepRun)) 1
    (by decide +kernel) (by decide +kernel)
  refine ⟨?_, hwake.awake (by simp [sleepRun])⟩
  exact ⟨by decide +kernel, by decide +kernel⟩

end Xv6Lottery
