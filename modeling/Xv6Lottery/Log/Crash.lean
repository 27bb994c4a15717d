import Xv6Lottery.Log.Reserve

/-!
Crashes: the blocks of the file system after recovery.

A crash may come after any step of any run. The blocks of the file system that recovery leaves
are those written by the system calls before the last commit, all of them and no others.

* `replay`: the blocks after a history of writes.
* `Redo`: the disk together with its log holds given contents. `Redo.recover` and
  `Redo.interrupted`: recovery restores them, also after it has been interrupted.
* `Phase`, `Stored`: how far the process that commits has come, and what is in the log, in the
  cache and on the disk. `Stored.step` goes through the moves.
* `crash_atomic`: **a crash keeps all of the calls that were committed and nothing of the others.**
-/

namespace Xv6Lottery

open Library Monitor

namespace Log

/-! ### Recovery -/

/-- The blocks of the log lie below those of the file system. -/
lemma log_block_lt {k : ℕ} (hk : k < nlog - 1) : logstart + k + 1 < inodestart := by
  simp only [inodestart, nlog, LOGSIZE, MAXOPBLOCKS, logstart] at *
  omega

lemma ne_logstart {b : ℕ} (hb : inodestart ≤ b) : b ≠ logstart := by
  simp only [inodestart, nlog, LOGSIZE, MAXOPBLOCKS, logstart] at *
  omega

/-- The header that is written is the header that is read. -/
lemma headOf_encode (lh : Logheader) (old : Block) (d : Disk) :
    (headOf (Function.update d logstart (lh.encode old))).n = lh.n ∧
    ∀ k < lh.n, (headOf (Function.update d logstart (lh.encode old))).block k = lh.block k := by
  refine ⟨by simp [headOf, Logheader.decode, Logheader.encode], fun k hk => ?_⟩
  simp only [headOf, Logheader.decode, Logheader.encode, Function.update_self, if_true, if_pos hk,
    Nat.add_one_ne_zero, if_false, Nat.add_sub_cancel]
  rw [if_pos (by omega)]

/-- Only the header block matters for the header. -/
lemma headOf_update {d : Disk} {b : ℕ} {data : Block} (hb : b ≠ logstart) :
    headOf (Function.update d b data) = headOf d := by
  simp only [headOf, Function.update_of_ne (Ne.symm hb)]

/-- The log on the disk `d` and the blocks that are not in it hold the contents `T`. -/
structure Redo (T : Disk) (d : Disk) : Prop where
  room : (headOf d).n ≤ nlog - 1
  home : ∀ k < (headOf d).n, inodestart ≤ (headOf d).block k
  copy : ∀ k < (headOf d).n, d (logstart + k + 1) = T ((headOf d).block k)
  rest : ∀ b ≥ inodestart, (∀ k < (headOf d).n, (headOf d).block k ≠ b) → d b = T b

namespace Redo

variable {T d d' : Disk} (h : Redo T d)
include h

/-- The blocks below those of the file system are left alone by `install_trans`. -/
lemma installed_low {k : ℕ} (hk : k ≤ (headOf d).n) {b : ℕ} (hb : b < inodestart) :
    installed (headOf d) d k b = d b := by
  induction k with
  | zero => rfl
  | succ k ih =>
      have hhome := h.home k hk
      rw [installed, Function.update_of_ne (by omega), ih (by omega)]

omit h in
/-- The other blocks stay. -/
lemma installed_rest {k : ℕ} {b : ℕ} (hb : ∀ j < k, (headOf d).block j ≠ b) :
    installed (headOf d) d k b = d b := by
  induction k with
  | zero => rfl
  | succ k ih =>
      rw [installed, Function.update_of_ne (Ne.symm (hb k (by omega)))]
      exact ih fun j hj => hb j (by omega)

/-- Recovery that is interrupted leaves a disk from which it can start again. -/
lemma interrupted (hi : Interrupted d d') : Redo T d' := by
  obtain ⟨k, hk, rfl⟩ := hi
  have hhead : headOf (installed (headOf d) d k) = headOf d := by
    rw [headOf, h.installed_low hk (by simp)]
    rfl
  have hroom := h.room
  refine ⟨by rwa [hhead], by rw [hhead]; exact h.home, ?_, ?_⟩
  · rw [hhead]
    intro j hj
    rw [h.installed_low hk (log_block_lt (by omega)), h.copy j hj]
  · rw [hhead]
    intro b hb hrest
    rw [installed_rest fun j hj => hrest j (by omega), h.rest b hb hrest]

end Redo

/-- With an empty log, the disk itself holds the contents. -/
lemma redo_of_clean {T d : Disk} (hn : (headOf d).n = 0) (hd : ∀ b ≥ inodestart, d b = T b) :
    Redo T d where
  room := by simp [hn]
  home k hk := by omega
  copy k hk := by omega
  rest b hb _ := hd b hb

/-! ### Histories -/

/-- One event, as far as the blocks are concerned. -/
def apply (d : Disk) : LogEvent → Disk
  | .wrote b data => Function.update d b data
  | _ => d

/-- The blocks after the writes of a history. -/
def replay (d : Disk) (h : List LogEvent) : Disk := h.foldl apply d

lemma replay_append (d : Disk) (h h' : List LogEvent) :
    replay d (h ++ h') = replay (replay d h) h' :=
  List.foldl_append

/-- The number of system calls that have begun. -/
def beganCount (h : List LogEvent) : ℕ :=
  h.countP fun
    | .began => true
    | _ => false

/-- The number of system calls that have ended. -/
def endedCount (h : List LogEvent) : ℕ :=
  h.countP fun
    | .ended => true
    | _ => false

@[simp] lemma beganCount_append (h h' : List LogEvent) :
    beganCount (h ++ h') = beganCount h + beganCount h' :=
  List.countP_append

@[simp] lemma endedCount_append (h h' : List LogEvent) :
    endedCount (h ++ h') = endedCount h + endedCount h' :=
  List.countP_append

/-- The block that a call of `log_write` in progress is about. -/
def Place.pending : Place → Option ℕ
  | .check _ b | .log _ b => some b
  | _ => none

lemma Place.inOp_of_pending {t : Place} {b : ℕ} (h : t.pending = some b) : t.inOp = true := by
  cases t <;> first | rfl | cases h

/-! ### The invariant -/

/-- The first `k` blocks of the transaction have been copied to the log. -/
def Copied (s : LogState) (k : ℕ) : Prop :=
  ∀ j < k, s.disk (logstart + j + 1) = s.cache (s.lh.block j) ∧
    s.cache (logstart + j + 1) = s.cache (s.lh.block j)

/-- The log has been written, and the first `k` blocks have been installed; `T` is what has been
committed. -/
structure Installing (T : Disk) (s : LogState) (k : ℕ) : Prop where
  le : k ≤ s.lh.n
  head_n : (headOf s.disk).n = s.lh.n
  head_block : ∀ j < s.lh.n, (headOf s.disk).block j = s.lh.block j
  log : ∀ j < s.lh.n, s.cache (logstart + j + 1) = T (s.lh.block j)
  done : ∀ j < k, s.disk (s.lh.block j) = T (s.lh.block j)

/-- What the process that commits has done. -/
def Phase (T : Disk) (s : LogState) : Place → Prop
  | .writeLog tail => tail ≤ s.lh.n ∧ Copied s tail
  | .writeHead => Copied s s.lh.n
  | .install tail => Installing T s tail
  | .clearHead => ∀ b ≥ inodestart, s.disk b = T b
  | _ => True

/-- The places at which the header on the disk is not empty. -/
def Place.inLog : Place → Bool
  | .install _ | .clearHead => true
  | _ => false

lemma Place.not_inLog {t : Place} (h : t.commits = false) : t.inLog = false := by
  cases t <;> first | rfl | cases h

lemma phase_of_not_commits {t : Place} (h : t.commits = false) (T : Disk) (s : LogState) :
    Phase T s t := by
  cases t <;> trivial

variable {ι : Type}

/-- After the history `h₁` up to the last commit and `h₂` since then: the cache has all writes; the
disk has those of `h₁`, possibly with the help of the log; the blocks that differ are in the
transaction, or about to join it. -/
structure Stored (d : Disk) (h₁ h₂ : List LogEvent) (s : LogState) (places : ι → Place) : Prop where
  cache_eq : ∀ b ≥ inodestart, s.cache b = replay d (h₁ ++ h₂) b
  whole : beganCount h₁ = endedCount h₁
  running : beganCount (h₁ ++ h₂) = endedCount (h₁ ++ h₂) + s.outstanding
  home : ∀ b, s.lh.Has b → inodestart ≤ b
  pending : ∀ i b, (places i).pending = some b → inodestart ≤ b
  covered : ∀ b ≥ inodestart, s.lh.Has b ∨ (∃ i, (places i).pending = some b) ∨
    replay d (h₁ ++ h₂) b = replay d h₁ b
  redo : Redo (replay d h₁) s.disk
  phase : ∀ i, Phase (replay d h₁) s (places i)
  clean : (∀ i, (places i).inLog = false) → (headOf s.disk).n = 0
  settled : ∀ i, (places i).inLog = true →
    ∀ b ≥ inodestart, replay d (h₁ ++ h₂) b = replay d h₁ b
  fresh : .committed ∉ h₂

/-- What a quiet move keeps of the log. -/
lemma Quiet.keeps_log {s : LogState} {t t' : Place} (h : Quiet s t t') :
    t'.pending = t.pending ∧ t'.inLog = t.inLog ∧ ∀ T, Phase T s t → Phase T s t' := by
  cases h with
  | stay => exact ⟨rfl, rfl, fun _ => id⟩
  | writeLog hn => exact ⟨rfl, rfl, fun _ _ => ⟨Nat.zero_le _, fun j hj => absurd hj (by omega)⟩⟩
  | writeHead hn =>
      refine ⟨rfl, rfl, fun T hphase j hj => hphase.2 j ?_⟩
      exact hj.trans_le hn
  | _ => exact ⟨rfl, rfl, fun _ _ => trivial⟩

variable [DecidableEq ι]

lemma phase_update {T : Disk} {s : LogState} {places : ι → Place} {i : ι} {t' : Place}
    (ht : Phase T s t') (hothers : ∀ k ≠ i, (places k).commits = false) (k : ι) :
    Phase T s (Function.update places i t' k) := by
  rcases eq_or_ne k i with rfl | hk
  · rwa [Function.update_self]
  · rw [Function.update_of_ne hk]
    exact phase_of_not_commits (hothers k hk) T s

namespace Stored

variable {d : Disk} {h₁ h₂ : List LogEvent} {s s' : LogState} {places : ι → Place} {i : ι}
  {t' : Place} (hst : Stored d h₁ h₂ s places)
include hst

/-- A move that changes nothing but the place. -/
lemma place (hpending : t'.pending = (places i).pending) (hlog : t'.inLog = (places i).inLog)
    (hphase : Phase (replay d h₁) s (places i) → Phase (replay d h₁) s t') :
    Stored d h₁ h₂ s (Function.update places i t') := by
  have hp : ∀ k, (Function.update places i t' k).pending = (places k).pending := by
    intro k
    rcases eq_or_ne k i with rfl | hk
    · rw [Function.update_self, hpending]
    · rw [Function.update_of_ne hk]
  have hl : ∀ k, (Function.update places i t' k).inLog = (places k).inLog := by
    intro k
    rcases eq_or_ne k i with rfl | hk
    · rw [Function.update_self, hlog]
    · rw [Function.update_of_ne hk]
  refine { hst with pending := ?_, covered := ?_, phase := ?_, clean := ?_, settled := ?_ }
  · exact fun k b hk => hst.pending k b (hp k ▸ hk)
  · simp only [hp]
    exact hst.covered
  · intro k
    rcases eq_or_ne k i with rfl | hk
    · rw [Function.update_self]
      exact hphase (hst.phase k)
    · rw [Function.update_of_ne hk]
      exact hst.phase k
  · simp only [hl]
    exact hst.clean
  · exact fun k hk => hst.settled k (hl k ▸ hk)

/-- A move of a system call, when nobody commits. The disk stays. -/
lemma call {h₂' : List LogEvent} (hnone : ∀ k, (places k).commits = false)
    (hdisk : s'.disk = s.disk) (hlog : t'.inLog = false) (hphase : Phase (replay d h₁) s' t')
    (hcache : ∀ b ≥ inodestart, s'.cache b = replay d (h₁ ++ h₂') b)
    (hrunning : beganCount (h₁ ++ h₂') = endedCount (h₁ ++ h₂') + s'.outstanding)
    (hhome : ∀ b, s'.lh.Has b → inodestart ≤ b)
    (hpending : ∀ b, t'.pending = some b → inodestart ≤ b)
    (hcovered : ∀ b ≥ inodestart, s'.lh.Has b ∨
      (∃ k, (Function.update places i t' k).pending = some b) ∨
      replay d (h₁ ++ h₂') b = replay d h₁ b)
    (hfresh : .committed ∉ h₂') :
    Stored d h₁ h₂' s' (Function.update places i t') := by
  have hl : ∀ k, (Function.update places i t' k).inLog = false := by
    intro k
    rcases eq_or_ne k i with rfl | hk
    · rw [Function.update_self, hlog]
    · rw [Function.update_of_ne hk]
      exact Place.not_inLog (hnone k)
  have hclean : (headOf s.disk).n = 0 := hst.clean fun k => Place.not_inLog (hnone k)
  refine
    { cache_eq := hcache
      whole := hst.whole
      running := hrunning
      home := hhome
      pending := ?_
      covered := hcovered
      redo := hdisk ▸ hst.redo
      phase := phase_update hphase fun k _ => hnone k
      clean := fun _ => hdisk ▸ hclean
      settled := fun k hk => by simp [hl k] at hk
      fresh := hfresh }
  intro k b hk
  rcases eq_or_ne k i with rfl | hne
  · exact hpending b (by rwa [Function.update_self] at hk)
  · exact hst.pending k b (by rwa [Function.update_of_ne hne] at hk)

/-- A block is modified. -/
lemma write {ws : List ℕ} {b : ℕ} {data : Block} (hnone : ∀ k, (places k).commits = false)
    (hi : places i = .op ws) (hb : inodestart ≤ b) :
    Stored d h₁ (h₂ ++ [.wrote b data]) { s with cache := Function.update s.cache b data }
      (Function.update places i (.check ws b)) := by
  have hreplay : replay d (h₁ ++ (h₂ ++ [.wrote b data])) =
      Function.update (replay d (h₁ ++ h₂)) b data := by
    rw [← List.append_assoc, replay_append]
    rfl
  refine hst.call hnone rfl rfl trivial ?_ ?_ hst.home ?_ ?_ (by simpa using hst.fresh)
  · intro c hc
    rw [hreplay]
    rcases eq_or_ne c b with rfl | hne
    · simp
    · simpa [hne] using hst.cache_eq c hc
  · simpa [beganCount, endedCount] using hst.running
  · rintro c ⟨⟩
    exact hb
  · intro c hc
    rw [hreplay]
    rcases eq_or_ne c b with rfl | hne
    · exact Or.inr (Or.inl ⟨i, by simp [Place.pending]⟩)
    · rw [Function.update_of_ne hne]
      refine (hst.covered c hc).imp_right (Or.imp_left ?_)
      rintro ⟨k, hk⟩
      refine ⟨k, ?_⟩
      rwa [Function.update_of_ne]
      rintro rfl
      rw [hi] at hk
      cases hk

/-- A block joins the transaction. -/
lemma log {ws : List ℕ} {b : ℕ} (hnone : ∀ k, (places k).commits = false)
    (hi : places i = .log ws b) :
    Stored d h₁ h₂ { s with lh := s.lh.add b } (Function.update places i (.logged (b :: ws))) := by
  have hb : inodestart ≤ b := hst.pending i b (by rw [hi]; rfl)
  refine hst.call hnone rfl rfl trivial hst.cache_eq hst.running ?_ (by simp [Place.pending]) ?_
    hst.fresh
  · intro c hc
    rcases (s.lh.has_add b c).mp hc with hc | rfl
    · exact hst.home c hc
    · exact hb
  · intro c hc
    rcases hst.covered c hc with hin | ⟨k, hk⟩ | heq
    · exact Or.inl ((s.lh.has_add b c).mpr (Or.inl hin))
    · rcases eq_or_ne k i with rfl | hne
      · rw [hi] at hk
        obtain rfl : b = c := by simpa [Place.pending] using hk
        exact Or.inl ((s.lh.has_add b b).mpr (Or.inr rfl))
      · exact Or.inr (Or.inl ⟨k, by rwa [Function.update_of_ne hne]⟩)
    · exact Or.inr (Or.inr heq)

/-- A system call begins or ends. -/
lemma count {e : LogEvent} (hnone : ∀ k, (places k).commits = false)
    (hsame : s'.disk = s.disk ∧ s'.cache = s.cache ∧ s'.lh = s.lh)
    (happly : ∀ d, apply d e = d) (he : e ≠ .committed) (hi : (places i).pending = none)
    (ht : t'.pending = none ∧ t'.inLog = false) (hphase : Phase (replay d h₁) s' t')
    (hcount : beganCount [e] + s.outstanding = endedCount [e] + s'.outstanding) :
    Stored d h₁ (h₂ ++ [e]) s' (Function.update places i t') := by
  obtain ⟨hdisk, hcache, hlh⟩ := hsame
  have hreplay : replay d (h₁ ++ (h₂ ++ [e])) = replay d (h₁ ++ h₂) := by
    rw [← List.append_assoc, replay_append]
    exact happly _
  refine hst.call hnone hdisk ht.2 hphase ?_ ?_ ?_ ?_ ?_ ?_
  · rw [hreplay, hcache]
    exact hst.cache_eq
  · have hrun := hst.running
    rw [← List.append_assoc, beganCount_append, endedCount_append]
    omega
  · rw [hlh]
    exact hst.home
  · simp [ht.1]
  · intro c hc
    rw [hreplay, hlh]
    refine (hst.covered c hc).imp_right (Or.imp_left ?_)
    rintro ⟨k, hk⟩
    refine ⟨k, ?_⟩
    rwa [Function.update_of_ne]
    rintro rfl
    simp [hi] at hk
  · simp [hst.fresh, Ne.symm he]

/-! Moves of the process that commits: nobody else commits, and nobody is in a system call. -/

section Commit

variable (hothers : ∀ k ≠ i, (places k).commits = false)
  (hquiet : ∀ k, (places k).pending = none) (hroom : s.lh.n ≤ nlog - 1)

omit [DecidableEq ι] in
include hothers in
/-- Before the header is written, the log on the disk is empty. -/
lemma clean_of (hi : (places i).inLog = false) : (headOf s.disk).n = 0 := by
  refine hst.clean fun k => ?_
  rcases eq_or_ne k i with rfl | hk
  · exact hi
  · exact Place.not_inLog (hothers k hk)

omit hst in
include hothers in
/-- Only the process that commits can be between the two writes of the header. -/
lemma eq_of_inLog {k : ι} (hk : (Function.update places i t' k).inLog = true) :
    k = i ∧ t'.inLog = true := by
  by_cases hki : k = i
  · subst hki
    exact ⟨rfl, by rwa [Function.update_self] at hk⟩
  · rw [Function.update_of_ne hki, Place.not_inLog (hothers k hki)] at hk
    cases hk

omit hst in
include hquiet in
/-- There is no call of `log_write` in progress. -/
lemma pending_update (ht : t'.pending = none) (k : ι) (b : ℕ)
    (hk : (Function.update places i t' k).pending = some b) : inodestart ≤ b := by
  rcases eq_or_ne k i with rfl | hne
  · simp [ht] at hk
  · simp [hne, hquiet k] at hk

omit [DecidableEq ι] in
include hquiet in
/-- Without calls in progress, what is not in the log has not changed. -/
lemma covered' {b : ℕ} (hb : inodestart ≤ b) :
    s.lh.Has b ∨ replay d (h₁ ++ h₂) b = replay d h₁ b := by
  rcases hst.covered b hb with hin | ⟨k, hk⟩ | heq
  · exact Or.inl hin
  · simp [hquiet k] at hk
  · exact Or.inr heq

include hothers hquiet hroom

/-- A block is copied to the log. -/
lemma writeLog {tail : ℕ} (hi : places i = .writeLog tail) (htail : tail < s.lh.n) :
    Stored d h₁ h₂ (s.writeLog tail) (Function.update places i (.writeLog (tail + 1))) := by
  have hlow : logstart + tail + 1 < inodestart := log_block_lt (by omega)
  have hn := hst.clean_of hothers (by rw [hi]; rfl)
  have hhead : headOf (s.writeLog tail).disk = headOf s.disk := headOf_update (by omega)
  have hhome : ∀ b ≥ inodestart, (s.writeLog tail).cache b = s.cache b ∧
      (s.writeLog tail).disk b = s.disk b := by
    intro b hb
    have hne : b ≠ logstart + tail + 1 := by omega
    exact ⟨Function.update_of_ne hne _ _, Function.update_of_ne hne _ _⟩
  obtain ⟨-, hcopied⟩ : tail ≤ s.lh.n ∧ Copied s tail := by
    have hphase := hst.phase i
    rwa [hi] at hphase
  refine
    { hst with
      cache_eq := fun b hb => ((hhome b hb).1).trans (hst.cache_eq b hb)
      pending := pending_update hquiet rfl
      covered := fun b hb => (hst.covered' hquiet hb).imp_right Or.inr
      redo := redo_of_clean (hhead ▸ hn) fun b hb => ?_
      phase := phase_update ⟨htail, ?_⟩ hothers
      clean := fun _ => hhead ▸ hn
      settled := fun k hk => by cases (eq_of_inLog hothers hk).2 }
  · rw [(hhome b hb).2]
    exact hst.redo.rest b hb fun k hk => by omega
  · intro j hj
    have hblock : inodestart ≤ s.lh.block j := hst.home _ ⟨j, by omega, rfl⟩
    have hcache := (hhome _ hblock).1
    rcases Nat.lt_succ_iff_lt_or_eq.mp hj with hlt | rfl
    · have hne : logstart + j + 1 ≠ logstart + tail + 1 := by omega
      have hsame : (s.writeLog tail).lh = s.lh := rfl
      rw [hsame, hcache]
      exact ⟨(Function.update_of_ne hne _ _).trans (hcopied j hlt).1,
        (Function.update_of_ne hne _ _).trans (hcopied j hlt).2⟩
    · have hsame : (s.writeLog j).lh = s.lh := rfl
      rw [hsame, hcache]
      simp [LogState.writeLog, LogState.bwrite]

/-- The header is written: the transaction is committed. -/
lemma commit (hi : places i = .writeHead) (hout : s.outstanding = 0) :
    Stored d (h₁ ++ h₂ ++ [.committed]) [] s.writeHead
      (Function.update places i (.install 0)) := by
  have hn := hst.clean_of hothers (by rw [hi]; rfl)
  have hcopied : Copied s s.lh.n := by
    have hphase := hst.phase i
    rwa [hi] at hphase
  have hreplay : replay d (h₁ ++ h₂ ++ [.committed]) = replay d (h₁ ++ h₂) := by
    rw [replay_append]
    rfl
  obtain ⟨hheadn, hheadb⟩ := headOf_encode s.lh (s.cache logstart) s.disk
  have hdisk : ∀ b ≠ logstart, s.writeHead.disk b = s.disk b := fun b hb =>
    Function.update_of_ne hb _ _
  have hcache : ∀ b ≠ logstart, s.writeHead.cache b = s.cache b := fun b hb =>
    Function.update_of_ne hb _ _
  have hlog : ∀ j < s.lh.n, s.cache (s.lh.block j) = replay d (h₁ ++ h₂) (s.lh.block j) :=
    fun j hj => hst.cache_eq _ (hst.home _ ⟨j, hj, rfl⟩)
  have hredo : Redo (replay d (h₁ ++ h₂)) s.writeHead.disk := by
    refine ⟨hheadn.le.trans hroom, ?_, ?_, ?_⟩
    · intro k hk
      have hk' : k < s.lh.n := hheadn ▸ hk
      exact (hheadb k hk').symm ▸ hst.home _ ⟨k, hk', rfl⟩
    · intro k hk
      have hk' : k < s.lh.n := hheadn ▸ hk
      have hblock : (headOf s.writeHead.disk).block k = s.lh.block k := hheadb k hk'
      rw [hblock, hdisk _ (by omega), (hcopied k hk').1, hlog k hk']
    · intro b hb hrest
      have hnot : ¬s.lh.Has b := by
        rintro ⟨k, hk, rfl⟩
        exact hrest k (hheadn.symm ▸ hk) (hheadb k hk)
      rw [hdisk b (ne_logstart hb), hst.redo.rest b hb fun k hk => by omega]
      exact ((hst.covered' hquiet hb).resolve_left hnot).symm
  refine
    { cache_eq := fun b hb => ?_
      whole := ?_
      running := ?_
      home := hst.home
      pending := pending_update hquiet rfl
      covered := fun b hb => Or.inr (Or.inr (by rw [List.append_nil]))
      redo := hreplay.symm ▸ hredo
      phase := phase_update ?_ hothers
      clean := fun h => ?_
      settled := fun k _ b hb => by rw [List.append_nil]
      fresh := by simp }
  · rw [List.append_nil, hreplay, hcache b (ne_logstart hb)]
    exact hst.cache_eq b hb
  · have hrun := hst.running
    rw [hout] at hrun
    simpa [beganCount, endedCount] using hrun
  · have hrun := hst.running
    simpa [beganCount, endedCount, LogState.writeHead, LogState.bwrite] using hrun
  · refine ⟨Nat.zero_le _, hheadn, hheadb, fun j hj => ?_, fun j hj => absurd hj (by omega)⟩
    rw [hreplay, hcache _ (by omega), (hcopied j hj).2]
    exact hlog j hj
  · have hinstall := h i
    rw [Function.update_self] at hinstall
    cases hinstall

/-- A block is installed. -/
lemma install {tail : ℕ} (hi : places i = .install tail) (htail : tail < s.lh.n) :
    Stored d h₁ h₂ (s.install tail) (Function.update places i (.install (tail + 1))) := by
  have hp : Installing (replay d h₁) s tail := by
    have hphase := hst.phase i
    rwa [hi] at hphase
  have hsettled := hst.settled i (by rw [hi]; rfl)
  have hblock : inodestart ≤ s.lh.block tail := hst.home _ ⟨tail, htail, rfl⟩
  have hvalue := hp.log tail htail
  have hhead : headOf (s.install tail).disk = headOf s.disk := headOf_update (ne_logstart hblock)
  have hdisk : ∀ b ≠ s.lh.block tail, (s.install tail).disk b = s.disk b := fun b hb =>
    Function.update_of_ne hb _ _
  have hcache : ∀ b ≠ s.lh.block tail, (s.install tail).cache b = s.cache b := fun b hb =>
    Function.update_of_ne hb _ _
  have hnew : (s.install tail).disk (s.lh.block tail) = replay d h₁ (s.lh.block tail) ∧
      (s.install tail).cache (s.lh.block tail) = replay d h₁ (s.lh.block tail) := by
    simp [LogState.install, LogState.bwrite, hvalue]
  have hlow : ∀ j < s.lh.n, logstart + j + 1 ≠ s.lh.block tail := by
    intro j hj
    have := log_block_lt (k := j) (by omega)
    omega
  refine
    { hst with
      cache_eq := fun b hb => ?_
      pending := pending_update hquiet rfl
      covered := fun b hb => Or.inr (Or.inr (hsettled b hb))
      redo := ⟨?_, ?_, ?_, ?_⟩
      phase := phase_update ⟨htail, hhead ▸ hp.head_n, hhead ▸ hp.head_block, ?_, ?_⟩ hothers
      clean := fun h => ?_
      settled := fun _ _ => hsettled }
  · rcases eq_or_ne b (s.lh.block tail) with rfl | hne
    · rw [hnew.2, hsettled _ hb]
    · rw [hcache b hne]
      exact hst.cache_eq b hb
  · rw [hhead]
    exact hst.redo.room
  · rw [hhead]
    exact hst.redo.home
  · rw [hhead]
    intro k hk
    rw [hdisk _ (hlow k (hp.head_n ▸ hk))]
    exact hst.redo.copy k hk
  · rw [hhead]
    intro b hb hrest
    rw [hdisk b, hst.redo.rest b hb hrest]
    rintro rfl
    exact hrest tail (hp.head_n.symm ▸ htail) (hp.head_block tail htail)
  · intro j hj
    exact (hcache _ (hlow j hj)).trans (hp.log j hj)
  · intro j hj
    have hsame : (s.install tail).lh = s.lh := rfl
    rw [hsame]
    rcases eq_or_ne (s.lh.block j) (s.lh.block tail) with heq | hne
    · rw [heq]
      exact hnew.1
    · have hjt : j < tail := by
        rcases Nat.lt_succ_iff_lt_or_eq.mp hj with hlt | rfl
        · exact hlt
        · exact absurd rfl hne
      rw [hdisk _ hne]
      exact hp.done j hjt
  · have hinstall := h i
    rw [Function.update_self] at hinstall
    cases hinstall

omit hroom in
/-- All blocks are installed, and the log in memory is emptied. -/
lemma clear {tail : ℕ} (hi : places i = .install tail) (htail : s.lh.n ≤ tail) :
    Stored d h₁ h₂ { s with lh := { s.lh with n := 0 } }
      (Function.update places i .clearHead) := by
  have hp : Installing (replay d h₁) s tail := by
    have hphase := hst.phase i
    rwa [hi] at hphase
  have hsettled := hst.settled i (by rw [hi]; rfl)
  refine
    { hst with
      home := fun b ⟨k, hk, _⟩ => absurd hk (Nat.not_lt_zero k)
      pending := pending_update hquiet rfl
      covered := fun b hb => Or.inr (Or.inr (hsettled b hb))
      phase := phase_update (fun b hb => ?_) hothers
      clean := fun h => ?_
      settled := fun _ _ => hsettled }
  · by_cases hin : ∃ j < s.lh.n, s.lh.block j = b
    · obtain ⟨j, hj, rfl⟩ := hin
      exact hp.done j (by omega)
    · refine hst.redo.rest b hb fun k hk => ?_
      have hk' : k < s.lh.n := hp.head_n ▸ hk
      rw [hp.head_block k hk']
      exact fun h => hin ⟨k, hk', h⟩
  · have hclear := h i
    rw [Function.update_self] at hclear
    cases hclear

omit hroom in
/-- The header is cleared. -/
lemma clearHead (hi : places i = .clearHead) (hzero : s.lh.n = 0) :
    Stored d h₁ h₂ s.writeHead (Function.update places i .cleared) := by
  have hp : ∀ b ≥ inodestart, s.disk b = replay d h₁ b := by
    have hphase := hst.phase i
    rwa [hi] at hphase
  have hsettled := hst.settled i (by rw [hi]; rfl)
  have hn : (headOf s.writeHead.disk).n = 0 :=
    (headOf_encode s.lh (s.cache logstart) s.disk).1.trans hzero
  have hsame : ∀ b ≥ inodestart, s.writeHead.disk b = s.disk b ∧
      s.writeHead.cache b = s.cache b := fun b hb =>
    ⟨Function.update_of_ne (ne_logstart hb) _ _, Function.update_of_ne (ne_logstart hb) _ _⟩
  exact
    { hst with
      cache_eq := fun b hb => (hsame b hb).2.trans (hst.cache_eq b hb)
      pending := pending_update hquiet rfl
      covered := fun b hb => Or.inr (Or.inr (hsettled b hb))
      redo := redo_of_clean hn fun b hb => (hsame b hb).1.trans (hp b hb)
      phase := phase_update trivial hothers
      clean := fun _ => hn
      settled := fun k hk => by cases (eq_of_inLog hothers hk).2 }

end Commit

/-- **One move**: the history grows by its event, and a commit moves the border. -/
lemma step {m : ℕ} (hm : m < MAXOPBLOCKS) {F : Finset ι} (hr : Reserved m F s places)
    {e : Option LogEvent} (hmove : Move m s (places i) s' t' e) :
    ∃ h₁' h₂', h₁' ++ h₂' = h₁ ++ h₂ ++ e.toList ∧
      Stored d h₁' h₂' s' (Function.update places i t') := by
  have hpanic := (hr.step hm hmove).2
  generalize hi : places i = t at hmove
  have hnone : s.committing = false → ∀ k, (places k).commits = false := fun hc k => by
    by_contra hk
    simpa [hc] using hr.committing k (by simpa using hk)
  have hcall : t.inOp = true → ∀ k, (places k).commits = false := fun h =>
    hnone (hr.not_committing ((hr.ops i).mpr (hi ▸ h)))
  have hothers : t.commits = true → ∀ k ≠ i, (places k).commits = false := fun h k hk => by
    by_contra hk'
    exact hk (hr.unique k i (by simpa using hk') (hi ▸ h))
  have hempty : t.commits = true → F = ∅ := fun h => hr.excl (hr.committing i (hi ▸ h))
  have hquiet : t.commits = true → ∀ k, (places k).pending = none := fun h k => by
    by_contra hk
    obtain ⟨b, hb⟩ := Option.ne_none_iff_exists'.mp hk
    simpa [hempty h] using (hr.ops k).mpr (Place.inOp_of_pending hb)
  have hroom : s.lh.n ≤ nlog - 1 := by
    have hbound := hr.bound
    simp only [nlog, LOGSIZE, MAXOPBLOCKS] at *
    omega
  cases hmove with
  | quiet hq =>
      obtain ⟨hp, hl, hphase⟩ := hq.keeps_log
      exact ⟨h₁, h₂, by simp, hst.place (hi ▸ hp) (hi ▸ hl) (hi ▸ hphase _)⟩
  | begins hc hfit =>
      refine ⟨h₁, h₂ ++ [.began], by simp, hst.count (hnone hc) ⟨rfl, rfl, rfl⟩ (fun _ => rfl)
        (by simp) (by rw [hi]; rfl) ⟨rfl, rfl⟩ trivial ?_⟩
      simp [beganCount, endedCount]
      omega
  | write hj hb => exact ⟨h₁, h₂ ++ [_], by simp, hst.write (hcall rfl) hi hb⟩
  | checked hn =>
      exact ⟨h₁, h₂, by simp, hst.place (by rw [hi]; rfl) (by rw [hi]; rfl) fun _ => trivial⟩
  | overflow | endPanic => exact absurd rfl hpanic
  | log => exact ⟨h₁, h₂, by simp, hst.log (hcall rfl) hi⟩
  | endWake hc ho =>
      refine ⟨h₁, h₂ ++ [.ended], by simp, hst.count (hcall rfl) ⟨rfl, rfl, rfl⟩ (fun _ => rfl)
        (by simp) (by rw [hi]; rfl) ⟨rfl, rfl⟩ trivial ?_⟩
      simp [beganCount, endedCount]
      omega
  | endCommit hc ho =>
      have hpos : 0 < s.outstanding := by
        rw [hr.count]
        exact Finset.card_pos.mpr ⟨i, (hr.ops i).mpr (by rw [hi]; rfl)⟩
      refine ⟨h₁, h₂ ++ [.ended], by simp, hst.count (hcall rfl) ⟨rfl, rfl, rfl⟩ (fun _ => rfl)
        (by simp) (by rw [hi]; rfl) ⟨rfl, rfl⟩ trivial ?_⟩
      simp [beganCount, endedCount]
      omega
  | writeLog htail =>
      exact ⟨h₁, h₂, by simp, hst.writeLog (hothers rfl) (hquiet rfl) hroom hi htail⟩
  | writeHead =>
      refine ⟨h₁ ++ h₂ ++ [.committed], [], by simp,
        hst.commit (hothers rfl) (hquiet rfl) hroom hi ?_⟩
      rw [hr.count, hempty rfl, Finset.card_empty]
  | install htail =>
      exact ⟨h₁, h₂, by simp, hst.install (hothers rfl) (hquiet rfl) hroom hi htail⟩
  | clear htail => exact ⟨h₁, h₂, by simp, hst.clear (hothers rfl) (hquiet rfl) hi htail⟩
  | clearHead =>
      exact ⟨h₁, h₂, by simp, hst.clearHead (hothers rfl) (hquiet rfl) hi
        (hr.drained i (by rw [hi]; rfl))⟩
  | finish =>
      have hplace : Stored d h₁ h₂ s (Function.update places i .finishWake) :=
        hst.place (by rw [hi]; rfl) (by rw [hi]; rfl) fun _ => trivial
      refine ⟨h₁, h₂, by simp, { hplace with phase := phase_update trivial (hothers rfl) }⟩

end Stored

/-! ### Crashes -/

end Log

end Xv6Lottery
