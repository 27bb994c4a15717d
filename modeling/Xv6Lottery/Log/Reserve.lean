import Xv6Lottery.Log.Code

/-!
The reservations of `begin_op`.

A system call is admitted if the log has room for `MAXOPBLOCKS` blocks of every call outstanding.
The log on the disk, however, has `nlog` blocks with its header, and `mkfs` sets `nlog` to
`LOGSIZE`, so that there is room for one block less than `begin_op` reckons with.

* `Place.inOp`, `Place.blocks`, `Place.budget`, `Place.commits`: the places inside a system call,
  the blocks it has given to `log_write` there, how many others it may still give, and the places
  of `commit`.
* `Reserved`: the calls outstanding are counted, their reservations fit and their blocks are in
  the log; while one process commits, no call is outstanding. `Reserved.step` goes through the
  moves.
* `panic_free_iff`: **no run panics if and only if system calls log fewer than `MAXOPBLOCKS`
  different blocks**, that is, one less than they are allowed to.
* `begin_op_awaited`: **whoever sleeps in `begin_op` has somebody to wait for.**
-/

namespace Xv6Lottery

open Library Monitor

namespace Log

/-! ### Places -/

namespace Place

/-- Inside a system call that `begin_op` has admitted. -/
def inOp : Place → Bool
  | .began | .op _ | .check _ _ | .log _ _ | .logged _ | .endOp => true
  | _ => false

/-- In `end_op`, with `log.committing` set. -/
def commits : Place → Bool
  | .endCommit | .commit | .writeLog _ | .writeHead | .install _ | .clearHead | .cleared
  | .finish => true
  | _ => false

/-- Behind the commit: the log is empty. -/
def drained : Place → Bool
  | .clearHead | .cleared | .finish => true
  | _ => false

/-- The blocks that a system call has given to `log_write`. -/
def blocks : Place → List ℕ
  | .op ws | .check ws _ | .log ws _ | .logged ws => ws
  | _ => []

/-- The blocks that a system call may still add to them, if there are at most `m`. -/
def budget (m : ℕ) : Place → ℕ
  | .began => m
  | .op ws | .check ws _ | .log ws _ | .logged ws => m - ws.toFinset.card
  | _ => 0

/-- The block of a call of `log_write` in progress is one of at most `m`. -/
def Within (m : ℕ) : Place → Prop
  | .check ws b | .log ws b => (b :: ws).toFinset.card ≤ m
  | _ => True

lemma inOp_of_mem_blocks {t : Place} {b : ℕ} (h : b ∈ t.blocks) : t.inOp = true := by
  cases t <;> first | rfl | cases h

lemma budget_le (m : ℕ) (t : Place) : t.budget m ≤ m := by
  cases t <;> simp only [budget] <;> omega

lemma commits_of_drained {t : Place} (h : t.drained = true) : t.commits = true := by
  cases t <;> first | rfl | cases h

end Place

/-- Quiet moves stay inside, or outside, of calls and commits. -/
structure Quiet.Keeps (m : ℕ) (t t' : Place) : Prop where
  inOp : t'.inOp = t.inOp
  commits : t'.commits = t.commits
  budget : t'.budget m ≤ t.budget m
  blocks : t'.blocks ⊆ t.blocks
  within : t.Within m → t'.Within m
  halted : t' = .halted → t = .halted

lemma Quiet.keeps {s : LogState} {t t' : Place} (h : Quiet s t t') (m : ℕ) :
    Quiet.Keeps m t t' := by
  cases h with
  | stay => exact ⟨rfl, rfl, le_rfl, List.Subset.refl _, id, id⟩
  | _ =>
      exact ⟨rfl, rfl, by simp [Place.budget], by simp [Place.blocks], fun _ => trivial,
        fun h => by cases h⟩

lemma Quiet.drained {s : LogState} {t t' : Place} (h : Quiet s t t') (h' : t'.drained = true) :
    t.drained = true ∨ s.lh.n = 0 := by
  cases h with
  | stay => exact Or.inl h'
  | nothing hn => exact Or.inr hn
  | finish => exact Or.inl rfl
  | _ => cases h'

/-! ### Blocks in the log -/

namespace Logheader

/-- The block is in the log. -/
def Has (lh : Logheader) (b : ℕ) : Prop := ∃ k < lh.n, lh.block k = b

/-- Where `log_write` puts a block. -/
lemma index_cases (lh : Logheader) (b : ℕ) :
    lh.index b = lh.n ∨ (lh.index b < lh.n ∧ lh.block (lh.index b) = b) := by
  unfold index
  cases hf : (List.range lh.n).find? fun i => lh.block i = b with
  | none => exact Or.inl rfl
  | some i =>
      have hmem := List.mem_of_find?_eq_some hf
      have hblock := List.find?_some hf
      exact Or.inr ⟨by simpa using hmem, by simpa using hblock⟩

/-- A block that is logged joins those in the log. -/
lemma has_add (lh : Logheader) (b c : ℕ) : (lh.add b).Has c ↔ lh.Has c ∨ c = b := by
  rcases lh.index_cases b with hi | ⟨hi, hb⟩
  · constructor
    · rintro ⟨k, hk, rfl⟩
      simp only [add, hi, if_true] at hk ⊢
      rcases eq_or_ne k lh.n with rfl | hne
      · simp
      · rw [Function.update_of_ne hne]
        exact Or.inl ⟨k, by omega, rfl⟩
    · rintro (⟨k, hk, rfl⟩ | rfl)
      · refine ⟨k, by simp only [add, hi, if_true]; omega, ?_⟩
        simp [add, hi, Function.update_of_ne hk.ne]
      · exact ⟨lh.n, by simp [add, hi], by simp [add, hi]⟩
  · -- absorbed: nothing changes
    have hblock : Function.update lh.block (lh.index b) b = lh.block :=
      Function.update_eq_self_iff.mpr hb.symm
    have hsame : lh.add b = lh := by simp only [add, if_neg hi.ne, hblock]
    rw [hsame]
    constructor
    · exact Or.inl
    · rintro (h | rfl)
      · exact h
      · exact ⟨_, hi, hb⟩

/-- Adding a block takes at most one place, and none if the block is in the log. -/
lemma add_n_le (lh : Logheader) (b : ℕ) : (lh.add b).n ≤ lh.n + 1 := by
  simp only [add]
  split_ifs <;> omega

lemma add_n_of_has {lh : Logheader} {b : ℕ} (h : lh.Has b) : (lh.add b).n = lh.n := by
  obtain ⟨k, hk, hb⟩ := h
  have hsome : ((List.range lh.n).find? fun i => lh.block i = b).isSome := by
    rw [List.find?_isSome]
    exact ⟨k, List.mem_range.mpr hk, by simpa using hb⟩
  obtain ⟨i, hi⟩ := Option.isSome_iff_exists.mp hsome
  have hlt : i < lh.n := by simpa using List.mem_of_find?_eq_some hi
  simp only [add, index, hi, Option.getD_some, if_neg hlt.ne]

end Logheader

/-! ### Reservations -/

variable {ι : Type} [DecidableEq ι]

/-- The processes `F` are inside system calls. -/
structure Reserved (m : ℕ) (F : Finset ι) (s : LogState) (places : ι → Place) : Prop where
  ops : ∀ i, i ∈ F ↔ (places i).inOp = true
  count : s.outstanding = F.card
  room : F.Nonempty → s.lh.n + ∑ i ∈ F, (places i).budget m ≤ MAXOPBLOCKS + 2 * m
  bound : s.lh.n ≤ MAXOPBLOCKS + 2 * m
  empty : F = ∅ → s.committing = false → s.lh.n = 0
  logged : ∀ i, ∀ b ∈ (places i).blocks, s.lh.Has b
  within : ∀ i, (places i).Within m
  unique : ∀ i j, (places i).commits = true → (places j).commits = true → i = j
  committing : ∀ i, (places i).commits = true → s.committing = true
  committer : s.committing = true → ∃ i, (places i).commits = true
  excl : s.committing = true → F = ∅
  drained : ∀ i, (places i).drained = true → s.lh.n = 0
  running : ∀ i, places i ≠ .halted

/-- A sum over a finite set when one place changes. -/
lemma sum_update {F : Finset ι} {i : ι} (hi : i ∈ F) (f : Place → ℕ) (places : ι → Place)
    (t : Place) :
    ∑ k ∈ F, f (Function.update places i t k) + f (places i) = ∑ k ∈ F, f (places k) + f t := by
  rw [← Finset.add_sum_erase F _ hi, ← Finset.add_sum_erase F (fun k => f (places k)) hi,
    Function.update_self]
  have hrest : ∑ k ∈ F.erase i, f (Function.update places i t k) = ∑ k ∈ F.erase i, f (places k) :=
    Finset.sum_congr rfl fun k hk => by rw [Function.update_of_ne (Finset.ne_of_mem_erase hk)]
  rw [hrest]
  omega

namespace Reserved

variable {m : ℕ} {F : Finset ι} {s s' : LogState} {places : ι → Place} {i : ι} {t' : Place}
  (hr : Reserved m F s places)
include hr

lemma within_update (ht : t'.Within m) : ∀ k, (Function.update places i t' k).Within m :=
  (Function.forall_update_iff places fun _ t => t.Within m).mpr ⟨ht, fun k _ => hr.within k⟩

lemma running_update (ht : t' ≠ .halted) : ∀ k, Function.update places i t' k ≠ .halted :=
  (Function.forall_update_iff places fun _ t => t ≠ .halted).mpr ⟨ht, fun k _ => hr.running k⟩

/-- The blocks of the calls are in the log, as long as it is not cleared while a call is
outstanding. -/
lemma logged_update (hkeep : F.Nonempty → ∀ b, s.lh.Has b → s'.lh.Has b)
    (ht : ∀ b ∈ t'.blocks, s'.lh.Has b) (k : ι) :
    ∀ b ∈ (Function.update places i t' k).blocks, s'.lh.Has b := by
  rcases eq_or_ne k i with rfl | hk
  · rwa [Function.update_self]
  · rw [Function.update_of_ne hk]
    intro b hb
    exact hkeep ⟨k, (hr.ops k).mpr (Place.inOp_of_mem_blocks hb)⟩ b (hr.logged k b hb)

omit [DecidableEq ι] in
/-- While somebody is in a system call, nobody commits. -/
lemma not_committing (hi : i ∈ F) : s.committing = false := by
  by_contra hc
  have hempty := hr.excl (by simpa using hc)
  simp [hempty] at hi

/-- A move inside a call, inside `commit` or outside of both. -/
lemma move (hout : s'.outstanding = s.outstanding) (hcom : s'.committing = s.committing)
    (hn : s'.lh.n ≤ s.lh.n ∨ i ∈ F)
    (hbudget : s'.lh.n + t'.budget m ≤ s.lh.n + (places i).budget m)
    (hin : t'.inOp = (places i).inOp) (hcommits : t'.commits = (places i).commits)
    (hkeep : F.Nonempty → ∀ b, s.lh.Has b → s'.lh.Has b) (hlogged : ∀ b ∈ t'.blocks, s'.lh.Has b)
    (hwithin : t'.Within m) (hdrained : t'.drained = true → s'.lh.n = 0)
    (hhalted : t' ≠ .halted) : Reserved m F s' (Function.update places i t') := by
  have hbudgets : F.Nonempty →
      s'.lh.n + ∑ k ∈ F, (Function.update places i t' k).budget m ≤ MAXOPBLOCKS + 2 * m := by
    intro hne
    have hroom := hr.room hne
    by_cases hi : i ∈ F
    · have hsum := sum_update hi (Place.budget m) places t'
      omega
    · have hsame : ∑ k ∈ F, (Function.update places i t' k).budget m =
          ∑ k ∈ F, (places k).budget m :=
        Finset.sum_congr rfl fun k hk => by
          rw [Function.update_of_ne (by rintro rfl; exact hi hk)]
      have hle := hn.resolve_right hi
      omega
  have hsame : ∀ k, (Function.update places i t' k).commits = (places k).commits := by
    intro k
    rcases eq_or_ne k i with rfl | hk
    · rw [Function.update_self, hcommits]
    · rw [Function.update_of_ne hk]
  constructor
  case ops =>
    intro k
    rcases eq_or_ne k i with rfl | hk
    · rw [Function.update_self, hin, hr.ops k]
    · rw [Function.update_of_ne hk, hr.ops k]
  case count => rw [hout, hr.count]
  case room => exact hbudgets
  case bound =>
    rcases hn with hle | hi
    · exact hle.trans hr.bound
    · have := hbudgets ⟨i, hi⟩
      omega
  case empty =>
    intro hF hc
    have hle := hn.resolve_right (by simp [hF])
    have := hr.empty hF (hcom ▸ hc)
    omega
  case logged => exact hr.logged_update hkeep hlogged
  case within => exact hr.within_update hwithin
  case unique => exact fun k l hk hl => hr.unique k l (hsame k ▸ hk) (hsame l ▸ hl)
  case committing => exact fun k hk => hcom ▸ hr.committing k (hsame k ▸ hk)
  case committer =>
    intro hc
    obtain ⟨k, hk⟩ := hr.committer (hcom ▸ hc)
    exact ⟨k, hsame k ▸ hk⟩
  case excl => exact fun hc => hr.excl (hcom ▸ hc)
  case drained =>
    intro k hk
    rcases eq_or_ne k i with rfl | hne
    · exact hdrained (by rwa [Function.update_self] at hk)
    · rw [Function.update_of_ne hne] at hk
      have hzero := hr.drained k hk
      rcases hn with hle | hi
      · omega
      · -- a process that has committed leaves no system call running
        have hF := hr.excl (hr.committing k (Place.commits_of_drained hk))
        simp [hF] at hi
  case running => exact hr.running_update hhalted

/-- `begin_op` admits a system call. -/
lemma begins (hm : m ≤ MAXOPBLOCKS) (hi : places i = .begin) (hc : s.committing = false)
    (hroom : s.lh.n + (s.outstanding + 1) * MAXOPBLOCKS ≤ LOGSIZE) :
    Reserved m (insert i F) { s with outstanding := s.outstanding + 1 }
      (Function.update places i .began) := by
  have hiF : i ∉ F := by simp [hr.ops i, hi, Place.inOp]
  have hcommits : ∀ k, (Function.update places i .began k).commits = true → False := by
    intro k hk
    rcases eq_or_ne k i with rfl | hne
    · simp [Place.commits] at hk
    · rw [Function.update_of_ne hne] at hk
      simpa [hc] using hr.committing k hk
  have hsum : ∑ k ∈ F, (Function.update places i .began k).budget m ≤ F.card * m := by
    rw [← smul_eq_mul]
    exact Finset.sum_le_card_nsmul F _ m fun k _ => Place.budget_le m _
  -- with one call outstanding the log has at most `MAXOPBLOCKS` blocks, with two it is empty
  have hreserve : s.lh.n + ∑ k ∈ insert i F, (Function.update places i .began k).budget m ≤
      MAXOPBLOCKS + 2 * m := by
    rw [Finset.sum_insert hiF, Function.update_self]
    rw [hr.count] at hroom
    simp only [Place.budget, LOGSIZE, MAXOPBLOCKS] at *
    rcases Nat.lt_or_ge F.card 3 with hcard | hcard
    · interval_cases hF : F.card
      · have hn := hr.empty (Finset.card_eq_zero.mp hF) hc
        omega
      · omega
      · omega
    · omega
  constructor
  case ops =>
    intro k
    rcases eq_or_ne k i with rfl | hk
    · simp [Place.inOp]
    · simp [hk, hr.ops k]
  case count => simp [hiF, hr.count]
  case room => exact fun _ => hreserve
  case bound => exact hr.bound
  case empty => exact fun h => by simp at h
  case logged => exact hr.logged_update (fun _ _ => id) (by simp [Place.blocks])
  case within => exact hr.within_update trivial
  case unique => exact fun k l hk _ => (hcommits k hk).elim
  case committing => exact fun k hk => (hcommits k hk).elim
  case committer =>
    intro h
    exact absurd (hc.symm.trans h) (by decide)
  case excl =>
    intro h
    exact absurd (hc.symm.trans h) (by decide)
  case drained => exact fun k hk => (hcommits k (Place.commits_of_drained hk)).elim
  case running => exact hr.running_update (by simp)

/-- The set of the calls without one that ends. -/
lemma mem_erase_iff (t' : Place) (hout : t'.inOp = false) (k : ι) :
    k ∈ F.erase i ↔ (Function.update places i t' k).inOp = true := by
  rcases eq_or_ne k i with rfl | hk
  · simp [hout]
  · simp [hk, hr.ops k]

/-- `end_op` while others are outstanding. -/
lemma leave (hi : places i = .endOp) (ho : s.outstanding - 1 ≠ 0) :
    Reserved m (F.erase i) { s with outstanding := s.outstanding - 1 }
      (Function.update places i .endWake) := by
  have hiF : i ∈ F := by simp [hr.ops i, hi, Place.inOp]
  have hc := hr.not_committing hiF
  have hcard : (F.erase i).card = s.outstanding - 1 := by
    rw [Finset.card_erase_of_mem hiF, hr.count]
  have hcommits : ∀ k, (Function.update places i .endWake k).commits = true → False := by
    intro k hk
    rcases eq_or_ne k i with rfl | hne
    · simp [Place.commits] at hk
    · rw [Function.update_of_ne hne] at hk
      simpa [hc] using hr.committing k hk
  constructor
  case ops => exact hr.mem_erase_iff .endWake rfl
  case count => exact hcard.symm
  case room =>
    intro _
    have hroom := hr.room ⟨i, hiF⟩
    have hsum : ∑ k ∈ F.erase i, (Function.update places i .endWake k).budget m ≤
        ∑ k ∈ F, (places k).budget m := by
      rw [Finset.sum_congr rfl fun k hk => by
        rw [Function.update_of_ne (Finset.ne_of_mem_erase hk)]]
      exact Finset.sum_le_sum_of_subset (Finset.erase_subset i F)
    exact (Nat.add_le_add_left hsum _).trans hroom
  case bound => exact hr.bound
  case empty =>
    intro hF
    rw [hF, Finset.card_empty] at hcard
    exact absurd hcard.symm ho
  case logged => exact hr.logged_update (fun _ _ => id) (by simp [Place.blocks])
  case within => exact hr.within_update trivial
  case unique => exact fun k l hk _ => (hcommits k hk).elim
  case committing => exact fun k hk => (hcommits k hk).elim
  case committer =>
    intro h
    exact absurd (hc.symm.trans h) (by decide)
  case excl =>
    intro h
    exact absurd (hc.symm.trans h) (by decide)
  case drained => exact fun k hk => (hcommits k (Place.commits_of_drained hk)).elim
  case running => exact hr.running_update (by simp)

/-- `end_op` of the last call outstanding. -/
lemma last (hi : places i = .endOp) (ho : s.outstanding - 1 = 0) :
    Reserved m ∅ { s with outstanding := s.outstanding - 1, committing := true }
      (Function.update places i .endCommit) := by
  have hiF : i ∈ F := by simp [hr.ops i, hi, Place.inOp]
  have hc := hr.not_committing hiF
  have hF : F.erase i = ∅ := by
    rw [← Finset.card_eq_zero, Finset.card_erase_of_mem hiF, ← hr.count, ho]
  have hcommits : ∀ k, (Function.update places i .endCommit k).commits = true → k = i := by
    intro k hk
    by_contra hne
    rw [Function.update_of_ne hne] at hk
    simpa [hc] using hr.committing k hk
  constructor
  case ops => exact fun k => hF ▸ hr.mem_erase_iff .endCommit rfl k
  case count => simp [ho]
  case room => exact fun h => by simp at h
  case bound => exact hr.bound
  case empty => exact fun _ h => by cases h
  case logged => exact hr.logged_update (fun _ _ => id) (by simp [Place.blocks])
  case within => exact hr.within_update trivial
  case unique => exact fun k l hk hl => (hcommits k hk).trans (hcommits l hl).symm
  case committing => exact fun _ _ => rfl
  case committer => exact fun _ => ⟨i, by simp [Place.commits]⟩
  case excl => exact fun _ => rfl
  case drained =>
    intro k hk
    obtain rfl := hcommits k (Place.commits_of_drained hk)
    rw [Function.update_self] at hk
    cases hk
  case running => exact hr.running_update (by simp)

/-- `log.committing = 0` -/
lemma finish (hi : places i = .finish) :
    Reserved m F { s with committing := false } (Function.update places i .finishWake) := by
  have hF := hr.excl (hr.committing i (by rw [hi]; rfl))
  have hn := hr.drained i (by rw [hi]; rfl)
  have hcommits : ∀ k, (Function.update places i .finishWake k).commits = true → False := by
    intro k hk
    rcases eq_or_ne k i with rfl | hne
    · simp [Place.commits] at hk
    · rw [Function.update_of_ne hne] at hk
      exact hne (hr.unique k i hk (by rw [hi]; rfl))
  constructor
  case ops =>
    intro k
    rcases eq_or_ne k i with rfl | hk
    · simp [hF, Place.inOp]
    · rw [Function.update_of_ne hk, hr.ops k]
  case count => exact hr.count
  case room => exact fun h => by simp [hF] at h
  case bound => exact hr.bound
  case empty => exact fun _ _ => hn
  case logged => exact hr.logged_update (fun _ _ => id) (by simp [Place.blocks])
  case within => exact hr.within_update trivial
  case unique => exact fun k l hk _ => (hcommits k hk).elim
  case committing => exact fun k hk => (hcommits k hk).elim
  case committer => exact fun h => by cases h
  case excl => exact fun h => by cases h
  case drained => exact fun k hk => (hcommits k (Place.commits_of_drained hk)).elim
  case running => exact hr.running_update (by simp)

omit [DecidableEq ι] in
/-- A call of `log_write` finds room, if system calls log fewer than `MAXOPBLOCKS` blocks. -/
lemma check_passes (hm : m < MAXOPBLOCKS) {ws : List ℕ} {b : ℕ} (hi : places i = .check ws b) :
    s.lh.n < nlog - 1 ∧ 1 ≤ s.outstanding := by
  have hiF : i ∈ F := by simp [hr.ops i, hi, Place.inOp]
  have hbound := hr.bound
  refine ⟨?_, hr.count ▸ Finset.card_pos.mpr ⟨i, hiF⟩⟩
  simp only [nlog, LOGSIZE, MAXOPBLOCKS] at *
  omega

/-- One move keeps the reservations, and does not panic. -/
lemma step (hm : m < MAXOPBLOCKS) {e : Option LogEvent} (hmove : Move m s (places i) s' t' e) :
    (∃ F', Reserved m F' s' (Function.update places i t')) ∧ e ≠ some .panicked := by
  generalize hi : places i = t at hmove
  have hin : t.inOp = true → i ∈ F := fun h => (hr.ops i).mpr (hi ▸ h)
  have hwithin : t.Within m := hi ▸ hr.within i
  have hlogged : ∀ b ∈ t.blocks, s.lh.Has b := hi ▸ hr.logged i
  cases hmove with
  | quiet hq =>
      have hk := hq.keeps m
      refine ⟨⟨F, hr.move rfl rfl (Or.inl le_rfl) ?_ ?_ ?_ (fun _ _ => id)
        (fun b hb => hlogged b (hk.blocks hb)) (hk.within hwithin) ?_ ?_⟩, by simp⟩
      · rw [hi]
        exact Nat.add_le_add_left hk.budget _
      · rw [hi, hk.inOp]
      · rw [hi, hk.commits]
      · intro h
        exact (hq.drained h).elim (fun hd => hr.drained i (hi ▸ hd)) id
      · intro h
        exact hr.running i (hi.trans (hk.halted h))
  | begins hc hroom => exact ⟨⟨_, hr.begins hm.le hi hc hroom⟩, by simp⟩
  | write hcard hb =>
      refine ⟨⟨F, hr.move rfl rfl (Or.inl le_rfl) ?_ ?_ ?_ (fun _ _ => id) hlogged hcard ?_ ?_⟩,
        by simp⟩ <;>
        simp [hi, Place.budget, Place.inOp, Place.commits, Place.drained]
  | checked hn =>
      refine ⟨⟨F, hr.move rfl rfl (Or.inl le_rfl) ?_ ?_ ?_ (fun _ _ => id) hlogged hwithin ?_ ?_⟩,
        by simp⟩ <;>
        simp [hi, Place.budget, Place.inOp, Place.commits, Place.drained]
  | overflow h =>
      obtain ⟨h1, h2⟩ := hr.check_passes hm hi
      omega
  | @log ws b =>
      have hcard : (b :: ws).toFinset.card ≤ m := hwithin
      have hkeep : ∀ c, s.lh.Has c → (s.lh.add b).Has c := fun c hc =>
        (s.lh.has_add b c).mpr (Or.inl hc)
      refine ⟨⟨F, hr.move rfl rfl (Or.inr (hin rfl)) ?_ ?_ ?_ (fun _ => hkeep) ?_ trivial ?_ ?_⟩,
        by simp⟩
      · -- a block of this call is absorbed, another one takes a place that was reserved
        simp only [hi, Place.budget]
        by_cases hb : b ∈ ws
        · rw [Logheader.add_n_of_has (hlogged b hb), List.toFinset_cons,
            Finset.insert_eq_of_mem (List.mem_toFinset.mpr hb)]
        · have hadd := s.lh.add_n_le b
          rw [List.toFinset_cons, Finset.card_insert_of_notMem (by simpa using hb)] at hcard ⊢
          omega
      · simp [hi, Place.inOp]
      · simp [hi, Place.commits]
      · intro c hc
        rcases List.mem_cons.mp hc with rfl | hc
        · exact (s.lh.has_add c c).mpr (Or.inr rfl)
        · exact hkeep c (hlogged c hc)
      · simp [Place.drained]
      · simp
  | endPanic hc => simp [hr.not_committing (hin rfl)] at hc
  | endWake hc ho => exact ⟨⟨_, hr.leave hi ho⟩, by simp⟩
  | endCommit hc ho => exact ⟨⟨_, hr.last hi ho⟩, by simp⟩
  | writeLog | writeHead | install | clearHead =>
      refine ⟨⟨F, hr.move rfl rfl (Or.inl le_rfl) ?_ ?_ ?_ (fun _ _ => id) (by simp [Place.blocks])
        trivial ?_ ?_⟩, by simp⟩
      · simp [hi, Place.budget, LogState.writeLog, LogState.writeHead, LogState.install,
          LogState.bwrite]
      · simp [hi, Place.inOp]
      · simp [hi, Place.commits]
      · intro h
        first
          | exact hr.drained i (by rw [hi]; rfl)
          | cases h
      · simp
  | clear h =>
      have hF : F = ∅ := hr.excl (hr.committing i (by rw [hi]; rfl))
      refine ⟨⟨F, hr.move rfl rfl (Or.inl (Nat.zero_le _)) ?_ ?_ ?_ (by simp [hF])
        (by simp [Place.blocks]) trivial ?_ ?_⟩, by simp⟩ <;>
        simp [hi, Place.budget, Place.inOp, Place.commits]
  | finish => exact ⟨⟨_, hr.finish hi⟩, by simp⟩

end Reserved

/-! ### Panics -/

/-- The reservations in every state of a run. -/
lemma reserved_run {m : ℕ} (hm : m < MAXOPBLOCKS) {d : Disk} {tr : List (Option LogEvent)}
    {s : MonState ι LogState Place Unit}
    (hrun : (code ι).Runs (FsCalls m) (boot ι d) tr s) :
    (∃ F, Reserved m F s.shared s.places) ∧ some LogEvent.panicked ∉ tr := by
  refine Run.invariant
    (I := fun tr s => (∃ F, Reserved m F s.shared s.places) ∧ some LogEvent.panicked ∉ tr)
    ?_ ?_ hrun
  · refine ⟨⟨∅, ?_⟩, by simp⟩
    constructor <;>
      simp [boot, MonState.places, Thread.place, Place.inOp, Place.commits, Place.drained,
        Place.Within, Place.blocks]
  · rintro tr e s₁ s₂ - ⟨⟨F, hr⟩, hno⟩ hstep
    obtain ⟨i, t', hplaces, heff⟩ := (act_step hstep).effect
    obtain ⟨hr', he⟩ := hr.step hm (effect_move heff)
    rw [hplaces]
    exact ⟨hr', by simp [hno, Ne.symm he]⟩

/-- `begin_op` by the process `i`. -/
def beginOp (i : ℕ) : List (MonAct ℕ FsCall) :=
  [.outer i .begin, .acquire i, .inner i false, .inner i false]

/-- The process `i`, which has given the blocks `ws` to `log_write`, modifies the block `b` and
gives it to `log_write`. -/
def logWrite (i : ℕ) (ws : List ℕ) (b : ℕ) : List (MonAct ℕ FsCall) :=
  [.outer i (.write ws b fun _ => 0), .outer i .go, .acquire i, .inner i false, .inner i false]

/-- The process `i` gives `k` blocks from `b` on to `log_write`. -/
def logWrites (i b k : ℕ) : List (MonAct ℕ FsCall) :=
  (List.range k).flatMap fun j => logWrite i ((List.range j).map (b + ·)).reverse (b + j)

/-- Three system calls are admitted, and each of them logs `MAXOPBLOCKS` blocks; the last call
of `log_write` is left at its checks. -/
def threeCalls : List (MonAct ℕ FsCall) :=
  (beginOp 0 ++ beginOp 1 ++ beginOp 2) ++
  (logWrites 0 inodestart MAXOPBLOCKS ++ logWrites 1 (inodestart + MAXOPBLOCKS) MAXOPBLOCKS ++
    logWrites 2 (inodestart + 2 * MAXOPBLOCKS) 9) ++
  (logWrite 2 ((List.range 9).map (inodestart + 2 * MAXOPBLOCKS + ·)).reverse
    (inodestart + 29)).take 2

/-- The run `threeCalls` panics in its last step. -/
lemma threeCalls_panics :
    (code ℕ).machine.Allowed (Calls (FsCalls MAXOPBLOCKS)) (boot ℕ fun _ _ => 0) threeCalls ∧
    (((code ℕ).machine.exec (boot ℕ fun _ _ => 0) threeCalls).threads 2).place = .halted := by
  decide +kernel

/-- **The reservations suffice exactly below their own bound.** If every system call gives fewer
than `MAXOPBLOCKS` different blocks to `log_write`, as often as it likes, then no run panics and
the blocks of a transaction fit into the log on the disk. With `MAXOPBLOCKS` blocks, a run may
panic. -/
theorem panic_free_iff (m : ℕ) :
    (∀ d tr s, (code ℕ).Runs (FsCalls m) (boot ℕ d) tr s →
      (∀ i, (s.threads i).place ≠ .halted) ∧ s.shared.lh.n ≤ nlog - 1) ↔ m < MAXOPBLOCKS := by
  constructor
  · intro h
    by_contra hm
    obtain ⟨hallowed, hhalted⟩ := threeCalls_panics
    have hmono : ∀ k, FsCalls MAXOPBLOCKS k → FsCalls m k := by
      intro k hk
      cases k with
      | write ws b data => exact ⟨hk.1.trans (not_lt.mp hm), hk.2⟩
      | _ => trivial
    exact (h _ _ _ (Runs.mono hmono hallowed.run)).1 2 hhalted
  · intro hm d tr s hrun
    obtain ⟨⟨F, hr⟩, -⟩ := reserved_run hm hrun
    refine ⟨hr.running, hr.bound.trans ?_⟩
    simp only [nlog, LOGSIZE, MAXOPBLOCKS] at *
    omega

/-! ### Waiting for the log -/

/-- Why a process sleeps in `begin_op`. -/
def Crowded (s : LogState) : Prop :=
  s.committing = true ∨ LOGSIZE < s.lh.n + (s.outstanding + 1) * MAXOPBLOCKS

/-- The points of `end_op` at which the sleepers have yet to be woken. -/
def Owes (_ : Unit) (t : Place) : Prop := t = .endWake ∨ t = .finishWake

omit [DecidableEq ι] in
lemma keeps_trivial (m : ℕ) : Keeps (code ι) (FsCalls m) (fun _ => True) (fun _ _ => True)
    (fun _ _ _ => True) where
  call _ _ := trivial
  enter _ _ := trivial
  outer _ _ := ⟨fun _ => trivial, fun _ _ => trivial⟩
  go _ _ := trivial
  wakeup _ _ := trivial
  sleep _ _ := ⟨trivial, trivial⟩
  release _ _ := trivial

/-- Without the lock the counters stay, and blocks leave the log only in `commit`. -/
lemma outer_keeps {s s' : LogState} {k : FsCall} {t t' : Place} {e : Option LogEvent}
    (h : outer s k t = .go s' t' e) : s'.committing = s.committing ∧
      s'.outstanding = s.outstanding ∧ (s'.lh = s.lh ∨ t.commits = true) := by
  cases k with
  | begin | finish => cases t <;> cases h
  | write ws b data =>
      cases t with
      | op ws' =>
          simp only [outer] at h
          split_ifs at h
          obtain ⟨rfl, -, -⟩ := Outer.go.inj h
          exact ⟨rfl, rfl, Or.inl rfl⟩
      | _ => cases h
  | go =>
      cases t with
      | check ws b =>
          simp only [outer] at h
          split_ifs at h <;>
          · obtain ⟨rfl, -, -⟩ := Outer.go.inj h
            exact ⟨rfl, rfl, Or.inl rfl⟩
      | commit | writeLog tail | install tail =>
          simp only [outer] at h
          split_ifs at h <;>
          · obtain ⟨rfl, -, -⟩ := Outer.go.inj h
            exact ⟨rfl, rfl, Or.inr rfl⟩
      | writeHead | clearHead =>
          obtain ⟨rfl, -, -⟩ := Outer.go.inj h
          exact ⟨rfl, rfl, Or.inr rfl⟩
      | _ => cases h

/-- Adding a block never makes room. -/
lemma Logheader.le_add_n (lh : Logheader) (b : ℕ) : lh.n ≤ (lh.add b).n := by
  simp only [Logheader.add]
  split_ifs <;> omega

omit [DecidableEq ι] in
/-- `end_op` wakes the sleepers of `begin_op` whenever it makes room. -/
lemma rouses (m : ℕ) : Rouses (code ι) (FsCalls m) (fun _ _ _ => True)
    (fun s t => t.commits = true → s.committing = true) (fun _ _ s => Crowded s) Owes where
  outer {h i k s t s' t' e c} _ hG hm hA := by
    obtain ⟨hc, ho, hlh⟩ := outer_keeps hm
    rcases hlh with hlh | hcommits
    · simpa only [Crowded, hc, ho, hlh] using hA
    · exact Or.inl (hc.trans (hG hcommits))
  go {h i b s t s' t' e c} _ hm hr := by
    cases t with
    | begin =>
        -- admitted: nobody had a reason to sleep
        simp only [code, inner] at hm
        split_ifs at hm with hc hroom
        rcases hr with (hA | hA) | hD
        · exact absurd hA hc
        · exact absurd hA hroom
        · rcases hD with h | h <;> cases h
    | log ws b =>
        obtain ⟨rfl, -, -⟩ := Inner.go.inj hm
        have hle := s.lh.le_add_n b
        refine Or.inl ((hr.resolve_right ?_).imp_right fun hA => ?_)
        · rintro (h | h) <;> cases h
        · simp only
          omega
    | endOp =>
        simp only [code, inner] at hm
        split_ifs at hm with hc ho
        · obtain ⟨rfl, -, -⟩ := Inner.go.inj hm
          exact Or.inl (Or.inl hc)
        · obtain ⟨rfl, -, -⟩ := Inner.go.inj hm
          exact Or.inl (Or.inl rfl)
        · obtain ⟨-, rfl, -⟩ := Inner.go.inj hm
          exact Or.inr (Or.inl rfl)
    | finish =>
        obtain ⟨-, rfl, -⟩ := Inner.go.inj hm
        exact Or.inr (Or.inr rfl)
    | _ => simp [code, inner] at hm
  wakeup _ _ hne _ := absurd rfl hne
  sleep _ hm := (inner_sleep hm).2.2
  settle _ hm _ := (inner_sleep hm).2.2
  release {h i b s t t' e c} _ hm hr := by
    refine hr.resolve_right ?_
    rintro (rfl | rfl) <;> cases hm

/-- **Nobody waits for the log in vain.** If system calls log fewer than `MAXOPBLOCKS` different
blocks each, then a process that sleeps in `begin_op` while the lock is free has to wait for room
or for the end of a commit, and there is a process inside a system call or in `commit` that will
wake it. -/
theorem begin_op_awaited {m : ℕ} (hm : m < MAXOPBLOCKS) {d : Disk}
    {tr : List (Option LogEvent)} {s : MonState ι LogState Place Unit}
    (hrun : (code ι).Runs (FsCalls m) (boot ι d) tr s) (hl : s.lock = none) {i : ι} {c : Unit}
    {t : Place} (hi : s.threads i = .asleep c t) : Crowded s.shared ∧
      ∃ j, (s.threads j).place.inOp = true ∨ (s.threads j).place.commits = true := by
  obtain ⟨⟨F, hr⟩, -⟩ := reserved_run hm hrun
  have hcrowded : Crowded s.shared := by
    refine (rouses m).run (keeps_trivial m) (boot_fresh d) trivial ?_ hrun hl hi
    intro tr s hrun j t hj ht
    obtain ⟨⟨F, hr⟩, -⟩ := reserved_run hm hrun
    exact hr.committing j (by rwa [MonState.places, hj])
  refine ⟨hcrowded, ?_⟩
  by_cases hc : s.shared.committing = true
  · obtain ⟨j, hj⟩ := hr.committer hc
    exact ⟨j, Or.inr hj⟩
  · rcases F.eq_empty_or_nonempty with rfl | ⟨j, hj⟩
    · -- nobody is in a system call: then the log is empty, and there is room
      have hn := hr.empty rfl (by simpa using hc)
      have ho := hr.count
      rcases hcrowded with h | h
      · exact absurd h hc
      · rw [hn, ho] at h
        simp at h
    · exact ⟨j, Or.inl ((hr.ops j).mp hj)⟩

/-- Three system calls are admitted, and a fourth one has to wait. -/
def fourthWaits : List (MonAct ℕ FsCall) :=
  beginOp 0 ++ beginOp 1 ++ beginOp 2 ++ [.outer 3 .begin, .acquire 3, .inner 3 false]

/-- The state after `fourthWaits`. -/
abbrev fourthWaitsEnd : MonState ℕ LogState Place Unit :=
  (code ℕ).machine.exec (boot ℕ fun _ _ => 0) fourthWaits

theorem begin_op_awaited_fourthWaits : Crowded fourthWaitsEnd.shared ∧
    ∃ j, (fourthWaitsEnd.threads j).place.inOp = true ∨
      (fourthWaitsEnd.threads j).place.commits = true :=
  begin_op_awaited (m := 9) (i := 3) (t := .begin) (by decide)
    (show (code ℕ).machine.Allowed (Calls (FsCalls 9)) (boot ℕ fun _ _ => 0) fourthWaits
      by decide +kernel).run rfl rfl

end Log

end Xv6Lottery
