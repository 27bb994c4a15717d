import Xv6Lottery.User.Roster

/-!
`create_more_processes`: a child of the caller creates all other processes, and writes their pids
to the caller.

* `callerForking`, `makerEntry`: the caller at `fork`, and the child it creates.
* `Maker`: the child that creates the others, by what it has created and written.
* `Leaf`: a process created by this child. It creates nothing and leaves the pipe alone.
* `Spread`: the invariant from the first `fork` on, `Fanned` with the states before. It holds in
  every run in which nothing keeps the child from creating the others (`Fanned.act`).
-/

namespace Xv6Lottery

open Library
open Pipe (PIPESIZE)

namespace Fan

section

variable (n : ℕ) (childPids tickets : IntArray)

/-! ### The processes -/

/-- The child of the caller, from its beginning on. -/
def makerEntry : UserProg :=
  .close ⟨0, false⟩ (assignOwn (tickets 0) (createRest 0 tickets (n - 1) 1))

/-- The caller hands on what the helper returns. -/
def finish (a : IntArray) (pid : ℤ) : UserProg := .ret (a, pid)

/-- The caller with its pipe, at `fork`. -/
def callerForking : UserProg :=
  .fork fun pid =>
    if pid = 0 then makerEntry n tickets
    else if pid > 0 then collect 0 n childPids pid finish
    else finish childPids (-1)

/-- What is left of the child that creates the others, when there are `m` processes besides the
caller and it has written `ω` pids. If it has no other to create, it may have failed. -/
inductive Maker (c : ℕ → ℤ) : ℕ → ℕ → UserProg → Prop
  | entry : Maker c 1 0 (makerEntry n tickets)
  | own : Maker c 1 0 (assignOwn (tickets 0) (createRest 0 tickets (n - 1) 1))
  | assign : Maker c 1 0 (assignTo (c 1) (tickets 0) (createRest 0 tickets (n - 1) 1))
  | looping (j r : ℕ) (h : j + 1 + r = n) : Maker c (j + 1) j (createRest 0 tickets r (j + 1))
  | writing (j r : ℕ) (h : j + 2 + r = n) :
      Maker c (j + 2) j (.write 0 (encodeInt (c (j + 2))) fun _ => createRest 0 tickets r (j + 2))
  | failing (h : n = 1) (text : String) : Maker c 1 0 (complain text)
  | exiting (h : n = 1) : Maker c 1 0 .exit

/-- What is left of a process that creates no other. -/
inductive Leaf : UserProg → Prop
  | own (x : ℤ) : Leaf (assignOwn x .spin)
  | assign (q x : ℤ) : Leaf (assignTo q x .spin)
  | spin : Leaf .spin
  | failing (text : String) : Leaf (complain text)
  | exiting : Leaf .exit

variable {n childPids tickets}

lemma Leaf.forkFree {Q : IntArray × ℤ → Prop} {P : UserProg} (h : Leaf P) : ForkFree Q P := by
  cases h with
  | own x => exact .getpid fun q => forkFree_assignTo .spin q x
  | assign q x => exact forkFree_assignTo .spin q x
  | spin => exact .spin
  | failing text => exact forkFree_complain text
  | exiting => exact .exit

/-- The pids written are those of processes that exist. -/
lemma Maker.lt {c : ℕ → ℤ} {m ω : ℕ} {P : UserProg} (h : Maker n tickets c m ω P) : ω < m := by
  cases h <;> omega

/-! ### The invariant -/

variable (n childPids tickets) in
/-- The caller `c 0`, its child `c 1` and the processes `c 2, …, c m` which this has created: the
caller has read `ρ` pids, and its child has written `ω`. -/
structure Spread (caller : ℤ) (tr : List UserEvent) (s : UserSys) (m : ℕ) (c : ℕ → ℤ)
    (ρ ω : ℕ) : Prop where
  roster : Roster caller tr s.pids m c
  le : m ≤ n
  parent : Collecting childPids c n 0 finish ρ (s.prog (c 0))
  maker : Maker n tickets c m ω (s.prog (c 1))
  leaf : ∀ k, 2 ≤ k → k ≤ m → Leaf (s.prog (c k))
  order : ρ ≤ ω
  data : s.data 0 = inTransit c 0 ρ ω
  writer : 1 < n → ⟨0, true⟩ ∈ s.ends (c 1)
  reader : ⟨0, false⟩ ∈ s.ends (c 0)

variable (n childPids tickets) in
/-- The states of the helper, as long as nothing has kept a process from being created. -/
inductive Fanned (caller : ℤ) (tr : List UserEvent) (s : UserSys) : Prop
  | piping (h : Roster caller tr s.pids 0 fun _ => caller) (hdata : s.data 0 = [])
      (hnp : s.npipes = 0) (hprog : s.prog caller = Helper.more.code childPids tickets n)
  | forking (h : Roster caller tr s.pids 0 fun _ => caller) (hdata : s.data 0 = [])
      (hread : ⟨0, false⟩ ∈ s.ends caller) (hwrite : ⟨0, true⟩ ∈ s.ends caller)
      (hprog : s.prog caller = callerForking n childPids tickets)
  | spread {m : ℕ} {c : ℕ → ℤ} {ρ ω : ℕ} (h : Spread n childPids tickets caller tr s m c ρ ω)

variable {caller : ℤ} {tr : List UserEvent} {s s' : UserSys} {m : ℕ} {c : ℕ → ℤ} {ρ ω : ℕ}
  {e : UserEvent} {o : Outcome}

lemma Fanned.start (caller : ℤ) :
    Fanned n childPids tickets caller [] (Helper.more.start caller childPids tickets n) :=
  .piping (.start caller) rfl rfl rfl

namespace Spread

lemma one_le (h : Spread n childPids tickets caller tr s m c ρ ω) : 1 ≤ m := by
  have := h.maker.lt
  omega

/-- The caller moves on: it may have read a pid. -/
lemma moveParent (h : Spread n childPids tickets caller tr s m c ρ ω) {x : ℕ} {P : UserProg}
    (hpids : s'.pids = s.pids) (hprog : s'.prog = Function.update s.prog (c 0) P)
    (hends : ∀ q, q ≠ c 0 → s'.ends q = s.ends q) (hreader : ⟨0, false⟩ ∈ s'.ends (c 0))
    (hparent : Collecting childPids c n 0 finish x P) (horder : x ≤ ω)
    (hdata : s'.data 0 = inTransit c 0 x ω) :
    Spread n childPids tickets caller (tr ++ [.tau]) s' m c x ω := by
  have hne : ∀ k, 1 ≤ k → k ≤ m → c k ≠ c 0 :=
    fun k hk hkm => h.roster.ne hkm (Nat.zero_le m) (by omega)
  refine
    { roster := hpids ▸ h.roster.quiet (by simp)
      le := h.le
      parent := by rwa [hprog, Function.update_self]
      maker := ?_
      leaf := fun k hk hkm => ?_
      order := horder
      data := hdata
      writer := fun hn => ?_
      reader := hreader }
  · rw [hprog, Function.update_of_ne (hne 1 le_rfl h.one_le)]
    exact h.maker
  · rw [hprog, Function.update_of_ne (hne k (by omega) hkm)]
    exact h.leaf k hk hkm
  · rw [hends _ (hne 1 le_rfl h.one_le)]
    exact h.writer hn

/-- Its child moves on: it may have written a pid. -/
lemma moveMaker (h : Spread n childPids tickets caller tr s m c ρ ω) {y : ℕ} {P : UserProg}
    (hpids : s'.pids = s.pids) (hprog : s'.prog = Function.update s.prog (c 1) P)
    (hends : ∀ q, q ≠ c 1 → s'.ends q = s.ends q) (hwriter : 1 < n → ⟨0, true⟩ ∈ s'.ends (c 1))
    (hmaker : Maker n tickets c m y P) (horder : ρ ≤ y) (hdata : s'.data 0 = inTransit c 0 ρ y)
    (hevent : ∀ q d, e ≠ .forked q d) :
    Spread n childPids tickets caller (tr ++ [e]) s' m c ρ y := by
  have hne : ∀ k ≤ m, k ≠ 1 → c k ≠ c 1 := fun k hkm hk => h.roster.ne hkm h.one_le hk
  refine
    { roster := hpids ▸ h.roster.quiet hevent
      le := h.le
      parent := ?_
      maker := by rwa [hprog, Function.update_self]
      leaf := fun k hk hkm => ?_
      order := horder
      data := hdata
      writer := hwriter
      reader := ?_ }
  · rw [hprog, Function.update_of_ne (hne 0 (Nat.zero_le m) Nat.zero_ne_one)]
    exact h.parent
  · rw [hprog, Function.update_of_ne (hne k hkm (by omega))]
    exact h.leaf k hk hkm
  · rw [hends _ (hne 0 (Nat.zero_le m) Nat.zero_ne_one)]
    exact h.reader

/-- One of the others moves on. -/
lemma moveLeaf (h : Spread n childPids tickets caller tr s m c ρ ω) {k : ℕ} (hk : 2 ≤ k)
    (hkm : k ≤ m) {P : UserProg} (hpids : s'.pids = s.pids) (hdata : s'.data = s.data)
    (hprog : s'.prog = Function.update s.prog (c k) P)
    (hends : ∀ q, q ≠ c k → s'.ends q = s.ends q) (hleaf : Leaf P)
    (hevent : ∀ q d, e ≠ .forked q d) :
    Spread n childPids tickets caller (tr ++ [e]) s' m c ρ ω := by
  have hne : ∀ i ≤ m, i ≠ k → c i ≠ c k := fun i him hi => h.roster.ne him hkm hi
  have h0 := hne 0 (Nat.zero_le m) (by omega)
  have h1 := hne 1 h.one_le (by omega)
  refine
    { roster := hpids ▸ h.roster.quiet hevent
      le := h.le
      parent := ?_
      maker := ?_
      leaf := fun i hi him => ?_
      order := h.order
      data := hdata ▸ h.data
      writer := fun hn => ?_
      reader := ?_ }
  · rw [hprog, Function.update_of_ne h0]
    exact h.parent
  · rw [hprog, Function.update_of_ne h1]
    exact h.maker
  · by_cases hik : i = k
    · subst hik
      rwa [hprog, Function.update_self]
    · rw [hprog, Function.update_of_ne (hne i him hik)]
      exact h.leaf i hi him
  · rw [hends _ h1]
    exact h.writer hn
  · rw [hends _ h0]
    exact h.reader

/-- The child of the caller creates no more processes. -/
lemma stunt (h : Spread n childPids tickets caller tr s m c ρ ω) (hm : m < n) {P : UserProg}
    (hP : ForkFree (fun result => 0 < result.2) P) (hevent : ∀ q d, e ≠ .forked q d) :
    Stunted n (tr ++ [e]) (s.resume (c 1) P) := by
  constructor
  · intro pid hpid
    obtain ⟨k, hk, rfl⟩ := (h.roster.mem_pids pid).mp hpid
    by_cases hk1 : k = 1
    · rwa [hk1, Sys.resume_prog_self]
    · rw [Sys.resume_prog_of_ne _ _ (h.roster.ne hk h.one_le hk1)]
      rcases Nat.eq_zero_or_pos k with rfl | hpos
      · exact h.parent.forkFree fun a => .ret (h.roster.pos 0 h.one_le).1
      · exact (h.leaf k (by omega) hk).forkFree
  · rw [created_snoc_of_ne hevent, h.roster.length_created]
    exact hm

/-- The child of the caller creates another process. -/
lemma spawned (h : Spread n childPids tickets caller tr s m c ρ ω) (hm : m < n) {d : ℤ}
    (hfresh : d ∉ s.pids) (hpos : 0 < d) (hmax : d ≤ intMax) {P Q : UserProg} (hleaf : Leaf Q)
    (hmaker : ∀ c' : ℕ → ℤ, c' (m + 1) = d → Maker n tickets c' (m + 1) ω P) :
    Spread n childPids tickets caller (tr ++ [.forked (c 1) d])
      ((s.spawn (c 1) d Q).resume (c 1) P) (m + 1) (Function.update c (m + 1) d) ρ ω := by
  have hroster := h.roster.fork (q := c 1) hfresh hpos hmax
  have hold : ∀ k ≤ m, Function.update c (m + 1) d k = c k :=
    fun k hk => Function.update_of_ne (by omega) _ _
  have hnew : Function.update c (m + 1) d (m + 1) = d := Function.update_self ..
  have hd : ∀ k ≤ m, c k ≠ d := fun k hk => h.roster.ne_fresh hfresh hk
  have h01 : c 0 ≠ c 1 := h.roster.ne (Nat.zero_le m) h.one_le Nat.zero_ne_one
  have hone := h.one_le
  have hlt := h.maker.lt
  have horder := h.order
  generalize Function.update c (m + 1) d = c' at hroster hold hnew ⊢
  refine
    { roster := hroster
      le := hm
      parent := ?_
      maker := ?_
      leaf := fun k hk hkm => ?_
      order := h.order
      data := ?_
      writer := fun hn => ?_
      reader := ?_ }
  · rw [hold 0 (Nat.zero_le m), Sys.resume_prog_of_ne _ _ h01,
      Sys.spawn_prog_of_ne _ _ (hd 0 (Nat.zero_le m))]
    exact h.parent.congr hold (by omega)
  · rw [hold 1 hone, Sys.resume_prog_self]
    exact hmaker c' hnew
  · rcases Nat.lt_succ_iff_lt_or_eq.mp (Nat.lt_succ_of_le hkm) with hlt' | rfl
    · rw [hold k (by omega), Sys.resume_prog_of_ne _ _ (h.roster.ne (by omega) hone (by omega)),
        Sys.spawn_prog_of_ne _ _ (hd k (by omega))]
      exact h.leaf k hk (by omega)
    · rw [hnew, Sys.resume_prog_of_ne _ _ (hd 1 hone).symm, Sys.spawn_prog_self]
      exact hleaf
  · rw [inTransit_congr hold (by omega)]
    exact h.data
  · rw [hold 1 hone, Sys.resume_ends, Sys.spawn_ends_of_ne _ _ (hd 1 hone)]
    exact h.writer hn
  · rw [hold 0 (Nat.zero_le m), Sys.resume_ends, Sys.spawn_ends_of_ne _ _ (hd 0 (Nat.zero_le m))]
    exact h.reader

/-! ### Steps -/

/-- A step of the caller. -/
lemma act_parent (h : Spread n childPids tickets caller tr s m c ρ ω)
    (hact : s.act PIPESIZE intMax (c 0) o = some (e, s')) :
    e = .tau ∧ ∃ x, Spread n childPids tickets caller (tr ++ [.tau]) s' m c x ω := by
  have hone := h.one_le
  have hlt := h.maker.lt
  have hparent := h.parent
  generalize hP : s.prog (c 0) = P at hparent
  cases hparent with
  | closing hn =>
      obtain ⟨rfl, rfl⟩ := Sys.act_close hP hact
      refine ⟨rfl, 0, h.moveParent rfl rfl (fun q hq => Sys.setEnds_ends_of_ne _ _ hq) ?_
        (.closed hn) h.order h.data⟩
      rw [Sys.resume_ends, Sys.setEnds_ends_self, List.mem_erase_of_ne (by simp)]
      exact h.reader
  | reading _ r hr =>
      cases r with
      | zero => exact absurd hact (Sys.act_ret hP)
      | succ r =>
          have hint : ρ < ω → IsInt (c (0 + 2 + ρ)) := by
            intro hρ
            have hpid : 0 + 2 + ρ = 1 + ρ + 1 := by omega
            rw [hpid]
            exact h.roster.isInt (by omega)
          obtain ⟨rfl, hρ, rfl⟩ := read_pid hP h.reader
            ⟨c 1, h.roster.mem hone, h.writer (by omega)⟩ h.data hint hact
          exact ⟨rfl, ρ + 1, h.moveParent rfl rfl (fun _ _ => rfl) h.reader
            (.reading (ρ + 1) r (by omega)) hρ
            (by rw [Sys.resume_data, Sys.setData_data_self])⟩

/-- A step of its child. -/
lemma act_maker (h : Spread n childPids tickets caller tr s m c ρ ω)
    (hact : s.act PIPESIZE intMax (c 1) o = some (e, s')) :
    Harmless .more n caller (Fanned n childPids tickets caller) tr e s' := by
  have hmaker := h.maker
  generalize hP : s.prog (c 1) = P at hmaker
  cases hmaker with
  | entry =>
      obtain ⟨rfl, rfl⟩ := Sys.act_close hP hact
      refine .keep id (.spread (h.moveMaker rfl rfl (fun q hq => Sys.setEnds_ends_of_ne _ _ hq)
        (fun hn => ?_) .own h.order h.data (by simp)))
      rw [Sys.resume_ends, Sys.setEnds_ends_self, List.mem_erase_of_ne (by simp)]
      exact h.writer hn
  | own =>
      obtain ⟨rfl, rfl⟩ := Sys.act_getpid hP hact
      exact .keep id (.spread (h.moveMaker rfl rfl (fun _ _ => rfl) h.writer .assign h.order h.data
        (by simp)))
  | assign =>
      obtain ⟨r, -, rfl, rfl⟩ := Sys.act_call hP hact
      have hharm : Harmful .more n caller (created tr)
          (.called (c 1) (.assignTickets (c 1) (tickets 0)) r) ↔ r ≠ 0 ∧ 0 = 0 ∧ 1 < n :=
        h.roster.harmful_assign (Nat.lt_succ_self 0)
      by_cases hr : r = 0
      · have hle := h.le
        have hloop : Maker n tickets c 1 0 (createRest 0 tickets (n - 1) 1) :=
          .looping 0 (n - 1) (by omega)
        rw [if_pos hr]
        exact .keep (fun hno => (hharm.mp hno).1 hr) (.spread (h.moveMaker rfl rfl (fun _ _ => rfl)
          h.writer hloop h.order h.data (by simp)))
      · rw [if_neg hr]
        rcases Nat.lt_or_eq_of_le h.le with hn | hn
        · exact .inr ⟨hharm.mpr ⟨hr, rfl, hn⟩, h.stunt hn (forkFree_complain _) (by simp)⟩
        · exact .keep (fun hno => (hharm.mp hno).2.2.ne hn) (.spread (h.moveMaker rfl rfl
            (fun _ _ => rfl) h.writer (.failing hn.symm _) h.order h.data (by simp)))
  | looping _ r hr =>
      cases r with
      | zero => exact absurd hact (Sys.act_spin hP)
      | succ r =>
          rcases Sys.act_fork hP hact with ⟨d, hfresh, hpos, hmax, -, rfl, rfl⟩ | ⟨-, rfl, rfl⟩
          · have hpid : d ≠ -1 := by omega
            rw [if_pos rfl, if_neg hpos.ne', if_pos hpos]
            dsimp only
            rw [if_neg hpid]
            refine .keep id (.spread (h.spawned (by omega) hfresh hpos hmax (.own _) ?_))
            rintro c' rfl
            exact .writing ω r (by omega)
          · have hne : c 1 ≠ caller :=
              h.roster.zero ▸ h.roster.ne h.one_le (Nat.zero_le _) Nat.one_ne_zero
            exact .inr ⟨hne, h.stunt (by omega) (forkFree_complain _) (by simp)⟩
  | writing _ r hr =>
      have hpid : c (ω + 2) = c (0 + 2 + ω) := by rw [Nat.zero_add, Nat.add_comm]
      rw [hpid] at hP
      obtain ⟨rfl, rfl⟩ := write_pid hP (h.writer (by omega))
        ⟨c 0, h.roster.mem (Nat.zero_le _), h.reader⟩ h.data h.order hact
      exact .keep id (.spread (h.moveMaker rfl rfl (fun _ _ => rfl) h.writer
        (.looping (ω + 1) r (by omega)) (Nat.le_succ_of_le h.order)
        (by rw [Sys.resume_data, Sys.setData_data_self]) (by simp)))
  | failing hn text =>
      obtain ⟨r, -, rfl, rfl⟩ := Sys.act_call hP hact
      exact .keep id (.spread (h.moveMaker rfl rfl (fun _ _ => rfl) h.writer (.exiting hn) h.order
        h.data (by simp)))
  | exiting hn =>
      obtain ⟨rfl, es, rfl⟩ := Sys.act_exit hP hact
      exact .keep id (.spread (h.moveMaker rfl rfl
        (fun q hq => Sys.setEnds_ends_of_ne _ _ hq) (fun hn' => absurd hn hn'.ne') (.exiting hn)
        h.order h.data (by simp)))

/-- A step of one of the others. -/
lemma act_leaf (h : Spread n childPids tickets caller tr s m c ρ ω) {k : ℕ} (hk : 2 ≤ k)
    (hkm : k ≤ m) (hact : s.act PIPESIZE intMax (c k) o = some (e, s')) :
    Harmless .more n caller (Fanned n childPids tickets caller) tr e s' := by
  have hleaf := h.leaf k hk hkm
  generalize hP : s.prog (c k) = P at hleaf
  cases hleaf with
  | own x =>
      obtain ⟨rfl, rfl⟩ := Sys.act_getpid hP hact
      exact .keep id (.spread (h.moveLeaf hk hkm rfl rfl rfl (fun _ _ => rfl) (.assign _ x)
        (by simp)))
  | assign q x =>
      obtain ⟨r, -, rfl, rfl⟩ := Sys.act_call hP hact
      obtain ⟨j, rfl⟩ : ∃ j, k = j + 1 := ⟨k - 1, by omega⟩
      -- such a process is not the first one created
      have hno : ¬ Harmful .more n caller (created tr)
          (.called (c (j + 1)) (.assignTickets q x) r) := by
        rw [h.roster.harmful_assign hkm]
        rintro ⟨-, hj, -⟩
        omega
      refine .keep hno (.spread (h.moveLeaf hk hkm rfl rfl rfl (fun _ _ => rfl) ?_ (by simp)))
      split_ifs
      · exact .spin
      · exact .failing _
  | spin => exact absurd hact (Sys.act_spin hP)
  | failing text =>
      obtain ⟨r, -, rfl, rfl⟩ := Sys.act_call hP hact
      exact .keep id (.spread (h.moveLeaf hk hkm rfl rfl rfl (fun _ _ => rfl) .exiting (by simp)))
  | exiting =>
      obtain ⟨rfl, es, rfl⟩ := Sys.act_exit hP hact
      exact .keep id (.spread (h.moveLeaf hk hkm rfl rfl rfl
        (fun q hq => Sys.setEnds_ends_of_ne _ _ hq) .exiting (by simp)))

end Spread

/-- The caller creates its child. -/
lemma Spread.start (h : Roster caller tr s.pids 0 fun _ => caller) (hn : 1 ≤ n)
    (hdata : s.data 0 = []) (hread : ⟨0, false⟩ ∈ s.ends caller)
    (hwrite : ⟨0, true⟩ ∈ s.ends caller) {d : ℤ} (hfresh : d ∉ s.pids) (hpos : 0 < d)
    (hmax : d ≤ intMax) :
    Spread n childPids tickets caller (tr ++ [.forked caller d])
      ((s.spawn caller d (makerEntry n tickets)).resume caller (collect 0 n childPids d finish)) 1
      (Function.update (fun _ => caller) 1 d) 0 0 := by
  have hroster := h.fork (q := caller) hfresh hpos hmax
  have hd : caller ≠ d := h.ne_fresh hfresh le_rfl
  have hzero : Function.update (fun _ => caller) 1 d 0 = caller := rfl
  have hone : Function.update (fun _ => caller) 1 d 1 = d := rfl
  generalize Function.update (fun _ => caller) 1 d = c at hroster hzero hone ⊢
  subst hone
  refine
    { roster := hroster
      le := hn
      parent := ?_
      maker := ?_
      leaf := fun k hk hkm => by omega
      order := le_rfl
      data := hdata.trans (inTransit_self _ _ _).symm
      writer := fun _ => ?_
      reader := ?_ }
  · rw [hzero, Sys.resume_prog_self]
    exact .closing hn
  · rw [Sys.resume_prog_of_ne _ _ hd.symm, Sys.spawn_prog_self]
    exact .entry
  · rwa [Sys.resume_ends, Sys.spawn_ends_self]
  · rwa [hzero, Sys.resume_ends, Sys.spawn_ends_of_ne _ _ hd]

/-- A step keeps the fan, or leaves it short. -/
lemma Fanned.act {pid : ℤ} (hn : 1 ≤ n) (h : Fanned n childPids tickets caller tr s)
    (hpid : pid ∈ s.pids) (hact : s.act PIPESIZE intMax pid o = some (e, s')) :
    Harmless .more n caller (Fanned n childPids tickets caller) tr e s' := by
  cases h with
  | piping h hdata hnp hprog =>
      obtain ⟨-, -, rfl⟩ := (h.mem_pids pid).mp hpid
      rcases Sys.act_pipe hprog hact with ⟨-, rfl, rfl⟩ | ⟨-, rfl, rfl⟩
      · rw [hnp]
        refine .keep id (.forking (h.quiet (by simp)) hdata ?_ ?_ ?_)
        · rw [Sys.resume_ends, Sys.newPipe_ends_self, hnp]
          simp
        · rw [Sys.resume_ends, Sys.newPipe_ends_self, hnp]
          simp
        · rw [Sys.resume_prog_self]
          rfl
      · exact .inl ⟨fun hne => hne rfl, .inr (h.gaveUp (forkFree_complain _) trivial (by simp))⟩
  | forking h hdata hread hwrite hprog =>
      obtain ⟨-, -, rfl⟩ := (h.mem_pids pid).mp hpid
      rcases Sys.act_fork hprog hact with ⟨d, hfresh, hpos, hmax, -, rfl, rfl⟩ | ⟨-, rfl, rfl⟩
      · rw [if_pos rfl, if_neg hpos.ne', if_pos hpos]
        exact .keep id (.spread (.start h hn hdata hread hwrite hfresh hpos hmax))
      · exact .inl ⟨fun hne => hne rfl, .inr (h.gaveUp (.ret (by simp)) trivial (by simp))⟩
  | spread h =>
      obtain ⟨k, hk, rfl⟩ := (h.roster.mem_pids pid).mp hpid
      match k with
      | 0 =>
          obtain ⟨rfl, x, h'⟩ := h.act_parent hact
          exact .keep id (.spread h')
      | 1 => exact h.act_maker hact
      | k + 2 => exact h.act_leaf (Nat.le_add_left 2 k) hk hact

/-- When the call returns, all processes have been created, and their pids are in the array. -/
lemma Fanned.returned (h : Fanned n childPids tickets caller tr s) {arr : IntArray} {pid : ℤ}
    (hret : s.prog caller = .ret (arr, pid)) :
    Reported n arr tr := by
  cases h with
  | piping h hdata hnp hprog => cases hprog.symm.trans hret
  | forking h hdata hread hwrite hprog => cases hprog.symm.trans hret
  | spread h =>
      have hlt := h.maker.lt
      have horder := h.order
      have hprog := (congrArg s.prog h.roster.zero).trans hret
      obtain ⟨hρ, -, harr⟩ := h.parent.returned (fun a q => rfl) hprog
      refine h.roster.reported (by omega) fun i hi => ?_
      rw [harr i hi, Nat.zero_add, Nat.add_comm]

end

end Fan

end Xv6Lottery
