import Xv6Lottery.User.Creation

/-!
What the two helpers of `sched_test_utils.c` have in common: the processes in the order of their
creation, and the pids that go through a pipe.

* `Roster`: the processes `c 0, …, c m`, the caller first and then those created in the run.
* `Collecting`: a parent behind its `fork`, which has read the pids of some processes.
* `read_pid`, `write_pid`: a pid is read from a pipe whole, and written to it whole. A pipe holds
  whole pids only, since 512 is a multiple of four.
* `Stunted`: too few processes, none of which creates another. It stays so.
* `GaveUp`: the caller alone, when its own `pipe` or `fork` has failed.
* `Harmless`, `harmless_run`: an invariant that every step keeps but these failures and the
  harmful ones tells of every run whether it has been harmed.
-/

namespace Xv6Lottery

open Library
open Pipe (PIPESIZE)

/-! ### The processes in their order -/

/-- The processes are `c 0`, the caller, and `c 1, …, c m`, which have been created in this
order. -/
structure Roster (caller : ℤ) (tr : List UserEvent) (pids : List ℤ) (m : ℕ) (c : ℕ → ℤ) :
    Prop where
  zero : c 0 = caller
  created_eq : created tr = (List.range m).map fun k => c (k + 1)
  mem_pids : ∀ pid, pid ∈ pids ↔ ∃ k ≤ m, c k = pid
  inj : ∀ i ≤ m, ∀ j ≤ m, c i = c j → i = j
  pos : ∀ k < m, 0 < c (k + 1) ∧ c (k + 1) ≤ intMax

namespace Roster

variable {caller : ℤ} {tr : List UserEvent} {pids : List ℤ} {m : ℕ} {c : ℕ → ℤ}

lemma start (caller : ℤ) : Roster caller [] [caller] 0 fun _ => caller where
  zero := rfl
  created_eq := rfl
  mem_pids := by simp [eq_comm]
  inj := by
    intro i hi j hj _
    omega
  pos := by simp

/-- A step that creates no process. -/
lemma quiet (h : Roster caller tr pids m c) {e : UserEvent} (he : ∀ q d, e ≠ .forked q d) :
    Roster caller (tr ++ [e]) pids m c :=
  { h with created_eq := (created_snoc_of_ne he).trans h.created_eq }

/-- A pid that no process has. -/
lemma ne_fresh (h : Roster caller tr pids m c) {d : ℤ} (hfresh : d ∉ pids) {k : ℕ} (hk : k ≤ m) :
    c k ≠ d := by
  rintro rfl
  exact hfresh ((h.mem_pids _).mpr ⟨k, hk, rfl⟩)

/-- A new process is the last of the list, and the others keep their places. -/
lemma fork (h : Roster caller tr pids m c) {q d : ℤ} (hfresh : d ∉ pids) (hpos : 0 < d)
    (hmax : d ≤ intMax) :
    Roster caller (tr ++ [.forked q d]) (d :: pids) (m + 1) (Function.update c (m + 1) d) := by
  have hold : ∀ k ≤ m, Function.update c (m + 1) d k = c k :=
    fun k hk => Function.update_of_ne (by omega) _ _
  have hnew : ∀ k ≤ m, c k ≠ d := fun k hk => h.ne_fresh hfresh hk
  constructor
  · rw [hold 0 (Nat.zero_le m), h.zero]
  · rw [created_append, h.created_eq, List.range_succ, List.map_append]
    congr 1
    · refine List.map_congr_left fun k hk => ?_
      rw [hold _ (List.mem_range.mp hk)]
    · simp [created]
  · intro pid
    rw [List.mem_cons, h.mem_pids]
    constructor
    · rintro (rfl | ⟨k, hk, rfl⟩)
      · exact ⟨m + 1, le_rfl, Function.update_self ..⟩
      · exact ⟨k, by omega, hold k hk⟩
    · rintro ⟨k, hk, rfl⟩
      rcases Nat.le_succ_iff.mp hk with hk | rfl
      · exact .inr ⟨k, hk, (hold k hk).symm⟩
      · exact .inl (Function.update_self ..)
  · intro i hi j hj hij
    rcases Nat.le_succ_iff.mp hi with hi | rfl <;> rcases Nat.le_succ_iff.mp hj with hj | rfl
    · rw [hold i hi, hold j hj] at hij
      exact h.inj i hi j hj hij
    · rw [hold i hi, Function.update_self] at hij
      exact absurd hij (hnew i hi)
    · rw [hold j hj, Function.update_self] at hij
      exact absurd hij.symm (hnew j hj)
    · rfl
  · intro k hk
    rcases Nat.lt_succ_iff_lt_or_eq.mp hk with hk | rfl
    · rw [hold _ hk]
      exact h.pos k hk
    · rw [Function.update_self]
      exact ⟨hpos, hmax⟩

lemma ne (h : Roster caller tr pids m c) {i j : ℕ} (hi : i ≤ m) (hj : j ≤ m) (hij : i ≠ j) :
    c i ≠ c j := fun he => hij (h.inj i hi j hj he)

lemma mem (h : Roster caller tr pids m c) {k : ℕ} (hk : k ≤ m) : c k ∈ pids :=
  (h.mem_pids _).mpr ⟨k, hk, rfl⟩

/-- Before the first process is created, there is only the caller. -/
lemma eq_caller (h : Roster caller tr pids 0 c) {pid : ℤ} (hpid : pid ∈ pids) : pid = caller := by
  obtain ⟨k, hk, rfl⟩ := (h.mem_pids pid).mp hpid
  rw [Nat.le_zero.mp hk, h.zero]

lemma isInt (h : Roster caller tr pids m c) {k : ℕ} (hk : k < m) : IsInt (c (k + 1)) := by
  obtain ⟨h1, h2⟩ := h.pos k hk
  exact ⟨by omega, h2⟩

lemma length_created (h : Roster caller tr pids m c) : (created tr).length = m := by
  simp [h.created_eq]

/-- The place at which a process has been created. -/
lemma created_getElem (h : Roster caller tr pids m c) {k j : ℕ} (hk : k < m) :
    (created tr)[j]? = some (c (k + 1)) ↔ j = k := by
  rw [h.created_eq, List.getElem?_map]
  constructor
  · intro hj
    by_cases hjm : j < m
    · rw [List.getElem?_range hjm, Option.map_some] at hj
      have := h.inj (j + 1) (by omega) (k + 1) (by omega) (Option.some.inj hj)
      omega
    · rw [List.getElem?_eq_none (by rw [List.length_range]; omega)] at hj
      cases hj
  · rintro rfl
    rw [List.getElem?_range hk, Option.map_some]

/-- When the failure of `assign_tickets` for the `k`-th process does harm. -/
lemma harmful_assign (h : Roster caller tr pids m c) {k : ℕ} (hk : k < m) {helper : Helper}
    {n : ℕ} {q x r : ℤ} :
    Harmful helper n caller (created tr) (.called (c (k + 1)) (.assignTickets q x) r) ↔
      r ≠ 0 ∧ helper.Creates n k := by
  simp only [Harmful, h.created_getElem hk, exists_eq_right]

/-- All that is created is reported, if the array holds the list. -/
lemma reported (h : Roster caller tr pids m c) {childPids : IntArray} {n : ℕ} (hn : n ≤ m)
    (harr : ∀ i < n, childPids i = c (i + 1)) : Reported n childPids tr where
  created i hi := by
    rw [harr i hi, h.created_eq]
    exact List.mem_map.mpr ⟨i, List.mem_range.mpr (by omega), rfl⟩
  distinct i hi j hj hij := by
    rw [harr i hi, harr j hj] at hij
    have := h.inj (i + 1) (by omega) (j + 1) (by omega) hij
    omega

end Roster

/-! ### Collecting the pids -/

/-- What is left of a parent behind its `fork`, when it has read `ρ` pids from the pipe `k`: it
is the process `c k`, and goes on with `K`. -/
inductive Collecting (childPids : IntArray) (c : ℕ → ℤ) (n k : ℕ) (K : IntArray → ℤ → UserProg) :
    ℕ → UserProg → Prop
  | closing (hn : 1 ≤ n) : Collecting childPids c n k K 0 (collect k n childPids (c (k + 1)) K)
  | reading (ρ r : ℕ) (h : ρ + r + 1 = n) :
      Collecting childPids c n k K ρ (readPids k (fun a => K a (c (k + 1))) r (ρ + 1)
        (collected childPids c k ρ))

namespace Collecting

variable {childPids : IntArray} {c c' : ℕ → ℤ} {n k ρ m : ℕ} {K : IntArray → ℤ → UserProg}
  {P : UserProg}

/-- With the writing end closed, only the first pid is in the array. -/
lemma closed (hn : 1 ≤ n) :
    Collecting childPids c n k K 0 (readPids k (fun a => K a (c (k + 1))) (n - 1) 1
      (Function.update childPids 0 (c (k + 1)))) := by
  rw [update_zero_eq_collected]
  exact reading 0 (n - 1) (by omega)

/-- It depends on the processes up to the last one read. -/
lemma congr (h : Collecting childPids c n k K ρ P) (hc : ∀ i ≤ m, c' i = c i)
    (hρ : k + 1 + ρ ≤ m) : Collecting childPids c' n k K ρ P := by
  have hfirst : c' (k + 1) = c (k + 1) := hc _ (by omega)
  cases h with
  | closing hn =>
      rw [← hfirst]
      exact closing hn
  | reading ρ r h =>
      rw [← hfirst, ← collected_congr hc hρ]
      exact reading ρ r h

/-- A parent that hands on what it has collected has read the pids of all `n` processes. -/
lemma returned (hK : ∀ a q, K a q = .ret (a, q)) {arr : IntArray} {pid : ℤ}
    (h : Collecting childPids c n k K ρ P) (hP : P = .ret (arr, pid)) :
    ρ + 1 = n ∧ pid = c (k + 1) ∧ ∀ i < n, arr i = c (k + 1 + i) := by
  cases h with
  | closing => cases hP
  | reading ρ r h =>
      cases r with
      | succ r => cases hP
      | zero =>
          rw [readPids, hK] at hP
          cases hP
          exact ⟨h, rfl, fun i hi => if_pos (by omega)⟩

lemma forkFree {Q : IntArray × ℤ → Prop} (h : Collecting childPids c n k K ρ P)
    (hK : ∀ a, ForkFree Q (K a (c (k + 1)))) : ForkFree Q P := by
  cases h with
  | closing => exact .close _ (forkFree_readPids _ hK _ _ _)
  | reading ρ r h => exact forkFree_readPids _ hK _ _ _

end Collecting

section Pipe

variable {s s' : UserSys} {pid : ℤ} {o : Outcome} {e : UserEvent} {c : ℕ → ℤ} {p a b : ℕ}

/-- The next pid is read whole. -/
lemma read_pid {k : IntArray → UserProg} {childPids : IntArray} {r : ℕ}
    (hprog : s.prog pid = readPids p k (r + 1) (a + 1) (collected childPids c p a))
    (hheld : ⟨p, false⟩ ∈ s.ends pid) (hopen : s.Open ⟨p, true⟩)
    (hdata : s.data p = inTransit c p a b) (hint : a < b → IsInt (c (p + 2 + a)))
    (hact : s.act PIPESIZE intMax pid o = some (e, s')) :
    e = .tau ∧ a < b ∧ s' = (s.setData p (inTransit c p (a + 1) b)).resume pid
      (readPids p k r (a + 2) (collected childPids c p (a + 1))) := by
  obtain ⟨rfl, hne, rfl⟩ := Sys.act_read hprog hheld hopen hact
  have hab : a < b := by
    by_contra hle
    have hlen := length_inTransit c p a b
    rw [Nat.sub_eq_zero_of_le (not_lt.mp hle)] at hlen
    exact hne (hdata.trans (List.length_eq_zero_iff.mp hlen))
  refine ⟨rfl, hab, ?_⟩
  rw [hdata, inTransit_cons hab]
  have htake : (encodeInt (c (p + 2 + a)) ++ inTransit c p (a + 1) b).take 4 =
      encodeInt (c (p + 2 + a)) := List.take_left' rfl
  have hdrop : (encodeInt (c (p + 2 + a)) ++ inTransit c p (a + 1) b).drop 4 =
      inTransit c p (a + 1) b := List.drop_left' rfl
  rw [htake, hdrop, store_encodeInt _ (hint hab), update_collected]

/-- A pid is written whole: the pipe has room for it, or none at all. -/
lemma write_pid {k : Bool → UserProg} (hprog : s.prog pid = .write p (encodeInt (c (p + 2 + b))) k)
    (hheld : ⟨p, true⟩ ∈ s.ends pid) (hopen : s.Open ⟨p, false⟩)
    (hdata : s.data p = inTransit c p a b) (hab : a ≤ b)
    (hact : s.act PIPESIZE intMax pid o = some (e, s')) :
    e = .tau ∧ s' = (s.setData p (inTransit c p a (b + 1))).resume pid (k true) := by
  have hroom : (encodeInt (c (p + 2 + b))).length ≤ PIPESIZE - (s.data p).length ∨
      PIPESIZE ≤ (s.data p).length := by
    rw [hdata, length_inTransit, length_encodeInt]
    simp only [PIPESIZE]
    omega
  obtain ⟨rfl, rfl⟩ := Sys.act_write hprog hheld hopen hroom hact
  exact ⟨rfl, by rw [hdata, inTransit_snoc hab]⟩

end Pipe

/-! ### Too few processes -/

/-- Fewer than `n` processes have been created, and there is none that creates another; but the
caller can only return a pid. -/
def Stunted (n : ℕ) (tr : List UserEvent) (s : UserSys) : Prop :=
  s.Barren (fun result => 0 < result.2) ∧ (created tr).length < n

/-- The caller alone, when a call of it has failed: it will not return a pid. -/
structure GaveUp (caller : ℤ) (tr : List UserEvent) (s : UserSys) : Prop where
  barren : s.Barren fun result => result.2 ≤ 0
  roster : ∃ c, Roster caller tr s.pids 0 c
  failure : ∃ e ∈ tr, Failure e

variable {n : ℕ} {caller : ℤ} {tr : List UserEvent} {s s' : UserSys} {pid : ℤ} {o : Outcome}
  {e : UserEvent} {h : Helper}

/-- The caller fails before the first process is created. -/
lemma Roster.gaveUp {c : ℕ → ℤ} (hroster : Roster caller tr s.pids 0 c) {P : UserProg}
    (hP : ForkFree (fun result => result.2 ≤ 0) P) (hfail : Failure e)
    (hevent : ∀ q d, e ≠ .forked q d) : GaveUp caller (tr ++ [e]) (s.resume caller P) where
  barren pid hpid := by rwa [hroster.eq_caller hpid, Sys.resume_prog_self]
  roster := ⟨c, hroster.quiet hevent⟩
  failure := ⟨e, List.mem_append_right _ (List.mem_singleton_self e), hfail⟩

lemma Stunted.act (hs : Stunted n tr s) (hpid : pid ∈ s.pids)
    (hact : s.act PIPESIZE intMax pid o = some (e, s')) : Stunted n (tr ++ [e]) s' := by
  obtain ⟨hbarren, -, hevent⟩ := hs.1.act hpid hact
  refine ⟨hbarren, ?_⟩
  rw [created_snoc_of_ne hevent]
  exact hs.2

/-- What the caller does alone is no failure of another process. -/
lemma GaveUp.act (hs : GaveUp caller tr s) (hpid : pid ∈ s.pids)
    (hact : s.act PIPESIZE intMax pid o = some (e, s')) :
    ¬ Harmful h n caller (created tr) e ∧ GaveUp caller (tr ++ [e]) s' := by
  obtain ⟨hbarren, hpids, hevent⟩ := hs.barren.act hpid hact
  obtain ⟨c, hroster⟩ := hs.roster
  obtain ⟨f, hf, hfail⟩ := hs.failure
  refine ⟨?_, hbarren, ⟨c, hpids ▸ hroster.quiet hevent⟩, f, List.mem_append_left _ hf, hfail⟩
  obtain rfl := hroster.eq_caller hpid
  have hnone : created tr = [] := hroster.created_eq
  rcases (Sys.act_event hact).1 with rfl | ⟨d, rfl⟩ | rfl | rfl | ⟨c, r, rfl⟩
  · exact id
  · exact id
  · exact fun hne => hne rfl
  · exact fun hne => hne rfl
  · cases c with
    | assignTickets q x => simp [Harmful, hnone]
    | printf text => exact id

/-- A step either does no harm, and then `I` holds behind it or the caller has given up, or it
leaves too few processes. -/
def Harmless (h : Helper) (n : ℕ) (caller : ℤ) (I : List UserEvent → UserSys → Prop)
    (tr : List UserEvent) (e : UserEvent) (s' : UserSys) : Prop :=
  (¬ Harmful h n caller (created tr) e ∧ (I (tr ++ [e]) s' ∨ GaveUp caller (tr ++ [e]) s')) ∨
    (Harmful h n caller (created tr) e ∧ Stunted n (tr ++ [e]) s')

lemma Harmless.keep {I : List UserEvent → UserSys → Prop}
    (hno : ¬ Harmful h n caller (created tr) e) (hI : I (tr ++ [e]) s') :
    Harmless h n caller I tr e s' :=
  .inl ⟨hno, .inl hI⟩

/-- In a run, `I` holds up to the first harm, unless the caller gives up, and from there on there
are too few processes. -/
lemma harmless_run {I : List UserEvent → UserSys → Prop} {s₀ : UserSys} (h₀ : I [] s₀)
    (hstep : ∀ {tr s pid o e s'}, I tr s → pid ∈ s.pids →
      s.act PIPESIZE intMax pid o = some (e, s') → Harmless h n caller I tr e s')
    (hrun : Run (userMachine.Step AnyOutcome) s₀ tr s) :
    (¬ Harmed h n caller tr ∧ (I tr s ∨ GaveUp caller tr s)) ∨
      (Harmed h n caller tr ∧ Stunted n tr s) := by
  refine Run.invariant (I := fun tr s => (¬ Harmed h n caller tr ∧ (I tr s ∨ GaveUp caller tr s)) ∨
    (Harmed h n caller tr ∧ Stunted n tr s)) (.inl ⟨not_harmed_nil h n caller, .inl h₀⟩) ?_ hrun
  intro tr s e s' _ ih hs
  obtain ⟨pid, o, hpid, -, hact⟩ := exists_act_of_step hs
  simp only [harmed_snoc_iff]
  rcases ih with ⟨hunharmed, hI | hup⟩ | ⟨hharmed, hstunted⟩
  · rcases hstep hI hpid hact with ⟨hno, hI'⟩ | ⟨hyes, hstunted⟩
    · exact .inl ⟨not_or.mpr ⟨hunharmed, hno⟩, hI'⟩
    · exact .inr ⟨.inr hyes, hstunted⟩
  · obtain ⟨hno, hup'⟩ := hup.act hpid hact
    exact .inl ⟨not_or.mpr ⟨hunharmed, hno⟩, .inr hup'⟩
  · exact .inr ⟨.inl hharmed, hstunted.act hpid hact⟩

end Xv6Lottery
