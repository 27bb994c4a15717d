import Xv6Lottery.User.Roster

/-!
`create_nested_processes`: a chain of processes, each of which passes the pids of all behind it
on to the one before it.

* `cont`, `body`, `entry`, `forking`: what is left of the program of the `k`-th process at the
  places it comes through.
* `Front`: the last process of the chain, which may still create the next one.
* `Past`: a process that has created the next one; it reads pids from its own pipe, and then
  writes all it has to the pipe of the process before it.
* `Chain`: the invariant. It holds in every run in which no process is kept from creating the
  next one (`Chain.act`); a failure that does leaves the chain short for good.
-/

namespace Xv6Lottery

open Library
open Pipe (PIPESIZE)

namespace Nested

section

variable (n : ℕ) (childPids tickets : IntArray)

/-! ### Places in the program -/

/-- What the `k`-th process does when its call of `create_nested_processes` returns. -/
def cont : ℕ → IntArray → ℤ → UserProg
  | 0 => fun a pid => .ret (a, pid)
  | k + 1 => passOn k (n - k - 1)

/-- The call of `create_nested_processes` by the `k`-th process. -/
def body (k : ℕ) : UserProg :=
  createNestedProcesses childPids (fun i => tickets (k + i)) (n - k) (cont n k)

/-- The child that the `k`-th process creates, from its beginning on. -/
def entry (k : ℕ) : UserProg :=
  .close ⟨k, false⟩ (assignOwn (tickets k) (body n childPids tickets (k + 1)))

/-- The `k`-th process with its pipe, at `fork`. -/
def forking (k : ℕ) : UserProg :=
  .fork fun pid =>
    if pid = 0 then entry n childPids tickets k
    else if pid > 0 then collect k (n - k) childPids pid (cont n k)
    else cont n k childPids (-1)

variable {n childPids tickets}

/-- Before the end of the chain, the call begins with a pipe. -/
lemma body_of_lt (childPids tickets : IntArray) {k : ℕ} (hk : k < n) :
    ∃ K : Option ℕ → UserProg, body n childPids tickets k = .pipe K ∧
      K none = complain "Error creating pipe\n" ∧ K (some k) = forking n childPids tickets k := by
  obtain ⟨r, hr⟩ : ∃ r, n - k = r + 1 := ⟨n - k - 1, by omega⟩
  have hinner : createNestedProcesses childPids (fun i => tickets (k + (i + 1))) r (passOn k r) =
      body n childPids tickets (k + 1) := by
    have hr' : n - (k + 1) = r := by omega
    have hshift : (fun i => tickets (k + (i + 1))) = fun i => tickets (k + 1 + i) := by
      funext i
      rw [Nat.add_assoc, Nat.add_comm 1 i]
    rw [body, cont, hr', Nat.sub_sub, hr', hshift]
  rw [body, hr, createNestedProcesses]
  refine ⟨_, rfl, rfl, ?_⟩
  rw [forking, entry, ← hinner, hr]
  rfl

/-- At its end, there is nothing left to do. -/
lemma body_last {k : ℕ} (hk : n = k + 1) : body n childPids tickets n = .spin := by
  rw [body, Nat.sub_self, createNestedProcesses]
  subst hk
  simp [cont, passOn]

lemma forkFree_cont {Q : IntArray × ℤ → Prop} (k : ℕ) {a : IntArray} {pid : ℤ}
    (h : k = 0 → Q (a, pid)) : ForkFree Q (cont n k a pid) := by
  cases k with
  | zero => exact .ret (h rfl)
  | succ k => exact forkFree_passOn _ _ _ _

/-! ### The processes -/

variable (n childPids tickets)

/-- The `k`-th process has called `assign_tickets` for itself, with success. -/
def Assigned (tr : List UserEvent) (c : ℕ → ℤ) (k : ℕ) : Prop :=
  ∀ j, k = j + 1 → .called (c k) (.assignTickets (c k) (tickets j)) 0 ∈ tr

/-- What is left of the last process, the `m`-th, and whether it has created its pipe. If it is
the `n`-th, it may have failed. -/
inductive Front (tr : List UserEvent) (c : ℕ → ℤ) : ℕ → Bool → UserProg → Prop
  | entry (k : ℕ) : Front tr c (k + 1) false (entry n childPids tickets k)
  | own (k : ℕ) :
      Front tr c (k + 1) false (assignOwn (tickets k) (body n childPids tickets (k + 1)))
  | assign (k : ℕ) :
      Front tr c (k + 1) false
        (assignTo (c (k + 1)) (tickets k) (body n childPids tickets (k + 1)))
  | body (k : ℕ) (h : Assigned tickets tr c k) :
      Front tr c k false (body n childPids tickets k)
  | forking (k : ℕ) (hk : k < n) (h : Assigned tickets tr c k) :
      Front tr c k true (forking n childPids tickets k)
  | failing {q x r : ℤ} (hr : r ≠ 0) (h : .called (c n) (.assignTickets q x) r ∈ tr)
      (text : String) : Front tr c n false (complain text)
  | exiting {q x r : ℤ} (hr : r ≠ 0) (h : .called (c n) (.assignTickets q x) r ∈ tr) :
      Front tr c n false .exit

/-- What is left of the `k`-th process when it has created the next one, read `ρ` pids from its
pipe and written `ω` pids to the one before. -/
inductive Past (c : ℕ → ℤ) (k : ℕ) : ℕ → ℕ → UserProg → Prop
  | collecting {ρ : ℕ} {P : UserProg}
      (h : Collecting childPids c (n - k) k (cont n k) ρ P) : Past c k ρ 0 P
  | writing (j ω r : ℕ) (hk : k = j + 1) (h : ω + r + k = n) :
      Past c k (n - k - 1) ω (writePids j (collected childPids c k (n - k - 1)) .spin r ω)

variable {n childPids tickets}

lemma Assigned.mono {tr : List UserEvent} {c : ℕ → ℤ} {k : ℕ} (h : Assigned tickets tr c k)
    (e : UserEvent) : Assigned tickets (tr ++ [e]) c k :=
  fun j hj => List.mem_append_left _ (h j hj)

/-- A later trace is as good. -/
lemma Front.mono {tr : List UserEvent} {c : ℕ → ℤ} {m : ℕ} {b : Bool} {P : UserProg}
    (h : Front n childPids tickets tr c m b P) (e : UserEvent) :
    Front n childPids tickets (tr ++ [e]) c m b P := by
  cases h with
  | entry k => exact .entry k
  | own k => exact .own k
  | assign k => exact .assign k
  | body _ h => exact .body m (h.mono e)
  | forking _ hk h => exact .forking m hk (h.mono e)
  | failing hr h text => exact .failing hr (List.mem_append_left _ h) text
  | exiting hr h => exact .exiting hr (List.mem_append_left _ h)

lemma Past.congr {c c' : ℕ → ℤ} {k ρ ω m : ℕ} {P : UserProg} (h : Past n childPids c k ρ ω P)
    (hc : ∀ i ≤ m, c' i = c i) (hρ : k + 1 + ρ ≤ m) : Past n childPids c' k ρ ω P := by
  cases h with
  | collecting h => exact .collecting (h.congr hc hρ)
  | writing j ω r hk h =>
      rw [← collected_congr hc hρ]
      exact .writing j ω r hk h

lemma Past.forkFree {c : ℕ → ℤ} {k ρ ω : ℕ} {P : UserProg} (h : Past n childPids c k ρ ω P)
    (hpid : 0 < c (k + 1)) : ForkFree (fun result => 0 < result.2) P := by
  cases h with
  | collecting h => exact h.forkFree fun a => forkFree_cont k fun _ => hpid
  | writing j ω r hk h => exact forkFree_writePids _ _ .spin _ _

/-! ### The invariant -/

variable (tickets) in
/-- What the trace says of the chain `c 0, …, c m`: each process has created the next one, those
that have done so had called `assign_tickets` before, and no other such calls have been made. -/
structure Story (tr : List UserEvent) (m : ℕ) (c : ℕ → ℤ) : Prop where
  forks : ∀ k < m, .forked (c k) (c (k + 1)) ∈ tr
  assigned : ∀ k < m, Assigned tickets tr c k
  calls : ∀ pid q x r, .called pid (.assignTickets q x) r ∈ tr →
    ∃ k < m, pid = c (k + 1) ∧ q = c (k + 1) ∧ x = tickets k

/-- One more event, which is no `fork` and no call of `assign_tickets` but by the last process. -/
lemma Story.snoc {tr : List UserEvent} {m : ℕ} {c : ℕ → ℤ} (h : Story tickets tr m c)
    {e : UserEvent} (he : ∀ pid q x r, e = .called pid (.assignTickets q x) r →
      ∃ k < m, pid = c (k + 1) ∧ q = c (k + 1) ∧ x = tickets k) :
    Story tickets (tr ++ [e]) m c where
  forks k hk := List.mem_append_left _ (h.forks k hk)
  assigned k hk := (h.assigned k hk).mono e
  calls pid q x r hmem := by
    rcases List.mem_append.mp hmem with hmem | hmem
    · exact h.calls pid q x r hmem
    · exact he pid q x r (List.mem_singleton.mp hmem).symm

variable (n childPids tickets) in
/-- The chain `c 0, …, c m`, in a run with the trace `tr`: the `k`-th process has read `ρ k` pids
and written `ω k`, and the last one has created its pipe or not. -/
structure Chain (caller : ℤ) (tr : List UserEvent) (s : UserSys) (m : ℕ) (c : ℕ → ℤ)
    (ρ ω : ℕ → ℕ) (b : Bool) : Prop where
  roster : Roster caller tr s.pids m c
  story : Story tickets tr m c
  le : m ≤ n
  npipes : s.npipes = m + b.toNat
  front : Front n childPids tickets tr c m b (s.prog (c m))
  past : ∀ k < m, Past n childPids c k (ρ k) (ω k) (s.prog (c k))
  /-- the pids read are those of processes that exist -/
  room : ∀ k < m, k + 1 + ρ k ≤ m
  idle : ∀ k, m ≤ k → ω k = 0
  order : ∀ k, ρ k ≤ ω (k + 1)
  data : ∀ k, s.data k = inTransit c k (ρ k) (ω (k + 1))
  writer : ∀ k, k + 1 ≤ m → k + 1 < n → ⟨k, true⟩ ∈ s.ends (c (k + 1))
  reader : ∀ k < m, ⟨k, false⟩ ∈ s.ends (c k)
  both : b = true → ⟨m, true⟩ ∈ s.ends (c m) ∧ ⟨m, false⟩ ∈ s.ends (c m)

variable {caller : ℤ} {tr : List UserEvent} {s s' : UserSys} {m : ℕ} {c : ℕ → ℤ} {ρ ω : ℕ → ℕ}
  {b : Bool} {e : UserEvent} {o : Outcome}

namespace Chain

/-- A process that writes has read all there is, so that the chain is complete. -/
lemma complete (h : Chain n childPids tickets caller tr s m c ρ ω b) {k : ℕ} (hω : 0 < ω k) :
    k < m ∧ m = n ∧ k + ω k ≤ n := by
  have hk : k < m := by
    by_contra hge
    rw [h.idle k (not_lt.mp hge)] at hω
    exact absurd hω (lt_irrefl 0)
  have hle := h.le
  have hroom := h.room k hk
  have hpast := h.past k hk
  generalize ρ k = x at hroom hpast
  generalize ω k = y at hω hpast ⊢
  generalize s.prog (c k) = P at hpast
  cases hpast with
  | collecting => exact absurd hω (lt_irrefl 0)
  | writing j y r hj hn => exact ⟨hk, by omega, by omega⟩

/-- As long as the chain is not complete, nothing has gone through the pipes. -/
lemma silent (h : Chain n childPids tickets caller tr s m c ρ ω b) (hm : m < n) (k : ℕ) :
    ρ k = 0 ∧ ω k = 0 := by
  have hω : ∀ k, ω k = 0 := by
    intro k
    by_contra hne
    have := (h.complete (Nat.pos_of_ne_zero hne)).2.1
    omega
  have hle := h.order k
  rw [hω (k + 1)] at hle
  exact ⟨Nat.le_zero.mp hle, hω k⟩

/-- The last process moves on, alone. -/
lemma moveFront (h : Chain n childPids tickets caller tr s m c ρ ω b) {P : UserProg} {b' : Bool}
    (hpids : s'.pids = s.pids) (hdata : s'.data = s.data) (hnp : s'.npipes = m + b'.toNat)
    (hprog : s'.prog = Function.update s.prog (c m) P)
    (hends : ∀ q, q ≠ c m → s'.ends q = s.ends q)
    (hwriter : ∀ k, k + 1 = m → m < n → ⟨k, true⟩ ∈ s'.ends (c m))
    (hboth : b' = true → ⟨m, true⟩ ∈ s'.ends (c m) ∧ ⟨m, false⟩ ∈ s'.ends (c m))
    (hfront : Front n childPids tickets (tr ++ [e]) c m b' P)
    (hevent : ∀ q d, e ≠ .forked q d) (hstory : Story tickets (tr ++ [e]) m c) :
    Chain n childPids tickets caller (tr ++ [e]) s' m c ρ ω b' := by
  have hne : ∀ k < m, c k ≠ c m := fun k hk => h.roster.ne hk.le le_rfl hk.ne
  refine
    { roster := hpids ▸ h.roster.quiet hevent
      story := hstory
      le := h.le
      npipes := hnp
      front := by rwa [hprog, Function.update_self]
      past := fun k hk => ?_
      room := h.room
      idle := h.idle
      order := h.order
      data := hdata ▸ h.data
      writer := fun k hk hkn => ?_
      reader := fun k hk => ?_
      both := hboth }
  · rw [hprog, Function.update_of_ne (hne k hk)]
    exact h.past k hk
  · rcases Nat.lt_or_eq_of_le hk with hk' | hk'
    · rw [hends _ (hne _ hk')]
      exact h.writer k hk hkn
    · rw [hk']
      exact hwriter k hk' (by omega)
  · rw [hends _ (hne k hk)]
    exact h.reader k hk

/-- Another process moves on: it may have read or written a pid. -/
lemma movePast (h : Chain n childPids tickets caller tr s m c ρ ω b) {k x y : ℕ} (hk : k < m)
    {P : UserProg} (hpids : s'.pids = s.pids) (hnp : s'.npipes = s.npipes)
    (hprog : s'.prog = Function.update s.prog (c k) P)
    (hends : ∀ q, q ≠ c k → s'.ends q = s.ends q)
    (hown : ∀ w ∈ s.ends (c k), w ≠ ⟨k, true⟩ → w ∈ s'.ends (c k))
    (hpast : Past n childPids c k x y P) (hroom : k + 1 + x ≤ m)
    (horder : ∀ i, Function.update ρ k x i ≤ Function.update ω k y (i + 1))
    (hdata : ∀ i, s'.data i =
      inTransit c i (Function.update ρ k x i) (Function.update ω k y (i + 1))) :
    Chain n childPids tickets caller (tr ++ [.tau]) s' m c (Function.update ρ k x)
      (Function.update ω k y) b := by
  have hne : ∀ i ≤ m, i ≠ k → c i ≠ c k := fun i hi hik => h.roster.ne hi hk.le hik
  refine
    { roster := hpids ▸ h.roster.quiet (by simp)
      story := h.story.snoc (by simp)
      le := h.le
      npipes := hnp.trans h.npipes
      front := ?_
      past := fun i hi => ?_
      room := fun i hi => ?_
      idle := fun i hi => ?_
      order := horder
      data := hdata
      writer := fun i hi hin => ?_
      reader := fun i hi => ?_
      both := fun hb => ?_ }
  · rw [hprog, Function.update_of_ne (hne m le_rfl hk.ne')]
    exact h.front.mono _
  · by_cases hik : i = k
    · subst hik
      rwa [hprog, Function.update_self, Function.update_self, Function.update_self]
    · rw [hprog, Function.update_of_ne (hne i hi.le hik), Function.update_of_ne hik,
        Function.update_of_ne hik]
      exact h.past i hi
  · by_cases hik : i = k
    · subst hik
      rwa [Function.update_self]
    · rw [Function.update_of_ne hik]
      exact h.room i hi
  · rw [Function.update_of_ne (by omega)]
    exact h.idle i hi
  · have hmem := h.writer i hi hin
    by_cases hik : i + 1 = k
    · subst hik
      exact hown _ hmem (by simp)
    · rwa [hends _ (hne _ hi hik)]
  · have hmem := h.reader i hi
    by_cases hik : i = k
    · subst hik
      exact hown _ hmem (by simp)
    · rwa [hends _ (hne _ hi.le hik)]
  · rw [hends _ (hne m le_rfl hk.ne')]
    exact h.both hb

/-- The last process goes on and holds what it held. -/
lemma resumeFront (h : Chain n childPids tickets caller tr s m c ρ ω b) {P : UserProg}
    (hfront : Front n childPids tickets (tr ++ [e]) c m b P)
    (hevent : ∀ q d, e ≠ .forked q d) (hstory : Story tickets (tr ++ [e]) m c) :
    Chain n childPids tickets caller (tr ++ [e]) (s.resume (c m) P) m c ρ ω b :=
  h.moveFront rfl rfl h.npipes rfl (fun _ _ => rfl)
    (fun k hk hm => hk ▸ h.writer k hk.le (hk ▸ hm)) h.both hfront hevent hstory

/-- The last process creates no other: the chain stays short. -/
lemma stunt (h : Chain n childPids tickets caller tr s m c ρ ω b) (hm : m < n) {P : UserProg}
    (hP : ForkFree (fun result => 0 < result.2) P) (hevent : ∀ q d, e ≠ .forked q d) :
    Stunted n (tr ++ [e]) (s.resume (c m) P) := by
  constructor
  · intro pid hpid
    obtain ⟨k, hk, rfl⟩ := (h.roster.mem_pids pid).mp hpid
    rcases Nat.lt_or_eq_of_le hk with hk | rfl
    · rw [Sys.resume_prog_of_ne _ _ (h.roster.ne hk.le le_rfl hk.ne)]
      exact (h.past k hk).forkFree (h.roster.pos k hk).1
    · rwa [Sys.resume_prog_self]
  · rw [created_snoc_of_ne hevent, h.roster.length_created]
    exact hm

/-- The last process creates the next one, which is then the last. -/
lemma spawned (h : Chain n childPids tickets caller tr s m c ρ ω true) (hm : m < n)
    (hassigned : Assigned tickets tr c m) {d : ℤ} (hfresh : d ∉ s.pids) (hpos : 0 < d)
    (hmax : d ≤ intMax) :
    Chain n childPids tickets caller (tr ++ [.forked (c m) d])
      ((s.spawn (c m) d (entry n childPids tickets m)).resume (c m)
        (collect m (n - m) childPids d (cont n m)))
      (m + 1) (Function.update c (m + 1) d) ρ ω false := by
  have hroster := h.roster.fork (q := c m) hfresh hpos hmax
  have hold : ∀ k ≤ m, Function.update c (m + 1) d k = c k :=
    fun k hk => Function.update_of_ne (by omega) _ _
  have hnew : Function.update c (m + 1) d (m + 1) = d := Function.update_self ..
  have hd : ∀ k ≤ m, c k ≠ d := fun k hk => h.roster.ne_fresh hfresh hk
  have hsilent := h.silent hm
  generalize Function.update c (m + 1) d = c' at hroster hold hnew ⊢
  refine
    { roster := hroster
      story := ⟨fun k hk => ?_, fun k hk => ?_, fun pid q x r hmem => ?_⟩
      le := hm
      npipes := h.npipes
      front := ?_
      past := fun k hk => ?_
      room := fun k hk => ?_
      idle := fun k hk => h.idle k (by omega)
      order := h.order
      data := fun k => ?_
      writer := fun k hk hkn => ?_
      reader := fun k hk => ?_
      both := by simp }
  · rw [hold k (by omega)]
    rcases Nat.lt_succ_iff_lt_or_eq.mp hk with hk | rfl
    · rw [hold (k + 1) hk]
      exact List.mem_append_left _ (h.story.forks k hk)
    · rw [hnew]
      exact List.mem_append_right _ (List.mem_singleton_self _)
  · rw [Assigned, hold k (by omega)]
    rcases Nat.lt_succ_iff_lt_or_eq.mp hk with hk | rfl
    · exact (h.story.assigned k hk).mono _
    · exact hassigned.mono _
  · obtain ⟨k, hk, hpid, hq, hx⟩ :=
      h.story.calls pid q x r ((List.mem_append.mp hmem).resolve_right (by simp))
    refine ⟨k, by omega, ?_, ?_, hx⟩
    · rw [hold _ hk, hpid]
    · rw [hold _ hk, hq]
  · rw [hnew, Sys.resume_prog_of_ne _ _ (hd m le_rfl).symm, Sys.spawn_prog_self]
    exact .entry m
  · rw [hold k (by omega)]
    rcases Nat.lt_succ_iff_lt_or_eq.mp hk with hk | rfl
    · rw [Sys.resume_prog_of_ne _ _ (h.roster.ne hk.le le_rfl hk.ne),
        Sys.spawn_prog_of_ne _ _ (hd k hk.le)]
      exact (h.past k hk).congr hold (h.room k hk)
    · rw [Sys.resume_prog_self, (hsilent k).1, (hsilent k).2]
      subst hnew
      exact .collecting (.closing (by omega))
  · have := (hsilent k).1
    omega
  · have hdata := h.data k
    rw [(hsilent k).1, (hsilent (k + 1)).2, inTransit_self] at hdata ⊢
    exact hdata
  · rcases Nat.lt_or_eq_of_le hk with hk' | hk'
    · rw [hold _ (by omega), Sys.resume_ends, Sys.spawn_ends_of_ne _ _ (hd _ (by omega))]
      exact h.writer k (by omega) hkn
    · obtain rfl : k = m := by omega
      rw [hnew, Sys.resume_ends, Sys.spawn_ends_self]
      exact (h.both rfl).1
  · rw [hold _ (by omega), Sys.resume_ends, Sys.spawn_ends_of_ne _ _ (hd _ (by omega))]
    rcases Nat.lt_succ_iff_lt_or_eq.mp hk with hk | rfl
    · exact h.reader k hk
    · exact (h.both rfl).2

end Chain

/-! ### Steps -/

variable (n childPids tickets) in
/-- The processes form a chain. -/
def Chained (caller : ℤ) (tr : List UserEvent) (s : UserSys) : Prop :=
  ∃ m c ρ ω b, Chain n childPids tickets caller tr s m c ρ ω b

lemma Chained.start (caller : ℤ) :
    Chained n childPids tickets caller [] (Helper.nested.start caller childPids tickets n) := by
  refine ⟨0, fun _ => caller, fun _ => 0, fun _ => 0, false,
    { roster := .start caller
      story := ⟨by simp, by simp, by simp⟩
      le := Nat.zero_le n
      npipes := rfl
      front := ?_
      past := by simp
      room := by simp
      idle := fun _ _ => rfl
      order := fun _ => le_rfl
      data := fun k => (inTransit_self _ k 0).symm
      writer := by simp
      reader := by simp
      both := by simp }⟩
  have hbody : Helper.nested.code childPids tickets n = body n childPids tickets 0 := by
    simp only [Helper.code, body, cont, Nat.zero_add, Nat.sub_zero]
  change Front n childPids tickets [] _ 0 false (Helper.nested.code childPids tickets n)
  rw [hbody]
  exact .body 0 fun j hj => absurd hj (Nat.zero_ne_add_one j)

namespace Chain

/-- If the last process fails, it is the caller and gives up, or the chain stays short. -/
lemma fail (h : Chain n childPids tickets caller tr s m c ρ ω b) (hm : m < n) {P : UserProg}
    (hzero : m = 0 → ForkFree (fun result => result.2 ≤ 0) P)
    (hpos : m ≠ 0 → ForkFree (fun result => 0 < result.2) P)
    (he : Harmful .nested n caller (created tr) e ↔ c m ≠ caller) (hfail : Failure e)
    (hevent : ∀ q d, e ≠ .forked q d) :
    Harmless .nested n caller (Chained n childPids tickets caller) tr e (s.resume (c m) P) := by
  have hcaller := h.roster.zero
  by_cases hm0 : m = 0
  · have hP := hzero hm0
    subst hm0
    rw [hcaller] at he ⊢
    exact .inl ⟨fun hharm => he.mp hharm rfl, .inr (h.roster.gaveUp hP hfail hevent)⟩
  · have hne : c m ≠ caller := hcaller ▸ h.roster.ne le_rfl (Nat.zero_le m) hm0
    exact .inr ⟨he.mpr hne, h.stunt hm (hpos hm0) hevent⟩

/-- A step of the last process. -/
lemma act_front (h : Chain n childPids tickets caller tr s m c ρ ω b) (hn : 1 ≤ n)
    (hact : s.act PIPESIZE intMax (c m) o = some (e, s')) :
    Harmless .nested n caller (Chained n childPids tickets caller) tr e s' := by
  have hfront := h.front
  generalize hP : s.prog (c m) = P at hfront
  cases hfront with
  | entry k =>
      obtain ⟨rfl, rfl⟩ := Sys.act_close hP hact
      refine .keep id ⟨k + 1, c, ρ, ω, false, h.moveFront rfl rfl h.npipes rfl
        (fun q hq => Sys.setEnds_ends_of_ne _ _ hq) (fun j hj hkn => ?_) (by simp) (.own k)
        (by simp) (h.story.snoc (by simp))⟩
      rw [Sys.resume_ends, Sys.setEnds_ends_self, List.mem_erase_of_ne (by simp)]
      exact hj ▸ h.writer j hj.le (hj ▸ hkn)
  | own k =>
      obtain ⟨rfl, rfl⟩ := Sys.act_getpid hP hact
      exact .keep id ⟨k + 1, c, ρ, ω, false,
        h.resumeFront (.assign k) (by simp) (h.story.snoc (by simp))⟩
  | assign k =>
      obtain ⟨r, -, rfl, rfl⟩ := Sys.act_call hP hact
      have hstory := h.story.snoc (e := .called (c (k + 1))
          (.assignTickets (c (k + 1)) (tickets k)) r) fun pid q x r he => by
        cases he
        exact ⟨k, Nat.lt_succ_self k, rfl, rfl, rfl⟩
      have hlast : .called (c (k + 1)) (.assignTickets (c (k + 1)) (tickets k)) r ∈
          tr ++ [.called (c (k + 1)) (.assignTickets (c (k + 1)) (tickets k)) r] :=
        List.mem_append_right _ (List.mem_singleton_self _)
      have hharm : Harmful .nested n caller (created tr)
          (.called (c (k + 1)) (.assignTickets (c (k + 1)) (tickets k)) r) ↔ r ≠ 0 ∧ k + 1 < n :=
        h.roster.harmful_assign (Nat.lt_succ_self k)
      by_cases hr : r = 0
      · subst hr
        refine .keep (fun hno => (hharm.mp hno).1 rfl) ⟨k + 1, c, ρ, ω, false,
          h.resumeFront (.body (k + 1) fun j hj => ?_) (by simp) hstory⟩
        cases hj
        exact hlast
      · rw [if_neg hr]
        rcases Nat.lt_or_eq_of_le h.le with hk | rfl
        · exact .inr ⟨hharm.mpr ⟨hr, hk⟩, h.stunt hk (forkFree_complain _) (by simp)⟩
        · exact .keep (fun hno => lt_irrefl _ (hharm.mp hno).2) ⟨k + 1, c, ρ, ω, false,
            h.resumeFront (.failing hr hlast _) (by simp) hstory⟩
  | body _ hassigned =>
      rcases Nat.lt_or_eq_of_le h.le with hm | rfl
      · obtain ⟨K, hK, hnone, hsome⟩ := body_of_lt childPids tickets hm
        have hnp : s.npipes = m := h.npipes
        rcases Sys.act_pipe (hP.trans hK) hact with ⟨-, rfl, rfl⟩ | ⟨-, rfl, rfl⟩
        · rw [hnp, hsome]
          refine .keep id ⟨m, c, ρ, ω, true, h.moveFront rfl rfl ?_ rfl
            (fun q hq => Sys.setEnds_ends_of_ne _ _ hq) (fun j hj hkn => ?_) (fun _ => ?_)
            (.forking m hm (hassigned.mono _)) (by simp) (h.story.snoc (by simp))⟩
          · rw [← hnp]
            rfl
          · rw [Sys.resume_ends, Sys.newPipe_ends_self]
            refine List.mem_cons_of_mem _ (List.mem_cons_of_mem _ ?_)
            exact hj ▸ h.writer j hj.le (hj ▸ hkn)
          · rw [Sys.resume_ends, Sys.newPipe_ends_self, hnp]
            simp
        · rw [hnone]
          exact h.fail hm (fun _ => forkFree_complain _) (fun _ => forkFree_complain _) Iff.rfl
            trivial (by simp)
      · obtain ⟨k, rfl⟩ : ∃ k, m = k + 1 := ⟨m - 1, by omega⟩
        exact absurd hact (Sys.act_spin (hP.trans (body_last rfl)))
  | forking _ hm hassigned =>
      rcases Sys.act_fork hP hact with ⟨d, hfresh, hpos, hmax, -, rfl, rfl⟩ | ⟨-, rfl, rfl⟩
      · rw [if_pos rfl, if_neg hpos.ne', if_pos hpos]
        exact .keep id ⟨m + 1, _, ρ, ω, false, h.spawned hm hassigned hfresh hpos hmax⟩
      · exact h.fail hm (fun _ => forkFree_cont m fun _ => by simp)
          (fun hne => forkFree_cont m fun hm0 => absurd hm0 hne) Iff.rfl trivial (by simp)
  | failing hr hmem text =>
      obtain ⟨r, -, rfl, rfl⟩ := Sys.act_call hP hact
      exact .keep id ⟨_, c, ρ, ω, false, h.resumeFront (.exiting hr (List.mem_append_left _ hmem))
        (by simp) (h.story.snoc (by simp))⟩
  | exiting hr hmem =>
      obtain ⟨rfl, es, rfl⟩ := Sys.act_exit hP hact
      exact .keep id ⟨_, c, ρ, ω, false, h.moveFront rfl rfl h.npipes rfl
        (fun q hq => Sys.setEnds_ends_of_ne _ _ hq) (fun j hj hm => absurd hm (lt_irrefl _))
        (by simp) (.exiting hr (List.mem_append_left _ hmem)) (by simp) (h.story.snoc (by simp))⟩

/-- A process that has read all pids writes the next one of them to the process before it. -/
lemma act_writing (h : Chain n childPids tickets caller tr s m c ρ ω b) {j r : ℕ} (hj : j + 1 < m)
    (hr : ω (j + 1) + r + (j + 1) = n) (hρ : ρ (j + 1) = n - (j + 1) - 1)
    (hprog : s.prog (c (j + 1)) =
      writePids j (collected childPids c (j + 1) (n - (j + 1) - 1)) .spin r (ω (j + 1)))
    (hact : s.act PIPESIZE intMax (c (j + 1)) o = some (e, s')) :
    e = .tau ∧ Chained n childPids tickets caller (tr ++ [.tau]) s' := by
  cases r with
  | zero => exact absurd hact (Sys.act_spin hprog)
  | succ r =>
      have hle := h.le
      have hpid : collected childPids c (j + 1) (n - (j + 1) - 1) (ω (j + 1)) =
          c (j + 2 + ω (j + 1)) := if_pos (by omega)
      rw [writePids, hpid] at hprog
      obtain ⟨rfl, rfl⟩ := write_pid hprog (h.writer j hj.le (by omega))
        ⟨c j, h.roster.mem (by omega), h.reader j (by omega)⟩ (h.data j) (h.order j) hact
      refine ⟨rfl, m, c, _, _, b, h.movePast hj rfl rfl rfl (fun _ _ => rfl) (fun w hw _ => hw)
        (.writing j (ω (j + 1) + 1) r rfl (by omega)) (hρ ▸ h.room _ hj) (fun i => ?_) fun i => ?_⟩
      · rw [← hρ, Function.update_eq_self]
        have horder := h.order i
        by_cases hij : i = j
        · subst hij
          rw [Function.update_self]
          omega
        · rwa [Function.update_of_ne (by omega)]
      · rw [← hρ, Function.update_eq_self, Sys.resume_data]
        by_cases hij : i = j
        · subst hij
          rw [Sys.setData_data_self, Function.update_self]
        · rw [Sys.setData_data_of_ne _ _ hij, Function.update_of_ne (by omega)]
          exact h.data i

/-- A process reads the next pid of those behind it. -/
lemma act_reading (h : Chain n childPids tickets caller tr s m c ρ ω b) {k r : ℕ} (hk : k < m)
    (hr : ρ k + (r + 1) + 1 = n - k) (hω : ω k = 0)
    (hprog : s.prog (c k) = readPids k (fun a => cont n k a (c (k + 1))) (r + 1) (ρ k + 1)
      (collected childPids c k (ρ k)))
    (hact : s.act PIPESIZE intMax (c k) o = some (e, s')) :
    e = .tau ∧ Chained n childPids tickets caller (tr ++ [.tau]) s' := by
  -- what is in the pipe has been written by a process that has seen the end of the chain
  have hroom : ρ k < ω (k + 1) → k + 1 + (ρ k + 1) ≤ m := by
    intro hlt
    obtain ⟨-, hm, hle⟩ := h.complete (k := k + 1) (by omega)
    omega
  have hint : ρ k < ω (k + 1) → IsInt (c (k + 2 + ρ k)) := by
    intro hlt
    have hpid : k + 2 + ρ k = k + 1 + ρ k + 1 := by omega
    have := hroom hlt
    rw [hpid]
    exact h.roster.isInt (by omega)
  obtain ⟨rfl, hlt, rfl⟩ := read_pid hprog (h.reader k hk)
    ⟨c (k + 1), h.roster.mem hk, h.writer k hk (by omega)⟩ (h.data k) hint hact
  refine ⟨rfl, m, c, _, _, b, h.movePast hk rfl rfl rfl (fun _ _ => rfl) (fun w hw _ => hw)
    (.collecting (.reading (ρ k + 1) r (by omega))) (hroom hlt) (fun i => ?_) fun i => ?_⟩
  · rw [← hω, Function.update_eq_self]
    have horder := h.order i
    by_cases hik : i = k
    · subst hik
      rw [Function.update_self]
      exact hlt
    · rwa [Function.update_of_ne hik]
  · rw [← hω, Function.update_eq_self, Sys.resume_data]
    by_cases hik : i = k
    · subst hik
      rw [Sys.setData_data_self, Function.update_self]
    · rw [Sys.setData_data_of_ne _ _ hik, Function.update_of_ne hik]
      exact h.data i

/-- A step of a process that has created the next one. -/
lemma act_past (h : Chain n childPids tickets caller tr s m c ρ ω b) {k : ℕ} (hk : k < m)
    (hact : s.act PIPESIZE intMax (c k) o = some (e, s')) :
    e = .tau ∧ Chained n childPids tickets caller (tr ++ [.tau]) s' := by
  have hpast := h.past k hk
  generalize hP : s.prog (c k) = P at hpast
  generalize hρ : ρ k = x at hpast
  generalize hω : ω k = y at hpast
  cases hpast with
  | collecting hcoll =>
      cases hcoll with
      | closing hle =>
          obtain ⟨rfl, rfl⟩ := Sys.act_close hP hact
          have hρ' : Function.update ρ k 0 = ρ := by rw [← hρ, Function.update_eq_self]
          have hω' : Function.update ω k 0 = ω := by rw [← hω, Function.update_eq_self]
          refine ⟨rfl, m, c, _, _, b, h.movePast hk rfl rfl rfl
            (fun q hq => Sys.setEnds_ends_of_ne _ _ hq) (fun w hw hne => ?_)
            (.collecting (.closed hle)) (by omega) (fun i => ?_) fun i => ?_⟩
          · rwa [Sys.resume_ends, Sys.setEnds_ends_self, List.mem_erase_of_ne hne]
          · rw [hρ', hω']
            exact h.order i
          · rw [hρ', hω']
            exact h.data i
      | reading _ r hr =>
          subst hρ
          cases r with
          | succ r => exact h.act_reading hk hr hω hP hact
          | zero =>
              cases k with
              | zero => exact absurd hact (Sys.act_ret hP)
              | succ j =>
                  have hpos := (h.roster.pos (j + 1) hk).1
                  have hlast : ρ (j + 1) = n - (j + 1) - 1 := by omega
                  have hpass : s.prog (c (j + 1)) = writePids j
                      (collected childPids c (j + 1) (n - (j + 1) - 1)) .spin (n - j - 1)
                      (ω (j + 1)) := by
                    rw [hP, hω, ← hlast]
                    exact if_pos hpos.ne'
                  exact h.act_writing hk (by omega) hlast hpass hact
  | writing j _ r hj hr =>
      subst hj hω
      exact h.act_writing hk hr hρ hP hact

end Chain

/-- A step keeps the chain, or leaves it short. -/
lemma Chained.act {pid : ℤ} (hn : 1 ≤ n) (h : Chained n childPids tickets caller tr s)
    (hpid : pid ∈ s.pids) (hact : s.act PIPESIZE intMax pid o = some (e, s')) :
    Harmless .nested n caller (Chained n childPids tickets caller) tr e s' := by
  obtain ⟨m, c, ρ, ω, b, h⟩ := h
  obtain ⟨k, hk, rfl⟩ := (h.roster.mem_pids pid).mp hpid
  rcases Nat.lt_or_eq_of_le hk with hk | rfl
  · obtain ⟨rfl, hchained⟩ := h.act_past hk hact
    exact .keep id hchained
  · exact h.act_front hn hact

/-! ### The call returns -/

/-- When the call of the caller returns, the chain is complete, and the pids of its processes are
in the array. -/
lemma Chain.returned (h : Chain n childPids tickets caller tr s m c ρ ω b) (hn : 1 ≤ n)
    {arr : IntArray} {pid : ℤ} (hret : s.prog caller = .ret (arr, pid)) :
    m = n ∧ pid = c 1 ∧ ∀ i < n, arr i = c (i + 1) := by
  rw [← h.roster.zero] at hret
  rcases Nat.eq_zero_or_pos m with rfl | hm
  · -- no process has been created yet
    have hfront := h.front
    rw [hret] at hfront
    generalize hP : (.ret (arr, pid) : UserProg) = P at hfront
    cases hfront with
    | body =>
        obtain ⟨K, hK, -⟩ := body_of_lt childPids tickets hn
        rw [hK] at hP
        cases hP
    | forking => cases hP
    | failing => omega
    | exiting => omega
  · have hpast := h.past 0 hm
    have hroom := h.room 0 hm
    have hle := h.le
    rw [hret] at hpast
    generalize hP : (.ret (arr, pid) : UserProg) = P at hpast
    generalize ρ 0 = x at hpast hroom
    generalize ω 0 = y at hpast
    cases hpast with
    | collecting hcoll =>
        obtain ⟨hx, hpid, harr⟩ := hcoll.returned (fun a q => rfl) hP.symm
        refine ⟨by omega, hpid, fun i hi => ?_⟩
        rw [harr i (by omega), Nat.zero_add, Nat.add_comm]
    | writing j _ r hj => exact absurd hj (Nat.zero_ne_add_one j)

lemma Chained.returned (h : Chained n childPids tickets caller tr s) (hn : 1 ≤ n)
    {arr : IntArray} {pid : ℤ} (hret : s.prog caller = .ret (arr, pid)) : Reported n arr tr := by
  obtain ⟨m, c, ρ, ω, b, h⟩ := h
  obtain ⟨rfl, -, harr⟩ := h.returned hn hret
  exact h.roster.reported le_rfl harr

/-- The program calls `assign_tickets` as soon as it has closed some ends and asked for its pid,
which neither waits for anything nor fails. -/
inductive WillAssign (pid tickets : ℤ) : UserProg → Prop
  | now (k : ℤ → UserProg) : WillAssign pid tickets (.call (.assignTickets pid tickets) k)
  | close (x : PipeEnd) {P : UserProg} (h : WillAssign pid tickets P) :
      WillAssign pid tickets (.close x P)
  | getpid {k : ℤ → UserProg} (h : WillAssign pid tickets (k pid)) :
      WillAssign pid tickets (.getpid k)

/-- The array holds the chain that starts at the caller, and each of its processes calls
`assign_tickets` for itself, with the tickets of its place, and for no other. -/
structure HoldsChain (caller : ℤ) (n : ℕ) (arr tickets : IntArray) (tr : List UserEvent)
    (s : UserSys) : Prop where
  first : .forked caller (arr 0) ∈ tr
  next : ∀ i, i + 1 < n → .forked (arr i) (arr (i + 1)) ∈ tr
  assigns : ∀ i < n, .called (arr i) (.assignTickets (arr i) (tickets i)) 0 ∈ tr ∨
    WillAssign (arr i) (tickets i) (s.prog (arr i))
  only : ∀ pid q x r, .called pid (.assignTickets q x) r ∈ tr →
    ∃ i < n, pid = arr i ∧ q = arr i ∧ x = tickets i

/-- If no call has failed, the last process has called `assign_tickets` or is about to. -/
lemma Chain.assigns_last (h : Chain n childPids tickets caller tr s n c ρ ω b)
    (hok : ∀ e ∈ tr, ¬ Failure e) {i : ℕ} (hi : n = i + 1) :
    .called (c n) (.assignTickets (c n) (tickets i)) 0 ∈ tr ∨
      WillAssign (c n) (tickets i) (s.prog (c n)) := by
  have hfront := h.front
  generalize s.prog (c n) = P at hfront
  subst hi
  cases hfront with
  | entry => exact .inr (.close _ (.getpid (.now _)))
  | own => exact .inr (.getpid (.now _))
  | assign => exact .inr (.now _)
  | body _ hassigned => exact .inl (hassigned i rfl)
  | forking _ hlt => exact absurd hlt (lt_irrefl _)
  | failing hr hmem => exact absurd hr (hok _ hmem)
  | exiting hr hmem => exact absurd hr (hok _ hmem)

/-- **The nested helper collects the chain.** In every run in which no call of `pipe`, `fork` and
`assign_tickets` fails, whatever the order of the steps: when the outermost call returns, the
array holds the chain of the processes created, and its first entry is the pid returned. -/
theorem holdsChain_of_returns (hn : 1 ≤ n)
    (hrun : Run (userMachine.Step AnyOutcome) (Helper.nested.start caller childPids tickets n) tr s)
    (hok : ∀ e ∈ tr, ¬ Failure e) {arr : IntArray} {pid : ℤ}
    (hret : s.prog caller = .ret (arr, pid)) :
    pid = arr 0 ∧ HoldsChain caller n arr tickets tr s := by
  obtain ⟨-, ⟨m, c, ρ, ω, b, h⟩ | hup⟩ | ⟨hharmed, -⟩ :=
    harmless_run (.start caller) (Chained.act hn) hrun
  rotate_left
  · obtain ⟨e, he, hfail⟩ := hup.failure
    exact absurd hfail (hok e he)
  · exact absurd hharmed (not_harmed_of_forall hok)
  obtain ⟨rfl, rfl, harr⟩ := h.returned hn hret
  refine ⟨(harr 0 hn).symm, ⟨?_, fun i hi => ?_, fun i hi => ?_, fun pid q x r hmem => ?_⟩⟩
  · rw [harr 0 hn, ← h.roster.zero]
    exact h.story.forks 0 hn
  · rw [harr i (by omega), harr (i + 1) hi]
    exact h.story.forks (i + 1) hi
  · rw [harr i hi]
    rcases Nat.lt_or_eq_of_le hi with hlt | rfl
    · exact .inl (h.story.assigned (i + 1) hlt i rfl)
    · exact h.assigns_last hok rfl
  · obtain ⟨i, hi, hpid, hq, hx⟩ := h.story.calls pid q x r hmem
    exact ⟨i, hi, by rw [harr i hi, hpid], by rw [harr i hi, hq], hx⟩

/-- Process 5 about to create a chain of two processes, with 10 and 11 tickets. -/
def twoStart : UserSys := Helper.nested.start 5 (fun _ => 1) (fun i => 10 + i) 2

/-- The call returns while process 7 has not taken a step. -/
def twoActs : List (ℤ × Outcome) :=
  [(5, .go), (5, .child 6), (6, .go), (6, .go), (6, .answers 0), (6, .go), (6, .child 7), (6, .go),
    (6, .go), (5, .go), (5, .go)]

theorem holdsChain_two :
    ∃ tr s arr, Run (userMachine.Step AnyOutcome) twoStart tr s ∧ s.prog 5 = .ret (arr, 6) ∧
      arr 1 = 7 ∧ HoldsChain 5 2 arr (fun i => 10 + i) tr s := by
  have hrun := Guarded.Allowed.run
    (by decide +kernel : userMachine.Allowed AnyOutcome twoStart twoActs)
  have hok : ∀ e ∈ userMachine.trace twoStart twoActs, ¬ Failure e := by decide +kernel
  obtain ⟨arr, hret, harr⟩ :
      ∃ arr, (userMachine.exec twoStart twoActs).prog 5 = .ret (arr, 6) ∧ arr 1 = 7 :=
    ⟨_, rfl, by decide +kernel⟩
  exact ⟨_, _, arr, hrun, hret, harr, (holdsChain_of_returns (by decide) hrun hok hret).2⟩

end

end Nested

end Xv6Lottery
