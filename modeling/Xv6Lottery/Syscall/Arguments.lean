import Xv6Lottery.Kernel.Table

/-!
The arguments of a system call (`syscall.c`), and what `sys_proc_info` writes through one.

* `UserMem`, `fetchint`, `argint`, `argptr`: the user memory of the caller, and the checked
  reads of an argument. Addresses are of type `uint`, so that sums are taken modulo `2^32`.
* `argptr_eq_some_iff`: below `KERNBASE` no sum wraps, and `argptr` accepts a pointer exactly
  when the `size` bytes from it on belong to the process.
* `Field`, `procInfoStores`, `sysProcInfoCall`: the stores of `sys_proc_info` into the caller's
  `processes_info`, and the call with its check of the pointer. `foldl_procInfoStores`: they
  turn the old contents of the structure into `sysProcInfo`.
* `proc_info_bounds_iff`: the call stays inside the process, and fails when the structure does
  not fit, exactly when not even a pointer fits or the whole structure does. The check asks
  for the size of a pointer.
-/

namespace Xv6Lottery

open Procstate

/-! ### `syscall.c` -/

/-- `KERNBASE`, the first address of the kernel. -/
abbrev KERNBASE : ℕ := 2 ^ 31

/-- The conversion of an `int` to `uint`. -/
def toUint (x : ℤ) : ℕ := (x % 2 ^ 32).toNat

lemma toUint_of_lt {x : ℤ} (h0 : 0 ≤ x) (hlt : x < 2 ^ 32) : toUint x = x.toNat := by
  rw [toUint, Int.emod_eq_of_lt h0 hlt]

/-- The part of the calling process that its arguments are read from: the size of its memory,
the saved stack pointer, and the `int` at each address. -/
structure UserMem where
  sz : ℕ
  esp : ℕ
  word : ℕ → ℤ

/-- `fetchint` -/
def fetchint (u : UserMem) (addr : ℕ) : Option ℤ :=
  if addr ≥ u.sz ∨ (addr + 4) % 2 ^ 32 > u.sz then none else some (u.word addr)

/-- `argint` -/
def argint (u : UserMem) (n : ℕ) : Option ℤ := fetchint u ((u.esp + 4 + 4 * n) % 2 ^ 32)

/-- `argptr` -/
def argptr (u : UserMem) (n : ℕ) (size : ℤ) : Option ℕ :=
  match argint u n with
  | none => none
  | some i =>
      if size < 0 ∨ toUint i ≥ u.sz ∨ (toUint i + toUint size) % 2 ^ 32 > u.sz then none
      else some (toUint i)

/-- Below `KERNBASE`, a pointer is accepted if its first byte and its last belong to the
process. -/
lemma argptr_eq_some_iff {u : UserMem} (hsz : u.sz ≤ KERNBASE) {n : ℕ} {size : ℤ}
    (h0 : 0 ≤ size) (hsize : size ≤ intMax) {p : ℕ} :
    argptr u n size = some p ↔
      ∃ i, argint u n = some i ∧ p = toUint i ∧ p < u.sz ∧ p + size.toNat ≤ u.sz := by
  have hbase : u.sz ≤ 2 ^ 31 := hsz
  have hmax : size ≤ 2 ^ 31 - 1 := hsize
  have hs : toUint size = size.toNat := toUint_of_lt h0 (by omega)
  cases harg : argint u n with
  | none => simp [argptr, harg]
  | some i =>
      simp only [argptr, harg, hs]
      constructor
      · intro h
        split_ifs at h with hbad
        obtain rfl := Option.some.inj h
        exact ⟨i, rfl, rfl, by omega, by omega⟩
      · rintro ⟨i', hi, rfl, hlt, hle⟩
        obtain rfl := Option.some.inj hi
        exact if_neg (by omega)

/-! ### `sys_proc_info` -/

/-- The `int`s of a `processes_info`. -/
inductive Field
  | numProcesses
  | pids (k : ℕ)
  | ticks (k : ℕ)
  | tickets (k : ℕ)
  deriving DecidableEq

/-- Where a field lies in the structure: four bytes for each `int`, in the order of the
declaration. -/
def Field.offset : Field → ℕ
  | .numProcesses => 0
  | .pids k => 4 + 4 * k
  | .ticks k => 4 + 4 * NPROC + 4 * k
  | .tickets k => 4 + 8 * NPROC + 4 * k

/-- `sizeof(processes_info)` -/
abbrev sizeofProcessesInfo : ℕ := 4 + 12 * NPROC

/-- `sizeof(information)`, the size of a pointer. -/
abbrev sizeofPointer : ℤ := 4

/-- A store to a field of the structure. -/
def Field.store (info : ProcessesInfo) : Field × ℤ → ProcessesInfo
  | (.numProcesses, x) => { info with numProcesses := x.toNat }
  | (.pids k, x) => { info with pids := Function.update info.pids k x }
  | (.ticks k, x) => { info with ticks := Function.update info.ticks k x }
  | (.tickets k, x) => { info with tickets := Function.update info.tickets k x }

/-- The stores of the loop of `sys_proc_info`, with `k` processes found so far. -/
def procInfoStores (t : Table) : List Slot → ℕ → List (Field × ℤ)
  | [], _ => []
  | p :: ps, k =>
      if (t p).state = unused then procInfoStores t ps k
      else (.pids k, (t p).pid) :: (.ticks k, (t p).ticks) :: (.tickets k, (t p).tickets) ::
        (.numProcesses, k + 1) :: procInfoStores t ps (k + 1)

/-- `sys_proc_info` called with the arguments in `u`: the return value, and the stores made,
with the address of the structure. -/
def sysProcInfoCall (t : Table) (u : UserMem) : ℤ × List (ℕ × Field × ℤ) :=
  match argptr u 0 sizeofPointer with
  | none => (-1, [])
  | some information =>
      (0, ((.numProcesses, 0) :: procInfoStores t slots 0).map fun st => (information, st))

/-- The stores of the loop do what the loop does. -/
lemma foldl_procInfoStores_loop (t : Table) (ps : List Slot) (info : ProcessesInfo) :
    (procInfoStores t ps info.numProcesses).foldl Field.store info = procInfoLoop t ps info := by
  induction ps generalizing info with
  | nil => rfl
  | cons p ps ih =>
      simp only [procInfoStores, procInfoLoop]
      split_ifs with hp
      · exact ih info
      · exact ih _

/-- The stores turn the old contents of the caller's structure into the listing. -/
lemma foldl_procInfoStores (t : Table) (info : ProcessesInfo) :
    ((.numProcesses, 0) :: procInfoStores t slots 0).foldl Field.store info =
      sysProcInfo t info :=
  foldl_procInfoStores_loop t slots { info with numProcesses := 0 }

/-- Every store of the loop is made inside the structure. -/
lemma offset_procInfoStores_le (t : Table) {ps : List Slot} {k : ℕ} (hk : k + ps.length ≤ NPROC)
    {st : Field × ℤ} (hst : st ∈ procInfoStores t ps k) :
    st.1.offset + 4 ≤ sizeofProcessesInfo := by
  induction ps generalizing k with
  | nil => simp [procInfoStores] at hst
  | cons p ps ih =>
      rw [List.length_cons] at hk
      simp only [procInfoStores] at hst
      split_ifs at hst with hp
      · exact ih (by omega) hst
      · simp only [List.mem_cons] at hst
        rcases hst with rfl | rfl | rfl | rfl | hst
        iterate 4
          simp only [Field.offset, sizeofProcessesInfo, NPROC] at hk ⊢
          omega
        exact ih (by omega) hst

/-- The bytes written by the stores of a call: four for each field, at exact addresses. -/
def bytesWritten (stores : List (ℕ × Field × ℤ)) : List ℕ :=
  stores.flatMap fun st => (List.range 4).map fun b => st.1 + st.2.1.offset + b

/-- The call keeps to the memory of the process, and refuses a structure at `i` that does not
fit in it. -/
structure ProcInfoSound (t : Table) (u : UserMem) (i : ℕ) : Prop where
  inside : (sysProcInfoCall t u).1 = 0 → ∀ a ∈ bytesWritten (sysProcInfoCall t u).2, a < u.sz
  unfit : u.sz < i + sizeofProcessesInfo → sysProcInfoCall t u = (-1, [])

/-- A call that finds no argument fails and writes nothing. -/
lemma sysProcInfoCall_of_none (t : Table) {u : UserMem} (h : argint u 0 = none) :
    sysProcInfoCall t u = (-1, []) := by
  simp [sysProcInfoCall, argptr, h]

/-- The bytes written lie inside the structure. -/
lemma lt_of_mem_bytesWritten {t : Table} {u : UserMem} {p a : ℕ}
    (hp : argptr u 0 sizeofPointer = some p) (ha : a ∈ bytesWritten (sysProcInfoCall t u).2) :
    a < p + sizeofProcessesInfo := by
  simp only [sysProcInfoCall, hp, bytesWritten, List.mem_flatMap, List.mem_map, List.mem_range]
    at ha
  obtain ⟨_, ⟨st, hst, rfl⟩, b, hb, rfl⟩ := ha
  have hoff : st.1.offset + 4 ≤ sizeofProcessesInfo := by
    rcases List.mem_cons.mp hst with rfl | hst
    · simp [Field.offset]
    · exact offset_procInfoStores_le t (by simp [slots]) hst
  dsimp only
  omega

/-- **The extent of `sys_proc_info`.** For a process below `KERNBASE` and every table: without
an argument the call fails and writes nothing; with the address `i` it is sound exactly when
the four bytes that are checked do not fit, or the whole structure does. -/
theorem proc_info_bounds_iff (t : Table) (u : UserMem) (hsz : u.sz ≤ KERNBASE) :
    (argint u 0 = none → sysProcInfoCall t u = (-1, [])) ∧
    ∀ x, argint u 0 = some x →
      (ProcInfoSound t u (toUint x) ↔
        u.sz < toUint x + 4 ∨ toUint x + sizeofProcessesInfo ≤ u.sz) := by
  refine ⟨sysProcInfoCall_of_none t, fun x hx => ⟨fun h => ?_, fun h => ?_⟩⟩
  · by_contra hgap
    obtain ⟨h4, hfit⟩ : toUint x + 4 ≤ u.sz ∧ u.sz < toUint x + sizeofProcessesInfo := by
      simpa using hgap
    have hptr : argptr u 0 sizeofPointer = some (toUint x) :=
      (argptr_eq_some_iff hsz (by decide) (by decide)).mpr ⟨x, hx, rfl, by omega, h4⟩
    have hret := h.unfit hfit
    simp [sysProcInfoCall, hptr] at hret
  · cases hptr : argptr u 0 sizeofPointer with
    | none =>
        have hcall : sysProcInfoCall t u = (-1, []) := by simp [sysProcInfoCall, hptr]
        exact ⟨fun h0 => by simp [hcall] at h0, fun _ => hcall⟩
    | some p =>
        obtain ⟨x', hx', rfl, -, h4⟩ :=
          (argptr_eq_some_iff hsz (by decide) (by decide)).mp hptr
        obtain rfl := Option.some.inj (hx.symm.trans hx')
        have hfit : toUint x + sizeofProcessesInfo ≤ u.sz := by
          rcases h with h | h
          · exact absurd h4 (not_le.mpr h)
          · exact h
        exact ⟨fun _ a ha => (lt_of_mem_bytesWritten hptr ha).trans_le hfit,
          fun hlt => absurd hfit (not_le.mpr hlt)⟩

/-- A process that passes the address in `x` and whose memory ends 8 bytes into its second page. -/
def twoPages (x : ℤ) : UserMem := ⟨4104, 4000, fun _ => x⟩

theorem proc_info_bounds_iff_twoPages : ProcInfoSound userinit (twoPages 1024) 1024 :=
  ((proc_info_bounds_iff userinit (twoPages 1024) (by decide)).2 1024 rfl).mpr (by decide)

/-- With the address of the last `int` of its memory the process has the kernel write behind
that memory, in the same page. -/
theorem proc_info_writes_past_end :
    (sysProcInfoCall userinit (twoPages 4100)).1 = 0 ∧
    4104 ∈ bytesWritten (sysProcInfoCall userinit (twoPages 4100)).2 ∧
    ¬ ProcInfoSound userinit (twoPages 4100) 4100 := by
  have hret : (sysProcInfoCall userinit (twoPages 4100)).1 = 0 := by decide
  have hmem : 4104 ∈ bytesWritten (sysProcInfoCall userinit (twoPages 4100)).2 := by
    decide +kernel
  exact ⟨hret, hmem, fun h => absurd (h.inside hret 4104 hmem) (by decide)⟩

end Xv6Lottery
