import Xv6Lottery.Syscall.Arguments
import Mathlib.Data.PNat.Basic

/-!
`growproc`, and the part of `vm.c` under it.

* `Pgdir`, `Vm`: the page directory, a table of page tables, and the memory allocator as the
  list of its answers. A page table entry is empty or holds a physical address.
* `walkpgdir`, `mappages`, `allocuvm`, `deallocuvm`, `growproc`: the functions of the source; a
  `panic` is the result `none`.
* `pte_deallocLoop`, `mappages_spec`, `allocLoop_spec`: what the loops do to the page table
  entries. `Filled` says how far a growth has come.
* `growproc_exact_iff`: `growproc` is exact and atomic unless the new size is zero or negative
  and the old one is not. A new size of zero unmaps everything and is then taken for a
  failure; a negative one wraps around, and nothing happens, which is taken for success.
-/

namespace Xv6Lottery

/-! ### `mmu.h` -/

/-- `PGSIZE` -/
abbrev PGSIZE : ℕ := 4096

/-- `PDX(va)`, the index into the page directory. -/
def pdx (va : ℕ) : ℕ := va / 2 ^ 22

/-- `PTX(va)`, the index into the page table. -/
def ptx (va : ℕ) : ℕ := va / PGSIZE % 1024

/-- `PGROUNDUP(sz)` -/
def pgroundup (sz : ℕ) : ℕ := (sz + PGSIZE - 1) / PGSIZE * PGSIZE

/-- `PGROUNDDOWN(a)` -/
def pgrounddown (a : ℕ) : ℕ := a / PGSIZE * PGSIZE

/-- `PGADDR(d, 0, 0)`, the first address of the page table with index `d`. -/
def pgaddr (d : ℕ) : ℕ := d * 2 ^ 22

/-- The indices name the page. -/
lemma pdx_ptx_eq_iff (a b : ℕ) :
    (pdx a = pdx b ∧ ptx a = ptx b) ↔ a / PGSIZE = b / PGSIZE := by
  simp only [pdx, ptx, PGSIZE]
  omega

lemma le_pgroundup (sz : ℕ) : sz ≤ pgroundup sz := by
  simp only [pgroundup, PGSIZE]
  omega

lemma pgroundup_mod (sz : ℕ) : pgroundup sz % PGSIZE = 0 := Nat.mul_mod_left _ _

/-- A page begins below `sz` if it begins below the end of the last page. -/
lemma lt_pgroundup_iff {a : ℕ} (ha : a % PGSIZE = 0) (sz : ℕ) : a < pgroundup sz ↔ a < sz := by
  simp only [pgroundup, PGSIZE] at *
  omega

lemma lt_pgaddr_succ (a : ℕ) : a < pgaddr (pdx a + 1) := by
  unfold pgaddr pdx
  omega

/-! ### `vm.c` -/

/-- A page table: the physical address in each entry that is present. -/
abbrev Pgtab := ℕ → Option ℕ+

/-- A page directory. -/
abbrev Pgdir := ℕ → Option Pgtab

/-- The page table entry for an address, empty if there is no page table for it. -/
def Pgdir.pte (pgdir : Pgdir) (va : ℕ) : Option ℕ+ := (pgdir (pdx va)).bind fun tab => tab (ptx va)

/-- `*pte = e` -/
def Pgdir.setPte (pgdir : Pgdir) (va : ℕ) (e : Option ℕ+) : Pgdir :=
  Function.update pgdir (pdx va)
    ((pgdir (pdx va)).map fun tab => Function.update tab (ptx va) e)

/-- A page directory, and how often `kalloc` has been called. -/
structure Vm where
  pgdir : Pgdir
  calls : ℕ

/-- `walkpgdir`: the page table with the entry for `va`, which is created on demand. The answer
of the `k`-th call of `kalloc` is `kalloc k`. -/
def walkpgdir (kalloc : ℕ → Option ℕ+) (m : Vm) (va : ℕ) (alloc : Bool) : Option Pgtab × Vm :=
  match m.pgdir (pdx va) with
  | some pgtab => (some pgtab, m)
  | none =>
      if alloc = false then (none, m)
      else
        match kalloc m.calls with
        | none => (none, { m with calls := m.calls + 1 })
        | some _ =>
            (some fun _ => none,
              ⟨Function.update m.pgdir (pdx va) (some fun _ => none), m.calls + 1⟩)

/-- The loop of `mappages`, with `k` pages after the one at `a`. It answers whether all of them
have been mapped. -/
def mappagesLoop (kalloc : ℕ → Option ℕ+) : ℕ → ℕ → ℕ+ → Vm → Option (Bool × Vm)
  | k, a, pa, m =>
      match walkpgdir kalloc m a true with
      | (none, m') => some (false, m')
      | (some pgtab, m') =>
          if (pgtab (ptx a)).isSome then none
          else
            match k with
            | 0 => some (true, { m' with pgdir := m'.pgdir.setPte a (some pa) })
            | k + 1 =>
                mappagesLoop kalloc k (a + PGSIZE) (pa + 4096)
                  { m' with pgdir := m'.pgdir.setPte a (some pa) }

/-- `mappages` -/
def mappages (kalloc : ℕ → Option ℕ+) (m : Vm) (va size : ℕ) (pa : ℕ+) : Option (Bool × Vm) :=
  mappagesLoop kalloc ((pgrounddown (va + size - 1) - pgrounddown va) / PGSIZE)
    (pgrounddown va) pa m

/-- The loop of `deallocuvm`. Where a page table is missing, it goes on at the next one. The
entries hold addresses of pages, so that the check for a null page is not needed. -/
def deallocLoop (oldsz : ℕ) (pgdir : Pgdir) (a : ℕ) : Pgdir :=
  if a < oldsz then
    match pgdir (pdx a) with
    | none => deallocLoop oldsz pgdir (pgaddr (pdx a + 1))
    | some pgtab =>
        if (pgtab (ptx a)).isSome then deallocLoop oldsz (pgdir.setPte a none) (a + PGSIZE)
        else deallocLoop oldsz pgdir (a + PGSIZE)
  else pgdir
termination_by oldsz - a
decreasing_by
  all_goals
    have := lt_pgaddr_succ a
    have : PGSIZE = 4096 := rfl
    omega

/-- `deallocuvm` -/
def deallocuvm (pgdir : Pgdir) (oldsz newsz : ℕ) : ℕ × Pgdir :=
  if newsz ≥ oldsz then (oldsz, pgdir) else (newsz, deallocLoop oldsz pgdir (pgroundup newsz))

/-- The loop of `allocuvm`. -/
def allocLoop (kalloc : ℕ → Option ℕ+) (oldsz newsz : ℕ) (m : Vm) (a : ℕ) : Option (ℕ × Vm) :=
  if a < newsz then
    match kalloc m.calls with
    | none => some (0, ⟨(deallocuvm m.pgdir newsz oldsz).2, m.calls + 1⟩)
    | some mem =>
        match mappages kalloc { m with calls := m.calls + 1 } a PGSIZE mem with
        | none => none
        | some (false, m') => some (0, { m' with pgdir := (deallocuvm m'.pgdir newsz oldsz).2 })
        | some (true, m') => allocLoop kalloc oldsz newsz m' (a + PGSIZE)
  else some (newsz, m)
termination_by newsz - a
decreasing_by
  have : PGSIZE = 4096 := rfl
  omega

/-- `allocuvm` -/
def allocuvm (kalloc : ℕ → Option ℕ+) (m : Vm) (oldsz newsz : ℕ) : Option (ℕ × Vm) :=
  if newsz ≥ KERNBASE then some (0, m)
  else if newsz < oldsz then some (oldsz, m)
  else allocLoop kalloc oldsz newsz m (pgroundup oldsz)

/-! ### `growproc` -/

/-- The memory of a process. -/
structure Space where
  sz : ℕ
  vm : Vm

/-- `growproc(n)`: the return value and the memory. The sum `sz + n` is of type `uint`. -/
def growproc (kalloc : ℕ → Option ℕ+) (s : Space) (n : ℤ) : Option (ℤ × Space) :=
  if n > 0 then
    match allocuvm kalloc s.vm s.sz (toUint (s.sz + n)) with
    | none => none
    | some (sz, m) => if sz = 0 then some (-1, { s with vm := m }) else some (0, ⟨sz, m⟩)
  else if n < 0 then
    match deallocuvm s.vm.pgdir s.sz (toUint (s.sz + n)) with
    | (sz, pgdir) =>
        if sz = 0 then some (-1, { s with vm := { s.vm with pgdir := pgdir } })
        else some (0, ⟨sz, { s.vm with pgdir := pgdir }⟩)
  else some (0, s)

/-! ### Page table entries -/

namespace Pgdir

variable {pgdir : Pgdir} {va a : ℕ} {e : Option ℕ+}

/-- The entries after `*pte = e`, where there is a page table for it. -/
lemma pte_setPte (h : (pgdir (pdx va)).isSome) :
    (pgdir.setPte va e).pte a = if a / PGSIZE = va / PGSIZE then e else pgdir.pte a := by
  obtain ⟨tab, htab⟩ := Option.isSome_iff_exists.mp h
  by_cases hpage : a / PGSIZE = va / PGSIZE
  · obtain ⟨hd, ht⟩ := (pdx_ptx_eq_iff a va).mpr hpage
    simp [pte, setPte, htab, hpage, hd, ht]
  · rw [if_neg hpage]
    by_cases hd : pdx a = pdx va
    · have ht : ptx a ≠ ptx va := fun ht => hpage ((pdx_ptx_eq_iff a va).mp ⟨hd, ht⟩)
      simp [pte, setPte, htab, hd, ht]
    · simp [pte, setPte, hd]

/-- Where there is no page table, no page is mapped. -/
lemma pte_eq_none (h : pgdir (pdx va) = none) (ha : pdx a = pdx va) : pgdir.pte a = none := by
  simp [pte, ha, h]

end Pgdir

/-- The loop of `deallocuvm` unmaps the pages from `a` on below `oldsz`, and no others. -/
lemma pte_deallocLoop (oldsz : ℕ) (pgdir : Pgdir) {a : ℕ} (ha : a % PGSIZE = 0) {b : ℕ}
    (hb : b % PGSIZE = 0) :
    (deallocLoop oldsz pgdir a).pte b = if a ≤ b ∧ b < oldsz then none else pgdir.pte b := by
  simp only [PGSIZE] at ha hb
  fun_induction deallocLoop oldsz pgdir a with
  | case1 pgdir a hlt htab ih =>
      rw [ih (by unfold pgaddr; omega)]
      have hnext := lt_pgaddr_succ a
      by_cases hskip : a ≤ b ∧ b < pgaddr (pdx a + 1)
      · -- the pages skipped lie in the missing page table
        have hd : pdx b = pdx a := by
          unfold pgaddr pdx at *
          omega
        simp [Pgdir.pte_eq_none htab hd]
      · have hiff : (pgaddr (pdx a + 1) ≤ b ∧ b < oldsz) ↔ (a ≤ b ∧ b < oldsz) := by omega
        simp only [hiff]
  | case2 pgdir a hlt tab htab hp ih =>
      rw [ih (by simp only [PGSIZE]; omega), Pgdir.pte_setPte (by simp [htab])]
      simp only [PGSIZE]
      split_ifs <;> first | rfl | omega
  | case3 pgdir a hlt tab htab hp ih =>
      simp only [PGSIZE] at ih ⊢
      rw [ih (by omega)]
      have hnone : pgdir.pte a = none := by simpa [Pgdir.pte, htab] using hp
      rcases eq_or_ne a b with rfl | hne
      · simp [hnone]
      · have hiff : (a + 4096 ≤ b ∧ b < oldsz) ↔ (a ≤ b ∧ b < oldsz) := by omega
        simp only [hiff]
  | case4 pgdir a hlt => rw [if_neg (by omega)]

/-- `walkpgdir` with `alloc` changes no entry, and the page table it answers is in place. -/
lemma walkpgdir_alloc {kalloc : ℕ → Option ℕ+} {m m' : Vm} {va : ℕ} {tab : Option Pgtab}
    (h : walkpgdir kalloc m va true = (tab, m')) :
    (∀ b, m'.pgdir.pte b = m.pgdir.pte b) ∧ ∀ t, tab = some t → m'.pgdir (pdx va) = some t := by
  unfold walkpgdir at h
  cases hd : m.pgdir (pdx va) with
  | some pgtab =>
      simp only [hd] at h
      obtain ⟨rfl, rfl⟩ := Prod.mk.inj h
      exact ⟨fun b => rfl, fun t ht => hd.trans ht⟩
  | none =>
      simp only [hd, Bool.true_eq_false, if_false] at h
      cases hk : kalloc m.calls with
      | none =>
          simp only [hk] at h
          obtain ⟨rfl, rfl⟩ := Prod.mk.inj h
          exact ⟨fun b => rfl, fun t ht => by cases ht⟩
      | some _ =>
          simp only [hk] at h
          obtain ⟨rfl, rfl⟩ := Prod.mk.inj h
          refine ⟨fun b => ?_, fun t ht => by simpa using ht⟩
          by_cases hb : pdx b = pdx va
          · simp [Pgdir.pte, hb, hd]
          · simp [Pgdir.pte, hb]

/-- One page is one turn of the loop. -/
lemma mappages_one {kalloc : ℕ → Option ℕ+} {m : Vm} {a : ℕ} {pa : ℕ+} (ha : a % PGSIZE = 0) :
    mappages kalloc m a PGSIZE pa = mappagesLoop kalloc 0 a pa m := by
  have hlast : (pgrounddown (a + PGSIZE - 1) - pgrounddown a) / PGSIZE = 0 := by
    simp only [pgrounddown, PGSIZE] at *
    omega
  have hfirst : pgrounddown a = a := by
    simp only [pgrounddown, PGSIZE] at *
    omega
  rw [mappages, hlast, hfirst]

/-- What mapping the page at `a` does, if it is not mapped yet: it fills its entry and no
other, or fails and changes no entry. -/
lemma mappages_spec (kalloc : ℕ → Option ℕ+) (m : Vm) {a : ℕ} (ha : a % PGSIZE = 0) (pa : ℕ+)
    (hnone : m.pgdir.pte a = none) :
    ∃ mapped m', mappages kalloc m a PGSIZE pa = some (mapped, m') ∧ ∀ b, m'.pgdir.pte b =
      if mapped = true ∧ b / PGSIZE = a / PGSIZE then some pa else m.pgdir.pte b := by
  rw [mappages_one ha, mappagesLoop.eq_def]
  rcases hw : walkpgdir kalloc m a true with ⟨_ | tab, m'⟩
  · obtain ⟨hsame, -⟩ := walkpgdir_alloc hw
    exact ⟨false, m', by simp [hw], fun b => by simp [hsame b]⟩
  · obtain ⟨hsame, htab⟩ := walkpgdir_alloc hw
    have hempty : tab (ptx a) = none := by
      simpa [Pgdir.pte, htab tab rfl] using (hsame a).trans hnone
    refine ⟨true, { m' with pgdir := m'.pgdir.setPte a (some pa) }, by simp [hw, hempty],
      fun b => ?_⟩
    rw [Pgdir.pte_setPte (by simp [htab tab rfl]), hsame b]
    simp only [true_and]

/-! ### Growing and shrinking -/

/-- The pages from `lo` on below `hi` are mapped in `new`; the others are as in `old`. -/
def Filled (old new : Pgdir) (lo hi : ℕ) : Prop :=
  ∀ b, b % PGSIZE = 0 → if lo ≤ b ∧ b < hi then (new.pte b).isSome else new.pte b = old.pte b

section Alloc

variable {old : Pgdir} {oldsz newsz : ℕ}
  (hold : ∀ b, b % PGSIZE = 0 → oldsz ≤ b → b < newsz → old.pte b = none)

include hold

/-- `deallocuvm` undoes a growth that has come as far as `a`. -/
lemma pte_deallocuvm_undo {pgdir : Pgdir} {a : ℕ} (ha : pgroundup oldsz ≤ a) (hlt : a < newsz)
    (hfill : Filled old pgdir (pgroundup oldsz) a) {b : ℕ} (hb : b % PGSIZE = 0) :
    (deallocuvm pgdir newsz oldsz).2.pte b = old.pte b := by
  have hup := le_pgroundup oldsz
  rw [deallocuvm, if_neg (by omega)]
  dsimp only
  rw [pte_deallocLoop newsz pgdir (pgroundup_mod oldsz) hb]
  have hpage := hfill b hb
  split_ifs with hin
  · exact (hold b hb (by omega) hin.2).symm
  · rwa [if_neg (by omega)] at hpage

/-- The next page is not mapped yet. -/
lemma pte_of_filled {pgdir : Pgdir} {a : ℕ} (hal : a % PGSIZE = 0) (ha : pgroundup oldsz ≤ a)
    (hlt : a < newsz) (hfill : Filled old pgdir (pgroundup oldsz) a) : pgdir.pte a = none := by
  have hpage := hfill a hal
  rw [if_neg (by omega)] at hpage
  exact hpage.trans (hold a hal ((le_pgroundup oldsz).trans ha) hlt)

/-- The loop of `allocuvm` either fails and leaves every entry as it was, or maps all pages up
to the new size. -/
lemma allocLoop_spec (kalloc : ℕ → Option ℕ+) {m : Vm} {a : ℕ} (hal : a % PGSIZE = 0)
    (ha : pgroundup oldsz ≤ a) (ha' : a ≤ pgroundup newsz)
    (hfill : Filled old m.pgdir (pgroundup oldsz) a) :
    (∃ m', allocLoop kalloc oldsz newsz m a = some (0, m') ∧
      ∀ b, b % PGSIZE = 0 → m'.pgdir.pte b = old.pte b) ∨
    ∃ m', allocLoop kalloc oldsz newsz m a = some (newsz, m') ∧
      Filled old m'.pgdir (pgroundup oldsz) (pgroundup newsz) := by
  fun_induction allocLoop kalloc oldsz newsz m a with
  | case1 m a hlt hk =>
      exact Or.inl ⟨_, rfl, fun b hb => pte_deallocuvm_undo hold ha hlt hfill hb⟩
  | case2 m a hlt mem hk hmap =>
      -- the page is not mapped yet: no `panic`
      obtain ⟨_, _, hspec, -⟩ := mappages_spec kalloc { m with calls := m.calls + 1 } hal mem
        (pte_of_filled hold hal ha hlt hfill)
      simp [hmap] at hspec
  | case3 m a hlt mem hk m' hmap =>
      obtain ⟨_, _, hspec, hpte⟩ := mappages_spec kalloc { m with calls := m.calls + 1 } hal mem
        (pte_of_filled hold hal ha hlt hfill)
      obtain ⟨rfl, rfl⟩ := Prod.mk.inj (Option.some.inj (hmap.symm.trans hspec))
      have hfill' : Filled old m'.pgdir (pgroundup oldsz) a := by
        intro b hb
        have hsame : m'.pgdir.pte b = m.pgdir.pte b := by simpa using hpte b
        rw [hsame]
        exact hfill b hb
      exact Or.inl ⟨_, rfl, fun b hb => pte_deallocuvm_undo hold ha hlt hfill' hb⟩
  | case4 m a hlt mem hk m' hmap ih =>
      obtain ⟨_, _, hspec, hpte⟩ := mappages_spec kalloc { m with calls := m.calls + 1 } hal mem
        (pte_of_filled hold hal ha hlt hfill)
      obtain ⟨rfl, rfl⟩ := Prod.mk.inj (Option.some.inj (hmap.symm.trans hspec))
      have hup := (lt_pgroundup_iff hal newsz).mpr hlt
      have hmod := pgroundup_mod newsz
      refine ih (by simp only [PGSIZE] at *; omega) (by omega)
        (by simp only [PGSIZE] at *; omega) ?_
      intro b hb
      have hpage := hfill b hb
      rw [hpte b]
      simp only [PGSIZE] at hal hb hpage ⊢
      rcases eq_or_ne b a with rfl | hne
      · simp [ha]
      · have hiff : (pgroundup oldsz ≤ b ∧ b < a + 4096) ↔ (pgroundup oldsz ≤ b ∧ b < a) := by
          omega
        rw [if_neg (by omega : ¬ (True ∧ b / 4096 = a / 4096))]
        simpa only [hiff] using hpage
  | case5 m a hlt =>
      have hend : a = pgroundup newsz := by
        have := lt_pgroundup_iff hal newsz
        omega
      rw [hend] at hfill
      exact Or.inr ⟨m, rfl, hfill⟩

end Alloc

/-- The user pages that are mapped are those below the size of the process. -/
def Space.Exact (s : Space) : Prop :=
  ∀ b, b % PGSIZE = 0 → b < KERNBASE → ((s.vm.pgdir.pte b).isSome ↔ b < pgroundup s.sz)

/-- What the return value `r` of `growproc(n)` promises of the memory `s'` after the call. -/
structure GrowOutcome (s : Space) (n r : ℤ) (s' : Space) : Prop where
  answers : r = 0 ∨ r = -1
  failed : r = -1 → s'.sz = s.sz ∧
    ∀ b, b % PGSIZE = 0 → b < KERNBASE → s'.vm.pgdir.pte b = s.vm.pgdir.pte b
  grown : r = 0 → (s'.sz : ℤ) = s.sz + n ∧ s'.Exact

/-- A sum that is a `uint` is computed exactly. -/
lemma eq_toUint {x : ℤ} (h0 : 0 ≤ x) (hlt : x < 2 ^ 32) : ∃ y : ℕ, (y : ℤ) = x ∧ toUint x = y :=
  ⟨x.toNat, Int.toNat_of_nonneg h0, toUint_of_lt h0 hlt⟩

section Growproc

variable (kalloc : ℕ → Option ℕ+) {s : Space} (hsz : s.sz < KERNBASE) {n : ℤ}

/-- A size of zero unmaps the pages and is taken for a failure. -/
lemma growproc_of_zero (hpos : 0 < s.sz) (hzero : s.sz + n = 0) :
    growproc kalloc s n =
      some (-1, ⟨s.sz, { s.vm with pgdir := deallocLoop s.sz s.vm.pgdir 0 }⟩) := by
  have huint : toUint (s.sz + n) = 0 := by rw [hzero]; rfl
  have hup : pgroundup 0 = 0 := rfl
  simp only [growproc, if_neg (by omega : ¬ n > 0), if_pos (by omega : n < 0), deallocuvm, huint,
    if_neg (by omega : ¬ 0 ≥ s.sz), hup, if_true]

include hsz

/-- Growing is exact and atomic. -/
lemma growproc_of_pos (hs : s.Exact) (hn : IsInt n) (h0 : 0 < n) :
    ∃ r s', growproc kalloc s n = some (r, s') ∧ GrowOutcome s n r s' := by
  have hsz' : s.sz < 2 ^ 31 := hsz
  obtain ⟨-, hmax⟩ := hn
  have hmax' : n ≤ 2 ^ 31 - 1 := hmax
  obtain ⟨newsz, hnew, huint⟩ := eq_toUint (x := s.sz + n) (by omega) (by omega)
  simp only [growproc, if_pos h0, huint]
  by_cases hbig : newsz ≥ KERNBASE
  · refine ⟨-1, s, by simp [allocuvm, hbig], Or.inr rfl, fun _ => ⟨rfl, fun b _ _ => rfl⟩, ?_⟩
    simp
  · have halloc : allocuvm kalloc s.vm s.sz newsz =
        allocLoop kalloc s.sz newsz s.vm (pgroundup s.sz) := by
      rw [allocuvm, if_neg hbig, if_neg (by omega)]
    have hold : ∀ b, b % PGSIZE = 0 → s.sz ≤ b → b < newsz → s.vm.pgdir.pte b = none := by
      intro b hb hle hlt
      have hiff := (hs b hb (by omega)).trans (lt_pgroundup_iff hb s.sz)
      simpa using mt hiff.mp (not_lt.mpr hle)
    have hup : pgroundup s.sz ≤ pgroundup newsz := by
      simp only [pgroundup, PGSIZE]
      omega
    rcases allocLoop_spec hold kalloc (pgroundup_mod s.sz) le_rfl hup
      (fun b hb => by rw [if_neg (by omega)]) with ⟨m', hloop, hsame⟩ | ⟨m', hloop, hfill⟩
    · exact ⟨-1, { s with vm := m' }, by simp [halloc, hloop], Or.inr rfl,
        fun _ => ⟨rfl, fun b hb _ => hsame b hb⟩, by simp⟩
    · have hpos : newsz ≠ 0 := by omega
      refine ⟨0, ⟨newsz, m'⟩, by simp [halloc, hloop, hpos], Or.inl rfl, by simp,
        fun _ => ⟨hnew, fun b hb hbase => ?_⟩⟩
      have hpage := hfill b hb
      have hwas := hs b hb hbase
      dsimp only
      split_ifs at hpage with hin
      · exact iff_of_true hpage hin.2
      · rw [hpage, hwas]
        omega

/-- Shrinking to a size that is not zero is exact. -/
lemma growproc_of_neg (hs : s.Exact) (h0 : n < 0) (hpos : 0 < s.sz + n) :
    ∃ r s', growproc kalloc s n = some (r, s') ∧ GrowOutcome s n r s' := by
  have hsz' : s.sz < 2 ^ 31 := hsz
  obtain ⟨newsz, hnew, huint⟩ := eq_toUint (x := s.sz + n) (by omega) (by omega)
  have hdealloc : deallocuvm s.vm.pgdir s.sz newsz =
      (newsz, deallocLoop s.sz s.vm.pgdir (pgroundup newsz)) := by
    rw [deallocuvm, if_neg (by omega)]
  have hne : newsz ≠ 0 := by omega
  refine ⟨0, ⟨newsz, { s.vm with pgdir := deallocLoop s.sz s.vm.pgdir (pgroundup newsz) }⟩, ?_,
    Or.inl rfl, by simp, fun _ => ⟨hnew, fun b hb hbase => ?_⟩⟩
  · simp [growproc, not_lt.mpr h0.le, h0, huint, hdealloc, hne]
  · have hwas := (hs b hb hbase).trans (lt_pgroundup_iff hb s.sz)
    dsimp only
    rw [pte_deallocLoop s.sz s.vm.pgdir (pgroundup_mod newsz) hb, lt_pgroundup_iff hb]
    have hlo : pgroundup newsz ≤ b ↔ newsz ≤ b := by
      have := lt_pgroundup_iff hb newsz
      omega
    split_ifs with hin
    · simp only [Option.isSome_none, Bool.false_eq_true, false_iff]
      omega
    · rw [hwas]
      omega

/-- A negative size wraps around to one beyond the old size, and nothing happens. -/
lemma growproc_of_wrap (hn : IsInt n) (hneg : s.sz + n < 0) :
    growproc kalloc s n = some (if s.sz = 0 then -1 else 0, s) := by
  have hsz' : s.sz < 2 ^ 31 := hsz
  obtain ⟨hmin, -⟩ := hn
  have hbeyond : toUint (s.sz + n) ≥ s.sz := by
    unfold toUint
    omega
  simp only [growproc, if_neg (by omega : ¬ n > 0), if_pos (by omega : n < 0), deallocuvm,
    if_pos hbeyond]
  split_ifs <;> rfl

end Growproc

/-- **`growproc`.** For every process below `KERNBASE` whose mapped user pages are those below
its size, every `int` and every pattern of failures of `kalloc`: the call returns, and its
answer is true of the size and of the pages mapped, exactly when it does not shrink a
process to size zero or below. -/
theorem growproc_exact_iff (kalloc : ℕ → Option ℕ+) (s : Space) (hsz : s.sz < KERNBASE)
    (hs : s.Exact) (n : ℤ) (hn : IsInt n) :
    (∃ r s', growproc kalloc s n = some (r, s') ∧ GrowOutcome s n r s') ↔
      0 ≤ n ∨ s.sz = 0 ∨ 0 < s.sz + n := by
  constructor
  · rintro ⟨r, s', hcall, hout⟩
    by_contra hbad
    obtain ⟨hneg, hne, hle⟩ : n < 0 ∧ s.sz ≠ 0 ∧ s.sz + n ≤ 0 := by
      simpa only [not_or, not_le, not_lt] using hbad
    rcases hle.lt_or_eq with hlt | hzero
    · rw [growproc_of_wrap kalloc hsz hn hlt, if_neg hne] at hcall
      obtain ⟨rfl, rfl⟩ := Prod.mk.inj (Option.some.inj hcall)
      have := (hout.grown rfl).1
      omega
    · -- the first page is unmapped, which a failed call would have kept
      rw [growproc_of_zero kalloc (Nat.pos_of_ne_zero hne) hzero] at hcall
      obtain ⟨rfl, rfl⟩ := Prod.mk.inj (Option.some.inj hcall)
      have hkept := (hout.failed rfl).2 0 rfl (by decide)
      have hwas := (hs 0 rfl (by decide)).mpr
        ((Nat.pos_of_ne_zero hne).trans_le (le_pgroundup s.sz))
      rw [← hkept, pte_deallocLoop s.sz s.vm.pgdir rfl rfl,
        if_pos ⟨le_rfl, Nat.pos_of_ne_zero hne⟩] at hwas
      cases hwas
  · intro hgood
    rcases lt_trichotomy n 0 with hneg | rfl | hpos
    · rcases hgood with h | h0 | h
      · exact absurd hneg (not_lt.mpr h)
      · refine ⟨-1, s, ?_, Or.inr rfl, fun _ => ⟨rfl, fun b _ _ => rfl⟩, by simp⟩
        rw [growproc_of_wrap kalloc hsz hn (by omega), if_pos h0]
      · exact growproc_of_neg kalloc hsz hs hneg h
    · exact ⟨0, s, by simp [growproc], Or.inl rfl, by simp, fun _ => ⟨by simp, hs⟩⟩
    · exact growproc_of_pos kalloc hsz hs hn hpos

/-- A process with one page, at the physical address 8192. -/
def onePageSpace : Space :=
  ⟨4096, ⟨fun d => if d = 0 then some fun t => if t = 0 then some 8192 else none else none, 0⟩⟩

lemma onePageSpace_exact : onePageSpace.Exact := by
  intro b hb _
  have hup : pgroundup onePageSpace.sz = 4096 := rfl
  simp only [PGSIZE] at hb
  rw [hup]
  by_cases hd : pdx b = 0
  · by_cases ht : ptx b = 0
    · have : b < 4096 := by
        simp only [pdx, ptx, PGSIZE] at hd ht
        omega
      simp [Pgdir.pte, onePageSpace, hd, ht, this]
    · have : ¬ b < 4096 := fun hlt => ht (by simp only [ptx, PGSIZE]; omega)
      simp [Pgdir.pte, onePageSpace, hd, ht, this]
  · have : ¬ b < 4096 := fun hlt => hd (by simp only [pdx]; omega)
    simp [Pgdir.pte, onePageSpace, hd, this]

theorem growproc_exact_iff_onePageSpace :
    ∃ r s', growproc (fun _ => none) onePageSpace 1 = some (r, s') ∧
      GrowOutcome onePageSpace 1 r s' :=
  (growproc_exact_iff (fun _ => none) onePageSpace (by decide) onePageSpace_exact 1
    (by decide)).mpr (Or.inl zero_le_one)

/-- When the process gives back all of its memory, the call answers -1, and the page is gone;
when it gives back more, the call answers 0, and the page is still there. -/
theorem growproc_zero_fails :
    (∃ s', growproc (fun _ => none) onePageSpace (-4096) = some (-1, s') ∧ s'.sz = 4096 ∧
      onePageSpace.vm.pgdir.pte 0 = some 8192 ∧ s'.vm.pgdir.pte 0 = none) ∧
    growproc (fun _ => none) onePageSpace (-4097) = some (0, onePageSpace) := by
  refine ⟨⟨_, growproc_of_zero _ (by decide) (by decide), rfl, rfl, ?_⟩,
    growproc_of_wrap _ (by decide) (by decide) (by decide)⟩
  exact pte_deallocLoop _ _ rfl rfl

end Xv6Lottery
