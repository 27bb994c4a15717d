import Xv6Lottery.Mem.Kalloc

/-!
Address spaces (`vm.c`, and the parts of `proc.c` that make, grow and free them), as programs
over the pages of physical memory.

* `Kern`: kernel code that calls `kalloc` and `kfree` and reads and writes pages. Between two
  such calls the kernel may run on other processors, or be interrupted.
* `walkpgdir`, `mappages`, `setupkvm`, `deallocuvm`, `allocuvm`, `freevm`, `copyuvm`, `inituvm`:
  the functions of the source. Page directories and page tables are pages of words, and an
  entry is a word with an address and flags.
* `growproc`, `fork`, `wait`, `userinit`: what the process table's functions do to memory.
* `userLoad`, `userStore`: a user instruction, as the hardware translates its address.
-/

namespace Xv6Lottery.Mem

open Library

/-! ### Kernel code -/

/-- Why the kernel stops. -/
inductive Stop where
  | panic (msg : String)
  /-- the kernel uses a null pointer -/
  | fault
  deriving DecidableEq

/-- Kernel code, as the tree of its accesses to physical memory. -/
abbrev Kern := Routine ℕ Page Stop

namespace Kern

/-- `kalloc()` -/
def kalloc : Kern (Option ℕ) := .alloc .ret

/-- `kfree(v)` -/
def kfree (v : ℕ) : Kern Unit := .free v (.ret ())

/-- The word at index `i` of the page `v`. -/
def load (v i : ℕ) : Kern ℕ := .read v fun c => .ret (c i)

/-- Writes the word at index `i` of the page `v`. -/
def store (v i w : ℕ) : Kern Unit := .modify v (fun c => Function.update c i w) (.ret ())

/-- `memset(v, 0, PGSIZE)` -/
def clear (v : ℕ) : Kern Unit := .modify v (fun _ _ => 0) (.ret ())

/-- `memmove(dst, src, PGSIZE)` -/
def copy (dst src : ℕ) : Kern Unit := .read src fun c => .modify dst (fun _ => c) (.ret ())

/-- `panic(msg)` -/
def panic {α : Type} (msg : String) : Kern α := .halt (.panic msg)

end Kern

open Kern

/-! ### Page table entries -/

/-- `PTE_P`, present. -/
abbrev PTE_P : ℕ := 1

/-- `PTE_W`, writable. -/
abbrev PTE_W : ℕ := 2

/-- `PTE_U`, for the user. -/
abbrev PTE_U : ℕ := 4

/-- The entry is present. -/
def Present (w : ℕ) : Prop := w &&& PTE_P ≠ 0

instance (w : ℕ) : Decidable (Present w) := inferInstanceAs (Decidable (w &&& PTE_P ≠ 0))

/-- `PTE_ADDR(w)` -/
def pteAddr (w : ℕ) : ℕ := w / PGSIZE * PGSIZE

/-- `PTE_FLAGS(w)` -/
def pteFlags (w : ℕ) : ℕ := w % PGSIZE

/-! ### `vm.c` -/

/-- `walkpgdir`: the page table and the index in it of the entry for `va`. -/
def walkpgdir (pgdir va : ℕ) (alloc : Bool) : Kern (Option (ℕ × ℕ)) := do
  let pde ← load pgdir (pdx va)
  if Present pde then
    return some (p2v (pteAddr pde), ptx va)
  else if alloc = false then
    return none
  else
    match ← Kern.kalloc with
    | none => return none
    | some pgtab => do
        clear pgtab
        store pgdir (pdx va) (v2p pgtab ||| PTE_P ||| PTE_W ||| PTE_U)
        return some (pgtab, ptx va)

/-- One turn of the loop of `mappages`: whether the page at `a` has been mapped. -/
def mapPage (pgdir a pa perm : ℕ) : Kern Bool := do
  match ← walkpgdir pgdir a true with
  | none => return false
  | some (pgtab, i) => do
      let pte ← load pgtab i
      if Present pte then
        Kern.panic "remap"
      else do
        store pgtab i (pa ||| perm ||| PTE_P)
        return true

/-- The loop of `mappages`, with `k` pages after the one at `a`. -/
def mapLoop (pgdir perm : ℕ) : ℕ → ℕ → ℕ → Kern Bool
  | 0, a, pa => mapPage pgdir a pa perm
  | k + 1, a, pa => do
      if ← mapPage pgdir a pa perm then
        mapLoop pgdir perm k (a + PGSIZE) (pa + PGSIZE)
      else
        return false

/-- `mappages` -/
def mappages (pgdir va size pa perm : ℕ) : Kern Bool :=
  mapLoop pgdir perm ((pgrounddown (va + size - 1) - pgrounddown va) / PGSIZE) (pgrounddown va) pa

/-- One turn of the loop of `deallocuvm`: the page at `a` is unmapped and freed. The next address,
which is the next page table where the page table is missing. -/
def unmapPage (pgdir a : ℕ) : Kern ℕ := do
  match ← walkpgdir pgdir a false with
  | none => return pgaddr (pdx a + 1)
  | some (pgtab, i) => do
      let pte ← load pgtab i
      if Present pte then
        if pteAddr pte = 0 then
          Kern.panic "kfree"
        else do
          Kern.kfree (p2v (pteAddr pte))
          store pgtab i 0
          return a + PGSIZE
      else
        return a + PGSIZE

/-- The loop of `deallocuvm`, with at most `k` turns. -/
def deallocLoop (pgdir oldsz : ℕ) : ℕ → ℕ → Kern Unit
  | 0, _ => return ()
  | k + 1, a =>
      if a < oldsz then do
        let a' ← unmapPage pgdir a
        deallocLoop pgdir oldsz k a'
      else
        return ()

/-- The number of pages that begin from `lo` on below `hi`: the turns of a loop over them. -/
def pageCount (lo hi : ℕ) : ℕ := (pgroundup hi - pgroundup lo) / PGSIZE

/-- `deallocuvm` -/
def deallocuvm (pgdir oldsz newsz : ℕ) : Kern ℕ :=
  if newsz ≥ oldsz then
    return oldsz
  else do
    deallocLoop pgdir oldsz (pageCount newsz oldsz) (pgroundup newsz)
    return newsz

/-- The loop of `freevm`, with `k` entries of the page directory to go from `i` on. -/
def freeTables (pgdir : ℕ) : ℕ → ℕ → Kern Unit
  | 0, _ => return ()
  | k + 1, i => do
      let pde ← load pgdir i
      if Present pde then do
        Kern.kfree (p2v (pteAddr pde))
        freeTables pgdir k (i + 1)
      else
        freeTables pgdir k (i + 1)

/-- `NPDENTRIES`, the number of entries of a page directory; a page table has as many. -/
abbrev NPDENTRIES : ℕ := 1024

/-- `freevm` -/
def freevm (pgdir : ℕ) : Kern Unit :=
  if pgdir = 0 then
    Kern.panic "freevm: no pgdir"
  else do
    let _ ← deallocuvm pgdir KERNBASE 0
    freeTables pgdir NPDENTRIES 0
    Kern.kfree pgdir

/-- The loop of `setupkvm` over `kmap`: whether all rows have been mapped. -/
def mapKernel (pgdir : ℕ) : List Kmap → Kern Bool
  | [] => return true
  | k :: rest => do
      if ← mappages pgdir k.virt k.size k.physStart k.perm then
        mapKernel pgdir rest
      else
        return false

/-- `setupkvm` -/
def setupkvm (L : Layout) : Kern (Option ℕ) := do
  match ← Kern.kalloc with
  | none => return none
  | some pgdir => do
      clear pgdir
      if p2v L.phystop > DEVSPACE then
        Kern.panic "PHYSTOP too high"
      else if ← mapKernel pgdir L.kmap then
        return some pgdir
      else do
        freevm pgdir
        return none

/-- The loop of `allocuvm`, with `k` pages to go from `a` on: the new size, 0 on failure. -/
def allocLoop (pgdir oldsz newsz : ℕ) : ℕ → ℕ → Kern ℕ
  | 0, _ => return newsz
  | k + 1, a => do
      match ← Kern.kalloc with
      | none => do
          let _ ← deallocuvm pgdir newsz oldsz
          return 0
      | some mem => do
          clear mem
          if ← mappages pgdir a PGSIZE (v2p mem) (PTE_W ||| PTE_U) then
            allocLoop pgdir oldsz newsz k (a + PGSIZE)
          else do
            let _ ← deallocuvm pgdir newsz oldsz
            Kern.kfree mem
            return 0

/-- `allocuvm` -/
def allocuvm (pgdir oldsz newsz : ℕ) : Kern ℕ :=
  if newsz ≥ KERNBASE then
    return 0
  else if newsz < oldsz then
    return oldsz
  else
    allocLoop pgdir oldsz newsz (pageCount oldsz newsz) (pgroundup oldsz)

/-- The loop of `copyuvm`, with `k` pages to go from `i` on: whether all have been copied. -/
def copyLoop (pgdir d : ℕ) : ℕ → ℕ → Kern Bool
  | 0, _ => return true
  | k + 1, i => do
      match ← walkpgdir pgdir i false with
      | none => Kern.panic "copyuvm: pte should exist"
      | some (pgtab, t) => do
          let pte ← load pgtab t
          if ¬ Present pte then
            Kern.panic "copyuvm: page not present"
          else
            match ← Kern.kalloc with
            | none => return false
            | some mem => do
                copy mem (p2v (pteAddr pte))
                if ← mappages d i PGSIZE (v2p mem) (pteFlags pte) then
                  copyLoop pgdir d k (i + PGSIZE)
                else do
                  Kern.kfree mem
                  return false

/-- `copyuvm` -/
def copyuvm (L : Layout) (pgdir sz : ℕ) : Kern (Option ℕ) := do
  match ← setupkvm L with
  | none => return none
  | some d => do
      if ← copyLoop pgdir d (pageCount 0 sz) 0 then
        return some d
      else do
        freevm d
        return none

/-- `inituvm`, with the page `init` of the first program. The result of `kalloc` is not checked,
and that of `mappages`, which is the answer here, is dropped. -/
def inituvm (pgdir : ℕ) (init : Page) : Kern Bool := do
  match ← Kern.kalloc with
  | none => .halt .fault
  | some mem => do
      clear mem
      let mapped ← mappages pgdir 0 PGSIZE (v2p mem) (PTE_W ||| PTE_U)
      .modify mem (fun _ => init) (.ret mapped)

/-! ### `proc.c` -/

/-- The memory of a process. -/
structure ProcMem where
  pgdir : ℕ
  sz : ℕ
  kstack : ℕ

/-- `growproc(n)`: the return value and the memory. -/
def growproc (p : ProcMem) (n : ℤ) : Kern (ℤ × ProcMem) :=
  if n > 0 then do
    let sz ← allocuvm p.pgdir p.sz (toUint (p.sz + n))
    if sz = 0 then
      return (-1, p)
    else
      return (0, { p with sz := sz })
  else if n < 0 then do
    let sz ← deallocuvm p.pgdir p.sz (toUint (p.sz + n))
    if sz = 0 then
      return (-1, p)
    else
      return (0, { p with sz := sz })
  else
    return (0, p)

/-- The part of `fork` that makes the child's memory: the kernel stack from `allocproc`, and the
copy of the address space. -/
def fork (L : Layout) (p : ProcMem) : Kern (Option ProcMem) := do
  match ← Kern.kalloc with
  | none => return none
  | some kstack =>
      match ← copyuvm L p.pgdir p.sz with
      | none => do
          Kern.kfree kstack
          return none
      | some d => return some ⟨d, p.sz, kstack⟩

/-- The part of `wait` that frees the memory of a zombie. -/
def wait (p : ProcMem) : Kern Unit := do
  Kern.kfree p.kstack
  freevm p.pgdir

/-- The part of `userinit` that makes the memory of the first process, and whether its page has
been mapped. `allocproc` may fail for want of a page, and then a null pointer is used. -/
def userinit (L : Layout) (init : Page) : Kern (ProcMem × Bool) := do
  match ← Kern.kalloc with
  | none => .halt .fault
  | some kstack =>
      match ← setupkvm L with
      | none => Kern.panic "userinit: out of memory?"
      | some pgdir => do
          let mapped ← inituvm pgdir init
          return (⟨pgdir, PGSIZE, kstack⟩, mapped)

/-! ### User instructions -/

/-- The physical page and the index of the word for a user address, if the hardware lets the
instruction through: `need` are the flags that the entry has to have. -/
def translate (pgdir va need : ℕ) : Kern (Option (ℕ × ℕ)) := do
  match ← walkpgdir pgdir va false with
  | none => return none
  | some (pgtab, t) => do
      let pte ← load pgtab t
      if Present pte ∧ pteFlags pte &&& need = need then
        return some (p2v (pteAddr pte), va % PGSIZE / 4)
      else
        return none

/-- A user program reads the word at `va`; `none` is a page fault. -/
def userLoad (pgdir va : ℕ) : Kern (Option ℕ) := do
  match ← translate pgdir va PTE_U with
  | none => return none
  | some (v, i) => do
      let w ← load v i
      return some w

/-- A user program writes the word at `va`; `false` is a page fault. -/
def userStore (pgdir va w : ℕ) : Kern Bool := do
  match ← translate pgdir va (PTE_W ||| PTE_U) with
  | none => return false
  | some (v, i) => do
      store v i w
      return true

end Xv6Lottery.Mem
