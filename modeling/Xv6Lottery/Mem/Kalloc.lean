import Xv6Lottery.Library.Heap
import Xv6Lottery.Syscall.Growproc

/-!
The allocator of physical pages (`kalloc.c`).

* `Layout`: where the kernel ends, where physical memory ends, and the table `kmap` of the
  kernel's mappings. `xv6Layout` is the layout of `memlayout.h` and `vm.c`.
* `Ram`: the words of every page, and `kmem.freelist`. The free list is kept in the free pages:
  the first word of each is the address of the next.
* `kfree`, `kalloc`, `freerange`: the functions of the source.
* `Linked`, `FreePages`: the free list is in order, and its pages are those of a given set.
* `kmem`: the allocator keeps its list in order as long as only pages in use are written to or
  freed. `taken`: the pages that are not on the list.
* `freerange_freePages`: what `freerange` puts on the list.
-/

namespace Xv6Lottery.Mem

open Library

/-! ### `memlayout.h` -/

/-- `EXTMEM`, the start of extended memory. -/
abbrev EXTMEM : ℕ := 0x100000

/-- `PHYSTOP`, the top of physical memory. -/
abbrev PHYSTOP : ℕ := 0xE000000

/-- `DEVSPACE`, the first address of the devices. -/
abbrev DEVSPACE : ℕ := 0xFE000000

lemma kernbase_eq : KERNBASE = 2147483648 := rfl

/-- `V2P(a)` -/
def v2p (a : ℕ) : ℕ := a - KERNBASE

/-- `P2V(a)` -/
def p2v (a : ℕ) : ℕ := a + KERNBASE

/-- A row of `kmap`. -/
structure Kmap where
  virt : ℕ
  physStart : ℕ
  physEnd : ℕ
  perm : ℕ

/-- The size of a mapping, of type `uint`: the last one ends at address 0. -/
def Kmap.size (k : Kmap) : ℕ := toUint (k.physEnd - k.physStart)

lemma Kmap.size_of_le {k : Kmap} (hle : k.physStart ≤ k.physEnd) (hlt : k.physEnd < 2 ^ 32) :
    k.size = k.physEnd - k.physStart := by
  rw [Kmap.size, toUint_of_lt (by omega) (by omega)]
  omega

/-- A row maps whole pages of the kernel's half of the addresses, for the kernel only. -/
structure Kmap.Ok (k : Kmap) : Prop where
  virt_mod : k.virt % PGSIZE = 0
  phys_mod : k.physStart % PGSIZE = 0
  size_mod : k.size % PGSIZE = 0
  size_pos : 0 < k.size
  base_le : KERNBASE ≤ k.virt
  le_top : k.virt + k.size ≤ 2 ^ 32
  perm_lt : k.perm < PGSIZE
  /-- without `PTE_U` -/
  perm_user : k.perm &&& 4 = 0

/-- A row that maps physical memory to its place in the kernel. -/
lemma Kmap.ok_direct {s e perm : ℕ} (hs : s % PGSIZE = 0) (he : e % PGSIZE = 0) (hlt : s < e)
    (hmax : p2v e ≤ 2 ^ 32) (hperm : perm < PGSIZE) (huser : perm &&& 4 = 0) :
    Kmap.Ok ⟨p2v s, s, e, perm⟩ := by
  have hbase := kernbase_eq
  have hsize : Kmap.size ⟨p2v s, s, e, perm⟩ = e - s := by
    have hlt' : e < 2 ^ 32 := by
      unfold p2v at hmax
      omega
    exact Kmap.size_of_le hlt.le hlt'
  unfold p2v at *
  simp only [PGSIZE] at *
  refine ⟨?_, hs, ?_, ?_, ?_, ?_, hperm, huser⟩
  all_goals simp only [hsize, PGSIZE]
  all_goals omega

/-- The place of the kernel in memory. -/
structure Layout where
  /-- `end`, the first address after the kernel -/
  kend : ℕ
  phystop : ℕ
  kmap : List Kmap
  base_lt : KERNBASE < kend
  phystop_le : p2v phystop ≤ DEVSPACE
  kmap_ok : ∀ k ∈ kmap, k.Ok
  /-- the mappings do not overlap -/
  kmap_sorted : kmap.Pairwise fun k k' => k.virt + k.size ≤ k'.virt

/-- The layout of `memlayout.h`, with the table `kmap` of `vm.c`. The linker puts the kernel's
data at the physical address `data`, on a page boundary behind its text. -/
def xv6Layout (data kend : ℕ) (hmod : data % PGSIZE = 0) (htext : EXTMEM < data)
    (hdata : data < PHYSTOP) (hend : p2v data ≤ kend) : Layout where
  kend := kend
  phystop := PHYSTOP
  kmap :=
    [⟨p2v 0, 0, EXTMEM, 2⟩, ⟨p2v EXTMEM, EXTMEM, data, 0⟩, ⟨p2v data, data, PHYSTOP, 2⟩,
      ⟨DEVSPACE, DEVSPACE, 0, 2⟩]
  base_lt := by
    unfold p2v at hend
    omega
  phystop_le := by decide
  kmap_ok := by
    have htop : p2v PHYSTOP ≤ 2 ^ 32 := by decide
    have hmax : p2v data ≤ 2 ^ 32 := le_trans (Nat.add_le_add_right hdata.le _) htop
    intro k hk
    simp only [List.mem_cons, List.not_mem_nil, or_false] at hk
    rcases hk with rfl | rfl | rfl | rfl
    · exact Kmap.ok_direct rfl rfl (by decide) (by decide) (by decide) rfl
    · exact Kmap.ok_direct rfl hmod htext hmax (by decide) rfl
    · exact Kmap.ok_direct hmod rfl hdata htop (by decide) rfl
    · exact ⟨rfl, rfl, rfl, by decide, by decide, by decide, by decide, rfl⟩
  kmap_sorted := by
    have hfirst : Kmap.size ⟨p2v 0, 0, EXTMEM, 2⟩ = EXTMEM := rfl
    have hsecond : Kmap.size ⟨p2v EXTMEM, EXTMEM, data, 0⟩ = data - EXTMEM :=
      Kmap.size_of_le htext.le (hdata.trans (by decide))
    have hthird : Kmap.size ⟨p2v data, data, PHYSTOP, 2⟩ = PHYSTOP - data :=
      Kmap.size_of_le hdata.le (show PHYSTOP < 2 ^ 32 by decide)
    have hgap : p2v PHYSTOP ≤ DEVSPACE := by decide
    simp only [List.pairwise_cons, List.mem_cons, List.not_mem_nil, or_false, forall_eq_or_imp,
      forall_eq, hfirst, hsecond, hthird, false_implies, implies_true, List.Pairwise.nil, and_true]
    unfold p2v at *
    omega

/-- The pages that the allocator manages: those between the end of the kernel and the top of
physical memory, by their addresses in the kernel. -/
def Layout.pages (L : Layout) : Set ℕ :=
  {v | v % PGSIZE = 0 ∧ L.kend ≤ v ∧ v2p v < L.phystop}

/-! ### `kalloc.c` -/

/-- What is in a page, as words. -/
abbrev Page := ℕ → ℕ

/-- The pages of physical memory by their addresses in the kernel, and `kmem.freelist`. -/
structure Ram where
  page : ℕ → Page
  freelist : ℕ

/-- `kfree`; a `panic` is the result `none`. The page is filled with junk, and its first word is
`r->next`. -/
def kfree (L : Layout) (m : Ram) (v : ℕ) : Option Ram :=
  if v % PGSIZE ≠ 0 ∨ v < L.kend ∨ v2p v ≥ L.phystop then none
  else
    some ⟨Function.update m.page v (Function.update (fun _ => 0x01010101) 0 m.freelist), v⟩

/-- `kalloc` -/
def kalloc (m : Ram) : Option (ℕ × Ram) :=
  if m.freelist ≠ 0 then some (m.freelist, { m with freelist := m.page m.freelist 0 }) else none

/-- The loop of `freerange`, with `k` pages to go from `p` on. -/
def freerangeLoop (L : Layout) : ℕ → ℕ → Ram → Option Ram
  | 0, _, m => some m
  | k + 1, p, m => (kfree L m p).bind (freerangeLoop L k (p + PGSIZE))

/-- `freerange` -/
def freerange (L : Layout) (vstart vend : ℕ) (m : Ram) : Option Ram :=
  freerangeLoop L ((vend - pgroundup vstart) / PGSIZE) (pgroundup vstart) m

/-! ### The free list -/

/-- The list of pages that starts at an address and is linked through their first words. -/
def Linked (page : ℕ → Page) : ℕ → List ℕ → Prop
  | v, [] => v = 0
  | v, a :: l => v = a ∧ a ≠ 0 ∧ Linked page (page a 0) l

/-- The links of pages that stay as they are. -/
lemma Linked.congr {page page' : ℕ → Page} {v : ℕ} {l : List ℕ} (h : Linked page v l)
    (hsame : ∀ a ∈ l, page' a = page a) : Linked page' v l := by
  induction l generalizing v with
  | nil => exact h
  | cons a l ih =>
      obtain ⟨rfl, hne, hrest⟩ := h
      refine ⟨rfl, hne, ?_⟩
      rw [hsame v (by simp)]
      exact ih hrest fun b hb => hsame b (by simp [hb])

/-- The free list is in order, and the pages on it are those in `S`. -/
def FreePages (L : Layout) (m : Ram) (S : Set ℕ) : Prop :=
  ∃ l, Linked m.page m.freelist l ∧ l.Nodup ∧ (∀ v, v ∈ S ↔ v ∈ l) ∧ S ⊆ L.pages

namespace FreePages

variable {L : Layout} {m m' : Ram} {S : Set ℕ} {v : ℕ}

/-- `kalloc` takes a page off the list. -/
lemma kalloc (h : FreePages L m S) (hk : kalloc m = some (v, m')) :
    v ∈ S ∧ v ∈ L.pages ∧ FreePages L m' (S \ {v}) ∧ ∀ g ∉ S, m'.page g = m.page g := by
  obtain ⟨l, hlink, hnodup, hmem, hsub⟩ := h
  unfold Mem.kalloc at hk
  split_ifs at hk with hne
  obtain ⟨rfl, rfl⟩ : m.freelist = v ∧ _ = m' := by simpa using hk
  cases l with
  | nil => exact absurd hlink hne
  | cons a l =>
      obtain ⟨hhead, -, hrest⟩ := hlink
      rw [hhead]
      have ha : a ∈ S := (hmem a).mpr (by simp)
      refine ⟨ha, hsub ha, ⟨l, by simpa using hrest, hnodup.of_cons, ?_, ?_⟩, fun _ _ => rfl⟩
      · intro b
        rw [Set.mem_sdiff, hmem b, List.mem_cons, Set.mem_singleton_iff]
        constructor
        · rintro ⟨rfl | hb, hba⟩
          · exact absurd rfl hba
          · exact hb
        · intro hb
          refine ⟨Or.inr hb, ?_⟩
          rintro rfl
          exact (List.nodup_cons.mp hnodup).1 hb
      · exact fun b hb => hsub hb.1

/-- `kfree` puts a page that is not free on the list. -/
lemma kfree (h : FreePages L m S) (hV : v ∈ L.pages) (hv : v ∉ S) :
    ∃ m', kfree L m v = some m' ∧ FreePages L m' (insert v S) ∧
      ∀ g ∉ insert v S, m'.page g = m.page g := by
  obtain ⟨l, hlink, hnodup, hmem, hsub⟩ := h
  obtain ⟨hmod, hend, htop⟩ := hV
  have hvl : v ∉ l := fun hl => hv ((hmem v).mpr hl)
  have hpos : v ≠ 0 := by
    have := L.base_lt
    omega
  refine ⟨_, if_neg (by omega), ⟨v :: l, ⟨rfl, hpos, ?_⟩, List.nodup_cons.mpr ⟨hvl, hnodup⟩,
    ?_, ?_⟩, ?_⟩
  · simp only [Function.update_self]
    refine hlink.congr fun a ha => Function.update_of_ne ?_ _ _
    rintro rfl
    exact hvl ha
  · intro b
    rw [Set.mem_insert_iff, List.mem_cons, hmem b]
  · rintro b (rfl | hb)
    · exact ⟨hmod, hend, htop⟩
    · exact hsub hb
  · intro g hg
    refine Function.update_of_ne ?_ _ _
    rintro rfl
    exact hg (Set.mem_insert _ _)

/-- The list does not notice writes to other pages. -/
lemma write (h : FreePages L m S) (hv : v ∉ S) (c : Page) :
    FreePages L { m with page := Function.update m.page v c } S := by
  obtain ⟨l, hlink, hnodup, hmem, hsub⟩ := h
  refine ⟨l, hlink.congr fun a ha => Function.update_of_ne ?_ _ _, hnodup, hmem, hsub⟩
  rintro rfl
  exact hv ((hmem a).mpr ha)

end FreePages

/-- **The allocator** keeps its list in order if the pages on the list are left alone and only
pages that are not on it are freed. -/
def kmem (L : Layout) : Allocator Ram ℕ Page where
  page := Ram.page
  set m v c := { m with page := Function.update m.page v c }
  alloc := kalloc
  free := kfree L
  valid := L.pages
  Ok := FreePages L
  alloc_ok h hk := h.kalloc hk
  free_ok h hV hv := h.kfree hV hv
  set_ok c h hv :=
    ⟨h.write hv c, Function.update_self .., fun _ hg => Function.update_of_ne hg _ _⟩

/-! ### Free pages and others -/

/-- The pages that the allocator manages and that are not free in `m`. -/
noncomputable def taken (L : Layout) (m : Ram) (S : Set ℕ) : Heap ℕ Page := by
  classical exact fun f => if f ∈ L.pages ∧ f ∉ S then some (m.page f) else none

section Taken

variable {L : Layout} {m : Ram} {S : Set ℕ}

lemma taken_eq_some {f : ℕ} {c : Page} :
    taken L m S f = some c ↔ f ∈ L.pages ∧ f ∉ S ∧ m.page f = c := by
  unfold taken
  split_ifs with hf
  · simp [hf.1, hf.2]
  · simp only [false_iff]
    exact fun h => hf ⟨h.1, h.2.1⟩

/-- The pages that are not free belong to `none`. -/
lemma owned_taken {ι : Type} (hm : FreePages L m S) :
    Owned (kmem L) m S fun i : Option ι => i.elim (taken L m S) fun _ => Heap.empty := by
  have hnone : ∀ {i : Option ι} {f c},
      (i.elim (taken L m S) fun _ => Heap.empty) f = some c → i = none := by
    intro i f c hf
    cases i with
    | none => rfl
    | some i => cases hf
  refine ⟨hm, ?_, ?_, ?_, ?_, ?_⟩
  · intro i f c hf
    obtain rfl := hnone hf
    exact (taken_eq_some.mp hf).1
  · intro i f c hf
    obtain rfl := hnone hf
    exact (taken_eq_some.mp hf).2.1
  · intro i j f c c' hi hj
    rw [hnone hi, hnone hj]
  · intro i f c hf
    obtain rfl := hnone hf
    exact (taken_eq_some.mp hf).2.2
  · intro f hf
    by_cases hS : f ∈ S
    · exact Or.inl hS
    · exact Or.inr ⟨none, m.page f, taken_eq_some.mpr ⟨hf, hS, rfl⟩⟩

end Taken

/-! ### `freerange` -/

/-- The whole pages between two addresses. -/
def pagesIn (lo hi : ℕ) : Set ℕ := {v | v % PGSIZE = 0 ∧ lo ≤ v ∧ v + PGSIZE ≤ hi}

section Freerange

variable {L : Layout} {m : Ram} {S : Set ℕ}

/-- The loop of `freerange` puts its pages on the list. -/
lemma freerangeLoop_freePages {k p : ℕ} (h : FreePages L m S) (hmod : p % PGSIZE = 0)
    (hin : pagesIn p (p + k * PGSIZE) ⊆ L.pages) (hnew : ∀ v ∈ pagesIn p (p + k * PGSIZE), v ∉ S) :
    ∃ m', freerangeLoop L k p m = some m' ∧ FreePages L m' (S ∪ pagesIn p (p + k * PGSIZE)) ∧
      ∀ g ∉ S ∪ pagesIn p (p + k * PGSIZE), m'.page g = m.page g := by
  simp only [PGSIZE] at hmod
  induction k generalizing m S p with
  | zero =>
      refine ⟨m, rfl, ?_, fun _ _ => rfl⟩
      have hempty : pagesIn p (p + 0 * PGSIZE) = ∅ := by
        ext v
        simp only [pagesIn, PGSIZE, Set.mem_ofPred_eq, Set.mem_empty_iff_false, iff_false]
        omega
      rwa [hempty, Set.union_empty]
  | succ k ih =>
      have hp : p ∈ pagesIn p (p + (k + 1) * PGSIZE) := by
        refine ⟨hmod, le_rfl, ?_⟩
        simp only [PGSIZE]
        omega
      have hsplit : pagesIn p (p + (k + 1) * PGSIZE) =
          insert p (pagesIn (p + PGSIZE) (p + PGSIZE + k * PGSIZE)) := by
        ext v
        simp only [pagesIn, PGSIZE, Set.mem_ofPred_eq, Set.mem_insert_iff]
        omega
      obtain ⟨m₁, hfree, hm₁, hkeep₁⟩ := h.kfree (hin hp) (hnew p hp)
      obtain ⟨m₂, hloop, hm₂, hkeep₂⟩ := ih (p := p + PGSIZE) hm₁ (by simp only [PGSIZE]; omega)
        (fun v hv => hin (hsplit ▸ Set.mem_insert_of_mem p hv)) (by
          rintro v hv (rfl | hvS)
          · have := hv.2.1
            simp only [PGSIZE] at this
            omega
          · exact hnew v (hsplit ▸ Set.mem_insert_of_mem p hv) hvS)
      have hunion : insert p S ∪ pagesIn (p + PGSIZE) (p + PGSIZE + k * PGSIZE) =
          S ∪ pagesIn p (p + (k + 1) * PGSIZE) := by
        rw [hsplit, Set.union_insert, ← Set.insert_union]
      rw [hunion] at hm₂ hkeep₂
      refine ⟨m₂, by simp [freerangeLoop, hfree, hloop], hm₂, fun g hg => ?_⟩
      refine (hkeep₂ g hg).trans (hkeep₁ g fun hg' => hg ?_)
      rcases hg' with rfl | hS
      · exact Or.inr hp
      · exact Or.inl hS

/-- **`freerange`** puts the pages between two addresses on the list, and leaves the others as
they are. -/
lemma freerange_freePages {lo hi : ℕ} (h : FreePages L m S) (hin : pagesIn lo hi ⊆ L.pages)
    (hnew : ∀ v ∈ pagesIn lo hi, v ∉ S) :
    ∃ m', freerange L lo hi m = some m' ∧ FreePages L m' (S ∪ pagesIn lo hi) ∧
      ∀ g ∉ S ∪ pagesIn lo hi, m'.page g = m.page g := by
  have hpages : pagesIn (pgroundup lo) (pgroundup lo + (hi - pgroundup lo) / PGSIZE * PGSIZE) =
      pagesIn lo hi := by
    ext v
    simp only [pagesIn, pgroundup, PGSIZE, Set.mem_ofPred_eq]
    omega
  have hloop := freerangeLoop_freePages h (pgroundup_mod lo)
    (k := (hi - pgroundup lo) / PGSIZE)
  rw [hpages] at hloop
  exact hloop hin hnew

end Freerange

end Xv6Lottery.Mem
