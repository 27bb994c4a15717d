import Xv6Lottery.Mem.Space

/-!
Physical memory before the first process (`main.c`).

* `kvmalloc`, `startothers`: what the kernel takes for itself, a page directory with its page
  tables and a stack for each other processor.
* `mainMemory`: the calls of `main` that deal with physical memory. `kinit1` frees the pages that
  the first page table maps, and `kinit2` the others.
* `KernelHas`: the pages of the kernel. `mainMemory_freePages`: before the first process, all
  pages between the kernel and the top of memory are on the free list but these.
* `tiny`, `tinyRam`: a machine with a few pages, for runs that are written out.
-/

namespace Xv6Lottery.Mem

open Library

/-! ### `main.c` -/

/-- `kvmalloc`; without a page directory the processor goes on with a null pointer. -/
def kvmalloc (L : Layout) : Kern ℕ := do
  match ← setupkvm L with
  | none => .halt .fault
  | some kpgdir => return kpgdir

/-- `startothers`, for `n` other processors: the stacks. The results of `kalloc` are not checked. -/
def startothers : ℕ → Kern (List ℕ)
  | 0 => return []
  | n + 1 => do
      match ← Kern.kalloc with
      | none => .halt .fault
      | some stack => do
          let rest ← startothers n
          return stack :: rest

/-- `main` between `kinit1` and `kinit2`. -/
def bootCode (L : Layout) (n : ℕ) : Kern (ℕ × List ℕ) := do
  let kpgdir ← kvmalloc L
  let rest ← startothers n
  return (kpgdir, rest)

/-- The part of `main` that deals with physical memory, if it gets through: `kinit1(end, mid)`,
then `kvmalloc` and `startothers`, then `kinit2(mid, P2V(PHYSTOP))`. There are no processes yet,
and the other processors wait. -/
def mainMemory (L : Layout) (mid n : ℕ) (page : ℕ → Page) : Option Ram :=
  match freerange L L.kend mid ⟨page, 0⟩ with
  | none => none
  | some m =>
      match (bootCode L n).exec (kmem L) m with
      | some (.ok _, m') => freerange L mid (p2v L.phystop) m'
      | _ => none

/-! ### What the kernel takes -/

/-- The pages of `n` stacks. -/
def Stacks : ℕ → Heap ℕ Page → Prop
  | 0, h => h = Heap.empty
  | n + 1, h => ∃ h' f c, Stacks n h' ∧ h' f = none ∧ h = h'.union (Heap.single f c)

/-- The pages of the kernel: an address space with its mappings, and `n` stacks. -/
def KernelHas (L : Layout) (n : ℕ) (h : Heap ℕ Page) : Prop :=
  ∃ kpgdir h₁ h₂, Maps L h₁ kpgdir (kernelView L) ∧ Stacks n h₂ ∧ h₂.Disjoint h₁ ∧
    h = h₂.union h₁

section Spec

variable {L : Layout} {n : ℕ}

lemma startothers_spec {E : Stop → Prop} (hfault : E .fault) :
    wp L.pages E (fun _ h => Stacks n h) (startothers n) Heap.empty := by
  induction n with
  | zero => exact rfl
  | succ n ih =>
      rw [startothers, wp_bind, wp_kalloc]
      refine ⟨hfault, fun f _ _ c => ?_⟩
      rw [show Function.update Heap.empty f (some c) = Heap.empty.union (Heap.single f c) from rfl]
      refine wp_call ih Heap.Disjoint.empty_left fun _ h' hst hd => ?_
      exact ⟨h', f, c, hst, hd.single_none, rfl⟩

lemma bootCode_spec :
    wp L.pages (· = .fault) (fun _ h => KernelHas L n h) (bootCode L n) Heap.empty := by
  rw [bootCode, kvmalloc, wp_bind, wp_bind]
  refine setupkvm_spec rfl fun h₁ kpgdir hm => ?_
  dsimp only
  rw [wp_pure, ← Heap.empty_union (r := h₁)]
  refine wp_call (startothers_spec rfl) Heap.Disjoint.empty_left fun _ h₂ hst hd => ?_
  exact ⟨kpgdir, h₁, h₂, hm, hst, hd, rfl⟩

/-- **Before the first process**, the pages that are not free are the kernel's. -/
lemma mainMemory_freePages {mid : ℕ} {page : ℕ → Page} {m : Ram} (hend : L.kend ≤ mid)
    (hmid : mid % PGSIZE = 0) (htop : mid ≤ p2v L.phystop) (hphys : L.phystop % PGSIZE = 0)
    (hmain : mainMemory L mid n page = some m) :
    ∃ S, FreePages L m S ∧ KernelHas L n (taken L m S) := by
  have hbase := kernbase_eq
  have hlow : pagesIn L.kend mid ⊆ L.pages := by
    rintro v ⟨hv, hlo, hhi⟩
    refine ⟨hv, hlo, ?_⟩
    unfold p2v at htop
    unfold v2p
    simp only [PGSIZE] at hhi
    have := L.base_lt
    omega
  have hhigh : pagesIn mid (p2v L.phystop) ⊆ L.pages := by
    rintro v ⟨hv, hlo, hhi⟩
    refine ⟨hv, hend.trans hlo, ?_⟩
    unfold p2v at hhi
    unfold v2p
    simp only [PGSIZE] at hhi
    have := L.base_lt
    omega
  -- a page is in one of the two parts
  have hparts : ∀ v ∈ L.pages, v ∉ pagesIn L.kend mid ↔ v ∈ pagesIn mid (p2v L.phystop) := by
    rintro v ⟨hv, hlo, hhi⟩
    have := L.base_lt
    unfold v2p at hhi
    simp only [pagesIn, p2v, PGSIZE, Set.mem_ofPred_eq] at *
    omega
  obtain ⟨m₁, hm₁, hfree₁, -⟩ := freerange_freePages (L := L) (m := ⟨page, 0⟩) (S := ∅)
    ⟨[], rfl, by simp⟩ hlow (by simp)
  rw [Set.empty_union] at hfree₁
  obtain ⟨r, m₂, S₂, h, hexec, ho, hok, -⟩ :=
    (owned_taken (ι := Unit) hfree₁).ends (i := some ()) (bootCode_spec (n := n))
  rw [mainMemory, hm₁] at hmain
  dsimp only at hmain
  rw [hexec] at hmain
  cases r with
  | error e => cases hmain
  | ok a =>
      -- the pages of the upper part have been left alone
      have hupper : ∀ v ∈ pagesIn mid (p2v L.phystop),
          Function.update (fun i : Option Unit => i.elim (taken L m₁ (pagesIn L.kend mid))
            fun _ => Heap.empty) (some ()) h none v = some (m₁.page v) := by
        intro v hv
        rw [Function.update_of_ne (by simp)]
        exact taken_eq_some.mpr ⟨hhigh hv, (hparts v (hhigh hv)).mpr hv, rfl⟩
      obtain ⟨m₃, hm₃, hfree₃, hkeep⟩ := freerange_freePages ho.ok hhigh
        fun v hv => ho.busy (hupper v hv)
      obtain rfl : m₃ = m := Option.some.inj (hm₃.symm.trans hmain)
      refine ⟨_, hfree₃, ?_⟩
      suffices hsame : taken L m₃ (S₂ ∪ pagesIn mid (p2v L.phystop)) = h by
        rw [hsame]
        exact hok a rfl
      have hself : ∀ {v c}, h v = some c → v ∈ L.pages ∧
          v ∉ S₂ ∪ pagesIn mid (p2v L.phystop) ∧ m₃.page v = c := by
        intro v c hv
        have hv' : Function.update (fun i : Option Unit =>
            i.elim (taken L m₁ (pagesIn L.kend mid)) fun _ => Heap.empty) (some ()) h
            (some ()) v = some c := by
          rwa [Function.update_self]
        have hout : v ∉ S₂ ∪ pagesIn mid (p2v L.phystop) := by
          rintro (hS | hin)
          · exact ho.busy hv' hS
          · cases ho.one hv' (hupper v hin)
        exact ⟨ho.valid hv', hout, (hkeep v hout).trans (ho.knows hv')⟩
      funext v
      cases hv : h v with
      | some c => exact taken_eq_some.mpr (hself hv)
      | none =>
          rw [← Option.not_isSome_iff_eq_none, Option.isSome_iff_exists]
          rintro ⟨c, hc⟩
          obtain ⟨hpages, hout, -⟩ := taken_eq_some.mp hc
          rcases ho.all v hpages with hS | ⟨i, c', hi⟩
          · exact hout (Or.inl hS)
          · cases i with
            | none =>
                rw [Function.update_of_ne (by simp)] at hi
                obtain ⟨-, hnot, -⟩ := taken_eq_some.mp hi
                exact hout (Or.inr ((hparts v hpages).mp hnot))
            | some _ =>
                rw [Function.update_self, hv] at hi
                cases hi

end Spec

/-! ### A small machine -/

/-- A machine with sixteen pages behind the kernel, which maps one page for itself. -/
def tiny : Layout where
  kend := p2v PGSIZE
  phystop := 17 * PGSIZE
  kmap := [⟨p2v 0, 0, PGSIZE, 2⟩]
  base_lt := by decide
  phystop_le := by decide
  kmap_ok := by
    intro k hk
    obtain rfl := List.mem_singleton.mp hk
    exact Kmap.ok_direct rfl rfl (by decide) (by decide) (by decide) rfl
  kmap_sorted := List.pairwise_singleton ..

/-- Its memory before the first process. It has two processors, and its first page table maps five
pages. -/
def tinyRam : Ram :=
  (mainMemory tiny (p2v (5 * PGSIZE)) 1 fun _ _ => 0).getD ⟨fun _ _ => 0, 0⟩

lemma mainMemory_tiny : mainMemory tiny (p2v (5 * PGSIZE)) 1 (fun _ _ => 0) = some tinyRam := by
  obtain ⟨m, hm⟩ := Option.isSome_iff_exists.mp
    (show (mainMemory tiny (p2v (5 * PGSIZE)) 1 fun _ _ => 0).isSome by decide +kernel)
  rw [tinyRam, hm]
  rfl

lemma tinyRam_free : ∃ S, FreePages tiny tinyRam S := by
  obtain ⟨S, hS, -⟩ := mainMemory_freePages (by decide) (by decide) (by decide) (by decide)
    mainMemory_tiny
  exact ⟨S, hS⟩

end Xv6Lottery.Mem
