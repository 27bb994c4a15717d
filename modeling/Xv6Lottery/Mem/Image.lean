import Xv6Lottery.Mem.Space

/-!
The memory of a process, as `proc.c` makes, grows, copies and frees it.

* `Image`: the size of a process and the meaning of its address space. `Image.Whole`: the user
  pages are those below the size, and the kernel's mappings are in place.
* `Holds`: the pages of a heap are the memory of a process: its address space and its kernel
  stack. `Lost`: the same for a first process whose page could not be mapped.
* `growproc_spec`, `fork_spec`, `wait_spec`, `userinit_spec`: what the functions do to it.
-/

namespace Xv6Lottery.Mem

open Library

/-- The memory of a process, for the process. -/
structure Image where
  sz : ℕ
  view : View

/-- The user pages are those below the size, and the kernel's mappings are in place. -/
structure Image.Whole (L : Layout) (a : Image) : Prop where
  kernel : a.view.kernel = (kernelView L).kernel
  pos : 0 < a.sz
  lt_base : a.sz < KERNBASE
  exact : ∀ n, a.view.user n ≠ none ↔ n < pagesOf a.sz

/-- The memory after `sbrk(n)`. A negative size wraps around to one beyond the old size, and then
nothing happens. -/
def Image.grow (a : Image) (n : ℤ) : Image :=
  if 0 < n then
    ⟨(a.sz + n).toNat, a.view.fill (pagesOf a.sz) (pagesOf (a.sz + n).toNat)⟩
  else if a.sz + n < 0 then a
  else ⟨(a.sz + n).toNat, a.view.erase (pagesOf (a.sz + n).toNat) (pagesOf a.sz)⟩

/-- The memory after a user program has written to `va`. -/
def Image.store (a : Image) (va w : ℕ) : Image := { a with view := a.view.store va w }

/-- The memory of the first process. -/
def Image.first (L : Layout) (init : Page) : Image :=
  ⟨PGSIZE, (kernelView L).map 0 View.fresh init⟩

/-- The pages of the heap are the memory of the process `p`, with the meaning `a`. -/
structure Holds (L : Layout) (h : Heap ℕ Page) (p : ProcMem) (a : Image) : Prop where
  whole : a.Whole L
  sz : p.sz = a.sz
  stack : p.kstack ∈ L.pages
  maps : ∃ h₁ c, Maps L h₁ p.pgdir a.view ∧ h₁ p.kstack = none ∧
    h = h₁.union (Heap.single p.kstack c)

/-- The pages of the heap are the memory of the first process if its page could not be mapped:
an address space without user pages, the kernel stack, and the page, which is on no list and in
no page table any more. -/
def Lost (L : Layout) (init : Page) (h : Heap ℕ Page) (p : ProcMem) : Prop :=
  ∃ h₁ f c, Maps L h₁ p.pgdir (kernelView L) ∧ h₁ f = none ∧
    h₁.union (Heap.single f init) p.kstack = none ∧
    h = (h₁.union (Heap.single f init)).union (Heap.single p.kstack c)

section Spec

variable {L : Layout} {E : Stop → Prop} {h : Heap ℕ Page} {p : ProcMem} {a : Image} {n : ℤ}

lemma Image.grow_zero : a.grow 0 = a := by
  have hsz : ((a.sz : ℤ) + 0).toNat = a.sz := by omega
  rw [Image.grow, if_neg (by omega), if_neg (by omega), hsz,
    View.erase_of_none fun m hlo hhi => by omega]

namespace Image.Whole

variable (ha : a.Whole L)

include ha

lemma user_eq_none {m : ℕ} (hm : pagesOf a.sz ≤ m) : a.view.user m = none := by
  by_contra hne
  have := (ha.exact m).mp hne
  omega

/-- Growing keeps a memory whole. -/
lemma grow_pos (hn : 0 < n) (hlt : (a.sz + n).toNat < KERNBASE) : (a.grow n).Whole L := by
  have hle : pagesOf a.sz ≤ pagesOf (a.sz + n).toNat := pagesOf_mono (by omega)
  rw [Image.grow, if_pos hn]
  refine ⟨ha.kernel, by dsimp only; omega, hlt, fun m => ?_⟩
  have hold := ha.exact m
  dsimp only [View.fill]
  split_ifs with hm
  · simp [hm.2]
  · rw [hold]
    omega

/-- Shrinking keeps a memory whole, unless nothing is left. -/
lemma grow_neg (hn : n ≤ 0) (hpos : 0 < a.sz + n) : (a.grow n).Whole L := by
  have hle : pagesOf (a.sz + n).toNat ≤ pagesOf a.sz := pagesOf_mono (by omega)
  rw [Image.grow, if_neg (by omega), if_neg (by omega)]
  refine ⟨ha.kernel, by dsimp only; omega, ?_, fun m => ?_⟩
  · have := ha.lt_base
    dsimp only
    omega
  · have hold := ha.exact m
    dsimp only [View.erase]
    split_ifs with hm
    · simp [hm.1]
    · rw [hold]
      omega

lemma store (va w : ℕ) : (a.store va w).Whole L := by
  have huser : ∀ m, (a.view.store va w).user m = none ↔ a.view.user m = none := by
    intro m
    rw [View.store]
    cases hv : a.view.user (va / PGSIZE) with
    | none => rfl
    | some fc =>
        dsimp only
        split_ifs with hfl
        · by_cases hm : m = va / PGSIZE
          · subst hm
            simp [View.map, hv]
          · simp [View.map, hm]
        · rfl
  refine ⟨?_, ha.pos, ha.lt_base, fun m => (not_congr (huser m)).trans (ha.exact m)⟩
  rw [← ha.kernel]
  dsimp only [Image.store]
  rw [View.store]
  cases a.view.user (va / PGSIZE) with
  | none => rfl
  | some fc =>
      dsimp only
      split_ifs <;> rfl

/-- A process has a copy of all of its pages copied. -/
lemma copied_eq : a.view.copied L (pagesOf a.sz) = a.view := by
  ext m : 2
  · dsimp only [View.copied]
    split_ifs with hm
    · rfl
    · exact (ha.user_eq_none (not_lt.mp hm)).symm
  · exact ha.kernel.symm ▸ rfl

end Image.Whole

/-- **`growproc`** grows or shrinks the memory, or fails and leaves it as it is, unless nothing
would be left of it. -/
lemma growproc_spec {Q : ℤ × ProcMem → Heap ℕ Page → Prop} (hh : Holds L h p a) (hn : IsInt n)
    (hsome : 0 ≤ n ∨ p.sz + n ≠ 0) (hfail : ∀ h', Holds L h' p a → Q (-1, p) h')
    (hok : ∀ p' h', Holds L h' p' (a.grow n) → Q (0, p') h') :
    wp L.pages E Q (growproc p n) h := by
  obtain ⟨hwhole, hsz, hstack, h₁, c, hm, hsep, rfl⟩ := hh
  have hbase := hwhole.lt_base
  have hpos := hwhole.pos
  have hb := kernbase_eq
  obtain ⟨hmin, hmax⟩ := hn
  have hmin' : -2147483648 ≤ n := hmin
  have hmax' : n ≤ 2147483647 := hmax
  have hdisj : h₁.Disjoint (Heap.single p.kstack c) := Heap.disjoint_single hsep
  rw [hsz] at hsome
  rw [growproc, hsz]
  rcases lt_trichotomy n 0 with hneg | rfl | hposn
  · rw [if_neg (by omega), if_pos hneg]
    rcases lt_or_ge ((a.sz : ℤ) + n) 0 with hlt | hge
    · -- the size wraps around
      have hbeyond : a.sz ≤ toUint (a.sz + n) := by
        unfold toUint
        omega
      have hgrow : a.grow n = a := by rw [Image.grow, if_neg (by omega), if_pos hlt]
      rw [wp_bind, deallocuvm, if_pos hbeyond, wp_pure, if_neg (by omega)]
      refine hok _ _ ?_
      rw [hgrow]
      exact ⟨hwhole, rfl, hstack, h₁, c, hm, hsep, rfl⟩
    · have huint : toUint (a.sz + n) = (a.sz + n).toNat := toUint_of_lt hge (by omega)
      have hnew : (a.sz + n).toNat < a.sz := by omega
      have hgrow : a.grow n = ⟨(a.sz + n).toNat,
          a.view.erase (pagesOf (a.sz + n).toNat) (pagesOf a.sz)⟩ := by
        rw [Image.grow, if_neg (by omega), if_neg (by omega)]
      rw [huint]
      refine wp_call (deallocuvm_spec (Q := fun r h' => r = (a.sz + n).toNat ∧
        Maps L h' p.pgdir (a.grow n).view) hm hnew hbase.le fun h' hm' => ⟨rfl, ?_⟩) hdisj ?_
      · rwa [hgrow]
      · rintro _ h' ⟨rfl, hm'⟩ hd
        rw [if_neg (by omega)]
        exact hok _ _ ⟨hwhole.grow_neg hneg.le (by omega), by rw [hgrow], hstack, h', c, hm',
          hd.single_none, rfl⟩
  · rw [if_neg (by omega), if_neg (by omega)]
    refine hok _ _ ?_
    rw [Image.grow_zero]
    exact ⟨hwhole, hsz, hstack, h₁, c, hm, hsep, rfl⟩
  · have huint : toUint (a.sz + n) = (a.sz + n).toNat := toUint_of_lt (by omega) (by omega)
    have hgrow : a.grow n = ⟨(a.sz + n).toNat,
        a.view.fill (pagesOf a.sz) (pagesOf (a.sz + n).toNat)⟩ := by
      rw [Image.grow, if_pos hposn]
    rw [if_pos hposn, huint]
    refine wp_call (allocuvm_spec (Q := fun r h' => (r = 0 ∧ Maps L h' p.pgdir a.view) ∨
        (r = (a.sz + n).toNat ∧ r < KERNBASE ∧ Maps L h' p.pgdir (a.grow n).view)) hm
      (by omega) (fun m hlo _ => hwhole.user_eq_none hlo) (fun h' hm' => Or.inl ⟨rfl, hm'⟩)
      fun hlt h' hm' => Or.inr ⟨rfl, hlt, ?_⟩) hdisj ?_
    · rwa [hgrow]
    · rintro _ h' (⟨rfl, hm'⟩ | ⟨rfl, hlt, hm'⟩) hd
      · rw [if_pos rfl]
        exact hfail _ ⟨hwhole, hsz, hstack, h', c, hm', hd.single_none, rfl⟩
      · rw [if_neg (by omega)]
        exact hok _ _ ⟨hwhole.grow_pos hposn hlt, by rw [hgrow], hstack, h', c, hm', hd.single_none,
          rfl⟩

/-- **`fork`** gives the child a copy of the parent's memory, or takes no page. -/
lemma fork_spec {Q : Option ProcMem → Heap ℕ Page → Prop} (hh : Holds L h p a)
    (hfail : Q none h)
    (hok : ∀ q hq, Holds L hq q a → h.Disjoint hq → Q (some q) (h.union hq)) :
    wp L.pages E Q (fork L p) h := by
  obtain ⟨hwhole, hsz, hstack, h₁, c, hm, hsep, rfl⟩ := hh
  rw [fork, wp_bind, wp_kalloc]
  refine ⟨hfail, fun kstack hk hfree c' => ?_⟩
  obtain ⟨hfree₁, hfree₂⟩ := Heap.union_eq_none.mp hfree
  have hdisj : h₁.Disjoint (Heap.single p.kstack c) := Heap.disjoint_single hsep
  have hd₁ : h₁.Disjoint (Heap.single kstack c') := Heap.disjoint_single hfree₁
  have hd₂ : (Heap.single p.kstack c).Disjoint (Heap.single kstack c') :=
    Heap.disjoint_single hfree₂
  rw [← Heap.union_single hfree, Heap.union_assoc]
  dsimp only
  refine wp_call (copyuvm_spec (Q := fun res h' => (res = none ∧ h' = h₁) ∨ ∃ d hc,
      res = some d ∧ Maps L hc d a.view ∧ h₁.Disjoint hc ∧ h' = h₁.union hc) hm
    (hsz ▸ hwhole.lt_base.le) ?_ (Or.inl ⟨rfl, rfl⟩) ?_)
    (hdisj.symm.union_left hd₁.symm).symm ?_
  · rw [hsz]
    exact fun m hm => (hwhole.exact m).mpr hm
  · intro hc d hmc hdc
    rw [hsz, hwhole.copied_eq] at hmc
    exact Or.inr ⟨d, hc, rfl, hmc, hdc, rfl⟩
  · rintro res h' (⟨rfl, rfl⟩ | ⟨d, hc, rfl, hmc, hdc, rfl⟩) hd
    · rw [← Heap.union_assoc]
      dsimp only
      rw [wp_bind, wp_kfree]
      refine ⟨hk, by rw [Heap.union_single_self hfree]; rfl, ?_⟩
      rw [Heap.free_single hfree]
      exact hfail
    · obtain ⟨hd₃, hd₄⟩ := Heap.Disjoint.of_union_left hd
      obtain ⟨hd₅, hd₆⟩ := Heap.Disjoint.of_union_left hd₄.symm
      have hkc : hc kstack = none := hd₆.symm.single_none
      -- the child has the new address space and the new stack
      have hsplit : (h₁.union hc).union
          ((Heap.single p.kstack c).union (Heap.single kstack c')) =
          (h₁.union (Heap.single p.kstack c)).union (hc.union (Heap.single kstack c')) := by
        rw [Heap.union_assoc, Heap.union_assoc, ← Heap.union_assoc (h := hc), ←
          Heap.union_assoc (h := Heap.single p.kstack c), hd₅.union_comm]
      dsimp only
      rw [wp_pure, hsplit]
      refine hok _ _ ⟨hwhole, hsz, hk, hc, c', hmc, hkc, rfl⟩ ?_
      exact Heap.Disjoint.union_left (hdc.symm.union_left hd₁.symm).symm
        (hd₅.symm.union_left hd₂.symm).symm

/-- **`wait`** gives back all pages of a zombie. -/
lemma wait_spec {Q : Unit → Heap ℕ Page → Prop} (hh : Holds L h p a) (hQ : Q () Heap.empty) :
    wp L.pages E Q (wait p) h := by
  obtain ⟨-, -, hstack, h₁, c, hm, hsep, rfl⟩ := hh
  rw [wait, wp_bind, wp_kfree]
  refine ⟨hstack, by rw [Heap.union_single_self hsep]; rfl, ?_⟩
  rw [Heap.free_single hsep]
  exact freevm_spec hm hQ

/-- `inituvm` maps the first program at address 0. If the page cannot be mapped, it is lost. -/
lemma inituvm_spec {Q : Bool → Heap ℕ Page → Prop} {dir : ℕ} {v : View} {init : Page}
    (hm : Maps L h dir v) (hnone : v.user 0 = none) (hfault : E .fault)
    (hlost : ∀ f, h f = none → Q false (h.union (Heap.single f init)))
    (hok : ∀ h', Maps L h' dir (v.map 0 View.fresh init) → Q true h') :
    wp L.pages E Q (inituvm dir init) h := by
  rw [inituvm, wp_bind, wp_kalloc]
  refine ⟨hfault, fun mem hmem hsep c => ?_⟩
  rw [wp_bind, wp_clear]
  refine ⟨c, Function.update_self .., ?_⟩
  rw [Function.update_idem, ← Heap.union_single hsep, wp_bind, mappages_one rfl]
  refine mapPage_user (n := 0) hm rfl (by decide) hnone hmem hsep (by decide) ?_ ?_
  · refine ⟨_, Heap.union_single_self hsep, ?_⟩
    rw [Heap.union_single hsep, Function.update_idem, ← Heap.union_single hsep]
    exact hlost mem hsep
  · intro T' h' hdir hT' hview hpage
    obtain ⟨c', hc', hview'⟩ := hT'.view_user hpage
    have hfl : pteFlags (T'.pte 0) = View.fresh := by
      rw [hview] at hview'
      simpa [View.map] using (congrArg (Option.map Prod.fst) hview').symm
    refine ⟨c', hc', hok _ ⟨T', hdir, hT'.setUser hpage init, ?_⟩⟩
    rw [hT'.view_setUser hpage, hview, hfl]
    ext m : 2
    · simp [View.map]
    · rfl

/-- How the boot may end for want of memory. -/
def BootFails (e : Stop) : Prop := e = .fault ∨ e = .panic "userinit: out of memory?"

lemma Image.whole_first (L : Layout) (init : Page) : (Image.first L init).Whole L := by
  refine ⟨rfl, show 0 < PGSIZE by decide, show PGSIZE < KERNBASE by decide, fun n => ?_⟩
  have hone : pagesOf (Image.first L init).sz = 1 := by
    rw [show (Image.first L init).sz = 4096 from rfl, pagesOf_eq]
  rw [hone]
  by_cases hn : n = 0
  · subst hn
    simp [Image.first, View.map]
  · have hno : (Image.first L init).view.user n = none := by
      simp [Image.first, View.map, hn, kernelView_user]
    simp [hno]
    omega

/-- **`userinit`** makes the memory of the first process, or fails for want of memory. -/
lemma userinit_spec {Q : ProcMem × Bool → Heap ℕ Page → Prop} {init : Page}
    (hlost : ∀ p h', Lost L init h' p → Q (p, false) h')
    (hok : ∀ p h', Holds L h' p (Image.first L init) → Q (p, true) h') :
    wp L.pages BootFails Q (userinit L init) Heap.empty := by
  rw [userinit, wp_bind, wp_kalloc]
  refine ⟨Or.inl rfl, fun kstack hk _ c => ?_⟩
  rw [show Function.update Heap.empty kstack (some c) = Heap.empty.union (Heap.single kstack c)
    from rfl]
  dsimp only
  refine wp_call (setupkvm_spec (Q := fun res h' => res = none ∨ ∃ d, res = some d ∧
    Maps L h' d (kernelView L)) (Or.inl rfl) fun h' d hm' => Or.inr ⟨d, rfl, hm'⟩)
    Heap.Disjoint.empty_left ?_
  rintro res h₁ (rfl | ⟨d, rfl, hm⟩) hd
  · exact Or.inr rfl
  · dsimp only
    refine wp_call (inituvm_spec (Q := fun mapped h' =>
      (mapped = false ∧ ∃ f, h₁ f = none ∧ h' = h₁.union (Heap.single f init)) ∨
      (mapped = true ∧ Maps L h' d ((kernelView L).map 0 View.fresh init))) hm (kernelView_user 0)
      (Or.inl rfl) (fun f hf => Or.inl ⟨rfl, f, hf, rfl⟩) fun h' hm' => Or.inr ⟨rfl, hm'⟩) hd ?_
    rintro _ h' (⟨rfl, f, hf, rfl⟩ | ⟨rfl, hm'⟩) hd'
    · exact hlost _ _ ⟨h₁, f, c, hm, hf, hd'.single_none, rfl⟩
    · exact hok _ _ ⟨Image.whole_first L init, rfl, hk, h', c, hm', hd'.single_none, rfl⟩

end Spec

end Xv6Lottery.Mem
