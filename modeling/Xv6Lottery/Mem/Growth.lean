import Xv6Lottery.Mem.Boot

/-!
`growproc` over physical memory does what `growproc` over page tables does (`Syscall.Growproc`).

* `Tables.pgdir`: the user half of an address space, as a page directory of `Syscall.Growproc`.
* `Agrees`: a sequence of answers of `kalloc`, from some call on.
* `deallocLoop_refines`, `allocLoop_refines`, `growproc_refines`: **whatever `kalloc` answers, the
  code over physical memory makes the page tables, the size and the return value that the code
  over page tables makes with an allocator that answers the same.**
-/

namespace Xv6Lottery.Mem

open Library

/-! ### Page tables -/

/-- The physical address in an entry that is present. -/
def absPte (w : ℕ) : Option ℕ+ :=
  if h : Present w ∧ 0 < pteAddr w then some ⟨pteAddr w, h.2⟩ else none

/-- The page tables of the user half. -/
def Tables.pgdir (T : Tables) : Pgdir := fun d =>
  if d < 512 then
    (T.tab d).map fun _ t => if t < 1024 then absPte (T.pte (1024 * d + t)) else none
  else none

lemma absPte_zero : absPte 0 = none := rfl

lemma absPte_eq_none {w : ℕ} (hp : ¬ Present w) : absPte w = none := dif_neg fun h => hp h.1

section Pgdir

variable {L : Layout} {T T' : Tables} {h : Heap ℕ Page} {va n w d f : ℕ}

lemma pdx_lt_user (hn : va / PGSIZE = n) (hlt : n < userPages) : pdx va < 512 := by
  rw [(pdx_ptx hn).1]
  have : userPages = 524288 := rfl
  omega

lemma pgdir_of_none (htab : T.tab d = none) : T.pgdir d = none := by
  simp [Tables.pgdir, htab]

lemma pgdir_of_some (hd : d < 512) (htab : T.tab d = some f) :
    T.pgdir d = some fun t => if t < 1024 then absPte (T.pte (1024 * d + t)) else none := by
  simp [Tables.pgdir, hd, htab]

/-- The entry for a page. -/
lemma entry_eq_pte (hn : va / PGSIZE = n) :
    (if ptx va < 1024 then absPte (T.pte (1024 * pdx va + ptx va)) else none) =
      absPte (T.pte n) := by
  obtain ⟨hd, ht⟩ := pdx_ptx hn
  rw [hd, ht, if_pos (Nat.mod_lt _ (by decide)), Nat.div_add_mod]

/-- A new page table. -/
lemma pgdir_addTable (hT : T.Rep L h) (hd : d < 512) (hnone : T.tab d = none) (f : ℕ) :
    (T.addTable d f).pgdir = Function.update T.pgdir d (some fun _ => none) := by
  funext k
  by_cases hk : k = d
  · subst hk
    have hempty : ∀ t < 1024, absPte (T.pte (1024 * k + t)) = none := by
      intro t ht
      rw [hT.noTab (by rwa [show (1024 * k + t) / 1024 = k by omega]), absPte_zero]
    simp only [Tables.pgdir, Tables.addTable, hd, if_true, Function.update_self, Option.map_some,
      Option.some.injEq]
    funext t
    split_ifs with ht
    · exact hempty t ht
    · rfl
  · simp [Tables.pgdir, Tables.addTable, hk]

/-- `*pte = w` -/
lemma pgdir_setPte (hn : va / PGSIZE = n) (hlt : n < userPages) (htab : T.tab (pdx va) = some f) :
    (T.setPte n w).pgdir = T.pgdir.setPte va (absPte w) := by
  have hd := pdx_lt_user hn hlt
  obtain ⟨hdn, htn⟩ := pdx_ptx hn
  funext k
  by_cases hk : k = pdx va
  · subst hk
    rw [Pgdir.setPte, Function.update_self, pgdir_of_some hd htab,
      pgdir_of_some (T := T.setPte n w) hd htab, Option.map_some]
    refine congrArg some (funext fun t => ?_)
    by_cases ht : t = ptx va
    · subst ht
      rw [Function.update_self, entry_eq_pte (T := T.setPte n w) hn]
      exact congrArg absPte (Function.update_self ..)
    · rw [Function.update_of_ne ht]
      split_ifs with hlt'
      · refine congrArg absPte (Function.update_of_ne ?_ _ _)
        rw [hdn]
        rw [htn] at ht
        omega
      · rfl
  · rw [Pgdir.setPte, Function.update_of_ne hk]
    simp only [Tables.pgdir, Tables.setPte]
    split_ifs with hlt'
    · refine congrArg (fun g => (T.tab k).map g) (funext fun _ => funext fun t => ?_)
      split_ifs with ht
      · rw [Function.update_of_ne]
        rw [hdn] at hk
        omega
      · rfl
    · rfl

end Pgdir

/-! ### The answers of `kalloc` -/

/-- The calls of `kalloc` from the `c`-th on are answered like this. -/
def Agrees (kalloc : ℕ → Option ℕ+) : ℕ → List (Option ℕ+) → Prop
  | _, [] => True
  | c, x :: l => kalloc c = x ∧ Agrees kalloc (c + 1) l

lemma agrees_append {kalloc : ℕ → Option ℕ+} {c : ℕ} {l l' : List (Option ℕ+)} :
    Agrees kalloc c (l ++ l') ↔ Agrees kalloc c l ∧ Agrees kalloc (c + l.length) l' := by
  induction l generalizing c with
  | nil => simp [Agrees]
  | cons x l ih =>
      simp only [List.cons_append, Agrees, ih, List.length_cons, and_assoc]
      rw [show c + 1 + l.length = c + (l.length + 1) by omega]

/-- Every sequence of answers is given by some allocator. -/
lemma exists_agrees (l : List (Option ℕ+)) (c : ℕ) : ∃ kalloc, Agrees kalloc c l := by
  induction l generalizing c with
  | nil => exact ⟨fun _ => none, trivial⟩
  | cons x l ih =>
      obtain ⟨kalloc, hk⟩ := ih (c + 1)
      have hlater : ∀ {l : List (Option ℕ+)} {k : ℕ}, c < k → Agrees kalloc k l →
          Agrees (Function.update kalloc c x) k l := by
        intro l
        induction l with
        | nil => exact fun _ _ => trivial
        | cons y l ih =>
            exact fun hck hl => ⟨(Function.update_of_ne (by omega) _ _).trans hl.1,
              ih (by omega) hl.2⟩
      exact ⟨Function.update kalloc c x, Function.update_self .., hlater (by omega) hk⟩

/-! ### Shrinking -/

section Refines

variable {L : Layout} {E : Stop → Prop} {T : Tables} {h : Heap ℕ Page} {a k oldsz newsz : ℕ}

/-- The loop of `deallocuvm`. -/
lemma deallocLoop_refines {Q : Unit → Heap ℕ Page → Prop} (hT : T.Rep L h)
    (hmod : a % PGSIZE = 0) (hold : oldsz ≤ KERNBASE) (hk : oldsz ≤ a + k * PGSIZE)
    (hQ : ∀ (T' : Tables) h', T'.dir = T.dir → T'.Rep L h' →
      T'.pgdir = Xv6Lottery.deallocLoop oldsz T.pgdir a → Q () h') :
    wp L.pages E Q (deallocLoop T.dir oldsz k a) h := by
  have hdone : ∀ {T : Tables} {a : ℕ}, oldsz ≤ a →
      T.pgdir = Xv6Lottery.deallocLoop oldsz T.pgdir a := by
    intro T a hle
    rw [Xv6Lottery.deallocLoop, if_neg (not_lt.mpr hle)]
  induction k generalizing T h a with
  | zero => exact hQ T h rfl hT (hdone (by simpa using hk))
  | succ k ih =>
      rw [deallocLoop]
      split_ifs with ha
      · obtain ⟨n, hn⟩ : ∃ n, a / PGSIZE = n := ⟨_, rfl⟩
        have hlt : n < userPages := by
          rw [← hn]
          exact ((lt_pagesOf_iff hmod).mpr ha).trans_le (pagesOf_kernbase ▸ pagesOf_mono hold)
        have hd := pdx_lt_user hn hlt
        have hmod' : (a + PGSIZE) % PGSIZE = 0 := by simpa using hmod
        have hk' : oldsz ≤ a + PGSIZE + k * PGSIZE := by
          simp only [PGSIZE] at *
          omega
        rw [wp_bind]
        refine unmapPage_tables hT hn hlt (fun htab => ?_) (fun f htab hp => ?_)
          fun f h' htab hp hT' _ => ?_
        · refine ih hT (by simp only [pgaddr, PGSIZE]; omega) ?_ fun T' h' hdir hT' hpg =>
            hQ T' h' hdir hT' ?_
          · have hnext : a + PGSIZE ≤ pgaddr (pdx a + 1) := by
              simp only [pgaddr, pdx, PGSIZE] at *
              omega
            omega
          · rw [hpg, Xv6Lottery.deallocLoop.eq_def oldsz T.pgdir a, if_pos ha]
            simp only [pgdir_of_none htab]
        · refine ih hT hmod' hk' fun T' h' hdir hT' hpg => hQ T' h' hdir hT' ?_
          rw [hpg, Xv6Lottery.deallocLoop.eq_def oldsz T.pgdir a, if_pos ha]
          simp only [pgdir_of_some hd htab, entry_eq_pte hn, absPte_eq_none hp,
            Option.isSome_none, Bool.false_eq_true, if_false]
        · refine ih (T := T.setPte n 0) hT' hmod' hk' fun T' h'' hdir hT'' hpg =>
            hQ T' h'' hdir hT'' ?_
          have hsome : (absPte (T.pte n)).isSome := by
            rw [absPte, dif_pos ⟨hp, (hT.page_of_present hlt hp).2⟩]
            rfl
          rw [hpg, pgdir_setPte hn hlt htab, absPte_zero,
            Xv6Lottery.deallocLoop.eq_def oldsz T.pgdir a, if_pos ha]
          simp only [pgdir_of_some hd htab, entry_eq_pte hn, hsome, if_true]
      · exact hQ T h rfl hT (hdone (not_lt.mp ha))

/-- `deallocuvm` -/
lemma deallocuvm_refines {Q : ℕ → Heap ℕ Page → Prop} (hT : T.Rep L h) (hold : oldsz ≤ KERNBASE)
    (hQ : ∀ (T' : Tables) h', T'.dir = T.dir → T'.Rep L h' →
      T'.pgdir = (Xv6Lottery.deallocuvm T.pgdir oldsz newsz).2 →
      Q (Xv6Lottery.deallocuvm T.pgdir oldsz newsz).1 h') :
    wp L.pages E Q (deallocuvm T.dir oldsz newsz) h := by
  rw [deallocuvm]
  rw [Xv6Lottery.deallocuvm] at hQ
  split_ifs at hQ ⊢ with hge
  · exact hQ T h rfl hT rfl
  · rw [wp_bind]
    refine deallocLoop_refines hT (pgroundup_mod newsz) hold ?_ hQ
    rw [pageCount_eq, pgroundup_eq]
    simp only [pagesOf_eq, PGSIZE]
    omega

/-! ### Growing -/

/-- The physical address of a page of the allocator. -/
def physAddr (v : ℕ) : Option ℕ+ := if h : 0 < v2p v then some ⟨v2p v, h⟩ else none

lemma absPte_entry {mem perm : ℕ} (hmem : mem ∈ L.pages) (hperm : perm < PGSIZE) :
    absPte (v2p mem ||| perm ||| PTE_P) = physAddr mem ∧ (physAddr mem).isSome := by
  obtain ⟨hp, ha, -⟩ := decode_entry (v2p_mod hmem) hperm
  have hpos : 0 < v2p mem := by
    have := L.base_lt
    have := hmem.2.1
    unfold v2p
    omega
  refine ⟨?_, by rw [physAddr, dif_pos hpos]; rfl⟩
  rw [absPte, physAddr, dif_pos ⟨hp, by rwa [ha]⟩, dif_pos hpos]
  simp only [ha]

/-- The answers of `kalloc` in `walkpgdir`: one if the page table is new. -/
lemma mappages_eq {T' : Tables} {n f w : ℕ} {pa : ℕ+} (hT : T.Rep L h) (hmod : a % PGSIZE = 0)
    (hn : a / PGSIZE = n) (hlt : n < userPages) (hnp : ¬ Present (T.pte n))
    (hwith : T.WithTable (pdx a) f T') (hf : f ∈ L.pages) (hw : absPte w = some pa) :
    ∃ l, ∀ kalloc c, Agrees kalloc c l →
      Xv6Lottery.mappages kalloc ⟨T.pgdir, c⟩ a PGSIZE pa =
        some (true, ⟨(T'.setPte n w).pgdir, c + l.length⟩) := by
  have hd := pdx_lt_user hn hlt
  have hset := pgdir_setPte (w := w) hn hlt hwith.tab
  rw [hw] at hset
  cases hwith with
  | old htab =>
      refine ⟨[], fun kalloc c _ => ?_⟩
      rw [Xv6Lottery.mappages_one hmod, mappagesLoop.eq_def]
      simp only [Xv6Lottery.walkpgdir, pgdir_of_some hd htab, entry_eq_pte hn, absPte_eq_none hnp,
        Option.isSome_none, Bool.false_eq_true, if_false, hset]
      rfl
  | new htab =>
      obtain ⟨x, hx⟩ := Option.isSome_iff_exists.mp (absPte_entry hf (by decide : 0 < _)).2
      refine ⟨[physAddr f], fun kalloc c hagree => ?_⟩
      have hk : kalloc c = some x := hagree.1.trans hx
      rw [Xv6Lottery.mappages_one hmod, mappagesLoop.eq_def]
      simp only [Xv6Lottery.walkpgdir, pgdir_of_none htab, Bool.true_eq_false, if_false, hk,
        Option.isSome_none, Bool.false_eq_true, hset, pgdir_addTable hT hd htab f]
      rfl

/-- `mappages` when there is no page for a page table. -/
lemma mappages_eq_false {kalloc : ℕ → Option ℕ+} {c : ℕ} {pa : ℕ+} (hmod : a % PGSIZE = 0)
    (htab : T.tab (pdx a) = none) (hk : kalloc c = none) :
    Xv6Lottery.mappages kalloc ⟨T.pgdir, c⟩ a PGSIZE pa = some (false, ⟨T.pgdir, c + 1⟩) := by
  rw [Xv6Lottery.mappages_one hmod, mappagesLoop.eq_def]
  simp only [Xv6Lottery.walkpgdir, pgdir_of_none htab, Bool.true_eq_false, if_false, hk]

/-- The loop of `allocuvm`. -/
lemma allocLoop_refines {Q : ℕ → Heap ℕ Page → Prop} (hT : T.Rep L h) (hnew : newsz < KERNBASE)
    (hmod : a % PGSIZE = 0) (hk : a / PGSIZE + k = pagesOf newsz)
    (hnone : ∀ n, a / PGSIZE ≤ n → n < pagesOf newsz → (T.view h).user n = none)
    (hQ : ∀ r (T' : Tables) h' l, T'.dir = T.dir → T'.Rep L h' →
      (∀ kalloc c, Agrees kalloc c l → Xv6Lottery.allocLoop kalloc oldsz newsz ⟨T.pgdir, c⟩ a =
        some (r, ⟨T'.pgdir, c + l.length⟩)) → Q r h') :
    wp L.pages E Q (allocLoop T.dir oldsz newsz k a) h := by
  induction k generalizing T h a with
  | zero =>
      refine hQ newsz T h [] rfl hT fun kalloc c _ => ?_
      have hge : ¬ a < newsz := by
        have : a / PGSIZE < pagesOf newsz ↔ a < newsz := lt_pagesOf_iff hmod
        omega
      rw [Xv6Lottery.allocLoop, if_neg hge]
      rfl
  | succ k ih =>
      have hnext : (a + PGSIZE) / PGSIZE = a / PGSIZE + 1 := by simp
      have hmod' : (a + PGSIZE) % PGSIZE = 0 := by simpa using hmod
      have ha : a < newsz := (lt_pagesOf_iff hmod).mp (by omega)
      obtain ⟨n, hn⟩ : ∃ n, a / PGSIZE = n := ⟨_, rfl⟩
      have hlt : n < userPages := by
        have := pagesOf_mono hnew.le
        rw [pagesOf_kernbase] at this
        omega
      have hempty : (T.view h).user n = none := hnone n (by omega) (by omega)
      rw [allocLoop, wp_bind, wp_kalloc]
      refine ⟨?_, fun mem hmem hsep c₀ => ?_⟩
      · rw [wp_bind]
        refine deallocuvm_refines hT hnew.le fun T' h' hdir hT' hpg => ?_
        refine hQ 0 T' h' [none] hdir hT' fun kalloc c hagree => ?_
        rw [Xv6Lottery.allocLoop, if_pos ha]
        simp only [hagree.1, hpg]
        rfl
      · obtain ⟨hword, hsome⟩ := absPte_entry hmem (by decide : PTE_W ||| PTE_U < _)
        obtain ⟨pa, hpa⟩ := Option.isSome_iff_exists.mp hsome
        rw [wp_bind, wp_clear]
        refine ⟨c₀, Function.update_self .., ?_⟩
        rw [Function.update_idem, ← Heap.union_single hsep, wp_bind, mappages_one hmod]
        refine mapPage_tables hT hn hlt hempty hmem hsep (by decide) (fun htab => ?_)
          fun T' f h' hwith hf hT' hview => ?_
        · -- no page for a page table
          refine wp_call (deallocuvm_refines (Q := fun _ h' => ∃ T' : Tables, T'.dir = T.dir ∧
            T'.Rep L h' ∧ T'.pgdir = (Xv6Lottery.deallocuvm T.pgdir newsz oldsz).2) hT hnew.le
            fun T' h' hdir hT' hpg => ⟨T', hdir, hT', hpg⟩) (Heap.disjoint_single hsep) ?_
          rintro _ h' ⟨T', hdir, hT', hpg⟩ hdisj
          have hsep' : h' mem = none := hdisj.single_none
          rw [wp_bind, wp_kfree]
          refine ⟨hmem, by rw [Heap.union_single_self hsep']; rfl, ?_⟩
          rw [Heap.free_single hsep']
          refine hQ 0 T' h' [some pa, none] hdir hT' fun kalloc c hagree => ?_
          rw [Xv6Lottery.allocLoop, if_pos ha]
          simp only [hagree.1, mappages_eq_false hmod htab hagree.2.1, hpg]
          rfl
        · obtain ⟨l, hl⟩ := mappages_eq hT hmod hn hlt (hT.not_present hlt hempty) hwith hf
            (hword.trans hpa)
          have hdir' : T.dir = (T'.setPte n (v2p mem ||| (PTE_W ||| PTE_U) ||| PTE_P)).dir :=
            hwith.dir.symm
          rw [hdir']
          refine ih (T := T'.setPte n (v2p mem ||| (PTE_W ||| PTE_U) ||| PTE_P)) hT' hmod'
            (by omega) ?_ ?_
          · intro m hlo hhi
            rw [hview]
            exact (Function.update_of_ne (by omega) _ _).trans (hnone m (by omega) hhi)
          · intro r T'' h'' l' hdir hT'' hrest
            refine hQ r T'' h'' (some pa :: (l ++ l')) (hdir.trans hwith.dir) hT'' ?_
            rintro kalloc c ⟨hfirst, hagree⟩
            obtain ⟨hagree, hagree'⟩ := agrees_append.mp hagree
            rw [Xv6Lottery.allocLoop, if_pos ha]
            simp only [hfirst, hl kalloc (c + 1) hagree, hrest kalloc _ hagree', List.length_cons,
              List.length_append]
            rw [show c + 1 + l.length + l'.length = c + (l.length + l'.length + 1) by omega]

/-- `allocuvm` -/
lemma allocuvm_refines {Q : ℕ → Heap ℕ Page → Prop} (hT : T.Rep L h) (hle : oldsz ≤ newsz)
    (hnone : ∀ n, pagesOf oldsz ≤ n → n < userPages → (T.view h).user n = none)
    (hQ : ∀ r (T' : Tables) h' l, T'.dir = T.dir → T'.Rep L h' →
      (∀ kalloc c, Agrees kalloc c l → Xv6Lottery.allocuvm kalloc ⟨T.pgdir, c⟩ oldsz newsz =
        some (r, ⟨T'.pgdir, c + l.length⟩)) → Q r h') :
    wp L.pages E Q (allocuvm T.dir oldsz newsz) h := by
  rw [allocuvm]
  simp only [Xv6Lottery.allocuvm] at hQ
  split_ifs at hQ ⊢ with hbig hsmall
  · exact hQ 0 T h [] rfl hT fun _ _ _ => rfl
  · exact absurd hle (not_le.mpr hsmall)
  · have hmono := pagesOf_mono hle
    have hmax : pagesOf newsz ≤ userPages := pagesOf_kernbase ▸ pagesOf_mono (by omega)
    refine allocLoop_refines hT (not_le.mp hbig) (pgroundup_mod oldsz) ?_ ?_ hQ
    · rw [show pgroundup oldsz / PGSIZE = pagesOf oldsz from rfl, pageCount_eq]
      omega
    · exact fun n hlo hhi => hnone n hlo (by omega)

/-- The code over page tables with some allocator answers `r`, leaves the size `sz` and the page
tables `T'`. -/
def Answered (T : Tables) (sz : ℕ) (n r : ℤ) (sz' : ℕ) (T' : Tables) : Prop :=
  ∃ kalloc calls, Xv6Lottery.growproc kalloc ⟨sz, ⟨T.pgdir, 0⟩⟩ n =
    some (r, ⟨sz', ⟨T'.pgdir, calls⟩⟩)

/-- **`growproc` over physical memory.** For every process whose address space has no pages from
its size on, every `int` and every sequence of answers of `kalloc`: the call returns without a
`panic`, the pages it has at the end are those of an address space again, and its answer, the new
size and the new page tables are those of `growproc` over page tables, for some allocator. -/
theorem growproc_refines {p : ProcMem} {n : ℤ} (hT : T.Rep L h) (hdir : T.dir = p.pgdir)
    (hsz : p.sz < KERNBASE) (hn : IsInt n)
    (hnone : ∀ k, pagesOf p.sz ≤ k → k < userPages → (T.view h).user k = none) :
    wp L.pages (fun _ => False) (fun res h' => ∃ T' : Tables, T'.dir = res.2.pgdir ∧
      T'.Rep L h' ∧ Answered T p.sz n res.1 res.2.sz T') (growproc p n) h := by
  obtain ⟨hmin, hmax⟩ := hn
  have hmin' : -2147483648 ≤ n := hmin
  have hmax' : n ≤ 2147483647 := hmax
  have hbase := kernbase_eq
  rw [growproc, ← hdir]
  by_cases hpos : n > 0
  · have huint : toUint (p.sz + n) = (p.sz + n).toNat := toUint_of_lt (by omega) (by omega)
    rw [if_pos hpos, wp_bind]
    refine allocuvm_refines hT (by omega) hnone fun r T' h' l hdir' hT' hcall => ?_
    obtain ⟨kalloc, hagree⟩ := exists_agrees l 0
    have hcall' := hcall kalloc 0 hagree
    split_ifs with hr
    · refine ⟨T', hdir'.trans hdir, hT', kalloc, 0 + l.length, ?_⟩
      simp only [Xv6Lottery.growproc, if_pos hpos, hcall', if_pos hr]
    · refine ⟨T', hdir', hT', kalloc, 0 + l.length, ?_⟩
      simp only [Xv6Lottery.growproc, if_pos hpos, hcall', if_neg hr]
  · rw [if_neg hpos]
    by_cases hneg : n < 0
    · rw [if_pos hneg, wp_bind]
      refine deallocuvm_refines hT hsz.le fun T' h' hdir' hT' hpg => ?_
      split_ifs with hr
      · refine ⟨T', hdir'.trans hdir, hT', fun _ => none, 0, ?_⟩
        simp only [Xv6Lottery.growproc, if_neg hpos, if_pos hneg, if_pos hr, hpg]
      · refine ⟨T', hdir', hT', fun _ => none, 0, ?_⟩
        simp only [Xv6Lottery.growproc, if_neg hpos, if_pos hneg, if_neg hr, hpg]
    · rw [if_neg hneg]
      refine ⟨T, hdir, hT, fun _ => none, 0, ?_⟩
      simp only [Xv6Lottery.growproc, if_neg hpos, if_neg hneg]

end Refines

/-- A process of size 0 on the small machine grows by two pages. -/
theorem growproc_refines_tiny :
    wp tiny.pages (fun _ => False) (fun res h' => ∃ T' : Tables, T'.dir = res.2.pgdir ∧
      T'.Rep tiny h' ∧ Answered (.bare (p2v PGSIZE)) 0 5000 res.1 res.2.sz T')
      (growproc ⟨p2v PGSIZE, 0, 0⟩ 5000) (Heap.single (p2v PGSIZE) fun _ => 0) :=
  growproc_refines (p := ⟨p2v PGSIZE, 0, 0⟩) (Tables.rep_bare ⟨by decide, by decide, by decide⟩)
    rfl (by decide) (by decide) fun k _ _ => by rw [Tables.view_bare]; rfl

end Xv6Lottery.Mem
