import Xv6Lottery.Mem.Pages

/-!
What the functions of `vm.c` do to the meaning of an address space, whatever `kalloc` answers.

* `deallocuvm_spec`, `freevm_spec`: pages are unmapped and freed, or all pages are given back.
* `kernelView`, `setupkvm_spec`: an address space with the kernel's mappings only; no row of
  `kmap` is mapped twice.
* `allocuvm_spec`, `copyuvm_spec`: pages of zeros, or a copy of the pages of another address
  space. When they fail, every page they had taken has been given back.
* `userLoad_spec`, `userStore_spec`: a user instruction reads or writes a page that is mapped for
  the user, and never the kernel's half.
-/

namespace Xv6Lottery.Mem

open Library

/-! ### Numbers of pages -/

/-- The number of pages of a process of size `sz`. -/
def pagesOf (sz : ℕ) : ℕ := pgroundup sz / PGSIZE

lemma pagesOf_eq (sz : ℕ) : pagesOf sz = (sz + 4095) / 4096 := by
  simp only [pagesOf, pgroundup, PGSIZE]
  omega

lemma pgroundup_eq (sz : ℕ) : pgroundup sz = pagesOf sz * 4096 := by
  simp only [pagesOf, pgroundup, PGSIZE]
  omega

lemma pageCount_eq (lo hi : ℕ) : pageCount lo hi = pagesOf hi - pagesOf lo := by
  simp only [pageCount, pgroundup_eq, PGSIZE]
  omega

lemma pagesOf_kernbase : pagesOf KERNBASE = userPages := rfl

lemma pagesOf_mono {a b : ℕ} (hab : a ≤ b) : pagesOf a ≤ pagesOf b := by
  simp only [pagesOf_eq]
  omega

/-- A page begins below `sz` if it is one of the first `pagesOf sz`. -/
lemma lt_pagesOf_iff {a sz : ℕ} (ha : a % PGSIZE = 0) : a / PGSIZE < pagesOf sz ↔ a < sz := by
  simp only [pagesOf_eq, PGSIZE] at *
  omega

/-! ### Freeing -/

section Spec

variable {L : Layout} {E : Stop → Prop} {T : Tables} {h : Heap ℕ Page} {v : View}
  {dir a k oldsz newsz : ℕ}

/-- The loop of `deallocuvm` unmaps the pages from `a` on below `oldsz`. -/
lemma deallocLoop_spec {Q : Unit → Heap ℕ Page → Prop} (hm : Maps L h dir v)
    (hmod : a % PGSIZE = 0) (hold : oldsz ≤ KERNBASE) (hk : oldsz ≤ a + k * PGSIZE)
    (hQ : ∀ h', Maps L h' dir (v.erase (a / PGSIZE) (pagesOf oldsz)) → Q () h') :
    wp L.pages E Q (deallocLoop dir oldsz k a) h := by
  have hdone : ∀ {h v a}, Maps L h dir v → a % PGSIZE = 0 → oldsz ≤ a →
      Maps L h dir (v.erase (a / PGSIZE) (pagesOf oldsz)) := by
    intro h v a hm hmod hle
    rwa [View.erase_of_none]
    intro n hlo hhi
    have := (lt_pagesOf_iff hmod).mp (hlo.trans_lt hhi)
    omega
  induction k generalizing h v a with
  | zero => exact hQ h (hdone hm hmod (by simpa using hk))
  | succ k ih =>
      rw [deallocLoop]
      split_ifs with ha
      · have hpage := (lt_pagesOf_iff hmod).mpr ha
        have huser : a / PGSIZE < userPages :=
          hpage.trans_le (pagesOf_kernbase ▸ pagesOf_mono hold)
        rw [wp_bind]
        refine unmapPage_spec hm hmod huser fun a' h' hlt hmod' hskip hm' => ?_
        refine ih hm' hmod' ?_ fun h'' hm'' => hQ h'' ?_
        · simp only [PGSIZE] at *
          omega
        · rwa [View.erase_erase hskip hlt hpage] at hm''
      · exact hQ h (hdone hm hmod (not_lt.mp ha))

/-- `deallocuvm` -/
lemma deallocuvm_spec {Q : ℕ → Heap ℕ Page → Prop} (hm : Maps L h dir v) (hlt : newsz < oldsz)
    (hold : oldsz ≤ KERNBASE)
    (hQ : ∀ h', Maps L h' dir (v.erase (pagesOf newsz) (pagesOf oldsz)) → Q newsz h') :
    wp L.pages E Q (deallocuvm dir oldsz newsz) h := by
  rw [deallocuvm, if_neg (not_le.mpr hlt), wp_bind]
  refine deallocLoop_spec hm (pgroundup_mod newsz) hold ?_ hQ
  rw [pageCount_eq, pgroundup_eq]
  simp only [pagesOf_eq, PGSIZE]
  omega

/-- The loop of `freevm` frees the page tables from `i` on; those before have been freed. -/
lemma freeTables_spec {Q : Unit → Heap ℕ Page → Prop} (hT : T.Rep L h) {i : ℕ} {h' : Heap ℕ Page}
    (hk : i + k = 1024) (hdir : h' T.dir = h T.dir)
    (hkeep : ∀ d g, i ≤ d → T.tab d = some g → h' g = h g)
    (hrest : ∀ g c, h' g = some c → g = T.dir ∨ ∃ d, i ≤ d ∧ T.tab d = some g)
    (hQ : ∀ c, Q () (Heap.single T.dir c)) :
    wp L.pages E Q (freeTables T.dir k i) h' := by
  obtain ⟨c, hc, hword⟩ := hT.dirPage
  induction k generalizing i h' with
  | zero =>
      suffices hsingle : h' = Heap.single T.dir c by
        rw [hsingle]
        exact hQ c
      funext g
      rcases eq_or_ne g T.dir with rfl | hg
      · simp [hdir, hc, Heap.single]
      · rw [Heap.single, Function.update_of_ne hg, Heap.empty, ← Option.not_isSome_iff_eq_none,
          Option.isSome_iff_exists]
        rintro ⟨c', hc'⟩
        rcases hrest g c' hc' with rfl | ⟨d, hd, htab⟩
        · exact hg rfl
        · have := (hT.tabPage htab).1
          omega
  | succ k ih =>
      rw [freeTables, wp_bind, wp_load]
      refine ⟨c, hdir.trans hc, ?_⟩
      rw [hword i (by omega)]
      cases htab : T.tab i with
      | none =>
          rw [if_neg not_present_pdeWord_none]
          refine ih (by omega) hdir (fun d g hd => hkeep d g (by omega)) fun g c' hg => ?_
          refine (hrest g c' hg).imp_right ?_
          rintro ⟨d, hd, hdg⟩
          refine ⟨d, ?_, hdg⟩
          have hne : d ≠ i := by
            rintro rfl
            simp [htab] at hdg
          omega
      | some f =>
          obtain ⟨hV, cf, hcf⟩ := hT.inHeap (r := .table i) htab
          obtain ⟨hp, ha⟩ := decode_pde hV
          have hne : T.dir ≠ f := hT.ne_of_role (r := .dir) rfl (q := .table i) htab (by simp)
          rw [if_pos hp, ha, wp_bind, wp_kfree]
          refine ⟨hV, by simp [hkeep i f le_rfl htab, hcf], ih (by omega) ?_ ?_ ?_⟩
          · rw [Function.update_of_ne hne, hdir]
          · intro d g hd hdg
            have hgf : g ≠ f := by
              refine hT.ne_of_role (r := .table d) hdg (q := .table i) htab ?_
              simp only [ne_eq, Role.table.injEq]
              omega
            rw [Function.update_of_ne hgf]
            exact hkeep d g (by omega) hdg
          · intro g c' hg
            rcases eq_or_ne g f with rfl | hgf
            · simp at hg
            · rw [Function.update_of_ne hgf] at hg
              refine (hrest g c' hg).imp_right ?_
              rintro ⟨d, hd, hdg⟩
              refine ⟨d, ?_, hdg⟩
              have hne : d ≠ i := by
                rintro rfl
                exact hgf (Option.some.inj (hdg.symm.trans htab))
              omega

lemma Maps.dir_mem (hm : Maps L h dir v) : dir ∈ L.pages := by
  obtain ⟨T, rfl, hT, -⟩ := hm
  exact (hT.inHeap (r := .dir) rfl).1

lemma ne_zero_of_mem {f : ℕ} (hf : f ∈ L.pages) : f ≠ 0 := by
  have := L.base_lt
  have := hf.2.1
  omega

/-- **`freevm` gives back all pages** of an address space. -/
lemma freevm_spec {Q : Unit → Heap ℕ Page → Prop} (hm : Maps L h dir v) (hQ : Q () Heap.empty) :
    wp L.pages E Q (freevm dir) h := by
  rw [freevm, if_neg (ne_zero_of_mem hm.dir_mem), wp_bind]
  refine deallocuvm_spec hm (by decide) le_rfl fun h' hm' => ?_
  obtain ⟨T, rfl, hT, hview⟩ := hm'
  have hV := (hT.inHeap (r := .dir) rfl).1
  have hnouser : ∀ n, T.page (.user n) = none := by
    intro n
    refine hT.view_user_eq_none.mp ?_
    rw [hview]
    by_cases hn : n < userPages
    · exact if_pos ⟨by simp [pagesOf_eq], by rwa [pagesOf_kernbase]⟩
    · exact (if_neg (by rw [pagesOf_kernbase]; omega)).trans (hm.user_eq_none (not_lt.mp hn))
  rw [wp_bind]
  refine freeTables_spec hT rfl rfl (fun _ _ _ _ => rfl) ?_ fun c => ?_
  · intro g c hg
    obtain ⟨r, hr⟩ := hT.role hg
    cases r with
    | dir => exact Or.inl (Option.some.inj hr).symm
    | table d => exact Or.inr ⟨d, Nat.zero_le d, hr⟩
    | user n => simp [hnouser n] at hr
  · rw [wp_kfree]
    refine ⟨hV, by simp [Heap.single], ?_⟩
    have hempty := Heap.free_single (h := Heap.empty) (f := T.dir) (c := c) rfl
    rw [Heap.empty_union] at hempty
    rwa [hempty]

end Spec

/-! ### The kernel's mappings -/

namespace View

/-- The pages from `n` on, `k` of them, mapped for the kernel to physical memory from `pa` on. -/
def mapRow (v : View) (n k pa perm : ℕ) : View :=
  { v with
    kernel := fun m =>
      if n ≤ m ∧ m < n + k then pa + (m - n) * PGSIZE ||| perm ||| PTE_P else v.kernel m }

/-- The rows of `kmap`. -/
def mapRows (v : View) (rows : List Kmap) : View :=
  rows.foldl (fun v k => v.mapRow (k.virt / PGSIZE) (k.size / PGSIZE) k.physStart k.perm) v

lemma mapRow_one (v : View) (n pa perm : ℕ) :
    v.mapKernel n (pa ||| perm ||| PTE_P) = v.mapRow n 1 pa perm := by
  ext m : 2
  · rfl
  · dsimp only [mapKernel, mapRow]
    by_cases hm : m = n
    · subst hm
      simp
    · rw [Function.update_of_ne hm, if_neg (by omega)]

lemma mapRow_succ (v : View) (n k pa perm : ℕ) :
    (v.mapKernel n (pa ||| perm ||| PTE_P)).mapRow (n + 1) k (pa + PGSIZE) perm =
      v.mapRow n (k + 1) pa perm := by
  ext m : 2
  · rfl
  · dsimp only [mapKernel, mapRow]
    by_cases hm : m = n
    · subst hm
      simp
    · rw [Function.update_of_ne hm]
      by_cases hin : n + 1 ≤ m ∧ m < n + 1 + k
      · rw [if_pos hin, if_pos (by omega)]
        congr 2
        simp only [PGSIZE]
        omega
      · rw [if_neg hin, if_neg (by omega)]

end View

/-- An address space with nothing in it. -/
def emptyView : View := ⟨fun _ => none, fun _ => 0⟩

/-- The meaning of a new address space. -/
def kernelView (L : Layout) : View := emptyView.mapRows L.kmap

/-- The kernel's mappings are not for the user. -/
lemma mapRows_flags {rows : List Kmap} (hok : ∀ k ∈ rows, k.Ok) {v : View}
    (hv : ∀ n, Present (v.kernel n) → pteFlags (v.kernel n) &&& PTE_U = 0) (n : ℕ) :
    Present ((v.mapRows rows).kernel n) →
      pteFlags ((v.mapRows rows).kernel n) &&& PTE_U = 0 := by
  induction rows generalizing v with
  | nil => exact hv n
  | cons k rows ih =>
      refine ih (fun k' hk' => hok k' (by simp [hk'])) fun m hm => ?_
      have hk := hok k (by simp)
      dsimp only [View.mapRow] at hm ⊢
      split_ifs at hm ⊢ with hin
      · have hpa : (k.physStart + (m - k.virt / PGSIZE) * PGSIZE) % PGSIZE = 0 := by
          have := hk.phys_mod
          simp only [PGSIZE] at *
          omega
        rw [(decode_entry hpa hk.perm_lt).2.2, Nat.and_or_distrib_right, hk.perm_user]
        rfl
      · exact hv m hm

lemma kernelView_flags (L : Layout) (n : ℕ) (hp : Present ((kernelView L).kernel n)) :
    pteFlags ((kernelView L).kernel n) &&& PTE_U = 0 :=
  mapRows_flags L.kmap_ok (fun _ h => absurd h (show ¬ Present 0 by decide)) n hp

section Spec

variable {L : Layout} {E : Stop → Prop} {T : Tables} {h : Heap ℕ Page} {v : View}
  {dir a k pa perm : ℕ}

/-- The loop of `mappages` for the kernel's half. -/
lemma mapLoop_kernel {Q : Bool → Heap ℕ Page → Prop} (hm : Maps L h dir v)
    (hmod : a % PGSIZE = 0) (hlo : userPages ≤ a / PGSIZE) (hhi : a / PGSIZE + k < 2 ^ 20)
    (hnone : ∀ n, a / PGSIZE ≤ n → n ≤ a / PGSIZE + k → v.kernel n = 0)
    (hfail : ∀ h' v', Maps L h' dir v' → Q false h')
    (hok : ∀ h', Maps L h' dir (v.mapRow (a / PGSIZE) (k + 1) pa perm) → Q true h') :
    wp L.pages E Q (mapLoop dir perm k a pa) h := by
  induction k generalizing h v a pa with
  | zero =>
      refine mapPage_kernel hm rfl hlo (by omega) (hnone _ le_rfl (by omega)) (hfail h v hm) ?_
      intro h' hm'
      rw [View.mapRow_one] at hm'
      exact hok h' hm'
  | succ k ih =>
      rw [mapLoop, wp_bind]
      refine mapPage_kernel hm rfl hlo (by omega) (hnone _ le_rfl (by omega)) (hfail h v hm) ?_
      intro h' hm'
      have hnext : (a + PGSIZE) / PGSIZE = a / PGSIZE + 1 := by simp
      have hmod' : (a + PGSIZE) % PGSIZE = 0 := by simpa using hmod
      refine ih hm' hmod' (by omega) (by omega) ?_ ?_
      · intro n hn hn'
        refine (Function.update_of_ne (by omega) _ _).trans (hnone n (by omega) (by omega))
      · intro h'' hm''
        rw [hnext, View.mapRow_succ] at hm''
        exact hok h'' hm''

/-- The number of pages of a row of `kmap`. -/
lemma Kmap.Ok.pages {r : Kmap} (hr : r.Ok) :
    pgrounddown r.virt = r.virt ∧
      (pgrounddown (r.virt + r.size - 1) - r.virt) / PGSIZE + 1 = r.size / PGSIZE := by
  obtain ⟨hv, -, hs, hpos, -⟩ := hr
  simp only [pgrounddown, PGSIZE] at *
  omega

/-- The loop of `setupkvm`: the rows do not overlap, so that nothing is mapped twice. -/
lemma mapKernel_spec {Q : Bool → Heap ℕ Page → Prop} {rows : List Kmap} (hm : Maps L h dir v)
    (hok : ∀ r ∈ rows, r.Ok) (hsorted : rows.Pairwise fun r r' => r.virt + r.size ≤ r'.virt)
    (hnone : ∀ r ∈ rows, ∀ n, r.virt / PGSIZE ≤ n → v.kernel n = 0)
    (hfail : ∀ h' v', Maps L h' dir v' → Q false h')
    (hQ : ∀ h', Maps L h' dir (v.mapRows rows) → Q true h') :
    wp L.pages E Q (mapKernel dir rows) h := by
  induction rows generalizing h v with
  | nil => exact hQ h hm
  | cons r rows ih =>
      have hr := hok r (by simp)
      obtain ⟨hdown, hcount⟩ := hr.pages
      obtain ⟨hfirst, hrest⟩ := List.pairwise_cons.mp hsorted
      have hlo : userPages ≤ r.virt / PGSIZE := by
        have hbase := hr.base_le
        have hsize := kernbase_eq
        simp only [PGSIZE]
        have : userPages = 524288 := rfl
        omega
      have hsum : (r.virt + r.size) / PGSIZE = r.virt / PGSIZE + r.size / PGSIZE := by
        have hv := hr.virt_mod
        simp only [PGSIZE] at *
        omega
      rw [mapKernel, wp_bind, mappages, hdown]
      refine mapLoop_kernel hm hr.virt_mod hlo ?_ (fun n hn _ => hnone r (by simp) n hn) hfail ?_
      · have htop := hr.le_top
        simp only [PGSIZE] at *
        omega
      · intro h' hm'
        rw [hcount] at hm'
        refine ih hm' (fun r' hr' => hok r' (by simp [hr'])) hrest ?_ hQ
        intro r' hr' n hn
        have hle : (r.virt + r.size) / PGSIZE ≤ r'.virt / PGSIZE :=
          Nat.div_le_div_right (hfirst r' hr')
        exact (if_neg (by omega)).trans (hnone r' (by simp [hr']) n hn)

/-- A page directory with nothing in it. -/
def Tables.bare (f : ℕ) : Tables := ⟨f, fun _ => none, fun _ => 0⟩

/-- A page of zeros is an address space with nothing in it. -/
lemma Tables.rep_bare {f : ℕ} (hf : f ∈ L.pages) :
    (Tables.bare f).Rep L (Heap.single f fun _ => 0) := by
  have hpage : ∀ {r g}, (Tables.bare f).page r = some g → r = .dir ∧ g = f := by
    intro r g hr
    cases r with
    | dir => exact ⟨rfl, (Option.some.inj hr).symm⟩
    | table d => cases hr
    | user n => simp [bare, page, userPage, show ¬ Present 0 by decide] at hr
  refine ⟨?_, ?_, ?_, ?_, ?_, ?_⟩
  · exact ⟨fun _ => 0, by simp [bare, Heap.single], fun _ _ => rfl⟩
  · intro d g hd
    cases hd
  · exact fun _ => rfl
  · intro g c hg
    refine ⟨.dir, ?_⟩
    rcases eq_or_ne g f with rfl | hne
    · rfl
    · simp [Heap.single, hne, Heap.empty] at hg
  · intro r g hr
    obtain ⟨-, rfl⟩ := hpage hr
    exact ⟨hf, fun _ => 0, by simp [Heap.single]⟩
  · intro r r' g hr hr'
    rw [(hpage hr).1, (hpage hr').1]

lemma Tables.view_bare (f : ℕ) (h : Heap ℕ Page) : (Tables.bare f).view h = emptyView := by
  ext n : 2
  · simp [bare, Tables.view, page, userPage, emptyView, show ¬ Present 0 by decide]
  · simp [bare, Tables.view, emptyView]

lemma maps_new {f : ℕ} (hf : f ∈ L.pages) :
    Maps L (Heap.single f fun _ => 0) f emptyView :=
  ⟨.bare f, rfl, Tables.rep_bare hf, Tables.view_bare f _⟩

/-- **`setupkvm`** makes an address space with the kernel's mappings, or takes no page. -/
lemma setupkvm_spec {Q : Option ℕ → Heap ℕ Page → Prop} (hnone : Q none Heap.empty)
    (hsome : ∀ h d, Maps L h d (kernelView L) → Q (some d) h) :
    wp L.pages E Q (setupkvm L) Heap.empty := by
  rw [setupkvm, wp_bind, wp_kalloc]
  refine ⟨hnone, fun f hf _ c => ?_⟩
  rw [wp_bind, wp_clear]
  refine ⟨c, Function.update_self .., ?_⟩
  rw [Function.update_idem, if_neg (not_lt.mpr L.phystop_le), wp_bind]
  refine mapKernel_spec (maps_new hf) L.kmap_ok L.kmap_sorted (fun _ _ _ _ => rfl) ?_ ?_
  · intro h' v' hm'
    exact wp_bind.mpr (freevm_spec hm' hnone)
  · exact fun h' hm' => hsome h' f hm'

/-! ### Growing -/

/-- One page is mapped. -/
lemma mappages_one (hmod : a % PGSIZE = 0) :
    mappages dir a PGSIZE pa perm = mapPage dir a pa perm := by
  have hlast : (pgrounddown (a + PGSIZE - 1) - pgrounddown a) / PGSIZE = 0 := by
    simp only [pgrounddown, PGSIZE] at *
    omega
  have hfirst : pgrounddown a = a := by
    simp only [pgrounddown, PGSIZE] at *
    omega
  rw [mappages, hlast, hfirst, mapLoop]

variable {oldsz newsz : ℕ}

/-- The loop of `allocuvm`. -/
lemma allocLoop_spec {Q : ℕ → Heap ℕ Page → Prop} (hnew : newsz < KERNBASE)
    (hnone : ∀ n, pagesOf oldsz ≤ n → n < pagesOf newsz → v.user n = none)
    (hm : Maps L h dir (v.fill (pagesOf oldsz) (a / PGSIZE))) (hmod : a % PGSIZE = 0)
    (hlo : pagesOf oldsz ≤ a / PGSIZE) (hk : a / PGSIZE + k = pagesOf newsz)
    (hfail : ∀ h', Maps L h' dir v → Q 0 h')
    (hok : ∀ h', Maps L h' dir (v.fill (pagesOf oldsz) (pagesOf newsz)) → Q newsz h') :
    wp L.pages E Q (allocLoop dir oldsz newsz k a) h := by
  induction k generalizing h a with
  | zero =>
      rw [Nat.add_zero] at hk
      rw [hk] at hm
      exact hok h hm
  | succ k ih =>
      have hnext : (a + PGSIZE) / PGSIZE = a / PGSIZE + 1 := by simp
      have hmod' : (a + PGSIZE) % PGSIZE = 0 := by simpa using hmod
      have hlt : oldsz < newsz := by
        by_contra hge
        have := pagesOf_mono (not_lt.mp hge)
        omega
      have huser : a / PGSIZE < userPages := by
        have := pagesOf_mono hnew.le
        rw [pagesOf_kernbase] at this
        omega
      -- what has been mapped so far is unmapped again
      have hundo : ∀ {h'}, Maps L h' dir ((v.fill (pagesOf oldsz) (a / PGSIZE)).erase
          (pagesOf oldsz) (pagesOf newsz)) → Maps L h' dir v := by
        intro h' hm'
        rwa [View.erase_fill hnone (by omega)] at hm'
      rw [allocLoop, wp_bind, wp_kalloc]
      refine ⟨?_, fun mem hmem hsep c => ?_⟩
      · rw [wp_bind]
        exact deallocuvm_spec hm hlt hnew.le fun h' hm' => hfail h' (hundo hm')
      · rw [wp_bind, wp_clear]
        refine ⟨c, Function.update_self .., ?_⟩
        rw [Function.update_idem, ← Heap.union_single hsep, wp_bind, mappages_one hmod]
        refine mapPage_user hm rfl huser ?_ hmem hsep (by decide) ?_
          fun T' h' hdir hT' hview _ => ?_
        · exact (if_neg (by omega)).trans (hnone _ hlo (by omega))
        · refine wp_call (deallocuvm_spec (Q := fun _ h' => Maps L h' dir v) hm hlt hnew.le
            fun h' hm' => hundo hm') (Heap.disjoint_single hsep) fun _ h' hm' hdisj => ?_
          have hsep' : h' mem = none := hdisj.single_none
          rw [wp_bind, wp_kfree]
          refine ⟨hmem, by rw [Heap.union_single_self hsep']; rfl, ?_⟩
          rw [Heap.free_single hsep']
          exact hfail h' hm'
        · rw [View.map_fill hlo, ← hnext] at hview
          exact ih ⟨T', hdir, hT', hview⟩ hmod' (by omega) (by omega)

/-- **`allocuvm`** maps pages of zeros up to the new size, or changes nothing. -/
lemma allocuvm_spec {Q : ℕ → Heap ℕ Page → Prop} (hm : Maps L h dir v) (hle : oldsz ≤ newsz)
    (hnone : ∀ n, pagesOf oldsz ≤ n → n < pagesOf newsz → v.user n = none)
    (hfail : ∀ h', Maps L h' dir v → Q 0 h')
    (hok : newsz < KERNBASE → ∀ h', Maps L h' dir (v.fill (pagesOf oldsz) (pagesOf newsz)) →
      Q newsz h') :
    wp L.pages E Q (allocuvm dir oldsz newsz) h := by
  rw [allocuvm]
  by_cases hbig : newsz ≥ KERNBASE
  · rw [if_pos hbig]
    exact hfail h hm
  · have hmono := pagesOf_mono hle
    rw [if_neg hbig, if_neg (not_lt.mpr hle)]
    refine allocLoop_spec (not_le.mp hbig) hnone ?_ (pgroundup_mod oldsz) le_rfl ?_ hfail
      (hok (not_le.mp hbig))
    · rw [show pgroundup oldsz / PGSIZE = pagesOf oldsz from rfl, View.fill_self]
      exact hm
    · rw [show pgroundup oldsz / PGSIZE = pagesOf oldsz from rfl, pageCount_eq]
      omega

/-! ### Copying -/

/-- The first `n` user pages of an address space, with the kernel's mappings. -/
def View.copied (L : Layout) (v : View) (n : ℕ) : View where
  user m := if m < n then v.user m else none
  kernel := (kernelView L).kernel

lemma View.copied_succ {n fl : ℕ} {c : Page} (hn : v.user n = some (fl, c)) :
    (v.copied L n).map n fl c = v.copied L (n + 1) := by
  ext m : 2
  · by_cases hm : m = n
    · subst hm
      simp [View.map, View.copied, hn]
    · have hiff : m < n + 1 ↔ m < n := by omega
      simp only [View.map, View.copied, Function.update_of_ne hm, hiff]
  · rfl

lemma kernelView_user (n : ℕ) : (kernelView L).user n = none := by
  have hrows : ∀ (rows : List Kmap) (v : View), (v.mapRows rows).user = v.user := by
    intro rows
    induction rows with
    | nil => exact fun _ => rfl
    | cons r rows ih => exact fun v => (ih _).trans rfl
  exact congrFun (hrows L.kmap emptyView) n

lemma View.copied_zero : v.copied L 0 = kernelView L := by
  ext n : 2
  · rw [kernelView_user]
    simp [View.copied]
  · rfl

/-- The flags in an entry that is present say so. -/
lemma pteFlags_or_present {w : ℕ} (hp : Present w) : pteFlags w ||| PTE_P = pteFlags w := by
  rw [present_iff] at hp
  obtain ⟨x, hx⟩ : ∃ x, pteFlags w = 2 ^ 1 * x + 1 := by
    refine ⟨pteFlags w / 2, ?_⟩
    simp only [pteFlags, PGSIZE]
    omega
  rw [hx, Nat.two_pow_add_eq_or_of_lt (by decide) x, Nat.or_assoc, Nat.or_self]

variable {hc : Heap ℕ Page} {d i n : ℕ}

/-- The loop of `copyuvm`: the parent's pages stay as they are. -/
lemma copyLoop_spec {Q : Bool → Heap ℕ Page → Prop} (hm : Maps L h dir v)
    (hall : ∀ m < n + k, v.user m ≠ none) (hmax : n + k ≤ userPages)
    (hmc : Maps L hc d (v.copied L n)) (hdisj : h.Disjoint hc) (hi : i = n * PGSIZE)
    (hfail : ∀ hc' v', Maps L hc' d v' → h.Disjoint hc' → Q false (h.union hc'))
    (hok : ∀ hc', Maps L hc' d (v.copied L (n + k)) → h.Disjoint hc' → Q true (h.union hc')) :
    wp L.pages E Q (copyLoop dir d k i) (h.union hc) := by
  induction k generalizing hc n i with
  | zero => exact hok hc hmc hdisj
  | succ k ih =>
      obtain ⟨T, rfl, hT, rfl⟩ := hm
      have hmod : i % PGSIZE = 0 := by rw [hi]; exact Nat.mul_mod_left ..
      have hnum : i / PGSIZE = n := by rw [hi]; exact Nat.mul_div_cancel _ (by decide)
      have huser : n < userPages := by omega
      obtain ⟨hd, ht⟩ := pdx_ptx hnum
      -- the parent's page is mapped
      obtain ⟨src, hsrc⟩ : ∃ src, T.page (.user n) = some src := by
        rw [← Option.isSome_iff_exists, Option.isSome_iff_ne_none]
        exact fun hnone => hall n (by omega) (hT.view_user_eq_none.mpr hnone)
      obtain ⟨cs, hcs, hview⟩ := hT.view_user hsrc
      obtain ⟨hp, hpage⟩ : Present (T.pte n) ∧ p2v (pteAddr (T.pte n)) = src := by
        simp only [Tables.page, userPage, huser, true_and] at hsrc
        split_ifs at hsrc with hp
        exact ⟨hp, Option.some.inj hsrc⟩
      obtain ⟨f, htab⟩ : ∃ f, T.tab (n / 1024) = some f := by
        rw [← Option.isSome_iff_exists, Option.isSome_iff_ne_none]
        intro hnone
        rw [hT.noTab hnone] at hp
        exact absurd hp (by decide)
      obtain ⟨ct, hct, hword⟩ := hT.load_pte htab
      rw [copyLoop]
      refine wp_call (walkpgdir_find (Q := fun res h' => res = some (f, ptx i) ∧ h' = h) hT
        (lt_of_page hnum (huser.trans (by decide))) ⟨by rw [hd, htab]; rfl, rfl⟩) hdisj ?_
      rintro _ _ ⟨rfl, hsame⟩ -
      rw [hsame]
      dsimp only
      rw [wp_bind, wp_load, ht]
      refine ⟨ct, Heap.union_of_some hct, ?_⟩
      rw [hword, if_neg (not_not_intro hp), wp_bind, wp_kalloc]
      refine ⟨hfail hc _ hmc hdisj, fun mem hmem hsep c => ?_⟩
      obtain ⟨hsep₁, hsep₂⟩ := Heap.union_eq_none.mp hsep
      have hne : src ≠ mem := by
        rintro rfl
        simp [hcs] at hsep₁
      -- the new page is set aside for the child
      have hsplit : Function.update (h.union hc) mem (some cs) =
          (hc.union (Heap.single mem cs)).union h := by
        rw [Heap.union_single hsep₂, hdisj.union_comm, Heap.update_union _ hsep₁]
      have hdisj' : (hc.union (Heap.single mem cs)).Disjoint h :=
        hdisj.symm.union_left (Heap.disjoint_single hsep₁).symm
      rw [wp_bind, wp_copy, hpage]
      refine ⟨cs, by rw [Function.update_of_ne hne, Heap.union_of_some hcs], c,
        Function.update_self .., ?_⟩
      rw [Function.update_idem, hsplit, mappages_one hmod]
      refine wp_call (mapPage_user (Q := fun res h' =>
          (res = false ∧ h' = hc.union (Heap.single mem cs)) ∨
          res = true ∧ Maps L h' d ((T.view h).copied L (n + 1))) hmc hnum huser
        (if_neg (by omega)) hmem hsep₂ (Nat.mod_lt _ (by decide)) (Or.inl ⟨rfl, rfl⟩)
        fun T' h' hdir hT' hview' _ => Or.inr ⟨rfl, T', hdir, hT', ?_⟩) hdisj' ?_
      · rwa [pteFlags_or_present hp, View.copied_succ hview] at hview'
      · rintro res h' (⟨rfl, rfl⟩ | ⟨rfl, hm'⟩) hdisj''
        · rw [if_neg (by simp), wp_bind, wp_kfree]
          refine ⟨hmem, ?_, ?_⟩
          · rw [Heap.union_of_some (Heap.union_single_self hsep₂)]
            rfl
          · rw [Heap.update_union _ hsep₁, Heap.free_single hsep₂, hdisj.symm.union_comm]
            exact hfail hc _ hmc hdisj
        · rw [if_pos rfl, hdisj''.union_comm]
          refine ih ?_ (by omega) hm' hdisj''.symm ?_ ?_
          · exact fun m hmlt => hall m (by omega)
          · rw [hi]
            simp only [PGSIZE]
            omega
          · rw [show n + 1 + k = n + (k + 1) by omega]
            exact hok

/-- **`copyuvm`** makes a copy of the pages below `sz`, or takes no page. -/
lemma copyuvm_spec {Q : Option ℕ → Heap ℕ Page → Prop} {sz : ℕ} (hm : Maps L h dir v)
    (hsz : sz ≤ KERNBASE) (hall : ∀ m < pagesOf sz, v.user m ≠ none) (hfail : Q none h)
    (hok : ∀ hc d, Maps L hc d (v.copied L (pagesOf sz)) → h.Disjoint hc →
      Q (some d) (h.union hc)) :
    wp L.pages E Q (copyuvm L dir sz) h := by
  have hmax : pagesOf sz ≤ userPages := pagesOf_kernbase ▸ pagesOf_mono hsz
  have hcount : pageCount 0 sz = pagesOf sz := by
    rw [pageCount_eq]
    rfl
  rw [copyuvm, ← Heap.empty_union (r := h)]
  refine wp_call (setupkvm_spec (Q := fun res h' => (res = none ∧ h' = Heap.empty) ∨
    ∃ d, res = some d ∧ Maps L h' d (kernelView L)) (Or.inl ⟨rfl, rfl⟩)
    fun h' d hm' => Or.inr ⟨d, rfl, hm'⟩) Heap.Disjoint.empty_left ?_
  rintro res hc (⟨rfl, rfl⟩ | ⟨d, rfl, hmc⟩) hdisj
  · exact hfail
  · rw [hdisj.union_comm]
    dsimp only
    rw [wp_bind, hcount]
    refine copyLoop_spec (n := 0) hm (by simpa using hall) (by simpa using hmax)
      (by rwa [View.copied_zero]) hdisj.symm (by simp) ?_ ?_
    · intro hc' v' hmc' hdisj'
      rw [if_neg (by simp), hdisj'.union_comm]
      refine wp_call (freevm_spec (Q := fun _ h' => h' = Heap.empty) hmc' rfl) hdisj'.symm ?_
      rintro _ _ rfl -
      exact hfail
    · intro hc' hmc' hdisj'
      rw [Nat.zero_add] at hmc'
      exact hok hc' d hmc' hdisj'

/-! ### User instructions -/

/-- The contents of the user page at `va`, if it has the flags `need`. -/
def View.access (v : View) (va need : ℕ) : Option Page :=
  match v.user (va / PGSIZE) with
  | none => none
  | some (fl, c) => if fl &&& need = need then some c else none

/-- What a user program reads at `va`. -/
def View.load (v : View) (va : ℕ) : Option ℕ :=
  (v.access va PTE_U).map fun c => c (va % PGSIZE / 4)

/-- The memory after a user program has written to `va`. -/
def View.store (v : View) (va w : ℕ) : View :=
  match v.user (va / PGSIZE) with
  | none => v
  | some (fl, c) =>
      if fl &&& (PTE_W ||| PTE_U) = PTE_W ||| PTE_U then
        v.map (va / PGSIZE) fl (Function.update c (va % PGSIZE / 4) w)
      else v

/-- The hardware finds the user pages with the flags `need`, and no page of the kernel. -/
lemma translate_spec {Q : Option (ℕ × ℕ) → Heap ℕ Page → Prop} {va need : ℕ} (hT : T.Rep L h)
    (hkernel : (T.view h).kernel = (kernelView L).kernel) (hva : va < 2 ^ 32)
    (hneed : need &&& PTE_U = PTE_U)
    (hfault : (∀ f, T.page (.user (va / PGSIZE)) = some f →
      pteFlags (T.pte (va / PGSIZE)) &&& need ≠ need) → Q none h)
    (hok : ∀ f, T.page (.user (va / PGSIZE)) = some f →
      pteFlags (T.pte (va / PGSIZE)) &&& need = need → Q (some (f, va % PGSIZE / 4)) h) :
    wp L.pages E Q (translate T.dir va need) h := by
  obtain ⟨n, hn⟩ : ∃ n, va / PGSIZE = n := ⟨_, rfl⟩
  obtain ⟨hd, ht⟩ := pdx_ptx hn
  rw [hn] at hfault hok
  rw [translate, wp_bind]
  refine walkpgdir_find hT hva ?_
  rw [hd, ht]
  cases htab : T.tab (n / 1024) with
  | none =>
      refine hfault fun f hf => ?_
      have hp : ¬ Present 0 := by decide
      simp [Tables.page, userPage, hT.noTab htab, hp] at hf
  | some f =>
      obtain ⟨ct, hct, hword⟩ := hT.load_pte htab
      rw [Option.map_some]
      dsimp only
      rw [wp_bind, wp_load]
      refine ⟨ct, hct, ?_⟩
      rw [hword]
      by_cases huser : n < userPages
      · by_cases hp : Present (T.pte n)
        · have hpage : T.page (.user n) = some (p2v (pteAddr (T.pte n))) := by
            simp [Tables.page, userPage, huser, hp]
          by_cases hfl : pteFlags (T.pte n) &&& need = need
          · rw [if_pos ⟨hp, hfl⟩]
            exact hok _ hpage hfl
          · rw [if_neg fun hand => hfl hand.2]
            exact hfault fun _ _ => hfl
        · rw [if_neg fun hand => hp hand.1]
          refine hfault fun g hg => ?_
          simp [Tables.page, userPage, hp] at hg
      · -- an entry for the kernel does not have `PTE_U`
        have hpte : T.pte n = (kernelView L).kernel n := by
          rw [← hkernel]
          exact (if_neg huser).symm
        have hno : ¬ (Present (T.pte n) ∧ pteFlags (T.pte n) &&& need = need) := by
          rintro ⟨hp, hfl⟩
          rw [hpte] at hp hfl
          have hzero := kernelView_flags L n hp
          have hbit : need &&& PTE_U = 0 := by
            rw [← hfl, Nat.and_assoc, Nat.and_comm need, ← Nat.and_assoc, hzero, Nat.zero_and]
          rw [hneed] at hbit
          cases hbit
        rw [if_neg hno]
        refine hfault fun g hg => ?_
        simp [Tables.page, userPage, huser] at hg

variable {va : ℕ}

/-- **A user program reads** what its own page has. -/
lemma userLoad_spec {Q : Option ℕ → Heap ℕ Page → Prop} (hm : Maps L h dir v)
    (hkernel : v.kernel = (kernelView L).kernel) (hva : va < 2 ^ 32) (hQ : Q (v.load va) h) :
    wp L.pages E Q (userLoad dir va) h := by
  obtain ⟨T, rfl, hT, rfl⟩ := hm
  rw [userLoad, wp_bind]
  refine translate_spec hT hkernel hva (by decide) ?_ ?_
  · intro hno
    have hnone : (T.view h).load va = none := by
      rw [View.load, View.access]
      cases hpage : T.page (.user (va / PGSIZE)) with
      | none => rw [hT.view_user_eq_none.mpr hpage]; rfl
      | some f =>
          obtain ⟨c, -, hview⟩ := hT.view_user hpage
          rw [hview]
          dsimp only
          rw [if_neg (hno f hpage)]
          rfl
    exact hnone ▸ hQ
  · intro f hf hfl
    obtain ⟨c, hc, hview⟩ := hT.view_user hf
    have hsome : (T.view h).load va = some (c (va % PGSIZE / 4)) := by
      rw [View.load, View.access, hview]
      dsimp only
      rw [if_pos hfl]
      rfl
    dsimp only
    rw [wp_bind, wp_load]
    exact ⟨c, hc, hsome ▸ hQ⟩

/-- **A user program writes** to its own page, if it may. -/
lemma userStore_spec {Q : Bool → Heap ℕ Page → Prop} {w : ℕ} (hm : Maps L h dir v)
    (hkernel : v.kernel = (kernelView L).kernel) (hva : va < 2 ^ 32)
    (hQ : ∀ h', Maps L h' dir (v.store va w) →
      Q (v.access va (PTE_W ||| PTE_U)).isSome h') :
    wp L.pages E Q (userStore dir va w) h := by
  obtain ⟨T, rfl, hT, rfl⟩ := hm
  rw [userStore, wp_bind]
  refine translate_spec hT hkernel hva (by decide) ?_ ?_
  · intro hno
    have hnone : ((T.view h).access va (PTE_W ||| PTE_U)).isSome = false ∧
        (T.view h).store va w = T.view h := by
      rw [View.access, View.store]
      cases hpage : T.page (.user (va / PGSIZE)) with
      | none => rw [hT.view_user_eq_none.mpr hpage]; exact ⟨rfl, rfl⟩
      | some f =>
          obtain ⟨c, -, hview⟩ := hT.view_user hpage
          rw [hview]
          dsimp only
          rw [if_neg (hno f hpage), if_neg (hno f hpage)]
          exact ⟨rfl, rfl⟩
    have hQ' := hQ h
    rw [hnone.1, hnone.2] at hQ'
    exact hQ' ⟨T, rfl, hT, rfl⟩
  · intro f hf hfl
    obtain ⟨c, hc, hview⟩ := hT.view_user hf
    dsimp only
    rw [wp_bind, wp_store]
    refine ⟨c, hc, ?_⟩
    have hsome : ((T.view h).access va (PTE_W ||| PTE_U)).isSome = true := by
      rw [View.access, hview]
      dsimp only
      rw [if_pos hfl]
      rfl
    have hQ' := hQ (Function.update h f (some (Function.update c (va % PGSIZE / 4) w)))
    rw [hsome] at hQ'
    refine hQ' ⟨T, rfl, hT.setUser hf _, ?_⟩
    rw [hT.view_setUser hf, View.store, hview]
    dsimp only
    rw [if_pos hfl]
    rfl

end Spec

end Xv6Lottery.Mem
