import Xv6Lottery.Mem.Tables

/-!
What `vm.c` does to the meaning of an address space, one page at a time.

* `View.map`, `View.mapKernel`, `View.erase`, `View.fill`: a page is mapped, an entry for the
  kernel is made, pages are unmapped, or filled with zeros.
* `wp_load`, `wp_store`, `wp_kalloc`, `wp_kfree`, …: the calls of kernel code over its own pages.
* `walkpgdir_find`, `walkpgdir_make`: the two uses of `walkpgdir`.
* `mapPage_tables`, `mapPage_kernel`, `unmapPage_tables`: one turn of the loops of `mappages` and
  `deallocuvm`, whatever `kalloc` answers. `mapPage_user`, `unmapPage_spec` are the same for those
  who need not know the page tables.
-/

namespace Xv6Lottery.Mem

open Library

/-! ### Meanings -/

namespace View

/-- The user page `n` with flags and contents. -/
def map (v : View) (n fl : ℕ) (c : Page) : View :=
  { v with user := Function.update v.user n (some (fl, c)) }

/-- An entry of the kernel's half. -/
def mapKernel (v : View) (n w : ℕ) : View := { v with kernel := Function.update v.kernel n w }

/-- No user pages from `lo` on below `hi`. -/
def erase (v : View) (lo hi : ℕ) : View :=
  { v with user := fun n => if lo ≤ n ∧ n < hi then none else v.user n }

/-- The flags of the pages that `allocuvm` maps. -/
abbrev fresh : ℕ := PTE_W ||| PTE_U ||| PTE_P

/-- Pages of zeros from `lo` on below `hi`. -/
def fill (v : View) (lo hi : ℕ) : View :=
  { v with user := fun n => if lo ≤ n ∧ n < hi then some (fresh, fun _ => 0) else v.user n }

variable {v : View} {a b c n : ℕ}

lemma erase_of_none (hnone : ∀ n, a ≤ n → n < b → v.user n = none) : v.erase a b = v := by
  ext n : 2
  · dsimp only [erase]
    split_ifs with hn
    · exact (hnone n hn.1 hn.2).symm
    · rfl
  · rfl

/-- Pages are unmapped one after another; those skipped are not mapped. -/
lemma erase_erase (hnone : ∀ n, a ≤ n → n < b → (v.erase a (a + 1)).user n = none)
    (hab : a < b) (hac : a < c) : (v.erase a (a + 1)).erase b c = v.erase a c := by
  ext n : 2
  · by_cases hn : a ≤ n ∧ n < c
    · rw [show (v.erase a c).user n = none from if_pos hn]
      by_cases hb : b ≤ n
      · exact if_pos ⟨hb, hn.2⟩
      · exact (if_neg (by omega)).trans (hnone n hn.1 (by omega))
    · rw [show (v.erase a c).user n = v.user n from if_neg hn]
      exact (if_neg (by omega)).trans (if_neg (by omega))
  · rfl

/-- Pages are filled one after another. -/
lemma map_fill (hab : a ≤ b) : (v.fill a b).map b fresh (fun _ => 0) = v.fill a (b + 1) := by
  ext n : 2
  · by_cases hn : n = b
    · subst hn
      simp [map, fill, hab]
    · have hiff : (a ≤ n ∧ n < b + 1) ↔ (a ≤ n ∧ n < b) := by omega
      simp only [map, fill, Function.update_of_ne hn, hiff]
  · rfl

/-- A growth is undone. -/
lemma erase_fill (hnone : ∀ n, a ≤ n → n < c → v.user n = none) (hbc : b ≤ c) :
    (v.fill a b).erase a c = v := by
  ext n : 2
  · by_cases hn : a ≤ n ∧ n < c
    · exact (if_pos hn).trans (hnone n hn.1 hn.2).symm
    · exact (if_neg hn).trans (if_neg (by omega))
  · rfl

lemma fill_self : v.fill a a = v := by
  ext n : 2
  · exact if_neg (by omega)
  · rfl

end View

/-! ### Kernel code over its own pages -/

section Wp

variable {V : Set ℕ} {E : Stop → Prop} {h : Heap ℕ Page} {v i w : ℕ}

@[simp] lemma wp_pure {α : Type} {Q : α → Heap ℕ Page → Prop} {a : α} :
    wp V E Q (pure a : Kern α) h ↔ Q a h := Iff.rfl

@[simp] lemma wp_panic {α : Type} {Q : α → Heap ℕ Page → Prop} {msg : String} :
    wp V E Q (Kern.panic msg : Kern α) h ↔ E (.panic msg) := Iff.rfl

@[simp] lemma wp_load {Q : ℕ → Heap ℕ Page → Prop} :
    wp V E Q (Kern.load v i) h ↔ ∃ c, h v = some c ∧ Q (c i) h := Iff.rfl

@[simp] lemma wp_store {Q : Unit → Heap ℕ Page → Prop} :
    wp V E Q (Kern.store v i w) h ↔
      ∃ c, h v = some c ∧ Q () (Function.update h v (some (Function.update c i w))) := Iff.rfl

@[simp] lemma wp_clear {Q : Unit → Heap ℕ Page → Prop} :
    wp V E Q (Kern.clear v) h ↔
      ∃ c, h v = some c ∧ Q () (Function.update h v (some fun _ => 0)) := Iff.rfl

@[simp] lemma wp_copy {Q : Unit → Heap ℕ Page → Prop} {src : ℕ} :
    wp V E Q (Kern.copy v src) h ↔
      ∃ c, h src = some c ∧ ∃ c', h v = some c' ∧ Q () (Function.update h v (some c)) := Iff.rfl

@[simp] lemma wp_kalloc {Q : Option ℕ → Heap ℕ Page → Prop} :
    wp V E Q Kern.kalloc h ↔
      Q none h ∧ ∀ f ∈ V, h f = none → ∀ c, Q (some f) (Function.update h f (some c)) := Iff.rfl

@[simp] lemma wp_kfree {Q : Unit → Heap ℕ Page → Prop} :
    wp V E Q (Kern.kfree v) h ↔ v ∈ V ∧ (h v).isSome ∧ Q () (Function.update h v none) := Iff.rfl

end Wp

section Spec

variable {L : Layout} {E : Stop → Prop} {T : Tables} {h : Heap ℕ Page} {v : View} {dir va : ℕ}

lemma pdx_lt (hva : va < 2 ^ 32) : pdx va < 1024 := by
  unfold pdx
  omega

/-- `walkpgdir` without `alloc`. -/
lemma walkpgdir_find {Q : Option (ℕ × ℕ) → Heap ℕ Page → Prop} (hT : T.Rep L h)
    (hva : va < 2 ^ 32) (hQ : Q ((T.tab (pdx va)).map fun f => (f, ptx va)) h) :
    wp L.pages E Q (walkpgdir T.dir va false) h := by
  obtain ⟨c, hc, hword⟩ := hT.dirPage
  rw [walkpgdir, wp_bind, wp_load]
  refine ⟨c, hc, ?_⟩
  rw [hword _ (pdx_lt hva)]
  cases htab : T.tab (pdx va) with
  | none =>
      rw [if_neg not_present_pdeWord_none, if_pos rfl, wp_pure]
      rwa [htab] at hQ
  | some f =>
      obtain ⟨hp, ha⟩ := decode_pde (hT.inHeap (r := .table (pdx va)) htab).1
      rw [if_pos hp, wp_pure, ha]
      rwa [htab] at hQ

/-- `walkpgdir` with `alloc`. -/
lemma walkpgdir_make {Q : Option (ℕ × ℕ) → Heap ℕ Page → Prop} (hT : T.Rep L h)
    (hva : va < 2 ^ 32) (hnone : T.tab (pdx va) = none → Q none h)
    (hsome : ∀ T' h' f, T.WithTable (pdx va) f T' → f ∈ L.pages → T'.Rep L h' →
      T'.view h' = T.view h → Q (some (f, ptx va)) h') :
    wp L.pages E Q (walkpgdir T.dir va true) h := by
  obtain ⟨c, hc, hword⟩ := hT.dirPage
  rw [walkpgdir, wp_bind, wp_load]
  refine ⟨c, hc, ?_⟩
  rw [hword _ (pdx_lt hva)]
  cases htab : T.tab (pdx va) with
  | some f =>
      have hf := (hT.inHeap (r := .table (pdx va)) htab).1
      obtain ⟨hp, ha⟩ := decode_pde hf
      rw [if_pos hp, wp_pure, ha]
      exact hsome T h f (.old htab) hf hT rfl
  | none =>
      rw [if_neg not_present_pdeWord_none, if_neg (by simp), wp_bind, wp_kalloc]
      refine ⟨hnone htab, fun f hf hfree c₀ => ?_⟩
      have hdf : T.dir ≠ f := by
        rintro rfl
        simp [hfree] at hc
      rw [wp_bind, wp_clear]
      refine ⟨c₀, Function.update_self .., ?_⟩
      rw [Function.update_idem, wp_bind, wp_store]
      refine ⟨c, by rw [Function.update_of_ne hdf, hc], ?_⟩
      exact hsome (T.addTable (pdx va) f) _ f (.new htab) hf
        (hT.addTable (pdx_lt hva) htab hf hfree hc) (hT.view_addTable hfree _ _)

/-! ### One page -/

/-- The indices of the entry for the page number `n`. -/
lemma pdx_ptx {n : ℕ} (hn : va / PGSIZE = n) : pdx va = n / 1024 ∧ ptx va = n % 1024 := by
  subst hn
  exact ⟨pdx_eq va, rfl⟩

lemma lt_of_page {n : ℕ} (hn : va / PGSIZE = n) (hlt : n < 2 ^ 20) : va < 2 ^ 32 := by
  simp only [PGSIZE] at hn
  omega

/-- A user page is not mapped if its entry is not present. -/
lemma Tables.Rep.not_present (hT : T.Rep L h) {n : ℕ} (hn : n < userPages)
    (hnone : (T.view h).user n = none) : ¬ Present (T.pte n) := by
  intro hp
  have hpage := hT.view_user_eq_none.mp hnone
  simp [Tables.page, userPage, hn, hp] at hpage

/-- A user page that is mapped has an address. -/
lemma Tables.Rep.page_of_present (hT : T.Rep L h) {n : ℕ} (hn : n < userPages)
    (hp : Present (T.pte n)) :
    T.page (.user n) = some (p2v (pteAddr (T.pte n))) ∧ 0 < pteAddr (T.pte n) := by
  have hpage : T.page (.user n) = some (p2v (pteAddr (T.pte n))) := by
    simp [Tables.page, userPage, hn, hp]
  refine ⟨hpage, ?_⟩
  have hbase := L.base_lt
  have hend := (hT.inHeap hpage).1.2.1
  unfold p2v at hend
  omega

/-- The entry that is made for a user page. -/
lemma userPage_entry {n mem perm : ℕ} (hn : n < userPages) (hmem : mem ∈ L.pages)
    (hperm : perm < PGSIZE) : userPage n (v2p mem ||| perm ||| PTE_P) = some mem := by
  obtain ⟨hp, ha, -⟩ := decode_page hmem hperm
  simp [userPage, hn, hp, ha]

/-- **A user page is mapped**: the page `mem` goes over to the address space, or nothing
happens. -/
lemma mapPage_tables {Q : Bool → Heap ℕ Page → Prop} {n mem perm : ℕ} {c : Page}
    (hT : T.Rep L h) (hva : va / PGSIZE = n) (hn : n < userPages)
    (hnone : (T.view h).user n = none) (hmem : mem ∈ L.pages) (hsep : h mem = none)
    (hperm : perm < PGSIZE)
    (hfail : T.tab (pdx va) = none → Q false (h.union (Heap.single mem c)))
    (hok : ∀ T' f h', T.WithTable (pdx va) f T' → f ∈ L.pages →
      (T'.setPte n (v2p mem ||| perm ||| PTE_P)).Rep L h' →
      (T'.setPte n (v2p mem ||| perm ||| PTE_P)).view h' =
        (T.view h).map n (perm ||| PTE_P) c → Q true h') :
    wp L.pages E Q (mapPage T.dir va (v2p mem) perm) (h.union (Heap.single mem c)) := by
  obtain ⟨hd, ht⟩ := pdx_ptx hva
  have hlt : va < 2 ^ 32 := lt_of_page hva (hn.trans (by decide))
  rw [mapPage]
  refine wp_call (walkpgdir_make (Q := fun res h' =>
      (res = none ∧ h' = h ∧ T.tab (pdx va) = none) ∨
      ∃ (T' : Tables) (f : ℕ), res = some (f, ptx va) ∧ T.WithTable (pdx va) f T' ∧ f ∈ L.pages ∧
        T'.Rep L h' ∧ T'.view h' = T.view h) hT hlt (fun htab => Or.inl ⟨rfl, rfl, htab⟩)
      fun T' h' f hwith hf hT' hview => Or.inr ⟨T', f, rfl, hwith, hf, hT', hview⟩)
    (Heap.disjoint_single hsep) ?_
  rintro res h' (⟨rfl, rfl, htab⟩ | ⟨T', f, rfl, hwith, hf, hT', hview⟩) hdisj
  · exact hfail htab
  · have htab := hwith.tab
    rw [hd] at htab
    rw [ht]
    obtain ⟨ct, hct, hword⟩ := hT'.load_pte htab
    have hsep' : h' mem = none := hdisj.single_none
    have hnp : ¬ Present (T'.pte n) := hT'.not_present hn (by rw [hview, hnone])
    have hpage : T'.page (.user n) = none := by simp [Tables.page, userPage, hnp]
    obtain ⟨-, -, hfl⟩ := decode_page hmem hperm
    have hnew := userPage_entry hn hmem hperm
    have hkeep : ∀ r g, r ≠ Role.user n → T'.page r = some g →
        h'.union (Heap.single mem c) g = h' g := by
      intro r g _ hg
      obtain ⟨-, c', hc'⟩ := hT'.inHeap hg
      rw [Heap.union_of_some hc', hc']
    have hother : ∀ r, T'.page r ≠ some mem := by
      intro r hr
      obtain ⟨-, c', hc'⟩ := hT'.inHeap hr
      simp [hsep'] at hc'
    have hunion : h'.union (Heap.single mem c) mem = some c := Heap.union_single_self hsep'
    dsimp only
    rw [wp_bind, wp_load]
    refine ⟨ct, Heap.union_of_some hct, ?_⟩
    rw [hword, if_neg hnp, wp_bind, wp_store]
    refine ⟨ct, Heap.union_of_some hct, ?_⟩
    refine hok T' f _ hwith hf (hT'.setPte htab hct hkeep ?_ ?_) ?_
    · intro g c' hg
      rcases eq_or_ne g mem with rfl | hgm
      · exact Or.inr hnew
      · left
        have hg' : h' g = some c' := by
          cases hh : h' g with
          | none => simp [Heap.union_of_none hh, Heap.single, hgm, Heap.empty] at hg
          | some c₁ => rwa [Heap.union_of_some hh] at hg
        obtain ⟨r, hr⟩ := hT'.role hg'
        refine ⟨r, ?_, hr⟩
        rintro rfl
        simp [hpage] at hr
    · intro g hg
      obtain rfl : mem = g := Option.some.inj (hnew.symm.trans hg)
      exact ⟨hmem, ⟨c, hunion⟩, fun r _ => hother r⟩
    · rw [hT'.view_setPte htab hkeep (fun g hg r _ => by
        obtain rfl : mem = g := Option.some.inj (hnew.symm.trans hg)
        exact hother r) _, hview]
      ext k : 2
      · simp [View.map, hnew, hunion, hfl]
      · have hkernel := congrFun (congrArg View.kernel hview) k
        simp only [Tables.view] at hkernel
        dsimp only [View.map, Tables.view]
        split_ifs at hkernel ⊢ with hk
        · rfl
        · rw [Function.update_of_ne (by omega), hkernel]

/-- The same by the meaning of the address space. -/
lemma mapPage_user {Q : Bool → Heap ℕ Page → Prop} {n mem perm : ℕ} {c : Page}
    (hm : Maps L h dir v) (hva : va / PGSIZE = n) (hn : n < userPages) (hnone : v.user n = none)
    (hmem : mem ∈ L.pages) (hsep : h mem = none) (hperm : perm < PGSIZE)
    (hfail : Q false (h.union (Heap.single mem c)))
    (hok : ∀ (T' : Tables) h', T'.dir = dir → T'.Rep L h' →
      T'.view h' = v.map n (perm ||| PTE_P) c → T'.page (.user n) = some mem → Q true h') :
    wp L.pages E Q (mapPage dir va (v2p mem) perm) (h.union (Heap.single mem c)) := by
  obtain ⟨T, rfl, hT, rfl⟩ := hm
  refine mapPage_tables hT hva hn hnone hmem hsep hperm (fun _ => hfail) ?_
  intro T' f h' hwith _ hT' hview
  exact hok (T'.setPte n (v2p mem ||| perm ||| PTE_P)) h' hwith.dir hT' hview
    (Tables.page_setPte_self.trans (userPage_entry hn hmem hperm))

/-- An entry of the kernel's half is made. -/
lemma mapPage_kernel {Q : Bool → Heap ℕ Page → Prop} {n pa perm : ℕ} (hm : Maps L h dir v)
    (hva : va / PGSIZE = n) (hlo : userPages ≤ n) (hhi : n < 2 ^ 20) (hnone : v.kernel n = 0)
    (hfail : Q false h)
    (hok : ∀ h', Maps L h' dir (v.mapKernel n (pa ||| perm ||| PTE_P)) → Q true h') :
    wp L.pages E Q (mapPage dir va pa perm) h := by
  obtain ⟨T, rfl, hT, rfl⟩ := hm
  obtain ⟨hd, ht⟩ := pdx_ptx hva
  rw [mapPage, wp_bind]
  refine walkpgdir_make hT (lt_of_page hva hhi) (fun _ => hfail) ?_
  intro T' h' f hwith _ hT' hview
  have htab := hwith.tab
  rw [hd] at htab
  rw [ht]
  obtain ⟨ct, hct, hword⟩ := hT'.load_pte htab
  have hpte : T'.pte n = 0 := by
    have hkernel := congrFun (congrArg View.kernel hview) n
    rw [hnone] at hkernel
    simpa [Tables.view, not_lt.mpr hlo] using hkernel
  have hnone' : ∀ w, userPage n w = none := by
    intro w
    simp [userPage, not_lt.mpr hlo]
  dsimp only
  rw [wp_bind, wp_load]
  refine ⟨ct, hct, ?_⟩
  rw [hword, hpte, if_neg (by decide), wp_bind, wp_store]
  refine ⟨ct, hct, ?_⟩
  refine hok _ ⟨T'.setPte n (pa ||| perm ||| PTE_P), hwith.dir,
    hT'.setPte htab hct (fun r g _ _ => rfl) ?_ ?_, ?_⟩
  · intro g c hg
    obtain ⟨r, hr⟩ := hT'.role hg
    refine Or.inl ⟨r, ?_, hr⟩
    rintro rfl
    simp [Tables.page, hnone'] at hr
  · simp [hnone']
  · rw [hT'.view_setPte htab (fun r g _ _ => rfl) (by simp [hnone']) _, hview]
    ext k : 2
    · by_cases hk : k = n
      · subst hk
        simp [View.mapKernel, hnone', Tables.view, Tables.page]
      · simp [View.mapKernel, hk]
    · have hkernel := congrFun (congrArg View.kernel hview) k
      simp only [Tables.view] at hkernel
      dsimp only [View.mapKernel, Tables.view]
      by_cases hk : k = n
      · subst hk
        rw [if_neg (by omega), Function.update_self, Function.update_self]
      · rw [Function.update_of_ne hk, Function.update_of_ne hk, hkernel]

/-- The user pages are below `KERNBASE`. -/
lemma Maps.user_eq_none (hm : Maps L h dir v) {n : ℕ} (hn : userPages ≤ n) : v.user n = none := by
  obtain ⟨T, -, -, rfl⟩ := hm
  simp [Tables.view, Tables.page, userPage, not_lt.mpr hn]

/-- **A user page is unmapped** and freed, if it is mapped. Where a page table is missing, the loop
of `deallocuvm` goes on at the next one. -/
lemma unmapPage_tables {Q : ℕ → Heap ℕ Page → Prop} {n : ℕ} (hT : T.Rep L h)
    (hn : va / PGSIZE = n) (hlt : n < userPages)
    (hskip : T.tab (pdx va) = none → Q (pgaddr (pdx va + 1)) h)
    (hempty : ∀ f, T.tab (pdx va) = some f → ¬ Present (T.pte n) → Q (va + PGSIZE) h)
    (hfreed : ∀ f h', T.tab (pdx va) = some f → Present (T.pte n) → (T.setPte n 0).Rep L h' →
      (T.setPte n 0).view h' = (T.view h).erase n (n + 1) → Q (va + PGSIZE) h') :
    wp L.pages E Q (unmapPage T.dir va) h := by
  obtain ⟨hd, ht⟩ := pdx_ptx hn
  rw [unmapPage, wp_bind]
  refine walkpgdir_find hT (lt_of_page hn (hlt.trans (by decide))) ?_
  cases htab : T.tab (pdx va) with
  | none => exact hskip htab
  | some f =>
      have htab' := htab
      rw [hd] at htab'
      obtain ⟨ct, hct, hword⟩ := hT.load_pte htab'
      rw [Option.map_some, ht]
      dsimp only
      rw [wp_bind, wp_load]
      refine ⟨ct, hct, ?_⟩
      rw [hword]
      by_cases hp : Present (T.pte n)
      · obtain ⟨hpage, hpos⟩ := hT.page_of_present hlt hp
        obtain ⟨g, hg⟩ : ∃ g, p2v (pteAddr (T.pte n)) = g := ⟨_, rfl⟩
        rw [hg] at hpage
        obtain ⟨hV, cg, hcg⟩ := hT.inHeap hpage
        have hfg : f ≠ g := hT.ne_of_role (r := .table (n / 1024)) htab' hpage (by simp)
        have hnone : userPage n 0 = none := by simp [userPage, show ¬ Present 0 by decide]
        have hkeep : ∀ r g', r ≠ Role.user n → T.page r = some g' →
            Function.update h g none g' = h g' := by
          intro r g' hr hg'
          exact Function.update_of_ne (hT.ne_of_role hg' hpage hr) _ _
        rw [if_pos hp, if_neg hpos.ne', hg, wp_bind, wp_kfree]
        refine ⟨hV, by simp [hcg], ?_⟩
        rw [wp_bind, wp_store]
        refine ⟨ct, by rw [Function.update_of_ne hfg, hct], ?_⟩
        refine hfreed f _ htab hp (hT.setPte htab' hct hkeep ?_ (by simp [hnone])) ?_
        · intro g' c' hg'
          rcases eq_or_ne g' g with rfl | hne
          · simp at hg'
          · rw [Function.update_of_ne hne] at hg'
            obtain ⟨r, hr⟩ := hT.role hg'
            refine Or.inl ⟨r, ?_, hr⟩
            rintro rfl
            exact hne (Option.some.inj (hr.symm.trans hpage))
        · rw [hT.view_setPte htab' hkeep (by simp [hnone]) _]
          ext k : 2
          · by_cases hk : k = n
            · subst hk
              simp [View.erase, hnone]
            · dsimp only
              rw [Function.update_of_ne hk]
              exact (if_neg (by omega)).symm
          · dsimp only [View.erase, Tables.view]
            split_ifs with hk
            · rfl
            · rw [Function.update_of_ne (by omega)]
      · rw [if_neg hp, wp_pure]
        exact hempty f htab hp

/-- The same by the meaning of the address space; where a page table is missing, the pages skipped
are not mapped. -/
lemma unmapPage_spec {Q : ℕ → Heap ℕ Page → Prop} (hm : Maps L h dir v)
    (hmod : va % PGSIZE = 0) (hlt : va / PGSIZE < userPages)
    (hQ : ∀ a' h', va / PGSIZE < a' / PGSIZE → a' % PGSIZE = 0 →
      (∀ n, va / PGSIZE ≤ n → n < a' / PGSIZE →
        (v.erase (va / PGSIZE) (va / PGSIZE + 1)).user n = none) →
      Maps L h' dir (v.erase (va / PGSIZE) (va / PGSIZE + 1)) → Q a' h') :
    wp L.pages E Q (unmapPage dir va) h := by
  obtain ⟨T, rfl, hT, rfl⟩ := hm
  obtain ⟨n, hn⟩ : ∃ n, va / PGSIZE = n := ⟨_, rfl⟩
  obtain ⟨hd, -⟩ := pdx_ptx hn
  rw [hn] at hQ hlt
  -- the next page
  have hnum : (va + PGSIZE) / PGSIZE = n + 1 := by
    simp only [PGSIZE] at *
    omega
  have hal : (va + PGSIZE) % PGSIZE = 0 := by
    simp only [PGSIZE] at *
    omega
  have hself : ∀ k, n ≤ k → k < (va + PGSIZE) / PGSIZE →
      ((T.view h).erase n (n + 1)).user k = none := by
    intro k hlo hhi
    rw [hnum] at hhi
    exact if_pos ⟨hlo, hhi⟩
  refine unmapPage_tables hT hn hlt (fun htab => ?_) (fun f htab hp => ?_)
    fun f h' htab hp hT' hview => ?_
  · -- no entry of the page table that is missing is present
    have hempty : ∀ k, n ≤ k → k / 1024 = n / 1024 → (T.view h).user k = none := by
      intro k _ hk
      have hpte : T.pte k = 0 := hT.noTab (by rw [hk, ← hd, htab])
      have hp : ¬ Present 0 := by decide
      simp [Tables.view, Tables.page, userPage, hpte, hp]
    have hsame : (T.view h).erase n (n + 1) = T.view h :=
      View.erase_of_none fun k hlo hhi => hempty k hlo (by rw [show k = n by omega])
    have hpage : pgaddr (n / 1024 + 1) / PGSIZE = 1024 * (n / 1024 + 1) := by
      simp only [pgaddr, PGSIZE]
      omega
    rw [hsame] at hQ
    rw [hd]
    refine hQ _ h ?_ ?_ ?_ ⟨T, rfl, hT, rfl⟩
    · rw [hpage]
      omega
    · simp only [pgaddr, PGSIZE]
      omega
    · intro k hlo hhi
      rw [hpage] at hhi
      exact hempty k hlo (by omega)
  · have hsame : (T.view h).erase n (n + 1) = T.view h := by
      refine View.erase_of_none fun k hlo hhi => ?_
      obtain rfl : k = n := by omega
      simp [Tables.view, Tables.page, userPage, hp]
    refine hQ _ h (by omega) hal hself ?_
    rw [hsame]
    exact ⟨T, rfl, hT, rfl⟩
  · exact hQ _ h' (by omega) hal hself ⟨T.setPte n 0, rfl, hT', hview⟩

end Spec

end Xv6Lottery.Mem
