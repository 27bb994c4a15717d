import Xv6Lottery.Mem.Vm

/-!
The page tables of an address space.

* `Tables`: a page directory, the page tables in it, and the words of the page table entries.
* `Tables.Rep`: the pages of a heap are those of the address space, each used for one thing: as
  the directory, as the page table of one directory entry, or as one user page.
* `View`: what an address space means. A user page has flags and contents; the entries for the
  kernel's half are kept as they are. `Maps` says that the pages of a heap are an address space
  with a given meaning.
* `Tables.Rep.addTable`, `Tables.Rep.setPte`: the two things that are done to page tables.
-/

namespace Xv6Lottery.Mem

open Library

/-! ### Entries -/

section Words

variable {L : Layout} {pa perm v : ℕ}

lemma or_eq_add (hpa : pa % PGSIZE = 0) (hperm : perm < PGSIZE) : pa ||| perm = pa + perm := by
  obtain ⟨k, rfl⟩ : ∃ k, pa = 2 ^ 12 * k := ⟨pa / PGSIZE, by simp only [PGSIZE] at *; omega⟩
  exact (Nat.two_pow_add_eq_or_of_lt hperm k).symm

lemma present_iff {w : ℕ} : Present w ↔ w % 2 = 1 := by
  simp only [Present, Nat.and_one_is_mod]
  omega

/-- The flags of an entry that is present. -/
lemma flags_odd (hperm : perm < PGSIZE) : perm ||| PTE_P < PGSIZE ∧ (perm ||| PTE_P) % 2 = 1 := by
  constructor
  · exact Nat.or_lt_two_pow (n := 12) hperm (by decide)
  · simp [Nat.or_mod_two_eq_one]

lemma entry_eq (hpa : pa % PGSIZE = 0) (hperm : perm < PGSIZE) :
    pa ||| perm ||| PTE_P = pa + (perm ||| PTE_P) := by
  rw [Nat.or_assoc, or_eq_add hpa (flags_odd hperm).1]

/-- What is read back from an entry. -/
lemma decode_entry (hpa : pa % PGSIZE = 0) (hperm : perm < PGSIZE) :
    Present (pa ||| perm ||| PTE_P) ∧ pteAddr (pa ||| perm ||| PTE_P) = pa ∧
      pteFlags (pa ||| perm ||| PTE_P) = perm ||| PTE_P := by
  obtain ⟨hlt, hodd⟩ := flags_odd hperm
  rw [entry_eq hpa hperm]
  simp only [present_iff, pteAddr, pteFlags, PGSIZE] at *
  omega

lemma p2v_v2p (hv : v ∈ L.pages) : p2v (v2p v) = v := by
  have := L.base_lt
  have := hv.2.1
  unfold p2v v2p
  omega

lemma v2p_mod (hv : v ∈ L.pages) : v2p v % PGSIZE = 0 := by
  have hmod := hv.1
  have hsize := kernbase_eq
  unfold v2p
  simp only [PGSIZE] at *
  omega

/-- What is read back from an entry for a page of the allocator. -/
lemma decode_page (hv : v ∈ L.pages) (hperm : perm < PGSIZE) :
    Present (v2p v ||| perm ||| PTE_P) ∧ p2v (pteAddr (v2p v ||| perm ||| PTE_P)) = v ∧
      pteFlags (v2p v ||| perm ||| PTE_P) = perm ||| PTE_P := by
  obtain ⟨hp, ha, hf⟩ := decode_entry (v2p_mod hv) hperm
  exact ⟨hp, by rw [ha, p2v_v2p hv], hf⟩

/-- The entry of a page directory. -/
def pdeWord : Option ℕ → ℕ
  | none => 0
  | some v => v2p v ||| PTE_P ||| PTE_W ||| PTE_U

lemma decode_pde (hv : v ∈ L.pages) :
    Present (pdeWord (some v)) ∧ p2v (pteAddr (pdeWord (some v))) = v := by
  have hword : pdeWord (some v) = v2p v ||| (PTE_W ||| PTE_U) ||| PTE_P := by
    simp only [pdeWord, Nat.or_assoc]
    rw [Nat.or_comm PTE_P]
    rfl
  rw [hword]
  obtain ⟨hp, ha, -⟩ := decode_page hv (show PTE_W ||| PTE_U < PGSIZE by decide)
  exact ⟨hp, ha⟩

lemma not_present_pdeWord_none : ¬ Present (pdeWord none) := by decide

end Words

lemma pdx_eq (va : ℕ) : pdx va = va / PGSIZE / 1024 := by
  simp only [pdx, PGSIZE]
  omega

/-! ### Address spaces -/

/-- The number of pages below `KERNBASE`. -/
abbrev userPages : ℕ := 524288

/-- A page directory, the page tables in it, and the entry for each page number. -/
structure Tables where
  dir : ℕ
  tab : ℕ → Option ℕ
  pte : ℕ → ℕ

/-- What a page of an address space is used for. -/
inductive Role where
  | dir
  | table (d : ℕ)
  | user (n : ℕ)

/-- The page that an entry maps for the user. -/
def userPage (n w : ℕ) : Option ℕ :=
  if n < userPages ∧ Present w then some (p2v (pteAddr w)) else none

/-- The page in a role. -/
def Tables.page (T : Tables) : Role → Option ℕ
  | .dir => some T.dir
  | .table d => T.tab d
  | .user n => userPage n (T.pte n)

/-- The pages of the heap `h` are those of the address space `T`, and each has one role. -/
structure Tables.Rep (L : Layout) (T : Tables) (h : Heap ℕ Page) : Prop where
  dirPage : ∃ c, h T.dir = some c ∧ ∀ d < 1024, c d = pdeWord (T.tab d)
  tabPage : ∀ {d f}, T.tab d = some f →
    d < 1024 ∧ ∃ c, h f = some c ∧ ∀ t < 1024, c t = T.pte (1024 * d + t)
  noTab : ∀ {n}, T.tab (n / 1024) = none → T.pte n = 0
  role : ∀ {f c}, h f = some c → ∃ r, T.page r = some f
  inHeap : ∀ {r f}, T.page r = some f → f ∈ L.pages ∧ ∃ c, h f = some c
  inj : ∀ {r r' f}, T.page r = some f → T.page r' = some f → r = r'

/-- What an address space means: the flags and the contents of each user page, and the entries
for the kernel's half. -/
@[ext] structure View where
  user : ℕ → Option (ℕ × Page)
  kernel : ℕ → ℕ

/-- The meaning of page tables. -/
def Tables.view (T : Tables) (h : Heap ℕ Page) : View where
  user n := (T.page (.user n)).bind fun f => (h f).map fun c => (pteFlags (T.pte n), c)
  kernel n := if n < userPages then 0 else T.pte n

/-- The pages of a heap are an address space with the page directory `dir` and the meaning `v`. -/
def Maps (L : Layout) (h : Heap ℕ Page) (dir : ℕ) (v : View) : Prop :=
  ∃ T : Tables, T.dir = dir ∧ T.Rep L h ∧ T.view h = v

/-- `*pte = w` for the page number `n`. -/
def Tables.setPte (T : Tables) (n w : ℕ) : Tables := { T with pte := Function.update T.pte n w }

/-- A new page table. -/
def Tables.addTable (T : Tables) (d f : ℕ) : Tables :=
  { T with tab := Function.update T.tab d (some f) }

/-- `T'` has the page table `f` for the directory entry `d`: `T` had it already, or it is new. -/
inductive Tables.WithTable (T : Tables) (d f : ℕ) : Tables → Prop
  | old (htab : T.tab d = some f) : WithTable T d f T
  | new (htab : T.tab d = none) : WithTable T d f (T.addTable d f)

namespace Tables

variable {L : Layout} {T : Tables} {h h₁ : Heap ℕ Page} {n w d f g : ℕ} {c ct : Page}

lemma page_setPte {r : Role} (hr : r ≠ .user n) : (T.setPte n w).page r = T.page r := by
  cases r with
  | dir => rfl
  | table d => rfl
  | user k =>
      have hk : k ≠ n := by
        rintro rfl
        exact hr rfl
      simp [page, setPte, hk]

lemma page_setPte_self : (T.setPte n w).page (.user n) = userPage n w := by
  simp [page, setPte]

lemma page_addTable {r : Role} (hr : r ≠ .table d) : (T.addTable d f).page r = T.page r := by
  cases r with
  | dir => rfl
  | table k =>
      have hk : k ≠ d := by
        rintro rfl
        exact hr rfl
      simp [page, addTable, hk]
  | user k => rfl

lemma page_addTable_self : (T.addTable d f).page (.table d) = some f := by
  simp [page, addTable]

lemma WithTable.dir {T' : Tables} (h : T.WithTable d f T') : T'.dir = T.dir := by
  cases h <;> rfl

lemma WithTable.tab {T' : Tables} (h : T.WithTable d f T') : T'.tab d = some f := by
  cases h with
  | old htab => exact htab
  | new htab => exact Function.update_self ..

namespace Rep

variable (hT : T.Rep L h)

include hT

lemma ne_of_role {r q : Role} (hr : T.page r = some f) (hq : T.page q = some g)
    (hne : r ≠ q) : f ≠ g := by
  rintro rfl
  exact hne (hT.inj hr hq)

/-- The entry for a page number, as it is read from its page table. -/
lemma load_pte (htab : T.tab (n / 1024) = some f) : ∃ c, h f = some c ∧ c (n % 1024) = T.pte n := by
  obtain ⟨-, c, hc, hword⟩ := hT.tabPage htab
  refine ⟨c, hc, ?_⟩
  rw [hword _ (Nat.mod_lt _ (by decide)), Nat.div_add_mod]

/-- The contents of a user page. -/
lemma view_user (hn : T.page (.user n) = some f) :
    ∃ c, h f = some c ∧ (T.view h).user n = some (pteFlags (T.pte n), c) := by
  obtain ⟨-, c, hc⟩ := hT.inHeap hn
  exact ⟨c, hc, by simp [view, hn, hc]⟩

lemma view_user_eq_none : (T.view h).user n = none ↔ T.page (.user n) = none := by
  constructor
  · intro hnone
    cases hn : T.page (.user n) with
    | none => rfl
    | some f =>
        obtain ⟨c, -, hsome⟩ := hT.view_user hn
        rw [hnone] at hsome
        cases hsome
  · intro hn
    simp [view, hn]

/-- An entry is written, and the user pages of the heap change with it. -/
lemma setPte (htab : T.tab (n / 1024) = some f) (hf : h f = some ct)
    (hkeep : ∀ r g, r ≠ .user n → T.page r = some g → h₁ g = h g)
    (hrole : ∀ g c, h₁ g = some c →
      (∃ r, r ≠ .user n ∧ T.page r = some g) ∨ userPage n w = some g)
    (hnew : ∀ g, userPage n w = some g →
      g ∈ L.pages ∧ (∃ c, h₁ g = some c) ∧ ∀ r, r ≠ .user n → T.page r ≠ some g) :
    (T.setPte n w).Rep L (Function.update h₁ f (some (Function.update ct (n % 1024) w))) := by
  have hfr : T.page (.table (n / 1024)) = some f := htab
  refine ⟨?_, ?_, ?_, ?_, ?_, ?_⟩
  · obtain ⟨c, hc, hword⟩ := hT.dirPage
    refine ⟨c, ?_, hword⟩
    have hne : T.dir ≠ f := hT.ne_of_role (r := .dir) rfl hfr (by simp)
    rw [Function.update_of_ne (show (T.setPte n w).dir ≠ f from hne)]
    exact (hkeep .dir T.dir (by simp) rfl).trans hc
  · intro d g hd
    obtain ⟨hlt, c, hc, hword⟩ := hT.tabPage hd
    refine ⟨hlt, ?_⟩
    by_cases hdn : d = n / 1024
    · subst hdn
      obtain rfl : f = g := Option.some.inj (htab.symm.trans hd)
      obtain rfl : ct = c := Option.some.inj (hf.symm.trans hc)
      refine ⟨_, Function.update_self .., fun t ht => ?_⟩
      by_cases htn : t = n % 1024
      · subst htn
        simp [Tables.setPte, Nat.div_add_mod]
      · have hne : 1024 * (n / 1024) + t ≠ n := by omega
        simp [Tables.setPte, htn, hne, hword t ht]
    · have hne : g ≠ f := hT.ne_of_role (r := .table d) hd hfr (by simpa using hdn)
      refine ⟨c, ?_, fun t ht => ?_⟩
      · rw [Function.update_of_ne hne]
        exact (hkeep (.table d) g (by simp) hd).trans hc
      · have hne' : 1024 * d + t ≠ n := by omega
        simp [Tables.setPte, hne', hword t ht]
  · intro k hk
    have hkn : k ≠ n := by
      rintro rfl
      rw [show (T.setPte k w).tab = T.tab from rfl, htab] at hk
      cases hk
    simpa [Tables.setPte, hkn] using hT.noTab hk
  · intro g c hg
    rcases eq_or_ne g f with rfl | hgf
    · exact ⟨.table (n / 1024), hfr⟩
    · rw [Function.update_of_ne hgf] at hg
      rcases hrole g c hg with ⟨r, hr, hpage⟩ | hpage
      · exact ⟨r, by rw [page_setPte hr, hpage]⟩
      · exact ⟨.user n, by rw [page_setPte_self, hpage]⟩
  · intro r g hg
    by_cases hr : r = .user n
    · subst hr
      rw [page_setPte_self] at hg
      obtain ⟨hV, ⟨c, hc⟩, hother⟩ := hnew g hg
      refine ⟨hV, c, ?_⟩
      rw [Function.update_of_ne, hc]
      rintro rfl
      exact hother _ (by simp) hfr
    · rw [page_setPte hr] at hg
      obtain ⟨hV, c, hc⟩ := hT.inHeap hg
      refine ⟨hV, ?_⟩
      rcases eq_or_ne g f with rfl | hgf
      · exact ⟨_, Function.update_self ..⟩
      · exact ⟨c, by rw [Function.update_of_ne hgf, hkeep r g hr hg, hc]⟩
  · intro r r' g hg hg'
    by_cases hr : r = .user n <;> by_cases hr' : r' = .user n
    · rw [hr, hr']
    · subst hr
      rw [page_setPte_self] at hg
      rw [page_setPte hr'] at hg'
      exact absurd hg' ((hnew g hg).2.2 r' hr')
    · subst hr'
      rw [page_setPte_self] at hg'
      rw [page_setPte hr] at hg
      exact absurd hg ((hnew g hg').2.2 r hr)
    · rw [page_setPte hr] at hg
      rw [page_setPte hr'] at hg'
      exact hT.inj hg hg'

/-- The meaning after an entry has been written. -/
lemma view_setPte (htab : T.tab (n / 1024) = some f)
    (hkeep : ∀ r g, r ≠ .user n → T.page r = some g → h₁ g = h g)
    (hnew : ∀ g, userPage n w = some g → ∀ r, r ≠ .user n → T.page r ≠ some g) (x : Option Page) :
    (T.setPte n w).view (Function.update h₁ f x) =
      ⟨Function.update (T.view h).user n
        ((userPage n w).bind fun g => (h₁ g).map fun c => (pteFlags w, c)),
      fun k => if k < userPages then 0 else Function.update T.pte n w k⟩ := by
  have hfr : T.page (.table (n / 1024)) = some f := htab
  have huser : ∀ {k g}, (T.setPte n w).page (.user k) = some g → g ≠ f := by
    rintro k g hg rfl
    by_cases hk : k = n
    · subst hk
      rw [page_setPte_self] at hg
      exact hnew g hg _ (by simp) hfr
    · rw [page_setPte (by simpa using hk)] at hg
      cases hT.inj hg hfr
  ext k : 2
  · by_cases hk : k = n
    · subst hk
      simp only [Tables.view, page_setPte_self, Function.update_self]
      cases hpage : userPage k w with
      | none => rfl
      | some g =>
          have hne := huser (page_setPte_self.trans hpage)
          simp [Tables.setPte, hne]
    · have hr : (.user k : Role) ≠ .user n := by simpa using hk
      simp only [Tables.view, page_setPte hr, Function.update_of_ne hk]
      cases hpage : T.page (.user k) with
      | none => rfl
      | some g =>
          have hne := huser ((page_setPte hr).trans hpage)
          simp [Tables.setPte, hk, hne, hkeep _ g hr hpage]
  · rfl

/-- A page table is added to the directory. -/
lemma addTable (hd : d < 1024) (hnone : T.tab d = none) (hf : f ∈ L.pages) (hfree : h f = none)
    (hc : h T.dir = some c) :
    (T.addTable d f).Rep L (Function.update (Function.update h f (some fun _ => 0)) T.dir
      (some (Function.update c d (pdeWord (some f))))) := by
  have hdf : f ≠ T.dir := by
    rintro rfl
    simp [hfree] at hc
  have hold : ∀ {r g}, T.page r = some g → g ≠ f := by
    rintro r g hg rfl
    obtain ⟨-, c, hc⟩ := hT.inHeap hg
    simp [hfree] at hc
  refine ⟨?_, ?_, ?_, ?_, ?_, ?_⟩
  · refine ⟨_, Function.update_self .., fun k hk => ?_⟩
    obtain ⟨c', hc', hword⟩ := hT.dirPage
    obtain rfl : c = c' := Option.some.inj (hc.symm.trans hc')
    by_cases hkd : k = d
    · subst hkd
      simp [Tables.addTable]
    · simp [Tables.addTable, hkd, hword k hk]
  · intro k g hk
    by_cases hkd : k = d
    · subst hkd
      obtain rfl : f = g := by simpa [Tables.addTable] using hk
      refine ⟨hd, fun _ => 0, by simp [hdf], fun t ht => ?_⟩
      refine (hT.noTab ?_).symm
      rwa [show (1024 * k + t) / 1024 = k by omega]
    · have hk' : T.tab k = some g := by simpa [Tables.addTable, hkd] using hk
      obtain ⟨hlt, c', hc', hword⟩ := hT.tabPage hk'
      have hgd : g ≠ T.dir := hT.ne_of_role (r := .table k) (q := .dir) hk' rfl (by simp)
      exact ⟨hlt, c', by
        rw [Function.update_of_ne hgd, Function.update_of_ne (hold (r := .table k) hk'), hc'],
        hword⟩
  · intro k hk
    refine hT.noTab ?_
    by_cases hkd : k / 1024 = d
    · rw [hkd, hnone]
    · simpa [Tables.addTable, hkd] using hk
  · intro g c' hg
    rcases eq_or_ne g f with rfl | hgf
    · exact ⟨.table d, page_addTable_self⟩
    · rcases eq_or_ne g T.dir with rfl | hgd
      · exact ⟨.dir, rfl⟩
      · rw [Function.update_of_ne hgd, Function.update_of_ne hgf] at hg
        obtain ⟨r, hr⟩ := hT.role hg
        refine ⟨r, ?_⟩
        rwa [page_addTable]
        rintro rfl
        simp [page, hnone] at hr
  · intro r g hg
    by_cases hr : r = .table d
    · subst hr
      obtain rfl : f = g := by simpa [page_addTable_self] using hg
      exact ⟨hf, _, by rw [Function.update_of_ne hdf, Function.update_self]⟩
    · rw [page_addTable hr] at hg
      obtain ⟨hV, c', hc'⟩ := hT.inHeap hg
      refine ⟨hV, ?_⟩
      rcases eq_or_ne g T.dir with rfl | hgd
      · exact ⟨_, Function.update_self ..⟩
      · exact ⟨c', by rw [Function.update_of_ne hgd, Function.update_of_ne (hold hg), hc']⟩
  · intro r r' g hg hg'
    by_cases hr : r = .table d <;> by_cases hr' : r' = .table d
    · rw [hr, hr']
    · subst hr
      obtain rfl : f = g := by simpa [page_addTable_self] using hg
      rw [page_addTable hr'] at hg'
      exact absurd rfl (hold hg')
    · subst hr'
      obtain rfl : f = g := by simpa [page_addTable_self] using hg'
      rw [page_addTable hr] at hg
      exact absurd rfl (hold hg)
    · rw [page_addTable hr] at hg
      rw [page_addTable hr'] at hg'
      exact hT.inj hg hg'

/-- A new page table changes no meaning. -/
lemma view_addTable (hfree : h f = none) (x y : Option Page) :
    (T.addTable d f).view (Function.update (Function.update h f x) T.dir y) = T.view h := by
  ext k : 2
  · simp only [Tables.view, page_addTable (show (.user k : Role) ≠ .table d by simp)]
    cases hpage : T.page (.user k) with
    | none => rfl
    | some g =>
        obtain ⟨-, c, hc⟩ := hT.inHeap hpage
        have hgd : g ≠ T.dir := hT.ne_of_role hpage (q := .dir) rfl (by simp)
        have hgf : g ≠ f := by
          rintro rfl
          simp [hfree] at hc
        simp [Tables.addTable, hgd, hgf]
  · rfl

/-- The contents of a user page change. -/
lemma setUser (hn : T.page (.user n) = some f) (c : Page) :
    T.Rep L (Function.update h f (some c)) := by
  have hne : ∀ {r g}, T.page r = some g → r ≠ .user n → g ≠ f := fun hr hne =>
    hT.ne_of_role hr hn hne
  refine ⟨?_, ?_, hT.noTab, ?_, ?_, hT.inj⟩
  · obtain ⟨c', hc', hword⟩ := hT.dirPage
    exact ⟨c', by rw [Function.update_of_ne (hne (r := .dir) rfl (by simp)), hc'], hword⟩
  · intro d g hd
    obtain ⟨hlt, c', hc', hword⟩ := hT.tabPage hd
    exact ⟨hlt, c', by rw [Function.update_of_ne (hne (r := .table d) hd (by simp)), hc'], hword⟩
  · intro g c' hg
    rcases eq_or_ne g f with rfl | hgf
    · exact ⟨_, hn⟩
    · rw [Function.update_of_ne hgf] at hg
      exact hT.role hg
  · intro r g hr
    obtain ⟨hV, c', hc'⟩ := hT.inHeap hr
    refine ⟨hV, ?_⟩
    rcases eq_or_ne g f with rfl | hgf
    · exact ⟨c, Function.update_self ..⟩
    · exact ⟨c', by rw [Function.update_of_ne hgf, hc']⟩

lemma view_setUser (hn : T.page (.user n) = some f) (c : Page) :
    T.view (Function.update h f (some c)) =
      { T.view h with
        user := Function.update (T.view h).user n (some (pteFlags (T.pte n), c)) } := by
  ext k : 2
  · by_cases hk : k = n
    · subst hk
      simp [Tables.view, hn]
    · simp only [Tables.view, Function.update_of_ne hk]
      cases hpage : T.page (.user k) with
      | none => rfl
      | some g =>
          have hgf : g ≠ f := hT.ne_of_role hpage hn (by simpa using hk)
          simp [hgf]
  · rfl

end Rep

end Tables

end Xv6Lottery.Mem
