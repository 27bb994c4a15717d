import Xv6Lottery.Mem.Image
import Xv6Lottery.Mem.Boot
import Xv6Lottery.Library.Run
import Mathlib.Data.List.ReduceOption

/-!
The memory of all processes, in any interleaving of the kernel code that works on it.

* `MemSys`: physical memory, and for each entry of the process table what its kernel code has
  left to do. A process in user mode reads and writes memory, grows or shrinks it, forks or
  exits; a zombie is freed by a `wait`. One action is one access to physical memory, or one call
  of `kalloc` or `kfree`.
* `AbsStep`: what the processes should see. Every process has a memory of its own: `fork` copies
  it, `sbrk` adds pages of zeros or takes pages away, and a load answers what was last stored.
* `memory_private`: **every run is one in which the memories are private.**
* `pages_accounted`: **every page is on the free list or belongs to one process.**
  `boot_accounted`, `xv6_accounted`: the same from boot on.
* `kernel_goes_on`: **no kernel code panics, faults or uses a page that is not its own**, except
  at boot for want of memory.
* `shrunk_to_zero_panics`: processes that give back all of their memory have to be excluded. The
  pages are gone, but the size stays, and the next `fork` panics.
-/

namespace Xv6Lottery.Mem

open Library

/-! ### The system -/

/-- What a user process asks for. -/
inductive MemCall (ι : Type) where
  | sbrk (n : ℤ)
  | load (va : ℕ)
  | store (va w : ℕ)
  /-- `fork`, with the entry that `allocproc` takes for the child -/
  | fork (child : ι)

/-- What can be seen of a process. -/
inductive MemEvent (ι : Type) where
  | booted
  | sbrk (n r : ℤ)
  | load (va : ℕ) (r : Option ℕ)
  | store (va w : ℕ) (ok : Bool)
  | fork (child : ι) (ok : Bool)
  | exit
  | freed
  deriving DecidableEq

/-- The end of a call: what can be seen, the memory of the caller and that of the child. -/
structure Answer (ι : Type) where
  event : MemEvent ι
  mine : ProcMem
  child : Option ProcMem

/-- The kernel code of a call. -/
def MemCall.code {ι : Type} (L : Layout) (p : ProcMem) : MemCall ι → Kern (Answer ι)
  | .sbrk n => do
      let (r, p') ← growproc p n
      return ⟨.sbrk n r, p', none⟩
  | .load va => do
      let r ← userLoad p.pgdir va
      return ⟨.load va r, p, none⟩
  | .store va w => do
      let ok ← userStore p.pgdir va w
      return ⟨.store va w ok, p, none⟩
  | .fork child => do
      let q ← Mem.fork L p
      return ⟨.fork child q.isSome, p, q⟩

/-- An entry of the process table. -/
inductive Slot (ι : Type) where
  | unused
  /-- taken for a child by a process that forks -/
  | embryo (parent : ι)
  /-- the first process, while `userinit` makes its memory -/
  | boot (t : Kern (ProcMem × Bool))
  /-- the first process without its page: it faults at its first instruction -/
  | lost (p : ProcMem)
  | user (p : ProcMem)
  /-- inside a call, with the entry it has taken for a child -/
  | busy (child : Option ι) (t : Kern (Answer ι))
  | zombie (p : ProcMem)
  /-- a `wait` frees the memory -/
  | freeing (t : Kern Unit)

/-- Physical memory and the process table. -/
structure MemSys (ι : Type) where
  ram : Ram
  slot : ι → Slot ι

/-- The actions of the system. -/
inductive MemAct (ι : Type) where
  | begin (i : ι) (c : MemCall ι)
  /-- the next access to physical memory of the kernel code for the entry `i` -/
  | step (i : ι)
  /-- the kernel code for the entry `i` is at its end -/
  | ret (i : ι)
  | exit (i : ι)
  | wait (i : ι)

namespace MemSys

variable {ι : Type} [DecidableEq ι]

/-- The entry `i` changes. -/
def put (s : MemSys ι) (i : ι) (x : Slot ι) : MemSys ι :=
  { s with slot := Function.update s.slot i x }

/-- The effect of an action, if it is possible. -/
def act (L : Layout) (s : MemSys ι) : MemAct ι → Option (Option (ι × MemEvent ι) × MemSys ι)
  | .begin i c =>
      match s.slot i with
      | .user p =>
          match c with
          | .fork j =>
              match s.slot j with
              | .unused =>
                  some (none,
                    (s.put j (.embryo i)).put i (.busy (some j) ((MemCall.fork j).code L p)))
              | _ => none
          | c => some (none, s.put i (.busy none (c.code L p)))
      | _ => none
  | .step i =>
      match s.slot i with
      | .boot t => (t.step (kmem L) s.ram).map fun tm =>
          (none, { s.put i (.boot tm.1) with ram := tm.2 })
      | .busy j t => (t.step (kmem L) s.ram).map fun tm =>
          (none, { s.put i (.busy j tm.1) with ram := tm.2 })
      | .freeing t => (t.step (kmem L) s.ram).map fun tm =>
          (none, { s.put i (.freeing tm.1) with ram := tm.2 })
      | _ => none
  | .ret i =>
      match s.slot i with
      | .boot (.ret (p, true)) => some (some (i, .booted), s.put i (.user p))
      | .boot (.ret (p, false)) => some (none, s.put i (.lost p))
      | .busy none (.ret a) => some (some (i, a.event), s.put i (.user a.mine))
      | .busy (some j) (.ret a) =>
          some (some (i, a.event),
            (s.put j (a.child.elim .unused .user)).put i (.user a.mine))
      | .freeing (.ret ()) => some (some (i, .freed), s.put i .unused)
      | _ => none
  | .exit i =>
      match s.slot i with
      | .user p => some (some (i, .exit), s.put i (.zombie p))
      | _ => none
  | .wait i =>
      match s.slot i with
      | .zombie p => some (none, s.put i (.freeing (Mem.wait p)))
      | _ => none

/-- The system as a guarded system. -/
def guarded (L : Layout) : Guarded (MemSys ι) (MemAct ι) (Option (ι × MemEvent ι)) where
  Enabled s a := (s.act L a).isSome
  next s a := ((s.act L a).map Prod.snd).getD s
  event s a := ((s.act L a).map Prod.fst).getD none

/-- The size of the process in user mode at an entry. -/
def size (s : MemSys ι) (i : ι) : ℕ :=
  match s.slot i with
  | .user p => p.sz
  | _ => 0

/-- Addresses are of 32 bits, words are aligned, and the argument of `sbrk` is an `int`. -/
def Proper : MemCall ι → Prop
  | .sbrk n => IsInt n
  | .load va | .store va _ => va < 2 ^ 32 ∧ va % 4 = 0
  | .fork _ => True

/-- Calls are proper, and no process gives back all of its memory. -/
def Careful (s : MemSys ι) : MemAct ι → Prop
  | .begin i (.sbrk n) => IsInt n ∧ (0 ≤ n ∨ s.size i + n ≠ 0)
  | .begin _ c => Proper c
  | _ => True

instance (c : MemCall ι) : Decidable (Proper c) := by
  cases c <;> dsimp only [Proper] <;> infer_instance

instance (s : MemSys ι) (a : MemAct ι) : Decidable (s.Careful a) := by
  rcases a with ⟨i, c⟩ | _ | _ | _ | _
  · cases c <;> dsimp only [Careful] <;> infer_instance
  all_goals exact isTrue trivial

instance (L : Layout) (s : MemSys ι) (a : MemAct ι) : Decidable ((guarded L).Enabled s a) :=
  inferInstanceAs (Decidable (_ = true))

/-- The system at boot: `userinit` is about to make the memory of the process `first`. -/
def start (L : Layout) (init : Page) (m : Ram) (first : ι) : MemSys ι :=
  ⟨m, Function.update (fun _ => .unused) first (.boot (userinit L init))⟩

end MemSys

/-! ### Private memories -/

/-- What the processes should see: every process has a memory of its own. -/
inductive AbsStep {ι : Type} [DecidableEq ι] (L : Layout) (init : Page)
    (A : ι → Option Image) : ι × MemEvent ι → (ι → Option Image) → Prop
  | booted {i : ι} (hi : A i = none) :
      AbsStep L init A (i, .booted) (Function.update A i (some (.first L init)))
  | grew {i : ι} {a : Image} {n : ℤ} (hi : A i = some a) :
      AbsStep L init A (i, .sbrk n 0) (Function.update A i (some (a.grow n)))
  | stayed {i : ι} {n : ℤ} : AbsStep L init A (i, .sbrk n (-1)) A
  | loaded {i : ι} {a : Image} {va : ℕ} (hi : A i = some a) :
      AbsStep L init A (i, .load va (a.view.load va)) A
  | stored {i : ι} {a : Image} {va w : ℕ} (hi : A i = some a) :
      AbsStep L init A
        (i, .store va w (a.view.access va (PTE_W ||| PTE_U)).isSome)
        (Function.update A i (some (a.store va w)))
  | forked {i j : ι} {a : Image} (hi : A i = some a) (hj : A j = none) :
      AbsStep L init A (i, .fork j true) (Function.update A j (some a))
  | alone {i j : ι} : AbsStep L init A (i, .fork j false) A
  | exit {i : ι} {a : Image} (hi : A i = some a) :
      AbsStep L init A (i, .exit) (Function.update A i none)
  | freed {i : ι} (hi : A i = none) : AbsStep L init A (i, .freed) A

/-! ### The invariant -/

section Invariant

variable {ι : Type} {L : Layout} {init : Page}

/-- What the end of a call promises, for a caller with the memory `a`. -/
inductive Answers (L : Layout) (a : Image) : Option ι → Answer ι → Heap ℕ Page → Prop
  | grew {n : ℤ} {p : ProcMem} {h : Heap ℕ Page} (hh : Holds L h p (a.grow n)) :
      Answers L a none ⟨.sbrk n 0, p, none⟩ h
  | stayed {n : ℤ} {p : ProcMem} {h : Heap ℕ Page} (hh : Holds L h p a) :
      Answers L a none ⟨.sbrk n (-1), p, none⟩ h
  | loaded {va : ℕ} {p : ProcMem} {h : Heap ℕ Page} (hh : Holds L h p a) :
      Answers L a none ⟨.load va (a.view.load va), p, none⟩ h
  | stored {va w : ℕ} {p : ProcMem} {h : Heap ℕ Page} (hh : Holds L h p (a.store va w)) :
      Answers L a none ⟨.store va w (a.view.access va (PTE_W ||| PTE_U)).isSome, p, none⟩ h
  | forked {j : ι} {p q : ProcMem} {h hq : Heap ℕ Page} (hh : Holds L h p a)
      (hhq : Holds L hq q a) (hd : h.Disjoint hq) :
      Answers L a (some j) ⟨.fork j true, p, some q⟩ (h.union hq)
  | alone {j : ι} {p : ProcMem} {h : Heap ℕ Page} (hh : Holds L h p a) :
      Answers L a (some j) ⟨.fork j false, p, none⟩ h

/-- No halt is allowed. -/
def Never (_ : Stop) : Prop := False

/-- An entry of the process table with the pages it owns, and the memory that its process should
see. -/
def SlotOk (L : Layout) (init : Page) (x : Option Image) (h : Heap ℕ Page) : Slot ι → Prop
  | .unused => x = none ∧ h = Heap.empty
  | .embryo _ => x = none ∧ h = Heap.empty
  | .boot t => x = none ∧
      wp L.pages BootFails (fun r h' =>
        (r.2 = true → Holds L h' r.1 (.first L init)) ∧ (r.2 = false → Lost L init h' r.1)) t h
  | .lost p => x = none ∧ Lost L init h p
  | .user p => ∃ a, x = some a ∧ Holds L h p a
  | .busy j t => ∃ a, x = some a ∧ wp L.pages Never (Answers L a j) t h
  | .zombie p => x = none ∧ ∃ a, Holds L h p a
  | .freeing t => x = none ∧ wp L.pages Never (fun _ h' => h' = Heap.empty) t h

variable [DecidableEq ι]

/-- Every entry has its own pages, those in `K` are the kernel's, and a process that forks has
taken the child's entry. -/
structure MemSys.Inv (L : Layout) (init : Page) (K : Heap ℕ Page) (A : ι → Option Image)
    (s : MemSys ι) : Prop where
  owned : ∃ S, ∃ heap : Option ι → Heap ℕ Page, Owned (kmem L) s.ram S heap ∧ heap none = K ∧
    ∀ i, SlotOk L init (A i) (heap (some i)) (s.slot i)
  embryo : ∀ {i j t}, s.slot i = .busy (some j) t → s.slot j = .embryo i

/-- One entry changes, with its pages and its memory. -/
lemma slots_update {A : ι → Option Image} {heap : Option ι → Heap ℕ Page} {slot : ι → Slot ι}
    (hs : ∀ k, SlotOk L init (A k) (heap (some k)) (slot k)) {i : ι} {x : Slot ι}
    {h : Heap ℕ Page} {y : Option Image} (hi : SlotOk L init y h x) (k : ι) :
    SlotOk L init (Function.update A i y k) (Function.update heap (some i) h (some k))
      (Function.update slot i x k) := by
  rcases eq_or_ne k i with rfl | hk
  · simpa using hi
  · rw [Function.update_of_ne hk, Function.update_of_ne (by simpa using hk),
      Function.update_of_ne hk]
    exact hs k

omit [DecidableEq ι] in
/-- The kernel code of a call does what it should. -/
lemma MemCall.code_spec {h : Heap ℕ Page} {p : ProcMem} {a : Image} (hh : Holds L h p a) :
    (∀ n, IsInt n → (0 ≤ n ∨ p.sz + n ≠ 0) →
      wp L.pages Never (Answers L a (none : Option ι)) ((MemCall.sbrk n).code L p) h) ∧
    (∀ va < 2 ^ 32,
      wp L.pages Never (Answers L a (none : Option ι)) ((MemCall.load va).code L p) h) ∧
    (∀ va < 2 ^ 32, ∀ w,
      wp L.pages Never (Answers L a (none : Option ι)) ((MemCall.store va w).code L p) h) ∧
    ∀ j : ι, wp L.pages Never (Answers L a (some j)) ((MemCall.fork j).code L p) h := by
  refine ⟨fun n hn hsome => ?_, fun va hva => ?_, fun va hva w => ?_, fun j => ?_⟩
  · rw [MemCall.code, wp_bind]
    exact growproc_spec hh hn hsome (fun h' hh' => .stayed hh') fun p' h' hh' => .grew hh'
  · obtain ⟨hwhole, hsz, hstack, h₁, c, hm, hsep, rfl⟩ := hh
    rw [MemCall.code]
    refine wp_call (userLoad_spec (Q := fun r h' => r = a.view.load va ∧ h' = h₁) hm
      hwhole.kernel hva ⟨rfl, rfl⟩) (Heap.disjoint_single hsep) ?_
    rintro _ _ ⟨rfl, rfl⟩ -
    exact .loaded ⟨hwhole, hsz, hstack, _, c, hm, hsep, rfl⟩
  · obtain ⟨hwhole, hsz, hstack, h₁, c, hm, hsep, rfl⟩ := hh
    rw [MemCall.code]
    refine wp_call (userStore_spec (Q := fun r h' =>
      r = (a.view.access va (PTE_W ||| PTE_U)).isSome ∧ Maps L h' p.pgdir (a.view.store va w)) hm
      hwhole.kernel hva fun h' hm' => ⟨rfl, hm'⟩) (Heap.disjoint_single hsep) ?_
    rintro _ h' ⟨rfl, hm'⟩ hd
    exact .stored ⟨hwhole.store va w, hsz, hstack, h', c, hm', hd.single_none, rfl⟩
  · rw [MemCall.code, wp_bind]
    exact fork_spec hh (Answers.alone hh) fun q hq hhq hd => Answers.forked hh hhq hd

namespace MemSys

variable {K : Heap ℕ Page} {A : ι → Option Image} {s s' : MemSys ι} {e : Option (ι × MemEvent ι)}

/-- A change that makes or ends no `fork`. -/
lemma Inv.of_put (hinv : s.Inv L init K A) {i : ι} {x : Slot ι} {m : Ram} {A' : ι → Option Image}
    (hne : ∀ k, s.slot i ≠ .embryo k)
    (hx : ∀ j t, x = .busy (some j) t → ∃ t', s.slot i = .busy (some j) t')
    (howned : ∃ S, ∃ heap : Option ι → Heap ℕ Page, Owned (kmem L) m S heap ∧ heap none = K ∧
      ∀ k, SlotOk L init (A' k) (heap (some k)) (Function.update s.slot i x k)) :
    Inv L init K A' { s.put i x with ram := m } := by
  refine ⟨howned, ?_⟩
  intro k j t hk
  have hold : ∃ t', s.slot k = .busy (some j) t' := by
    rcases eq_or_ne k i with rfl | hki
    · exact hx j t (by simpa [put] using hk)
    · exact ⟨t, by simpa [put, hki] using hk⟩
  obtain ⟨t', hk'⟩ := hold
  have hj := hinv.embryo hk'
  refine (Function.update_of_ne ?_ _ _).trans hj
  rintro rfl
  exact hne k hj

/-- A step of kernel code that is correct over the pages of its entry. -/
lemma Inv.code_step {α : Type} {i : ι} {t t' : Kern α} {m : Ram} {E : Stop → Prop}
    {Q : α → Heap ℕ Page → Prop} {x : Slot ι} (hinv : s.Inv L init K A)
    (hne : ∀ k, s.slot i ≠ .embryo k)
    (hx : ∀ j t, x = .busy (some j) t → ∃ t', s.slot i = .busy (some j) t')
    (hwp : ∀ h, SlotOk L init (A i) h (s.slot i) → wp L.pages E Q t h)
    (hok : ∀ h, wp L.pages E Q t' h → SlotOk L init (A i) h x)
    (hstep : t.step (kmem L) s.ram = some (t', m)) :
    Inv L init K A { s.put i x with ram := m } := by
  obtain ⟨S, heap, ho, hK, hs⟩ := hinv.owned
  obtain ⟨h', S', hwp', ho'⟩ := ho.step (i := some i) (hwp _ (hs i)) hstep
  refine hinv.of_put hne hx ⟨S', _, ho', (Function.update_of_ne (by simp) _ _).trans hK,
    fun k => ?_⟩
  have hk := slots_update hs (i := i) (hok h' hwp') k
  rwa [Function.update_eq_self] at hk

/-- An entry changes that keeps its pages. -/
lemma Inv.keep (hinv : s.Inv L init K A) {S : Set ℕ} {heap : Option ι → Heap ℕ Page}
    (ho : Owned (kmem L) s.ram S heap) (hK : heap none = K)
    (hs : ∀ k, SlotOk L init (A k) (heap (some k)) (s.slot k))
    {i : ι} {x : Slot ι} {y : Option Image} (hne : ∀ k, s.slot i ≠ .embryo k)
    (hx : ∀ j t, x ≠ .busy (some j) t) (hok : SlotOk L init y (heap (some i)) x) :
    Inv L init K (Function.update A i y) (s.put i x) := by
  refine hinv.of_put (m := s.ram) hne (fun j t h => absurd h (hx j t))
    ⟨S, heap, ho, hK, fun k => ?_⟩
  have hk := slots_update hs (i := i) hok k
  rwa [Function.update_eq_self] at hk

/-- The same for a change that cannot be seen. -/
lemma Inv.keep_same (hinv : s.Inv L init K A) {S : Set ℕ} {heap : Option ι → Heap ℕ Page}
    (ho : Owned (kmem L) s.ram S heap) (hK : heap none = K)
    (hs : ∀ k, SlotOk L init (A k) (heap (some k)) (s.slot k))
    {i : ι} {x : Slot ι} (hne : ∀ k, s.slot i ≠ .embryo k) (hx : ∀ j t, x ≠ .busy (some j) t)
    (hok : SlotOk L init (A i) (heap (some i)) x) : Inv L init K A (s.put i x) := by
  have h := hinv.keep ho hK hs hne hx hok
  rwa [Function.update_eq_self] at h

section Fork

variable {i j k : ι} {x y : Slot ι}

lemma put_put_of_ne (hki : k ≠ i) (hkj : k ≠ j) :
    ((s.put j x).put i y).slot k = s.slot k := by
  simp [put, hki, hkj]

lemma put_put_child (hij : i ≠ j) : ((s.put j x).put i y).slot j = x := by
  simp [put, hij.symm]

lemma put_put_parent : ((s.put j x).put i y).slot i = y := by
  simp [put]

/-- A process begins to fork: an unused entry is taken for the child. -/
lemma Inv.begin_fork {p : ProcMem} (hinv : s.Inv L init K A) (hi : s.slot i = .user p)
    (hj : s.slot j = .unused) :
    Inv L init K A ((s.put j (.embryo i)).put i (.busy (some j) ((MemCall.fork j).code L p))) := by
  have hij : i ≠ j := by
    rintro rfl
    simp [hi] at hj
  obtain ⟨S, heap, ho, hK, hs⟩ := hinv.owned
  refine ⟨⟨S, heap, ho, hK, fun k => ?_⟩, ?_⟩
  · have hsk := hs k
    rcases eq_or_ne k i with rfl | hki
    · rw [hi] at hsk
      obtain ⟨a, hA, hh⟩ := hsk
      rw [put_put_parent]
      exact ⟨a, hA, (MemCall.code_spec hh).2.2.2 j⟩
    · rcases eq_or_ne k j with rfl | hkj
      · rw [hj] at hsk
        rwa [put_put_child hij]
      · rwa [put_put_of_ne hki hkj]
  · intro k l t hk
    rcases eq_or_ne k i with rfl | hki
    · rw [put_put_parent] at hk
      obtain ⟨hl, -⟩ := Slot.busy.inj hk
      obtain rfl := Option.some.inj hl
      exact put_put_child hij
    · rcases eq_or_ne k j with rfl | hkj
      · rw [put_put_child hij] at hk
        cases hk
      · rw [put_put_of_ne hki hkj] at hk
        have hl := hinv.embryo hk
        rw [put_put_of_ne, hl]
        · rintro rfl
          simp [hi] at hl
        · rintro rfl
          simp [hj] at hl

/-- After a `fork`, the other processes that fork still have taken their children's entries. -/
lemma Inv.embryo_put {t₀ : Kern (Answer ι)} {p : ProcMem} (hinv : s.Inv L init K A)
    (hi : s.slot i = .busy (some j) t₀) (hx : ∀ l t, x ≠ .busy (some l) t) {l : ι}
    {t : Kern (Answer ι)} (hk : ((s.put j x).put i (.user p)).slot k = .busy (some l) t) :
    ((s.put j x).put i (.user p)).slot l = .embryo k := by
  have hj := hinv.embryo hi
  have hij : i ≠ j := by
    rintro rfl
    simp [hi] at hj
  rcases eq_or_ne k i with rfl | hki
  · rw [put_put_parent] at hk
    cases hk
  · rcases eq_or_ne k j with rfl | hkj
    · rw [put_put_child hij] at hk
      exact absurd hk (hx l t)
    · rw [put_put_of_ne hki hkj] at hk
      have hl := hinv.embryo hk
      rw [put_put_of_ne, hl]
      · rintro rfl
        simp [hi] at hl
      · rintro rfl
        exact hki (Slot.embryo.inj (hl.symm.trans hj))

/-- A `fork` ends: the child has its memory, or its entry is unused again. -/
lemma Inv.end_fork {a : Answer ι} (hinv : s.Inv L init K A)
    (hi : s.slot i = .busy (some j) (.ret a)) :
    ∃ A', AbsStep L init A (i, a.event) A' ∧
      Inv L init K A' ((s.put j (a.child.elim .unused .user)).put i (.user a.mine)) := by
  obtain ⟨S, heap, ho, hK, hs⟩ := hinv.owned
  have hj := hinv.embryo hi
  have hij : i ≠ j := by
    rintro rfl
    simp [hi] at hj
  obtain ⟨hheap, hpages⟩ : ∃ h, heap (some i) = h := ⟨_, rfl⟩
  have hsi := hs i
  have hsj := hs j
  rw [hi, hpages] at hsi
  rw [hj] at hsj
  obtain ⟨b, hA, hans⟩ := hsi
  obtain ⟨hAj, hempty⟩ := hsj
  cases hans with
  | @forked _ p q h hq hh hhq hd =>
      refine ⟨Function.update A j (some b), .forked hA hAj, ⟨S, _, ho.give (j := some j) hpages hd
        hempty (by simpa using hij.symm), ?_, fun k => ?_⟩, hinv.embryo_put hi (by simp)⟩
      · rw [Function.update_of_ne (by simp), Function.update_of_ne (by simp), hK]
      rcases eq_or_ne k i with rfl | hki
      · rw [put_put_parent, Function.update_of_ne hij, Function.update_of_ne (by simpa using hij),
          Function.update_self]
        exact ⟨b, hA, hh⟩
      · rcases eq_or_ne k j with rfl | hkj
        · rw [put_put_child hij, Function.update_self, Function.update_self]
          exact ⟨b, rfl, hhq⟩
        · rw [put_put_of_ne hki hkj, Function.update_of_ne hkj,
            Function.update_of_ne (by simpa using hkj), Function.update_of_ne (by simpa using hki)]
          exact hs k
  | @alone _ p h hh =>
      refine ⟨A, .alone, ⟨S, heap, ho, hK, fun k => ?_⟩, hinv.embryo_put hi (by simp)⟩
      rcases eq_or_ne k i with rfl | hki
      · rw [put_put_parent, hpages]
        exact ⟨b, hA, hh⟩
      · rcases eq_or_ne k j with rfl | hkj
        · rw [put_put_child hij]
          exact ⟨hAj, hempty⟩
        · rw [put_put_of_ne hki hkj]
          exact hs k

end Fork

/-! ### Steps and runs -/

/-- A step that cannot be seen. -/
lemma Inv.unseen (hinv : s'.Inv L init K A) :
    ∃ A', (∀ x ∈ (none : Option (ι × MemEvent ι)), AbsStep L init A x A') ∧
      ((none : Option (ι × MemEvent ι)) = none → A' = A) ∧ s'.Inv L init K A' :=
  ⟨A, by simp, fun _ => rfl, hinv⟩

/-- A step that can be seen. -/
lemma Inv.seen {x : ι × MemEvent ι} {A' : ι → Option Image} (habs : AbsStep L init A x A')
    (hinv : s'.Inv L init K A') :
    ∃ A', (∀ y ∈ some x, AbsStep L init A y A') ∧ (some x = none → A' = A) ∧
      s'.Inv L init K A' :=
  ⟨A', by simpa using habs, by simp, hinv⟩

/-- A call that is no `fork` ends. -/
lemma Inv.end_call {i : ι} {a : Answer ι} (hinv : s.Inv L init K A)
    (hi : s.slot i = .busy none (.ret a)) :
    ∃ A', AbsStep L init A (i, a.event) A' ∧ Inv L init K A' (s.put i (.user a.mine)) := by
  obtain ⟨S, heap, ho, hK, hs⟩ := hinv.owned
  have hsi := hs i
  rw [hi] at hsi
  obtain ⟨b, hA, hans⟩ := hsi
  have hkeep : ∀ {y p}, (∃ c, y = some c ∧ Holds L (heap (some i)) p c) →
      Inv L init K (Function.update A i y) (s.put i (.user p)) := fun hy =>
    hinv.keep ho hK hs (by simp [hi]) (by simp) hy
  have hsame : Function.update A i (some b) = A := by rw [← hA, Function.update_eq_self]
  cases hans with
  | grew hh => exact ⟨_, .grew hA, hkeep ⟨_, rfl, hh⟩⟩
  | stayed hh => exact ⟨A, .stayed, hsame ▸ hkeep ⟨b, rfl, hh⟩⟩
  | loaded hh => exact ⟨A, .loaded hA, hsame ▸ hkeep ⟨b, rfl, hh⟩⟩
  | stored hh => exact ⟨_, .stored hA, hkeep ⟨_, rfl, hh⟩⟩

/-- **One step**: the invariant is kept, and what can be seen of it is a step of the private
memories. -/
lemma Inv.step (hinv : s.Inv L init K A) (hstep : (guarded L).Step Careful s e s') :
    ∃ A', (∀ x ∈ e, AbsStep L init A x A') ∧ (e = none → A' = A) ∧ s'.Inv L init K A' := by
  obtain ⟨a, hen, hcare, he, hs⟩ := hstep
  obtain ⟨⟨e₁, s₁⟩, hact⟩ := Option.isSome_iff_exists.mp (show (s.act L a).isSome from hen)
  obtain rfl : e₁ = e := by simpa [guarded, hact] using he
  obtain rfl : s₁ = s' := by simpa [guarded, hact] using hs
  clear he hs hen
  obtain ⟨S, heap, ho, hK, hs⟩ := hinv.owned
  cases a with
  | begin i c =>
      have hsi := hs i
      cases hi : s.slot i with
      | user p =>
          rw [hi] at hsi
          obtain ⟨b, hA, hh⟩ := hsi
          obtain ⟨hsbrk, hload, hstore, -⟩ := MemCall.code_spec (ι := ι) hh
          -- a call other than `fork`
          have hcall : ∀ t, wp L.pages Never (Answers L b none) t (heap (some i)) →
              Inv L init K A (s.put i (.busy none t)) := fun t ht =>
            hinv.keep_same ho hK hs (by simp [hi]) (by simp) ⟨b, hA, ht⟩
          cases c with
          | fork j =>
              cases hj : s.slot j with
              | unused =>
                  obtain ⟨rfl, rfl⟩ : none = e₁ ∧ _ = s₁ := by simpa [act, hi, hj] using hact
                  exact (hinv.begin_fork hi hj).unseen
              | _ => simp [act, hi, hj] at hact
          | sbrk n =>
              obtain ⟨rfl, rfl⟩ : none = e₁ ∧ _ = s₁ := by simpa [act, hi] using hact
              have hsize : s.size i = p.sz := by rw [size, hi]
              have hcare' : IsInt n ∧ (0 ≤ n ∨ s.size i + n ≠ 0) := hcare
              rw [hsize] at hcare'
              exact (hcall _ (hsbrk n hcare'.1 hcare'.2)).unseen
          | load va =>
              obtain ⟨rfl, rfl⟩ : none = e₁ ∧ _ = s₁ := by simpa [act, hi] using hact
              exact (hcall _ (hload va (And.left hcare))).unseen
          | store va w =>
              obtain ⟨rfl, rfl⟩ : none = e₁ ∧ _ = s₁ := by simpa [act, hi] using hact
              exact (hcall _ (hstore va (And.left hcare) w)).unseen
      | _ => simp [act, hi] at hact
  | step i =>
      have hsi := hs i
      cases hi : s.slot i with
      | boot t =>
          rw [hi] at hsi
          obtain ⟨⟨t', m⟩, ht, rfl, rfl⟩ : ∃ tm, t.step (kmem L) s.ram = some tm ∧ none = e₁ ∧
              { s.put i (.boot tm.1) with ram := tm.2 } = s₁ := by
            simpa [act, hi] using hact
          refine Inv.unseen (hinv.code_step (by simp [hi]) (by simp) (fun h hh => ?_)
            (fun h hh => ⟨hsi.1, hh⟩) ht)
          rw [hi] at hh
          exact hh.2
      | busy j t =>
          rw [hi] at hsi
          obtain ⟨b, hA, -⟩ := hsi
          obtain ⟨⟨t', m⟩, ht, rfl, rfl⟩ : ∃ tm, t.step (kmem L) s.ram = some tm ∧ none = e₁ ∧
              { s.put i (.busy j tm.1) with ram := tm.2 } = s₁ := by
            simpa [act, hi] using hact
          refine Inv.unseen (hinv.code_step (E := Never) (Q := Answers L b j) (by simp [hi])
            (fun k t₁ hk => ?_) (fun h hh => ?_) (fun h hh => ⟨b, hA, hh⟩) ht)
          · obtain ⟨rfl, -⟩ := Slot.busy.inj hk
            exact ⟨t, hi⟩
          · rw [hi] at hh
            obtain ⟨b', hA', hh'⟩ := hh
            obtain rfl : b = b' := Option.some.inj (hA.symm.trans hA')
            exact hh'
      | freeing t =>
          rw [hi] at hsi
          obtain ⟨⟨t', m⟩, ht, rfl, rfl⟩ : ∃ tm, t.step (kmem L) s.ram = some tm ∧ none = e₁ ∧
              { s.put i (.freeing tm.1) with ram := tm.2 } = s₁ := by
            simpa [act, hi] using hact
          refine Inv.unseen (hinv.code_step (by simp [hi]) (by simp) (fun h hh => ?_)
            (fun h hh => ⟨hsi.1, hh⟩) ht)
          rw [hi] at hh
          exact hh.2
      | _ => simp [act, hi] at hact
  | ret i =>
      have hsi := hs i
      cases hi : s.slot i with
      | boot t =>
          rw [hi] at hsi
          obtain ⟨hA, hwp⟩ := hsi
          cases t with
          | ret r =>
              obtain ⟨p, mapped⟩ := r
              cases mapped with
              | true =>
                  obtain ⟨rfl, rfl⟩ : some (i, .booted) = e₁ ∧ _ = s₁ := by
                    simpa [act, hi] using hact
                  exact Inv.seen (.booted hA)
                    (hinv.keep ho hK hs (by simp [hi]) (by simp) ⟨_, rfl, hwp.1 rfl⟩)
              | false =>
                  obtain ⟨rfl, rfl⟩ : none = e₁ ∧ _ = s₁ := by simpa [act, hi] using hact
                  exact Inv.unseen
                    (hinv.keep_same ho hK hs (by simp [hi]) (by simp) ⟨hA, hwp.2 rfl⟩)
          | _ => simp [act, hi] at hact
      | busy j t =>
          cases t with
          | ret a =>
              cases j with
              | none =>
                  obtain ⟨rfl, rfl⟩ : some (i, a.event) = e₁ ∧ _ = s₁ := by
                    simpa [act, hi] using hact
                  obtain ⟨A', habs, hinv'⟩ := hinv.end_call hi
                  exact hinv'.seen habs
              | some j =>
                  obtain ⟨rfl, rfl⟩ : some (i, a.event) = e₁ ∧ _ = s₁ := by
                    simpa [act, hi] using hact
                  obtain ⟨A', habs, hinv'⟩ := hinv.end_fork hi
                  exact hinv'.seen habs
          | _ => cases j <;> simp [act, hi] at hact
      | freeing t =>
          rw [hi] at hsi
          obtain ⟨hA, hwp⟩ := hsi
          cases t with
          | ret r =>
              obtain ⟨rfl, rfl⟩ : some (i, .freed) = e₁ ∧ _ = s₁ := by
                simpa [act, hi] using hact
              exact Inv.seen (.freed hA)
                (hinv.keep_same ho hK hs (by simp [hi]) (by simp) ⟨hA, hwp⟩)
          | _ => simp [act, hi] at hact
      | _ => simp [act, hi] at hact
  | exit i =>
      have hsi := hs i
      cases hi : s.slot i with
      | user p =>
          rw [hi] at hsi
          obtain ⟨b, hA, hh⟩ := hsi
          obtain ⟨rfl, rfl⟩ : some (i, .exit) = e₁ ∧ _ = s₁ := by simpa [act, hi] using hact
          exact Inv.seen (.exit hA)
            (hinv.keep ho hK hs (by simp [hi]) (by simp) ⟨rfl, b, hh⟩)
      | _ => simp [act, hi] at hact
  | wait i =>
      have hsi := hs i
      cases hi : s.slot i with
      | zombie p =>
          rw [hi] at hsi
          obtain ⟨hA, b, hh⟩ := hsi
          obtain ⟨rfl, rfl⟩ : none = e₁ ∧ _ = s₁ := by simpa [act, hi] using hact
          exact Inv.unseen
            (hinv.keep_same ho hK hs (by simp [hi]) (by simp) ⟨hA, wait_spec hh rfl⟩)
      | _ => simp [act, hi] at hact

/-- The invariant holds at boot. -/
lemma start_inv {m : Ram} {S : Set ℕ} (hm : FreePages L m S) (first : ι) :
    (start L init m first).Inv L init (taken L m S) fun _ => none := by
  refine ⟨⟨S, _, owned_taken hm, rfl, fun i => ?_⟩, ?_⟩
  · rcases eq_or_ne i first with rfl | hi
    · simp only [start, Function.update_self]
      exact ⟨rfl, userinit_spec (fun _ _ hl => ⟨by simp, fun _ => hl⟩)
        fun _ _ hh => ⟨fun _ => hh, by simp⟩⟩
    · simp only [start, Function.update_of_ne hi]
      exact ⟨rfl, rfl⟩
  · intro i j t hi
    rcases eq_or_ne i first with rfl | hne
    · simp [start] at hi
    · simp [start, hne] at hi

/-- Runs of the system in which no process gives back all of its memory. -/
abbrev Runs (L : Layout) (init : Page) (m : Ram) (first : ι) :
    List (Option (ι × MemEvent ι)) → MemSys ι → Prop :=
  Run ((guarded L).Step Careful) (start L init m first)

/-- The invariant along a run, whose events are a run of the private memories. -/
lemma inv_run {m : Ram} {S : Set ℕ} (hm : FreePages L m S) {first : ι}
    {tr : List (Option (ι × MemEvent ι))} (hrun : Runs L init m first tr s) :
    ∃ A, Run (AbsStep L init) (fun _ => none) tr.reduceOption A ∧
      s.Inv L init (taken L m S) A := by
  induction hrun with
  | nil => exact ⟨_, .nil, start_inv hm first⟩
  | @snoc tr e s₁ s₂ _ hstep ih =>
      obtain ⟨A, hA, hinv⟩ := ih
      obtain ⟨A', hseen, hunseen, hinv'⟩ := hinv.step hstep
      refine ⟨A', ?_, hinv'⟩
      rw [List.reduceOption_append]
      cases e with
      | none => simpa [hunseen rfl] using hA
      | some x => exact hA.snoc (hseen x rfl)

end MemSys

end Invariant

/-! ### Results -/

section Results

variable {ι : Type} [DecidableEq ι] {L : Layout} {init : Page} {m : Ram} {S : Set ℕ}
  {first : ι} {tr : List (Option (ι × MemEvent ι))} {s : MemSys ι}

open MemSys

/-- **Private memories.** In every interleaving of the processes' kernel code, what the processes
see of memory is what they would see if each had a memory of its own, which `fork` copies; in
particular, a load answers what the process has last stored there, or what its parent had there
at the `fork`. -/
theorem memory_private (hm : FreePages L m S) (hrun : Runs L init m first tr s) :
    ∃ A, Run (AbsStep L init) (fun _ => none) tr.reduceOption A ∧
      ∀ i p, s.slot i = .user p → ∃ a, A i = some a ∧ a.sz = p.sz := by
  obtain ⟨A, hA, hinv⟩ := inv_run hm hrun
  refine ⟨A, hA, fun i p hi => ?_⟩
  obtain ⟨S, heap, -, -, hs⟩ := hinv.owned
  have hsi := hs i
  rw [hi] at hsi
  obtain ⟨a, ha, hh⟩ := hsi
  exact ⟨a, ha, hh.sz.symm⟩

/-- The first process boots and forks; then the child writes to its page, while the parent reads
from the same address. -/
def writeRead : List (MemAct ℕ) :=
  List.replicate 18 (.step 0) ++ [.ret 0, .begin 0 (.fork 1)] ++ List.replicate 20 (.step 0) ++
    [.ret 0, .begin 1 (.store 8 99), .begin 0 (.load 8), .step 1, .step 0, .step 1, .step 0,
      .step 1, .step 0, .ret 1, .ret 0]

theorem memory_private_writeRead :
    ((guarded tiny).trace (start tiny id tinyRam 0) writeRead).reduceOption =
      [(0, .booted), (0, .fork 1 true), (1, .store 8 99 true), (0, .load 8 (some 2))] ∧
    ∃ A, Run (AbsStep tiny id) (fun _ => none)
      ((guarded tiny).trace (start tiny id tinyRam 0) writeRead).reduceOption A ∧
      ∀ i p, ((guarded tiny).exec (start tiny id tinyRam 0) writeRead).slot i = .user p →
        ∃ a, A i = some a ∧ a.sz = p.sz := by
  obtain ⟨S, hS⟩ := tinyRam_free
  exact ⟨by decide +kernel, memory_private hS
    (show (guarded tiny).Allowed Careful (start tiny id tinyRam 0) writeRead by
      decide +kernel).run⟩

/-- The pages at the end of a call are the memory of the caller, and that of the child if there is
one. -/
def Answer.Has (L : Layout) (a : Answer ι) (h : Heap ℕ Page) : Prop :=
  match a.child with
  | none => ∃ x, Holds L h a.mine x
  | some q => ∃ x y h₁ h₂, Holds L h₁ a.mine x ∧ Holds L h₂ q y ∧ h₁.Disjoint h₂ ∧
      h = h₁.union h₂

omit [DecidableEq ι] in
lemma Answers.has {a : Image} {j : Option ι} {r : Answer ι} {h : Heap ℕ Page}
    (hr : Answers L a j r h) : r.Has L h := by
  cases hr with
  | grew hh | stayed hh | loaded hh | stored hh | alone hh => exact ⟨_, hh⟩
  | forked hh hhq hd => exact ⟨_, _, _, _, hh, hhq, hd, rfl⟩

/-- The pages of an entry. Where kernel code is at work, they are those with which it will end,
after what it still has to allocate and to free, in the memory of the caller and of the child, or
in no pages if it frees a zombie. -/
def Slot.Has (L : Layout) (init : Page) (h : Heap ℕ Page) : Slot ι → Prop
  | .unused => h = Heap.empty
  | .embryo _ => h = Heap.empty
  | .boot t => wp L.pages BootFails (fun r h' =>
      (r.2 = true → ∃ a, Holds L h' r.1 a) ∧ (r.2 = false → Lost L init h' r.1)) t h
  | .lost p => Lost L init h p
  | .user p => ∃ a, Holds L h p a
  | .busy _ t => wp L.pages Never (fun a h' => a.Has L h') t h
  | .zombie p => ∃ a, Holds L h p a
  | .freeing t => wp L.pages Never (fun _ h' => h' = Heap.empty) t h

omit [DecidableEq ι] in
lemma SlotOk.has {x : Option Image} {h : Heap ℕ Page} {y : Slot ι}
    (hy : SlotOk L init x h y) : y.Has L init h := by
  cases y with
  | unused => exact hy.2
  | embryo j => exact hy.2
  | boot t => exact wp_mono (fun r h' hr => ⟨fun hok => ⟨_, hr.1 hok⟩, hr.2⟩) hy.2
  | lost p => exact hy.2
  | user p =>
      obtain ⟨a, -, hh⟩ := hy
      exact ⟨a, hh⟩
  | busy j t =>
      obtain ⟨a, -, hwp⟩ := hy
      exact wp_mono (fun r h' hr => hr.has) hwp
  | zombie p => exact hy.2
  | freeing t => exact hy.2

/-- Who has which page: those in `S'` are free, those that were not free in `m` are the kernel's,
and each entry of the process table has its own. -/
structure Accounts (L : Layout) (init : Page) (m : Ram) (S : Set ℕ) (s : MemSys ι) (S' : Set ℕ)
    (heap : Option ι → Heap ℕ Page) : Prop where
  owned : Owned (kmem L) s.ram S' heap
  kernel : ∀ f c, heap none f = some c ↔ f ∈ L.pages ∧ f ∉ S ∧ m.page f = c
  entry : ∀ i, (s.slot i).Has L init (heap (some i))

lemma accounts_run (hm : FreePages L m S) (hrun : Runs L init m first tr s) :
    ∃ S', ∃ heap : Option ι → Heap ℕ Page, Accounts L init m S s S' heap := by
  obtain ⟨A, -, hinv⟩ := inv_run hm hrun
  obtain ⟨S', heap, ho, hK, hs⟩ := hinv.owned
  refine ⟨S', heap, ho, fun f c => ?_, fun i => (hs i).has⟩
  rw [hK]
  exact taken_eq_some

/-- **Every page is accounted for.** At every moment of every run, each page is on the free list,
which is in order, or belongs to one process or to the kernel, which has just the pages that it
had before the first process. A process at rest has just the pages of its page directory, page
tables, user memory and kernel stack, each for one of these; an unused entry has none. So no page
is lost, freed twice or used twice, but for the first process's own if it could not be mapped. -/
theorem pages_accounted (hm : FreePages L m S) (hrun : Runs L init m first tr s) :
    ∃ S', ∃ heap : Option ι → Heap ℕ Page, Accounts L init m S s S' heap :=
  accounts_run hm hrun

/-- The first process boots and forks; the child exits and is freed. -/
def bootForkWait : List (MemAct ℕ) :=
  List.replicate 18 (.step 0) ++ [.ret 0, .begin 0 (.fork 1)] ++ List.replicate 20 (.step 0) ++
    [.ret 0, .exit 1, .wait 1] ++ List.replicate 2 (.step 1)

theorem pages_accounted_bootForkWait :
    ∃ S, FreePages tiny tinyRam S ∧ ∃ S', ∃ heap : Option ℕ → Heap ℕ Page,
      Accounts tiny id tinyRam S ((guarded tiny).exec (start tiny id tinyRam 0) bootForkWait) S'
        heap := by
  obtain ⟨S, hS⟩ := tinyRam_free
  exact ⟨S, hS, pages_accounted hS
    (show (guarded tiny).Allowed Careful (start tiny id tinyRam 0) bootForkWait by
      decide +kernel).run⟩

/-- The accounts from boot on: the kernel has its page tables and the stacks of the other
processors. -/
lemma boot_run {mid n : ℕ} {page : ℕ → Page} (hend : L.kend ≤ mid) (hmid : mid % PGSIZE = 0)
    (htop : mid ≤ p2v L.phystop) (hphys : L.phystop % PGSIZE = 0)
    (hmain : mainMemory L mid n page = some m) (hrun : Runs L init m first tr s) :
    ∃ S', ∃ heap : Option ι → Heap ℕ Page, Owned (kmem L) s.ram S' heap ∧
      KernelHas L n (heap none) ∧ ∀ i, (s.slot i).Has L init (heap (some i)) := by
  obtain ⟨S, hS, hK⟩ := mainMemory_freePages hend hmid htop hphys hmain
  obtain ⟨S', heap, hacc⟩ := accounts_run hS hrun
  refine ⟨S', heap, hacc.owned, ?_, hacc.entry⟩
  have hsame : heap none = taken L m S := by
    funext f
    refine Option.ext fun c => ?_
    rw [hacc.kernel f c, taken_eq_some]
  rwa [hsame]

/-- **From boot on every page is accounted for.** If `main` gets as far as `userinit`, then in
every run after that each page between the end of the kernel and the top of memory is on the free
list, or is the kernel's page directory or one of its page tables, or the stack of another
processor, or belongs to one process. -/
theorem boot_accounted {mid n : ℕ} {page : ℕ → Page} (hend : L.kend ≤ mid)
    (hmid : mid % PGSIZE = 0) (htop : mid ≤ p2v L.phystop) (hphys : L.phystop % PGSIZE = 0)
    (hmain : mainMemory L mid n page = some m) (hrun : Runs L init m first tr s) :
    ∃ S', ∃ heap : Option ι → Heap ℕ Page, Owned (kmem L) s.ram S' heap ∧
      KernelHas L n (heap none) ∧ ∀ i, (s.slot i).Has L init (heap (some i)) :=
  boot_run hend hmid htop hphys hmain hrun

theorem boot_accounted_tiny :
    ∃ S', ∃ heap : Option ℕ → Heap ℕ Page,
      Owned (kmem tiny) ((guarded tiny).exec (start tiny id tinyRam 0) bootForkWait).ram S' heap ∧
      KernelHas tiny 1 (heap none) ∧
      ∀ i, (((guarded tiny).exec (start tiny id tinyRam 0) bootForkWait).slot i).Has tiny id
        (heap (some i)) :=
  boot_accounted (by decide) (by decide) (by decide) (by decide) mainMemory_tiny
    (show (guarded tiny).Allowed Careful (start tiny id tinyRam 0) bootForkWait by
      decide +kernel).run

/-- The same for the layout of xv6, whose first page table maps 4 MB. -/
theorem xv6_accounted {data kend : ℕ} (hmod : data % PGSIZE = 0) (htext : EXTMEM < data)
    (hdata : data < PHYSTOP) (hend : p2v data ≤ kend) (hlow : kend ≤ p2v (4 * 1024 * 1024))
    {n : ℕ} {page : ℕ → Page}
    (hmain : mainMemory (xv6Layout data kend hmod htext hdata hend) (p2v (4 * 1024 * 1024)) n page =
      some m)
    (hrun : Runs (xv6Layout data kend hmod htext hdata hend) init m first tr s) :
    ∃ S', ∃ heap : Option ι → Heap ℕ Page,
      Owned (kmem (xv6Layout data kend hmod htext hdata hend)) s.ram S' heap ∧
      KernelHas (xv6Layout data kend hmod htext hdata hend) n (heap none) ∧
      ∀ i, (s.slot i).Has (xv6Layout data kend hmod htext hdata hend) init (heap (some i)) :=
  boot_run hlow (by decide) (show p2v (4 * 1024 * 1024) ≤ p2v PHYSTOP by decide)
    (show PHYSTOP % PGSIZE = 0 by decide) hmain hrun

/-- Kernel code that can go on, and has the page that it is about to read, to change or to
free. -/
def Goes {α : Type} (L : Layout) (m : Ram) (h : Heap ℕ Page) (t : Kern α) : Prop :=
  (t.step (kmem L) m).isSome ∧ ∀ v ∈ t.page, v ∈ L.pages ∧ (h v).isSome

omit [DecidableEq ι] in
/-- Kernel code that is correct over the pages of its entry. -/
lemma goes_of_wp {α : Type} {S' : Set ℕ} {heap : Option ι → Heap ℕ Page}
    (ho : Owned (kmem L) m S' heap) {E : Stop → Prop} {Q : α → Heap ℕ Page → Prop} {i : ι}
    {t : Kern α} (hwp : wp L.pages E Q t (heap (some i))) :
    (∃ r, t = .ret r) ∨ (∃ e, t = .halt e ∧ E e) ∨ Goes L m (heap (some i)) t := by
  rcases ho.progress (i := some i) hwp with ⟨r, hr, -⟩ | he | ⟨hstep, hown⟩
  · exact Or.inl ⟨r, hr⟩
  · exact Or.inr (Or.inl he)
  · refine Or.inr (Or.inr ⟨hstep, fun v hv => ?_⟩)
    obtain ⟨c, hc⟩ := Option.isSome_iff_exists.mp (hown v hv)
    exact ⟨ho.valid hc, hown v hv⟩

/-- **The kernel goes on.** No code of `fork`, `sbrk`, `wait` or a user access panics or faults,
and it reads, changes and frees no page but those of its own entry; only the boot may end for want
of memory. -/
theorem kernel_goes_on (hm : FreePages L m S) (hrun : Runs L init m first tr s) :
    ∃ S', ∃ heap : Option ι → Heap ℕ Page, Accounts L init m S s S' heap ∧ ∀ i,
      (∀ j t, s.slot i = .busy j t → (∃ a, t = .ret a) ∨ Goes L s.ram (heap (some i)) t) ∧
      (∀ t, s.slot i = .freeing t → t = .ret () ∨ Goes L s.ram (heap (some i)) t) ∧
      ∀ t, s.slot i = .boot t →
        (∃ r, t = .ret r) ∨ (∃ e, t = .halt e ∧ BootFails e) ∨
          Goes L s.ram (heap (some i)) t := by
  obtain ⟨S', heap, hacc⟩ := accounts_run hm hrun
  refine ⟨S', heap, hacc, fun i => ?_⟩
  have hi := hacc.entry i
  refine ⟨fun j t ht => ?_, fun t ht => ?_, fun t ht => ?_⟩
  · rw [ht] at hi
    rcases goes_of_wp hacc.owned hi with hr | ⟨e, -, he⟩ | hgo
    · exact Or.inl hr
    · exact he.elim
    · exact Or.inr hgo
  · rw [ht] at hi
    rcases goes_of_wp hacc.owned hi with ⟨r, rfl⟩ | ⟨e, -, he⟩ | hgo
    · exact Or.inl rfl
    · exact he.elim
    · exact Or.inr hgo
  · rw [ht] at hi
    exact goes_of_wp hacc.owned hi

/-- The first process boots, and is half through its first `fork`. -/
def halfFork : List (MemAct ℕ) :=
  List.replicate 18 (.step 0) ++ [.ret 0, .begin 0 (.fork 1)] ++ List.replicate 10 (.step 0)

/-- The state in which it is. -/
def halfForked : MemSys ℕ := (guarded tiny).exec (start tiny id tinyRam 0) halfFork

/-- The process is inside a system call. -/
def Slot.inCall : Slot ι → Bool
  | .busy _ _ => true
  | _ => false

theorem kernel_goes_on_halfFork :
    (halfForked.slot 0).inCall ∧
    ∃ S, FreePages tiny tinyRam S ∧ ∃ S', ∃ heap : Option ℕ → Heap ℕ Page,
      Accounts tiny id tinyRam S halfForked S' heap ∧ ∀ i,
      (∀ j t, halfForked.slot i = .busy j t →
        (∃ a, t = .ret a) ∨ Goes tiny halfForked.ram (heap (some i)) t) ∧
      (∀ t, halfForked.slot i = .freeing t →
        t = .ret () ∨ Goes tiny halfForked.ram (heap (some i)) t) ∧
      ∀ t, halfForked.slot i = .boot t →
        (∃ r, t = .ret r) ∨ (∃ e, t = .halt e ∧ BootFails e) ∨
          Goes tiny halfForked.ram (heap (some i)) t := by
  obtain ⟨S, hS⟩ := tinyRam_free
  exact ⟨by decide +kernel, S, hS, kernel_goes_on hS
    (show (guarded tiny).Allowed Careful (start tiny id tinyRam 0) halfFork by
      decide +kernel).run⟩

/-- The reason why the kernel code of an entry has stopped. -/
def Slot.stopped : Slot ι → Option Stop
  | .busy _ (.halt e) => some e
  | .freeing (.halt e) => some e
  | .boot (.halt e) => some e
  | _ => none

/-- Proper calls, with no restriction on what processes give back. -/
def ProperCalls (_ : MemSys ι) : MemAct ι → Prop
  | .begin _ c => Proper c
  | _ => True

instance (s : MemSys ι) (a : MemAct ι) : Decidable (ProperCalls s a) := by
  cases a <;> dsimp only [ProperCalls] <;> infer_instance

/-- The first process boots, gives back its page with `sbrk`, and forks. -/
def shrinkFork : List (MemAct ℕ) :=
  List.replicate 18 (.step 0) ++ [.ret 0, .begin 0 (.sbrk (-4096))] ++
    List.replicate 4 (.step 0) ++ [.ret 0, .begin 0 (.fork 1)] ++ List.replicate 11 (.step 0)

/-- **A process that gives back all of its memory makes the kernel panic** at its next `fork`:
`sbrk` has unmapped the page, but the size is still 4096. -/
theorem shrunk_to_zero_panics :
    ∃ tr s, Run ((guarded tiny).Step ProperCalls) (start tiny id tinyRam 0) tr s ∧
      (s.slot 0).stopped = some (.panic "copyuvm: page not present") :=
  ⟨_, _, (show (guarded tiny).Allowed ProperCalls (start tiny id tinyRam 0) shrinkFork by
    decide +kernel).run, by decide +kernel⟩

end Results

end Xv6Lottery.Mem
