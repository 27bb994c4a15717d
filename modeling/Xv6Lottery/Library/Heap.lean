import Mathlib.Data.Set.Insert
import Mathlib.Logic.Function.Basic

/-!
Programs that share an allocator of pages, and who owns which page.

* `Routine`: a program as the tree of its calls. It allocates and frees pages and reads and changes
  what is in them; between two calls other programs may run.
* `Heap`: pages with what is in them. A program is understood over the pages it owns.
* `wp`: the weakest precondition of a program over its own pages, whatever the allocator
  answers. `wp_bind` composes, `wp_mono` weakens, and `wp_frame` says that the pages that a
  program is not given stay as they are.
* `Allocator`: a memory with an allocator in it, and the laws of the allocator.
* `Owned`: every page is free or belongs to one thread, which knows what is in it.
  `Owned.step` is the rule for programs that run side by side: a thread whose program is correct
  over its own pages makes a step, and the others do not notice. `Owned.progress`: it can always
  go on, and uses no pages but its own. `Owned.ends`: without the others it comes to its end.
-/

namespace Library

/-! ### Programs -/

/-- A program that ends with an answer in `α` or halts with `ε`. The addresses of the pages are
in `F`, their contents in `κ`. -/
inductive Routine (F κ ε α : Type) where
  | ret (a : α)
  | halt (e : ε)
  | alloc (k : Option F → Routine F κ ε α)
  | free (f : F) (k : Routine F κ ε α)
  | read (f : F) (k : κ → Routine F κ ε α)
  | modify (f : F) (g : κ → κ) (k : Routine F κ ε α)

namespace Routine

variable {F κ ε α β : Type}

/-- One program after another. -/
def bind : Routine F κ ε α → (α → Routine F κ ε β) → Routine F κ ε β
  | .ret a, q => q a
  | .halt e, _ => .halt e
  | .alloc k, q => .alloc fun f => (k f).bind q
  | .free f k, q => .free f (k.bind q)
  | .read f k, q => .read f fun c => (k c).bind q
  | .modify f g k, q => .modify f g (k.bind q)

instance : Monad (Routine F κ ε) where
  pure := .ret
  bind := .bind

end Routine

/-! ### Heaps -/

/-- Pages with what is in them. -/
abbrev Heap (F κ : Type) := F → Option κ

namespace Heap

variable {F κ : Type} {h r r' : Heap F κ} {f : F}

/-- The pages of two heaps together. -/
def union (h r : Heap F κ) : Heap F κ := fun f => (h f).or (r f)

/-- No page is in both heaps. -/
def Disjoint (h r : Heap F κ) : Prop := ∀ f, h f = none ∨ r f = none

/-- No pages. -/
def empty : Heap F κ := fun _ => none

/-- One page. -/
def single [DecidableEq F] (f : F) (c : κ) : Heap F κ := Function.update empty f (some c)

lemma union_eq_none : h.union r f = none ↔ h f = none ∧ r f = none := by
  simp [union]

lemma union_of_some {c : κ} (hf : h f = some c) : h.union r f = some c := by
  simp [union, hf]

lemma union_of_none (hf : h f = none) : h.union r f = r f := by
  simp [union, hf]

@[simp] lemma empty_union : (empty : Heap F κ).union r = r := rfl

lemma union_assoc : (h.union r).union r' = h.union (r.union r') := by
  funext f
  simp [union, Option.or_assoc]

namespace Disjoint

lemma empty_left : (empty : Heap F κ).Disjoint r := fun _ => Or.inl rfl

lemma symm (hd : h.Disjoint r) : r.Disjoint h := fun f => (hd f).symm

lemma right_none (hd : h.Disjoint r) {c : κ} (hf : h f = some c) : r f = none :=
  (hd f).resolve_left (by simp [hf])

lemma union_comm (hd : h.Disjoint r) : h.union r = r.union h := by
  funext f
  rcases hd f with hf | hf <;> simp [union, hf]

lemma union_left (hd : h.Disjoint r') (hd' : r.Disjoint r') : (h.union r).Disjoint r' := by
  intro f
  rcases hd f with hf | hf
  · rcases hd' f with hf' | hf'
    · exact Or.inl (union_eq_none.mpr ⟨hf, hf'⟩)
    · exact Or.inr hf'
  · exact Or.inr hf

lemma of_union_left (hd : (h.union r).Disjoint r') : h.Disjoint r' ∧ r.Disjoint r' := by
  constructor
  all_goals
    intro f
    rcases hd f with hf | hf
    · simp [(union_eq_none.mp hf).1, (union_eq_none.mp hf).2]
    · exact Or.inr hf

end Disjoint

section Update

variable [DecidableEq F] {c : κ}

lemma update_union (x : Option κ) (hf : r f = none) :
    Function.update (h.union r) f x = union (Function.update h f x) r := by
  funext g
  rcases eq_or_ne g f with rfl | hg
  · simp [union, hf]
  · simp [union, hg]

lemma Disjoint.update (hd : h.Disjoint r) (x : Option κ) (hf : r f = none) :
    Disjoint (Function.update h f x) r := by
  intro g
  rcases eq_or_ne g f with rfl | hg
  · exact Or.inr hf
  · rw [Function.update_of_ne hg]
    exact hd g

lemma disjoint_single (hf : h f = none) : h.Disjoint (single f c) := by
  intro g
  rcases eq_or_ne g f with rfl | hg
  · exact Or.inl hf
  · exact Or.inr (by simp [single, hg, empty])

lemma Disjoint.single_none (hd : h.Disjoint (single f c)) : h f = none :=
  (hd f).resolve_right (by simp [single])

lemma union_single_self (hf : h f = none) : h.union (single f c) f = some c := by
  rw [union_of_none hf, single, Function.update_self]

lemma union_single (hf : h f = none) : h.union (single f c) = Function.update h f (some c) := by
  funext g
  rcases eq_or_ne g f with rfl | hg
  · simp [union, single, hf]
  · simp [union, single, hg, empty]

lemma free_single (hf : h f = none) : Function.update (h.union (single f c)) f none = h := by
  rw [union_single hf, Function.update_idem, ← hf, Function.update_eq_self]

end Update

end Heap

/-! ### Weakest preconditions -/

section Wp

variable {F κ ε α β : Type} [DecidableEq F] {V : Set F} {E : ε → Prop}

/-- The weakest precondition over the pages that a program owns. The allocator may fail, or
answer any page of `V` that the program does not own; a halt has to be allowed by `E`. -/
def wp (V : Set F) (E : ε → Prop) (Q : α → Heap F κ → Prop) : Routine F κ ε α → Heap F κ → Prop
  | .ret a, h => Q a h
  | .halt e, _ => E e
  | .alloc k, h => wp V E Q (k none) h ∧ ∀ f ∈ V, h f = none → ∀ c,
      wp V E Q (k (some f)) (Function.update h f (some c))
  | .free f k, h => f ∈ V ∧ (h f).isSome ∧ wp V E Q k (Function.update h f none)
  | .read f k, h => ∃ c, h f = some c ∧ wp V E Q (k c) h
  | .modify f g k, h => ∃ c, h f = some c ∧ wp V E Q k (Function.update h f (some (g c)))

variable {Q Q' : α → Heap F κ → Prop} {p : Routine F κ ε α} {h r : Heap F κ}

/-- Sequential composition. -/
lemma wp_bind {q : α → Routine F κ ε β} {R : β → Heap F κ → Prop} :
    wp V E R (p >>= q) h ↔ wp V E (fun a => wp V E R (q a)) p h := by
  change wp V E R (p.bind q) h ↔ _
  induction p generalizing h with
  | ret a => rfl
  | halt e => rfl
  | alloc k ih => simp only [Routine.bind, wp, ih]
  | free f k ih => simp only [Routine.bind, wp, ih]
  | read f k ih => simp only [Routine.bind, wp, ih]
  | modify f g k ih => simp only [Routine.bind, wp, ih]

/-- A weaker postcondition. -/
lemma wp_mono (hQ : ∀ a h, Q a h → Q' a h) (hp : wp V E Q p h) : wp V E Q' p h := by
  induction p generalizing h with
  | ret a => exact hQ a h hp
  | halt e => exact hp
  | alloc k ih => exact ⟨ih _ hp.1, fun f hV hf c => ih _ (hp.2 f hV hf c)⟩
  | free f k ih => exact ⟨hp.1, hp.2.1, ih hp.2.2⟩
  | read f k ih =>
      obtain ⟨c, hc, hk⟩ := hp
      exact ⟨c, hc, ih _ hk⟩
  | modify f g k ih =>
      obtain ⟨c, hc, hk⟩ := hp
      exact ⟨c, hc, ih hk⟩

/-- **The frame rule.** -/
lemma wp_frame (hp : wp V E Q p h) (hd : h.Disjoint r) :
    wp V E (fun a h' => ∃ h₁, Q a h₁ ∧ h₁.Disjoint r ∧ h' = h₁.union r) p (h.union r) := by
  induction p generalizing h with
  | ret a => exact ⟨h, hp, hd, rfl⟩
  | halt e => exact hp
  | alloc k ih =>
      refine ⟨ih _ hp.1 hd, fun f hV hf c => ?_⟩
      obtain ⟨hh, hr⟩ := Heap.union_eq_none.mp hf
      rw [Heap.update_union _ hr]
      exact ih _ (hp.2 f hV hh c) (hd.update _ hr)
  | free f k ih =>
      obtain ⟨c, hc⟩ := Option.isSome_iff_exists.mp hp.2.1
      have hr := hd.right_none hc
      refine ⟨hp.1, by simp [Heap.union_of_some hc], ?_⟩
      rw [Heap.update_union _ hr]
      exact ih hp.2.2 (hd.update _ hr)
  | read f k ih =>
      obtain ⟨c, hc, hk⟩ := hp
      exact ⟨c, Heap.union_of_some hc, ih _ hk hd⟩
  | modify f g k ih =>
      obtain ⟨c, hc, hk⟩ := hp
      have hr := hd.right_none hc
      refine ⟨c, Heap.union_of_some hc, ?_⟩
      rw [Heap.update_union _ hr]
      exact ih hk (hd.update _ hr)

/-- A call with the pages it needs, the others being set aside. -/
lemma wp_call {q : α → Routine F κ ε β} {R : β → Heap F κ → Prop} (hp : wp V E Q p h)
    (hd : h.Disjoint r) (hq : ∀ a h', Q a h' → h'.Disjoint r → wp V E R (q a) (h'.union r)) :
    wp V E R (p >>= q) (h.union r) := by
  rw [wp_bind]
  refine wp_mono ?_ (wp_frame hp hd)
  rintro a _ ⟨h', hQ, hd', rfl⟩
  exact hq a h' hQ hd'

end Wp

/-! ### Programs side by side -/

/-- A memory with an allocator in it. `Ok m S` says that the free pages of `m` are those in `S`,
and that the allocator's own data, which may be kept in the free pages, are in order. -/
structure Allocator (M F κ : Type) where
  page : M → F → κ
  set : M → F → κ → M
  alloc : M → Option (F × M)
  free : M → F → Option M
  /-- the pages that the allocator gives out -/
  valid : Set F
  Ok : M → Set F → Prop
  alloc_ok : ∀ {m S f m'}, Ok m S → alloc m = some (f, m') →
    f ∈ S ∧ f ∈ valid ∧ Ok m' (S \ {f}) ∧ ∀ g ∉ S, page m' g = page m g
  free_ok : ∀ {m S f}, Ok m S → f ∈ valid → f ∉ S →
    ∃ m', free m f = some m' ∧ Ok m' (insert f S) ∧ ∀ g ∉ insert f S, page m' g = page m g
  set_ok : ∀ {m S f} (c : κ), Ok m S → f ∉ S → Ok (set m f c) S ∧ page (set m f c) f = c ∧
    ∀ g, g ≠ f → page (set m f c) g = page m g

section Step

variable {M F κ ε α ι : Type} (A : Allocator M F κ)

/-- One call of a program, unless it is at its end or the call is refused. -/
def Routine.step (m : M) : Routine F κ ε α → Option (Routine F κ ε α × M)
  | .ret _ => none
  | .halt _ => none
  | .alloc k =>
      match A.alloc m with
      | none => some (k none, m)
      | some (f, m') => some (k (some f), m')
  | .free f k => (A.free m f).map fun m' => (k, m')
  | .read f k => some (k (A.page m f), m)
  | .modify f g k => some (k, A.set m f (g (A.page m f)))

/-- A program to its end, with no other at work, unless a call is refused. -/
def Routine.exec : Routine F κ ε α → M → Option (Except ε α × M)
  | .ret a, m => some (.ok a, m)
  | .halt e, m => some (.error e, m)
  | .alloc k, m =>
      match A.alloc m with
      | none => (k none).exec m
      | some (f, m') => (k (some f)).exec m'
  | .free f k, m => (A.free m f).bind fun m' => k.exec m'
  | .read f k, m => (k (A.page m f)).exec m
  | .modify f g k, m => k.exec (A.set m f (g (A.page m f)))

/-- The page that the next call of a program reads, changes or frees. -/
def Routine.page : Routine F κ ε α → Option F
  | .free f _ => some f
  | .read f _ => some f
  | .modify f _ _ => some f
  | _ => none

/-- Every page is free or belongs to one thread, which knows what is in it. -/
structure Owned (m : M) (S : Set F) (heap : ι → Heap F κ) : Prop where
  ok : A.Ok m S
  valid : ∀ {i f c}, heap i f = some c → f ∈ A.valid
  busy : ∀ {i f c}, heap i f = some c → f ∉ S
  one : ∀ {i j f c c'}, heap i f = some c → heap j f = some c' → i = j
  knows : ∀ {i f c}, heap i f = some c → A.page m f = c
  all : ∀ f ∈ A.valid, f ∈ S ∨ ∃ i c, heap i f = some c

variable {A} {m m' : M} {S S' : Set F} {heap : ι → Heap F κ} [DecidableEq ι] {i : ι}

/-- One thread's pages and the free ones change; the other threads' pages are kept. -/
lemma Owned.change (ho : Owned A m S heap) {h : Heap F κ} (ok : A.Ok m' S')
    (hvalid : ∀ f c, h f = some c → f ∈ A.valid)
    (hbusy : ∀ f c, h f = some c → f ∉ S' ∧ A.page m' f = c)
    (hnew : ∀ f c, h f = some c → f ∈ S ∨ ∃ c', heap i f = some c')
    (hfree : ∀ f ∈ S', f ∈ S ∨ ∃ c, heap i f = some c)
    (hkeep : ∀ f, f ∉ S → heap i f = none → A.page m' f = A.page m f)
    (hall : ∀ f, f ∈ S ∨ (∃ c, heap i f = some c) → f ∈ S' ∨ ∃ c, h f = some c) :
    Owned A m' S' (Function.update heap i h) where
  ok := ok
  valid {j f c} hj := by
    rcases eq_or_ne j i with rfl | hne
    · rw [Function.update_self] at hj
      exact hvalid f c hj
    · rw [Function.update_of_ne hne] at hj
      exact ho.valid hj
  busy {j f c} hj := by
    rcases eq_or_ne j i with rfl | hne
    · rw [Function.update_self] at hj
      exact (hbusy f c hj).1
    · rw [Function.update_of_ne hne] at hj
      intro hS
      rcases hfree f hS with hf | ⟨c', hf⟩
      · exact ho.busy hj hf
      · exact hne (ho.one hj hf)
  one {j k f c c'} hj hk := by
    -- a page of another thread was not free, and was not the thread's
    have hother : ∀ {l c}, l ≠ i → heap l f = some c → h f = none := by
      intro l c₁ hl hc₁
      rw [← Option.not_isSome_iff_eq_none, Option.isSome_iff_exists]
      rintro ⟨c₂, hc₂⟩
      rcases hnew f c₂ hc₂ with hf | ⟨c₃, hf⟩
      · exact ho.busy hc₁ hf
      · exact hl (ho.one hc₁ hf)
    rcases eq_or_ne j i with rfl | hji <;> rcases eq_or_ne k j with rfl | hkj
    · rfl
    · rw [Function.update_self] at hj
      rw [Function.update_of_ne hkj] at hk
      simp [hother hkj hk] at hj
    · rfl
    · rcases eq_or_ne k i with rfl | hki
      · rw [Function.update_of_ne hji] at hj
        rw [Function.update_self] at hk
        simp [hother hji hj] at hk
      · rw [Function.update_of_ne hji] at hj
        rw [Function.update_of_ne hki] at hk
        exact ho.one hj hk
  knows {j f c} hj := by
    rcases eq_or_ne j i with rfl | hne
    · rw [Function.update_self] at hj
      exact (hbusy f c hj).2
    · rw [Function.update_of_ne hne] at hj
      rw [← ho.knows hj]
      refine hkeep f (ho.busy hj) ?_
      rw [← Option.not_isSome_iff_eq_none, Option.isSome_iff_exists]
      rintro ⟨c', hf⟩
      exact hne (ho.one hj hf)
  all f hf := by
    have hmine : (f ∈ S ∨ ∃ c, heap i f = some c) →
        f ∈ S' ∨ ∃ j c, Function.update heap i h j f = some c := by
      intro hf'
      rcases hall f hf' with hS | ⟨c, hc⟩
      · exact Or.inl hS
      · exact Or.inr ⟨i, c, by rw [Function.update_self, hc]⟩
    rcases ho.all f hf with hS | ⟨j, c, hj⟩
    · exact hmine (Or.inl hS)
    · rcases eq_or_ne j i with rfl | hne
      · exact hmine (Or.inr ⟨c, hj⟩)
      · exact Or.inr ⟨j, c, by rw [Function.update_of_ne hne, hj]⟩

/-- A thread hands some of its pages to a thread that has none. -/
lemma Owned.give (ho : Owned A m S heap) {j : ι} {h r : Heap F κ} (hi : heap i = h.union r)
    (hd : h.Disjoint r) (hj : heap j = Heap.empty) (hij : j ≠ i) :
    Owned A m S (Function.update (Function.update heap i h) j r) := by
  have hfrom : ∀ {k f c}, Function.update (Function.update heap i h) j r k f = some c →
      (k = j ∧ r f = some c ∧ heap i f = some c) ∨ (k ≠ j ∧ heap k f = some c ∧
        (k = i → h f = some c)) := by
    intro k f c hk
    rcases eq_or_ne k j with rfl | hkj
    · rw [Function.update_self] at hk
      refine Or.inl ⟨rfl, hk, ?_⟩
      rw [hi, Heap.union_of_none (hd.symm.right_none hk), hk]
    · rw [Function.update_of_ne hkj] at hk
      rcases eq_or_ne k i with rfl | hki
      · rw [Function.update_self] at hk
        exact Or.inr ⟨hkj, by rw [hi, Heap.union_of_some hk], fun _ => hk⟩
      · rw [Function.update_of_ne hki] at hk
        exact Or.inr ⟨hkj, hk, fun h => absurd h hki⟩
  refine ⟨ho.ok, ?_, ?_, ?_, ?_, ?_⟩
  · intro k f c hk
    rcases hfrom hk with ⟨-, -, hf⟩ | ⟨-, hf, -⟩ <;> exact ho.valid hf
  · intro k f c hk
    rcases hfrom hk with ⟨-, -, hf⟩ | ⟨-, hf, -⟩ <;> exact ho.busy hf
  · intro k l f c c' hk hl
    rcases hfrom hk with ⟨rfl, hr, hf⟩ | ⟨hkj, hf, hh⟩ <;>
      rcases hfrom hl with ⟨rfl, hr', hf'⟩ | ⟨hlj, hf', hh'⟩
    · rfl
    · -- a page handed over is none of those that were kept
      simpa [hh' (ho.one hf' hf)] using hd.symm.right_none hr
    · simpa [hh (ho.one hf hf')] using hd.symm.right_none hr'
    · exact ho.one hf hf'
  · intro k f c hk
    rcases hfrom hk with ⟨-, -, hf⟩ | ⟨-, hf, -⟩ <;> exact ho.knows hf
  · intro f hV
    rcases ho.all f hV with hS | ⟨k, c, hk⟩
    · exact Or.inl hS
    · right
      rcases eq_or_ne k i with rfl | hki
      · rw [hi] at hk
        cases hf : h f with
        | some c' => exact ⟨k, c', by rw [Function.update_of_ne hij.symm, Function.update_self, hf]⟩
        | none => exact ⟨j, c, by rw [Function.update_self, ← hk, Heap.union_of_none hf]⟩
      · rcases eq_or_ne k j with rfl | hkj
        · rw [hj] at hk
          cases hk
        · exact ⟨k, c, by rw [Function.update_of_ne hkj, Function.update_of_ne hki, hk]⟩

variable [DecidableEq F] {E : ε → Prop} {Q : α → Heap F κ → Prop} {p p' : Routine F κ ε α}

/-- **Programs side by side.** A step of a thread whose program is correct over its own pages:
its program stays correct, and the other threads keep their pages. -/
lemma Owned.step (ho : Owned A m S heap) (hp : wp A.valid E Q p (heap i))
    (hstep : p.step A m = some (p', m')) :
    ∃ h S', wp A.valid E Q p' h ∧ Owned A m' S' (Function.update heap i h) := by
  cases p with
  | ret a => cases hstep
  | halt e => cases hstep
  | alloc k =>
      cases hA : A.alloc m with
      | none =>
          obtain ⟨rfl, rfl⟩ : k none = p' ∧ m = m' := by simpa [Routine.step, hA] using hstep
          refine ⟨heap i, S, hp.1, ?_⟩
          rwa [Function.update_eq_self]
      | some fm =>
          obtain ⟨f, m₁⟩ := fm
          obtain ⟨rfl, rfl⟩ : k (some f) = p' ∧ m₁ = m' := by
            simpa [Routine.step, hA] using hstep
          obtain ⟨hf, hV, hok, hkeep⟩ := A.alloc_ok ho.ok hA
          have hnone : heap i f = none := by
            rw [← Option.not_isSome_iff_eq_none, Option.isSome_iff_exists]
            rintro ⟨c, hc⟩
            exact ho.busy hc hf
          refine ⟨_, _, hp.2 f hV hnone (A.page m₁ f), ho.change hok ?_ ?_ ?_ ?_ ?_ ?_⟩
          · intro g c hg
            rcases eq_or_ne g f with rfl | hne
            · exact hV
            · rw [Function.update_of_ne hne] at hg
              exact ho.valid hg
          · intro g c hg
            rcases eq_or_ne g f with rfl | hne
            · simp at hg
              simp [hg]
            · rw [Function.update_of_ne hne] at hg
              exact ⟨fun hS => ho.busy hg hS.1,
                (hkeep g (ho.busy hg)).trans (ho.knows hg)⟩
          · intro g c hg
            rcases eq_or_ne g f with rfl | hne
            · exact Or.inl hf
            · exact Or.inr ⟨c, by rwa [Function.update_of_ne hne] at hg⟩
          · exact fun g hg => Or.inl hg.1
          · exact fun g hg _ => hkeep g hg
          · intro g hg
            rcases eq_or_ne g f with rfl | hne
            · exact Or.inr ⟨_, Function.update_self ..⟩
            · rw [Function.update_of_ne hne]
              exact hg.imp_left fun hS => ⟨hS, hne⟩
  | free f k =>
      obtain ⟨hV, hsome, hk⟩ := hp
      obtain ⟨c, hc⟩ := Option.isSome_iff_exists.mp hsome
      obtain ⟨m₁, hm, hok, hkeep⟩ := A.free_ok ho.ok hV (ho.busy hc)
      obtain ⟨rfl, rfl⟩ : k = p' ∧ m₁ = m' := by simpa [Routine.step, hm] using hstep
      refine ⟨_, _, hk, ho.change hok ?_ ?_ ?_ ?_ ?_ ?_⟩
      · intro g c' hg
        rcases eq_or_ne g f with rfl | hne
        · exact hV
        · rw [Function.update_of_ne hne] at hg
          exact ho.valid hg
      · intro g c' hg
        rcases eq_or_ne g f with rfl | hne
        · simp at hg
        · rw [Function.update_of_ne hne] at hg
          have hS : g ∉ insert f S := by
            rw [Set.mem_insert_iff, not_or]
            exact ⟨hne, ho.busy hg⟩
          exact ⟨hS, (hkeep g hS).trans (ho.knows hg)⟩
      · intro g c' hg
        rcases eq_or_ne g f with rfl | hne
        · exact Or.inr ⟨c, hc⟩
        · exact Or.inr ⟨c', by rwa [Function.update_of_ne hne] at hg⟩
      · rintro g (rfl | hg)
        · exact Or.inr ⟨c, hc⟩
        · exact Or.inl hg
      · intro g hg hnone
        refine hkeep g ?_
        rw [Set.mem_insert_iff, not_or]
        refine ⟨?_, hg⟩
        rintro rfl
        simp [hc] at hnone
      · intro g hg
        rcases eq_or_ne g f with rfl | hne
        · exact Or.inl (Set.mem_insert _ _)
        · rw [Function.update_of_ne hne]
          exact hg.imp_left (Set.mem_insert_of_mem f)
  | read f k =>
      obtain ⟨c, hc, hk⟩ := hp
      obtain ⟨rfl, rfl⟩ : k (A.page m f) = p' ∧ m = m' := by simpa [Routine.step] using hstep
      rw [ho.knows hc]
      refine ⟨heap i, S, hk, ?_⟩
      rwa [Function.update_eq_self]
  | modify f g k =>
      obtain ⟨c, hc, hk⟩ := hp
      obtain ⟨rfl, rfl⟩ : k = p' ∧ A.set m f (g (A.page m f)) = m' := by
        simpa [Routine.step] using hstep
      rw [ho.knows hc]
      obtain ⟨hok, hself, hkeep⟩ := A.set_ok (g c) ho.ok (ho.busy hc)
      refine ⟨_, S, hk, ho.change hok ?_ ?_ ?_ ?_ ?_ ?_⟩
      · intro b c' hb
        rcases eq_or_ne b f with rfl | hne
        · exact ho.valid hc
        · rw [Function.update_of_ne hne] at hb
          exact ho.valid hb
      · intro b c' hb
        rcases eq_or_ne b f with rfl | hne
        · obtain rfl : g c = c' := by simpa using hb
          exact ⟨ho.busy hc, hself⟩
        · rw [Function.update_of_ne hne] at hb
          exact ⟨ho.busy hb, (hkeep b hne).trans (ho.knows hb)⟩
      · intro b c' hb
        rcases eq_or_ne b f with rfl | hne
        · exact Or.inr ⟨c, hc⟩
        · exact Or.inr ⟨c', by rwa [Function.update_of_ne hne] at hb⟩
      · exact fun b hb => Or.inl hb
      · intro b _ hnone
        refine hkeep b ?_
        rintro rfl
        simp [hc] at hnone
      · intro b hb
        rcases eq_or_ne b f with rfl | hne
        · exact Or.inr ⟨_, Function.update_self ..⟩
        · rwa [Function.update_of_ne hne]

omit [DecidableEq ι] in
/-- A correct program is at its end, halts as it may, or can go on, and then it uses no pages but
its own. -/
lemma Owned.progress (ho : Owned A m S heap) (hp : wp A.valid E Q p (heap i)) :
    (∃ a, p = .ret a ∧ Q a (heap i)) ∨ (∃ e, p = .halt e ∧ E e) ∨
      (p.step A m).isSome ∧ ∀ f ∈ p.page, (heap i f).isSome := by
  cases p with
  | ret a => exact Or.inl ⟨a, rfl, hp⟩
  | halt e => exact Or.inr (Or.inl ⟨e, rfl, hp⟩)
  | alloc k =>
      refine Or.inr (Or.inr ⟨?_, by simp [Routine.page]⟩)
      simp only [Routine.step]
      split <;> rfl
  | free f k =>
      obtain ⟨c, hc⟩ := Option.isSome_iff_exists.mp hp.2.1
      obtain ⟨m₁, hm, -⟩ := A.free_ok ho.ok hp.1 (ho.busy hc)
      exact Or.inr (Or.inr ⟨by simp [Routine.step, hm], by simp [Routine.page, hc]⟩)
  | read f k =>
      obtain ⟨c, hc, -⟩ := hp
      exact Or.inr (Or.inr ⟨rfl, by simp [Routine.page, hc]⟩)
  | modify f g k =>
      obtain ⟨c, hc, -⟩ := hp
      exact Or.inr (Or.inr ⟨rfl, by simp [Routine.page, hc]⟩)

omit [DecidableEq ι] [DecidableEq F] in
lemma Routine.exec_of_step (hstep : p.step A m = some (p', m')) : p.exec A m = p'.exec A m' := by
  cases p with
  | ret a => cases hstep
  | halt e => cases hstep
  | alloc k =>
      simp only [Routine.step] at hstep
      split at hstep <;> rename_i heq <;> cases hstep <;> simp [Routine.exec, heq]
  | free f k =>
      obtain ⟨m₁, hm, heq⟩ := Option.map_eq_some_iff.mp hstep
      cases heq
      simp [Routine.exec, hm]
  | read f k =>
      cases hstep
      rfl
  | modify f g k =>
      cases hstep
      rfl

variable (A i E Q) in
/-- The program of the thread `i` comes to its end, with its pages as it promises. -/
def Routine.Ends (p : Routine F κ ε α) (m : M) (heap : ι → Heap F κ) : Prop :=
  ∃ r m' S' h, p.exec A m = some (r, m') ∧ Owned A m' S' (Function.update heap i h) ∧
    (∀ a, r = .ok a → Q a h) ∧ ∀ e, r = .error e → E e

/-- It comes to its end if it does so after one step. -/
lemma Owned.ends_of_step (ho : Owned A m S heap) (hp : wp A.valid E Q p (heap i))
    (hstep : p.step A m = some (p', m'))
    (hnext : ∀ {m S heap}, Owned A m S heap → wp A.valid E Q p' (heap i) →
      p'.Ends A i E Q m heap) : p.Ends A i E Q m heap := by
  obtain ⟨h₁, S₁, hp', ho'⟩ := ho.step hp hstep
  obtain ⟨r, m₂, S₂, h₂, hexec, ho₂, hend⟩ := hnext ho' (by rwa [Function.update_self])
  refine ⟨r, m₂, S₂, h₂, (Routine.exec_of_step hstep).trans hexec, ?_, hend⟩
  rwa [Function.update_idem] at ho₂

/-- **A correct program comes to its end.** -/
lemma Owned.ends (ho : Owned A m S heap) (hp : wp A.valid E Q p (heap i)) :
    p.Ends A i E Q m heap := by
  induction p generalizing m S heap with
  | ret a =>
      refine ⟨.ok a, m, S, heap i, rfl, by rwa [Function.update_eq_self], ?_, by simp⟩
      rintro _ ⟨rfl⟩
      exact hp
  | halt e =>
      refine ⟨.error e, m, S, heap i, rfl, by rwa [Function.update_eq_self], by simp, ?_⟩
      rintro _ ⟨rfl⟩
      exact hp
  | alloc k ih =>
      cases hA : A.alloc m with
      | none => exact ho.ends_of_step hp (by simp only [Routine.step, hA]; rfl) (ih _)
      | some fm => exact ho.ends_of_step hp (by simp only [Routine.step, hA]; rfl) (ih _)
  | free f k ih =>
      obtain ⟨c, hc⟩ := Option.isSome_iff_exists.mp hp.2.1
      obtain ⟨m₁, hm, -⟩ := A.free_ok ho.ok hp.1 (ho.busy hc)
      exact ho.ends_of_step hp (by simp only [Routine.step, hm]; rfl) ih
  | read f k ih => exact ho.ends_of_step hp rfl (ih _)
  | modify f g k ih => exact ho.ends_of_step hp rfl ih

end Step

end Library
