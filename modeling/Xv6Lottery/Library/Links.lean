import Mathlib.Data.List.Basic
import Mathlib.Data.List.Nodup
import Mathlib.Logic.Function.Basic

/-!
Doubly linked lists in a circle, with a sentinel.

The nodes are those of `N` and the sentinel, which is `none`. Every node has a link to the next
one and a link to the previous one.

* `Links`, `pushFront`, `unlink`: the links, and the assignments that put a node behind the
  sentinel or take a node out.
* `Path`: a chain of links that passes through a list of nodes.
* `Circle`: the links hold a list, read forwards along `next` and backwards along `prev`.
* `Circle.pushFront`, `Circle.foldl_pushFront`, `Circle.unlink`: the operations on the list.
* `search`, `Circle.search_next`, `Circle.search_prev`: **a loop along the links finds what a search
  of the list finds.**
-/

namespace Library

variable {N : Type}

/-- The links of the nodes; `none` is the sentinel. -/
structure Links (N : Type) where
  prev : Option N → Option N
  next : Option N → Option N

/-! ### Paths -/

/-- From `a`, the links `f` pass through `l` and then come to `c`. -/
def Path (f : Option N → Option N) : Option N → List N → Option N → Prop
  | a, [], c => f a = c
  | a, x :: l, c => f a = some x ∧ Path f (some x) l c

namespace Path

variable {f : Option N → Option N} {a c d e : Option N} {b : N} {p q l : List N}

/-- A path through a node is a path to it and one from it. -/
lemma append : Path f a (p ++ b :: q) c ↔ Path f a p (some b) ∧ Path f (some b) q c := by
  induction p generalizing a with
  | nil => rfl
  | cons x p ih => simp only [List.cons_append, Path, ih, and_assoc]

variable [DecidableEq N]

/-- A link outside the path may be changed. -/
lemma update (ha : d ≠ a) (hl : ∀ x ∈ l, d ≠ some x) (h : Path f a l c) :
    Path (Function.update f d e) a l c := by
  induction l generalizing a with
  | nil => exact (Function.update_of_ne ha.symm ..).trans h
  | cons x l ih =>
      exact ⟨(Function.update_of_ne ha.symm ..).trans h.1,
        ih (hl x (by simp)) (fun y hy => hl y (by simp [hy])) h.2⟩

/-- A node that gets the link of another one continues as that one did. -/
lemma takeOver (hl : ∀ x ∈ l, d ≠ some x) (h : Path f a l c) :
    Path (Function.update f d (f a)) d l c := by
  cases l with
  | nil => exact (Function.update_self ..).trans h
  | cons x l =>
      exact ⟨(Function.update_self ..).trans h.1,
        h.2.update (hl x (by simp)) fun y hy => hl y (by simp [hy])⟩

/-- A node is left out of a path, if its predecessor gets its link. -/
lemma skip (hnd : (p ++ b :: q).Nodup) (h : Path f none (p ++ b :: q) c) :
    Path (Function.update f p.getLast? (f (some b))) none (p ++ q) c := by
  obtain ⟨hp, hq⟩ := append.mp h
  rcases List.eq_nil_or_concat p with rfl | ⟨p, y, rfl⟩
  · exact hq.takeOver (by simp)
  · rw [List.concat_eq_append, List.append_assoc] at hnd
    rw [List.concat_eq_append] at hp ⊢
    rw [List.getLast?_concat, List.append_assoc]
    have hy := (List.nodup_cons.mp hnd.of_append_right).1
    refine append.mpr ⟨(append.mp hp).1.update (by simp) fun x hx hxy => ?_,
      hq.takeOver fun x hx hxy => ?_⟩
    · obtain rfl := Option.some.inj hxy
      exact List.disjoint_of_nodup_append hnd hx (by simp)
    · obtain rfl := Option.some.inj hxy
      exact hy (List.mem_cons_of_mem _ hx)

end Path

/-! ### Circles -/

namespace Links

variable [DecidableEq N] (k : Links N) (b : N)

/-- The node `b` becomes the first one. -/
def pushFront : Links N :=
  let next := Function.update k.next (some b) (k.next none)
  let prev := Function.update k.prev (some b) none
  let prev := Function.update prev (next none) (some b)
  ⟨prev, Function.update next none (some b)⟩

/-- The node `b` is taken out. -/
def unlink : Links N :=
  let prev := Function.update k.prev (k.next (some b)) (k.prev (some b))
  ⟨prev, Function.update k.next (prev (some b)) (k.next (some b))⟩

end Links

/-- The links hold the list `l`. -/
structure Circle (k : Links N) (l : List N) : Prop where
  nodup : l.Nodup
  next : Path k.next none l none
  prev : Path k.prev none l.reverse none

/-- The sentinel alone. -/
def Links.empty : Links N := ⟨fun _ => none, fun _ => none⟩

lemma circle_empty : Circle (Links.empty : Links N) [] := ⟨List.nodup_nil, rfl, rfl⟩

namespace Circle

variable {k : Links N} {l p q : List N} {b : N}

/-- The first node. -/
lemma next_none (h : Circle k l) : k.next none = l.head? := by
  have hn := h.next
  cases l with
  | nil => exact hn
  | cons x l => exact hn.1

/-- The neighbours of a node. -/
lemma next_some (h : Circle k (p ++ b :: q)) : k.next (some b) = q.head? := by
  have hq := (Path.append.mp h.next).2
  cases q with
  | nil => exact hq
  | cons x q => exact hq.1

lemma prev_some (h : Circle k (p ++ b :: q)) : k.prev (some b) = p.getLast? := by
  have hp := h.prev
  rw [List.reverse_append, List.reverse_cons, List.append_assoc, List.singleton_append] at hp
  have hp := (Path.append.mp hp).2
  rw [← List.head?_reverse]
  cases hrev : p.reverse with
  | nil =>
      rw [hrev] at hp
      exact hp
  | cons x q =>
      rw [hrev] at hp
      exact hp.1

variable [DecidableEq N]

/-- `pushFront` adds a node in front. -/
lemma pushFront (h : Circle k l) (hb : b ∉ l) : Circle (k.pushFront b) (b :: l) where
  nodup := List.nodup_cons.mpr ⟨hb, h.nodup⟩
  next := by
    refine ⟨by simp [Links.pushFront], Path.update (by simp) (by simp) (Path.takeOver ?_ h.next)⟩
    rintro x hx heq
    exact hb (Option.some.inj heq ▸ hx)
  prev := by
    have hnext : Function.update k.next (some b) (k.next none) none = l.head? :=
      (Function.update_of_ne (by simp) ..).trans h.next_none
    have hp := h.prev
    simp only [Links.pushFront, hnext, List.reverse_cons]
    cases l with
    | nil =>
        refine Path.append.mpr ⟨Function.update_self .., ?_⟩
        exact (Function.update_of_ne (by simp) ..).trans (Function.update_self ..)
    | cons x l =>
        have hx := (List.nodup_cons.mp h.nodup).1
        have hxb : b ≠ x := fun h => hb (by simp [h])
        rw [List.reverse_cons] at hp ⊢
        obtain ⟨hl, -⟩ := Path.append.mp hp
        rw [List.append_assoc]
        refine Path.append.mpr ⟨?_, Function.update_self .., ?_⟩
        · refine Path.update (by simp) (fun y hy heq => ?_)
            (Path.update (by simp) (fun y hy heq => ?_) hl)
          · obtain rfl := Option.some.inj heq
            exact hx (by simpa using hy)
          · obtain rfl := Option.some.inj heq
            exact hb (by simpa using Or.inr hy)
        · exact (Function.update_of_ne (by simpa using hxb) ..).trans (Function.update_self ..)

/-- Several nodes are added one after the other. -/
lemma foldl_pushFront {xs : List N} (h : Circle k l) (hxs : xs.Nodup) (hl : xs.Disjoint l) :
    Circle (xs.foldl Links.pushFront k) (xs.reverse ++ l) := by
  induction xs generalizing k l with
  | nil => exact h
  | cons b xs ih =>
      obtain ⟨hb, hxs⟩ := List.nodup_cons.mp hxs
      obtain ⟨hbl, hl⟩ := List.disjoint_cons_left.mp hl
      have hxb : xs.Disjoint (b :: l) := List.disjoint_cons_right.mpr ⟨hb, hl⟩
      simpa using ih (h.pushFront hbl) hxs hxb

/-- `unlink` takes a node out. -/
lemma unlink (h : Circle k (p ++ b :: q)) : Circle (k.unlink b) (p ++ q) := by
  have hnd := h.nodup
  have hne : some b ≠ q.head? := fun hb =>
    (List.nodup_cons.mp hnd.of_append_right).1 (List.mem_of_mem_head? hb.symm)
  have hlink : k.unlink b = ⟨Function.update k.prev q.head? (k.prev (some b)),
      Function.update k.next p.getLast? (k.next (some b))⟩ := by
    simp only [Links.unlink, h.next_some, Function.update_of_ne hne, h.prev_some]
  rw [hlink]
  refine ⟨hnd.sublist (by simp), h.next.skip hnd, ?_⟩
  have hp := h.prev
  rw [List.reverse_append, List.reverse_cons, List.append_assoc, List.singleton_append] at hp
  rw [List.reverse_append, ← List.getLast?_reverse]
  exact hp.skip (by simpa [List.nodup_append_comm] using List.nodup_reverse.mpr hnd)

end Circle

/-! ### Searching -/

/-- A loop along the links, from `a` to the sentinel. It ends with the first node that passes the
test, or with none; or it has no fuel left. -/
def search (f : Option N → Option N) (test : N → Bool) : ℕ → Option N → Option (Option N)
  | 0, _ => none
  | _ + 1, none => some none
  | n + 1, some b => if test b then some (some b) else search f test n (f (some b))

/-- Along a path, the loop finds what a search of the list finds. -/
lemma Path.search {f : Option N → Option N} {a : Option N} {l : List N} {test : N → Bool} {n : ℕ}
    (hn : l.length < n) (h : Path f a l none) :
    Library.search f test n (f a) = some (l.find? test) := by
  induction l generalizing a n with
  | nil =>
      obtain ⟨n, rfl⟩ := Nat.exists_eq_succ_of_ne_zero (Nat.ne_of_gt hn)
      rw [show f a = none from h]
      rfl
  | cons x l ih =>
      obtain ⟨n, rfl⟩ := Nat.exists_eq_succ_of_ne_zero (Nat.ne_of_gt (Nat.zero_lt_of_lt hn))
      rw [h.1, Library.search]
      cases hx : test x with
      | true => simp [hx]
      | false =>
          simp only [Bool.false_eq_true, if_false, List.find?_cons, hx]
          exact ih (Nat.lt_of_succ_lt_succ hn) h.2

section Search

variable {k : Links N} {l : List N} {test : N → Bool} {n : ℕ}

lemma Circle.search_next (h : Circle k l) (hn : l.length < n) :
    search k.next test n (k.next none) = some (l.find? test) :=
  h.next.search hn

lemma Circle.search_prev (h : Circle k l) (hn : l.length < n) :
    search k.prev test n (k.prev none) = some (l.reverse.find? test) :=
  h.prev.search (by simpa using hn)

end Search

end Library
