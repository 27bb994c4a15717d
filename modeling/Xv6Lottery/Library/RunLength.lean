import Mathlib.Data.List.Chain
import Mathlib.Tactic

/-!
Run-length encodings.

* `spell`: the list that a list of runs stands for.
* `Runs`: a run-length encoding, in which no run is empty and neighbours differ. It grows by
  making its last run longer (`Runs.extend`) or by a new run (`Runs.start`).
* `Runs.replicate_infix_iff`: the longest stretches of one letter are the runs.
* `spell_map_eq_iff`: an encoding whose counts are lowered spells out the same list only if no
  count has changed.
-/

namespace Library

variable {α : Type*}

/-- The list that runs stand for: each letter as often as its run says. -/
def spell (L : List (α × ℕ)) : List α := L.flatMap fun r => List.replicate r.2 r.1

@[simp] lemma spell_nil : spell ([] : List (α × ℕ)) = [] := rfl

@[simp] lemma spell_cons (r : α × ℕ) (L : List (α × ℕ)) :
    spell (r :: L) = List.replicate r.2 r.1 ++ spell L := rfl

lemma spell_append (L M : List (α × ℕ)) : spell (L ++ M) = spell L ++ spell M :=
  List.flatMap_append

/-- A run-length encoding. -/
structure Runs (L : List (α × ℕ)) : Prop where
  pos : ∀ r ∈ L, 1 ≤ r.2
  chain : L.IsChain fun r r' => r.1 ≠ r'.1

namespace Runs

lemma singleton (a : α) : Runs [(a, 1)] := ⟨by simp, List.isChain_singleton _⟩

/-- One more letter at the end, the same as the last. -/
lemma extend {L : List (α × ℕ)} {a : α} {n : ℕ} (h : Runs (L ++ [(a, n)])) :
    Runs (L ++ [(a, n + 1)]) := by
  constructor
  · intro r hr
    rcases List.mem_append.mp hr with hr | hr
    · exact h.pos r (List.mem_append_left _ hr)
    · rw [List.mem_singleton.mp hr]
      omega
  · have hchain := List.isChain_append.mp h.chain
    refine List.isChain_append.mpr ⟨hchain.1, List.isChain_singleton _, ?_⟩
    intro r hr r' hr'
    obtain rfl : (a, n + 1) = r' := by simpa using hr'
    exact hchain.2.2 r hr (a, n) (by simp)

/-- One more letter at the end, different from the last. -/
lemma start {L : List (α × ℕ)} {a b : α} {n : ℕ} (h : Runs (L ++ [(a, n)])) (hab : a ≠ b) :
    Runs (L ++ [(a, n)] ++ [(b, 1)]) := by
  constructor
  · intro r hr
    rcases List.mem_append.mp hr with hr | hr
    · exact h.pos r hr
    · rw [List.mem_singleton.mp hr]
  · refine List.isChain_append.mpr ⟨h.chain, List.isChain_singleton _, ?_⟩
    intro r hr r' hr'
    obtain rfl : (a, n) = r := by simpa using hr
    obtain rfl : (b, 1) = r' := by simpa using hr'
    exact hab

lemma tail {r : α × ℕ} {L : List (α × ℕ)} (h : Runs (r :: L)) : Runs L :=
  ⟨fun r' hr' => h.pos r' (List.mem_cons_of_mem r hr'), h.chain.tail⟩

/-- After a run comes another letter, or nothing. -/
lemma head_ne {r : α × ℕ} {L : List (α × ℕ)} (h : Runs (r :: L)) :
    (spell L).head? ≠ some r.1 := by
  cases L with
  | nil => simp
  | cons r' L =>
      obtain ⟨k, hk⟩ : ∃ k, r'.2 = k + 1 := ⟨r'.2 - 1, by have := h.pos r' (by simp); omega⟩
      have hne : r.1 ≠ r'.1 := (List.isChain_cons_cons.mp h.chain).1
      simpa [hk, List.replicate_succ] using hne.symm

end Runs

/-- A stretch of one letter at the beginning of a run ends with the run. -/
lemma replicate_le_head {a b : α} {k m : ℕ} {E : List α} (hE : E.head? ≠ some a)
    (hm : 0 < m) (h : List.replicate k b <+: List.replicate m a ++ E) : k ≤ m := by
  by_contra! hlt
  obtain ⟨j, rfl⟩ : ∃ j, k = m + (j + 1) := ⟨k - m - 1, by omega⟩
  obtain ⟨i, rfl⟩ : ∃ i, m = i + 1 := ⟨m - 1, by omega⟩
  have hhead : b = a := by
    rw [show i + 1 + (j + 1) = (i + 1 + j) + 1 by omega, List.replicate_succ, List.replicate_succ,
      List.cons_append, List.cons_prefix_cons] at h
    exact h.1
  subst hhead
  rw [List.replicate_add, List.prefix_append_right_inj, List.replicate_succ] at h
  obtain ⟨E', rfl⟩ := h
  simp at hE

/-- A stretch of one letter in a run and what follows it is in the run, or in what follows. -/
lemma replicate_infix_append {a b : α} {k m : ℕ} {E : List α} (hE : E.head? ≠ some a)
    (h : List.replicate k b <:+: List.replicate m a ++ E) :
    k ≤ m ∨ List.replicate k b <:+: E := by
  induction m with
  | zero => exact .inr h
  | succ m ih =>
      rw [List.replicate_succ, List.cons_append] at h
      rcases List.infix_cons_iff.mp h with hpre | hrest
      · refine .inl (replicate_le_head hE m.succ_pos (a := a) (b := b) ?_)
        rwa [List.replicate_succ, List.cons_append]
      · rcases ih hrest with hle | hin
        · exact .inl (by omega)
        · exact .inr hin

/-- A stretch of `k` equal letters is spelled out exactly if there is a run of `k` or more. -/
lemma Runs.replicate_infix_iff {L : List (α × ℕ)} (h : Runs L) {k : ℕ} (hk : 0 < k) :
    (∃ a, List.replicate k a <:+: spell L) ↔ ∃ r ∈ L, k ≤ r.2 := by
  induction L with
  | nil =>
      have hne : ∀ a : α, List.replicate k a ≠ [] := by simp [hk.ne']
      simp [hne]
  | cons r L ih =>
      constructor
      · rintro ⟨a, ha⟩
        rcases replicate_infix_append h.head_ne ha with hle | hin
        · exact ⟨r, by simp, hle⟩
        · obtain ⟨r', hr', hle⟩ := (ih h.tail).mp ⟨a, hin⟩
          exact ⟨r', List.mem_cons_of_mem r hr', hle⟩
      · rintro ⟨r', hr', hle⟩
        rcases List.mem_cons.mp hr' with rfl | hr'
        · refine ⟨r'.1, [], List.replicate (r'.2 - k) r'.1 ++ spell L, ?_⟩
          rw [List.nil_append, ← List.append_assoc, ← List.replicate_add,
            Nat.add_sub_cancel' hle, spell_cons]
        · obtain ⟨a, ha⟩ := (ih h.tail).mpr ⟨r', hr', hle⟩
          exact ⟨a, ha.trans (List.suffix_append _ _).isInfix⟩

/-- Lowered counts spell out no more than the counts themselves. -/
lemma length_spell_map_le {f : ℕ → ℕ} (hf : ∀ n, f n ≤ n) (L : List (α × ℕ)) :
    (spell (L.map fun r => (r.1, f r.2))).length ≤ (spell L).length := by
  induction L with
  | nil => simp
  | cons r L ih =>
      have := hf r.2
      simp only [List.map_cons, spell_cons, List.length_append, List.length_replicate]
      omega

/-- Lowered counts spell out the same list only if they are the counts themselves. -/
lemma spell_map_eq_iff {f : ℕ → ℕ} (hf : ∀ n, f n ≤ n) (L : List (α × ℕ)) :
    spell (L.map fun r => (r.1, f r.2)) = spell L ↔ ∀ r ∈ L, f r.2 = r.2 := by
  induction L with
  | nil => simp
  | cons r L ih =>
      rw [List.forall_mem_cons, List.map_cons, spell_cons, spell_cons]
      constructor
      · intro h
        -- nothing is made up for by the runs that follow
        have hr : f r.2 = r.2 := by
          have hlen := congrArg List.length h
          have hle := length_spell_map_le hf L
          have := hf r.2
          simp only [List.length_append, List.length_replicate] at hlen
          omega
        rw [hr, List.append_cancel_left_eq] at h
        exact ⟨hr, ih.mp h⟩
      · rintro ⟨hr, hL⟩
        rw [hr, ih.mpr hL]

end Library
