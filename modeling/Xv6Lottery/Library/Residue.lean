import Mathlib.Data.Int.CardIntervalMod
import Mathlib.Tactic

/-!
How often residues occur among the first numbers.

* `count_residue`: of the numbers `1, …, N` each residue modulo `T` has at least
  `N / T` and at most `⌈N / T⌉`.
* `count_window`: a window of `k` consecutive residues has `k` times as many.
* `count_reindex`: counting along a permutation of the first `N` numbers is counting.
-/

namespace Library

/-- The numbers `1, …, N` with a given residue. -/
lemma count_residue (N : ℕ) {T r : ℕ} (hr : r < T) :
    N / T ≤ Nat.count (fun y => (y + 1) % T = r) N ∧
      Nat.count (fun y => (y + 1) % T = r) N ≤ (N + T - 1) / T := by
  have hT : 0 < T := by omega
  have hp : (fun y => (y + 1) % T = r) = fun y => y ≡ r + (T - 1) [MOD T] := by
    funext y
    rw [eq_iff_iff]
    constructor
    · intro h
      have h1 : y + 1 ≡ r + (T - 1) + 1 [MOD T] := by
        rw [show r + (T - 1) + 1 = r + T by omega]
        show (y + 1) % T = (r + T) % T
        rw [Nat.add_mod_right, h, Nat.mod_eq_of_lt hr]
      exact Nat.ModEq.add_right_cancel' 1 h1
    · intro h
      have h1 : (y + 1) % T = (r + (T - 1) + 1) % T := h.add_right 1
      rw [h1, show r + (T - 1) + 1 = r + T by omega, Nat.add_mod_right, Nat.mod_eq_of_lt hr]
  have hcount : Nat.count (fun y => (y + 1) % T = r) N =
      N / T + if (r + (T - 1)) % T < N % T then 1 else 0 := by
    rw [← Nat.count_modEq_card N hT]
    congr
  rw [hcount]
  refine ⟨Nat.le_add_right _ _, ?_⟩
  rw [Nat.le_div_iff_mul_le hT]
  have hdiv := Nat.div_add_mod N T
  have hlt := Nat.mod_lt N hT
  split_ifs with h
  · rw [Nat.add_mul, one_mul, mul_comm]
    omega
  · rw [add_zero, mul_comm]
    omega

/-- The numbers `1, …, N` with a residue in a window. -/
lemma count_window (N : ℕ) {T a : ℕ} : ∀ {k : ℕ}, a + k ≤ T →
    k * (N / T) ≤ Nat.count (fun y => a ≤ (y + 1) % T ∧ (y + 1) % T < a + k) N ∧
      Nat.count (fun y => a ≤ (y + 1) % T ∧ (y + 1) % T < a + k) N ≤ k * ((N + T - 1) / T)
  | 0, _ => by
      have hcount : Nat.count (fun y => a ≤ (y + 1) % T ∧ (y + 1) % T < a + 0) N = 0 := by
        rw [Nat.count_eq_card_filter_range, Finset.card_eq_zero, Finset.filter_eq_empty_iff]
        intro y _ h
        omega
      rw [hcount]
      simp
  | k + 1, h => by
      -- the window ends with one more residue
      have hsplit : Nat.count (fun y => a ≤ (y + 1) % T ∧ (y + 1) % T < a + (k + 1)) N =
          Nat.count (fun y => a ≤ (y + 1) % T ∧ (y + 1) % T < a + k) N +
            Nat.count (fun y => (y + 1) % T = a + k) N := by
        simp only [Nat.count_eq_card_filter_range]
        rw [← Finset.card_union_of_disjoint]
        · rw [← Finset.filter_or]
          congr 1
          refine Finset.filter_congr fun y _ => ?_
          omega
        · rw [Finset.disjoint_filter]
          intro y _ h1 h2
          omega
      obtain ⟨h1, h2⟩ := count_window N (T := T) (a := a) (k := k) (by omega)
      obtain ⟨h3, h4⟩ := count_residue N (show a + k < T by omega)
      rw [hsplit, Nat.succ_mul, Nat.succ_mul]
      exact ⟨Nat.add_le_add h1 h3, Nat.add_le_add h2 h4⟩

/-- Counting along a permutation of the numbers below `N`. -/
lemma count_reindex {N : ℕ} {f : ℕ → ℕ} (p : ℕ → Prop) [DecidablePred p]
    (hmaps : ∀ i < N, f i < N) (hinj : ∀ i < N, ∀ j < N, f i = f j → i = j) :
    Nat.count (fun i => p (f i)) N = Nat.count p N := by
  have hinjOn : Set.InjOn f (Finset.range N) := fun i hi j hj hij =>
    hinj i (by simpa using hi) j (by simpa using hj) hij
  have himage : (Finset.range N).image f = Finset.range N := by
    refine Finset.eq_of_subset_of_card_le (fun j hj => ?_) ?_
    · obtain ⟨i, hi, rfl⟩ := Finset.mem_image.mp hj
      exact Finset.mem_range.mpr (hmaps i (Finset.mem_range.mp hi))
    · rw [Finset.card_image_of_injOn hinjOn]
  rw [Nat.count_eq_card_filter_range, Nat.count_eq_card_filter_range]
  refine Finset.card_bij (fun i _ => f i) (fun i hi => ?_) (fun i hi j hj hij => ?_) fun j hj => ?_
  · rw [Finset.mem_filter, Finset.mem_range] at hi ⊢
    exact ⟨hmaps i hi.1, hi.2⟩
  · rw [Finset.mem_filter] at hi hj
    exact hinjOn (by simpa using hi.1) (by simpa using hj.1) hij
  · rw [Finset.mem_filter, ← himage] at hj
    obtain ⟨i, hi, rfl⟩ := Finset.mem_image.mp hj.1
    exact ⟨i, Finset.mem_filter.mpr ⟨hi, hj.2⟩, rfl⟩

end Library
