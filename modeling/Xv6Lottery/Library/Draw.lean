import Mathlib.Tactic

/-!
Drawing from a list with weights.

The entries of a list that take part (`on`) hold consecutive blocks of tickets, an
entry `x` as many as its weight `w x`. Ticket `r` is looked up by walking down the
list with a running sum.

* `total`, `before`: the tickets of the whole list, and those held before an entry.
* `pick`: the entry found by the walk, and `Owns`: the entry in whose block the
  ticket lies. `pick_eq_some_iff` identifies the two, so the winner is unique.
* `exists_pick`: every ticket below the total is held by somebody.
* `total_le`, `before_add_le_total`: bounds.
-/

namespace Library

universe u
variable {α : Type u} (on : α → Prop) [DecidablePred on] (w : α → ℤ)

/-- The tickets held by the entries that take part. -/
def total : List α → ℤ
  | [] => 0
  | x :: l => (if on x then w x else 0) + total l

/-- The entry at which the running sum first exceeds `r`. -/
def pick (r : ℤ) : List α → Option α
  | [] => none
  | x :: l => if on x then if r < w x then some x else pick (r - w x) l else pick r l

/-- The tickets held before the entry `x`. -/
def before [DecidableEq α] (x : α) : List α → ℤ
  | [] => 0
  | y :: l => if y = x then 0 else (if on y then w y else 0) + before x l

/-- Ticket `r` lies in the block of `x`. -/
def Owns [DecidableEq α] (l : List α) (r : ℤ) (x : α) : Prop :=
  x ∈ l ∧ on x ∧ before on w x l ≤ r ∧ r < before on w x l + w x

variable {on w} {l : List α} {r : ℤ} {x : α}

/-- A ticket below the total is found. -/
lemma exists_pick (h : r < total on w l) (h0 : 0 ≤ r) : ∃ x, pick on w r l = some x := by
  induction l generalizing r with
  | nil =>
      rw [total] at h
      omega
  | cons x l ih =>
      rw [total] at h
      rw [pick]
      by_cases hx : on x
      · rw [if_pos hx] at h ⊢
        by_cases hr : r < w x
        · exact ⟨x, if_pos hr⟩
        · rw [if_neg hr]
          exact ih (by omega) (by omega)
      · rw [if_neg hx] at h ⊢
        exact ih (by omega) h0

section Positive

variable (hpos : ∀ x ∈ l, on x → 1 ≤ w x)
include hpos

/-- The weights add up to at least nothing. -/
lemma total_nonneg : 0 ≤ total on w l := by
  induction l with
  | nil => exact le_rfl
  | cons x l ih =>
      have hx := hpos x (by simp)
      have hl := ih fun y hy => hpos y (List.mem_cons_of_mem x hy)
      rw [total]
      split_ifs with h
      · have := hx h
        omega
      · omega

/-- With an entry that takes part there is a ticket. -/
lemma total_pos (hx : x ∈ l) (hon : on x) : 0 < total on w l := by
  induction l with
  | nil => simp at hx
  | cons y l ih =>
      have hl := total_nonneg fun z hz => hpos z (List.mem_cons_of_mem y hz)
      rw [total]
      rcases List.mem_cons.mp hx with rfl | hx
      · have := hpos x (by simp) hon
        rw [if_pos hon]
        omega
      · have := ih (fun z hz => hpos z (List.mem_cons_of_mem y hz)) hx
        split_ifs with h
        · have := hpos y (by simp) h
          omega
        · omega

/-- A total of zero means that nobody takes part. -/
lemma total_eq_zero_iff : total on w l = 0 ↔ ∀ x ∈ l, ¬on x := by
  refine ⟨fun h x hx hon => (total_pos hpos hx hon).ne' h, fun h => ?_⟩
  clear hpos
  induction l with
  | nil => rfl
  | cons x l ih =>
      rw [total, if_neg (h x (by simp)), ih fun y hy => h y (List.mem_cons_of_mem x hy)]
      omega

variable [DecidableEq α]

lemma before_nonneg (x : α) : 0 ≤ before on w x l := by
  induction l with
  | nil => exact le_rfl
  | cons y l ih =>
      have hl := ih fun z hz => hpos z (List.mem_cons_of_mem y hz)
      rw [before]
      split_ifs with h1 h2
      · exact le_rfl
      · have := hpos y (by simp) h2
        omega
      · omega

/-- The block of an entry ends at or before the total. -/
lemma before_add_le_total (hx : x ∈ l) (hon : on x) :
    before on w x l + w x ≤ total on w l := by
  induction l with
  | nil => simp at hx
  | cons y l ih =>
      have hl : ∀ z ∈ l, on z → 1 ≤ w z := fun z hz => hpos z (List.mem_cons_of_mem y hz)
      rw [before, total]
      by_cases hy : y = x
      · subst hy
        have := total_nonneg hl
        rw [if_pos rfl, if_pos hon]
        omega
      · have := ih hl (List.mem_of_ne_of_mem (Ne.symm hy) hx)
        rw [if_neg hy]
        omega

/-- **The walk finds the owner**: the entry at which the running sum first exceeds
`r` is the one in whose block `r` lies. -/
lemma pick_eq_some_iff (hnd : l.Nodup) (hr : 0 ≤ r) :
    pick on w r l = some x ↔ Owns on w l r x := by
  induction l generalizing r with
  | nil => simp [pick, Owns]
  | cons y l ih =>
      have hl : ∀ z ∈ l, on z → 1 ≤ w z := fun z hz => hpos z (List.mem_cons_of_mem y hz)
      obtain ⟨hy, hnd⟩ := List.nodup_cons.mp hnd
      rw [pick]
      by_cases hon : on y
      · rw [if_pos hon]
        by_cases hlt : r < w y
        · rw [if_pos hlt, Option.some.injEq]
          constructor
          · rintro rfl
            exact ⟨by simp, hon, by rw [before, if_pos rfl]; exact hr,
              by rw [before, if_pos rfl]; omega⟩
          · rintro ⟨_, _, h1, _⟩
            by_contra hne
            have := before_nonneg hl x
            rw [before, if_neg hne, if_pos hon] at h1
            omega
        · rw [if_neg hlt, ih hl hnd (by omega)]
          constructor
          · rintro ⟨hx, hxon, h1, h2⟩
            have hne : y ≠ x := fun h => hy (h ▸ hx)
            refine ⟨List.mem_cons_of_mem y hx, hxon, ?_, ?_⟩
            · rw [before, if_neg hne, if_pos hon]; omega
            · rw [before, if_neg hne, if_pos hon]; omega
          · rintro ⟨hx, hxon, h1, h2⟩
            have hne : y ≠ x := by
              rintro rfl
              rw [before, if_pos rfl] at h2
              omega
            rw [before, if_neg hne, if_pos hon] at h1 h2
            exact ⟨List.mem_of_ne_of_mem (Ne.symm hne) hx, hxon, by omega, by omega⟩
      · rw [if_neg hon, ih hl hnd hr]
        constructor
        · rintro ⟨hx, hxon, h1, h2⟩
          have hne : y ≠ x := fun h => hy (h ▸ hx)
          refine ⟨List.mem_cons_of_mem y hx, hxon, ?_, ?_⟩
          · rw [before, if_neg hne, if_neg hon]; omega
          · rw [before, if_neg hne, if_neg hon]; omega
        · rintro ⟨hx, hxon, h1, h2⟩
          have hne : y ≠ x := fun h => hon (h ▸ hxon)
          rw [before, if_neg hne, if_neg hon] at h1 h2
          exact ⟨List.mem_of_ne_of_mem (Ne.symm hne) hx, hxon, by omega, by omega⟩

end Positive

/-- With weights of at most `M` the total is at most `M` for each entry. -/
lemma total_le {M : ℤ} (hM : 0 ≤ M) (h : ∀ x ∈ l, on x → w x ≤ M) :
    total on w l ≤ M * l.length := by
  induction l with
  | nil => simp [total]
  | cons x l ih =>
      have hl := ih fun y hy => h y (List.mem_cons_of_mem x hy)
      have hx := h x (by simp)
      rw [total, List.length_cons]
      push_cast
      split_ifs with hon
      · have := hx hon
        linarith
      · linarith

section Congr

variable {on' : α → Prop} [DecidablePred on'] {w' : α → ℤ}
  (hon : ∀ x ∈ l, (on x ↔ on' x)) (hw : ∀ x ∈ l, on x → w x = w' x)
include hon hw

/-- The total depends only on who takes part and with how many tickets. -/
lemma total_congr : total on w l = total on' w' l := by
  induction l with
  | nil => rfl
  | cons x l ih =>
      have h1 := hon x (by simp)
      have h2 := hw x (by simp)
      rw [total, total, ih (fun y hy => hon y (List.mem_cons_of_mem x hy))
        (fun y hy => hw y (List.mem_cons_of_mem x hy))]
      by_cases h : on x
      · rw [if_pos h, if_pos (h1.mp h), h2 h]
      · rw [if_neg h, if_neg (fun h' => h (h1.mpr h'))]

/-- So does the winner. -/
lemma pick_congr : pick on w r l = pick on' w' r l := by
  induction l generalizing r with
  | nil => rfl
  | cons x l ih =>
      have h1 := hon x (by simp)
      have h2 := hw x (by simp)
      have hl := fun {r : ℤ} => ih (r := r) (fun y hy => hon y (List.mem_cons_of_mem x hy))
        (fun y hy => hw y (List.mem_cons_of_mem x hy))
      rw [pick, pick]
      by_cases h : on x
      · rw [if_pos h, if_pos (h1.mp h), h2 h, hl]
      · rw [if_neg h, if_neg (fun h' => h (h1.mpr h')), hl]

end Congr

end Library
