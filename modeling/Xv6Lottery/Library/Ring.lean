import Mathlib.Tactic

/-!
Ring buffers whose read and write counters are machine words.

The counters run freely and wrap around at `m`; a cell is found by taking a counter modulo the
capacity `cap`, which divides `m`.

* `count`: how far the write counter is ahead of the read counter. `count_push`, `count_pop`: what
  moving a counter by one does to it.
* `contents`: the cells from the read counter on, oldest first. `contents_push`,
  `contents_pop`: a cell is added at the end and taken from the front.
-/

namespace Library.Ring

variable {α : Type} {m cap : ℕ} {r w : ℕ}

/-! ### The counters -/

/-- How far the counter `w` is ahead of the counter `r`. -/
def count (m r w : ℕ) : ℕ := if r ≤ w then w - r else w + m - r

/-- The next value of a counter. -/
lemma succ_mod (h : w < m) : (w + 1) % m = if w + 1 = m then 0 else w + 1 := by
  split_ifs with hw
  · rw [hw, Nat.mod_self]
  · exact Nat.mod_eq_of_lt (by omega)

lemma count_eq_zero_iff (hr : r < m) : count m r w = 0 ↔ r = w := by
  unfold count
  split_ifs <;> omega

/-- The counter is `k` ahead: the comparison the code makes. -/
lemma count_eq_iff {k : ℕ} (hr : r < m) (hw : w < m) (hk : k < m) :
    count m r w = k ↔ w = (r + k) % m := by
  have hmod : (r + k) % m = if r + k < m then r + k else r + k - m := by
    split_ifs with h
    · exact Nat.mod_eq_of_lt h
    · rw [Nat.mod_eq_sub_mod (by omega), Nat.mod_eq_of_lt (by omega)]
  rw [hmod]
  unfold count
  split_ifs <;> omega

/-- Writing one more. -/
lemma count_push (hr : r < m) (hw : w < m) (h : count m r w + 1 < m) :
    count m r ((w + 1) % m) = count m r w + 1 := by
  rw [succ_mod hw]
  unfold count at *
  split_ifs at * <;> omega

/-- Reading one. -/
lemma count_pop (hr : r < m) (hw : w < m) (h : r ≠ w) :
    count m ((r + 1) % m) w + 1 = count m r w := by
  rw [succ_mod hr]
  unfold count
  split_ifs <;> omega

/-! ### The cells -/

/-- The `len` cells from `r` on. -/
def contents (cap : ℕ) (data : ℕ → α) (r len : ℕ) : List α :=
  (List.range len).map fun k => data ((r + k) % cap)

@[simp] lemma length_contents (data : ℕ → α) (len : ℕ) :
    (contents cap data r len).length = len := by
  simp [contents]

/-- The oldest cell comes first. -/
lemma contents_succ (data : ℕ → α) (len : ℕ) :
    contents cap data r (len + 1) = data (r % cap) :: contents cap data (r + 1) len := by
  simp only [contents, List.range_succ_eq_map, List.map_cons, List.map_map, Nat.add_zero]
  congr 2
  funext k
  simp only [Function.comp_apply]
  congr 2
  omega

/-- A counter that has wrapped around finds the same cells. -/
lemma contents_mod (h : cap ∣ m) (data : ℕ → α) (len : ℕ) :
    contents cap data (r % m) len = contents cap data r len := by
  have hk : ∀ k, (r % m + k) % cap = (r + k) % cap := by
    intro k
    rw [Nat.add_mod, Nat.mod_mod_of_dvd r h, ← Nat.add_mod]
  simp only [contents, hk]

/-- Two cells less than a round apart are different. -/
lemma cell_ne {j k : ℕ} (hj : j < k) (hk : k < cap) : (r + j) % cap ≠ (r + k) % cap := by
  intro h
  have hdvd : cap ∣ r + k - (r + j) := (Nat.modEq_iff_dvd' (by omega)).mp h
  have hle := Nat.le_of_dvd (by omega) hdvd
  omega

/-- A cell is written behind the others. -/
lemma contents_update (data : ℕ → α) (a : α) {len : ℕ} (h : len < cap) :
    contents cap (Function.update data ((r + len) % cap) a) r (len + 1) =
      contents cap data r len ++ [a] := by
  simp only [contents, List.range_succ, List.map_append, List.map_cons, List.map_nil,
    Function.update_self]
  congr 1
  refine List.map_congr_left fun k hk => ?_
  exact Function.update_of_ne (cell_ne (List.mem_range.mp hk) h) a data

section Word

variable (hdvd : cap ∣ m) (hr : r < m) (hw : w < m)
include hdvd hr

/-- The cell of the write counter is the one behind the contents. -/
lemma cell_write : w % cap = (r + count m r w) % cap := by
  have hcase : r + count m r w = w ∨ r + count m r w = w + m := by
    unfold count
    split_ifs <;> omega
  rcases hcase with h | h
  · rw [h]
  · rw [h, Nat.add_mod, Nat.mod_eq_zero_of_dvd hdvd, Nat.add_zero, Nat.mod_mod]

include hw

/-- **Writing** adds at the end. -/
lemma contents_push (data : ℕ → α) (a : α) (h : count m r w < cap) (hm : cap < m) :
    contents cap (Function.update data (w % cap) a) r (count m r ((w + 1) % m)) =
      contents cap data r (count m r w) ++ [a] := by
  rw [count_push hr hw (by omega), cell_write hdvd hr, contents_update data a h]

/-- **Reading** takes from the front. -/
lemma contents_pop (data : ℕ → α) (h : r ≠ w) :
    contents cap data r (count m r w) =
      data (r % cap) :: contents cap data ((r + 1) % m) (count m ((r + 1) % m) w) := by
  rw [← count_pop hr hw h, contents_succ, contents_mod hdvd]

end Word

end Library.Ring
