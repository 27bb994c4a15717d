import Mathlib.Tactic
import Mathlib.Data.BitVec

/-!
`rand.c`: the random number generator of the lottery, a 16-bit linear feedback
shift register.

* `lfsrStep`: one turn of the loop body, with the integer promotions written out.
  `getLsbD_lfsrStep` reads it bit by bit, and from there `lfsrStep_injective`: the
  bit shifted out is recovered from the feedback bit, so the step is a permutation
  of the register values that fixes `0`.
* `lfsrLoop`: the `do … while (i < limit)` loop with its 16-bit counter;
  `lfsrLoop_zero` says that it is `limit` turns, whatever the limit but `0`.
* `generateRandomNumber`: the whole function, a call of it being a pair of the
  value returned, absent when `lfsr % limit` divides by zero, and the static
  `start_state` left for the next call.
* `seedAt`: the seeds of consecutive calls. `seedAt_toNat` is the closed form that
  shows the skip over `0` at wrap-around, and `seedAt_inj` that 65535 consecutive
  calls use distinct seeds.
* `fibonacciStep`: the register of the textbooks, given by its taps and with one
  feedback bit. `generateRandomNumber_refines_fibonacci`: every call of a sequence of
  calls makes `limit` turns of it from its seed, through non-zero registers only.
-/

namespace Xv6Lottery

/-- `ushort`. -/
abbrev Ushort := BitVec 16

/-- `START_STATE`. -/
def initialStartState : Ushort := 0xACE1

/-- One turn of the loop: the tap bits are XORed into `bit`, and the register is
shifted right with `bit` entering at the top. The operands are promoted to `int`,
and both assignments truncate to `ushort`. -/
def lfsrStep (lfsr : Ushort) : Ushort :=
  let x : BitVec 32 := lfsr.setWidth 32
  let bit : Ushort := (x ^^^ (x >>> 2) ^^^ (x >>> 3) ^^^ (x >>> 5)).setWidth 16
  ((x >>> 1) ||| (bit.setWidth 32 <<< 15)).setWidth 16

lemma toNat_pos_of_ne_zero {x : Ushort} (hx : x ≠ 0) : 0 < x.toNat :=
  Nat.pos_of_ne_zero fun h => hx (BitVec.eq_of_toNat_eq h)

/-- The loop counter does not wrap before it reaches the limit. -/
lemma toNat_add_one_of_lt {i limit : Ushort} (h : i.toNat < limit.toNat) :
    (i + 1).toNat = i.toNat + 1 := by
  rw [BitVec.toNat_add, Nat.mod_eq_of_lt]
  · rfl
  · show i.toNat + 1 < 2 ^ 16
    omega

/-- The loop `do { …; i++; } while (i < limit)`, entered with the register `lfsr`
and the counter `i`. -/
def lfsrLoop (limit lfsr i : Ushort) : Ushort :=
  if i + 1 < limit then lfsrLoop limit (lfsrStep lfsr) (i + 1) else lfsrStep lfsr
termination_by limit.toNat - (i + 1).toNat
decreasing_by
  rename_i h
  have h1 : (i + 1).toNat < limit.toNat := h
  have h2 := toNat_add_one_of_lt h1
  omega

/-- `generate_random_number(limit)` with the static `start_state`: the value
returned, `none` when the final `lfsr % limit` divides by zero, and the
`start_state` of the next call. -/
def generateRandomNumber (startState limit : Ushort) : Option Ushort × Ushort :=
  let startState := if startState = 0 then startState + 1 else startState
  let lfsr := lfsrLoop limit startState 0
  (if limit = 0 then none else some (lfsr % limit), startState + 1)

/-! ### The register step -/

/-- The step bit by bit: the register moves down by one place, and the parity of
the taps comes in at the top. -/
lemma getLsbD_lfsrStep (x : Ushort) {i : ℕ} (hi : i < 16) :
    (lfsrStep x).getLsbD i =
      if i = 15 then x.getLsbD 0 ^^ x.getLsbD 2 ^^ x.getLsbD 3 ^^ x.getLsbD 5
      else x.getLsbD (i + 1) := by
  simp only [lfsrStep, BitVec.getLsbD_setWidth, BitVec.getLsbD_or, BitVec.getLsbD_ushiftRight,
    BitVec.getLsbD_shiftLeft, BitVec.getLsbD_xor]
  by_cases h : i = 15
  · subst h
    simp
  · rw [if_neg h]
    have h1 : i < 15 := by omega
    simp [hi, h1, Nat.add_comm]
    omega

/-- The step loses nothing: the bits that move are read off one place lower, and
the bit shifted out is recovered from the feedback bit. -/
lemma lfsrStep_injective : Function.Injective lfsrStep := by
  intro x y h
  have hbit : ∀ i < 16, (lfsrStep x).getLsbD i = (lfsrStep y).getLsbD i := by
    intro i _
    rw [h]
  have hmove : ∀ i, i < 15 → x.getLsbD (i + 1) = y.getLsbD (i + 1) := by
    intro i hi
    have h1 := hbit i (by omega)
    rwa [getLsbD_lfsrStep x (by omega), getLsbD_lfsrStep y (by omega), if_neg (by omega),
      if_neg (by omega)] at h1
  have htop := hbit 15 (by omega)
  rw [getLsbD_lfsrStep x (by omega), getLsbD_lfsrStep y (by omega), if_pos rfl, if_pos rfl,
    hmove 1 (by omega), hmove 2 (by omega), hmove 4 (by omega)] at htop
  apply BitVec.eq_of_getLsbD_eq
  intro i hi
  cases i with
  | zero => simpa using htop
  | succ i => exact hmove i (by omega)

lemma lfsrStep_zero : lfsrStep 0 = 0 := by decide

/-- The iterated step permutes the register values. -/
lemma lfsrStep_iterate_bijective (n : ℕ) : Function.Bijective lfsrStep^[n] := by
  have hfin : Finite Ushort := Finite.of_equiv _ BitVec.equivFin.symm.toEquiv
  exact (lfsrStep_injective.iterate n).bijective_of_finite

/-- A register that starts non-zero never becomes zero. -/
lemma lfsrStep_iterate_ne_zero {x : Ushort} (hx : x ≠ 0) (n : ℕ) : lfsrStep^[n] x ≠ 0 := by
  have h0 : lfsrStep^[n] 0 = 0 := Function.iterate_fixed lfsrStep_zero n
  intro h
  exact hx ((lfsrStep_iterate_bijective n).1 (h.trans h0.symm))

/-! ### The loop -/

/-- The loop entered at `i < limit` makes the remaining `limit - i` turns. -/
lemma lfsrLoop_eq (limit lfsr i : Ushort) (hi : i.toNat < limit.toNat) :
    lfsrLoop limit lfsr i = lfsrStep^[limit.toNat - i.toNat] lfsr := by
  induction hn : limit.toNat - i.toNat generalizing lfsr i with
  | zero => omega
  | succ n ih =>
      have hsucc := toNat_add_one_of_lt hi
      rw [lfsrLoop]
      by_cases h : i + 1 < limit
      · have h' : (i + 1).toNat < limit.toNat := h
        rw [if_pos h, ih _ _ h' (by omega), Function.iterate_succ_apply]
      · have h' : ¬(i + 1).toNat < limit.toNat := h
        obtain rfl : n = 0 := by omega
        rw [if_neg h, Function.iterate_one]

/-- From the counter `0` and with a non-zero limit, the loop makes exactly `limit`
turns. -/
lemma lfsrLoop_zero {limit : Ushort} (hl : limit ≠ 0) (lfsr : Ushort) :
    lfsrLoop limit lfsr 0 = lfsrStep^[limit.toNat] lfsr :=
  lfsrLoop_eq limit lfsr 0 (toNat_pos_of_ne_zero hl)

/-! ### One call -/

/-- The register a call starts from: the static state, moved off zero. -/
def seed (startState : Ushort) : Ushort := if startState = 0 then 1 else startState

lemma seed_ne_zero (v : Ushort) : seed v ≠ 0 := by
  rw [seed]
  split
  · decide
  · assumption

lemma seed_of_ne_zero {v : Ushort} (h : v ≠ 0) : seed v = v := if_neg h

/-- What a call returns, and the state it leaves. -/
lemma generateRandomNumber_eq (v limit : Ushort) :
    generateRandomNumber v limit =
      (if limit = 0 then none else some (lfsrStep^[limit.toNat] (seed v) % limit),
        seed v + 1) := by
  have hseed : (if v = 0 then v + 1 else v) = seed v := by
    rw [seed]
    split
    · rename_i h
      rw [h]
      rfl
    · rfl
  simp only [generateRandomNumber, hseed]
  split
  · rfl
  · rename_i h
    rw [lfsrLoop_zero h]

/-- With a non-zero limit the value returned is below it. -/
lemma generateRandomNumber_lt {v limit r : Ushort} {v' : Ushort}
    (h : generateRandomNumber v limit = (some r, v')) : r.toNat < limit.toNat := by
  rw [generateRandomNumber_eq] at h
  by_cases hl : limit = 0
  · simp [hl] at h
  · have hpos : 0 < limit.toNat := toNat_pos_of_ne_zero hl
    rw [if_neg hl, Prod.mk.injEq, Option.some.injEq] at h
    rw [← h.1, BitVec.toNat_umod]
    exact Nat.mod_lt _ hpos

/-- Every value below the limit is returned for some `start_state`. -/
lemma exists_generateRandomNumber {limit : Ushort} {r : ℕ} (hr : r < limit.toNat) :
    ∃ v, ∃ x : Ushort, (generateRandomNumber v limit).1 = some x ∧ x.toNat = r := by
  have hl : limit ≠ 0 := by
    rintro rfl
    simp at hr
  have hlt : limit.toNat < 2 ^ 16 := limit.isLt
  -- a non-zero register value with the residue `r`: `r` itself, or `limit` for `r = 0`
  obtain ⟨y, hy0, hyr⟩ : ∃ y : Ushort, y ≠ 0 ∧ y.toNat % limit.toNat = r := by
    rcases Nat.eq_zero_or_pos r with rfl | hpos
    · exact ⟨limit, hl, Nat.mod_self _⟩
    · refine ⟨BitVec.ofNat 16 r, ?_, ?_⟩
      · intro h
        have := congrArg BitVec.toNat h
        rw [BitVec.toNat_ofNat, Nat.mod_eq_of_lt (by omega)] at this
        exact absurd this hpos.ne'
      · rw [BitVec.toNat_ofNat, Nat.mod_eq_of_lt (show r < 2 ^ 16 by omega), Nat.mod_eq_of_lt hr]
  obtain ⟨x, hx⟩ := (lfsrStep_iterate_bijective limit.toNat).2 y
  have hx0 : x ≠ 0 := by
    rintro rfl
    exact hy0 (hx.symm.trans (Function.iterate_fixed lfsrStep_zero _))
  refine ⟨x, y % limit, ?_, ?_⟩
  · rw [generateRandomNumber_eq, if_neg hl, seed_of_ne_zero hx0, hx]
  · rw [BitVec.toNat_umod, hyr]

/-! ### Consecutive calls -/

/-- The `start_state` after one call. -/
def nextState (v : Ushort) : Ushort := seed v + 1

/-- The seed of the `n`-th of consecutive calls that begin with the state `v`. -/
def seedAt (v : Ushort) (n : ℕ) : Ushort := seed (nextState^[n] v)

/-- The seed after a seed: the successor, with `1` after the largest. -/
lemma seed_add_one_toNat {x : Ushort} (hx : x ≠ 0) :
    (seed (x + 1)).toNat = x.toNat % 65535 + 1 := by
  have hlt : x.toNat < 2 ^ 16 := x.isLt
  have hpos : 0 < x.toNat := toNat_pos_of_ne_zero hx
  by_cases h : x + 1 = 0
  · have h1 := congrArg BitVec.toNat h
    rw [BitVec.toNat_add] at h1
    have h2 : (x.toNat + 1) % 65536 = 0 := h1
    have h3 : x.toNat = 65535 := by omega
    rw [h, h3]
    rfl
  · rw [seed_of_ne_zero h, BitVec.toNat_add]
    have h2 : (x.toNat + 1) % 65536 ≠ 0 := fun h0 => h (BitVec.eq_of_toNat_eq (by
      rw [BitVec.toNat_add]; exact h0))
    show (x.toNat + 1) % 65536 = _
    omega

/-- The seeds count through `1 … 65535` and start again at `1`, the state `0` being
skipped. -/
lemma seedAt_toNat (v : Ushort) (n : ℕ) :
    (seedAt v n).toNat = ((seed v).toNat - 1 + n) % 65535 + 1 := by
  induction n with
  | zero =>
      have hlt : (seed v).toNat < 2 ^ 16 := (seed v).isLt
      have hpos : 0 < (seed v).toNat := toNat_pos_of_ne_zero (seed_ne_zero v)
      show (seed v).toNat = _
      omega
  | succ n ih =>
      have hstep : seedAt v (n + 1) = seed (seedAt v n + 1) := by
        rw [seedAt, Function.iterate_succ_apply', nextState]
        rfl
      have hne : seedAt v n ≠ 0 := seed_ne_zero _
      calc (seedAt v (n + 1)).toNat = (seedAt v n).toNat % 65535 + 1 := by
            rw [hstep, seed_add_one_toNat hne]
        _ = (((seed v).toNat - 1 + n) % 65535 + 1) % 65535 + 1 := by rw [ih]
        _ = ((seed v).toNat - 1 + (n + 1)) % 65535 + 1 := by omega

/-- Distinct calls among 65535 consecutive ones use distinct seeds. -/
lemma seedAt_inj {v : Ushort} {m n : ℕ} (hm : m < 65535) (hn : n < 65535)
    (h : seedAt v m = seedAt v n) : m = n := by
  have h1 := congrArg BitVec.toNat h
  rw [seedAt_toNat, seedAt_toNat] at h1
  omega

/-! ### The textbook register -/

/-- The XOR of the register shifted down to each of its taps, tap `16` being the lowest bit. -/
def feedback (taps : List ℕ) (x : Ushort) : Ushort :=
  taps.foldr (fun t acc => (x >>> (16 - t)) ^^^ acc) 0

/-- The 16-bit Fibonacci register with these taps: a single feedback bit, masked out, enters at
the top. -/
def fibonacciStep (taps : List ℕ) (x : Ushort) : Ushort :=
  (x >>> 1) ||| ((feedback taps x &&& 1) <<< 15)

/-- The tap bits of `x^16 + x^14 + x^13 + x^11 + 1`. -/
def tapBits : List ℕ := [16, 14, 13, 11]

/-- The unmasked feedback word of the code and the masked bit of the textbook give the same
register: shifted by 15, only the lowest bit of the word is left after the truncation. -/
lemma fibonacciStep_eq_lfsrStep : fibonacciStep tapBits = lfsrStep := by
  funext x
  apply BitVec.eq_of_getLsbD_eq
  intro i hi
  rw [getLsbD_lfsrStep x hi]
  simp only [fibonacciStep, feedback, tapBits, List.foldr_cons, List.foldr_nil,
    BitVec.getLsbD_or, BitVec.getLsbD_ushiftRight, BitVec.getLsbD_shiftLeft, BitVec.getLsbD_and,
    BitVec.getLsbD_xor]
  by_cases h : i = 15
  · subst h
    simp
  · have h1 : i < 15 := by omega
    simp [h, hi, h1, Nat.add_comm]

/-- The registers that the loop goes through, one for each turn. -/
def lfsrTurns (limit lfsr i : Ushort) : List Ushort :=
  lfsrStep lfsr :: if i + 1 < limit then lfsrTurns limit (lfsrStep lfsr) (i + 1) else []
termination_by limit.toNat - (i + 1).toNat
decreasing_by
  rename_i h
  have h1 : (i + 1).toNat < limit.toNat := h
  have h2 := toNat_add_one_of_lt h1
  omega

/-- The loop ends with the register of its last turn. -/
lemma getLast_lfsrTurns (limit lfsr i : Ushort) :
    (lfsrTurns limit lfsr i).getLast? = some (lfsrLoop limit lfsr i) := by
  fun_induction lfsrLoop limit lfsr i with
  | case1 lfsr i h ih => rw [lfsrTurns, if_pos h, List.getLast?_cons, ih, Option.getD_some]
  | case2 lfsr i h => rw [lfsrTurns, if_neg h, List.getLast?_singleton]

/-- The loop entered at `i < limit` goes through the iterates of the step, `limit - i` of them. -/
lemma lfsrTurns_eq (limit lfsr i : Ushort) (hi : i.toNat < limit.toNat) :
    lfsrTurns limit lfsr i =
      (List.range (limit.toNat - i.toNat)).map fun n => lfsrStep^[n + 1] lfsr := by
  -- the recursion of the loop, whose two branches are those of its registers
  induction lfsr, i using lfsrLoop.induct limit with
  | case1 lfsr i h ih =>
      have hsucc := toNat_add_one_of_lt hi
      have h' : (i + 1).toNat < limit.toNat := h
      obtain ⟨n, hn⟩ : ∃ n, limit.toNat - i.toNat = n + 1 := ⟨limit.toNat - i.toNat - 1, by omega⟩
      rw [lfsrTurns, if_pos h, ih h', hn, List.range_succ_eq_map, List.map_cons, List.map_map,
        show limit.toNat - (i + 1).toNat = n by omega]
      rfl
  | case2 lfsr i h =>
      have hsucc := toNat_add_one_of_lt hi
      have h' : ¬(i + 1).toNat < limit.toNat := h
      rw [lfsrTurns, if_neg h, show limit.toNat - i.toNat = 1 by omega]
      rfl

/-- The `start_state` after calls with these limits, one after the other. -/
def startStateAfter (v : Ushort) (limits : List Ushort) : Ushort :=
  limits.foldl (fun v limit => (generateRandomNumber v limit).2) v

/-- **The textbook register.** Whatever calls have been made before, a call with a non-zero limit
makes exactly `limit` turns, through non-zero registers, and returns the textbook register after
`limit` steps from the seed of the call, modulo `limit`. -/
theorem generateRandomNumber_refines_fibonacci (before : List Ushort) (limit : Ushort)
    (hlimit : limit ≠ 0) :
    let v := startStateAfter initialStartState before
    (lfsrTurns limit (seed v) 0).length = limit.toNat ∧
    (∀ x ∈ seed v :: lfsrTurns limit (seed v) 0, x ≠ 0) ∧
    (generateRandomNumber v limit).1 =
      (lfsrTurns limit (seed v) 0).getLast?.map (fun lfsr => lfsr % limit) ∧
    ∃ r : Ushort, (generateRandomNumber v limit).1 = some r ∧
      r.toNat = ((fibonacciStep tapBits)^[limit.toNat] (seed v)).toNat % limit.toNat ∧
      r.toNat < limit.toNat := by
  intro v
  have hpos : 0 < limit.toNat := toNat_pos_of_ne_zero hlimit
  have hturns := lfsrTurns_eq limit (seed v) 0 hpos
  have hval : (generateRandomNumber v limit).1 =
      some (lfsrStep^[limit.toNat] (seed v) % limit) := by
    rw [generateRandomNumber_eq, if_neg hlimit]
  refine ⟨?_, ?_, ?_, _, hval, ?_, ?_⟩
  · rw [hturns, List.length_map, List.length_range]
    rfl
  · intro x hx
    rcases List.mem_cons.mp hx with rfl | hx
    · exact seed_ne_zero v
    · rw [hturns] at hx
      obtain ⟨n, -, rfl⟩ := List.mem_map.mp hx
      exact lfsrStep_iterate_ne_zero (seed_ne_zero v) (n + 1)
  · rw [getLast_lfsrTurns, lfsrLoop_zero hlimit, hval, Option.map_some]
  · rw [fibonacciStep_eq_lfsrStep, BitVec.toNat_umod]
  · rw [BitVec.toNat_umod]
    exact Nat.mod_lt _ hpos

/-- The second call of a sequence, with the limit 3. -/
theorem refines_fibonacci_second_call :
    (lfsrTurns 3 (seed (startStateAfter initialStartState [20])) 0).length = 3 :=
  (generateRandomNumber_refines_fibonacci [20] 3 (by decide)).1

end Xv6Lottery
