import Xv6Lottery.Kernel.Table

/-!
`assign-tickets.c`: the program that a user runs to change the tickets of a process, on the
`atoi` of `ulib.c` and the system call of `sysproc.c`.

* `atoi`: the conversion loop, in the arithmetic of `int`. `atoi_eq`: on a string of digits it
  is the number written, modulo `2^32`.
* `AssignTickets.main`: the program, with what it prints, the system calls it makes, and the
  process table it leaves.
* `AssignTickets.obeysBound_iff`: the program checks its arguments after the conversion. A
  number of tickets beyond the maximum, or a pid beyond `int`, gets through exactly if it wraps
  around to a value that passes the checks.
-/

namespace Xv6Lottery

/-! ### `atoi` -/

/-- The loop of `atoi`, with `n` read so far. The end of the string is its NUL, which is no
digit. -/
def atoiLoop (n : ℤ) : List Char → ℤ
  | [] => n
  | c :: cs =>
      if '0' ≤ c ∧ c ≤ '9' then
        atoiLoop (wrapInt (wrapInt (wrapInt (n * 10) + c.toNat) - '0'.toNat)) cs
      else n

/-- `atoi` -/
def atoi (s : List Char) : ℤ := atoiLoop 0 s

/-- The number that a string of digits writes. -/
def decimal (s : List Char) : ℕ := Nat.ofDigits 10 (s.reverse.map fun c => c.toNat - '0'.toNat)

lemma decimal_cons (c : Char) (cs : List Char) :
    decimal (c :: cs) = (c.toNat - '0'.toNat) * 10 ^ cs.length + decimal cs := by
  rw [decimal, List.reverse_cons, List.map_append, Nat.ofDigits_append]
  simp [decimal, Nat.add_comm, Nat.mul_comm]

/-- The loop computes in `int` what is written in ℤ: the number read so far, shifted by the
digits to come, and these digits. -/
lemma atoiLoop_eq {s : List Char} (hs : ∀ c ∈ s, '0' ≤ c ∧ c ≤ '9') (n : ℤ) :
    atoiLoop (wrapInt n) s = wrapInt (n * 10 ^ s.length + decimal s) := by
  induction s generalizing n with
  | nil => simp [atoiLoop, decimal]
  | cons c cs ih =>
      have hc : '0' ≤ c ∧ c ≤ '9' := hs c (List.mem_cons_self ..)
      have hle : '0'.toNat ≤ c.toNat := hc.1
      have hturn : wrapInt (wrapInt (wrapInt (wrapInt n * 10) + c.toNat) - '0'.toNat) =
          wrapInt (n * 10 + c.toNat - '0'.toNat) := by
        simp [wrapInt]
      rw [atoiLoop, if_pos hc, hturn, ih fun d hd => hs d (List.mem_cons_of_mem c hd),
        decimal_cons, List.length_cons]
      congr 1
      rw [Nat.cast_add, Nat.cast_mul, Nat.cast_sub hle]
      push_cast
      ring

/-- **Conversion.** On digits, `atoi` is the number written, wrapped into `int`. -/
lemma atoi_eq {s : List Char} (hs : ∀ c ∈ s, '0' ≤ c ∧ c ≤ '9') : atoi s = wrapInt (decimal s) := by
  have h := atoiLoop_eq hs 0
  rwa [zero_mul, zero_add] at h

namespace AssignTickets

/-! ### The program -/

/-- What a run of the program does: its output, the arguments of the calls of `assign_tickets`
it makes, and the process table after it. -/
structure Outcome where
  output : List Char
  calls : List (ℤ × ℤ)
  table : Table

/-- The message for the value returned by the system call. -/
def report (retval : ℤ) : String :=
  if retval = -1 then "Error encountered!\n"
  else if retval = -2 then "Process not found!\n"
  else "Tickets Updated!\n"

/-- `main` of `assign-tickets.c`, run with the process table `t`. -/
def main (argv : List (List Char)) (t : Table) : Outcome :=
  match argv with
  | [_, arg1, arg2] =>
      let pid := atoi arg1
      let tickets := atoi arg2
      if pid < 1 ∨ tickets < 1 then ⟨"Check the parameters!\n".toList, [], t⟩
      else if tickets > maxTicketsPerProcess then
        ⟨("Maximum tickets allowed for a process = " ++ toString maxTicketsPerProcess ++
          "\n").toList, [], t⟩
      else
        let retval := (sysAssignTickets t pid tickets).1
        ⟨(report retval).toList, [(pid, tickets)], (sysAssignTickets t pid tickets).2⟩
  -- the `%s` of `printf` for an argument that is not there
  | _ => ⟨"Usage : ".toList ++ argv.headD "(null)".toList ++ " 'pid' 'tickets'\n".toList, [], t⟩

/-- With two arguments, the program makes the system call exactly when what `atoi` reads passes
its checks, and otherwise leaves the table alone. -/
lemma main_eq (name arg1 arg2 : List Char) (t : Table) :
    let ok := 1 ≤ atoi arg1 ∧ 1 ≤ atoi arg2 ∧ atoi arg2 ≤ maxTicketsPerProcess
    (ok → (main [name, arg1, arg2] t).calls = [(atoi arg1, atoi arg2)]) ∧
    (¬ ok → (main [name, arg1, arg2] t).calls = [] ∧ (main [name, arg1, arg2] t).table = t) := by
  intro ok
  simp only [main]
  split_ifs with hsmall hbig
  · exact ⟨fun hok => absurd hok (by omega), fun _ => ⟨rfl, rfl⟩⟩
  · exact ⟨fun hok => absurd hok.2.2 (not_le.mpr hbig), fun _ => ⟨rfl, rfl⟩⟩
  · exact ⟨fun _ => rfl, fun hno => absurd (show ok by omega) hno⟩

/-! ### The bound -/

/-- A pid that is an `int` and a number of tickets within the maximum. -/
def Valid (P K : ℕ) : Prop := 1 ≤ P ∧ (P : ℤ) ≤ intMax ∧ 1 ≤ K ∧ (K : ℤ) ≤ maxTicketsPerProcess

/-- The program does what its arguments, the numbers `P` and `K`, ask for: the system call with
exactly these if they are valid, and no change of tickets otherwise. -/
structure ObeysBound (P K : ℕ) (t : Table) (out : Outcome) : Prop where
  calls_iff : out.calls ≠ [] ↔ Valid P K
  exact_args : out.calls ≠ [] → out.calls = [((P : ℤ), (K : ℤ))]
  unchanged : ¬ Valid P K → ∀ j, (out.table j).tickets = (t j).tickets

/-- Two numbers, one of them too long for 32 bits, whose last 32 bits pass the checks. -/
def Slips (P K : ℕ) : Prop :=
  (2 ^ 32 ≤ P ∨ 2 ^ 32 ≤ K) ∧ (1 ≤ P % 2 ^ 32 ∧ P % 2 ^ 32 < 2 ^ 31) ∧
    1 ≤ K % 2 ^ 32 ∧ K % 2 ^ 32 ≤ 1000

/-- **The bound.** On two strings of digits the program obeys its bound, whatever the process
table, unless a number too long for 32 bits slips through the checks. -/
theorem obeysBound_iff (name arg1 arg2 : List Char) (t : Table)
    (h1 : ∀ c ∈ arg1, '0' ≤ c ∧ c ≤ '9') (h2 : ∀ c ∈ arg2, '0' ≤ c ∧ c ≤ '9') :
    ObeysBound (decimal arg1) (decimal arg2) t (main [name, arg1, arg2] t) ↔
      ¬ Slips (decimal arg1) (decimal arg2) := by
  obtain ⟨hcall, hno⟩ := main_eq name arg1 arg2 t
  rw [atoi_eq h1, atoi_eq h2] at hcall hno
  have hP := wrapInt_eq (decimal arg1)
  have hK := wrapInt_eq (decimal arg2)
  generalize main [name, arg1, arg2] t = out at hcall hno ⊢
  generalize decimal arg1 = P at hcall hno hP ⊢
  generalize decimal arg2 = K at hcall hno hK ⊢
  by_cases hok : 1 ≤ wrapInt P ∧ 1 ≤ wrapInt K ∧ wrapInt K ≤ maxTicketsPerProcess
  · -- the call is made: it is right if neither number has wrapped around
    have hcalls := hcall hok
    simp only [maxTicketsPerProcess] at hok
    constructor
    · intro h hslip
      have hargs := hcalls.symm.trans (h.exact_args (by rw [hcalls]; simp))
      rw [List.cons.injEq, Prod.mk.injEq] at hargs
      simp only [Slips] at hslip
      split_ifs at hP hK <;> omega
    · intro hslip
      simp only [Slips] at hslip
      have hexact : wrapInt P = P ∧ wrapInt K = K := by
        split_ifs at hP hK <;> omega
      rw [hexact.1, hexact.2] at hcalls hok
      have hvalid : Valid P K := by
        simp only [Valid, intMax, maxTicketsPerProcess]
        split_ifs at hP hK <;> omega
      exact ⟨iff_of_true (by rw [hcalls]; simp) hvalid, fun _ => hcalls,
        fun h => absurd hvalid h⟩
  · -- no call: what is valid does not wrap around and would have passed
    obtain ⟨hcalls, htable⟩ := hno hok
    simp only [maxTicketsPerProcess] at hok
    have hinvalid : ¬ Valid P K := by
      simp only [Valid, intMax, maxTicketsPerProcess]
      split_ifs at hP hK <;> omega
    refine iff_of_true ⟨?_, ?_, ?_⟩ ?_
    · rw [hcalls]
      exact iff_of_false (fun h => h rfl) hinvalid
    · rw [hcalls]
      exact fun h => absurd rfl h
    · intro _ j
      rw [htable]
    · simp only [Slips]
      split_ifs at hP hK <;> omega

/-- A number of tickets that is far too large is refused. -/
theorem obeysBound_refuses :
    ObeysBound 1 5000 userinit
      (main ["assign-tickets".toList, "1".toList, "5000".toList] userinit) :=
  (obeysBound_iff _ "1".toList "5000".toList userinit (by simp) (by simp)).mpr
    (by unfold Slips; decide)

/-- Asked for `2^32 + 1` tickets, the program gives one ticket to the first process, which had
100. -/
theorem obeysBound_wraps :
    decimal "4294967297".toList = 2 ^ 32 + 1 ∧
    let out := main ["assign-tickets".toList, "1".toList, "4294967297".toList] userinit
    out.calls = [(1, 1)] ∧ (userinit initSlot).tickets = 100 ∧
      (out.table initSlot).tickets = 1 ∧
      ¬ ObeysBound (decimal "1".toList) (decimal "4294967297".toList) userinit out := by
  refine ⟨by decide, by decide +kernel, by decide +kernel, by decide +kernel, fun h => ?_⟩
  have hcalls := h.exact_args (by decide +kernel)
  exact absurd hcalls (by decide +kernel)

end AssignTickets

end Xv6Lottery
