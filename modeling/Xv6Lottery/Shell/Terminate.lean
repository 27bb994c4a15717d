import Xv6Lottery.Shell.Grammar

/-!
`nulterminate` of `sh.c`: the strings of a parsed command, which all lie in the line.

* `IsWord`: a maximal run of word characters. `isWord_of_mem_tokens`: the words of the token
  sequence are such runs.
* `Cmd.spans`: the strings of a command, the arguments of its EXEC nodes and the files of its
  REDIR nodes. Those of a derivation are words of the line (`Derives.word_mem_of_mem_spans`).
* `nulterminate_eq_terminate`: the NULs are written at the ends of these strings.
* `cstring_of_parsecmd`: after that, each of them reads as the word it was parsed from. A NUL
  never falls inside a word, since the character at the end of a word is not a word character.
-/

namespace Xv6Lottery

namespace Shell

/-! ### Words -/

/-- No word character stands at the position `i` of the line. -/
def Breaks (text : List Char) (i : ℕ) : Prop := ∀ c, text[i]? = some c → ¬ isWordChar c

/-- A maximal run of word characters. -/
structure IsWord (text : List Char) (w : Span) : Prop where
  lt : w.q < w.eq
  chars : ∀ i, w.q ≤ i → i < w.eq → ∃ c, text[i]? = some c ∧ isWordChar c
  left : w.q = 0 ∨ Breaks text (w.q - 1)
  right : Breaks text w.eq

/-- What is known of a word in progress, if any, when the position `p` is reached. -/
def InProgress (text : List Char) (p : ℕ) : Option ℕ → Prop
  | none => p = 0 ∨ Breaks text (p - 1)
  | some q => q < p ∧ (∀ i, q ≤ i → i < p → ∃ c, text[i]? = some c ∧ isWordChar c) ∧
      (q = 0 ∨ Breaks text (q - 1))

lemma isWord_of_mem_flush {text : List Char} {p : ℕ} {w : Option ℕ} {v : Span}
    (hw : InProgress text p w) (hp : Breaks text p) (hv : .word v ∈ flush w p) : IsWord text v := by
  cases w with
  | none => simp [flush] at hv
  | some q =>
      obtain rfl : v = ⟨q, p⟩ := by simpa [flush] using hv
      exact ⟨hw.1, hw.2.1, hw.2.2, hp⟩

/-- A position that holds something else than a word character. -/
lemma breaks_of_drop {text cs : List Char} {c : Char} {p : ℕ} (h : text.drop p = c :: cs)
    (hc : ¬ isWordChar c) : Breaks text p := by
  intro d hd
  have hget : text[p]? = some c := by
    rw [← List.head?_drop, h, List.head?_cons]
  rw [hget] at hd
  rwa [← Option.some.inj hd]

lemma drop_succ_of_drop {text cs : List Char} {c : Char} {p : ℕ} (h : text.drop p = c :: cs) :
    text.drop (p + 1) = cs := by
  rw [← List.tail_drop, h, List.tail_cons]

/-- The words read from a position on are maximal runs, the one in progress included. -/
lemma isWord_of_mem_lexFrom {text : List Char} {w : Option ℕ} {p : ℕ} {cs : List Char} {v : Span}
    (hcs : text.drop p = cs) (hw : InProgress text p w) (hv : .word v ∈ lexFrom w p cs) :
    IsWord text v := by
  fun_induction lexFrom w p cs with
  | case1 w p =>
      refine isWord_of_mem_flush hw ?_ hv
      intro c hc
      rw [List.getElem?_eq_none (List.drop_eq_nil_iff.mp hcs)] at hc
      cases hc
  | case2 w p cs ih =>
      have hnext := drop_succ_of_drop hcs
      rcases List.mem_append.mp hv with hv | hv
      · exact isWord_of_mem_flush hw (breaks_of_drop hcs (by decide)) hv
      · exact ih (drop_succ_of_drop hnext) (.inr (breaks_of_drop hnext (by decide)))
          (by simpa using hv)
  | case3 w p c cs _ t hsym ih =>
      have hbreak : Breaks text p := breaks_of_drop hcs (by simp [isWordChar_iff, hsym])
      rcases List.mem_append.mp hv with hv | hv
      · exact isWord_of_mem_flush hw hbreak hv
      · exact ih (drop_succ_of_drop hcs) (.inr hbreak) (by simpa using hv)
  | case4 w p c cs _ hsym hspace ih =>
      have hbreak : Breaks text p := breaks_of_drop hcs (by simp [isWordChar_iff, hspace])
      rcases List.mem_append.mp hv with hv | hv
      · exact isWord_of_mem_flush hw hbreak hv
      · exact ih (drop_succ_of_drop hcs) (.inr hbreak) hv
  | case5 w p c cs _ hsym hspace ih =>
      -- the word in progress, or one that begins here, has one more character
      have hc : isWordChar c := (isWordChar_iff c).mpr ⟨hsym, by simpa using hspace⟩
      have hget : text[p]? = some c := by rw [← List.head?_drop, hcs, List.head?_cons]
      refine ih (drop_succ_of_drop hcs) ?_ hv
      cases w with
      | none =>
          refine ⟨Nat.lt_succ_self p, fun i h1 h2 => ?_, hw⟩
          obtain rfl : i = p := by
            rw [Option.getD_none] at h1
            omega
          exact ⟨c, hget, hc⟩
      | some q =>
          obtain ⟨hlt, hchars, hleft⟩ := hw
          refine ⟨Nat.lt_succ_of_lt hlt, fun i h1 h2 => ?_, hleft⟩
          rcases Nat.lt_succ_iff_lt_or_eq.mp h2 with h2 | rfl
          · exact hchars i h1 h2
          · exact ⟨c, hget, hc⟩

/-- The words of a line are its maximal runs of word characters. -/
lemma isWord_of_mem_tokens {text : List Char} {w : Span} (h : .word w ∈ tokens text) :
    IsWord text w :=
  isWord_of_mem_lexFrom (p := 0) (w := none) rfl (Or.inl rfl) h

/-! ### The strings of a command -/

/-- The arguments of the EXEC nodes and the files of the REDIR nodes. -/
def Cmd.spans : Cmd → List Span
  | .exec argv => argv
  | .redir cmd file _ _ => cmd.spans ++ [file]
  | .pipe left right => left.spans ++ right.spans
  | .list left right => left.spans ++ right.spans
  | .back cmd => cmd.spans

lemma spans_iterate_back (k : ℕ) (cmd : Cmd) : (Cmd.back^[k] cmd).spans = cmd.spans := by
  induction k generalizing cmd with
  | zero => rfl
  | succ k ih => exact ih (.back cmd)

lemma spans_foldl_around (rs : List Redir) (cmd : Cmd) :
    (rs.foldl Redir.around cmd).spans = cmd.spans ++ rs.map Redir.file := by
  induction rs generalizing cmd with
  | nil => simp
  | cons r rs ih =>
      obtain ⟨op, file⟩ := r
      rw [List.foldl_cons, ih]
      cases op <;> simp [Redir.around, Cmd.spans]

lemma word_mem_redirsTokens {rs : List Redir} {w : Span} (h : w ∈ rs.map Redir.file) :
    .word w ∈ redirsTokens rs := by
  obtain ⟨r, hr, rfl⟩ := List.mem_map.mp h
  exact List.mem_flatMap.mpr ⟨r, hr, by simp [Redir.tokens]⟩

/-- The strings of a tree are words of the tokens it derives from. -/
lemma Derives.word_mem_of_mem_spans {nt : Nonterminal} {ts : List Token} {cmd : Cmd}
    (h : Derives nt ts cmd) {w : Span} (hw : w ∈ cmd.spans) : .word w ∈ ts := by
  induction h with
  | line k _ ih =>
      rw [spans_iterate_back] at hw
      exact List.mem_append_left _ (ih hw)
  | seq k _ _ ih ihright =>
      rw [Cmd.spans, spans_iterate_back] at hw
      rcases List.mem_append.mp hw with hw | hw
      · exact List.mem_append_left _ (List.mem_append_left _ (ih hw))
      · exact List.mem_append_right _ (List.mem_cons_of_mem _ (ihright hw))
  | single _ ih => exact ih hw
  | pipe _ _ ih ihright =>
      rw [Cmd.spans] at hw
      rcases List.mem_append.mp hw with hw | hw
      · exact List.mem_append_left _ (ih hw)
      · exact List.mem_append_right _ (List.mem_cons_of_mem _ (ihright hw))
  | block rs _ ih =>
      rw [spans_foldl_around] at hw
      rcases List.mem_append.mp hw with hw | hw
      · exact List.mem_append_left _ (List.mem_cons_of_mem _ (ih hw))
      · exact List.mem_append_right _ (List.mem_cons_of_mem _ (word_mem_redirsTokens hw))
  | simple rs as _ =>
      rw [spans_foldl_around, List.map_append, List.map_flatMap] at hw
      rcases List.mem_append.mp hw with hw | hw
      · obtain ⟨a, ha, rfl⟩ := List.mem_map.mp hw
        exact List.mem_append_right _ (List.mem_flatMap.mpr ⟨a, ha, List.mem_cons_self ..⟩)
      · rcases List.mem_append.mp hw with hw | hw
        · exact List.mem_append_left _ (word_mem_redirsTokens hw)
        · obtain ⟨a, ha, hfile⟩ := List.mem_flatMap.mp hw
          refine List.mem_append_right _ (List.mem_flatMap.mpr ⟨a, ha, ?_⟩)
          exact List.mem_cons_of_mem _ (word_mem_redirsTokens hfile)

/-! ### The NULs -/

/-- A NUL at the end of each of the strings. -/
def terminate (ws : List Span) (buf : List Char) : List Char :=
  ws.foldl (fun buf w => buf.set w.eq nul) buf

/-- `nulterminate` writes a NUL at the end of each string of the tree, and nothing else. -/
lemma nulterminate_eq_terminate (cmd : Cmd) (buf : List Char) :
    nulterminate cmd buf = terminate cmd.spans buf := by
  induction cmd generalizing buf with
  | exec argv => rfl
  | redir cmd file _ _ ih => simp [nulterminate, Cmd.spans, terminate, ih]
  | pipe left right ihl ihr => simp [nulterminate, Cmd.spans, terminate, ihl, ihr]
  | list left right ihl ihr => simp [nulterminate, Cmd.spans, terminate, ihl, ihr]
  | back cmd ih => exact ih buf

/-- The positions at which a string ends hold a NUL, and all others what they held before. -/
lemma getElem_terminate (ws : List Span) (buf : List Char) (i : ℕ) :
    (terminate ws buf)[i]? =
      if ∃ w ∈ ws, w.eq = i then buf[i]?.map fun _ => nul else buf[i]? := by
  induction ws generalizing buf with
  | nil => simp [terminate]
  | cons v ws ih =>
      have hset : (buf.set v.eq nul)[i]? =
          if v.eq = i then buf[i]?.map (fun _ => nul) else buf[i]? := List.getElem?_set'
      rw [show terminate (v :: ws) buf = terminate ws (buf.set v.eq nul) from rfl, ih, hset]
      by_cases hv : v.eq = i
      · simp [hv, Function.comp_def]
      · simp [hv]

/-! ### The strings in the line -/

/-- The string at a pointer: the characters up to the next NUL. -/
def cstring (buf : List Char) (q : ℕ) : List Char := (buf.drop q).takeWhile (· ≠ nul)

/-- The characters of a part of the line. -/
def Span.read (line : List Char) (w : Span) : List Char := (line.drop w.q).take (w.eq - w.q)

/-- A string reads as a part of the line if that part is still there, has no NUL, and is followed
by one. -/
lemma cstring_eq {text buf : List Char} {w : Span} (hle : w.q ≤ w.eq)
    (hsame : ∀ i, w.q ≤ i → i < w.eq → buf[i]? = text[i]?) (hnul : nul ∉ text)
    (hend : buf[w.eq]? = some nul) : cstring buf w.q = w.read text := by
  have hword : (buf.drop w.q).take (w.eq - w.q) = w.read text := by
    apply List.ext_getElem?
    intro i
    rw [Span.read, List.getElem?_take, List.getElem?_take]
    split_ifs with hi
    · rw [List.getElem?_drop, List.getElem?_drop]
      exact hsame _ (by omega) (by omega)
    · rfl
  have htail : (buf.drop w.q).drop (w.eq - w.q) = nul :: buf.drop (w.eq + 1) := by
    obtain ⟨hlt, hget⟩ := List.getElem?_eq_some_iff.mp hend
    rw [List.drop_drop, Nat.add_sub_cancel' hle, List.drop_eq_getElem_cons hlt, hget]
  have hno : ∀ c ∈ w.read text, decide (c ≠ nul) = true := by
    intro c hc
    have hmem : c ∈ text := List.mem_of_mem_drop (List.mem_of_mem_take hc)
    exact decide_eq_true fun h => hnul (h ▸ hmem)
  calc cstring buf w.q
      = (w.read text ++ nul :: buf.drop (w.eq + 1)).takeWhile (· ≠ nul) := by
        rw [cstring, ← hword, ← htail, List.take_append_drop]
    _ = w.read text := by
        rw [List.takeWhile_append_of_pos hno]
        simp

/-- **The strings.** For every line that is accepted, each argument and each file of the tree is a
word of the line, and after `nulterminate` it reads as exactly that word. -/
theorem cstring_of_parsecmd (line : List Char) (hline : nul ∉ line) (fuel : ℕ) (cmd : Cmd)
    (buf : List Char) (h : parsecmd fuel line = .ok (cmd, buf)) :
    ∀ w ∈ cmd.spans, .word w ∈ tokens line ∧ cstring buf w.q = w.read line := by
  obtain ⟨hderives, rfl⟩ := parsecmd_sound h
  have hisWord : ∀ w ∈ cmd.spans, IsWord line w :=
    fun w hw => isWord_of_mem_tokens (hderives.word_mem_of_mem_spans hw)
  intro w hw
  refine ⟨hderives.word_mem_of_mem_spans hw, ?_⟩
  have hword := hisWord w hw
  -- a word ends inside the line, or with it
  have hlt : w.eq ≤ line.length := by
    obtain ⟨c, hc, -⟩ := hword.chars (w.eq - 1) (by have := hword.lt; omega)
      (by have := hword.lt; omega)
    have := (List.getElem?_eq_some_iff.mp hc).1
    omega
  rw [nulterminate_eq_terminate]
  refine cstring_eq hword.lt.le ?_ hline ?_
  · intro i h1 h2
    obtain ⟨c, hc, hchar⟩ := hword.chars i h1 h2
    -- no string ends here, since this is a word character
    have hno : ¬ ∃ v ∈ cmd.spans, v.eq = i := by
      rintro ⟨v, hv, rfl⟩
      exact (hisWord v hv).right c hc hchar
    rw [getElem_terminate, if_neg hno, List.getElem?_append_left (by omega)]
  · have hsome : (line ++ [nul])[w.eq]?.isSome := by
      rw [List.getElem?_eq_getElem (by simp; omega)]
      rfl
    obtain ⟨c, hc⟩ := Option.isSome_iff_exists.mp hsome
    rw [getElem_terminate, if_pos ⟨w, hw, rfl⟩, hc, Option.map_some]

/-- Words next to symbols and to each other's redirections. -/
theorem cstring_of_parsecmd_adjacent :
    ∃ cmd buf, parsecmd 60 "cat<in>out|wc&".toList = .ok (cmd, buf) ∧
      cmd.spans.map (fun w => cstring buf w.q) =
        ["cat".toList, "in".toList, "out".toList, "wc".toList] := by
  have hparse : parsecmd 60 "cat<in>out|wc&".toList = .ok
      (.back (.pipe (.redir (.redir (.exec [⟨0, 3⟩]) ⟨4, 6⟩ 0 0) ⟨7, 10⟩ 513 1)
        (.exec [⟨11, 13⟩])), "cat\x00in\x00out\x00wc\x00\x00".toList) := by
    decide
  have hstrings := cstring_of_parsecmd "cat<in>out|wc&".toList (by decide) 60 _ _ hparse
  refine ⟨_, _, hparse, ?_⟩
  rw [List.map_congr_left fun w hw => (hstrings w hw).2]
  decide

end Shell

end Xv6Lottery
