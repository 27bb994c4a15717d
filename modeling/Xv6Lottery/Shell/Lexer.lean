import Mathlib.Tactic

/-!
The tokens of a command line: `gettoken` and `peek` of `sh.c`.

* `Cursor`, `gettoken`, `peek`: the code. A cursor is the pointer `*ps` into the line, with the
  text from there to the end `es`.
* `tokens`: the token sequence of a line, one character after the other: symbols, `>>` for two
  `>` in a row, and words, the maximal runs of characters that are neither whitespace nor
  symbols. It is apart from the code.
* `gettoken_of_nil`, `gettoken_of_cons`, `peek_fst`, `ahead_peek`: `gettoken` takes the first token
  that is ahead of the cursor and `peek` looks at its first character. With these the parser is
  about tokens.
-/

namespace Xv6Lottery

namespace Shell

/-! ### The code -/

/-- The characters of `whitespace`. -/
def whitespace : List Char := [' ', '\t', '\r', '\n', '\x0b']

/-- The characters of `symbols`. -/
def symbols : List Char := ['<', '|', '>', '&', ';', '(', ')']

def isSpace (c : Char) : Bool := whitespace.contains c

def isWordChar (c : Char) : Bool := !whitespace.contains c && !symbols.contains c

/-- A pointer into the line: its position, and the text from there to the end `es`. The
character at `es` itself is the NUL that ends the line. -/
structure Cursor where
  pos : ℕ
  rest : List Char
  deriving DecidableEq, Repr

/-- A part of the line, from the pointer `q` up to the pointer `eq`. -/
structure Span where
  q : ℕ
  eq : ℕ
  deriving DecidableEq, Repr

/-- The symbols of the shell's grammar. -/
inductive Sym
  | bar | lparen | rparen | semi | amp | lt | gt | append
  deriving DecidableEq, Repr

/-- What `gettoken` returns: 0 at the end of the line, the character of a symbol, with `+` for
`>>`, and `a` for a word. -/
inductive Tok
  | eol
  | sym (s : Sym)
  | word
  deriving DecidableEq, Repr

/-- The loop `while (s < es && p(*s)) s++`. -/
def skip (p : Char → Bool) (pos : ℕ) : List Char → Cursor
  | [] => ⟨pos, []⟩
  | c :: cs => if p c then skip p (pos + 1) cs else ⟨pos, c :: cs⟩

/-- The loop over whitespace. -/
def skipSpace (s : Cursor) : Cursor := skip isSpace s.pos s.rest

/-- The `switch` of `gettoken`. -/
def scanToken (s : Cursor) : Tok × Cursor :=
  match s.rest with
  | [] => (.eol, s)
  | '|' :: r => (.sym .bar, ⟨s.pos + 1, r⟩)
  | '(' :: r => (.sym .lparen, ⟨s.pos + 1, r⟩)
  | ')' :: r => (.sym .rparen, ⟨s.pos + 1, r⟩)
  | ';' :: r => (.sym .semi, ⟨s.pos + 1, r⟩)
  | '&' :: r => (.sym .amp, ⟨s.pos + 1, r⟩)
  | '<' :: r => (.sym .lt, ⟨s.pos + 1, r⟩)
  | '>' :: '>' :: r => (.sym .append, ⟨s.pos + 2, r⟩)
  | '>' :: r => (.sym .gt, ⟨s.pos + 1, r⟩)
  | _ :: _ => (.word, skip isWordChar s.pos s.rest)

/-- `gettoken`: the token, the part of the line it stands in, and the cursor behind it and the
whitespace that follows. -/
def gettoken (s : Cursor) : Tok × Span × Cursor :=
  let s := skipSpace s
  let t := scanToken s
  (t.1, ⟨s.pos, t.2.pos⟩, skipSpace t.2)

/-- `peek`: whether the first character behind the whitespace is one of `toks`, and the cursor
there. -/
def peek (s : Cursor) (toks : List Char) : Bool × Cursor :=
  let s := skipSpace s
  match s.rest with
  | [] => (false, s)
  | c :: _ => (toks.contains c, s)

/-! ### The token sequence of a line -/

/-- A token of the line. -/
inductive Token
  | sym (s : Sym)
  | word (w : Span)
  deriving DecidableEq, Repr

/-- The symbol that a character is. -/
def symOf (c : Char) : Option Sym :=
  if c = '|' then some .bar
  else if c = '(' then some .lparen
  else if c = ')' then some .rparen
  else if c = ';' then some .semi
  else if c = '&' then some .amp
  else if c = '<' then some .lt
  else if c = '>' then some .gt
  else none

/-- The word in progress, if any, ends before the position `p`. -/
def flush (w : Option ℕ) (p : ℕ) : List Token :=
  match w with
  | none => []
  | some q => [.word ⟨q, p⟩]

/-- The tokens of the text from the position `p` on, when a word that began at the position `w`
is in progress, or none. -/
def lexFrom : Option ℕ → ℕ → List Char → List Token
  | w, p, [] => flush w p
  | w, p, '>' :: '>' :: cs => flush w p ++ .sym .append :: lexFrom none (p + 2) cs
  | w, p, c :: cs =>
      match symOf c with
      | some t => flush w p ++ .sym t :: lexFrom none (p + 1) cs
      | none =>
          if isSpace c then flush w p ++ lexFrom none (p + 1) cs
          else lexFrom (some (w.getD p)) (p + 1) cs

/-- The token sequence of a line. -/
def tokens (line : List Char) : List Token := lexFrom none 0 line

/-- The tokens ahead of a cursor. -/
def ahead (s : Cursor) : List Token := lexFrom none s.pos s.rest

/-! ### Characters -/

lemma symOf_eq_none_iff (c : Char) : symOf c = none ↔ symbols.contains c = false := by
  unfold symOf
  split_ifs <;> simp_all [symbols]

lemma isWordChar_iff (c : Char) : isWordChar c ↔ symOf c = none ∧ isSpace c = false := by
  rw [symOf_eq_none_iff, isWordChar, isSpace, Bool.and_eq_true, Bool.not_eq_true',
    Bool.not_eq_true']
  exact and_comm

/-- No character is both whitespace and a symbol. -/
lemma symOf_of_isSpace {c : Char} (h : isSpace c) : symOf c = none := by
  have hmem : c ∈ whitespace := List.contains_iff_mem.mp h
  fin_cases hmem <;> rfl

/-! ### How the token sequence unfolds -/

/-- A character that is whitespace ends the word in progress. -/
lemma lexFrom_space {c : Char} (hc : isSpace c) (w : Option ℕ) (p : ℕ) (cs : List Char) :
    lexFrom w p (c :: cs) = flush w p ++ lexFrom none (p + 1) cs := by
  have hsym := symOf_of_isSpace hc
  rw [lexFrom]
  · simp [hsym, hc]
  · rintro cs' rfl -
    exact absurd hc (by decide)

/-- A character that is a symbol ends the word in progress and is a token. -/
lemma lexFrom_sym {c : Char} {t : Sym} (hc : symOf c = some t) (w : Option ℕ) (p : ℕ)
    {cs : List Char} (hcs : c = '>' → ∀ cs', cs ≠ '>' :: cs') :
    lexFrom w p (c :: cs) = flush w p ++ .sym t :: lexFrom none (p + 1) cs := by
  rw [lexFrom]
  · simp [hc]
  · intro cs' h1 h2
    exact hcs h1 cs' h2

/-- Any other character belongs to a word. -/
lemma lexFrom_wordChar {c : Char} (hc : isWordChar c) (w : Option ℕ) (p : ℕ) (cs : List Char) :
    lexFrom w p (c :: cs) = lexFrom (some (w.getD p)) (p + 1) cs := by
  obtain ⟨hsym, hspace⟩ := (isWordChar_iff c).mp hc
  rw [lexFrom]
  · simp [hsym, hspace]
  · rintro cs' rfl -
    exact absurd hc (by decide)

/-- A word in progress is the maximal run of word characters. -/
lemma lexFrom_some (q p : ℕ) (cs : List Char) :
    lexFrom (some q) p cs =
      .word ⟨q, (skip isWordChar p cs).pos⟩ :: ahead (skip isWordChar p cs) := by
  induction cs generalizing p with
  | nil => rfl
  | cons c cs ih =>
      rw [skip]
      by_cases hc : isWordChar c
      · rw [if_pos hc, lexFrom_wordChar hc, Option.getD_some, ih]
      · -- a word character short of the run: what follows is the same without the word
        rw [if_neg hc, ahead]
        cases hsym : symOf c with
        | none =>
            have hspace : isSpace c := by
              by_contra h
              exact hc ((isWordChar_iff c).mpr ⟨hsym, by simpa using h⟩)
            rw [lexFrom_space hspace, lexFrom_space hspace]
            rfl
        | some t =>
            by_cases hcs : c = '>' ∧ ∃ cs', cs = '>' :: cs'
            · obtain ⟨rfl, cs', rfl⟩ := hcs
              rfl
            · have hcs' : c = '>' → ∀ cs', cs ≠ '>' :: cs' :=
                fun h1 cs' h2 => hcs ⟨h1, cs', h2⟩
              rw [lexFrom_sym hsym _ _ hcs', lexFrom_sym hsym _ _ hcs']
              rfl

/-! ### The code takes the tokens -/

/-- Whitespace makes no difference to what is ahead. -/
lemma ahead_skipSpace (s : Cursor) : ahead (skipSpace s) = ahead s := by
  obtain ⟨p, cs⟩ := s
  induction cs generalizing p with
  | nil => rfl
  | cons c cs ih =>
      rw [skipSpace, skip]
      by_cases hc : isSpace c
      · rw [if_pos hc]
        have hstep : ahead ⟨p, c :: cs⟩ = ahead ⟨p + 1, cs⟩ := lexFrom_space hc none p cs
        rw [hstep]
        exact ih (p + 1)
      · rw [if_neg hc]

/-- Behind whitespace there is no whitespace. -/
lemma not_isSpace_of_skipSpace {s : Cursor} {c : Char} {cs : List Char}
    (h : (skipSpace s).rest = c :: cs) : ¬ isSpace c := by
  obtain ⟨p, ds⟩ := s
  rw [skipSpace] at h
  dsimp only at h
  induction ds generalizing p with
  | nil => simp [skip] at h
  | cons d ds ih =>
      rw [skip] at h
      split_ifs at h with hd
      · exact ih _ h
      · cases h
        exact hd

/-- What `gettoken` returns for a token. -/
def Token.tok : Token → Tok
  | .sym s => .sym s
  | .word _ => .word

/-- The first character of a symbol. -/
def Sym.lead : Sym → Char
  | .bar => '|'
  | .lparen => '('
  | .rparen => ')'
  | .semi => ';'
  | .amp => '&'
  | .lt => '<'
  | .gt => '>'
  | .append => '>'

lemma lead_of_symOf {c : Char} {t : Sym} (h : symOf c = some t) : t.lead = c := by
  unfold symOf at h
  split_ifs at h <;> cases h <;> simp_all [Sym.lead]

/-- The `switch` on a symbol. -/
lemma scanToken_sym {c : Char} {t : Sym} (hc : symOf c = some t) (p : ℕ) {r : List Char}
    (hr : c = '>' → ∀ r', r ≠ '>' :: r') : scanToken ⟨p, c :: r⟩ = (.sym t, ⟨p + 1, r⟩) := by
  by_cases hgt : c = '>'
  · subst hgt
    cases hc
    unfold scanToken
    split <;> grind
  · unfold symOf at hc
    split_ifs at hc <;> subst_vars <;> cases hc <;> rfl

/-- The `switch` on anything else. -/
lemma scanToken_word {c : Char} (hc : symOf c = none) (p : ℕ) (r : List Char) :
    scanToken ⟨p, c :: r⟩ = (.word, skip isWordChar p (c :: r)) := by
  unfold scanToken
  split <;> simp_all [symOf]

/-- What the `switch` does with the first token `t` that is ahead: `c` is the first character. -/
structure Takes (s : Cursor) (c : Char) (t : Token) : Prop where
  ahead_eq : ahead s = t :: ahead (scanToken s).2
  tok_eq : (scanToken s).1 = t.tok
  span_eq : ∀ w, t = .word w → w = ⟨s.pos, (scanToken s).2.pos⟩
  lead_eq : ∀ x, t = .sym x → x.lead = c
  notMem : ∀ w, t = .word w → c ∉ symbols

/-- On a character that is not whitespace, the `switch` takes the first token ahead. -/
lemma exists_takes {s : Cursor} {c : Char} {r : List Char} (hs : (skipSpace s).rest = c :: r) :
    ∃ t, Takes (skipSpace s) c t := by
  have hspace := not_isSpace_of_skipSpace hs
  generalize skipSpace s = s' at hs
  obtain ⟨p, rest⟩ := s'
  obtain rfl : rest = c :: r := hs
  cases hsym : symOf c with
  | none =>
      have hword : isWordChar c := (isWordChar_iff c).mpr ⟨hsym, by simpa using hspace⟩
      have hlex : ahead ⟨p, c :: r⟩ = .word ⟨p, (skip isWordChar (p + 1) r).pos⟩ ::
          ahead (skip isWordChar (p + 1) r) := by
        rw [ahead, lexFrom_wordChar hword, Option.getD_none, lexFrom_some]
      have hscan : scanToken ⟨p, c :: r⟩ = (.word, skip isWordChar (p + 1) r) := by
        rw [scanToken_word hsym, skip, if_pos hword]
      refine ⟨_, by rw [hlex, hscan], by rw [hscan]; rfl, ?_, by simp, fun _ _ => ?_⟩
      · intro w hw
        rw [hscan]
        exact (Token.word.inj hw).symm
      · simpa using (symOf_eq_none_iff c).mp hsym
  | some t =>
      by_cases hr : c = '>' ∧ ∃ r', r = '>' :: r'
      · obtain ⟨rfl, r', rfl⟩ := hr
        exact ⟨.sym .append, rfl, rfl, by simp, by simp [Sym.lead], by simp⟩
      · have hr' : c = '>' → ∀ r', r ≠ '>' :: r' := fun h1 r' h2 => hr ⟨h1, r', h2⟩
        have hscan := scanToken_sym hsym p hr'
        refine ⟨.sym t, ?_, by rw [hscan]; rfl, by simp, ?_, by simp⟩
        · rw [hscan]
          exact lexFrom_sym hsym none p hr'
        · rintro x ⟨⟩
          exact lead_of_symOf hsym

/-- Nothing is ahead exactly if only whitespace is left. -/
lemma ahead_eq_nil_iff (s : Cursor) : ahead s = [] ↔ (skipSpace s).rest = [] := by
  rw [← ahead_skipSpace s]
  cases hs : (skipSpace s).rest with
  | nil => simp [ahead, hs, lexFrom, flush]
  | cons c r =>
      obtain ⟨t, ht⟩ := exists_takes hs
      simp [ht.ahead_eq]

/-- At the end of the line `gettoken` returns 0. -/
lemma gettoken_of_nil {s : Cursor} (h : ahead s = []) :
    (gettoken s).1 = .eol ∧ ahead (gettoken s).2.2 = [] := by
  have hrest := (ahead_eq_nil_iff s).mp h
  have hscan : scanToken (skipSpace s) = (.eol, skipSpace s) := by simp [scanToken, hrest]
  rw [gettoken]
  dsimp only
  rw [hscan, ahead_skipSpace, ahead_skipSpace]
  exact ⟨rfl, h⟩

/-- Otherwise it takes the first token, and writes down where a word stands. -/
lemma gettoken_of_cons {s : Cursor} {t : Token} {ts : List Token} (h : ahead s = t :: ts) :
    (gettoken s).1 = t.tok ∧ ahead (gettoken s).2.2 = ts ∧
      ∀ w, t = .word w → (gettoken s).2.1 = w := by
  cases hs : (skipSpace s).rest with
  | nil =>
      rw [(ahead_eq_nil_iff s).mpr hs] at h
      cases h
  | cons c r =>
      obtain ⟨t', ht⟩ := exists_takes hs
      have heq := ht.ahead_eq
      rw [ahead_skipSpace, h] at heq
      obtain ⟨rfl, rfl⟩ := List.cons.inj heq
      exact ⟨ht.tok_eq, ahead_skipSpace _, fun w hw => (ht.span_eq w hw).symm⟩

/-- The first token is a symbol that begins with one of the characters. -/
def leads (toks : List Char) : List Token → Bool
  | [] => false
  | .sym s :: _ => toks.contains s.lead
  | .word _ :: _ => false

lemma peek_snd (s : Cursor) (toks : List Char) : (peek s toks).2 = skipSpace s := by
  unfold peek
  dsimp only
  split <;> rfl

/-- `peek` takes nothing but whitespace. -/
lemma ahead_peek (s : Cursor) (toks : List Char) : ahead (peek s toks).2 = ahead s := by
  rw [peek_snd, ahead_skipSpace]

/-- `peek` for symbols tells whether the first token begins with one of them. -/
lemma peek_fst (s : Cursor) {toks : List Char} (htoks : ∀ c ∈ toks, c ∈ symbols) :
    (peek s toks).1 = leads toks (ahead s) := by
  cases hs : (skipSpace s).rest with
  | nil => rw [(ahead_eq_nil_iff s).mpr hs, peek, hs, leads]
  | cons c r =>
      obtain ⟨t, ht⟩ := exists_takes hs
      rw [← ahead_skipSpace s, ht.ahead_eq, peek, hs]
      dsimp only
      cases t with
      | sym x => rw [leads, ht.lead_eq x rfl]
      | word w =>
          have hno : c ∉ toks := fun hc => ht.notMem w rfl (htoks c hc)
          simp [leads, hno]

end Shell

end Xv6Lottery
