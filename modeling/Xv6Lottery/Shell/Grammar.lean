import Xv6Lottery.Shell.Parser

/-!
The grammar of the shell, and the parser that accepts it.

* `Derives`: the derivations of the grammar
  ```
  line  ::= pipe '&'* [';' line]
  pipe  ::= exec ['|' pipe]
  exec  ::= '(' line ')' redir* | redir* (word redir*)*
  redir ::= ('<' | '>' | '>>') word
  ```
  with fewer than `MAXARGS` words in an exec, each with its tree.
* `parseredirs_turn`, `parseamps_turn`, `parseargs_turn`: what one turn of each loop does with
  the tokens ahead.
* `parse_sound`: what the parser returns derives from the tokens between the two cursors.
* `parse_returns`: with four units of fuel for each token and four more, the parser never runs
  out.
* `Derives.parses`: what is derived in front of a token that may follow is found.
* `parsecmd_ok_iff`: together, the parser returns a tree exactly if the line derives it.
-/

namespace Xv6Lottery

namespace Shell

/-! ### The grammar -/

/-- The operators of a redirection. -/
inductive RedirOp
  | input | output | append
  deriving DecidableEq, Repr

/-- `redir ::= ('<' | '>' | '>>') word` -/
structure Redir where
  op : RedirOp
  file : Span
  deriving DecidableEq, Repr

def RedirOp.sym : RedirOp → Sym
  | .input => .lt
  | .output => .gt
  | .append => .append

def Redir.tokens (r : Redir) : List Token := [.sym r.op.sym, .word r.file]

/-- The tree of a command with a redirection: standard input is read from the file, or standard
output written to it. -/
def Redir.around (cmd : Cmd) (r : Redir) : Cmd :=
  match r.op with
  | .input => .redir cmd r.file O_RDONLY 0
  | .output => .redir cmd r.file (O_WRONLY ||| O_CREATE) 1
  | .append => .redir cmd r.file (O_WRONLY ||| O_CREATE) 1

/-- The tokens of `redir*`. -/
def redirsTokens (rs : List Redir) : List Token := rs.flatMap Redir.tokens

/-- A word of a command and the redirections behind it. -/
abbrev Arg := Span × List Redir

/-- The tokens of `(word redir*)*`. -/
def argsTokens (as : List Arg) : List Token :=
  as.flatMap fun a => .word a.1 :: redirsTokens a.2

/-- The nonterminals whose derivations are trees. -/
inductive Nonterminal
  | line | pipe | exec
  deriving DecidableEq, Repr

/-- `Derives nt ts cmd`: the tokens `ts` derive from `nt`, with the tree `cmd`. -/
inductive Derives : Nonterminal → List Token → Cmd → Prop
  | line {ts cmd} (k : ℕ) (h : Derives .pipe ts cmd) :
      Derives .line (ts ++ List.replicate k (.sym .amp)) (Cmd.back^[k] cmd)
  | seq {ts cmd us right} (k : ℕ) (h : Derives .pipe ts cmd) (hright : Derives .line us right) :
      Derives .line (ts ++ List.replicate k (.sym .amp) ++ .sym .semi :: us)
        (.list (Cmd.back^[k] cmd) right)
  | single {ts cmd} (h : Derives .exec ts cmd) : Derives .pipe ts cmd
  | pipe {ts cmd us right} (h : Derives .exec ts cmd) (hright : Derives .pipe us right) :
      Derives .pipe (ts ++ .sym .bar :: us) (.pipe cmd right)
  | block {ts cmd} (rs : List Redir) (h : Derives .line ts cmd) :
      Derives .exec (.sym .lparen :: ts ++ .sym .rparen :: redirsTokens rs)
        (rs.foldl Redir.around cmd)
  | simple (rs : List Redir) (as : List Arg) (h : as.length < MAXARGS) :
      Derives .exec (redirsTokens rs ++ argsTokens as)
        ((rs ++ as.flatMap Prod.snd).foldl Redir.around (.exec (as.map Prod.fst)))

/-! ### Symbols ahead -/

/-- `peek` for one symbol, and the `gettoken` that follows if it is there. -/
lemma peek_sym (x : Sym) (c : Char) (hx : x.lead = c) (hc : c ≠ '>') (s : Cursor) :
    (∃ ts, ahead s = .sym x :: ts ∧ (peek s [c]).1 = true ∧
      ahead (gettoken (peek s [c]).2).2.2 = ts) ∨
    ((∀ ts, ahead s ≠ .sym x :: ts) ∧ (peek s [c]).1 = false ∧
      ahead (peek s [c]).2 = ahead s) := by
  have hsymbols : ∀ d ∈ [c], d ∈ symbols := by
    subst hx
    cases x <;> simp [Sym.lead, symbols]
  have hfst := peek_fst s hsymbols
  have hsame := ahead_peek s [c]
  by_cases h : ∃ ts, ahead s = .sym x :: ts
  · obtain ⟨ts, hts⟩ := h
    refine .inl ⟨ts, hts, ?_, (gettoken_of_cons (hsame.trans hts)).2.1⟩
    rw [hfst, hts]
    simp [leads, hx]
  · refine .inr ⟨fun ts hts => h ⟨ts, hts⟩, ?_, hsame⟩
    rw [hfst]
    cases hts : ahead s with
    | nil => rfl
    | cons t ts =>
        cases t with
        | word w => rfl
        | sym y =>
            -- only `>` and `>>` begin alike
            have hne : y ≠ x := fun hyx => h ⟨ts, by rw [hts, hyx]⟩
            subst hx
            cases x <;> cases y <;> simp_all [leads, Sym.lead]

/-- `peek(ps, es, "<>")` is true of the operators of a redirection. -/
lemma exists_redirOp {ts : List Token} (h : leads ['<', '>'] ts = true) :
    ∃ (op : RedirOp) (us : List Token), ts = .sym op.sym :: us := by
  cases ts with
  | nil => simp [leads] at h
  | cons t us =>
      cases t with
      | word w => simp [leads] at h
      | sym x =>
          cases x with
          | lt => exact ⟨.input, us, rfl⟩
          | gt => exact ⟨.output, us, rfl⟩
          | append => exact ⟨.append, us, rfl⟩
          | _ => simp [leads, Sym.lead] at h

lemma leads_redirOp (op : RedirOp) (ts : List Token) :
    leads ['<', '>'] (.sym op.sym :: ts) = true := by
  cases op <;> rfl

/-! ### The loops, turn by turn -/

@[simp] lemma argsTokens_cons (a : Arg) (as : List Arg) :
    argsTokens (a :: as) = .word a.1 :: (redirsTokens a.2 ++ argsTokens as) := rfl

lemma redirect_eq (cmd : Cmd) (op : RedirOp) (file : Span) :
    redirect cmd (.sym op.sym) file = Redir.around cmd ⟨op, file⟩ := by
  cases op <;> rfl

/-- What one turn of `parseredirs` does: nothing is left to do, a redirection is taken, or the
file is missing. -/
lemma parseredirs_turn (fuel : ℕ) (cmd : Cmd) (s : Cursor) :
    (leads ['<', '>'] (ahead s) = false ∧
      ∃ s', ahead s' = ahead s ∧ parseredirs (fuel + 1) cmd s = .ok (cmd, s')) ∨
    (∃ r s', ahead s = Redir.tokens r ++ ahead s' ∧
      parseredirs (fuel + 1) cmd s = parseredirs fuel (Redir.around cmd r) s') ∨
    (leads ['<', '>'] (ahead s) = true ∧ (∀ r ts, ahead s ≠ Redir.tokens r ++ ts) ∧
      ∃ msg, parseredirs (fuel + 1) cmd s = .error (.exit msg)) := by
  have hpeek := peek_fst s (show ∀ c ∈ ['<', '>'], c ∈ symbols by simp [symbols])
  have hsame := ahead_peek s ['<', '>']
  cases hlead : leads ['<', '>'] (ahead s) with
  | false => exact .inl ⟨rfl, _, hsame, by simp [parseredirs, hpeek, hlead]⟩
  | true =>
      obtain ⟨op, us, hus⟩ := exists_redirOp hlead
      obtain ⟨htok, hahead, -⟩ := gettoken_of_cons (hsame.trans hus)
      by_cases hfile : ∃ file ts, us = .word file :: ts
      · obtain ⟨file, ts, rfl⟩ := hfile
        obtain ⟨hword, hrest, hspan⟩ := gettoken_of_cons hahead
        refine .inr (.inl ⟨⟨op, file⟩, _, by rw [hrest, hus]; rfl, ?_⟩)
        rw [parseredirs]
        simp only [hpeek, hlead, htok, hword, hspan file rfl, Token.tok, redirect_eq, if_true,
          ne_eq, not_true_eq_false, if_false]
      · -- the second token is not a word
        have hno : (gettoken (gettoken (peek s ['<', '>']).2).2.2).1 ≠ .word := by
          cases us with
          | nil =>
              rw [(gettoken_of_nil hahead).1]
              exact fun h => Tok.noConfusion h
          | cons t ts =>
              rw [(gettoken_of_cons hahead).1]
              cases t with
              | sym x => exact fun h => Tok.noConfusion h
              | word w => exact absurd ⟨w, ts, rfl⟩ hfile
        have hstop : parseredirs (fuel + 1) cmd s =
            .error (panic "missing file for redirection") := by
          rw [parseredirs]
          simp [hpeek, hlead, hno]
        refine .inr (.inr ⟨rfl, ?_, _, hstop⟩)
        intro r ts hts
        rw [hus] at hts
        exact hfile ⟨r.file, ts, (List.cons.inj hts).2⟩

/-- What one turn of the loop over `&` does. -/
lemma parseamps_turn (fuel : ℕ) (cmd : Cmd) (s : Cursor) :
    (∃ s', ahead s = .sym .amp :: ahead s' ∧
      parseamps (fuel + 1) cmd s = parseamps fuel (.back cmd) s') ∨
    ((∀ ts, ahead s ≠ .sym .amp :: ts) ∧
      ∃ s', ahead s' = ahead s ∧ parseamps (fuel + 1) cmd s = .ok (cmd, s')) := by
  rcases peek_sym .amp '&' rfl (by decide) s with ⟨ts, hts, hpeek, hrest⟩ | ⟨hno, hpeek, hsame⟩
  · exact .inl ⟨_, by rw [hrest, hts], by rw [parseamps]; simp only [hpeek, if_true]⟩
  · refine .inr ⟨hno, _, hsame, ?_⟩
    rw [parseamps]
    simp [hpeek]

/-- The tokens that may stand behind a command. -/
def followers : Nonterminal → List Sym
  | .line => [.rparen]
  | .pipe => [.amp, .semi, .rparen]
  | .exec => [.bar, .amp, .semi, .rparen]

/-- What comes next may stand behind a command of this kind. -/
def Follows (nt : Nonterminal) (ts : List Token) : Prop :=
  ts = [] ∨ ∃ x ∈ followers nt, ∃ us, ts = .sym x :: us

/-- What one turn of the loop over the arguments does: the command ends, a word is taken with
the redirections behind it, or the shell stops, at a symbol or at one word too many. -/
lemma parseargs_turn (fuel : ℕ) (ret : Cmd) (argc : ℕ) (s : Cursor) :
    (Follows .exec (ahead s) ∧
      ∃ s', ahead s' = ahead s ∧ parseargs (fuel + 1) ret argc s = .ok (ret, s')) ∨
    (argc + 1 < MAXARGS ∧ ∃ w s', ahead s = .word w :: ahead s' ∧
      parseargs (fuel + 1) ret argc s =
        parseredirs fuel (ret.addArg w) s' >>= fun r => parseargs fuel r.1 (argc + 1) r.2) ∨
    (¬ Follows .exec (ahead s) ∧ (argc + 1 < MAXARGS → ∀ w ts, ahead s ≠ .word w :: ts) ∧
      ∃ msg, parseargs (fuel + 1) ret argc s = .error (.exit msg)) := by
  have hpeek := peek_fst s (show ∀ c ∈ ['|', ')', '&', ';'], c ∈ symbols by simp [symbols])
  have hsame := ahead_peek s ['|', ')', '&', ';']
  cases hts : ahead s with
  | nil =>
      rw [hts] at hsame hpeek
      obtain ⟨htok, hrest⟩ := gettoken_of_nil hsame
      refine .inl ⟨.inl rfl, _, hrest, ?_⟩
      simp [parseargs, hpeek, leads, htok]
  | cons t ts =>
      rw [hts] at hsame hpeek
      obtain ⟨htok, hrest, hspan⟩ := gettoken_of_cons hsame
      cases t with
      | word w =>
          by_cases hmax : argc + 1 < MAXARGS
          · refine .inr (.inl ⟨hmax, w, _, by rw [hrest], ?_⟩)
            rw [parseargs]
            simp [hpeek, leads, htok, Token.tok, hspan w rfl, not_le.mpr hmax]
          · have hstop : parseargs (fuel + 1) ret argc s = .error (panic "too many args") := by
              rw [parseargs]
              simp [hpeek, leads, htok, Token.tok, not_lt.mp hmax]
            exact .inr (.inr ⟨by simp [Follows], fun h => absurd h hmax, _, hstop⟩)
      | sym x =>
          by_cases hx : x ∈ followers .exec
          · have hlead : leads ['|', ')', '&', ';'] (.sym x :: ts) = true := by
              cases x <;> first | rfl | exact absurd hx (by decide)
            refine .inl ⟨.inr ⟨x, hx, ts, rfl⟩, _, hsame, ?_⟩
            simp [parseargs, hpeek, hlead]
          · have hlead : leads ['|', ')', '&', ';'] (.sym x :: ts) = false := by
              cases x <;> first | rfl | exact absurd (by decide) hx
            have hstop : parseargs (fuel + 1) ret argc s = .error (panic "syntax") := by
              rw [parseargs]
              simp [hpeek, hlead, htok, Token.tok]
            exact .inr (.inr ⟨by simpa [Follows] using hx, by simp, _, hstop⟩)

/-! ### The loops as a whole -/

lemma Redir.tokens_append_inj {r r' : Redir} {ts ts' : List Token}
    (h : r.tokens ++ ts = r'.tokens ++ ts') : r = r' ∧ ts = ts' := by
  obtain ⟨op, file⟩ := r
  obtain ⟨op', file'⟩ := r'
  simp only [Redir.tokens, List.cons_append, List.nil_append, List.cons.injEq, Token.sym.injEq,
    Token.word.injEq] at h
  obtain ⟨hop, rfl, rfl⟩ := h
  refine ⟨?_, rfl⟩
  cases op <;> cases op' <;> first | rfl | cases hop

/-- `parseredirs` takes redirections, and puts each around the command so far. -/
lemma parseredirs_sound {fuel : ℕ} {cmd cmd' : Cmd} {s s' : Cursor}
    (h : parseredirs fuel cmd s = .ok (cmd', s')) :
    ∃ rs, ahead s = redirsTokens rs ++ ahead s' ∧ cmd' = rs.foldl Redir.around cmd := by
  induction fuel generalizing cmd s with
  | zero => cases h
  | succ fuel ih =>
      rcases parseredirs_turn fuel cmd s with
        ⟨-, s₁, hs₁, heq⟩ | ⟨r, s₁, hs₁, heq⟩ | ⟨-, -, msg, heq⟩ <;> rw [heq] at h
      · cases h
        exact ⟨[], hs₁.symm, rfl⟩
      · obtain ⟨rs, hrs, hcmd⟩ := ih h
        exact ⟨r :: rs, by rw [hs₁, hrs]; rfl, hcmd⟩
      · cases h

/-- Redirections that are ahead are taken, if no more of them follow. -/
lemma parseredirs_complete {fuel : ℕ} (cmd : Cmd) {s : Cursor} {rs : List Redir}
    {rest : List Token} (h : ahead s = redirsTokens rs ++ rest)
    (hrest : leads ['<', '>'] rest = false) (hfuel : (ahead s).length < fuel) :
    ∃ s', ahead s' = rest ∧ parseredirs fuel cmd s = .ok (rs.foldl Redir.around cmd, s') := by
  induction rs generalizing fuel cmd s with
  | nil =>
      obtain ⟨fuel, rfl⟩ : ∃ f, fuel = f + 1 := ⟨fuel - 1, by omega⟩
      obtain rfl : ahead s = rest := h
      rcases parseredirs_turn fuel cmd s with
        ⟨-, s₁, hs₁, heq⟩ | ⟨r, s₁, hs₁, heq⟩ | ⟨hlead, -⟩
      · exact ⟨s₁, hs₁, heq⟩
      · rw [hs₁, Redir.tokens, List.cons_append, leads_redirOp] at hrest
        cases hrest
      · rw [hlead] at hrest
        cases hrest
  | cons r rs ih =>
      obtain ⟨fuel, rfl⟩ : ∃ f, fuel = f + 1 := ⟨fuel - 1, by omega⟩
      have h' : ahead s = r.tokens ++ (redirsTokens rs ++ rest) := h
      rcases parseredirs_turn fuel cmd s with
        ⟨hlead, -⟩ | ⟨r', s₁, hs₁, heq⟩ | ⟨-, hno, -⟩
      · rw [h', Redir.tokens, List.cons_append, leads_redirOp] at hlead
        cases hlead
      · obtain ⟨rfl, hs₁'⟩ := Redir.tokens_append_inj (hs₁.symm.trans h')
        have hlen := congrArg List.length hs₁
        simp only [Redir.tokens, List.length_append, List.length_cons, List.length_nil] at hlen
        rw [heq]
        exact ih _ hs₁' (by omega)
      · exact absurd h' (hno r _)

/-- The loop ends. -/
lemma parseredirs_returns {fuel : ℕ} {cmd : Cmd} {s : Cursor} (h : (ahead s).length < fuel) :
    parseredirs fuel cmd s ≠ .error .outOfFuel := by
  induction fuel generalizing cmd s with
  | zero => omega
  | succ fuel ih =>
      rcases parseredirs_turn fuel cmd s with
        ⟨-, s₁, -, heq⟩ | ⟨r, s₁, hs₁, heq⟩ | ⟨-, -, msg, heq⟩ <;> rw [heq]
      · simp
      · have hlen := congrArg List.length hs₁
        simp only [Redir.tokens, List.length_append, List.length_cons, List.length_nil] at hlen
        exact ih (by omega)
      · simp

/-- The loop over `&` takes all that are ahead. -/
lemma parseamps_sound {fuel : ℕ} {cmd cmd' : Cmd} {s s' : Cursor}
    (h : parseamps fuel cmd s = .ok (cmd', s')) :
    ∃ k, ahead s = List.replicate k (.sym .amp) ++ ahead s' ∧ cmd' = Cmd.back^[k] cmd := by
  induction fuel generalizing cmd s with
  | zero => cases h
  | succ fuel ih =>
      rcases parseamps_turn fuel cmd s with ⟨s₁, hs₁, heq⟩ | ⟨-, s₁, hs₁, heq⟩ <;> rw [heq] at h
      · obtain ⟨k, hk, hcmd⟩ := ih h
        exact ⟨k + 1, by rw [hs₁, hk]; rfl, hcmd⟩
      · cases h
        exact ⟨0, hs₁.symm, rfl⟩

lemma parseamps_complete {fuel : ℕ} (cmd : Cmd) {s : Cursor} {k : ℕ} {rest : List Token}
    (h : ahead s = List.replicate k (.sym .amp) ++ rest) (hrest : ∀ ts, rest ≠ .sym .amp :: ts)
    (hfuel : (ahead s).length < fuel) :
    ∃ s', ahead s' = rest ∧ parseamps fuel cmd s = .ok (Cmd.back^[k] cmd, s') := by
  induction k generalizing fuel cmd s with
  | zero =>
      obtain ⟨fuel, rfl⟩ : ∃ f, fuel = f + 1 := ⟨fuel - 1, by omega⟩
      obtain rfl : ahead s = rest := h
      rcases parseamps_turn fuel cmd s with ⟨s₁, hs₁, -⟩ | ⟨-, s₁, hs₁, heq⟩
      · exact absurd hs₁ (hrest _)
      · exact ⟨s₁, hs₁, heq⟩
  | succ k ih =>
      obtain ⟨fuel, rfl⟩ : ∃ f, fuel = f + 1 := ⟨fuel - 1, by omega⟩
      have h' : ahead s = .sym .amp :: (List.replicate k (.sym .amp) ++ rest) := h
      rcases parseamps_turn fuel cmd s with ⟨s₁, hs₁, heq⟩ | ⟨hno, -⟩
      · obtain ⟨-, hs₁'⟩ := List.cons.inj (hs₁.symm.trans h')
        have hlen := congrArg List.length hs₁
        rw [List.length_cons] at hlen
        rw [heq]
        exact ih _ hs₁' (by omega)
      · exact absurd h' (hno _)

lemma parseamps_returns {fuel : ℕ} {cmd : Cmd} {s : Cursor} (h : (ahead s).length < fuel) :
    parseamps fuel cmd s ≠ .error .outOfFuel := by
  induction fuel generalizing cmd s with
  | zero => omega
  | succ fuel ih =>
      rcases parseamps_turn fuel cmd s with ⟨s₁, hs₁, heq⟩ | ⟨-, s₁, -, heq⟩ <;> rw [heq]
      · have hlen := congrArg List.length hs₁
        rw [List.length_cons] at hlen
        exact ih (by omega)
      · simp

/-! ### Composing calls -/

/-- A call that succeeds after another. -/
lemma bind_eq_ok {α β : Type} {x : Except Stop α} {f : α → Except Stop β} {b : β} :
    x >>= f = .ok b ↔ ∃ a, x = .ok a ∧ f a = .ok b := by
  cases x with
  | error e => simp [bind, Except.bind]
  | ok a => simp [bind, Except.bind]

/-- Two calls one after the other do not run out of fuel if neither does. -/
lemma bind_returns {α β : Type} {x : Except Stop α} {f : α → Except Stop β}
    (hx : x ≠ .error .outOfFuel) (hf : ∀ a, x = .ok a → f a ≠ .error .outOfFuel) :
    x >>= f ≠ .error .outOfFuel := by
  cases x with
  | error e => simpa [bind, Except.bind] using hx
  | ok a => exact hf a rfl

lemma pure_returns {α : Type} (a : α) : (pure a : Except Stop α) ≠ .error .outOfFuel :=
  fun h => by cases h

/-! ### Arguments -/

/-- The tree with one more word and the redirections behind it. -/
def takeArg (ret : Cmd) (a : Arg) : Cmd := a.2.foldl Redir.around (ret.addArg a.1)

/-- The word goes to the EXEC node, below all redirections. -/
lemma addArg_foldl_around (w : Span) (rs : List Redir) (cmd : Cmd) :
    (rs.foldl Redir.around cmd).addArg w = rs.foldl Redir.around (cmd.addArg w) := by
  induction rs generalizing cmd with
  | nil => rfl
  | cons r rs ih =>
      obtain ⟨op, file⟩ := r
      rw [List.foldl_cons, ih]
      cases op <;> rfl

/-- The words end up in the EXEC node and the redirections around it, each in their order. -/
lemma foldl_takeArg (as : List Arg) (rs : List Redir) (argv : List Span) :
    as.foldl takeArg (rs.foldl Redir.around (.exec argv)) =
      (rs ++ as.flatMap Prod.snd).foldl Redir.around (.exec (argv ++ as.map Prod.fst)) := by
  induction as generalizing rs argv with
  | nil => simp
  | cons a as ih =>
      have hstep : takeArg (rs.foldl Redir.around (.exec argv)) a =
          (rs ++ a.2).foldl Redir.around (.exec (argv ++ [a.1])) := by
        rw [takeArg, addArg_foldl_around, List.foldl_append]
        rfl
      rw [List.foldl_cons, hstep, ih]
      simp

lemma parseargs_sound {fuel argc : ℕ} {ret cmd' : Cmd} {s s' : Cursor} (hargc : argc < MAXARGS)
    (h : parseargs fuel ret argc s = .ok (cmd', s')) :
    ∃ as, ahead s = argsTokens as ++ ahead s' ∧ cmd' = as.foldl takeArg ret ∧
      argc + as.length < MAXARGS := by
  induction fuel generalizing ret argc s with
  | zero => cases h
  | succ fuel ih =>
      rcases parseargs_turn fuel ret argc s with
        ⟨-, s₁, hs₁, heq⟩ | ⟨hmax, w, s₁, hs₁, heq⟩ | ⟨-, -, msg, heq⟩ <;> rw [heq] at h
      · cases h
        exact ⟨[], hs₁.symm, rfl, hargc⟩
      · obtain ⟨⟨cmd₁, s₂⟩, hredirs, h⟩ := bind_eq_ok.mp h
        obtain ⟨rs, hrs, rfl⟩ := parseredirs_sound hredirs
        obtain ⟨as, has, hcmd, hlen⟩ := ih hmax h
        refine ⟨(w, rs) :: as, ?_, hcmd, by rw [List.length_cons]; omega⟩
        rw [hs₁, hrs, has, argsTokens_cons, List.cons_append, List.append_assoc]
      · cases h

lemma leads_of_follows {nt : Nonterminal} {ts : List Token} (h : Follows nt ts) :
    leads ['<', '>'] ts = false := by
  rcases h with rfl | ⟨x, hx, us, rfl⟩
  · rfl
  · cases nt <;> cases x <;> first | rfl | exact absurd hx (by decide)

lemma parseargs_complete {fuel : ℕ} (argc : ℕ) (ret : Cmd) {s : Cursor} {as : List Arg}
    {rest : List Token} (h : ahead s = argsTokens as ++ rest) (hrest : Follows .exec rest)
    (hargc : argc + as.length < MAXARGS) (hfuel : (ahead s).length < fuel) :
    ∃ s', ahead s' = rest ∧ parseargs fuel ret argc s = .ok (as.foldl takeArg ret, s') := by
  induction as generalizing fuel ret argc s with
  | nil =>
      obtain ⟨fuel, rfl⟩ : ∃ f, fuel = f + 1 := ⟨fuel - 1, by omega⟩
      obtain rfl : ahead s = rest := h
      rcases parseargs_turn fuel ret argc s with
        ⟨-, s₁, hs₁, heq⟩ | ⟨-, w, s₁, hs₁, -⟩ | ⟨hno, -⟩
      · exact ⟨s₁, hs₁, heq⟩
      · rw [hs₁] at hrest
        simp [Follows] at hrest
      · exact absurd hrest hno
  | cons a as ih =>
      obtain ⟨fuel, rfl⟩ : ∃ f, fuel = f + 1 := ⟨fuel - 1, by omega⟩
      rw [argsTokens_cons, List.cons_append, List.append_assoc] at h
      rw [List.length_cons] at hargc
      rcases parseargs_turn fuel ret argc s with
        ⟨hend, -⟩ | ⟨-, w, s₁, hs₁, heq⟩ | ⟨-, hno, -⟩
      · rw [h] at hend
        simp [Follows] at hend
      · obtain ⟨hw, hs₁'⟩ := List.cons.inj (hs₁.symm.trans h)
        obtain rfl := Token.word.inj hw
        have hlen := congrArg List.length hs₁
        rw [List.length_cons] at hlen
        -- behind the word stand its redirections, and then a word or what follows the command
        have hlead : leads ['<', '>'] (argsTokens as ++ rest) = false := by
          cases as with
          | nil => exact leads_of_follows hrest
          | cons b bs => rfl
        obtain ⟨s₂, hs₂, hredirs⟩ :=
          parseredirs_complete (ret.addArg a.1) hs₁' hlead (by omega : _ < fuel)
        have hlen₂ : (ahead s₂).length < fuel := by
          have hlen₁ := congrArg List.length hs₁'
          rw [List.length_append, ← hs₂] at hlen₁
          omega
        rw [heq, hredirs]
        exact ih _ _ hs₂ (by omega) hlen₂
      · exact absurd h (hno (by omega) _ _)

lemma parseargs_returns {fuel argc : ℕ} {ret : Cmd} {s : Cursor} (h : (ahead s).length < fuel) :
    parseargs fuel ret argc s ≠ .error .outOfFuel := by
  induction fuel generalizing ret argc s with
  | zero => omega
  | succ fuel ih =>
      rcases parseargs_turn fuel ret argc s with
        ⟨-, s₁, -, heq⟩ | ⟨-, w, s₁, hs₁, heq⟩ | ⟨-, -, msg, heq⟩ <;> rw [heq]
      · simp
      · have hlen := congrArg List.length hs₁
        rw [List.length_cons] at hlen
        refine bind_returns (parseredirs_returns (by omega)) ?_
        rintro ⟨cmd₁, s₂⟩ hredirs
        obtain ⟨rs, hrs, -⟩ := parseredirs_sound hredirs
        have hlen₂ : (ahead s₂).length < fuel := by
          have hlen₁ := congrArg List.length hrs
          rw [List.length_append] at hlen₁
          omega
        exact ih hlen₂
      · simp

/-! ### The recursive functions -/

/-- The function that parses a nonterminal. -/
def parse : Nonterminal → ℕ → Cursor → Except Stop (Cmd × Cursor)
  | .line => parseline
  | .pipe => parsepipe
  | .exec => parseexec

/-- `parseblock` as its caller finds it: with a parenthesis ahead. -/
lemma parseblock_succ (fuel : ℕ) {s : Cursor} {ts : List Token} (h : ahead s = .sym .lparen :: ts) :
    ∃ s₁, ahead s₁ = ts ∧ parseblock (fuel + 1) s =
      parseline fuel s₁ >>= fun r =>
        if !(peek r.2 [')']).1 then .error (panic "syntax - missing )")
        else parseredirs fuel r.1 (gettoken (peek r.2 [')']).2).2.2 := by
  rcases peek_sym .lparen '(' rfl (by decide) s with ⟨ts', hts, hpeek, hrest⟩ | ⟨hno, -⟩
  · rw [h] at hts
    obtain rfl := (List.cons.inj hts).2
    refine ⟨_, hrest, ?_⟩
    rw [parseblock]
    simp only [hpeek, Bool.not_true, Bool.false_eq_true, if_false]
  · exact absurd h (hno ts)

/-- **Soundness.** What the parser returns derives from the tokens it has taken. -/
lemma parse_sound (fuel : ℕ) :
    (∀ nt s cmd s', parse nt fuel s = .ok (cmd, s') →
      ∃ ts, ahead s = ts ++ ahead s' ∧ Derives nt ts cmd) ∧
    (∀ s cmd s', (∃ ts, ahead s = .sym .lparen :: ts) → parseblock fuel s = .ok (cmd, s') →
      ∃ ts, ahead s = ts ++ ahead s' ∧ Derives .exec ts cmd) := by
  induction fuel with
  | zero =>
      refine ⟨fun nt s cmd s' h => ?_, fun s cmd s' _ h => ?_⟩
      · cases nt <;> cases h
      · cases h
  | succ fuel ih =>
      obtain ⟨ih, ihblock⟩ := ih
      refine ⟨fun nt s cmd s' h => ?_, fun s cmd s' hs h => ?_⟩
      · cases nt with
        | line =>
            rw [parse, parseline] at h
            obtain ⟨⟨cmd₁, s₁⟩, h₁, h⟩ := bind_eq_ok.mp h
            obtain ⟨⟨cmd₂, s₂⟩, h₂, h⟩ := bind_eq_ok.mp h
            obtain ⟨ts, hts, hpipe⟩ := ih .pipe _ _ _ h₁
            obtain ⟨k, hk, rfl⟩ := parseamps_sound h₂
            dsimp only at hk h
            rcases peek_sym .semi ';' rfl (by decide) s₂ with
              ⟨us, hus, hpeek, hrest⟩ | ⟨-, hpeek, hsame⟩
            · rw [hpeek, if_pos rfl] at h
              obtain ⟨⟨right, s₃⟩, h₃, h⟩ := bind_eq_ok.mp h
              cases h
              obtain ⟨vs, hvs, hline⟩ := ih .line _ _ _ h₃
              refine ⟨_, ?_, .seq k hpipe hline⟩
              rw [hts, hk, hus, ← hrest, hvs]
              simp
            · rw [hpeek, if_neg Bool.false_ne_true] at h
              cases h
              refine ⟨_, ?_, .line k hpipe⟩
              rw [hts, hk, hsame, List.append_assoc]
        | pipe =>
            rw [parse, parsepipe] at h
            obtain ⟨⟨cmd₁, s₁⟩, h₁, h⟩ := bind_eq_ok.mp h
            obtain ⟨ts, hts, hexec⟩ := ih .exec _ _ _ h₁
            dsimp only at h
            rcases peek_sym .bar '|' rfl (by decide) s₁ with
              ⟨us, hus, hpeek, hrest⟩ | ⟨-, hpeek, hsame⟩
            · rw [hpeek, if_pos rfl] at h
              obtain ⟨⟨right, s₂⟩, h₂, h⟩ := bind_eq_ok.mp h
              cases h
              obtain ⟨vs, hvs, hpipe⟩ := ih .pipe _ _ _ h₂
              refine ⟨_, ?_, .pipe hexec hpipe⟩
              rw [hts, hus, ← hrest, hvs]
              simp
            · rw [hpeek, if_neg Bool.false_ne_true] at h
              cases h
              exact ⟨ts, by rw [hts, hsame], .single hexec⟩
        | exec =>
            rw [parse, parseexec] at h
            rcases peek_sym .lparen '(' rfl (by decide) s with
              ⟨us, hus, hpeek, -⟩ | ⟨-, hpeek, hsame⟩
            · rw [hpeek, if_pos rfl] at h
              have hpeeked := ahead_peek s ['(']
              obtain ⟨ts, hts, hexec⟩ := ihblock _ _ _ ⟨us, hpeeked.trans hus⟩ h
              exact ⟨ts, hpeeked.symm.trans hts, hexec⟩
            · rw [hpeek, if_neg Bool.false_ne_true] at h
              obtain ⟨⟨cmd₁, s₁⟩, h₁, h⟩ := bind_eq_ok.mp h
              obtain ⟨rs, hrs, rfl⟩ := parseredirs_sound h₁
              obtain ⟨as, has, rfl, hlen⟩ := parseargs_sound (by decide) h
              rw [foldl_takeArg, List.nil_append]
              refine ⟨_, ?_, .simple rs as (by omega)⟩
              rw [← hsame, hrs, has, List.append_assoc]
      · obtain ⟨us, hus⟩ := hs
        obtain ⟨s₁, hs₁, heq⟩ := parseblock_succ fuel hus
        rw [heq] at h
        obtain ⟨⟨cmd₁, s₂⟩, h₁, h⟩ := bind_eq_ok.mp h
        obtain ⟨ts, hts, hline⟩ := ih .line _ _ _ h₁
        dsimp only at h
        rcases peek_sym .rparen ')' rfl (by decide) s₂ with
          ⟨vs, hvs, hpeek, hrest⟩ | ⟨-, hpeek, -⟩
        · rw [hpeek] at h
          obtain ⟨rs, hrs, rfl⟩ := parseredirs_sound h
          refine ⟨_, ?_, .block rs hline⟩
          rw [hus, ← hs₁, hts, hvs, ← hrest, hrs]
          simp
        · rw [hpeek] at h
          cases h

/-- The fuel that a call needs beyond four units for each token ahead. -/
def need : Nonterminal → ℕ
  | .line => 4
  | .pipe => 3
  | .exec => 2

/-- The tokens behind a call are fewer by those that it has taken. -/
lemma length_ahead_le (nt : Nonterminal) {fuel : ℕ} {s s' : Cursor} {cmd : Cmd}
    (h : parse nt fuel s = .ok (cmd, s')) : (ahead s').length ≤ (ahead s).length := by
  obtain ⟨ts, hts, -⟩ := (parse_sound fuel).1 nt s cmd s' h
  rw [hts, List.length_append]
  omega

/-- **Termination.** With four units of fuel for each token, and a few more, no call runs out. -/
lemma parse_returns (fuel : ℕ) :
    (∀ nt s, 4 * (ahead s).length + need nt ≤ fuel → parse nt fuel s ≠ .error .outOfFuel) ∧
    (∀ s, (∃ ts, ahead s = .sym .lparen :: ts) → 4 * (ahead s).length + 1 ≤ fuel →
      parseblock fuel s ≠ .error .outOfFuel) := by
  induction fuel with
  | zero =>
      refine ⟨fun nt s h => ?_, fun s _ h => by omega⟩
      cases nt <;> simp only [need] at h <;> omega
  | succ fuel ih =>
      obtain ⟨ih, ihblock⟩ := ih
      refine ⟨fun nt s h => ?_, fun s hs h => ?_⟩
      · cases nt with
        | line =>
            simp only [need] at h
            rw [parse, parseline]
            refine bind_returns (ih .pipe s (by simp only [need]; omega)) ?_
            rintro ⟨cmd₁, s₁⟩ h₁
            have hlen₁ := length_ahead_le .pipe h₁
            refine bind_returns (parseamps_returns (by dsimp only; omega)) ?_
            rintro ⟨cmd₂, s₂⟩ h₂
            obtain ⟨k, hk, -⟩ := parseamps_sound h₂
            dsimp only at hk ⊢
            rcases peek_sym .semi ';' rfl (by decide) s₂ with
              ⟨us, hus, hpeek, hrest⟩ | ⟨-, hpeek, -⟩
            · rw [hpeek, if_pos rfl]
              have hlen₂ := congrArg List.length hk
              rw [hus, ← hrest, List.length_append, List.length_cons] at hlen₂
              refine bind_returns (ih .line _ (by simp only [need]; omega)) ?_
              exact fun _ _ => pure_returns _
            · rw [hpeek, if_neg Bool.false_ne_true]
              exact pure_returns _
        | pipe =>
            simp only [need] at h
            rw [parse, parsepipe]
            refine bind_returns (ih .exec s (by simp only [need]; omega)) ?_
            rintro ⟨cmd₁, s₁⟩ h₁
            have hlen₁ := length_ahead_le .exec h₁
            dsimp only
            rcases peek_sym .bar '|' rfl (by decide) s₁ with
              ⟨us, hus, hpeek, hrest⟩ | ⟨-, hpeek, -⟩
            · rw [hpeek, if_pos rfl]
              rw [hus, ← hrest, List.length_cons] at hlen₁
              refine bind_returns (ih .pipe _ (by simp only [need]; omega)) ?_
              exact fun _ _ => pure_returns _
            · rw [hpeek, if_neg Bool.false_ne_true]
              exact pure_returns _
        | exec =>
            simp only [need] at h
            rw [parse, parseexec]
            have hpeeked := ahead_peek s ['(']
            split_ifs with hpeek
            · rcases peek_sym .lparen '(' rfl (by decide) s with
                ⟨us, hus, -⟩ | ⟨-, hpeek', -⟩
              · exact ihblock _ ⟨us, hpeeked.trans hus⟩ (by rw [hpeeked]; omega)
              · rw [hpeek'] at hpeek
                cases hpeek
            · refine bind_returns (parseredirs_returns (by rw [hpeeked]; omega)) ?_
              rintro ⟨cmd₁, s₁⟩ h₁
              obtain ⟨rs, hrs, -⟩ := parseredirs_sound h₁
              have hlen := congrArg List.length hrs
              rw [hpeeked, List.length_append] at hlen
              exact parseargs_returns (by dsimp only; omega)
      · obtain ⟨us, hus⟩ := hs
        obtain ⟨s₁, hs₁, heq⟩ := parseblock_succ fuel hus
        rw [hus, ← hs₁, List.length_cons] at h
        rw [heq]
        refine bind_returns (ih .line s₁ (by simp only [need]; omega)) ?_
        rintro ⟨cmd₁, s₂⟩ h₁
        have hlen₁ := length_ahead_le .line h₁
        dsimp only
        rcases peek_sym .rparen ')' rfl (by decide) s₂ with
          ⟨vs, hvs, hpeek, hrest⟩ | ⟨-, hpeek, -⟩
        · rw [hpeek]
          rw [hvs, ← hrest, List.length_cons] at hlen₁
          exact parseredirs_returns (by omega)
        · rw [hpeek]
          exact fun h => Stop.noConfusion (Except.error.inj h)

/-! ### Completeness -/

/-- What may follow a line may follow a pipe, and so on down. -/
lemma Follows.mono {nt nt' : Nonterminal} {ts : List Token} (h : Follows nt ts)
    (hsub : ∀ x ∈ followers nt, x ∈ followers nt') : Follows nt' ts := by
  rcases h with rfl | ⟨x, hx, us, rfl⟩
  · exact .inl rfl
  · exact .inr ⟨x, hsub x hx, us, rfl⟩

/-- The symbol behind a command does not belong to it. -/
lemma Follows.ne {nt : Nonterminal} {ts : List Token} (h : Follows nt ts) {x : Sym}
    (hx : x ∉ followers nt) (us : List Token) : ts ≠ .sym x :: us := by
  rintro rfl
  rcases h with h | ⟨y, hy, vs, h⟩
  · cases h
  · obtain rfl := Token.sym.inj (List.cons.inj h).1
    exact hx hy

/-- A simple command does not begin with a parenthesis, nor does what follows it. -/
lemma simple_ne_lparen (rs : List Redir) (as : List Arg) {rest : List Token}
    (h : Follows .exec rest) (ts : List Token) :
    redirsTokens rs ++ argsTokens as ++ rest ≠ .sym .lparen :: ts := by
  cases rs with
  | cons r rs =>
      obtain ⟨op, file⟩ := r
      intro heq
      have hsym := Token.sym.inj (List.cons.inj heq).1
      cases op <;> cases hsym
  | nil =>
      cases as with
      | cons a as =>
          intro heq
          cases (List.cons.inj heq).1
      | nil => exact h.ne (by decide) ts

/-- **Completeness.** What is derived in front of a token that may follow is parsed, given
enough fuel. -/
lemma Derives.parses {nt : Nonterminal} {ts : List Token} {cmd : Cmd} (h : Derives nt ts cmd)
    {fuel : ℕ} {s : Cursor} {rest : List Token} (hs : ahead s = ts ++ rest)
    (hrest : Follows nt rest) (hfuel : 4 * (ahead s).length + need nt ≤ fuel) :
    ∃ s', ahead s' = rest ∧ parse nt fuel s = .ok (cmd, s') := by
  induction h generalizing fuel s rest with
  | @line ts cmd k _ ih =>
      simp only [need] at hfuel
      obtain ⟨fuel, rfl⟩ : ∃ f, fuel = f + 1 := ⟨fuel - 1, by omega⟩
      rw [List.append_assoc] at hs
      have hnext : Follows .pipe (List.replicate k (.sym .amp) ++ rest) := by
        cases k with
        | zero => exact hrest.mono (by decide)
        | succ k => exact .inr ⟨.amp, by decide, _, rfl⟩
      obtain ⟨s₁, hs₁, h₁⟩ := ih hs hnext (by simp only [need]; omega : _ ≤ fuel)
      have hlen₁ := length_ahead_le _ h₁
      obtain ⟨s₂, hs₂, h₂⟩ := parseamps_complete cmd hs₁ (hrest.ne (by decide))
        (by omega : _ < fuel)
      rcases peek_sym .semi ';' rfl (by decide) s₂ with ⟨us, hus, -⟩ | ⟨-, hpeek, hsame⟩
      · exact absurd (hs₂.symm.trans hus) (hrest.ne (by decide) us)
      · refine ⟨_, hsame.trans hs₂, ?_⟩
        show parseline (fuel + 1) s = _
        rw [parseline]
        refine bind_eq_ok.mpr ⟨_, h₁, bind_eq_ok.mpr ⟨_, h₂, ?_⟩⟩
        simp only [hpeek, Bool.false_eq_true, if_false]
        rfl
  | @seq ts cmd us right k _ _ ih ihright =>
      simp only [need] at hfuel
      obtain ⟨fuel, rfl⟩ : ∃ f, fuel = f + 1 := ⟨fuel - 1, by omega⟩
      rw [List.append_assoc, List.append_assoc] at hs
      have hnext : Follows .pipe (List.replicate k (.sym .amp) ++ (.sym .semi :: us ++ rest)) := by
        cases k with
        | zero => exact .inr ⟨.semi, by decide, _, rfl⟩
        | succ k => exact .inr ⟨.amp, by decide, _, rfl⟩
      obtain ⟨s₁, hs₁, h₁⟩ := ih hs hnext (by simp only [need]; omega : _ ≤ fuel)
      have hlen₁ := length_ahead_le _ h₁
      obtain ⟨s₂, hs₂, h₂⟩ := parseamps_complete cmd hs₁ (by simp) (by omega : _ < fuel)
      rcases peek_sym .semi ';' rfl (by decide) s₂ with ⟨vs, hvs, hpeek, hahead⟩ | ⟨hno, -⟩
      · obtain ⟨-, rfl⟩ := List.cons.inj (hs₂.symm.trans hvs)
        have hlen₂ := congrArg List.length hs₁
        rw [List.length_append, ← hs₂, hvs, ← hahead, List.length_cons] at hlen₂
        obtain ⟨s₃, hs₃, h₃⟩ := ihright hahead hrest (by simp only [need]; omega : _ ≤ fuel)
        refine ⟨s₃, hs₃, ?_⟩
        show parseline (fuel + 1) s = _
        rw [parseline]
        refine bind_eq_ok.mpr ⟨_, h₁, bind_eq_ok.mpr ⟨_, h₂, ?_⟩⟩
        simp only [hpeek, if_true]
        exact bind_eq_ok.mpr ⟨_, h₃, rfl⟩
      · exact absurd hs₂ (hno _)
  | @single ts cmd _ ih =>
      simp only [need] at hfuel
      obtain ⟨fuel, rfl⟩ : ∃ f, fuel = f + 1 := ⟨fuel - 1, by omega⟩
      obtain ⟨s₁, hs₁, h₁⟩ := ih hs (hrest.mono (by decide)) (by simp only [need]; omega : _ ≤ fuel)
      rcases peek_sym .bar '|' rfl (by decide) s₁ with ⟨us, hus, -⟩ | ⟨-, hpeek, hsame⟩
      · exact absurd (hs₁.symm.trans hus) (hrest.ne (by decide) us)
      · refine ⟨_, hsame.trans hs₁, ?_⟩
        show parsepipe (fuel + 1) s = _
        rw [parsepipe]
        refine bind_eq_ok.mpr ⟨_, h₁, ?_⟩
        simp only [hpeek, Bool.false_eq_true, if_false]
        rfl
  | @pipe ts cmd us right _ _ ih ihright =>
      simp only [need] at hfuel
      obtain ⟨fuel, rfl⟩ : ∃ f, fuel = f + 1 := ⟨fuel - 1, by omega⟩
      rw [List.append_assoc] at hs
      obtain ⟨s₁, hs₁, h₁⟩ := ih hs (.inr ⟨.bar, by decide, _, rfl⟩)
        (by simp only [need]; omega : _ ≤ fuel)
      have hlen₁ := length_ahead_le _ h₁
      rcases peek_sym .bar '|' rfl (by decide) s₁ with ⟨vs, hvs, hpeek, hahead⟩ | ⟨hno, -⟩
      · obtain ⟨-, rfl⟩ := List.cons.inj (hs₁.symm.trans hvs)
        rw [hvs, ← hahead, List.length_cons] at hlen₁
        obtain ⟨s₂, hs₂, h₂⟩ := ihright hahead hrest (by simp only [need]; omega : _ ≤ fuel)
        refine ⟨s₂, hs₂, ?_⟩
        show parsepipe (fuel + 1) s = _
        rw [parsepipe]
        refine bind_eq_ok.mpr ⟨_, h₁, ?_⟩
        simp only [hpeek, if_true]
        exact bind_eq_ok.mpr ⟨_, h₂, rfl⟩
      · exact absurd hs₁ (hno _)
  | @block ts cmd rs _ ih =>
      simp only [need] at hfuel
      -- one unit of fuel for `parseexec`, and one for `parseblock`
      obtain ⟨fuel, rfl⟩ : ∃ f, fuel = f + 2 := ⟨fuel - 2, by omega⟩
      have hs' : ahead s = .sym .lparen :: (ts ++ .sym .rparen :: (redirsTokens rs ++ rest)) := by
        rw [hs]
        simp
      have hpeeked := ahead_peek s ['(']
      obtain ⟨s₁, hs₁, heq⟩ := parseblock_succ fuel (hpeeked.trans hs')
      have hlen := congrArg List.length hs'
      rw [← hs₁, List.length_cons] at hlen
      obtain ⟨s₂, hs₂, h₂⟩ := ih hs₁ (.inr ⟨.rparen, by decide, _, rfl⟩)
        (by simp only [need]; omega : _ ≤ fuel)
      have hlen₂ := length_ahead_le _ h₂
      rcases peek_sym .rparen ')' rfl (by decide) s₂ with ⟨vs, hvs, hpeek, hahead⟩ | ⟨hno, -⟩
      · obtain ⟨-, rfl⟩ := List.cons.inj (hs₂.symm.trans hvs)
        rw [hvs, ← hahead, List.length_cons] at hlen₂
        obtain ⟨s₃, hs₃, h₃⟩ := parseredirs_complete cmd hahead (leads_of_follows hrest)
          (by omega : _ < fuel)
        refine ⟨s₃, hs₃, ?_⟩
        rcases peek_sym .lparen '(' rfl (by decide) s with ⟨-, -, hlparen, -⟩ | ⟨hno, -⟩
        · show parseexec (fuel + 2) s = _
          rw [parseexec, if_pos hlparen, heq]
          refine bind_eq_ok.mpr ⟨_, h₂, ?_⟩
          simp only [hpeek, Bool.not_true, Bool.false_eq_true, if_false]
          exact h₃
        · exact absurd hs' (hno _)
      · exact absurd hs₂ (hno _)
  | simple rs as hmax =>
      simp only [need] at hfuel
      obtain ⟨fuel, rfl⟩ : ∃ f, fuel = f + 1 := ⟨fuel - 1, by omega⟩
      rcases peek_sym .lparen '(' rfl (by decide) s with ⟨ts, hts, -⟩ | ⟨-, hpeek, hsame⟩
      · exact absurd (hs.symm.trans hts) (simple_ne_lparen rs as hrest ts)
      · rw [hs, List.append_assoc] at hsame
        have hlead : leads ['<', '>'] (argsTokens as ++ rest) = false := by
          cases as with
          | nil => exact leads_of_follows hrest
          | cons a as => rfl
        have hlen : (ahead (peek s ['(']).2).length < fuel := by
          rw [ahead_peek]
          omega
        obtain ⟨s₁, hs₁, h₁⟩ := parseredirs_complete (.exec []) hsame hlead hlen
        have hlen₁ : (ahead s₁).length < fuel := by
          have := congrArg List.length hsame
          rw [List.length_append, ← hs₁] at this
          omega
        obtain ⟨s₂, hs₂, h₂⟩ := parseargs_complete 0 (rs.foldl Redir.around (.exec [])) hs₁
          hrest (by omega) hlen₁
        refine ⟨s₂, hs₂, ?_⟩
        show parseexec (fuel + 1) s = _
        rw [parseexec, hpeek, if_neg Bool.false_ne_true]
        refine bind_eq_ok.mpr ⟨_, h₁, ?_⟩
        rw [h₂, foldl_takeArg, List.nil_append]

/-! ### The line -/

lemma length_lexFrom_le (w : Option ℕ) (p : ℕ) (cs : List Char) :
    (lexFrom w p cs).length ≤ cs.length + (flush w p).length := by
  fun_induction lexFrom w p cs with
  | case1 w p => simp
  | case2 w p cs ih =>
      simp only [List.length_append, List.length_cons] at ih ⊢
      simp only [flush, List.length_nil] at ih
      omega
  | case3 w p c cs hcs t hsym ih =>
      simp only [List.length_append, List.length_cons] at ih ⊢
      simp only [flush, List.length_nil] at ih
      omega
  | case4 w p c cs hcs hsym hspace ih =>
      simp only [List.length_append, List.length_cons] at ih ⊢
      simp only [flush, List.length_nil] at ih
      omega
  | case5 w p c cs hcs hsym hspace ih =>
      simp only [flush, List.length_cons, List.length_nil] at ih ⊢
      omega

/-- Fuel enough for every call and every loop on this line. -/
def enough (line : List Char) : ℕ := 4 * line.length + 4

/-- What `parsecmd` returns: a tree of the line, and the line with its strings terminated. -/
lemma parsecmd_sound {fuel : ℕ} {line buf : List Char} {cmd : Cmd}
    (h : parsecmd fuel line = .ok (cmd, buf)) :
    Derives .line (tokens line) cmd ∧ buf = nulterminate cmd (line ++ [nul]) := by
  obtain ⟨⟨cmd', s⟩, hline, h⟩ := bind_eq_ok.mp h
  dsimp only at h
  split_ifs at h with hend
  cases h
  obtain ⟨ts, hts, hderives⟩ := (parse_sound fuel).1 .line _ _ _ hline
  have hnil : ahead s = [] := by
    rw [ahead_eq_nil_iff, ← peek_snd s []]
    exact not_not.mp hend
  rw [hnil, List.append_nil] at hts
  rw [show tokens line = ts from hts]
  exact ⟨hderives, rfl⟩

/-- **The grammar.** With enough fuel the parser never runs out, so that it returns a tree or
stops the shell, and it returns a tree exactly if the tokens of the line derive from `line`, with
that tree. -/
theorem parsecmd_ok_iff (line : List Char) (fuel : ℕ) (hfuel : enough line ≤ fuel) :
    parsecmd fuel line ≠ .error .outOfFuel ∧
    ∀ cmd, (∃ buf, parsecmd fuel line = .ok (cmd, buf)) ↔ Derives .line (tokens line) cmd := by
  have htokens : (tokens line).length ≤ line.length := length_lexFrom_le none 0 line
  have hneed : 4 * (ahead ⟨0, line⟩).length + need .line ≤ fuel := by
    show 4 * (tokens line).length + 4 ≤ fuel
    simp only [enough] at hfuel
    omega
  refine ⟨?_, fun cmd => ⟨?_, ?_⟩⟩
  · refine bind_returns ((parse_returns fuel).1 .line _ hneed) ?_
    rintro ⟨cmd, s⟩ -
    dsimp only
    split_ifs
    · exact fun h => Stop.noConfusion (Except.error.inj h)
    · exact pure_returns _
  · rintro ⟨buf, h⟩
    exact (parsecmd_sound h).1
  · intro hderives
    have hline : ahead ⟨0, line⟩ = tokens line ++ [] := (List.append_nil _).symm
    obtain ⟨s, hs, hparse⟩ := hderives.parses hline (.inl rfl) hneed
    have hend : (peek s []).2.rest = [] := by
      rw [peek_snd]
      exact (ahead_eq_nil_iff s).mp hs
    refine ⟨nulterminate cmd (line ++ [nul]), bind_eq_ok.mpr ⟨_, hparse, ?_⟩⟩
    simp [hend]
    rfl

/-- A pipe of two commands, the first reading from a file. -/
theorem parsecmd_ok_pipe :
    parsecmd (enough "a<b|c".toList) "a<b|c".toList ≠ .error .outOfFuel ∧
    Derives .line (tokens "a<b|c".toList)
      (.pipe (.redir (.exec [⟨0, 1⟩]) ⟨2, 3⟩ O_RDONLY 0) (.exec [⟨4, 5⟩])) := by
  obtain ⟨hreturns, hiff⟩ := parsecmd_ok_iff "a<b|c".toList _ le_rfl
  exact ⟨hreturns, (hiff _).mp ⟨"a\x00b\x00c\x00".toList, by decide⟩⟩

end Shell

end Xv6Lottery
