import Xv6Lottery.Shell.Lexer

/-!
The parser of the shell: `parsecmd` of `sh.c` and the functions it calls.

* `Cmd`: the parsed command. Its strings are parts of the line, given by two pointers each.
* `parseline`, `parsepipe`, `parseexec`, `parseblock`: the recursive functions, with the loops
  `parseredirs`, `parseamps` and `parseargs`. Each takes the cursor and returns it with the
  command, or stops the shell. The fuel bounds the depth of the calls and the turns of the loops;
  that it never matters is part of what is proved.
* `nulterminate`: the NULs written into the line.
* `parsecmd`: the tree and the line, which both survive the call.
-/

namespace Xv6Lottery

namespace Shell

/-- `MAXARGS` -/
abbrev MAXARGS : ℕ := 32

/-- The modes of `fcntl.h`. -/
def O_RDONLY : ℕ := 0x000

def O_WRONLY : ℕ := 0x001

def O_CREATE : ℕ := 0x200

/-- `struct cmd`. The arrays `argv` and `eargv` of a command to execute are the pointers of the
words, up to the null pointer that ends them. -/
inductive Cmd
  | exec (argv : List Span)
  | redir (cmd : Cmd) (file : Span) (mode : ℕ) (fd : ℕ)
  | pipe (left right : Cmd)
  | list (left right : Cmd)
  | back (cmd : Cmd)
  deriving DecidableEq, Repr

/-- How the parser stops without a tree: the shell prints a message and exits. -/
inductive Stop
  | exit (stderr : String)
  | outOfFuel
  deriving DecidableEq, Repr

/-- `panic` -/
def panic (s : String) : Stop := .exit (s ++ "\n")

/-- The command that the pointer `cmd` of `parseexec` leads to: the EXEC node below the
redirections that have been put around it gets one more argument. -/
def Cmd.addArg (w : Span) : Cmd → Cmd
  | .exec argv => .exec (argv ++ [w])
  | .redir cmd file mode fd => .redir (cmd.addArg w) file mode fd
  | cmd => cmd

/-- The `switch` of `parseredirs`. -/
def redirect (cmd : Cmd) (tok : Tok) (file : Span) : Cmd :=
  match tok with
  | .sym .lt => .redir cmd file O_RDONLY 0
  | .sym .gt => .redir cmd file (O_WRONLY ||| O_CREATE) 1
  | .sym .append => .redir cmd file (O_WRONLY ||| O_CREATE) 1
  | _ => cmd

/-- `parseredirs` -/
def parseredirs : ℕ → Cmd → Cursor → Except Stop (Cmd × Cursor)
  | 0, _, _ => .error .outOfFuel
  | fuel + 1, cmd, s =>
      let p := peek s ['<', '>']
      if p.1 then
        let tok := gettoken p.2
        let file := gettoken tok.2.2
        if file.1 ≠ .word then .error (panic "missing file for redirection")
        else parseredirs fuel (redirect cmd tok.1 file.2.1) file.2.2
      else .ok (cmd, p.2)

/-- The loop of `parseexec` over the arguments, `argc` of which have been read. -/
def parseargs : ℕ → Cmd → ℕ → Cursor → Except Stop (Cmd × Cursor)
  | 0, _, _, _ => .error .outOfFuel
  | fuel + 1, ret, argc, s =>
      let p := peek s ['|', ')', '&', ';']
      if p.1 then .ok (ret, p.2)
      else
        let t := gettoken p.2
        if t.1 = .eol then .ok (ret, t.2.2)
        else if t.1 ≠ .word then .error (panic "syntax")
        else if argc + 1 ≥ MAXARGS then .error (panic "too many args")
        else do
          let r ← parseredirs fuel (ret.addArg t.2.1) t.2.2
          parseargs fuel r.1 (argc + 1) r.2

/-- The loop of `parseline` over `&`. -/
def parseamps : ℕ → Cmd → Cursor → Except Stop (Cmd × Cursor)
  | 0, _, _ => .error .outOfFuel
  | fuel + 1, cmd, s =>
      let p := peek s ['&']
      if p.1 then parseamps fuel (.back cmd) (gettoken p.2).2.2
      else .ok (cmd, p.2)

mutual

/-- `parseline` -/
def parseline : ℕ → Cursor → Except Stop (Cmd × Cursor)
  | 0, _ => .error .outOfFuel
  | fuel + 1, s => do
      let r ← parsepipe fuel s
      let r ← parseamps fuel r.1 r.2
      let p := peek r.2 [';']
      if p.1 then
        let right ← parseline fuel (gettoken p.2).2.2
        return (.list r.1 right.1, right.2)
      else return (r.1, p.2)

/-- `parsepipe` -/
def parsepipe : ℕ → Cursor → Except Stop (Cmd × Cursor)
  | 0, _ => .error .outOfFuel
  | fuel + 1, s => do
      let r ← parseexec fuel s
      let p := peek r.2 ['|']
      if p.1 then
        let right ← parsepipe fuel (gettoken p.2).2.2
        return (.pipe r.1 right.1, right.2)
      else return (r.1, p.2)

/-- `parseexec` -/
def parseexec : ℕ → Cursor → Except Stop (Cmd × Cursor)
  | 0, _ => .error .outOfFuel
  | fuel + 1, s =>
      let p := peek s ['(']
      if p.1 then parseblock fuel p.2
      else do
        let r ← parseredirs fuel (.exec []) p.2
        parseargs fuel r.1 0 r.2

/-- `parseblock` -/
def parseblock : ℕ → Cursor → Except Stop (Cmd × Cursor)
  | 0, _ => .error .outOfFuel
  | fuel + 1, s =>
      let p := peek s ['(']
      if !p.1 then .error (panic "parseblock")
      else do
        let r ← parseline fuel (gettoken p.2).2.2
        let p := peek r.2 [')']
        if !p.1 then .error (panic "syntax - missing )")
        else parseredirs fuel r.1 (gettoken p.2).2.2

end

/-! ### `nulterminate` -/

/-- The NUL character. -/
def nul : Char := '\x00'

/-- `nulterminate`, on the line that holds the strings of the command. -/
def nulterminate : Cmd → List Char → List Char
  | .exec argv, buf => argv.foldl (fun buf w => buf.set w.eq nul) buf
  | .redir cmd file _ _, buf => (nulterminate cmd buf).set file.eq nul
  | .pipe left right, buf => nulterminate right (nulterminate left buf)
  | .list left right, buf => nulterminate right (nulterminate left buf)
  | .back cmd, buf => nulterminate cmd buf

/-- `parsecmd`, on a line given by its characters before the NUL: the tree, and the line with its
strings terminated. -/
def parsecmd (fuel : ℕ) (line : List Char) : Except Stop (Cmd × List Char) := do
  let r ← parseline fuel ⟨0, line⟩
  let s := (peek r.2 []).2
  if s.rest ≠ [] then
    .error (.exit ("leftovers: " ++ String.ofList s.rest ++ "\n" ++ "syntax\n"))
  else return (r.1, nulterminate r.1 (line ++ [nul]))

end Shell

end Xv6Lottery
