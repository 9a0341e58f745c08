import Xv6.User.Ulib

/-!
# The shell's parser

`gettoken`, `peek`, `parsecmd`, `parseline`, `parsepipe`, `parseredirs`, `parseblock`,
`parseexec` and `nulterminate` of sh.c, with the constructors they call. The line is the list of
its bytes from the cursor `*ps` to `es`, where its NUL is: a pointer into it is the part of the
line from there on, and a position in the tree is its offset `es - n` for a part of length `n`.
`strchr` is ulib's (`Xv6.User.strchr`).

The tree keeps what the code's structures keep: an exec's `argv` and `eargv` side by side, a
redirection's `file`, `efile`, `mode` and `fd`. parseexec writes the words of an exec into its
`execcmd` after redirections have wrapped it, so the model collects the words and the
redirections and wraps the exec once it has them all (`wrap`), as the pointers end up. A panic
is the error with its message.

The parser's recursion and its loops take `fuel`, one round of it for each call and each turn;
parsecmd gives them more than any line needs, and `Fault.fuel` is a model of running out.
-/

namespace Xv6.User

/-- A byte of the line from a character of the source. -/
def ch (c : Char) : UInt8 := c.toNat.toUInt8

/-- `whitespace[]`, `" \t\r\n\v"`. -/
def whitespace : List UInt8 := [ch ' ', ch '\t', ch '\r', ch '\n', 11]

/-- `symbols[]`, `"<|>&;()"`. -/
def symbols : List UInt8 := [ch '<', ch '|', ch '>', ch '&', ch ';', ch '(', ch ')']

/-- `strchr(toks, c)` found `c`. -/
def isIn (toks : List UInt8) (c : UInt8) : Bool := (strchr toks c).isSome

/-- `while(s < es && strchr(whitespace, *s)) s++;` -/
def skipWhite : List UInt8 → List UInt8
  | [] => []
  | c :: s => if isIn whitespace c then skipWhite s else c :: s

/-- gettoken's word loop, `while(s < es && !strchr(whitespace, *s) && !strchr(symbols, *s))
s++;` -/
def wordEnd : List UInt8 → List UInt8
  | [] => []
  | c :: s => if !isIn whitespace c && !isIn symbols c then wordEnd s else c :: s

/-- What gettoken returns and writes: the token (`ret`), the line from its start (`*q`) and from
just past it (`*eq`), and `*ps`, past the whitespace after it. -/
structure Token where
  kind : UInt8
  start : List UInt8
  stop : List UInt8
  rest : List UInt8

/-- gettoken's `case '>'` past its `s++`: `if(*s == '>'){ ret = '+'; s++; }`. -/
def scanGreater : List UInt8 → UInt8 × List UInt8
  | d :: s => if d = ch '>' then (ch '+', s) else (ch '>', d :: s)
  | [] => (ch '>', [])

/-- gettoken's `switch(*s)`: the token at `s`, which starts past whitespace, and where it ends.
A symbol is its own token, `>>` is `'+'`, anything else starts a word, `'a'`, and the end of
the line, its NUL, is 0. -/
def scan : List UInt8 → UInt8 × List UInt8
  | [] => (0, [])
  | c :: s =>
    if c = 0 then (0, c :: s)
    else if c = ch '|' ∨ c = ch '(' ∨ c = ch ')' ∨ c = ch ';' ∨ c = ch '&' ∨ c = ch '<' then (c, s)
    else if c = ch '>' then scanGreater s
    else (ch 'a', wordEnd (c :: s))

/-- `gettoken(ps, es, q, eq)`. -/
def gettoken (ps : List UInt8) : Token :=
  let s := skipWhite ps
  let (kind, e) := scan s
  ⟨kind, s, e, skipWhite e⟩

/-- `peek(ps, es, toks)`: whether the line past the whitespace starts with one of `toks`, and
`*ps` moved past the whitespace. -/
def peek (ps toks : List UInt8) : Bool × List UInt8 :=
  let s := skipWhite ps
  (match s with
    | [] => false
    | c :: _ => c != 0 && isIn toks c, s)

/-! ## The tree -/

/-- `O_RDONLY`, `O_WRONLY` and `O_CREATE` of fcntl.h. -/
def O_RDONLY : Nat := 0x000

def O_WRONLY : Nat := 0x001

def O_CREATE : Nat := 0x200

/-- `MAXARGS`. -/
def MAXARGS : Nat := 10

/-- A parsed command, `struct cmd` by its `type`: positions are offsets into the line. -/
inductive Cmd
  /-- `EXEC`: `argv[i]` and `eargv[i]`, the start and the end of each word. -/
  | exec (argv : List (Nat × Nat))
  /-- `REDIR`: the command, `file` and `efile`, `mode` and `fd`. -/
  | redir (cmd : Cmd) (file efile mode fd : Nat)
  | pipe (left right : Cmd)
  | list (left right : Cmd)
  | back (cmd : Cmd)
  deriving DecidableEq, Repr

/-- A redirection parseredirs reads, before it wraps a command. -/
structure Redir where
  file : Nat
  efile : Nat
  mode : Nat
  fd : Nat
  deriving DecidableEq, Repr

/-- `redircmd` for each redirection in turn, the last outermost. -/
def wrap (cmd : Cmd) : List Redir → Cmd
  | [] => cmd
  | r :: rs => wrap (.redir cmd r.file r.efile r.mode r.fd) rs

/-- How a parse ends early: sh's `panic` with its message, or, in the model, no fuel left. -/
inductive Fault
  | panic (msg : String)
  | fuel
  deriving DecidableEq, Repr

section Parse

variable (es : Nat)

/-- The offset of a pointer into the line, given as the line from there on. Here `es` is the end of
the line, as the offset of its NUL. -/
def pos (s : List UInt8) : Nat := es - s.length

/-- parseredirs's `switch(tok)`: the redirection of the file name `file` that a token `tok`
makes. The `switch` has no default, so another token makes none; after `peek(ps, es, "<>")`
there is no other. -/
def redirOf (tok : UInt8) (file : Token) : List Redir :=
  if tok = ch '<' then [⟨pos es file.start, pos es file.stop, O_RDONLY, 0⟩]
  else if tok = ch '>' then [⟨pos es file.start, pos es file.stop, O_WRONLY ||| O_CREATE, 1⟩]
  else if tok = ch '+' then [⟨pos es file.start, pos es file.stop, O_WRONLY ||| O_CREATE, 1⟩]
  else []

/-- `parseredirs(cmd, ps, es)`: the redirections at `ps`, in order. -/
def parseredirs : (fuel : Nat) → List UInt8 → Except Fault (List Redir × List UInt8)
  | 0, _ => .error .fuel
  | fuel + 1, ps =>
    let (more, ps) := peek ps [ch '<', ch '>']
    if !more then .ok ([], ps)
    else
      let tok := gettoken ps
      let file := gettoken tok.rest
      if file.kind ≠ ch 'a' then .error (.panic "missing file for redirection")
      else do
        let (rs, ps) ← parseredirs fuel file.rest
        .ok (redirOf es tok.kind file ++ rs, ps)

/-- parseexec's `while(!peek(ps, es, "|)&;"))` loop with `argc` words read: the words after,
the redirections after each, and where it stops. -/
def parseargs : (argc fuel : Nat) → List UInt8 →
    Except Fault ((List (Nat × Nat) × List Redir) × List UInt8)
  | _, 0, _ => .error .fuel
  | argc, fuel + 1, ps =>
    let (stop, ps) := peek ps [ch '|', ch ')', ch '&', ch ';']
    if stop then .ok (([], []), ps)
    else
      let tok := gettoken ps
      if tok.kind = 0 then .ok (([], []), tok.rest)
      else if tok.kind ≠ ch 'a' then .error (.panic "syntax")
      else if argc + 1 ≥ MAXARGS then .error (.panic "too many args")
      else do
        let (rs, ps) ← parseredirs es fuel tok.rest
        let ((ws, rs'), ps) ← parseargs (argc + 1) fuel ps
        .ok (((pos es tok.start, pos es tok.stop) :: ws, rs ++ rs'), ps)

/-- parseline's `while(peek(ps, es, "&"))` loop: a `backcmd` around `cmd` for each `&`. -/
def parsebacks (cmd : Cmd) : (fuel : Nat) → List UInt8 → Except Fault (Cmd × List UInt8)
  | 0, _ => .error .fuel
  | fuel + 1, ps =>
    let (more, ps) := peek ps [ch '&']
    if more then parsebacks (.back cmd) fuel (gettoken ps).rest else .ok (cmd, ps)

mutual

/-- `parseline(ps, es)`. -/
def parseline : (fuel : Nat) → List UInt8 → Except Fault (Cmd × List UInt8)
  | 0, _ => .error .fuel
  | fuel + 1, ps => do
    let (cmd, ps) ← parsepipe fuel ps
    let (cmd, ps) ← parsebacks cmd fuel ps
    let (more, ps) := peek ps [ch ';']
    if more then
      let (right, ps) ← parseline fuel (gettoken ps).rest
      .ok (.list cmd right, ps)
    else .ok (cmd, ps)

/-- `parsepipe(ps, es)`. -/
def parsepipe : (fuel : Nat) → List UInt8 → Except Fault (Cmd × List UInt8)
  | 0, _ => .error .fuel
  | fuel + 1, ps => do
    let (cmd, ps) ← parseexec fuel ps
    let (more, ps) := peek ps [ch '|']
    if more then
      let (right, ps) ← parsepipe fuel (gettoken ps).rest
      .ok (.pipe cmd right, ps)
    else .ok (cmd, ps)

/-- `parseblock(ps, es)`. -/
def parseblock : (fuel : Nat) → List UInt8 → Except Fault (Cmd × List UInt8)
  | 0, _ => .error .fuel
  | fuel + 1, ps =>
    let (isOpen, ps) := peek ps [ch '(']
    if !isOpen then .error (.panic "parseblock")
    else do
      let (cmd, ps) ← parseline fuel (gettoken ps).rest
      let (isClose, ps) := peek ps [ch ')']
      if !isClose then .error (.panic "syntax - missing )")
      else
        let (rs, ps) ← parseredirs es fuel (gettoken ps).rest
        .ok (wrap cmd rs, ps)

/-- `parseexec(ps, es)`: a block, or the redirections and words of an `execcmd`. -/
def parseexec : (fuel : Nat) → List UInt8 → Except Fault (Cmd × List UInt8)
  | 0, _ => .error .fuel
  | fuel + 1, ps =>
    let (isOpen, ps) := peek ps [ch '(']
    if isOpen then parseblock fuel ps
    else do
      let (rs, ps) ← parseredirs es fuel ps
      let ((ws, rs'), ps) ← parseargs es 0 fuel ps
      .ok (wrap (.exec ws) (rs ++ rs'), ps)

end

end Parse

/-- `*p = 0` at offset `p` of the line; the NUL at `es` is one already. -/
def putNul (line : List UInt8) (p : Nat) : List UInt8 := line.set p 0

/-- `nulterminate(cmd)`: a NUL at the end of every word and every file name. -/
def nulterminate (line : List UInt8) : Cmd → List UInt8
  | .exec argv => argv.foldl (fun line w => putNul line w.2) line
  | .redir cmd _ efile _ _ => putNul (nulterminate line cmd) efile
  | .pipe left right => nulterminate (nulterminate line left) right
  | .list left right => nulterminate (nulterminate line left) right
  | .back cmd => nulterminate line cmd

/-- `parsecmd(s)`: the tree of the line and the line after nulterminate, or the panic,
`"syntax"` after the leftovers are printed when the line goes on past what parseline read. The
fuel is four rounds for each byte of the line and some over. -/
def parsecmd (s : List UInt8) : Except Fault (Cmd × List UInt8) := do
  let es := s.length
  let (cmd, ps) ← parseline es (4 * es + 4) s
  let (_, ps) := peek ps []
  if ps ≠ [] then .error (.panic "syntax") else .ok (cmd, nulterminate s cmd)

end Xv6.User
