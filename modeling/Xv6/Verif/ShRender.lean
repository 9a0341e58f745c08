import Xv6.Verif.ShParse

/-!
# The shell reads back what it is given

A command line as sh's grammar has it (`Command`): the words of each simple command, the
redirections with their file names, pipes, lists and background jobs. `render` prints one with a
space before each word and every compound part in parentheses, and `Cmd.view` reads a parsed tree
back through the line: a word at its offsets. parsecmd of a rendered command returns a tree whose
view is the command (`parsecmd_render`), so the parser loses and invents nothing.

The proof follows the grammar: the words of an exec through parseexec's loop, a block through
parseblock, and each compound through parseline and parsepipe, one lemma for each level the
rendering goes through.
-/

namespace Xv6.User

open Xv6.Except

/-- A command line by sh's grammar. -/
inductive Command
  | exec (words : List (List UInt8))
  | redir (cmd : Command) (file : List UInt8) (mode fd : Nat)
  | pipe (left right : Command)
  | list (left right : Command)
  | back (cmd : Command)
  deriving DecidableEq, Repr

/-- A tree read through its line: each word and file name as the bytes at its offsets. -/
def Cmd.view (line : List UInt8) : Cmd → Command
  | .exec argv => .exec (argv.map fun w => slice line w.1 w.2)
  | .redir cmd file efile mode fd => .redir (cmd.view line) (slice line file efile) mode fd
  | .pipe left right => .pipe (left.view line) (right.view line)
  | .list left right => .list (left.view line) (right.view line)
  | .back cmd => .back (cmd.view line)

/-- Words, each after a space. -/
def spaced (words : List (List UInt8)) : List UInt8 := words.flatMap (ch ' ' :: ·)

/-- A command in parentheses. -/
def paren (s : List UInt8) : List UInt8 := ch '(' :: s ++ [ch ')']

/-- A command as a line sh reads: the words of an exec after spaces, and every part of a
compound command in parentheses; a redirection for reading is `<`, one for writing `>`. -/
def render : Command → List UInt8
  | .exec words => spaced words
  | .redir cmd file mode _ =>
    paren (render cmd) ++ (if mode = O_RDONLY then ch '<' else ch '>') :: file
  | .pipe left right => paren (render left) ++ ch '|' :: paren (render right)
  | .list left right => paren (render left) ++ ch ';' :: paren (render right)
  | .back cmd => paren (render cmd) ++ [ch '&']

/-- A word sh reads back as one: bytes the word loop goes over, none of them NUL. -/
def Word (w : List UInt8) : Prop := w ≠ [] ∧ ∀ c ∈ w, wordy c = true ∧ c ≠ 0

/-- A command sh reads back: words, fewer than `MAXARGS` of them in each exec, and redirections
with the mode and descriptor parseredirs gives them. -/
def Command.Valid : Command → Prop
  | .exec words => words.length < MAXARGS ∧ ∀ w ∈ words, Word w
  | .redir cmd file mode fd =>
    cmd.Valid ∧ Word file ∧ (mode = O_RDONLY ∧ fd = 0 ∨ mode = O_WRONLY ||| O_CREATE ∧ fd = 1)
  | .pipe left right => left.Valid ∧ right.Valid
  | .list left right => left.Valid ∧ right.Valid
  | .back cmd => cmd.Valid

instance : DecidablePred Word := fun w =>
  inferInstanceAs (Decidable (w ≠ [] ∧ ∀ c ∈ w, wordy c = true ∧ c ≠ 0))

instance Command.decidableValid : DecidablePred Command.Valid
  | .exec words => inferInstanceAs (Decidable (words.length < MAXARGS ∧ ∀ w ∈ words, Word w))
  | .redir cmd file mode fd =>
    have := Command.decidableValid cmd
    inferInstanceAs (Decidable (cmd.Valid ∧ Word file ∧
      (mode = O_RDONLY ∧ fd = 0 ∨ mode = O_WRONLY ||| O_CREATE ∧ fd = 1)))
  | .pipe left right =>
    have := Command.decidableValid left
    have := Command.decidableValid right
    inferInstanceAs (Decidable (left.Valid ∧ right.Valid))
  | .list left right =>
    have := Command.decidableValid left
    have := Command.decidableValid right
    inferInstanceAs (Decidable (left.Valid ∧ right.Valid))
  | .back cmd => Command.decidableValid cmd

/-- The line past a command sh reads back whole: the end of the line or the `)` that closes a
block around it. -/
def Closes (rest : List UInt8) : Prop := rest = [] ∨ ∃ more, rest = ch ')' :: more

/-- The bytes of a redirection and what parseredirs makes of them: `<` reads on descriptor 0,
`>` and `>>` both write on descriptor 1. -/
def RedirOp (op : List UInt8) (mode fd : Nat) : Prop :=
  op = [ch '<'] ∧ mode = O_RDONLY ∧ fd = 0 ∨
    (op = [ch '>'] ∨ op = [ch '>', ch '>']) ∧ mode = O_WRONLY ||| O_CREATE ∧ fd = 1

section Bytes

theorem skipWhite_of_not_white {c : UInt8} (notWhite : isIn whitespace c = false)
    (s : List UInt8) : skipWhite (c :: s) = c :: s := by
  rw [skipWhite, if_neg (by simp [notWhite])]

theorem skipWhite_space (s : List UInt8) : skipWhite (ch ' ' :: s) = skipWhite s := by
  rw [skipWhite, if_pos (by decide)]

theorem not_white_of_wordy {c : UInt8} (inWord : wordy c = true) : isIn whitespace c = false := by
  simp only [wordy, Bool.and_eq_true, Bool.not_eq_true'] at inWord
  exact inWord.1

/-- peek for symbols never sees a word byte. -/
theorem startsWith_wordy {toks : List UInt8} {c : UInt8} (inWord : wordy c = true)
    (sub : ∀ t ∈ toks, t ∈ symbols) (s : List UInt8) : startsWith toks (c :: s) = false := by
  simp only [wordy, Bool.and_eq_true, Bool.not_eq_true'] at inWord
  have notSymbol : c ∉ symbols := by
    rw [← isIn_iff c (by decide)]
    simp [inWord.2]
  have notTok : c ∉ toks := fun mem => notSymbol (sub c mem)
  have noNul : 0 ∉ toks := fun mem => absurd (sub 0 mem) (by decide)
  rw [startsWith, Bool.and_eq_false_iff]
  right
  rw [Bool.eq_false_iff, ne_eq, isIn_iff c noNul]
  exact notTok

theorem skipWhite_closes {rest : List UInt8} (closes : Closes rest) : skipWhite rest = rest := by
  rcases closes with rfl | ⟨more, rfl⟩
  · rfl
  · exact skipWhite_of_not_white (by decide) more

/-- peek past a command sees the closing `)` only when it looks for one. -/
theorem startsWith_closes {toks rest : List UInt8} (closes : Closes rest)
    (notClose : ch ')' ∉ toks) (noNul : 0 ∉ toks) : startsWith toks (skipWhite rest) = false := by
  rw [skipWhite_closes closes]
  rcases closes with rfl | ⟨more, rfl⟩
  · rfl
  · rw [startsWith, Bool.and_eq_false_iff]
    right
    rw [Bool.eq_false_iff, ne_eq, isIn_iff _ noNul]
    exact notClose

theorem stop_closes {rest : List UInt8} (closes : Closes rest) :
    ∀ c ∈ rest.head?, wordy c = false := by
  rcases closes with rfl | ⟨more, rfl⟩
  · simp
  · simp only [List.head?_cons, Option.mem_def, Option.some.injEq, forall_eq']
    decide

theorem startsWith_cons (toks : List UInt8) (c : UInt8) (s : List UInt8) :
    startsWith toks (c :: s) = (c != 0 && isIn toks c) := rfl

theorem wordEnd_of_not_wordy {s : List UInt8} (stop : ∀ c ∈ s.head?, wordy c = false) :
    wordEnd s = s := by
  cases s with
  | nil => rfl
  | cons c s => rw [wordEnd_cons, if_neg (by simp [stop c rfl])]

theorem wordEnd_append {w : List UInt8} (all : ∀ c ∈ w, wordy c = true) (s : List UInt8) :
    wordEnd (w ++ s) = wordEnd s := by
  induction w with
  | nil => rfl
  | cons c w ih =>
    rw [List.cons_append, wordEnd_cons, if_pos (all c List.mem_cons_self)]
    exact ih fun b mem => all b (List.mem_cons_of_mem c mem)

/-- gettoken at a symbol that is a token by itself. -/
theorem gettoken_symbol {c : UInt8}
    (symbol : c = ch '|' ∨ c = ch '(' ∨ c = ch ')' ∨ c = ch ';' ∨ c = ch '&' ∨ c = ch '<')
    (s : List UInt8) : gettoken (c :: s) = ⟨c, c :: s, s, skipWhite s⟩ := by
  have notWhite : isIn whitespace c = false := by
    rcases symbol with rfl | rfl | rfl | rfl | rfl | rfl <;> decide
  have nonzero : c ≠ 0 := by
    rcases symbol with rfl | rfl | rfl | rfl | rfl | rfl <;> decide
  simp only [gettoken, skipWhite_of_not_white notWhite, scan, if_neg nonzero, if_pos symbol]

/-- gettoken at a `>` that no second `>` follows. -/
theorem gettoken_greater {s : List UInt8} (single : ∀ d ∈ s.head?, d ≠ ch '>') :
    gettoken (ch '>' :: s) = ⟨ch '>', ch '>' :: s, s, skipWhite s⟩ := by
  have scanned : scanGreater s = (ch '>', s) := by
    cases s with
    | nil => rfl
    | cons d s => rw [scanGreater, if_neg (single d rfl)]
  simp only [gettoken, skipWhite_of_not_white (c := ch '>') (by decide), scan,
    if_neg (show ¬ch '>' = 0 by decide), if_neg (show ¬(ch '>' = ch '|' ∨ ch '>' = ch '(' ∨
      ch '>' = ch ')' ∨ ch '>' = ch ';' ∨ ch '>' = ch '&' ∨ ch '>' = ch '<') by decide),
    ↓reduceIte, scanned]

/-- gettoken at `>>`, the token `'+'`. -/
theorem gettoken_twice (s : List UInt8) :
    gettoken (ch '>' :: ch '>' :: s) = ⟨ch '+', ch '>' :: ch '>' :: s, s, skipWhite s⟩ := by
  simp only [gettoken, skipWhite_of_not_white (c := ch '>') (by decide), scan,
    if_neg (show ¬ch '>' = 0 by decide), if_neg (show ¬(ch '>' = ch '|' ∨ ch '>' = ch '(' ∨
      ch '>' = ch ')' ∨ ch '>' = ch ';' ∨ ch '>' = ch '&' ∨ ch '>' = ch '<') by decide),
    ↓reduceIte, scanGreater]

/-- gettoken at a word, followed by a byte the word loop stops at. -/
theorem gettoken_word {w rest : List UInt8} (word : Word w)
    (stop : ∀ c ∈ rest.head?, wordy c = false) :
    gettoken (w ++ rest) = ⟨ch 'a', w ++ rest, rest, skipWhite rest⟩ := by
  obtain ⟨nonempty, all⟩ := word
  obtain ⟨c, w', rfl⟩ := List.exists_cons_of_ne_nil nonempty
  have first := all c List.mem_cons_self
  simp only [gettoken, List.cons_append, skipWhite_of_not_white (not_white_of_wordy first.1),
    scan_of_wordy first.1 first.2]
  rw [wordEnd_append (fun b mem => (all b (List.mem_cons_of_mem c mem)).1),
    wordEnd_of_not_wordy stop]

/-- A word's offsets in the line read it back. -/
theorem slice_pos {line w rest : List UInt8} (within : w ++ rest <:+ line) :
    slice line (pos line.length (w ++ rest)) (pos line.length rest) = w := by
  obtain ⟨pre, rfl⟩ := within
  have offsets : pos (pre ++ (w ++ rest)).length (w ++ rest) = pre.length ∧
      pos (pre ++ (w ++ rest)).length rest = pre.length + w.length := by
    simp only [pos, List.length_append]
    omega
  rw [offsets.1, offsets.2, slice, List.drop_left, Nat.add_sub_cancel_left, List.take_left]

end Bytes

section Levels

variable (es : Nat)

/-! Every parse function starts with a peek, which goes past the whitespace first. -/

theorem parseredirs_skipWhite (fuel : Nat) (ps : List UInt8) :
    parseredirs es fuel (skipWhite ps) = parseredirs es fuel ps := by
  cases fuel with
  | zero => rfl
  | succ fuel => simp only [parseredirs, peek_eq, skipWhite_skipWhite]

theorem parseargs_skipWhite (argc fuel : Nat) (ps : List UInt8) :
    parseargs es argc fuel (skipWhite ps) = parseargs es argc fuel ps := by
  cases fuel with
  | zero => rfl
  | succ fuel => simp only [parseargs, peek_eq, skipWhite_skipWhite]

theorem parseexec_skipWhite (fuel : Nat) (ps : List UInt8) :
    parseexec es fuel (skipWhite ps) = parseexec es fuel ps := by
  cases fuel with
  | zero => rfl
  | succ fuel => simp only [parseexec, peek_eq, skipWhite_skipWhite]

theorem parsepipe_skipWhite (fuel : Nat) (ps : List UInt8) :
    parsepipe es fuel (skipWhite ps) = parsepipe es fuel ps := by
  cases fuel with
  | zero => rfl
  | succ fuel => simp only [parsepipe, parseexec_skipWhite]

theorem parseline_skipWhite (fuel : Nat) (ps : List UInt8) :
    parseline es fuel (skipWhite ps) = parseline es fuel ps := by
  cases fuel with
  | zero => rfl
  | succ fuel => simp only [parseline, parsepipe_skipWhite]

/-- parseredirs with no redirection ahead. -/
theorem parseredirs_none {fuel : Nat} {ps : List UInt8}
    (noRedir : startsWith [ch '<', ch '>'] (skipWhite ps) = false) :
    parseredirs es (fuel + 1) ps = .ok ([], skipWhite ps) := by
  simp only [parseredirs, peek_eq, noRedir]
  rfl

/-- parseline's `&` loop with no `&` ahead. -/
theorem parsebacks_none {cmd : Cmd} {fuel : Nat} {ps : List UInt8}
    (noBack : startsWith [ch '&'] (skipWhite ps) = false) :
    parsebacks cmd (fuel + 1) ps = .ok (cmd, skipWhite ps) := by
  simp only [parsebacks, peek_eq, noBack]
  rfl

/-- parsepipe over an exec with no `|` after it. -/
theorem parsepipe_of_parseexec {fuel : Nat} {ps rest : List UInt8} {cmd : Cmd}
    (exec : parseexec es fuel ps = .ok (cmd, rest))
    (noPipe : startsWith [ch '|'] (skipWhite rest) = false) :
    parsepipe es (fuel + 1) ps = .ok (cmd, skipWhite rest) := by
  simp only [parsepipe, exec, ok_bind, peek_eq, noPipe]
  rfl

/-- parseline over a pipe with no `&` and no `;` after it. -/
theorem parseline_of_parsepipe {fuel : Nat} {ps rest : List UInt8} {cmd : Cmd}
    (pipe : parsepipe es (fuel + 1) ps = .ok (cmd, rest))
    (noBack : startsWith [ch '&'] (skipWhite rest) = false)
    (noList : startsWith [ch ';'] (skipWhite rest) = false) :
    parseline es (fuel + 2) ps = .ok (cmd, skipWhite rest) := by
  rw [parseline]
  simp only [pipe, ok_bind, parsebacks_none noBack, peek_eq, skipWhite_skipWhite, noList]
  rfl

/-- parseexec at a block: parseline inside the parentheses, then the redirections after them. -/
theorem paren_append (inner more : List UInt8) :
    paren inner ++ more = ch '(' :: (inner ++ ch ')' :: more) := by
  simp [paren]

theorem parseexec_paren {fuel : Nat} {inner more rest : List UInt8} {cmd : Cmd} {rs : List Redir}
    (inside : parseline es fuel (inner ++ ch ')' :: more) = .ok (cmd, ch ')' :: more))
    (redirs : parseredirs es fuel more = .ok (rs, rest)) :
    parseexec es (fuel + 2) (paren inner ++ more) = .ok (wrap cmd rs, rest) := by
  have notWhite : isIn whitespace (ch '(') = false := by decide
  rw [paren_append]
  simp only [parseexec, parseblock, peek_eq, skipWhite_of_not_white notWhite,
    gettoken_symbol (c := ch '(') (by decide), parseline_skipWhite, inside, ok_bind,
    skipWhite_of_not_white (c := ch ')') (by decide), gettoken_symbol (c := ch ')') (by decide),
    parseredirs_skipWhite, redirs]
  rfl

end Levels

section Words

theorem skipWhite_word {w : List UInt8} (word : Word w) (s : List UInt8) :
    skipWhite (w ++ s) = w ++ s := by
  obtain ⟨c, w', rfl⟩ := List.exists_cons_of_ne_nil word.1
  exact skipWhite_of_not_white (not_white_of_wordy (word.2 c List.mem_cons_self).1) _

theorem startsWith_word {toks w : List UInt8} (word : Word w) (sub : ∀ t ∈ toks, t ∈ symbols)
    (s : List UInt8) : startsWith toks (w ++ s) = false := by
  obtain ⟨c, w', rfl⟩ := List.exists_cons_of_ne_nil word.1
  exact startsWith_wordy (word.2 c List.mem_cons_self).1 sub _

theorem spaced_cons (w : List UInt8) (ws : List (List UInt8)) (rest : List UInt8) :
    spaced (w :: ws) ++ rest = ch ' ' :: (w ++ (spaced ws ++ rest)) := by
  simp [spaced]

theorem length_le_spaced : ∀ ws : List (List UInt8), ws.length ≤ (spaced ws).length
  | [] => Nat.le_refl 0
  | w :: ws => by
    have := length_le_spaced ws
    rw [← List.append_nil (spaced (w :: ws)), spaced_cons]
    simp only [List.length_cons, List.length_append, List.append_nil]
    omega

variable {rest : List UInt8} (closes : Closes rest)
include closes

/-- After spaced words and a line that closes, the word loop stops. -/
theorem stop_spaced : ∀ ws : List (List UInt8), ∀ c ∈ (spaced ws ++ rest).head?, wordy c = false
  | [] => by
    rw [spaced, List.flatMap_nil, List.nil_append]
    exact stop_closes closes
  | w :: ws => by
    rw [spaced_cons]
    simp only [List.head?_cons, Option.mem_def, Option.some.injEq, forall_eq']
    decide

/-- A peek for symbols other than `)` sees nothing past spaced words and a line that closes. -/
theorem startsWith_spaced {toks : List UInt8} (sub : ∀ t ∈ toks, t ∈ symbols)
    (notClose : ch ')' ∉ toks) :
    ∀ {ws : List (List UInt8)}, (∀ w ∈ ws, Word w) →
      startsWith toks (skipWhite (spaced ws ++ rest)) = false
  | [], _ => by
    rw [spaced, List.flatMap_nil, List.nil_append]
    exact startsWith_closes closes notClose fun mem => absurd (sub 0 mem) (by decide)
  | w :: ws, words => by
    rw [spaced_cons, skipWhite_space, skipWhite_word (words w List.mem_cons_self)]
    exact startsWith_word (words w List.mem_cons_self) sub _

/-- parseexec's loop reads spaced words back, up to a line that closes: the offsets of each,
and no redirection. -/
theorem parseargs_spaced {line : List UInt8} :
    ∀ (ws : List (List UInt8)) (argc fuel : Nat), (∀ w ∈ ws, Word w) →
      argc + ws.length < MAXARGS → ws.length < fuel → spaced ws ++ rest <:+ line →
      ∃ argv, parseargs line.length argc fuel (spaced ws ++ rest) = .ok ((argv, []), rest) ∧
        argv.map (fun w => slice line w.1 w.2) = ws
  | _, _, 0, _, _, short, _ => absurd short (Nat.not_lt_zero _)
  | [], argc, fuel + 1, _, _, _, _ => by
    refine ⟨[], ?_, rfl⟩
    rcases closes with rfl | ⟨more, rfl⟩
    · rfl
    · rw [spaced, List.flatMap_nil, List.nil_append, parseargs]
      simp only [peek_eq, skipWhite_of_not_white (c := ch ')') (by decide)]
      rfl
  | w :: ws, argc, fuel + 1, words, few, short, within => by
    have word := words w List.mem_cons_self
    have others : ∀ w' ∈ ws, Word w' := fun w' mem => words w' (List.mem_cons_of_mem w mem)
    have length : (w :: ws).length = ws.length + 1 := rfl
    obtain ⟨f, rfl⟩ : ∃ f, fuel = f + 1 := ⟨fuel - 1, by omega⟩
    have tailWithin : spaced ws ++ rest <:+ line := by
      rw [spaced_cons] at within
      exact (List.suffix_append w _).trans ((List.suffix_cons _ _).trans within)
    obtain ⟨argv, loop, view⟩ :=
      parseargs_spaced ws (argc + 1) (f + 1) others (by omega) (by omega) tailWithin
    refine ⟨(pos line.length (w ++ (spaced ws ++ rest)), pos line.length (spaced ws ++ rest)) ::
      argv, ?_, ?_⟩
    · have full : ¬argc + 1 ≥ MAXARGS := by omega
      have noStop : startsWith [ch '|', ch ')', ch '&', ch ';'] (w ++ (spaced ws ++ rest)) =
          false := startsWith_word word (by simp [symbols]) _
      have noRedir : startsWith [ch '<', ch '>'] (skipWhite (spaced ws ++ rest)) = false :=
        startsWith_spaced closes (by simp [symbols]) (by decide) others
      rw [spaced_cons, parseargs]
      simp only [peek_eq, skipWhite_space, skipWhite_word word, noStop,
        gettoken_word word (stop_spaced closes ws), parseredirs_skipWhite,
        parseredirs_none line.length noRedir, ok_bind, parseargs_skipWhite,
        loop, if_neg full, if_neg (show ¬ch 'a' = 0 by decide)]
      rfl
    · rw [List.map_cons, view, spaced_cons] at *
      rw [slice_pos ((List.suffix_cons _ _).trans within)]

end Words

section Compound

variable (es : Nat) {rest : List UInt8} (closes : Closes rest)
include closes

/-- A block with nothing after it but a line that closes, as parseline reads it. -/
theorem parseline_paren {fuel : Nat} {inner : List UInt8} {cmd : Cmd}
    (inside : parseline es (fuel + 1) (inner ++ ch ')' :: rest) = .ok (cmd, ch ')' :: rest)) :
    parseline es (fuel + 5) (paren inner ++ rest) = .ok (cmd, rest) := by
  have exec := parseexec_paren es inside
    (parseredirs_none es (startsWith_closes closes (by decide) (by decide)))
  have pipe := parsepipe_of_parseexec es exec
    (by rw [skipWhite_skipWhite]; exact startsWith_closes closes (by decide) (by decide))
  have parsed := parseline_of_parsepipe es pipe
    (by rw [skipWhite_skipWhite, skipWhite_skipWhite]; exact startsWith_closes closes (by decide) (by decide))
    (by rw [skipWhite_skipWhite, skipWhite_skipWhite]; exact startsWith_closes closes (by decide) (by decide))
  rw [parsed, skipWhite_skipWhite, skipWhite_skipWhite, skipWhite_closes closes]
  rfl

/-- parseline's `&` loop over one `&` before a line that closes. -/
theorem parsebacks_back {cmd : Cmd} {fuel : Nat} :
    parsebacks cmd (fuel + 2) (ch '&' :: rest) = .ok (.back cmd, rest) := by
  have sees : startsWith [ch '&'] (ch '&' :: rest) = true := by
    rw [startsWith_cons]
    decide
  rw [parsebacks]
  simp only [peek_eq, skipWhite_of_not_white (c := ch '&') (by decide), sees, if_true,
    gettoken_symbol (c := ch '&') (by decide)]
  rw [skipWhite_closes closes, parsebacks_none (startsWith_closes closes (by decide) (by decide)),
    skipWhite_closes closes]

/-- parseredirs reads back a redirection of a word, and no more before a line that closes. The token
is `<`, `>` or `+`, each with its own case of `redirOf`. -/
theorem parseredirs_redir {line op file : List UInt8} (word : Word file) {mode fd : Nat}
    (redirOp : RedirOp op mode fd) {fuel : Nat} :
    parseredirs line.length (fuel + 2) (op ++ (file ++ rest)) =
      .ok ([⟨pos line.length (file ++ rest), pos line.length rest, mode, fd⟩], rest) := by
  have named := gettoken_word word (stop_closes closes)
  have after : parseredirs line.length (fuel + 1) (skipWhite rest) = .ok ([], rest) := by
    rw [parseredirs_skipWhite, parseredirs_none _ (startsWith_closes closes (by decide) (by decide)),
      skipWhite_closes closes]
  have first : ∀ d ∈ (file ++ rest).head?, d ≠ ch '>' := by
    obtain ⟨c, file', rfl⟩ := List.exists_cons_of_ne_nil word.1
    intro d head same
    simp only [List.cons_append, List.head?_cons, Option.mem_def, Option.some.injEq] at head
    have inWord := (word.2 c List.mem_cons_self).1
    rw [head, same] at inWord
    exact absurd inWord (by decide)
  rcases redirOp with ⟨rfl, rfl, rfl⟩ | ⟨rfl | rfl, rfl, rfl⟩
  · have sees : startsWith [ch '<', ch '>'] (ch '<' :: (file ++ rest)) = true := by
      rw [startsWith_cons]
      decide
    rw [List.singleton_append, parseredirs]
    simp only [peek_eq, skipWhite_of_not_white (c := ch '<') (by decide), sees, Bool.not_true,
      Bool.false_eq_true, if_false, gettoken_symbol (c := ch '<') (by decide), skipWhite_word word,
      named, ne_eq, not_true_eq_false, after, ok_bind, redirOf, if_pos, List.append_nil]
  · have sees : startsWith [ch '<', ch '>'] (ch '>' :: (file ++ rest)) = true := by
      rw [startsWith_cons]
      decide
    rw [List.singleton_append, parseredirs]
    simp only [peek_eq, skipWhite_of_not_white (c := ch '>') (by decide), sees, Bool.not_true,
      Bool.false_eq_true, if_false, gettoken_greater first, skipWhite_word word, named, ne_eq,
      not_true_eq_false, after, ok_bind, redirOf, if_neg (show ¬ch '>' = ch '<' by decide), if_pos,
      List.append_nil]
  · have sees : startsWith [ch '<', ch '>'] (ch '>' :: ch '>' :: (file ++ rest)) = true := by
      rw [startsWith_cons]
      decide
    rw [List.cons_append, List.singleton_append, parseredirs]
    simp only [peek_eq, skipWhite_of_not_white (c := ch '>') (by decide), sees, Bool.not_true,
      Bool.false_eq_true, if_false, gettoken_twice, skipWhite_word word, named, ne_eq,
      not_true_eq_false, after, ok_bind, redirOf, if_neg (show ¬ch '+' = ch '<' by decide),
      if_neg (show ¬ch '+' = ch '>' by decide), if_pos, List.append_nil]

end Compound

/-- parseline reads `cmd` back from its rendering in `line`, followed by a line that closes, with
the fuel of four rounds for each byte of the rendering and four over. -/
def ReadsBack (line : List UInt8) (cmd : Command) : Prop :=
  ∀ rest, Closes rest → render cmd ++ rest <:+ line → ∀ fuel, 4 * (render cmd).length + 4 ≤ fuel →
    ∃ c : Cmd, parseline line.length fuel (render cmd ++ rest) = .ok (c, rest) ∧ c.view line = cmd

section ReadsBack

variable {line : List UInt8}

theorem readsBack_exec {ws : List (List UInt8)} (valid : (Command.exec ws).Valid) :
    ReadsBack line (.exec ws) := by
  intro rest closes within fuel enough
  obtain ⟨few, words⟩ := valid
  have long := length_le_spaced ws
  rw [render] at enough within ⊢
  obtain ⟨f, rfl⟩ : ∃ f, fuel = f + 4 := ⟨fuel - 4, by omega⟩
  obtain ⟨argv, loop, view⟩ :=
    parseargs_spaced closes ws 0 (f + 1) words (by omega) (by omega) within
  have noRedir : startsWith [ch '<', ch '>'] (skipWhite (spaced ws ++ rest)) = false :=
    startsWith_spaced closes (by simp [symbols]) (by decide) words
  have noOpen : startsWith [ch '('] (skipWhite (spaced ws ++ rest)) = false :=
    startsWith_spaced closes (by simp [symbols]) (by decide) words
  have exec : parseexec line.length (f + 2) (spaced ws ++ rest) = .ok (.exec argv, rest) := by
    rw [parseexec]
    simp only [peek_eq, noOpen, Bool.false_eq_true, if_false, parseredirs_skipWhite, parseredirs_none _ noRedir, ok_bind,
      parseargs_skipWhite, loop]
    rfl
  have pipe := parsepipe_of_parseexec _ exec (startsWith_closes closes (by decide) (by decide))
  rw [skipWhite_closes closes] at pipe
  have parsed := parseline_of_parsepipe _ pipe (startsWith_closes closes (by decide) (by decide))
    (startsWith_closes closes (by decide) (by decide))
  rw [skipWhite_closes closes] at parsed
  exact ⟨.exec argv, parsed, by rw [Cmd.view, view]⟩

/-- parseline reads back a block and one redirection after it, before a line that closes. -/
theorem parseline_redir {cmd : Command} {op file : List UInt8} {mode fd : Nat}
    (inner : ReadsBack line cmd) (word : Word file) (redirOp : RedirOp op mode fd)
    {rest : List UInt8} (closes : Closes rest)
    (within : paren (render cmd) ++ (op ++ (file ++ rest)) <:+ line) {fuel : Nat}
    (enough : 4 * (render cmd).length + 10 ≤ fuel) : ∃ c : Cmd,
      parseline line.length fuel (paren (render cmd) ++ (op ++ (file ++ rest))) = .ok (c, rest) ∧
      c.view line = .redir cmd file mode fd := by
  obtain ⟨f, rfl⟩ : ∃ f, fuel = f + 6 := ⟨fuel - 6, by omega⟩
  have innerWithin := within
  rw [paren_append] at innerWithin
  obtain ⟨c, parsed, view⟩ :=
    inner _ (.inr ⟨_, rfl⟩) ((List.suffix_cons _ _).trans innerWithin) (f + 2) (by omega)
  have exec : parseexec line.length (f + 4) (paren (render cmd) ++ (op ++ (file ++ rest))) =
      .ok (wrap c [⟨pos line.length (file ++ rest), pos line.length rest, mode, fd⟩], rest) :=
    parseexec_paren line.length parsed (parseredirs_redir closes word redirOp)
  have pipe := parsepipe_of_parseexec _ exec (startsWith_closes closes (by decide) (by decide))
  rw [skipWhite_closes closes] at pipe
  have parsed' := parseline_of_parsepipe _ pipe (startsWith_closes closes (by decide) (by decide))
    (startsWith_closes closes (by decide) (by decide))
  rw [skipWhite_closes closes] at parsed'
  have fileWithin : file ++ rest <:+ line :=
    (List.suffix_append _ _).trans ((List.suffix_append _ _).trans within)
  exact ⟨_, parsed', by simp only [wrap, Cmd.view, view, slice_pos fileWithin]⟩

theorem readsBack_redir {cmd : Command} {file : List UInt8} {mode fd : Nat}
    (inner : ReadsBack line cmd) (word : Word file)
    (modes : mode = O_RDONLY ∧ fd = 0 ∨ mode = O_WRONLY ||| O_CREATE ∧ fd = 1) :
    ReadsBack line (.redir cmd file mode fd) := by
  intro rest closes within fuel enough
  have shape : render (.redir cmd file mode fd) ++ rest = paren (render cmd) ++
      ([if mode = O_RDONLY then ch '<' else ch '>'] ++ (file ++ rest)) := by
    simp [render]
  have size : (render (.redir cmd file mode fd)).length =
      (render cmd).length + 3 + file.length := by
    simp [render, paren]
    omega
  have redirOp : RedirOp [if mode = O_RDONLY then ch '<' else ch '>'] mode fd := by
    rcases modes with ⟨rfl, rfl⟩ | ⟨rfl, rfl⟩
    · exact .inl ⟨rfl, rfl, rfl⟩
    · exact .inr ⟨.inl rfl, rfl, rfl⟩
  rw [shape] at within ⊢
  rw [size] at enough
  exact parseline_redir inner word redirOp closes within (by omega)

/-- A block with an operator after it: parseexec reads the command inside and stops at the
operator. -/
theorem parseexec_before {cmd : Command} {op : UInt8} {more : List UInt8}
    (inner : ReadsBack line cmd) (operator : op = ch '|' ∨ op = ch ';' ∨ op = ch '&')
    (within : paren (render cmd) ++ op :: more <:+ line) (fuel : Nat)
    (enough : 4 * (render cmd).length + 4 ≤ fuel) : ∃ c : Cmd,
      parseexec line.length (fuel + 2) (paren (render cmd) ++ op :: more) = .ok (c, op :: more) ∧
        c.view line = cmd := by
  have innerWithin := within
  rw [paren_append] at innerWithin
  obtain ⟨c, parsed, view⟩ :=
    inner _ (.inr ⟨_, rfl⟩) ((List.suffix_cons _ _).trans innerWithin) fuel enough
  have atOp : skipWhite (op :: more) = op :: more := by
    apply skipWhite_of_not_white
    rcases operator with rfl | rfl | rfl <;> decide
  have noRedir : startsWith [ch '<', ch '>'] (skipWhite (op :: more)) = false := by
    rw [atOp, startsWith_cons]
    rcases operator with rfl | rfl | rfl <;> decide
  obtain ⟨g, rfl⟩ : ∃ g, fuel = g + 1 := ⟨fuel - 1, by omega⟩
  have exec := parseexec_paren line.length parsed (parseredirs_none line.length noRedir)
  rw [atOp] at exec
  exact ⟨wrap c [], exec, view⟩

/-- The block after an operator, with the line that closes after it: parsepipe reads it whole. -/
theorem parsepipe_last {cmd : Command} {rest : List UInt8} (inner : ReadsBack line cmd)
    (closes : Closes rest) (within : paren (render cmd) ++ rest <:+ line) (fuel : Nat)
    (enough : 4 * (render cmd).length + 4 ≤ fuel) : ∃ c : Cmd,
      parsepipe line.length (fuel + 3) (paren (render cmd) ++ rest) = .ok (c, rest) ∧
        c.view line = cmd := by
  have innerWithin := within
  rw [paren_append] at innerWithin
  obtain ⟨c, parsed, view⟩ :=
    inner _ (.inr ⟨_, rfl⟩) ((List.suffix_cons _ _).trans innerWithin) fuel enough
  obtain ⟨g, rfl⟩ : ∃ g, fuel = g + 1 := ⟨fuel - 1, by omega⟩
  have exec := parseexec_paren line.length parsed
    (parseredirs_none line.length (startsWith_closes closes (by decide) (by decide)))
  rw [skipWhite_closes closes] at exec
  have pipe := parsepipe_of_parseexec _ exec (startsWith_closes closes (by decide) (by decide))
  rw [skipWhite_closes closes] at pipe
  exact ⟨wrap c [], pipe, view⟩

theorem readsBack_pipe {left right : Command} (readsLeft : ReadsBack line left)
    (readsRight : ReadsBack line right) : ReadsBack line (.pipe left right) := by
  intro rest closes within fuel enough
  have shape : render (.pipe left right) ++ rest =
      paren (render left) ++ (ch '|' :: (paren (render right) ++ rest)) := by
    simp [render]
  have size : (render (.pipe left right)).length =
      (render left).length + (render right).length + 5 := by
    simp [render, paren]
    omega
  rw [shape] at within ⊢
  rw [size] at enough
  obtain ⟨f, rfl⟩ : ∃ f, fuel = f + 6 := ⟨fuel - 6, by omega⟩
  have rightWithin : paren (render right) ++ rest <:+ line :=
    (List.suffix_cons _ _).trans ((List.suffix_append _ _).trans within)
  obtain ⟨cl, execL, viewL⟩ := parseexec_before readsLeft (.inl rfl) within (f + 2) (by omega)
  obtain ⟨cr, pipeR, viewR⟩ := parsepipe_last readsRight closes rightWithin (f + 1)
    (by omega)
  have sees : startsWith [ch '|'] (ch '|' :: (paren (render right) ++ rest)) = true := by
    rw [startsWith_cons]
    decide
  have pipe : parsepipe line.length (f + 5) (paren (render left) ++
      (ch '|' :: (paren (render right) ++ rest))) = .ok (.pipe cl cr, rest) := by
    rw [parsepipe]
    simp only [execL, ok_bind, peek_eq, skipWhite_of_not_white (c := ch '|') (by decide), sees,
      if_true, gettoken_symbol (c := ch '|') (by decide), parsepipe_skipWhite, pipeR]
  have parsed := parseline_of_parsepipe _ pipe (startsWith_closes closes (by decide) (by decide))
    (startsWith_closes closes (by decide) (by decide))
  rw [skipWhite_closes closes] at parsed
  exact ⟨_, parsed, by simp only [Cmd.view, viewL, viewR]⟩

theorem readsBack_list {left right : Command} (readsLeft : ReadsBack line left)
    (readsRight : ReadsBack line right) : ReadsBack line (.list left right) := by
  intro rest closes within fuel enough
  have shape : render (.list left right) ++ rest =
      paren (render left) ++ (ch ';' :: (paren (render right) ++ rest)) := by
    simp [render]
  have size : (render (.list left right)).length =
      (render left).length + (render right).length + 5 := by
    simp [render, paren]
    omega
  rw [shape] at within ⊢
  rw [size] at enough
  obtain ⟨f, rfl⟩ : ∃ f, fuel = f + 6 := ⟨fuel - 6, by omega⟩
  have rightWithin : paren (render right) ++ rest <:+ line :=
    (List.suffix_cons _ _).trans ((List.suffix_append _ _).trans within)
  have rightInner := rightWithin
  rw [paren_append] at rightInner
  obtain ⟨cr, parsedR, viewR⟩ :=
    readsRight _ (.inr ⟨_, rfl⟩) ((List.suffix_cons _ _).trans rightInner) (f + 1) (by omega)
  have atList : skipWhite (ch ';' :: (paren (render right) ++ rest)) =
      ch ';' :: (paren (render right) ++ rest) := skipWhite_of_not_white (by decide) _
  obtain ⟨cl, execL, viewL⟩ := parseexec_before readsLeft (.inr (.inl rfl)) within (f + 2) (by omega)
  have pipeL := parsepipe_of_parseexec _ execL (by rw [atList, startsWith_cons]; decide)
  rw [atList] at pipeL
  have lineR : parseline line.length (f + 5) (paren (render right) ++ rest) = .ok (cr, rest) :=
    parseline_paren line.length closes parsedR
  have sees : startsWith [ch ';'] (ch ';' :: (paren (render right) ++ rest)) = true := by
    rw [startsWith_cons]
    decide
  have parsed : parseline line.length (f + 6) (paren (render left) ++
      (ch ';' :: (paren (render right) ++ rest))) = .ok (.list cl cr, rest) := by
    rw [parseline]
    simp only [pipeL, ok_bind, parsebacks_none (by rw [atList, startsWith_cons]; decide), atList,
      peek_eq, sees, if_true, gettoken_symbol (c := ch ';') (by decide), parseline_skipWhite, lineR]
  exact ⟨_, parsed, by simp only [Cmd.view, viewL, viewR]⟩

theorem readsBack_back {cmd : Command} (inner : ReadsBack line cmd) :
    ReadsBack line (.back cmd) := by
  intro rest closes within fuel enough
  have shape : render (.back cmd) ++ rest = paren (render cmd) ++ (ch '&' :: rest) := by
    simp [render]
  have size : (render (.back cmd)).length = (render cmd).length + 3 := by
    simp [render, paren]
  rw [shape] at within ⊢
  rw [size] at enough
  obtain ⟨f, rfl⟩ : ∃ f, fuel = f + 6 := ⟨fuel - 6, by omega⟩
  have atBack : skipWhite (ch '&' :: rest) = ch '&' :: rest := skipWhite_of_not_white (by decide) _
  obtain ⟨c, exec, view⟩ := parseexec_before inner (.inr (.inr rfl)) within (f + 2) (by omega)
  have pipe := parsepipe_of_parseexec _ exec (by rw [atBack, startsWith_cons]; decide)
  rw [atBack] at pipe
  have backs : parsebacks c (f + 5) (ch '&' :: rest) = .ok (.back c, rest) :=
    parsebacks_back closes
  have noList := @startsWith_closes [ch ';'] rest closes (by decide) (by decide)
  rw [skipWhite_closes closes] at noList
  have parsed : parseline line.length (f + 6) (paren (render cmd) ++ (ch '&' :: rest)) =
      .ok (.back c, rest) := by
    rw [parseline]
    simp only [pipe, ok_bind, backs, peek_eq, skipWhite_closes closes, noList, Bool.false_eq_true,
      if_false]
  exact ⟨_, parsed, by simp only [Cmd.view, view]⟩

/-- parseline reads back every command sh's grammar has, by induction on it. -/
theorem readsBack : ∀ cmd : Command, cmd.Valid → ReadsBack line cmd
  | .exec _, valid => readsBack_exec valid
  | .redir cmd _ _ _, valid => readsBack_redir (readsBack cmd valid.1) valid.2.1 valid.2.2
  | .pipe left right, valid => readsBack_pipe (readsBack left valid.1) (readsBack right valid.2)
  | .list left right, valid => readsBack_list (readsBack left valid.1) (readsBack right valid.2)
  | .back cmd, valid => readsBack_back (readsBack cmd valid)

end ReadsBack

/-- parsecmd reads a command back from its rendering: the tree it returns has the command's
words, file names, modes and descriptors, and its shape. -/
theorem parsecmd_render {cmd : Command} (valid : cmd.Valid) : ∃ c : Cmd,
    parsecmd (render cmd) = .ok (c, nulterminate (render cmd) c) ∧ c.view (render cmd) = cmd := by
  obtain ⟨c, parsed, view⟩ := @readsBack (render cmd) cmd valid [] (.inl rfl)
    (by rw [List.append_nil]) (4 * (render cmd).length + 4) (Nat.le_refl _)
  rw [List.append_nil] at parsed
  refine ⟨c, ?_, view⟩
  rw [parsecmd, parsed]
  rfl

/-- A pipe of two commands, `ls | wc`. -/
def lsWc : Command := .pipe (.exec [[ch 'l', ch 's']]) (.exec [[ch 'w', ch 'c']])

theorem parsecmd_render_lsWc : lsWc.Valid ∧ ∃ c : Cmd,
    parsecmd (render lsWc) = .ok (c, nulterminate (render lsWc) c) ∧ c.view (render lsWc) = lsWc :=
  have valid : lsWc.Valid := by decide +kernel
  ⟨valid, parsecmd_render valid⟩

/-! ## How a line that is not a command fails -/

/-- A block that is never closed: parsecmd panics with "syntax - missing )". parseblock reads the
command and finds the end of the line where its `)` should be. -/
theorem parsecmd_unclosed {cmd : Command} (valid : cmd.Valid) :
    parsecmd (ch '(' :: render cmd) = .error (.panic "syntax - missing )") := by
  obtain ⟨c, parsed, -⟩ := @readsBack (ch '(' :: render cmd) cmd valid [] (.inl rfl)
    (by rw [List.append_nil]; exact List.suffix_cons _ _) (4 * (render cmd).length + 4)
    (Nat.le_refl _)
  rw [List.append_nil] at parsed
  have atOpen : skipWhite (ch '(' :: render cmd) = ch '(' :: render cmd :=
    skipWhite_of_not_white (by decide) _
  have sees : startsWith [ch '('] (ch '(' :: render cmd) = true := by
    rw [startsWith_cons]
    decide
  have block : parseblock (ch '(' :: render cmd).length (4 * (render cmd).length + 5)
      (ch '(' :: render cmd) = .error (.panic "syntax - missing )") := by
    rw [parseblock]
    simp only [peek_eq, atOpen, sees, Bool.not_true, Bool.false_eq_true, if_false,
      gettoken_symbol (c := ch '(') (by decide), parseline_skipWhite, parsed, ok_bind]
    rfl
  have exec : parseexec (ch '(' :: render cmd).length (4 * (render cmd).length + 6)
      (ch '(' :: render cmd) = .error (.panic "syntax - missing )") := by
    rw [parseexec]
    simp only [peek_eq, atOpen, sees, if_true, block]
  have pipe : parsepipe (ch '(' :: render cmd).length (4 * (render cmd).length + 7)
      (ch '(' :: render cmd) = .error (.panic "syntax - missing )") := by
    rw [parsepipe]
    simp only [exec, error_bind]
  have fuel : 4 * (ch '(' :: render cmd).length + 4 = 4 * (render cmd).length + 7 + 1 := by
    simp only [List.length_cons]
    omega
  rw [parsecmd, fuel, parseline]
  simp only [pipe, error_bind]

theorem parsecmd_unclosed_lsWc : lsWc.Valid ∧
    parsecmd (ch '(' :: render lsWc) = .error (.panic "syntax - missing )") :=
  have valid : lsWc.Valid := by decide +kernel
  ⟨valid, parsecmd_unclosed valid⟩

/-- A `)` that closes nothing: parseline stops before it, and parsecmd panics with "syntax" at
the leftovers. -/
theorem parsecmd_leftover {cmd : Command} (valid : cmd.Valid) :
    parsecmd (render cmd ++ [ch ')']) = .error (.panic "syntax") := by
  obtain ⟨c, parsed, -⟩ := @readsBack (render cmd ++ [ch ')']) cmd valid [ch ')']
    (.inr ⟨[], rfl⟩) (List.suffix_refl _) (4 * (render cmd ++ [ch ')']).length + 4)
    (by simp only [List.length_append, List.length_singleton]; omega)
  rw [parsecmd, parsed]
  rfl

theorem parsecmd_leftover_lsWc : lsWc.Valid ∧
    parsecmd (render lsWc ++ [ch ')']) = .error (.panic "syntax") :=
  have valid : lsWc.Valid := by decide +kernel
  ⟨valid, parsecmd_leftover valid⟩

/-- parseexec's loop panics at the word that would be the `MAXARGS`-th. -/
theorem parseargs_too_many (es : Nat) : ∀ (ws : List (List UInt8)) (argc fuel : Nat),
    (∀ w ∈ ws, Word w) → argc < MAXARGS → MAXARGS ≤ argc + ws.length → MAXARGS - argc ≤ fuel →
    parseargs es argc fuel (spaced ws) = .error (.panic "too many args")
  | [], argc, _, _, few, many, _ => absurd many (by simp; omega)
  | w :: ws, argc, fuel, words, few, many, enough => by
    have word := words w List.mem_cons_self
    have others : ∀ w' ∈ ws, Word w' := fun w' mem => words w' (List.mem_cons_of_mem w mem)
    obtain ⟨f, rfl⟩ : ∃ f, fuel = f + 1 := ⟨fuel - 1, by omega⟩
    have shape : spaced (w :: ws) = ch ' ' :: (w ++ spaced ws) := by
      simpa using spaced_cons w ws []
    have noStop : startsWith [ch '|', ch ')', ch '&', ch ';'] (w ++ spaced ws) = false :=
      startsWith_word word (by simp [symbols]) _
    have stop := stop_spaced (.inl rfl) ws
    rw [List.append_nil] at stop
    rw [shape, parseargs]
    simp only [peek_eq, skipWhite_space, skipWhite_word word, noStop, gettoken_word word stop,
      Bool.false_eq_true, if_false, if_neg (show ¬ch 'a' = 0 by decide), ne_eq, not_true_eq_false]
    by_cases full : argc + 1 ≥ MAXARGS
    · rw [if_pos full]
    · obtain ⟨g, rfl⟩ : ∃ g, f = g + 1 := ⟨f - 1, by omega⟩
      have noRedir : startsWith [ch '<', ch '>'] (skipWhite (spaced ws ++ [])) = false :=
        startsWith_spaced (.inl rfl) (by simp [symbols]) (by decide) others
      rw [List.append_nil] at noRedir
      rw [if_neg full]
      simp only [parseredirs_skipWhite, parseredirs_none es noRedir, ok_bind, parseargs_skipWhite,
        parseargs_too_many es ws (argc + 1) (g + 1) others (by omega) (by simp at many; omega)
          (by omega), error_bind]

/-- An exec of `MAXARGS` words or more: parsecmd panics with "too many args", before any word
past the ninth is stored. -/
theorem parsecmd_too_many {ws : List (List UInt8)} (words : ∀ w ∈ ws, Word w)
    (many : MAXARGS ≤ ws.length) : parsecmd (spaced ws) = .error (.panic "too many args") := by
  have long := length_le_spaced ws
  have noOpen : startsWith [ch '('] (skipWhite (spaced ws ++ [])) = false :=
    startsWith_spaced (.inl rfl) (by simp [symbols]) (by decide) words
  have noRedir : startsWith [ch '<', ch '>'] (skipWhite (spaced ws ++ [])) = false :=
    startsWith_spaced (.inl rfl) (by simp [symbols]) (by decide) words
  rw [List.append_nil] at noOpen noRedir
  obtain ⟨f, fuel⟩ : ∃ f, 4 * (spaced ws).length + 4 = f + 4 := ⟨4 * (spaced ws).length, rfl⟩
  have exec : parseexec (spaced ws).length (f + 2) (spaced ws) =
      .error (.panic "too many args") := by
    rw [parseexec]
    simp only [peek_eq, noOpen, Bool.false_eq_true, if_false, parseredirs_skipWhite,
      parseredirs_none _ noRedir, ok_bind, parseargs_skipWhite,
      parseargs_too_many _ ws 0 (f + 1) words (by decide) (by omega) (by unfold MAXARGS at *; omega),
      error_bind]
  rw [parsecmd, fuel, parseline, parsepipe]
  simp only [exec, error_bind]

theorem parsecmd_too_many_ten : (∀ w ∈ List.replicate 10 [ch 'a'], Word w) ∧
    MAXARGS ≤ (List.replicate 10 [ch 'a']).length ∧
    parsecmd (spaced (List.replicate 10 [ch 'a'])) = .error (.panic "too many args") :=
  have words : ∀ w ∈ List.replicate 10 [ch 'a'], Word w := by decide +kernel
  have many : MAXARGS ≤ (List.replicate 10 [ch 'a']).length := by decide
  ⟨words, many, parsecmd_too_many words many⟩

/-- sh has no append mode: `>>` is read as the same redirection as `>`, writing on descriptor 1
with `O_WRONLY|O_CREATE`. -/
theorem parsecmd_append {cmd : Command} {file : List UInt8} (valid : cmd.Valid) (word : Word file) :
    ∃ c : Cmd, parsecmd (paren (render cmd) ++ ch '>' :: ch '>' :: file) =
      .ok (c, nulterminate (paren (render cmd) ++ ch '>' :: ch '>' :: file) c) ∧
      c.view (paren (render cmd) ++ ch '>' :: ch '>' :: file) =
        .redir cmd file (O_WRONLY ||| O_CREATE) 1 := by
  have shape : paren (render cmd) ++ ch '>' :: ch '>' :: file =
      paren (render cmd) ++ ([ch '>', ch '>'] ++ (file ++ [])) := by
    simp
  have size : (paren (render cmd) ++ ch '>' :: ch '>' :: file).length =
      (render cmd).length + 4 + file.length := by
    simp [paren]
    omega
  obtain ⟨c, parsed, view⟩ := @parseline_redir (paren (render cmd) ++ ch '>' :: ch '>' :: file)
    cmd [ch '>', ch '>'] file _ _ (readsBack cmd valid) word (.inr ⟨.inr rfl, rfl, rfl⟩) []
    (.inl rfl) (by rw [← shape]) (4 * (paren (render cmd) ++ ch '>' :: ch '>' :: file).length + 4)
    (by rw [size]; omega)
  rw [← shape] at parsed
  refine ⟨c, ?_, view⟩
  rw [parsecmd, parsed]
  rfl

theorem parsecmd_append_lsWc : lsWc.Valid ∧ Word [ch 'o'] ∧ ∃ c : Cmd,
    parsecmd (paren (render lsWc) ++ ch '>' :: ch '>' :: [ch 'o']) =
      .ok (c, nulterminate (paren (render lsWc) ++ ch '>' :: ch '>' :: [ch 'o']) c) ∧
      c.view (paren (render lsWc) ++ ch '>' :: ch '>' :: [ch 'o']) =
        .redir lsWc [ch 'o'] (O_WRONLY ||| O_CREATE) 1 :=
  have valid : lsWc.Valid := by decide +kernel
  have word : Word [ch 'o'] := by decide +kernel
  ⟨valid, word, parsecmd_append valid word⟩

end Xv6.User
