import Xv6.User.Sh
import Xv6.Lib.Except

/-!
# What the shell's parser reads

gettoken and peek look at the line past its whitespace; a token that is not the end of the line
takes at least one byte, and a word token is a run of bytes the word loop goes over, up to one it
stops at. Over these, the parser as a whole: from a part of the line, every parse function either
panics or returns the rest of the line after what it read and a tree whose words and file names
are words of the line (`Sane`), and with the fuel parsecmd gives it, it never runs out. After
nulterminate, every word and file name of the tree is a C string of its own.
-/

namespace Xv6.User

open Xv6.Except

/-- A byte gettoken's word loop goes over: neither whitespace nor a symbol. -/
def wordy (c : UInt8) : Bool := !isIn whitespace c && !isIn symbols c

/-- peek's test, on the line past its whitespace. -/
def startsWith (toks : List UInt8) : List UInt8 → Bool
  | [] => false
  | c :: _ => c != 0 && isIn toks c

/-- The line holds a word from offset `q` up to `eq`: bytes the word loop goes over, then the end
of the line or a byte it stops at. -/
def WordAt (line : List UInt8) (q eq : Nat) : Prop :=
  q < eq ∧ eq ≤ line.length ∧ (∀ i, q ≤ i → i < eq → wordy (line.getD i 0) = true) ∧
    (eq < line.length → wordy (line.getD eq 0) = false)

section Tokens

@[simp] theorem peek_eq (ps toks : List UInt8) :
    peek ps toks = (startsWith toks (skipWhite ps), skipWhite ps) := by
  unfold peek
  cases skipWhite ps <;> rfl

theorem isIn_iff {toks : List UInt8} (c : UInt8) (noNul : 0 ∉ toks) :
    isIn toks c = true ↔ c ∈ toks := by
  rw [isIn, Option.isSome_iff_ne_none, ← Option.isSome_iff_ne_none]
  exact strchr_isSome_iff c noNul

theorem skipWhite_suffix : ∀ s : List UInt8, skipWhite s <:+ s
  | [] => List.suffix_refl _
  | c :: s => by
    by_cases white : isIn whitespace c
    · rw [skipWhite, if_pos white]
      exact (skipWhite_suffix s).trans (List.suffix_cons c s)
    · rw [skipWhite, if_neg white]

@[simp] theorem skipWhite_skipWhite : ∀ s : List UInt8, skipWhite (skipWhite s) = skipWhite s
  | [] => rfl
  | c :: s => by
    by_cases white : isIn whitespace c
    · rw [skipWhite, if_pos white, skipWhite_skipWhite s]
    · rw [skipWhite, if_neg white, skipWhite, if_neg white]

/-- What skipWhite leaves starts with a byte that is not whitespace. -/
theorem skipWhite_head {s t : List UInt8} {c : UInt8} (skipped : skipWhite s = c :: t) :
    isIn whitespace c = false := by
  induction s with
  | nil => cases skipped
  | cons d s ih =>
    by_cases white : isIn whitespace d
    · rw [skipWhite, if_pos white] at skipped
      exact ih skipped
    · rw [skipWhite, if_neg white] at skipped
      obtain ⟨rfl, -⟩ := List.cons.inj skipped
      simpa using white

theorem wordEnd_cons (c : UInt8) (s : List UInt8) :
    wordEnd (c :: s) = if wordy c then wordEnd s else c :: s := rfl

theorem wordEnd_suffix : ∀ s : List UInt8, wordEnd s <:+ s
  | [] => List.suffix_refl _
  | c :: s => by
    by_cases inWord : wordy c
    · rw [wordEnd_cons, if_pos inWord]
      exact (wordEnd_suffix s).trans (List.suffix_cons c s)
    · rw [wordEnd_cons, if_neg inWord]

/-- The word loop splits the line into a run of bytes it goes over and the byte it stops at. -/
theorem wordEnd_split : ∀ s : List UInt8, ∃ w, s = w ++ wordEnd s ∧
    (∀ c ∈ w, wordy c = true) ∧ ∀ c ∈ (wordEnd s).head?, wordy c = false
  | [] => ⟨[], rfl, by simp, by simp [wordEnd]⟩
  | c :: s => by
    by_cases inWord : wordy c
    · obtain ⟨w, split, all, stop⟩ := wordEnd_split s
      have next : wordEnd (c :: s) = wordEnd s := by rw [wordEnd_cons, if_pos inWord]
      refine ⟨c :: w, ?_, ?_, ?_⟩
      · rw [next, List.cons_append, ← split]
      · simpa [inWord] using all
      · rwa [next]
    · have next : wordEnd (c :: s) = c :: s := by rw [wordEnd_cons, if_neg inWord]
      refine ⟨[], ?_, by simp, ?_⟩
      · rw [next, List.nil_append]
      · simpa [next] using inWord

/-- A byte that none of scan's symbol cases takes is not a symbol. -/
theorem isIn_symbols_of_ne {c : UInt8}
    (other : ¬(c = ch '|' ∨ c = ch '(' ∨ c = ch ')' ∨ c = ch ';' ∨ c = ch '&' ∨ c = ch '<'))
    (notGreater : c ≠ ch '>') : isIn symbols c = false := by
  rw [Bool.eq_false_iff, ne_eq, isIn_iff c (by decide)]
  simp only [symbols, List.mem_cons, List.not_mem_nil, or_false]
  tauto

theorem scanGreater_suffix : ∀ s : List UInt8, (scanGreater s).2 <:+ s
  | [] => List.suffix_refl _
  | d :: s => by
    by_cases twice : d = ch '>'
    · rw [scanGreater, if_pos twice]
      exact List.suffix_cons d s
    · rw [scanGreater, if_neg twice]

/-- After a '>' the token is '>' or '+', never the end of the line nor a word. -/
theorem scanGreater_kind : ∀ s : List UInt8,
    (scanGreater s).1 = ch '>' ∨ (scanGreater s).1 = ch '+'
  | [] => .inl rfl
  | d :: s => by
    by_cases twice : d = ch '>'
    · rw [scanGreater, if_pos twice]
      exact .inr rfl
    · rw [scanGreater, if_neg twice]
      exact .inl rfl

/-- The word case of scan, at a byte past the whitespace that is not a symbol. -/
theorem scan_of_wordy {c : UInt8} {t : List UInt8} (inWord : wordy c = true) (nonzero : c ≠ 0) :
    scan (c :: t) = (ch 'a', wordEnd t) := by
  have symbol : ¬(c = ch '|' ∨ c = ch '(' ∨ c = ch ')' ∨ c = ch ';' ∨ c = ch '&' ∨ c = ch '<') := by
    rintro (rfl | rfl | rfl | rfl | rfl | rfl) <;> simp [wordy] at inWord <;> exact absurd inWord (by decide)
  have greater : c ≠ ch '>' := by
    rintro rfl
    exact absurd inWord (by decide)
  rw [scan, if_neg nonzero, if_neg symbol, if_neg greater, wordEnd_cons, if_pos inWord]

/-- A byte past the whitespace that is neither a symbol case of scan nor '>' is a word byte. -/
theorem wordy_of_ne {c : UInt8} (notWhite : isIn whitespace c = false)
    (symbol : ¬(c = ch '|' ∨ c = ch '(' ∨ c = ch ')' ∨ c = ch ';' ∨ c = ch '&' ∨ c = ch '<'))
    (greater : c ≠ ch '>') : wordy c = true := by
  simp [wordy, notWhite, isIn_symbols_of_ne symbol greater]

/-- scan on a line past its whitespace that is not at its end takes at least its first byte. -/
theorem scan_suffix {c : UInt8} {t : List UInt8} (nonzero : c ≠ 0)
    (notWhite : isIn whitespace c = false) : (scan (c :: t)).2 <:+ t := by
  rw [scan, if_neg nonzero]
  by_cases symbol : c = ch '|' ∨ c = ch '(' ∨ c = ch ')' ∨ c = ch ';' ∨ c = ch '&' ∨ c = ch '<'
  · rw [if_pos symbol]
  rw [if_neg symbol]
  by_cases greater : c = ch '>'
  · rw [if_pos greater]
    exact scanGreater_suffix t
  · rw [if_neg greater, wordEnd_cons, if_pos (wordy_of_ne notWhite symbol greater)]
    exact wordEnd_suffix t

/-- scan gives 0 only at the end of the line or at a NUL. -/
theorem scan_kind_ne_zero {c : UInt8} {t : List UInt8} (nonzero : c ≠ 0) :
    (scan (c :: t)).1 ≠ 0 := by
  rw [scan, if_neg nonzero]
  by_cases symbol : c = ch '|' ∨ c = ch '(' ∨ c = ch ')' ∨ c = ch ';' ∨ c = ch '&' ∨ c = ch '<'
  · rw [if_pos symbol]
    exact nonzero
  rw [if_neg symbol]
  by_cases greater : c = ch '>'
  · rw [if_pos greater]
    rcases scanGreater_kind t with kind | kind <;> rw [kind] <;> decide
  · rw [if_neg greater]
    exact (by decide : ch 'a' ≠ 0)

/-- A word token: scan went over a run of word bytes, up to a byte it stops at. -/
theorem scan_word {c : UInt8} {t : List UInt8} (notWhite : isIn whitespace c = false)
    (word : (scan (c :: t)).1 = ch 'a') : ∃ w, c :: t = w ++ (scan (c :: t)).2 ∧ w ≠ [] ∧
      (∀ b ∈ w, wordy b = true) ∧ ∀ b ∈ (scan (c :: t)).2.head?, wordy b = false := by
  have nonzero : c ≠ 0 := by
    rintro rfl
    rw [scan, if_pos rfl] at word
    simp only at word
    exact absurd word (by decide)
  rw [scan, if_neg nonzero] at word ⊢
  by_cases symbol : c = ch '|' ∨ c = ch '(' ∨ c = ch ')' ∨ c = ch ';' ∨ c = ch '&' ∨ c = ch '<'
  · rw [if_pos symbol] at word
    simp only at word
    rcases symbol with rfl | rfl | rfl | rfl | rfl | rfl <;> exact absurd word (by decide)
  rw [if_neg symbol] at word ⊢
  by_cases greater : c = ch '>'
  · rw [if_pos greater] at word
    rcases scanGreater_kind t with kind | kind <;> rw [kind] at word <;> exact absurd word (by decide)
  rw [if_neg greater]
  have inWord := wordy_of_ne notWhite symbol greater
  have next : wordEnd (c :: t) = wordEnd t := by rw [wordEnd_cons, if_pos inWord]
  obtain ⟨w, split, all, stop⟩ := wordEnd_split t
  refine ⟨c :: w, ?_, List.cons_ne_nil c w, ?_, ?_⟩
  · rw [next, List.cons_append, ← split]
  · simpa [inWord] using all
  · simpa [next] using stop

@[simp] theorem gettoken_start (ps : List UInt8) : (gettoken ps).start = skipWhite ps := rfl

@[simp] theorem gettoken_rest (ps : List UInt8) :
    (gettoken ps).rest = skipWhite (gettoken ps).stop := rfl

@[simp] theorem gettoken_skipWhite (ps : List UInt8) : gettoken (skipWhite ps) = gettoken ps := by
  simp only [gettoken, skipWhite_skipWhite]

theorem gettoken_stop_suffix (ps : List UInt8) : (gettoken ps).stop <:+ ps := by
  show (scan (skipWhite ps)).2 <:+ ps
  cases skipped : skipWhite ps with
  | nil => exact List.nil_suffix
  | cons c t =>
    have tail : t <:+ ps := (List.suffix_cons c t).trans (skipped ▸ skipWhite_suffix ps)
    by_cases nonzero : c = 0
    · rw [scan, if_pos nonzero, ← skipped]
      exact skipWhite_suffix ps
    · exact (scan_suffix nonzero (skipWhite_head skipped)).trans tail

theorem gettoken_rest_suffix (ps : List UInt8) : (gettoken ps).rest <:+ ps :=
  (skipWhite_suffix _).trans (gettoken_stop_suffix ps)

/-- A token that is not the end of the line takes at least one byte. -/
theorem gettoken_rest_lt {ps : List UInt8} (token : (gettoken ps).kind ≠ 0) :
    (gettoken ps).rest.length < ps.length := by
  change (scan (skipWhite ps)).1 ≠ 0 at token
  have within := (skipWhite_suffix ps).length_le
  cases skipped : skipWhite ps with
  | nil => simp [skipped, scan] at token
  | cons c t =>
    have nonzero : c ≠ 0 := by
      rintro rfl
      simp [skipped, scan] at token
    have stop : (gettoken ps).stop <:+ t := by
      show (scan (skipWhite ps)).2 <:+ t
      rw [skipped]
      exact scan_suffix nonzero (skipWhite_head skipped)
    have shorter := ((skipWhite_suffix _).trans stop).length_le
    rw [skipped, List.length_cons] at within
    rw [gettoken_rest]
    omega

/-- peek's test holds only of a line that goes on with a byte that is not NUL. -/
theorem kind_ne_zero_of_startsWith {ps toks : List UInt8}
    (starts : startsWith toks (skipWhite ps) = true) : (gettoken ps).kind ≠ 0 := by
  change (scan (skipWhite ps)).1 ≠ 0
  cases skipped : skipWhite ps with
  | nil => simp [skipped, startsWith] at starts
  | cons c t =>
    rw [skipped] at starts
    have nonzero : c ≠ 0 := by
      simp only [startsWith, Bool.and_eq_true, bne_iff_ne] at starts
      exact starts.1
    exact scan_kind_ne_zero nonzero

theorem rest_lt_of_startsWith {ps toks : List UInt8}
    (starts : startsWith toks (skipWhite ps) = true) : (gettoken ps).rest.length < ps.length :=
  gettoken_rest_lt (kind_ne_zero_of_startsWith starts)

/-- A run of word bytes followed by a byte the word loop stops at, or by the end of the line,
is a word of the line. -/
theorem wordAt_append {pre w e : List UInt8} (nonempty : w ≠ []) (all : ∀ b ∈ w, wordy b = true)
    (stop : ∀ b ∈ e.head?, wordy b = false) :
    WordAt (pre ++ w ++ e) pre.length (pre.length + w.length) := by
  have wide : 0 < w.length := List.length_pos_iff.mpr nonempty
  rw [List.append_assoc]
  refine ⟨by omega, by simp, ?_, ?_⟩
  · intro i low high
    rw [List.getD_append_right _ _ _ _ low, List.getD_append _ _ _ _ (by omega),
      List.getD_eq_getElem _ _ (by omega)]
    exact all _ (List.getElem_mem _)
  · intro inside
    rw [List.getD_append_right _ _ _ _ (by omega), Nat.add_sub_cancel_left,
      List.getD_append_right _ _ _ _ (Nat.le_refl _), Nat.sub_self]
    cases e with
    | nil => simp at inside
    | cons b u => exact stop b rfl

/-- A word token of a part of the line is a word of the line, at the offsets gettoken gives. -/
theorem wordAt_token {line ps : List UInt8} (within : ps <:+ line)
    (word : (gettoken ps).kind = ch 'a') :
    WordAt line (pos line.length (gettoken ps).start) (pos line.length (gettoken ps).stop) := by
  change (scan (skipWhite ps)).1 = ch 'a' at word
  cases skipped : skipWhite ps with
  | nil =>
    rw [skipped, scan] at word
    exact absurd word (by decide)
  | cons c t =>
    rw [skipped] at word
    obtain ⟨w, split, nonempty, all, stop⟩ := scan_word (skipWhite_head skipped) word
    have stop_eq : (gettoken ps).stop = (scan (c :: t)).2 := by
      show (scan (skipWhite ps)).2 = _
      rw [skipped]
    generalize (scan (c :: t)).2 = e at split stop stop_eq
    obtain ⟨pre, line_eq⟩ := (skipWhite_suffix ps).trans within
    rw [skipped, split, ← List.append_assoc] at line_eq
    rw [gettoken_start, skipped, stop_eq, ← line_eq, split]
    have offsets : pos (pre ++ w ++ e).length (w ++ e) = pre.length ∧
        pos (pre ++ w ++ e).length e = pre.length + w.length := by
      simp only [pos, List.length_append]
      omega
    rw [offsets.1, offsets.2]
    exact wordAt_append nonempty all stop

end Tokens

/-! ## The parse functions -/

/-- A redirection's file name, from `file` up to `efile`. -/
def Redir.span (r : Redir) : Nat × Nat := (r.file, r.efile)

/-- The words and the file names of a tree, in the order nulterminate ends them. -/
def Cmd.spans : Cmd → List (Nat × Nat)
  | .exec argv => argv
  | .redir cmd file efile _ _ => cmd.spans ++ [(file, efile)]
  | .pipe left right => left.spans ++ right.spans
  | .list left right => left.spans ++ right.spans
  | .back cmd => cmd.spans

theorem spans_wrap : ∀ (cmd : Cmd) (rs : List Redir),
    (wrap cmd rs).spans = cmd.spans ++ rs.map Redir.span
  | _, [] => by simp [wrap]
  | cmd, r :: rs => by simp [wrap, spans_wrap _ rs, Cmd.spans, Redir.span]

/-- What a parse function returns from the part `ps` of `line` when it does not run out: a
panic, or the line past what it read and words and file names that are words of `line`. -/
def Sane {α : Type} (line ps : List UInt8) (spans : α → List (Nat × Nat)) :
    Except Fault (α × List UInt8) → Prop
  | .error e => ∃ msg, e = .panic msg
  | .ok (a, rest) => rest <:+ ps ∧ ∀ r ∈ spans a, WordAt line r.1 r.2

section Sane

variable {line : List UInt8}

theorem sane_mono {α : Type} {ps ps' : List UInt8} {spans : α → List (Nat × Nat)}
    {result : Except Fault (α × List UInt8)} (suffix : ps' <:+ ps) (sane : Sane line ps' spans result) :
    Sane line ps spans result := by
  cases result with
  | error e => exact sane
  | ok p => exact ⟨sane.1.trans suffix, sane.2⟩

/-- A parse that goes on from what an earlier one returned, which read from a part `ps₀` of `ps`,
is sane when the earlier one is and the rest is sane from every result the earlier one can give. -/
theorem sane_bind {α β : Type} {ps₀ ps : List UInt8} {spans : α → List (Nat × Nat)}
    {spans' : β → List (Nat × Nat)} {first : Except Fault (α × List UInt8)}
    {next : α × List UInt8 → Except Fault (β × List UInt8)} (sane : Sane line ps₀ spans first)
    (rest : ∀ a ps', ps' <:+ ps₀ → (∀ r ∈ spans a, WordAt line r.1 r.2) →
      Sane line ps spans' (next (a, ps'))) :
    Sane line ps spans' (first >>= next) := by
  cases first with
  | error e => exact sane
  | ok p => exact rest p.1 p.2 sane.1 sane.2

/-- Every redirection parseredirs makes of a file name is one of that name. -/
theorem span_redirOf {es : Nat} {tok : UInt8} {file : Token} :
    ∀ r ∈ redirOf es tok file, r.span = (pos es file.start, pos es file.stop) := by
  intro r mem
  unfold redirOf at mem
  split_ifs at mem <;> simp_all [Redir.span]

theorem parseredirs_sane : ∀ (fuel : Nat) (ps : List UInt8), ps <:+ line → ps.length < fuel →
    Sane line ps (List.map Redir.span) (parseredirs line.length fuel ps)
  | 0, _, _, short => absurd short (Nat.not_lt_zero _)
  | fuel + 1, ps, within, short => by
    simp only [parseredirs, peek_eq, gettoken_skipWhite]
    by_cases more : startsWith [ch '<', ch '>'] (skipWhite ps)
    swap
    · rw [if_pos (by simp [more])]
      exact ⟨skipWhite_suffix ps, by simp⟩
    rw [if_neg (by simp [more])]
    by_cases word : (gettoken (gettoken ps).rest).kind = ch 'a'
    swap
    · rw [if_pos word]
      exact ⟨_, rfl⟩
    rw [if_neg (not_not.mpr word)]
    have tokWithin := (gettoken_rest_suffix ps).trans within
    have fileSuffix := (gettoken_rest_suffix _).trans (gettoken_rest_suffix ps)
    have shorter : (gettoken (gettoken ps).rest).rest.length < fuel := by
      have := (gettoken_rest_suffix (gettoken ps).rest).length_le
      have := rest_lt_of_startsWith more
      omega
    have named := wordAt_token tokWithin word
    refine sane_bind (parseredirs_sane fuel _ (fileSuffix.trans within) shorter) ?_
    intro rs rest suffix words
    refine ⟨suffix.trans fileSuffix, ?_⟩
    intro r mem
    rw [List.map_append, List.mem_append] at mem
    rcases mem with here | later
    · obtain ⟨redir, made, rfl⟩ := List.mem_map.mp here
      rw [span_redirOf redir made]
      exact named
    · exact words r later

theorem parseargs_sane : ∀ (argc fuel : Nat) (ps : List UInt8), ps <:+ line → ps.length < fuel →
    Sane line ps (fun a => a.1 ++ a.2.map Redir.span) (parseargs line.length argc fuel ps)
  | _, 0, _, _, short => absurd short (Nat.not_lt_zero _)
  | argc, fuel + 1, ps, within, short => by
    simp only [parseargs, peek_eq, gettoken_skipWhite]
    by_cases stop : startsWith [ch '|', ch ')', ch '&', ch ';'] (skipWhite ps)
    · rw [if_pos stop]
      exact ⟨skipWhite_suffix ps, by simp⟩
    rw [if_neg stop]
    by_cases atEnd : (gettoken ps).kind = 0
    · rw [if_pos atEnd]
      exact ⟨gettoken_rest_suffix ps, by simp⟩
    rw [if_neg atEnd]
    by_cases word : (gettoken ps).kind = ch 'a'
    swap
    · rw [if_pos word]
      exact ⟨_, rfl⟩
    rw [if_neg (not_not.mpr word)]
    by_cases full : argc + 1 ≥ MAXARGS
    · rw [if_pos full]
      exact ⟨_, rfl⟩
    rw [if_neg full]
    have shorter : (gettoken ps).rest.length < fuel := by
      have := gettoken_rest_lt atEnd
      omega
    have tokWithin := (gettoken_rest_suffix ps).trans within
    refine sane_bind (parseredirs_sane fuel _ tokWithin shorter) ?_
    intro rs rest suffix named
    refine sane_bind (parseargs_sane (argc + 1) fuel rest (suffix.trans tokWithin)
      (Nat.lt_of_le_of_lt suffix.length_le shorter)) ?_
    intro args rest' suffix' named'
    refine ⟨suffix'.trans (suffix.trans (gettoken_rest_suffix ps)), ?_⟩
    intro r mem
    simp only [List.cons_append, List.mem_cons, List.mem_append, List.map_append] at mem
    rcases mem with rfl | inWords | inRedirs | inRedirs'
    · exact wordAt_token within word
    · exact named' r (List.mem_append_left _ inWords)
    · exact named r inRedirs
    · exact named' r (List.mem_append_right _ inRedirs')

theorem parsebacks_sane : ∀ (cmd : Cmd) (fuel : Nat) (ps : List UInt8), ps <:+ line →
    ps.length < fuel → (∀ r ∈ cmd.spans, WordAt line r.1 r.2) →
    Sane line ps Cmd.spans (parsebacks cmd fuel ps)
  | _, 0, _, _, short, _ => absurd short (Nat.not_lt_zero _)
  | cmd, fuel + 1, ps, within, short, named => by
    simp only [parsebacks, peek_eq, gettoken_skipWhite]
    by_cases more : startsWith [ch '&'] (skipWhite ps)
    · rw [if_pos more]
      have shorter := rest_lt_of_startsWith more
      exact sane_mono (gettoken_rest_suffix ps) (parsebacks_sane (.back cmd) fuel _
        ((gettoken_rest_suffix ps).trans within) (by omega) named)
    · rw [if_neg more]
      exact ⟨skipWhite_suffix ps, named⟩

/-- The four mutual parse functions with `fuel` are sane from `ps` when the fuel is more than
four rounds for each byte of it: a call goes one round down to the next function, and the
recursive ones come back to parseline only past a byte they read. -/
def SaneAt (line : List UInt8) (fuel : Nat) (ps : List UInt8) : Prop :=
  (4 * ps.length + 3 < fuel → Sane line ps Cmd.spans (parseline line.length fuel ps)) ∧
  (4 * ps.length + 2 < fuel → Sane line ps Cmd.spans (parsepipe line.length fuel ps)) ∧
  (4 * ps.length + 1 < fuel → Sane line ps Cmd.spans (parseexec line.length fuel ps)) ∧
  (4 * ps.length < fuel → Sane line ps Cmd.spans (parseblock line.length fuel ps))

section Step

variable {fuel : Nat} (ih : ∀ ps, ps <:+ line → SaneAt line fuel ps) {ps : List UInt8}
  (within : ps <:+ line)
include ih within

theorem parseline_sane_succ (short : 4 * ps.length + 3 < fuel + 1) :
    Sane line ps Cmd.spans (parseline line.length (fuel + 1) ps) := by
  simp only [parseline, peek_eq, gettoken_skipWhite]
  refine sane_bind ((ih ps within).2.1 (by omega)) ?_
  intro cmd rest suffix named
  refine sane_bind (parsebacks_sane cmd fuel rest (suffix.trans within)
    (by have := suffix.length_le; omega) named) ?_
  intro cmd' rest' suffix' named'
  have restSuffix := suffix'.trans suffix
  by_cases more : startsWith [ch ';'] (skipWhite rest')
  · rw [if_pos more]
    have rightSuffix := (gettoken_rest_suffix rest').trans restSuffix
    have shorter := rest_lt_of_startsWith more
    have := restSuffix.length_le
    refine sane_bind ((ih _ (rightSuffix.trans within)).1 (by omega)) ?_
    intro right rest'' suffix'' named''
    refine ⟨suffix''.trans rightSuffix, ?_⟩
    intro r mem
    rw [Cmd.spans, List.mem_append] at mem
    exact mem.elim (named' r) (named'' r)
  · rw [if_neg more]
    exact ⟨(skipWhite_suffix rest').trans restSuffix, named'⟩

theorem parsepipe_sane_succ (short : 4 * ps.length + 2 < fuel + 1) :
    Sane line ps Cmd.spans (parsepipe line.length (fuel + 1) ps) := by
  simp only [parsepipe, peek_eq, gettoken_skipWhite]
  refine sane_bind ((ih ps within).2.2.1 (by omega)) ?_
  intro cmd rest suffix named
  by_cases more : startsWith [ch '|'] (skipWhite rest)
  · rw [if_pos more]
    have rightSuffix := (gettoken_rest_suffix rest).trans suffix
    have shorter := rest_lt_of_startsWith more
    have := suffix.length_le
    refine sane_bind ((ih _ (rightSuffix.trans within)).2.1 (by omega)) ?_
    intro right rest' suffix' named'
    refine ⟨suffix'.trans rightSuffix, ?_⟩
    intro r mem
    rw [Cmd.spans, List.mem_append] at mem
    exact mem.elim (named r) (named' r)
  · rw [if_neg more]
    exact ⟨(skipWhite_suffix rest).trans suffix, named⟩

theorem parseblock_sane_succ (short : 4 * ps.length < fuel + 1) :
    Sane line ps Cmd.spans (parseblock line.length (fuel + 1) ps) := by
  simp only [parseblock, peek_eq, gettoken_skipWhite]
  by_cases isOpen : startsWith [ch '('] (skipWhite ps)
  swap
  · rw [if_pos (by simp [isOpen])]
    exact ⟨_, rfl⟩
  rw [if_neg (by simp [isOpen])]
  have innerSuffix := gettoken_rest_suffix ps
  have shorter := rest_lt_of_startsWith isOpen
  refine sane_bind ((ih _ (innerSuffix.trans within)).1 (by omega)) ?_
  intro cmd rest suffix named
  dsimp only
  have restSuffix := suffix.trans innerSuffix
  by_cases isClose : startsWith [ch ')'] (skipWhite rest)
  swap
  · rw [if_pos (by simp [isClose])]
    exact ⟨_, rfl⟩
  rw [if_neg (by simp [isClose])]
  have redirSuffix := (gettoken_rest_suffix rest).trans restSuffix
  have := redirSuffix.length_le
  refine sane_bind (parseredirs_sane fuel _ (redirSuffix.trans within) (by omega)) ?_
  intro rs rest' suffix' named'
  refine ⟨suffix'.trans redirSuffix, ?_⟩
  intro r mem
  rw [spans_wrap, List.mem_append] at mem
  exact mem.elim (named r) (named' r)

theorem parseexec_sane_succ (short : 4 * ps.length + 1 < fuel + 1) :
    Sane line ps Cmd.spans (parseexec line.length (fuel + 1) ps) := by
  simp only [parseexec, peek_eq]
  by_cases isOpen : startsWith [ch '('] (skipWhite ps)
  · rw [if_pos isOpen]
    exact sane_mono (skipWhite_suffix ps) ((ih _ ((skipWhite_suffix ps).trans within)).2.2.2
      (by have := (skipWhite_suffix ps).length_le; omega))
  rw [if_neg isOpen]
  have skipped := skipWhite_suffix ps
  refine sane_bind (parseredirs_sane fuel _ (skipped.trans within)
    (by have := skipped.length_le; omega)) ?_
  intro rs rest suffix named
  have restSuffix := suffix.trans skipped
  refine sane_bind (parseargs_sane 0 fuel rest (restSuffix.trans within)
    (by have := restSuffix.length_le; omega)) ?_
  intro args rest' suffix' named'
  refine ⟨suffix'.trans restSuffix, ?_⟩
  intro r mem
  rw [spans_wrap, List.map_append, Cmd.spans, List.mem_append, List.mem_append] at mem
  rcases mem with inWords | inRedirs | inRedirs'
  · exact named' r (List.mem_append_left _ inWords)
  · exact named r inRedirs
  · exact named' r (List.mem_append_right _ inRedirs')

end Step

/-- The mutual parse functions are sane with the fuel `SaneAt` asks for, by induction on it:
each function at `fuel + 1` calls the others at `fuel`. -/
theorem saneAt : ∀ (fuel : Nat) (ps : List UInt8), ps <:+ line → SaneAt line fuel ps
  | 0, _, _ => ⟨fun short => absurd short (Nat.not_lt_zero _),
      fun short => absurd short (Nat.not_lt_zero _), fun short => absurd short (Nat.not_lt_zero _),
      fun short => absurd short (Nat.not_lt_zero _)⟩
  | fuel + 1, _, within =>
    have ih := saneAt fuel
    ⟨parseline_sane_succ ih within, parsepipe_sane_succ ih within,
      parseexec_sane_succ ih within, parseblock_sane_succ ih within⟩

end Sane

/-! ## nulterminate -/

/-- The C string at offset `p` of a line: its bytes from there up to the first NUL or the end. -/
def cstr (line : List UInt8) (p : Nat) : List UInt8 := (line.drop p).takeWhile (· != 0)

/-- The bytes of the line from offset `q` up to `eq`. -/
def slice (line : List UInt8) (q eq : Nat) : List UInt8 := (line.drop q).take (eq - q)

section Nulterminate

/-- nulterminate puts a NUL at the end of each word and file name of the tree, in order. -/
theorem nulterminate_eq : ∀ (cmd : Cmd) (line : List UInt8),
    nulterminate line cmd = (cmd.spans.map Prod.snd).foldl putNul line
  | .exec argv, line => by simp [nulterminate, Cmd.spans, List.foldl_map]
  | .redir cmd _ efile _ _, line => by
    simp [nulterminate, Cmd.spans, nulterminate_eq cmd, List.foldl_append]
  | .pipe left right, line => by
    simp [nulterminate, Cmd.spans, nulterminate_eq left, nulterminate_eq right, List.foldl_append]
  | .list left right, line => by
    simp [nulterminate, Cmd.spans, nulterminate_eq left, nulterminate_eq right, List.foldl_append]
  | .back cmd, line => by simp [nulterminate, Cmd.spans, nulterminate_eq cmd]

theorem getD_putNul (line : List UInt8) (p i : Nat) :
    (putNul line p).getD i 0 = if p = i then 0 else line.getD i 0 := by
  rw [putNul, List.getD_eq_getElem?_getD, List.getElem?_set, List.getD_eq_getElem?_getD]
  by_cases same : p = i
  · subst same
    by_cases inside : p < line.length <;> simp [inside]
  · simp [same]

theorem getD_foldl_putNul : ∀ (ends : List Nat) (line : List UInt8) (i : Nat),
    (ends.foldl putNul line).getD i 0 = if i ∈ ends then 0 else line.getD i 0
  | [], _, _ => by simp
  | p :: ends, line, i => by
    rw [List.foldl_cons, getD_foldl_putNul ends, getD_putNul]
    by_cases later : i ∈ ends
    · simp [later]
    · by_cases same : p = i <;> simp [later, same, eq_comm]

/-- A NUL put outside a slice leaves the slice as it was. -/
theorem slice_putNul {line : List UInt8} {p q eq : Nat} (outside : p < q ∨ eq ≤ p) :
    slice (putNul line p) q eq = slice line q eq := by
  rw [slice, slice, putNul]
  by_cases before : p < q
  · rw [List.drop_set_of_lt before]
  · rw [List.drop_set, if_neg before, List.take_set_of_le (by omega)]

theorem slice_foldl_putNul {q eq : Nat} : ∀ {ends : List Nat} {line : List UInt8},
    (∀ p ∈ ends, p < q ∨ eq ≤ p) → slice (ends.foldl putNul line) q eq = slice line q eq
  | [], _, _ => rfl
  | p :: ends, line, outside => by
    rw [List.foldl_cons, slice_foldl_putNul fun p' mem => outside p' (List.mem_cons_of_mem p mem),
      slice_putNul (outside p List.mem_cons_self)]

/-- A C string runs up to the first NUL: when there is none before offset `n` and there is one
at `n`, or the list ends there, it is the first `n` bytes. -/
theorem takeWhile_ne_zero : ∀ (l : List UInt8) (n : Nat), (∀ i < n, l.getD i 0 ≠ 0) →
    l.getD n 0 = 0 → l.takeWhile (· != 0) = l.take n
  | [], _, _, _ => by simp
  | a :: l, 0, _, stop => by
    have zero : a = 0 := by simpa using stop
    simp [zero]
  | a :: l, n + 1, inside, stop => by
    have nonzero : a ≠ 0 := by simpa using inside 0 (Nat.succ_pos n)
    rw [List.takeWhile_cons_of_pos (by simpa using nonzero), List.take_succ_cons,
      takeWhile_ne_zero l n (fun i lt => by simpa using inside (i + 1) (by omega)) (by simpa using stop)]

theorem getD_drop (l : List UInt8) (q i : Nat) : (l.drop q).getD i 0 = l.getD (q + i) 0 := by
  rw [List.getD_eq_getElem?_getD, List.getElem?_drop, ← List.getD_eq_getElem?_getD]

/-- The C string at `q` is the slice up to `eq` when no NUL stands in it and one stands at
`eq`. -/
theorem cstr_eq_slice {line : List UInt8} {q eq : Nat} (ordered : q ≤ eq)
    (inside : ∀ i, q ≤ i → i < eq → line.getD i 0 ≠ 0) (stop : line.getD eq 0 = 0) :
    cstr line q = slice line q eq := by
  rw [cstr, slice]
  apply takeWhile_ne_zero
  · intro i lt
    rw [getD_drop]
    exact inside (q + i) (by omega) (by omega)
  · rw [getD_drop, Nat.add_sub_cancel' ordered]
    exact stop

/-- After nulterminate, the C string at the start of each word and file name of a tree is that
word, when the line holds no NUL and each of them is a word of the line: the NULs go at the ends
of words, and the end of a word is never inside another. -/
theorem cstr_nulterminate {line : List UInt8} {cmd : Cmd} (noNul : 0 ∉ line)
    (words : ∀ r ∈ cmd.spans, WordAt line r.1 r.2) :
    ∀ r ∈ cmd.spans, cstr (nulterminate line cmd) r.1 = slice line r.1 r.2 := by
  intro r mem
  obtain ⟨lt, le, inWord, _⟩ := words r mem
  have outside : ∀ p ∈ cmd.spans.map Prod.snd, p < r.1 ∨ r.2 ≤ p := by
    intro p ended
    obtain ⟨r', mem', rfl⟩ := List.mem_map.mp ended
    obtain ⟨-, -, -, stops⟩ := words r' mem'
    by_contra within
    have low : r.1 ≤ r'.2 := by omega
    have high : r'.2 < r.2 := by omega
    have := stops (by omega)
    rw [inWord r'.2 low high] at this
    exact Bool.noConfusion this
  rw [nulterminate_eq, ← slice_foldl_putNul outside]
  apply cstr_eq_slice (Nat.le_of_lt lt)
  · intro i low high
    rw [getD_foldl_putNul, if_neg (fun ended => by have := outside i ended; omega),
      List.getD_eq_getElem _ _ (by omega)]
    exact fun zero => noNul (zero ▸ List.getElem_mem _)
  · rw [getD_foldl_putNul, if_pos (List.mem_map_of_mem mem)]

end Nulterminate

/-- parsecmd never runs out of the fuel it gives the parser: it returns a tree or one of sh's
panics. A tree's words and file names are words of the line, and after nulterminate each of
them is the C string that starts where it does, as exec and open are given them. -/
theorem parsecmd_words {line : List UInt8} (noNul : 0 ∉ line) :
    parsecmd line ≠ .error .fuel ∧ ∀ cmd line', parsecmd line = .ok (cmd, line') →
      ∀ r ∈ cmd.spans, WordAt line r.1 r.2 ∧ cstr line' r.1 = slice line r.1 r.2 := by
  have sane := (@saneAt line (4 * line.length + 4) line (List.suffix_refl line)).1
    (by omega)
  cases parsed : parseline line.length (4 * line.length + 4) line with
  | error e =>
    rw [parsed] at sane
    obtain ⟨msg, rfl⟩ := sane
    have failed : parsecmd line = .error (.panic msg) := by
      rw [parsecmd, parsed]
      rfl
    rw [failed]
    exact ⟨by simp, by simp⟩
  | ok p =>
    obtain ⟨cmd, ps⟩ := p
    rw [parsed] at sane
    have returned : parsecmd line = if skipWhite ps ≠ [] then .error (.panic "syntax")
        else .ok (cmd, nulterminate line cmd) := by
      rw [parsecmd, parsed]
      rfl
    rw [returned]
    by_cases leftover : skipWhite ps ≠ []
    · rw [if_pos leftover]
      exact ⟨by simp, by simp⟩
    · rw [if_neg leftover]
      refine ⟨by simp, ?_⟩
      intro cmd' line' same
      obtain ⟨rfl, rfl⟩ := Prod.mk.inj (Except.ok.inj same)
      exact fun r mem => ⟨sane.2 r mem, cstr_nulterminate noNul sane.2 r mem⟩

theorem parsecmd_words_ls : (0 : UInt8) ∉ [ch 'l', ch 's'] ∧
    (parsecmd [ch 'l', ch 's'] ≠ .error .fuel ∧ ∀ cmd line', parsecmd [ch 'l', ch 's'] = .ok (cmd, line') →
      ∀ r ∈ cmd.spans, WordAt [ch 'l', ch 's'] r.1 r.2 ∧
        cstr line' r.1 = slice [ch 'l', ch 's'] r.1 r.2) :=
  have noNul : (0 : UInt8) ∉ [ch 'l', ch 's'] := by decide
  ⟨noNul, parsecmd_words noNul⟩

/-! ## argv fits -/

/-- Every exec of a tree has fewer than `MAXARGS` words, so that its argv, with the 0 parseexec
writes after the last word, fits in `argv[MAXARGS]`. -/
def Cmd.Fits : Cmd → Prop
  | .exec argv => argv.length < MAXARGS
  | .redir cmd _ _ _ _ => cmd.Fits
  | .pipe left right => left.Fits ∧ right.Fits
  | .list left right => left.Fits ∧ right.Fits
  | .back cmd => cmd.Fits

/-- The mutual parse functions with `fuel` return only trees whose argvs fit. -/
def FitsAt (es fuel : Nat) : Prop := ∀ (ps : List UInt8) (c : Cmd) (rest : List UInt8),
  (parseline es fuel ps = .ok (c, rest) → c.Fits) ∧ (parsepipe es fuel ps = .ok (c, rest) → c.Fits) ∧
  (parseexec es fuel ps = .ok (c, rest) → c.Fits) ∧ (parseblock es fuel ps = .ok (c, rest) → c.Fits)

section Fits

variable (es : Nat)

theorem fits_wrap : ∀ (cmd : Cmd) (rs : List Redir), (wrap cmd rs).Fits ↔ cmd.Fits
  | _, [] => Iff.rfl
  | cmd, r :: rs => fits_wrap (.redir cmd r.file r.efile r.mode r.fd) rs

/-- parseexec's loop panics before the word that would make `MAXARGS` of them. -/
theorem parseargs_fits : ∀ (argc fuel : Nat) (ps : List UInt8) {ws : List (Nat × Nat)}
    {rs : List Redir} {rest : List UInt8}, argc < MAXARGS →
    parseargs es argc fuel ps = .ok ((ws, rs), rest) → argc + ws.length < MAXARGS
  | _, 0, _, _, _, _, _, returned => by cases returned
  | argc, fuel + 1, ps, ws, rs, rest, few, returned => by
    simp only [parseargs, peek_eq, gettoken_skipWhite] at returned
    by_cases stop : startsWith [ch '|', ch ')', ch '&', ch ';'] (skipWhite ps)
    · rw [if_pos stop] at returned
      cases returned
      simpa using few
    rw [if_neg stop] at returned
    by_cases atEnd : (gettoken ps).kind = 0
    · rw [if_pos atEnd] at returned
      cases returned
      simpa using few
    rw [if_neg atEnd] at returned
    by_cases word : (gettoken ps).kind = ch 'a'
    swap
    · rw [if_pos word] at returned
      cases returned
    rw [if_neg (not_not.mpr word)] at returned
    by_cases full : argc + 1 ≥ MAXARGS
    · rw [if_pos full] at returned
      cases returned
    rw [if_neg full] at returned
    obtain ⟨⟨rs₀, ps₀⟩, -, returned⟩ := bind_eq_ok returned
    dsimp only at returned
    obtain ⟨⟨⟨ws', rs'⟩, ps'⟩, loop, returned⟩ := bind_eq_ok returned
    cases returned
    have later := parseargs_fits (argc + 1) fuel ps₀ (by omega) loop
    simp only [List.length_cons]
    omega

theorem parsebacks_fits : ∀ (cmd : Cmd) (fuel : Nat) (ps : List UInt8) {c : Cmd}
    {rest : List UInt8}, cmd.Fits → parsebacks cmd fuel ps = .ok (c, rest) → c.Fits
  | _, 0, _, _, _, _, returned => by cases returned
  | cmd, fuel + 1, ps, c, rest, fits, returned => by
    simp only [parsebacks, peek_eq] at returned
    by_cases more : startsWith [ch '&'] (skipWhite ps)
    · rw [if_pos more] at returned
      exact parsebacks_fits (.back cmd) fuel _ fits returned
    · rw [if_neg more] at returned
      cases returned
      exact fits

section Step

variable {es} {fuel : Nat} (ih : FitsAt es fuel) {ps : List UInt8} {c : Cmd} {rest : List UInt8}
include ih

theorem parseline_fits_succ (returned : parseline es (fuel + 1) ps = .ok (c, rest)) : c.Fits := by
  rw [parseline] at returned
  obtain ⟨⟨cmd, ps₁⟩, pipe, returned⟩ := bind_eq_ok returned
  dsimp only at returned
  obtain ⟨⟨cmd', ps₂⟩, backs, returned⟩ := bind_eq_ok returned
  have fits := parsebacks_fits cmd fuel ps₁ ((ih ps cmd ps₁).2.1 pipe) backs
  simp only [peek_eq] at returned
  by_cases more : startsWith [ch ';'] (skipWhite ps₂)
  · rw [if_pos more] at returned
    obtain ⟨⟨right, ps₃⟩, inner, returned⟩ := bind_eq_ok returned
    cases returned
    exact ⟨fits, (ih _ right ps₃).1 inner⟩
  · rw [if_neg more] at returned
    cases returned
    exact fits

theorem parsepipe_fits_succ (returned : parsepipe es (fuel + 1) ps = .ok (c, rest)) : c.Fits := by
  rw [parsepipe] at returned
  obtain ⟨⟨cmd, ps₁⟩, exec, returned⟩ := bind_eq_ok returned
  have fits := (ih ps cmd ps₁).2.2.1 exec
  simp only [peek_eq] at returned
  by_cases more : startsWith [ch '|'] (skipWhite ps₁)
  · rw [if_pos more] at returned
    obtain ⟨⟨right, ps₂⟩, inner, returned⟩ := bind_eq_ok returned
    cases returned
    exact ⟨fits, (ih _ right ps₂).2.1 inner⟩
  · rw [if_neg more] at returned
    cases returned
    exact fits

theorem parseblock_fits_succ (returned : parseblock es (fuel + 1) ps = .ok (c, rest)) : c.Fits := by
  simp only [parseblock, peek_eq] at returned
  by_cases isOpen : startsWith [ch '('] (skipWhite ps)
  swap
  · rw [if_pos (by simp [isOpen])] at returned
    cases returned
  rw [if_neg (by simp [isOpen])] at returned
  obtain ⟨⟨cmd, ps₁⟩, inner, returned⟩ := bind_eq_ok returned
  dsimp only at returned
  by_cases isClose : startsWith [ch ')'] (skipWhite ps₁)
  swap
  · rw [if_pos (by simp [isClose])] at returned
    cases returned
  rw [if_neg (by simp [isClose])] at returned
  obtain ⟨⟨rs, ps₂⟩, -, returned⟩ := bind_eq_ok returned
  cases returned
  exact (fits_wrap cmd rs).mpr ((ih _ cmd ps₁).1 inner)

theorem parseexec_fits_succ (returned : parseexec es (fuel + 1) ps = .ok (c, rest)) : c.Fits := by
  simp only [parseexec, peek_eq] at returned
  by_cases isOpen : startsWith [ch '('] (skipWhite ps)
  · rw [if_pos isOpen] at returned
    exact (ih _ c rest).2.2.2 returned
  rw [if_neg isOpen] at returned
  obtain ⟨⟨rs, ps₁⟩, -, returned⟩ := bind_eq_ok returned
  dsimp only at returned
  obtain ⟨⟨⟨ws, rs'⟩, ps₂⟩, args, returned⟩ := bind_eq_ok returned
  cases returned
  have few := parseargs_fits es 0 fuel ps₁ (by decide) args
  rw [Nat.zero_add] at few
  exact (fits_wrap _ _).mpr few

end Step

theorem fitsAt : ∀ fuel, FitsAt es fuel
  | 0 => fun _ _ _ => ⟨nofun, nofun, nofun, nofun⟩
  | fuel + 1 => fun _ _ _ =>
    have ih := fitsAt fuel
    ⟨parseline_fits_succ ih, parsepipe_fits_succ ih, parseexec_fits_succ ih,
      parseblock_fits_succ ih⟩

end Fits

/-- Every exec of a tree parsecmd returns has fewer than `MAXARGS` words, whatever the line:
parseexec's `argv[argc] = 0` after the last word stays inside `argv[MAXARGS]`. -/
theorem parsecmd_fits {line line' : List UInt8} {cmd : Cmd}
    (parsed : parsecmd line = .ok (cmd, line')) : cmd.Fits := by
  rw [parsecmd] at parsed
  obtain ⟨⟨cmd₀, ps⟩, top, parsed⟩ := bind_eq_ok parsed
  simp only [peek_eq] at parsed
  by_cases leftover : skipWhite ps ≠ []
  · rw [if_pos leftover] at parsed
    cases parsed
  · rw [if_neg leftover] at parsed
    cases parsed
    exact (fitsAt line.length _ line _ ps).1 top

theorem parsecmd_fits_ls : parsecmd [ch 'l', ch 's'] = .ok (.exec [(0, 2)], [ch 'l', ch 's']) ∧
    (Cmd.exec [(0, 2)]).Fits :=
  have parsed : parsecmd [ch 'l', ch 's'] = .ok (.exec [(0, 2)], [ch 'l', ch 's']) := by
    decide +kernel
  ⟨parsed, parsecmd_fits parsed⟩

end Xv6.User
