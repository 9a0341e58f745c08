import Xv6.User.Grep

/-!
# What grep's matcher accepts, and what grep prints

The matcher against a reference semantics stated without it: a pattern is read left to right
into elements, `c*` (any number of characters `c` stands for) or one character (`'.'` stands
for any, anything else for itself), and a final `'$'` that ties the match to the end of the
text. `match` accepts a text exactly when the pattern matches from some start of it, or from
its start only after a leading `'^'`.

grep prints the matching lines when every read ends at the end of a line. A read that ends
inside a line and finds no newline in the buffer is thrown away with `m = 0`, which the source
means for a full buffer only: the start of that line is lost, so what grep prints depends on
how the reads split the stream.
-/

namespace Xv6.User

/-! ## The reference semantics -/

/-- An element of a pattern: one character, or a character under `'*'`. -/
inductive Elem
  | one (c : UInt8)
  | star (c : UInt8)
  deriving DecidableEq, Repr

/-- A pattern read left to right into its elements, and whether a final `'$'` ties it to the
end of the text. -/
def parse : List UInt8 → List Elem × Bool
  | [] => ([], false)
  | c :: 42 :: re => (.star c :: (parse re).1, (parse re).2)
  | [36] => ([], true)
  | c :: re => (.one c :: (parse re).1, (parse re).2)

/-- The pattern character `c` stands for the byte `x`. -/
def Stands (c x : UInt8) : Prop := c = DOT ∨ c = x

/-- The texts a list of elements matches, as a whole. -/
inductive Matches : List Elem → List UInt8 → Prop
  | nil : Matches [] []
  | one {c x : UInt8} {es : List Elem} {u : List UInt8} :
      Stands c x → Matches es u → Matches (.one c :: es) (x :: u)
  | none {c : UInt8} {es : List Elem} {u : List UInt8} : Matches es u → Matches (.star c :: es) u
  | more {c x : UInt8} {es : List Elem} {u : List UInt8} :
      Stands c x → Matches (.star c :: es) u → Matches (.star c :: es) (x :: u)

/-- The pattern matches at the start of the text: its elements match a prefix, the whole text
when the pattern ends with `'$'`. -/
def MatchesHere (re text : List UInt8) : Prop :=
  ∃ u v, text = u ++ v ∧ Matches (parse re).1 u ∧ ((parse re).2 = true → v = [])

/-- What match is meant to decide, on the C strings: the pattern matches from some start of the
text, the empty rest included, or from the start only after a leading `'^'`. -/
def Accepts (re text : List UInt8) : Prop :=
  if re.headD 0 = 94 then MatchesHere re.tail text
  else ∃ i ≤ text.length, MatchesHere re (text.drop i)

/-! ## Elements -/

section Elements

variable {c x : UInt8} {es : List Elem} {u : List UInt8}

theorem matches_nil_iff : Matches [] u ↔ u = [] :=
  ⟨fun matched => by cases matched; rfl, fun empty => empty ▸ .nil⟩

theorem matches_one_iff :
    Matches (.one c :: es) u ↔ ∃ x rest, u = x :: rest ∧ Stands c x ∧ Matches es rest := by
  constructor
  · intro matched
    cases matched with
    | one stands rest => exact ⟨_, _, rfl, stands, rest⟩
  · rintro ⟨x, rest, rfl, stands, matched⟩
    exact .one stands matched

/-- `c*` matches nothing more, or one more character it stands for. -/
theorem matches_star_iff :
    Matches (.star c :: es) u ↔
      Matches es u ∨ ∃ x rest, u = x :: rest ∧ Stands c x ∧ Matches (.star c :: es) rest := by
  constructor
  · intro matched
    cases matched with
    | none rest => exact .inl rest
    | more stands rest => exact .inr ⟨_, _, rfl, stands, rest⟩
  · rintro (rest | ⟨x, rest, rfl, stands, matched⟩)
    · exact .none rest
    · exact .more stands matched

end Elements

/-! ## The pattern's first element -/

section Parse

variable {c : UInt8} {re : List UInt8}

theorem parse_star (c : UInt8) (re : List UInt8) :
    parse (c :: 42 :: re) = (.star c :: (parse re).1, (parse re).2) := by
  rw [parse]

/-- A first character with no `'*'` after it, and that is not a final `'$'`, is one
character. -/
theorem parse_one (notStar : ∀ rest, re ≠ 42 :: rest) (notEnd : ¬(c = 36 ∧ re = [])) :
    parse (c :: re) = (.one c :: (parse re).1, (parse re).2) := by
  rw [parse]
  · exact fun rest same => notStar rest same
  · exact fun dollar empty => notEnd ⟨dollar, empty⟩

theorem matchhere_one_nil (notStar : ∀ rest, re ≠ 42 :: rest) (notEnd : ¬(c = 36 ∧ re = [])) :
    matchhere (c :: re) [] = false := by
  rw [matchhere]
  · exact fun rest same => notStar rest same
  · exact fun dollar empty => notEnd ⟨dollar, empty⟩

theorem matchhere_one_cons (notStar : ∀ rest, re ≠ 42 :: rest)
    (notEnd : ¬(c = 36 ∧ re = [])) (x : UInt8) (text : List UInt8) :
    matchhere (c :: re) (x :: text) = ((c == DOT || c == x) && matchhere re text) := by
  rw [matchhere]
  · exact fun rest same => notStar rest same
  · exact fun dollar empty => notEnd ⟨dollar, empty⟩

theorem stands_iff (c x : UInt8) : ((c == DOT || c == x) = true) ↔ Stands c x := by
  simp [Stands]

end Parse

/-! ## matchhere and matchstar -/

section Here

theorem exists_cons_eq_iff {α : Type} {x : α} {l : List α} {holds : α → List α → Prop} :
    (∃ y rest, x :: l = y :: rest ∧ holds y rest) ↔ holds x l :=
  ⟨fun ⟨_, _, same, held⟩ => by obtain ⟨rfl, rfl⟩ := List.cons.inj same; exact held,
    fun held => ⟨x, l, rfl, held⟩⟩

theorem matchesHere_nil (text : List UInt8) : MatchesHere [] text :=
  ⟨[], text, rfl, .nil, fun anchored => by cases anchored⟩

theorem matchesHere_end_iff (text : List UInt8) : MatchesHere [36] text ↔ text = [] := by
  constructor
  · rintro ⟨u, v, rfl, matched, atEnd⟩
    rw [show parse [36] = ([], true) by rw [parse], matches_nil_iff] at matched
    rw [matched, atEnd (by rw [parse])]
    rfl
  · rintro rfl
    exact ⟨[], [], rfl, by rw [parse]; exact .nil, fun _ => rfl⟩

/-- `c*re` matches here when `re` does, or when `c` stands for the first character and `c*re`
matches after it. -/
theorem matchesHere_star_iff (c : UInt8) (re text : List UInt8) :
    MatchesHere (c :: 42 :: re) text ↔ MatchesHere re text ∨
      ∃ x rest, text = x :: rest ∧ Stands c x ∧ MatchesHere (c :: 42 :: re) rest := by
  simp only [MatchesHere, parse_star]
  constructor
  · rintro ⟨u, v, rfl, matched, atEnd⟩
    rcases matches_star_iff.mp matched with rest | ⟨x, u, rfl, stands, rest⟩
    · exact .inl ⟨u, v, rfl, rest, atEnd⟩
    · exact .inr ⟨x, u ++ v, rfl, stands, u, v, rfl, rest, atEnd⟩
  · rintro (⟨u, v, rfl, matched, atEnd⟩ | ⟨x, rest, rfl, stands, u, v, rfl, matched, atEnd⟩)
    · exact ⟨u, v, rfl, .none matched, atEnd⟩
    · exact ⟨x :: u, v, rfl, .more stands matched, atEnd⟩

/-- One character matches here when it stands for the first character of the text and the rest
of the pattern matches after it. -/
theorem matchesHere_one_iff {c : UInt8} {re : List UInt8} (notStar : ∀ rest, re ≠ 42 :: rest)
    (notEnd : ¬(c = 36 ∧ re = [])) (text : List UInt8) :
    MatchesHere (c :: re) text ↔
      ∃ x rest, text = x :: rest ∧ Stands c x ∧ MatchesHere re rest := by
  simp only [MatchesHere, parse_one notStar notEnd, matches_one_iff]
  constructor
  · rintro ⟨_, v, rfl, ⟨x, u, rfl, stands, matched⟩, atEnd⟩
    exact ⟨x, u ++ v, rfl, stands, u, v, rfl, matched, atEnd⟩
  · rintro ⟨x, _, rfl, stands, u, v, rfl, matched, atEnd⟩
    exact ⟨x :: u, v, rfl, ⟨x, u, rfl, stands, matched⟩, atEnd⟩

/-- matchstar tries `re` at every start its loop reaches, as `c*re` is meant to. -/
theorem matchstar_iff (c : UInt8) (re : List UInt8)
    (here : ∀ text, matchhere re text = true ↔ MatchesHere re text) :
    ∀ text, matchstar c (matchhere re) text = true ↔ MatchesHere (c :: 42 :: re) text
  | [] => by
    rw [matchstar, here, matchesHere_star_iff]
    simp
  | x :: text => by
    have stands : ((x == c || c == DOT) = true) ↔ Stands c x := by
      simp only [Bool.or_eq_true, beq_iff_eq, Stands]
      exact or_comm.trans (or_congr_right eq_comm)
    rw [matchstar, matchesHere_star_iff, Bool.or_eq_true, here, Bool.and_eq_true,
      matchstar_iff c re here text, stands, exists_cons_eq_iff]

/-- One character: matchhere decides it when it decides the rest of the pattern. -/
theorem matchhere_one_iff {c : UInt8} {re : List UInt8} (notStar : ∀ rest, re ≠ 42 :: rest)
    (notEnd : ¬(c = 36 ∧ re = [])) (rest : ∀ text, matchhere re text = true ↔ MatchesHere re text)
    (text : List UInt8) : matchhere (c :: re) text = true ↔ MatchesHere (c :: re) text := by
  rw [matchesHere_one_iff notStar notEnd]
  cases text with
  | nil => simp [matchhere_one_nil notStar notEnd]
  | cons x text =>
    rw [matchhere_one_cons notStar notEnd, Bool.and_eq_true, stands_iff, rest text,
      exists_cons_eq_iff]

/-- matchhere decides whether the pattern matches at the start of the text. The recursion
follows matchhere's: on the pattern, two characters at a time under a `'*'`. -/
theorem matchhere_iff : ∀ (re text : List UInt8), matchhere re text = true ↔ MatchesHere re text
  | [], text => by
    rw [matchhere]
    exact iff_of_true rfl (matchesHere_nil text)
  | [c], text => by
    by_cases atEnd : c = 36
    · subst atEnd
      rw [matchhere, matchesHere_end_iff, List.isEmpty_iff]
    · exact matchhere_one_iff (fun rest => (List.cons_ne_nil 42 rest).symm)
        (fun both => atEnd both.1)
        (matchhere_iff []) text
  | c :: d :: re, text => by
    by_cases star : d = 42
    · subst star
      rw [matchhere]
      exact matchstar_iff c re (matchhere_iff re) text
    · exact matchhere_one_iff (fun _ same => star (List.cons.inj same).1)
        (fun both => List.cons_ne_nil _ _ both.2) (matchhere_iff (d :: re)) text

/-- match's loop tries every start from here to the end of the text. -/
theorem matchLoop_iff (re : List UInt8) :
    ∀ text, matchLoop re text = true ↔ ∃ i ≤ text.length, MatchesHere re (text.drop i)
  | [] => by simp [matchLoop, matchhere_iff]
  | x :: text => by
    rw [matchLoop, Bool.or_eq_true, matchhere_iff, matchLoop_iff re text]
    constructor
    · rintro (first | ⟨i, inside, later⟩)
      · exact ⟨0, Nat.zero_le _, first⟩
      · exact ⟨i + 1, by simpa using inside, later⟩
    · rintro ⟨_ | i, inside, found⟩
      · exact .inl found
      · exact .inr ⟨i, by simpa using inside, found⟩

end Here

/-- match terminates on every pattern and text, and accepts exactly when the pattern, read up
to its NUL, matches the text, read up to its NUL, from some start of it, or only from its
first byte after a leading `'^'`. -/
theorem match_iff_accepts (re text : List UInt8) :
    «match» re text = true ↔ Accepts (re.takeWhile (· != 0)) (text.takeWhile (· != 0)) := by
  dsimp only [«match», Accepts]
  split_ifs
  · exact matchhere_iff _ _
  · exact matchLoop_iff _ _

/-! ## grep -/

/-- The bytes of whole lines, each followed by its newline. -/
def block (lines : List (List UInt8)) : List UInt8 := lines.flatMap (· ++ [NEWLINE])

/-- The newline-terminated lines of a stream, without their newlines; what follows the last
newline is not a line. -/
def lines (stream : List UInt8) : List (List UInt8) := (stream.splitOn NEWLINE).dropLast

/-- What grep is meant to write: every line of the stream that matches, with its newline, in
stream order. -/
def grepSpec (pattern stream : List UInt8) : List UInt8 :=
  block ((lines stream).filter («match» pattern))

/-- A line as a stream holds it: no newline, and no 0 byte, which strchr would stop at. -/
def Plain (line : List UInt8) : Prop := NEWLINE ∉ line ∧ 0 ∉ line

section Lines

@[simp] theorem block_nil : block [] = [] := rfl

@[simp] theorem block_cons (line : List UInt8) (ls : List (List UInt8)) :
    block (line :: ls) = line ++ NEWLINE :: block ls := by
  simp [block]

theorem block_append (ls ls' : List (List UInt8)) : block (ls ++ ls') = block ls ++ block ls' :=
  List.flatMap_append

theorem block_flatten (groups : List (List (List UInt8))) :
    block groups.flatten = (groups.map block).flatten := by
  induction groups with
  | nil => rfl
  | cons g groups ih => rw [List.flatten_cons, block_append, ih, List.map_cons, List.flatten_cons]

/-- Each line of a block gives at least its newline. -/
theorem length_le_block (ls : List (List UInt8)) : ls.length ≤ (block ls).length := by
  induction ls with
  | nil => exact Nat.le_refl 0
  | cons line ls ih => simp; omega

/-- strchr finds the newline that ends a plain line. -/
theorem strchr_line {line : List UInt8} (plain : Plain line) (rest : List UInt8) :
    strchr (line ++ NEWLINE :: rest) NEWLINE = some line.length := by
  induction line with
  | nil => simp [strchr, NEWLINE]
  | cons x line ih =>
    obtain ⟨noNewline, noNul⟩ := plain
    have other : x ≠ NEWLINE := fun same => noNewline (same ▸ List.mem_cons_self)
    have nonzero : x ≠ 0 := fun zero => noNul (zero ▸ List.mem_cons_self)
    have rest := ih ⟨fun mem => noNewline (List.mem_cons_of_mem x mem),
      fun mem => noNul (List.mem_cons_of_mem x mem)⟩
    simp [strchr, other, nonzero, rest]

theorem strchr_of_not_mem {s : List UInt8} {c : UInt8} (absent : c ∉ s) : strchr s c = none := by
  induction s with
  | nil => rfl
  | cons x s ih =>
    have other : x ≠ c := fun same => absent (same ▸ List.mem_cons_self)
    simp [strchr, other, ih fun mem => absent (List.mem_cons_of_mem x mem)]

/-- On a buffer of whole plain lines, grep's line loop writes the matching ones and moves `p`
past all of them. -/
theorem grepLines_block (pattern : List UInt8) :
    ∀ {ls : List (List UInt8)}, (∀ line ∈ ls, Plain line) → ∀ {fuel}, ls.length < fuel →
      grepLines pattern fuel (block ls) =
        (block (ls.filter («match» pattern)), (block ls).length)
  | [], _, fuel + 1, _ => by simp [grepLines, strchr]
  | line :: ls, plain, fuel + 1, enough => by
    have first := plain line List.mem_cons_self
    have rest : grepLines pattern fuel (block ls) = _ :=
      grepLines_block pattern (fun l mem => plain l (List.mem_cons_of_mem _ mem))
        (by simp at enough; omega)
    have taken : (line ++ NEWLINE :: block ls).take line.length = line := List.take_left' rfl
    have dropped : (line ++ NEWLINE :: block ls).drop (line.length + 1) = block ls := by simp
    rw [block_cons, grepLines, strchr_line first]
    dsimp only
    rw [taken, dropped, rest, List.filter_cons, Prod.mk.injEq]
    constructor
    · split_ifs <;> simp
    · simp
      omega

/-- A buffer without a newline leaves grep's line loop where it started. -/
theorem grepLines_no_newline (pattern : List UInt8) {buf : List UInt8} (absent : NEWLINE ∉ buf)
    (fuel : Nat) : grepLines pattern (fuel + 1) buf = ([], 0) := by
  rw [grepLines, strchr_of_not_mem absent]

/-- The lines of whole plain lines are those lines. -/
theorem lines_block : ∀ {ls : List (List UInt8)}, (∀ line ∈ ls, Plain line) → lines (block ls) = ls
  | [], _ => rfl
  | line :: ls, plain => by
    have first := (plain line List.mem_cons_self).1
    have rest := lines_block fun l mem => plain l (List.mem_cons_of_mem _ mem)
    have apart : ∀ x ∈ line, (x == NEWLINE) = false := fun x mem => by
      simpa using fun same : x = NEWLINE => first (same ▸ mem)
    obtain ⟨piece, pieces, split⟩ : ∃ piece pieces, (block ls).splitOn NEWLINE = piece :: pieces :=
      List.exists_cons_of_ne_nil (List.splitOnP_ne_nil _ _)
    unfold lines at rest ⊢
    rw [block_cons, List.splitOn, List.splitOnP_append_cons_of_forall_mem apart _
      (beq_self_eq_true _), ← List.splitOn, split, List.dropLast_cons_cons, ← split, rest]

end Lines

section Loop

theorem readAmount_chosen {request k : Nat} {stream : List UInt8} (sizes : List Nat)
    (positive : 1 ≤ k) (asked : k ≤ request) (left : k ≤ stream.length) :
    readAmount request stream (k :: sizes) = k := by
  simp only [readAmount, List.headD_cons]
  omega

theorem readAmount_le_length (request : Nat) (stream : List UInt8) (sizes : List Nat) :
    readAmount request stream sizes ≤ stream.length := by
  unfold readAmount
  omega

/-- Each turn of grep's loop that goes on reads at least one byte, so any fuel past the
stream's length gives the same output. -/
theorem grepLoop_fuel (pattern : List UInt8) :
    ∀ {fuel fuel' : Nat} {buf stream : List UInt8} {sizes : List Nat},
      stream.length < fuel → stream.length < fuel' →
      grepLoop pattern fuel buf stream sizes = grepLoop pattern fuel' buf stream sizes
  | fuel + 1, fuel' + 1, buf, stream, sizes, enough, enough' => by
    have bounded := readAmount_le_length (1024 - buf.length - 1) stream sizes
    simp only [grepLoop]
    split_ifs with stopped
    · rfl
    all_goals
      congr 1
      exact grepLoop_fuel pattern (by simp; omega) (by simp; omega)

/-- Reads that each return whole plain lines, into the empty buffer: grep writes the matching
lines and leaves the buffer empty for the next read. -/
theorem grepLoop_whole_reads (pattern : List UInt8) :
    ∀ {groups : List (List (List UInt8))},
      (∀ g ∈ groups, g ≠ [] ∧ (block g).length ≤ 1023 ∧ ∀ line ∈ g, Plain line) →
      ∀ {fuel}, (groups.map block).flatten.length < fuel →
        grepLoop pattern fuel [] (groups.map block).flatten (groups.map fun g => (block g).length) =
          block (groups.flatten.filter («match» pattern))
  | [], _, fuel + 1, _ => by simp [grepLoop, readAmount]
  | g :: groups, whole, fuel + 1, enough => by
    obtain ⟨nonempty, fits, plain⟩ := whole g List.mem_cons_self
    have positive : 1 ≤ (block g).length := by
      have := length_le_block g
      have := List.length_pos_iff.mpr nonempty
      omega
    have read : readAmount (1024 - ([] : List UInt8).length - 1)
        (block g ++ (groups.map block).flatten)
        ((block g).length :: groups.map fun g => (block g).length) = (block g).length :=
      readAmount_chosen _ positive (by simpa using fits) (by simp)
    have lined : grepLines pattern ((block g).length + 1) (block g) =
        (block (g.filter («match» pattern)), (block g).length) :=
      grepLines_block pattern plain (by have := length_le_block g; omega)
    have rest := @grepLoop_whole_reads pattern groups
      (fun g' mem => whole g' (List.mem_cons_of_mem _ mem)) fuel (by simp at enough ⊢; omega)
    rw [List.map_cons, List.map_cons, List.flatten_cons, grepLoop, read, if_neg (by omega)]
    dsimp only
    rw [List.nil_append, List.take_left' rfl, lined]
    dsimp only
    rw [if_neg (by omega), List.drop_length, List.drop_left' rfl, List.tail_cons, rest,
      List.flatten_cons, List.filter_append, block_append]

/-- What grep prints. When each read returns whole plain lines that fit the buffer, it prints the
lines of the stream that match, each with its newline. But a first read that ends inside a line
finds no newline, and the buffer is emptied: grep then prints what it would for the rest of the
stream alone, and the start of that line is lost. -/
theorem grep_depends_on_reads (pattern : List UInt8) :
    (∀ groups : List (List (List UInt8)),
      (∀ g ∈ groups, g ≠ [] ∧ (block g).length ≤ 1023 ∧ ∀ line ∈ g, Plain line) →
      grep pattern (groups.map block).flatten (groups.map fun g => (block g).length) =
        grepSpec pattern (groups.map block).flatten) ∧
    (∀ (start rest : List UInt8) (sizes : List Nat), start ≠ [] → NEWLINE ∉ start →
      start.length ≤ 1023 →
      grep pattern (start ++ rest) (start.length :: sizes) = grep pattern rest sizes) := by
  refine ⟨fun groups whole => ?_, fun start rest sizes nonempty absent fits => ?_⟩
  · have plain : ∀ line ∈ groups.flatten, Plain line := fun line mem => by
      obtain ⟨g, inGroups, inG⟩ := List.mem_flatten.mp mem
      exact (whole g inGroups).2.2 line inG
    rw [grep, grepLoop_whole_reads pattern whole (Nat.lt_succ_self _), grepSpec,
      ← block_flatten, lines_block plain]
  · have positive := List.length_pos_iff.mpr nonempty
    have read : readAmount (1024 - ([] : List UInt8).length - 1) (start ++ rest)
        (start.length :: sizes) = start.length :=
      readAmount_chosen _ positive (by simpa using fits) (by simp)
    rw [grep, List.length_append, grepLoop, read, if_neg (by omega)]
    dsimp only
    rw [List.nil_append, List.take_left' rfl, grepLines_no_newline pattern absent]
    dsimp only
    rw [if_pos rfl, List.nil_append, List.drop_left' rfl, List.tail_cons, grep]
    exact grepLoop_fuel pattern (by omega) (by omega)

/-- Reading "ab\n" one byte first: grep with the pattern "a" prints nothing, where the stream's
one line "ab" matches. -/
theorem grep_loses_line_start :
    grep [97] [97, 98, 10] [1] = [] ∧ grepSpec [97] [97, 98, 10] = [97, 98, 10] :=
  ⟨((grep_depends_on_reads [97]).2 [97] [98, 10] [] (by decide) (by decide) (by decide)).trans
      (by decide),
    by decide⟩

end Loop

end Xv6.User
