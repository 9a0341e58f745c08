import Xv6.User.Wc

/-!
# wc counts the whole stream, however it is read

What wc is meant to print, stated on the whole stream: the newlines, the maximal runs of
bytes outside `" \r\t\n\v"`, and the bytes. The inner loop is a fold over a read's bytes that
carries `inword` from one read to the next, so reading the stream in any chunks folds over
the same bytes, and a word cut by a chunk boundary is counted once. The counters are ints: a
stream of 2³¹ bytes or more makes `c` wrap, so the numbers printed are the counts exactly when
the stream is shorter than that.
-/

namespace Xv6.User

open Xv6.Bytes

/-- A byte wc counts as white space. -/
def blank (b : UInt8) : Bool := b ∈ wcSpace

/-- The maximal runs of bytes that are not white space. -/
def words (stream : List UInt8) : Nat :=
  ((stream.splitOnP blank).filter fun piece => !piece.isEmpty).length

/-- The stream starts inside a word. -/
def startsWord : List UInt8 → Bool
  | [] => false
  | x :: _ => !blank x

section Words

theorem strchr_wcSpace (b : UInt8) : (strchr wcSpace b).isSome = blank b := by
  rw [blank, Bool.eq_iff_iff, strchr_isSome_iff b (by decide), decide_eq_true_iff]

@[simp] theorem words_nil : words [] = 0 := rfl

/-- The first piece of a split is empty exactly when the stream does not start inside a
word. -/
theorem head_splitOnP_isEmpty (stream : List UInt8) :
    ∃ first rest, stream.splitOnP blank = first :: rest ∧ first.isEmpty = !startsWord stream ∧
      words stream = (if startsWord stream then 1 else 0) +
        (rest.filter fun piece => !piece.isEmpty).length := by
  cases stream with
  | nil => exact ⟨[], [], rfl, rfl, rfl⟩
  | cons x stream =>
    by_cases space : blank x = true
    · refine ⟨[], stream.splitOnP blank, ?_, by simp [startsWord, space], ?_⟩
      · rw [List.splitOnP_cons_eq_if_modifyHead, if_pos space]
      · simp [words, List.splitOnP_cons_eq_if_modifyHead, space, startsWord]
    · obtain ⟨first, rest, split⟩ : ∃ first rest, stream.splitOnP blank = first :: rest :=
        List.exists_cons_of_ne_nil (List.splitOnP_ne_nil _ _)
      have word : startsWord (x :: stream) = true := by simpa [startsWord] using space
      refine ⟨x :: first, rest, ?_, by simp [word], ?_⟩
      · rw [List.splitOnP_cons_eq_if_modifyHead, if_neg space, split, List.modifyHead_cons]
      · rw [words, List.splitOnP_cons_eq_if_modifyHead, if_neg space, split,
          List.modifyHead_cons, List.filter_cons, if_pos (by simp), List.length_cons, word,
          if_pos rfl, Nat.add_comm]

/-- A white-space byte in front adds no word. -/
theorem words_cons_blank {x : UInt8} (stream : List UInt8) (space : blank x = true) :
    words (x :: stream) = words stream := by
  simp [words, List.splitOnP_cons_eq_if_modifyHead, space]

/-- A byte of a word in front starts a new word unless the stream already starts inside one. -/
theorem words_cons_word {x : UInt8} (stream : List UInt8) (word : blank x = false) :
    words (x :: stream) = words stream + if startsWord stream then 0 else 1 := by
  obtain ⟨first, rest, split, empty, count⟩ := head_splitOnP_isEmpty stream
  have extended : words (x :: stream) = 1 + (rest.filter fun piece => !piece.isEmpty).length := by
    rw [words, List.splitOnP_cons_eq_if_modifyHead, if_neg (by simp [word]), split,
      List.modifyHead_cons, List.filter_cons, if_pos (by simp), List.length_cons, Nat.add_comm]
  rw [extended, count]
  cases startsWord stream with
  | true => simp
  | false =>
    simp only [Bool.false_eq_true, if_false]
    omega

theorem words_le_length : ∀ stream : List UInt8, words stream ≤ stream.length
  | [] => le_refl _
  | x :: stream => by
    have shorter := words_le_length stream
    cases space : blank x
    · rw [words_cons_word stream space]
      split <;> simp <;> omega
    · rw [words_cons_blank stream space]
      simp
      omega

end Words

section Fold

/-- What the inner loop does to the counters over any bytes, from any state: `c` counts the
bytes, `l` the newlines, and `w` the words, less the one already counted when the state is
inside a word and the bytes go on with it. -/
theorem foldl_wcStep (s : WcState) (bytes : List UInt8) :
    (bytes.foldl wcStep s).l = s.l + UInt32.ofNat (bytes.count 10) ∧
      (bytes.foldl wcStep s).c = s.c + UInt32.ofNat bytes.length ∧
      (bytes.foldl wcStep s).w + (if s.inword && startsWord bytes then 1 else 0) =
        s.w + UInt32.ofNat (words bytes) := by
  induction bytes generalizing s with
  | nil => simp [startsWord]
  | cons x bytes ih =>
    obtain ⟨lines, chars, count⟩ := ih (wcStep s x)
    rw [List.foldl_cons]
    refine ⟨?_, ?_, ?_⟩
    · rw [lines, List.count_cons]
      unfold wcStep
      split_ifs <;> simp <;> grind
    · rw [chars, List.length_cons]
      unfold wcStep
      split_ifs <;> simp <;> grind
    · rw [eq_sub_of_add_eq count]
      unfold wcStep
      rw [strchr_wcSpace]
      cases space : blank x
      · rw [words_cons_word bytes space]
        cases inword : s.inword <;> cases starts : startsWord bytes <;>
          simp [startsWord, space] <;> grind
      · rw [words_cons_blank bytes space]
        simp [startsWord, space]

end Fold

/-- Reads that all return bytes fold the inner loop over the bytes of all of them. -/
theorem wcLoop_bytes (s : WcState) :
    ∀ chunks : List (List UInt8), (∀ data ∈ chunks, data ≠ []) →
      wcLoop s (chunks.map .bytes) = (chunks.flatten.foldl wcStep s, false)
  | [], _ => rfl
  | data :: chunks, nonempty => by
    rw [List.map_cons, wcLoop, if_neg (nonempty data List.mem_cons_self),
      wcLoop_bytes _ chunks fun d mem => nonempty d (List.mem_cons_of_mem _ mem),
      List.flatten_cons, List.foldl_append]

/-- However the stream is split into reads, wc prints its newlines, words and bytes, each as the
int its count wraps to. -/
theorem wc_bytes (chunks : List (List UInt8)) (nonempty : ∀ data ∈ chunks, data ≠ []) :
    wc (chunks.map .bytes) = .ok (toSigned (UInt32.ofNat (chunks.flatten.count 10)),
      toSigned (UInt32.ofNat (words chunks.flatten)),
      toSigned (UInt32.ofNat chunks.flatten.length)) := by
  obtain ⟨lines, chars, count⟩ := foldl_wcStep ⟨0, 0, 0, false⟩ chunks.flatten
  have counted : (chunks.flatten.foldl wcStep ⟨0, 0, 0, false⟩).w =
      UInt32.ofNat (words chunks.flatten) := by
    simpa using count
  simp only [wc, wcLoop_bytes _ chunks nonempty]
  simp [lines, chars, counted]

/-- However the stream is split into reads, wc prints its newlines, words and bytes, each as
the int its count wraps to; below 2³¹ bytes they are the counts themselves. -/
theorem wc_counts (chunks : List (List UInt8)) (nonempty : ∀ data ∈ chunks, data ≠ []) :
    wc (chunks.map .bytes) = .ok (toSigned (UInt32.ofNat (chunks.flatten.count 10)),
      toSigned (UInt32.ofNat (words chunks.flatten)),
      toSigned (UInt32.ofNat chunks.flatten.length)) ∧
    (chunks.flatten.length < 2 ^ 31 → wc (chunks.map .bytes) =
      .ok (chunks.flatten.count 10, words chunks.flatten, chunks.flatten.length)) := by
  refine ⟨wc_bytes chunks nonempty, fun short => ?_⟩
  have wordsShort := words_le_length chunks.flatten
  have linesShort := List.count_le_length (a := 10) (l := chunks.flatten)
  rw [wc_bytes chunks nonempty, toSigned_ofNat (by omega), toSigned_ofNat (by omega),
    toSigned_ofNat short]

/-- "hi t" and then "here\n": one line, two words, nine bytes. -/
theorem wc_counts_two_reads :
    wc ([[104, 105, 32, 116], [104, 101, 114, 101, 10]].map .bytes) = .ok (1, 2, 9) := by
  rw [(wc_counts _ (by decide)).2 (by decide)]
  rfl

/-- Repeating a byte of a word makes one word. -/
theorem words_replicate {x : UInt8} (word : blank x = false) :
    ∀ {n : Nat}, 0 < n → words (List.replicate n x) = 1
  | 1, _ => by rw [List.replicate_one, words_cons_word [] word]; rfl
  | n + 2, _ => by
    have starts : startsWord (List.replicate (n + 1) x) = true := by
      simp [List.replicate_succ, startsWord, word]
    rw [List.replicate_succ, words_cons_word _ word, words_replicate word (Nat.succ_pos n),
      starts, if_pos rfl]

/-- 2³¹ letters in 2²² reads of wc's 512-byte buffer: the byte count wraps, and wc prints
-2147483648 for it. -/
theorem wc_wraps_at_two_pow_31 :
    wc ((List.replicate (2 ^ 22) (List.replicate 512 97)).map .bytes) =
      .ok (0, 1, -2147483648) := by
  have letter : blank 97 = false := by decide
  have nonempty : ∀ data ∈ List.replicate (2 ^ 22) (List.replicate 512 (97 : UInt8)), data ≠ [] := by
    intro data mem
    rw [List.eq_of_mem_replicate mem, Ne, List.replicate_eq_nil_iff]
    decide
  rw [wc_bytes _ nonempty, List.flatten_replicate_replicate, words_replicate letter (by decide),
    List.length_replicate, List.count_replicate]
  rfl

end Xv6.User
