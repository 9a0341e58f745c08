import Mathlib.Data.List.Infix
import Mathlib.Data.List.TakeWhile
import Xv6.Dev.Console
import Xv6.Lib.Run

/-!
# The console's line discipline

What `consoleintr` and `consoleread` mean, over lists. The line discipline keeps the committed
bytes that no read has taken yet and the line being edited; a typed character edits the line or
commits it, and a read takes committed bytes from the front, up to a newline, and treats a `^D`
as the end of the input. Two ghost lists record every byte committed and every byte taken.

The ring of console.c refines it: along every run of the same events, the ring between `r` and
`w` is the committed queue and the ring between `w` and `e` the line being edited, across any
wrap of the counters, and every read returns what the line discipline's read returns. The
relation `Input.Holds` carries this; one lemma per side shows that it survives a character and a
read's loop.
-/

namespace Xv6.Dev

open Xv6.Run Xv6.Ring

/-- The line discipline's state. -/
structure Line where
  /-- Committed bytes that no read has taken yet. -/
  queue : List UInt8
  /-- The line being edited. -/
  pending : List UInt8
  /-- Every byte committed so far, in order. -/
  committed : List UInt8
  /-- Every byte a read has taken, in order. -/
  consumed : List UInt8

namespace Line

/-- A typed character. `^U` deletes the line being edited back to its last newline, backspace
and DEL its last byte; any other non-zero character, with `\r` read as a newline, is added when
the buffer has room, and a newline, a `^D` or a full buffer commits the line. -/
def key (l : Line) (c : UInt8) : Line :=
  if c = C 'P' then l
  else if c = C 'U' then
    { l with pending := (l.pending.reverse.dropWhile (· ≠ byte '\n')).reverse }
  else if c = C 'H' ∨ c = 0x7f then { l with pending := l.pending.dropLast }
  else if c ≠ 0 ∧ l.queue.length + l.pending.length < INPUT_BUF then
    let c := if c = byte '\r' then byte '\n' else c
    let pending := l.pending ++ [c]
    if c = byte '\n' ∨ c = C 'D' ∨ l.queue.length + pending.length = INPUT_BUF then
      { l with queue := l.queue ++ pending, pending := [], committed := l.committed ++ pending }
    else { l with pending := pending }
  else l

/-- A read takes the first committed byte `c`. -/
def take (l : Line) (c : UInt8) (rest : List UInt8) : Line :=
  { l with queue := rest, consumed := l.consumed ++ [c] }

/-- A read that wants `n` more of its `target` bytes and holds `copied`: it takes committed
bytes up to a newline; a `^D` ends it, and stays for the next read if bytes came before it. -/
def read (l : Line) (killed : Bool) (target : Nat) :
    Nat → List UInt8 → Line × List UInt8 × Outcome
  | 0, copied => (l, copied, .returns target)
  | n + 1, copied =>
    match l.queue with
    | [] => if killed then (l, copied, .returns (-1)) else (l, copied, .sleeps)
    | c :: rest =>
      if c = C 'D' then
        (if n + 1 < target then l else l.take c rest, copied,
          .returns ((target - (n + 1) : Nat) : Int))
      else if c = byte '\n' then
        (l.take c rest, copied ++ [c], .returns ((target - n : Nat) : Int))
      else (l.take c rest).read killed target n (copied ++ [c])

end Line

/-- The line discipline and the processes that read it. -/
structure LineSys (ι : Type) where
  line : Line
  pc : ι → ReadPc
  killed : ι → Bool
  returned : ι → Option (Int × List UInt8)

variable {ι : Type} [DecidableEq ι]

/-- Process `i` reads, for `target` bytes with `copied` already taken. -/
def lineRead (a : LineSys ι) (i : ι) (target : Nat) (copied : List UInt8) : LineSys ι :=
  let (line, copied, outcome) :=
    a.line.read (a.killed i) target (target - copied.length) copied
  match outcome with
  | .sleeps => { a with line := line, pc := Function.update a.pc i (.reading target copied) }
  | .returns value =>
    { a with line := line, pc := Function.update a.pc i .idle,
             returned := Function.update a.returned i (some (value, copied)) }

/-- The line discipline's step, on the events of the console. -/
def lineStep (a : LineSys ι) : ConsoleEvent ι → LineSys ι
  | .intr cs => { a with line := cs.foldl Line.key a.line }
  | .read i n => if a.pc i = .idle then lineRead a i n [] else a
  | .resume i =>
    match a.pc i with
    | .reading target copied => lineRead a i target copied
    | .idle => a
  | .kill i => { a with killed := Function.update a.killed i true }

/-- Nothing typed, nothing read. -/
def lineBoot : LineSys ι :=
  { line := ⟨[], [], [], []⟩, pc := fun _ => .idle, killed := fun _ => false,
    returned := fun _ => none }

/-! ## The line discipline's invariants -/

namespace Line

/-- The line being edited holds no line end, and what was taken and what is queued are what
was committed. -/
structure Inv (l : Line) : Prop where
  unbroken : ∀ b ∈ l.pending, b ≠ byte '\n' ∧ b ≠ C 'D'
  exact : l.consumed ++ l.queue = l.committed

theorem inv_key {l : Line} (inv : l.Inv) (c : UInt8) : (l.key c).Inv := by
  unfold key
  by_cases hP : c = C 'P'
  · rw [if_pos hP]
    exact inv
  rw [if_neg hP]
  by_cases hU : c = C 'U'
  · rw [if_pos hU]
    refine ⟨fun b mem => inv.unbroken b ?_, inv.exact⟩
    exact List.mem_reverse.mp ((List.dropWhile_sublist _).subset (List.mem_reverse.mp mem))
  rw [if_neg hU]
  by_cases hH : c = C 'H' ∨ c = 0x7f
  · rw [if_pos hH]
    exact ⟨fun b mem => inv.unbroken b (List.mem_of_mem_dropLast mem), inv.exact⟩
  rw [if_neg hH]
  by_cases room : c ≠ 0 ∧ l.queue.length + l.pending.length < INPUT_BUF
  · rw [if_pos room]
    dsimp only
    generalize (if c = byte '\r' then byte '\n' else c) = d
    split_ifs with ends
    · refine ⟨by simp, ?_⟩
      simp only [← inv.exact, List.append_assoc]
    · refine ⟨fun b mem => ?_, inv.exact⟩
      rcases List.mem_append.mp mem with old | new
      · exact inv.unbroken b old
      · rw [List.mem_singleton.mp new]
        exact ⟨fun h => ends (.inl h), fun h => ends (.inr (.inl h))⟩
  · rw [if_neg room]
    exact inv

theorem inv_take {l : Line} {c : UInt8} {rest : List UInt8} (inv : l.Inv)
    (front : l.queue = c :: rest) : (l.take c rest).Inv :=
  ⟨inv.unbroken, by simp only [take, List.append_assoc, List.singleton_append, ← front, inv.exact]⟩

/-- What a read's loop keeps and hands back, for a call of `target` bytes: a sleeping read still
wants bytes and holds no line end; a read that returns gives back its byte count or -1, with at
most one newline, at the end, and no `^D`. -/
def ReadResult (target : Nat) (r : Line × List UInt8 × Outcome) : Prop :=
  r.1.Inv ∧
    (r.2.2 = .sleeps → r.2.1.length < target ∧ byte '\n' ∉ r.2.1 ∧ C 'D' ∉ r.2.1) ∧
    (∀ v, r.2.2 = .returns v →
      byte '\n' ∉ r.2.1.dropLast ∧ C 'D' ∉ r.2.1 ∧ (v = -1 ∨ v = r.2.1.length))

/-- A read that returns at once with what it has. -/
theorem readResult_returns {l : Line} (inv : l.Inv) {target : Nat} {copied : List UInt8}
    {v : Int} (clean : byte '\n' ∉ copied ∧ C 'D' ∉ copied) (value : v = -1 ∨ v = copied.length) :
    ReadResult target (l, copied, .returns v) := by
  refine ⟨inv, by simp, fun v' same => ?_⟩
  simp only [Outcome.returns.injEq] at same
  subst same
  exact ⟨fun mem => clean.1 (List.mem_of_mem_dropLast mem), clean.2, value⟩

theorem read_spec {l : Line} (inv : l.Inv) (killed : Bool) (target : Nat) (n : Nat)
    (copied : List UInt8) (count : n + copied.length = target)
    (clean : byte '\n' ∉ copied ∧ C 'D' ∉ copied) :
    ReadResult target (l.read killed target n copied) := by
  induction n generalizing l copied with
  | zero => exact readResult_returns inv clean (.inr (by omega))
  | succ n ih =>
    cases front : l.queue with
    | nil =>
      simp only [read, front]
      split_ifs
      · exact readResult_returns inv clean (.inl rfl)
      · exact ⟨inv, fun _ => ⟨show copied.length < target by omega, clean⟩, by simp⟩
    | cons c rest =>
      simp only [read, front]
      by_cases eof : c = C 'D'
      · rw [if_pos eof]
        have kept : (if n + 1 < target then l else l.take c rest).Inv := by
          split_ifs
          exacts [inv, inv_take inv front]
        exact readResult_returns kept clean (.inr (by omega))
      rw [if_neg eof]
      by_cases newline : c = byte '\n'
      · rw [if_pos newline]
        refine ⟨inv_take inv front, by simp, fun v same => ?_⟩
        simp only [Outcome.returns.injEq] at same
        subst same
        refine ⟨by simpa using clean.1, by simp [clean.2, Ne.symm eof], .inr ?_⟩
        simp only [List.length_append, List.length_singleton]
        omega
      · rw [if_neg newline]
        exact ih (inv_take inv front) (copied ++ [c]) (by simp; omega)
          ⟨by simp [clean.1, Ne.symm newline], by simp [clean.2, Ne.symm eof]⟩

/-- A run of typed characters keeps the invariant. -/
theorem inv_keys {l : Line} (inv : l.Inv) (cs : List UInt8) : (cs.foldl key l).Inv := by
  induction cs generalizing l with
  | nil => exact inv
  | cons c cs ih => exact ih (inv_key inv c)

end Line

/-- What the line discipline's reads keep. -/
structure ReadsInv (a : LineSys ι) : Prop where
  line : a.line.Inv
  reading : ∀ i target copied, a.pc i = .reading target copied →
    copied.length < target ∧ byte '\n' ∉ copied ∧ C 'D' ∉ copied
  returned : ∀ i v bytes, a.returned i = some (v, bytes) →
    byte '\n' ∉ bytes.dropLast ∧ C 'D' ∉ bytes ∧ (v = -1 ∨ v = bytes.length)

theorem readsInv_lineRead {a : LineSys ι} (inv : ReadsInv a) (i : ι) (target : Nat)
    (copied : List UInt8) (fits : copied.length ≤ target)
    (clean : byte '\n' ∉ copied ∧ C 'D' ∉ copied) : ReadsInv (lineRead a i target copied) := by
  obtain ⟨line_inv, sleeping, returning⟩ :=
    Line.read_spec inv.line (a.killed i) target (target - copied.length) copied (by omega) clean
  unfold lineRead
  rcases h : a.line.read (a.killed i) target (target - copied.length) copied with
    ⟨line, bytes, outcome⟩
  rw [h] at line_inv sleeping returning
  cases outcome with
  | sleeps =>
    refine ⟨line_inv, fun j target' copied' at_j => ?_, inv.returned⟩
    by_cases same : j = i
    · subst same
      simp only [Function.update_self, ReadPc.reading.injEq] at at_j
      obtain ⟨rfl, rfl⟩ := at_j
      exact sleeping rfl
    · exact inv.reading j target' copied' (by simpa [same] using at_j)
  | returns value =>
    refine ⟨line_inv, fun j target' copied' at_j => ?_, fun j v bytes' at_j => ?_⟩
    · by_cases same : j = i
      · subst same
        simp at at_j
      · exact inv.reading j target' copied' (by simpa [same] using at_j)
    · by_cases same : j = i
      · subst same
        simp only [Function.update_self, Option.some.injEq, Prod.mk.injEq] at at_j
        obtain ⟨rfl, rfl⟩ := at_j
        exact returning _ rfl
      · exact inv.returned j v bytes' (by simpa [same] using at_j)

theorem readsInv_lineStep : Invariant (lineStep (ι := ι)) ReadsInv := by
  intro a event inv
  cases event with
  | intr cs => exact ⟨Line.inv_keys inv.line cs, inv.reading, inv.returned⟩
  | read i n =>
    simp only [lineStep]
    split_ifs
    · exact readsInv_lineRead inv i n [] (Nat.zero_le n) (by simp)
    · exact inv
  | resume i =>
    simp only [lineStep]
    split
    · rename_i target copied at_i
      obtain ⟨lt, clean⟩ := inv.reading i target copied at_i
      exact readsInv_lineRead inv i target copied lt.le clean
    · exact inv
  | kill i => exact ⟨inv.line, inv.reading, inv.returned⟩

omit [DecidableEq ι] in
theorem readsInv_lineBoot : ReadsInv (lineBoot (ι := ι)) :=
  ⟨⟨by simp [lineBoot], rfl⟩, by simp [lineBoot], by simp [lineBoot]⟩

/-! ## The ring holds the line discipline -/

namespace Input

/-- The ring between `r` and `w` is the committed queue, the ring between `w` and `e` the line
being edited, and together they fit in the buffer. -/
structure Holds (input : Input) (l : Line) : Prop where
  queue : view input.buf input.r (span input.r input.w) = l.queue
  pending : view input.buf input.w (span input.w input.e) = l.pending
  fits : span input.r input.w + span input.w input.e ≤ INPUT_BUF

variable {input : Input} {l : Line}

/-- The three indices are in order: `r ≤ w ≤ e ≤ r + INPUT_BUF` in uint arithmetic. -/
theorem Holds.span_read_edit (holds : input.Holds l) :
    span input.r input.e = span input.r input.w + span input.w input.e :=
  span_add (by have := holds.fits; unfold INPUT_BUF at this; omega)

theorem Holds.queue_length (holds : input.Holds l) : l.queue.length = span input.r input.w := by
  rw [← holds.queue, view_length]

theorem Holds.pending_length (holds : input.Holds l) :
    l.pending.length = span input.w input.e := by
  rw [← holds.pending, view_length]

/-- The first committed byte is the one at `r`. -/
theorem Holds.queue_cons (holds : input.Holds l) (nonempty : input.r ≠ input.w) :
    l.queue = input.buf (slot INPUT_BUF input.r) ::
      view input.buf (input.r + 1) (span (input.r + 1) input.w) := by
  obtain ⟨count, eq⟩ : ∃ count, span input.r input.w = count + 1 :=
    Nat.exists_eq_succ_of_ne_zero (mt span_eq_zero.mp nonempty)
  have shrinks : span (input.r + 1) input.w = count := by
    rw [span_succ_left (by omega), eq, Nat.add_sub_cancel]
  rw [← holds.queue, eq, shrinks]
  exact view_pop input_buf_dvd input.buf input.r count

/-- Moving `r` on takes the first committed byte. -/
theorem Holds.take (holds : input.Holds l) (nonempty : input.r ≠ input.w) (c : UInt8) :
    Holds { input with r := input.r + 1 }
      (l.take c (view input.buf (input.r + 1) (span (input.r + 1) input.w))) := by
  have pos : 0 < span input.r input.w := Nat.pos_of_ne_zero (mt span_eq_zero.mp nonempty)
  refine ⟨rfl, holds.pending, ?_⟩
  have shrinks := span_succ_left pos
  have fits := holds.fits
  simp only [shrinks]
  omega

end Input

/-- The kill-line loop, on a line with no newline, deletes all of it. -/
theorem killLine_clears (count : Nat) (input : Input) (spanned : span input.w input.e = count)
    (unbroken : ∀ b ∈ view input.buf input.w count, b ≠ byte '\n') :
    killLine input count = { input with e := input.w } := by
  induction count generalizing input with
  | zero =>
    have same : input.w = input.e := span_eq_zero.mp spanned
    obtain ⟨buf, r, w, e⟩ := input
    simp only at same
    subst same
    rfl
  | succ count ih =>
    have ne : input.e ≠ input.w := fun same => by simp [same] at spanned
    have shrinks : span input.w (input.e - 1) = count := by
      rw [span_pred_right (by omega), spanned, Nat.add_sub_cancel]
    have last : input.buf (slot INPUT_BUF (input.e - 1)) ≠ byte '\n' := by
      rw [slot_of_span input_buf_dvd shrinks]
      exact unbroken _ (by simp [view_succ])
    have rest : ∀ b ∈ view input.buf input.w count, b ≠ byte '\n' :=
      fun b mem => unbroken b (by rw [view_succ]; exact List.mem_append_left _ mem)
    have continues :
        (input.e != input.w && input.buf (slot INPUT_BUF (input.e - 1)) != byte '\n') = true := by
      simp [ne, last]
    rw [killLine, if_pos continues]
    exact ih { input with e := input.e - 1 } shrinks rest

/-- A typed character edits the ring as the line discipline edits the line. The line being edited
has no newline, so the kill-line loop deletes all of it; a byte goes to the slot of `e`, past the
queue, and committing moves `w` to `e`, so the queue grows by the whole line. -/
theorem consoleChar_holds {input : Input} {l : Line} (holds : input.Holds l) (inv : l.Inv)
    (c : UInt8) : (consoleChar input c).Holds (l.key c) := by
  have read_edit := holds.span_read_edit
  have queue_length := holds.queue_length
  have pending_length := holds.pending_length
  have fits := holds.fits
  by_cases hP : c = C 'P'
  · rw [consoleChar, if_pos hP, Line.key, if_pos hP]
    exact holds
  by_cases hU : c = C 'U'
  · rw [consoleChar, if_neg hP, if_pos hU, Line.key, if_neg hP, if_pos hU,
      killLine_clears _ input rfl (fun b mem => (inv.unbroken b (holds.pending ▸ mem)).1)]
    have cleared : (l.pending.reverse.dropWhile (· ≠ byte '\n')).reverse = [] := by
      rw [List.reverse_eq_nil_iff, List.dropWhile_eq_nil_iff]
      intro b mem
      simpa using (inv.unbroken b (List.mem_reverse.mp mem)).1
    refine ⟨holds.queue, by rw [cleared]; simp, by simp only [span_self]; omega⟩
  by_cases hH : c = C 'H' ∨ c = 0x7f
  · rw [consoleChar, if_neg hP, if_neg hU, if_pos hH, Line.key, if_neg hP, if_neg hU, if_pos hH]
    by_cases empty : input.e = input.w
    · have none : l.pending = [] := by
        rw [← List.length_eq_zero_iff, pending_length, empty, span_self]
      simp only [empty, bne_self_eq_false, Bool.false_eq_true, if_false, none,
        List.dropLast_nil]
      exact ⟨holds.queue, by rw [← none, ← holds.pending, empty], by omega⟩
    · obtain ⟨count, eq⟩ : ∃ count, span input.w input.e = count + 1 :=
        Nat.exists_eq_succ_of_ne_zero (mt span_eq_zero.mp (Ne.symm empty))
      have shrinks : span input.w (input.e - 1) = count := by
        rw [span_pred_right (by omega), eq, Nat.add_sub_cancel]
      simp only [bne_iff_ne, ne_eq, empty, not_false_eq_true, if_true]
      refine ⟨holds.queue, ?_, by simp only [shrinks]; omega⟩
      simp only [shrinks, ← holds.pending, eq]
      exact (view_dropLast input.buf input.w count).symm
  rw [consoleChar, if_neg hP, if_neg hU, if_neg hH, Line.key, if_neg hP, if_neg hU, if_neg hH]
  by_cases room : c ≠ 0 ∧ l.queue.length + l.pending.length < INPUT_BUF
  · have code_room : (c != 0 && decide (span input.r input.e < INPUT_BUF)) = true := by
      simp only [bne_iff_ne, ne_eq, Bool.and_eq_true, decide_eq_true_eq]
      exact ⟨room.1, by omega⟩
    rw [if_pos code_room, if_pos room]
    generalize (if c = byte '\r' then byte '\n' else c) = d
    have within : span input.r input.e < INPUT_BUF := by omega
    have grows : span input.w (input.e + 1) = span input.w input.e + 1 :=
      span_succ_right (by unfold INPUT_BUF at within; omega)
    have grows_read : span input.r (input.e + 1) = span input.r input.e + 1 :=
      span_succ_right (by unfold INPUT_BUF at within; omega)
    have from_read : slot INPUT_BUF input.e =
        Fin.ofNat INPUT_BUF (input.r.toNat + span input.r input.e) :=
      slot_of_span input_buf_dvd rfl
    have from_write : slot INPUT_BUF input.e =
        Fin.ofNat INPUT_BUF (input.w.toNat + span input.w input.e) :=
      slot_of_span input_buf_dvd rfl
    have queue_kept : view (Function.update input.buf (slot INPUT_BUF input.e) d) input.r
        (span input.r input.w) = l.queue := by
      rw [from_read, view_update_outside _ _ _ (by omega) within, holds.queue]
    have pending_grown : view (Function.update input.buf (slot INPUT_BUF input.e) d) input.w
        (span input.w (input.e + 1)) = l.pending ++ [d] := by
      rw [grows, from_write, view_push _ _ _ (by omega), holds.pending]
    have full_iff : input.e + 1 = input.r + 128 ↔
        l.queue.length + (l.pending ++ [d]).length = INPUT_BUF := by
      rw [← span_eq_toNat_iff, grows_read, List.length_append, List.length_singleton]
      simp only [UInt32.reduceToNat, INPUT_BUF]
      omega
    by_cases ends : d = byte '\n' ∨ d = C 'D' ∨ l.queue.length + (l.pending ++ [d]).length = INPUT_BUF
    · have code_ends : d = byte '\n' ∨ d = C 'D' ∨ input.e + 1 = input.r + 128 := by
        rwa [full_iff]
      rw [if_pos code_ends, if_pos ends]
      refine ⟨?_, by simp, ?_⟩
      · have spans : span input.r (input.e + 1) = span input.r input.w + span input.w (input.e + 1) := by
          omega
        show view _ input.r (span input.r (input.e + 1)) = _
        rw [spans, view_append input_buf_dvd _ rfl, queue_kept, pending_grown]
      · show span input.r (input.e + 1) + span (input.e + 1) (input.e + 1) ≤ INPUT_BUF
        rw [span_self]
        omega
    · have code_ends : ¬(d = byte '\n' ∨ d = C 'D' ∨ input.e + 1 = input.r + 128) := by
        rwa [full_iff]
      rw [if_neg code_ends, if_neg ends]
      refine ⟨queue_kept, pending_grown, ?_⟩
      show span input.r input.w + span input.w (input.e + 1) ≤ INPUT_BUF
      omega
  · have code_room : ¬(c != 0 && decide (span input.r input.e < INPUT_BUF)) = true := by
      simp only [bne_iff_ne, ne_eq, Bool.and_eq_true, decide_eq_true_eq]
      intro both
      exact room ⟨both.1, by omega⟩
    rw [if_neg code_room, if_neg room]
    exact holds

theorem consoleintr_holds {input : Input} {l : Line} (holds : input.Holds l) (inv : l.Inv)
    (cs : List UInt8) : (consoleintr input cs).Holds (cs.foldl Line.key l) := by
  induction cs generalizing input l with
  | nil => exact holds
  | cons c cs ih => exact ih (consoleChar_holds holds inv c) (Line.inv_key inv c)

/-- A read's loop on the ring takes what the line discipline's read takes and returns the
same. -/
theorem readLoop_holds {input : Input} {l : Line} (holds : input.Holds l) (killed : Bool)
    (target n : Nat) (copied : List UInt8) :
    let r := readLoop input killed target n copied
    let q := l.read killed target n copied
    r.1.Holds q.1 ∧ r.2.1 = q.2.1 ∧ r.2.2 = q.2.2 := by
  induction n generalizing input l copied with
  | zero => exact ⟨holds, rfl, rfl⟩
  | succ n ih =>
    by_cases empty : input.r = input.w
    · have none : l.queue = [] := by
        rw [← List.length_eq_zero_iff, holds.queue_length, empty, span_self]
      simp only [readLoop, empty, if_true, Line.read, none]
      split_ifs <;> exact ⟨holds, rfl, rfl⟩
    · simp only [readLoop, empty, if_false, Line.read, holds.queue_cons empty]
      split_ifs with eof back newline
      · have same : ({ input with r := input.r + 1 - 1 } : Input) = input := by
          simp only [UInt32.add_sub_cancel]
        exact ⟨by rw [same]; exact holds, rfl, rfl⟩
      · exact ⟨holds.take empty _, rfl, rfl⟩
      · exact ⟨holds.take empty _, rfl, rfl⟩
      · exact ih (holds.take empty _) (copied ++ [_])

/-- The ring refines the line discipline: the relation along every run of the same events. -/
structure Refines (s : Console ι) (a : LineSys ι) : Prop where
  holds : s.input.Holds a.line
  pc : s.pc = a.pc
  killed : s.killed = a.killed
  returned : s.returned = a.returned

theorem refines_readRun {s : Console ι} {a : LineSys ι} (related : Refines s a) (i : ι)
    (target : Nat) (copied : List UInt8) :
    Refines (readRun s i target copied) (lineRead a i target copied) := by
  obtain ⟨holds, same_copied, same_outcome⟩ := readLoop_holds related.holds (s.killed i) target
    (target - copied.length) copied
  unfold readRun lineRead
  rw [related.killed] at holds same_copied same_outcome ⊢
  rcases h : readLoop s.input (a.killed i) target (target - copied.length) copied with
    ⟨input, bytes, outcome⟩
  rcases h' : a.line.read (a.killed i) target (target - copied.length) copied with
    ⟨line, bytes', outcome'⟩
  rw [h, h'] at holds same_copied same_outcome
  simp only at holds same_copied same_outcome
  subst same_copied same_outcome
  cases outcome with
  | sleeps =>
    dsimp only
    exact ⟨holds, by rw [related.pc], rfl, related.returned⟩
  | returns value =>
    dsimp only
    exact ⟨holds, by rw [related.pc], rfl, by rw [related.returned]⟩

theorem refines_step {s : Console ι} {a : LineSys ι} (related : Refines s a) (inv : ReadsInv a)
    (event : ConsoleEvent ι) : Refines (consoleStep s event) (lineStep a event) := by
  cases event with
  | intr cs =>
    exact ⟨consoleintr_holds related.holds inv.line cs, related.pc, related.killed,
      related.returned⟩
  | read i n =>
    simp only [consoleStep, lineStep, related.pc]
    split_ifs
    · exact refines_readRun related i n []
    · exact related
  | resume i =>
    simp only [consoleStep, lineStep, related.pc]
    cases a.pc i with
    | reading target copied => exact refines_readRun related i target copied
    | idle => exact related
  | kill i =>
    exact ⟨related.holds, related.pc, by simp [consoleStep, lineStep, related.killed],
      related.returned⟩

/-- The ring and the line discipline after the same events. -/
theorem refines_run (events : List (ConsoleEvent ι)) :
    Refines (run consoleStep consoleBoot events) (run lineStep lineBoot events) ∧
      ReadsInv (run lineStep lineBoot events) := by
  apply @run_simulation _ _ _ _ _ (fun s a => Refines s a ∧ ReadsInv a)
  · intro s a event ⟨related, inv⟩
    exact ⟨refines_step related inv event, readsInv_lineStep a event inv⟩
  · exact ⟨⟨⟨by simp [consoleBoot, lineBoot], by simp [consoleBoot, lineBoot], by simp [consoleBoot]⟩,
      rfl, rfl, rfl⟩, readsInv_lineBoot⟩

/-- A stretch of `consoleread` returns 0 exactly when the call has copied nothing yet and the first
byte it meets is a `^D`. A stretch ends at the ^D with what the call has copied, and once a byte is
copied no later stretch of the call returns 0. -/
theorem readLoop_returns_zero (input : Input) (killed : Bool) (target n : Nat)
    (copied : List UInt8) (wanted : 0 < n) (count : n + copied.length = target) :
    (readLoop input killed target n copied).2.2 = .returns 0 ↔
      copied = [] ∧ input.r ≠ input.w ∧ input.buf (slot INPUT_BUF input.r) = C 'D' := by
  induction n generalizing input copied with
  | zero => omega
  | succ n ih =>
    by_cases empty : input.r = input.w
    · simp only [readLoop, empty, if_true, ne_eq, not_true_eq_false, false_and, and_false,
        iff_false]
      split_ifs <;> simp
    · simp only [readLoop, empty, if_false, ne_eq, not_false_eq_true, true_and]
      by_cases eof : input.buf (slot INPUT_BUF input.r) = C 'D'
      · rw [if_pos eof]
        simp only [Outcome.returns.injEq, eof, and_true]
        constructor
        · intro zero
          apply List.eq_nil_of_length_eq_zero
          omega
        · rintro rfl
          simp only [List.length_nil] at count
          omega
      rw [if_neg eof]
      by_cases newline : input.buf (slot INPUT_BUF input.r) = byte '\n'
      · rw [if_pos newline]
        simp only [Outcome.returns.injEq, eof, and_false, iff_false]
        omega
      · rw [if_neg newline]
        simp only [eof, and_false, iff_false]
        cases n with
        | zero =>
          simp only [readLoop, Outcome.returns.injEq]
          omega
        | succ n =>
          rw [ih _ (copied ++ [_]) (by omega) (by simp; omega)]
          simp

/-- The console delivers exactly the edited input. Along every run of `consoleintr` calls and
`consoleread` calls of any processes: the indices satisfy `r ≤ w ≤ e ≤ r + INPUT_BUF` in uint
arithmetic; the ring between `r` and `w` is the committed input no read has taken yet and the
ring between `w` and `e` the line being edited, as the line discipline over lists has them after
the same events, and every read returns what its read returns; what reads took followed by what
is queued is what was committed; a read returns its byte count (or -1 when killed), with at
most one newline, at the end, and no `^D`; and a stretch of a read returns 0 exactly when the
first byte the call meets is a `^D`. -/
theorem console_line_discipline (events : List (ConsoleEvent ι)) :
    let s := run consoleStep consoleBoot events
    let a := run lineStep lineBoot events
    span s.input.r s.input.w ≤ span s.input.r s.input.e ∧
      span s.input.r s.input.e ≤ INPUT_BUF ∧
      view s.input.buf s.input.r (span s.input.r s.input.w) = a.line.queue ∧
      view s.input.buf s.input.w (span s.input.w s.input.e) = a.line.pending ∧
      s.pc = a.pc ∧ s.returned = a.returned ∧
      a.line.consumed ++ a.line.queue = a.line.committed ∧
      (∀ i v bytes, s.returned i = some (v, bytes) →
        byte '\n' ∉ bytes.dropLast ∧ C 'D' ∉ bytes ∧ (v = -1 ∨ v = bytes.length)) ∧
      (∀ input killed target n copied, 0 < n → n + copied.length = target →
        ((readLoop input killed target n copied).2.2 = .returns 0 ↔
          copied = [] ∧ input.r ≠ input.w ∧ input.buf (slot INPUT_BUF input.r) = C 'D')) := by
  intro s a
  obtain ⟨related, inv⟩ : Refines s a ∧ ReadsInv a := refines_run events
  have read_edit := related.holds.span_read_edit
  have fits := related.holds.fits
  refine ⟨by omega, by omega, related.holds.queue, related.holds.pending, related.pc,
    related.returned, inv.line.exact, fun i v bytes at_i => ?_, readLoop_returns_zero⟩
  exact inv.returned i v bytes (related.returned ▸ at_i)

example : (run consoleStep (consoleBoot (ι := Fin 1))
    [.intr [97, 98, 8, 13], .read 0 10]).returned 0 = some (2, [97, 10]) := by decide

example : (run consoleStep (consoleBoot (ι := Fin 1))
    [.intr [97, 4], .read 0 10, .read 0 10]).returned 0 = some (0, []) := by decide

end Xv6.Dev
