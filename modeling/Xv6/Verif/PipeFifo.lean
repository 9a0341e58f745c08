import Xv6.Ipc.Pipe
import Xv6.Lib.Run

/-!
# Pipes are FIFOs

Over every interleaving of `pipewrite` and `piperead` calls, with any counts and with the
counters wrapping past 2^32, the ring holds at most PIPESIZE bytes, and the bytes handed out
followed by the bytes in the ring are exactly the bytes stored, in order. The ring's contents are
its view between `nread` and `nwrite` (Xv6.Lib.Ring): storing a byte appends to it, taking one
removes its head, and the two loops are these steps repeated.
-/

namespace Xv6.Ipc

open Xv6.Run Xv6.Ring

namespace Pipe

/-- The ring holds at most PIPESIZE bytes. -/
def Bounded (p : Pipe) : Prop := span p.nread p.nwrite ≤ PIPESIZE

variable {p : Pipe}

/-- A ring that is not full has room for one more byte. -/
theorem span_lt_of_not_full (bounded : p.Bounded) (room : p.full = false) :
    span p.nread p.nwrite < PIPESIZE := by
  have ne : p.nwrite ≠ p.nread + 512 := by simpa [full] using room
  rcases Nat.lt_or_eq_of_le bounded with lt | eq
  · exact lt
  · have wraps := toNat_of_span eq
    exact absurd (by rw [← UInt32.toNat_inj, UInt32.toNat_add]; simpa [PIPESIZE] using wraps) ne

theorem put_bounded (bounded : p.Bounded) (room : p.full = false) (b : UInt8) :
    (p.put b).Bounded := by
  have lt := p.span_lt_of_not_full bounded room
  have grows : span p.nread (p.nwrite + 1) = span p.nread p.nwrite + 1 :=
    span_succ_right (by unfold PIPESIZE at lt; omega)
  simp only [Bounded, put, grows]
  omega

/-- Storing a byte in a ring with room appends it to the contents. -/
theorem contents_put (bounded : p.Bounded) (room : p.full = false) (b : UInt8) :
    (p.put b).contents = p.contents ++ [b] := by
  have lt := p.span_lt_of_not_full bounded room
  have grows : span p.nread (p.nwrite + 1) = span p.nread p.nwrite + 1 :=
    span_succ_right (by unfold PIPESIZE at lt; omega)
  have at_end : slot PIPESIZE p.nwrite =
      Fin.ofNat PIPESIZE (p.nread.toNat + span p.nread p.nwrite) :=
    slot_of_span pipesize_dvd rfl
  simp only [contents, put, grows, at_end]
  exact view_push p.data p.nread b lt

theorem advance_bounded (bounded : p.Bounded) (nonempty : p.nread ≠ p.nwrite) :
    p.advance.Bounded := by
  have pos : 0 < span p.nread p.nwrite := Nat.pos_of_ne_zero (mt span_eq_zero.mp nonempty)
  simp only [Bounded, advance, span_succ_left pos]
  exact (Nat.sub_le _ 1).trans bounded

/-- Taking a byte from a ring that is not empty takes the head of the contents. -/
theorem contents_advance (nonempty : p.nread ≠ p.nwrite) :
    p.contents = p.first :: p.advance.contents := by
  obtain ⟨count, eq⟩ : ∃ count, span p.nread p.nwrite = count + 1 :=
    Nat.exists_eq_succ_of_ne_zero (mt span_eq_zero.mp nonempty)
  have shrinks : span (p.nread + 1) p.nwrite = count := by
    rw [span_succ_left (by omega), eq, Nat.add_sub_cancel]
  simp only [contents, advance, first, eq, shrinks]
  exact view_pop pipesize_dvd p.data p.nread count

theorem contents_pipeclose (writable : Bool) : (pipeclose p writable).contents = p.contents := by
  cases writable <;> rfl

theorem bounded_pipeclose (writable : Bool) (bounded : p.Bounded) :
    (pipeclose p writable).Bounded := by
  cases writable <;> exact bounded

end Pipe

/-! ## The two loops -/

section Loops

variable {p : Pipe}

/-- `pipewrite`'s loop keeps the bound and appends the bytes it stored. -/
theorem store_spec (bytes : List UInt8) (bounded : p.Bounded) :
    (store p bytes).1.Bounded ∧
      (store p bytes).1.contents = p.contents ++ bytes.take (store p bytes).2 := by
  induction bytes generalizing p with
  | nil => simpa [store] using bounded
  | cons b rest ih =>
    by_cases full : p.full
    · simpa [store, full] using bounded
    · have room : p.full = false := by simpa using full
      obtain ⟨after_bounded, after_contents⟩ := ih (p.put_bounded bounded room b)
      simp only [store, full, Bool.false_eq_true, if_false, List.take_succ_cons]
      refine ⟨after_bounded, ?_⟩
      rw [after_contents, p.contents_put bounded room, List.append_assoc, List.singleton_append]

/-- `piperead`'s loop keeps the bound and takes its bytes off the front of the contents. -/
theorem fetch_spec (n : Nat) (bounded : p.Bounded) :
    (fetch p n).1.Bounded ∧ p.contents = (fetch p n).2 ++ (fetch p n).1.contents := by
  induction n generalizing p with
  | zero => simpa [fetch] using bounded
  | succ n ih =>
    by_cases empty : p.nread = p.nwrite
    · simpa [fetch, empty] using bounded
    · obtain ⟨after_bounded, after_contents⟩ := ih (p.advance_bounded bounded empty)
      simp only [fetch, empty, beq_iff_eq, if_false, List.cons_append]
      exact ⟨after_bounded, by rw [p.contents_advance empty, after_contents]⟩

end Loops

/-! ## The invariant -/

variable {ι : Type} [DecidableEq ι]

/-- What every reachable state satisfies. -/
structure PipeInv (s : PipeSys ι) : Prop where
  bounded : s.pipe.Bounded
  fifo : s.delivered ++ s.pipe.contents = s.stored

@[simp] theorem PipeSys.finish_pipe (s : PipeSys ι) (i : ι) (pc : PipePc) (outcome : Outcome) :
    (s.finish i pc outcome).pipe = s.pipe := by
  cases outcome <;> rfl

@[simp] theorem PipeSys.finish_stored (s : PipeSys ι) (i : ι) (pc : PipePc) (outcome : Outcome) :
    (s.finish i pc outcome).stored = s.stored := by
  cases outcome <;> rfl

@[simp] theorem PipeSys.finish_delivered (s : PipeSys ι) (i : ι) (pc : PipePc)
    (outcome : Outcome) : (s.finish i pc outcome).delivered = s.delivered := by
  cases outcome <;> rfl

/-- `pipewrite` leaves the pipe as its loop does. -/
theorem pipewrite_pipe (p : Pipe) (killed : Bool) (total : Nat) (pending : List UInt8) :
    (pipewrite p killed total pending).1 = (store p pending).1 := by
  unfold pipewrite
  rcases store p pending with ⟨q, count⟩
  dsimp only
  split_ifs <;> rfl

theorem pipewrite_count (p : Pipe) (killed : Bool) (total : Nat) (pending : List UInt8) :
    (pipewrite p killed total pending).2.1 = (store p pending).2 := by
  unfold pipewrite
  rcases store p pending with ⟨q, count⟩
  dsimp only
  split_ifs <;> rfl

theorem writeRun_eq (s : PipeSys ι) (i : ι) (addr : List UInt8) (pos : Nat) :
    writeRun s i addr pos =
      let r := pipewrite s.pipe (s.killed i) addr.length (addr.drop pos)
      { s with pipe := r.1, stored := s.stored ++ (addr.drop pos).take r.2.1 }.finish i
        (.writing addr (pos + r.2.1)) r.2.2 := rfl

theorem readRun_eq (s : PipeSys ι) (i : ι) (n : Nat) :
    readRun s i n =
      let r := piperead s.pipe (s.killed i) n
      { s with pipe := r.1, delivered := s.delivered ++ r.2.1 }.finish i (.reading n) r.2.2 :=
  rfl

/-- `piperead` either leaves the pipe and copies nothing, or runs its loop. -/
theorem piperead_cases (p : Pipe) (killed : Bool) (n : Nat) :
    ((piperead p killed n).1 = p ∧ (piperead p killed n).2.1 = []) ∨
      ((piperead p killed n).1 = (fetch p n).1 ∧ (piperead p killed n).2.1 = (fetch p n).2) := by
  unfold piperead
  split_ifs
  · exact .inl ⟨rfl, rfl⟩
  · exact .inl ⟨rfl, rfl⟩
  · exact .inr ⟨rfl, rfl⟩

theorem inv_writeRun {s : PipeSys ι} (inv : PipeInv s) (i : ι) (addr : List UInt8) (pos : Nat) :
    PipeInv (writeRun s i addr pos) := by
  obtain ⟨after_bounded, after_contents⟩ := store_spec (addr.drop pos) inv.bounded
  rw [writeRun_eq]
  constructor
  · simpa [pipewrite_pipe] using after_bounded
  · simp only [PipeSys.finish_pipe, PipeSys.finish_stored, PipeSys.finish_delivered,
      pipewrite_pipe, pipewrite_count]
    rw [after_contents, ← List.append_assoc, inv.fifo]

theorem inv_readRun {s : PipeSys ι} (inv : PipeInv s) (i : ι) (n : Nat) :
    PipeInv (readRun s i n) := by
  rw [readRun_eq]
  rcases piperead_cases s.pipe (s.killed i) n with ⟨same, nothing⟩ | ⟨pipe_eq, bytes_eq⟩
  · constructor
    · simpa [same] using inv.bounded
    · simpa [same, nothing] using inv.fifo
  · obtain ⟨after_bounded, after_contents⟩ := fetch_spec n inv.bounded
    constructor
    · simpa [pipe_eq] using after_bounded
    · simp only [PipeSys.finish_pipe, PipeSys.finish_stored, PipeSys.finish_delivered,
        pipe_eq, bytes_eq]
      rw [List.append_assoc, ← after_contents, inv.fifo]

theorem inv_pipeStep : Invariant (pipeStep (ι := ι)) PipeInv := by
  intro s event inv
  cases event with
  | write i addr =>
    simp only [pipeStep]
    split_ifs
    · exact inv_writeRun inv i addr 0
    · exact inv
  | read i n =>
    simp only [pipeStep]
    split_ifs
    · exact inv_readRun inv i n
    · exact inv
  | resume i =>
    simp only [pipeStep]
    split
    · exact inv_writeRun inv i _ _
    · exact inv_readRun inv i _
    · exact inv
  | close writable =>
    exact ⟨Pipe.bounded_pipeclose writable inv.bounded,
      by simpa [pipeStep, Pipe.contents_pipeclose] using inv.fifo⟩
  | kill i => exact ⟨inv.bounded, inv.fifo⟩

omit [DecidableEq ι] in
theorem inv_pipeInit (page : Fin PIPESIZE → UInt8) : PipeInv (pipeInit (ι := ι) page) :=
  ⟨by simp [Pipe.Bounded, pipeInit, pipealloc], by simp [Pipe.contents, pipeInit, pipealloc]⟩

/-- A drained pipe whose write end is closed reads as end of file. -/
theorem piperead_drained {p : Pipe} (closed : p.writeopen = false) (drained : p.nread = p.nwrite)
    (killed : Bool) (n : Nat) : (piperead p killed n).2.2 = .returns 0 := by
  cases n <;> simp [piperead, fetch, closed, drained]

/-- Pipes are exact FIFOs. In every state reachable from `pipealloc`, whatever the interleaving
and the counts: the ring holds at most PIPESIZE bytes, `nwrite - nread` in uint arithmetic; the
bytes `piperead` has handed out, followed by those in the ring, are the bytes `pipewrite` stored,
in order, so what was read is a prefix of what was stored; and once the write end is closed and
the ring drained, a `piperead` of any process returns 0. -/
theorem pipe_fifo {page : Fin PIPESIZE → UInt8} {s : PipeSys ι}
    (reached : Reachable pipeStep (pipeInit page) s) :
    (s.pipe.nwrite - s.pipe.nread).toNat ≤ PIPESIZE ∧
      s.delivered ++ s.pipe.contents = s.stored ∧ s.delivered <+: s.stored ∧
      (s.pipe.writeopen = false → s.pipe.nread = s.pipe.nwrite →
        ∀ i n, (readRun s i n).returned i = some 0) := by
  have inv : PipeInv s := inv_pipeStep.reachable (inv_pipeInit page) reached
  refine ⟨inv.bounded, inv.fifo, ⟨_, inv.fifo⟩, fun closed drained i n => ?_⟩
  have returns := piperead_drained closed drained (s.killed i) n
  unfold readRun
  rcases h : piperead s.pipe (s.killed i) n with ⟨q, bytes, outcome⟩
  rw [h] at returns
  subst returns
  simp [PipeSys.finish]

example : (run pipeStep (pipeInit (ι := Fin 2) fun _ => 0)
    [.write 0 [1, 2, 3], .read 1 2]).delivered = [1, 2] := by decide

/-- A writer of 600 bytes fills the ring and sleeps; a reader takes 100; the writer stores the
rest and returns. -/
def bigWrite : List UInt8 := List.replicate 600 7

def fifoRun : PipeSys (Fin 2) :=
  run pipeStep (pipeInit fun _ => 0) [.write 0 bigWrite, .read 1 100, .resume 0, .read 1 5]

theorem pipe_fifo_fifoRun :
    Reachable pipeStep (pipeInit fun _ => 0) fifoRun ∧
      (fifoRun.pipe.nwrite - fifoRun.pipe.nread).toNat ≤ PIPESIZE ∧
      fifoRun.delivered ++ fifoRun.pipe.contents = fifoRun.stored ∧
      fifoRun.delivered <+: fifoRun.stored ∧
      (fifoRun.pipe.writeopen = false → fifoRun.pipe.nread = fifoRun.pipe.nwrite →
        ∀ i n, (readRun fifoRun i n).returned i = some 0) :=
  ⟨⟨_, rfl⟩, pipe_fifo ⟨_, rfl⟩⟩

end Xv6.Ipc
