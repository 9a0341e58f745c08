import Xv6.Verif.Malloc

/-!
# malloc and free over a run

A program's calls of malloc and of free, each free of a pointer malloc returned and not yet
freed (`Reach`), keep the heap as `Wf` says from malloc's first call on (`Reach.valid`). Each
malloc returns 0 or a pointer just past the header of a block of `nunits` units that lies in the
memory sbrk gave, apart from every other block (`Reach.malloc_block`).

`nunits` is the bytes asked rounded up to headers, and one header more, except for the seven
sizes below 2^32 where its uint sum wraps: for those malloc hands out a header alone
(`malloc_wraps`). The runs are of malloc calls whose `nunits` is below 2^28; above, the bytes
morecore asks for are a negative int, and what sbrk does then is not `Grows`.
-/

namespace Xv6.User

/-- The heap before the first call of malloc: `freep` null, the break at or above `start`, the
start of the heap, which lies above `base`. -/
structure Fresh (base start : Nat) (h : Heap) : Prop where
  null : h.freep = 0
  below : base + HEADER ≤ start
  grown : start ≤ h.brk
  top : h.brk < 2 ^ 32
  nonnull : 0 < base

/-- The heaps malloc and free leave: fresh with nothing handed out, or as `Wf` says of some free
list. -/
def Valid (base start : Nat) (h : Heap) (live : List Block) : Prop :=
  (Fresh base start h ∧ live = []) ∨ ∃ free, Wf base start h free live

theorem nunits_pos (nbytes : Nat) : 0 < nunits nbytes := Nat.succ_pos _

/-- `nunits` covers the bytes asked with a header to spare, below the seven sizes where its
uint sum wraps; at those it is one unit, a header alone. -/
theorem nunits_bytes {nbytes : Nat} (lt : nbytes < 2 ^ 32) :
    (nbytes < 2 ^ 32 - 7 → nbytes + HEADER ≤ nunits nbytes * HEADER) ∧
      (2 ^ 32 - 7 ≤ nbytes → nunits nbytes = 1) := by
  unfold nunits HEADER
  constructor <;> intro bound <;> omega

section Calls

variable {sbrk : Nat → Int → Option Nat} {base start : Nat} {h : Heap} {live : List Block}

/-- malloc's first call starts the list with `base` alone. -/
theorem Fresh.wf (fresh : Fresh base start h) :
    Wf base start { (h.setPtr base base).setSize base 0 with freep := base } [⟨base, 0⟩] [] := by
  have sound : Sound base start h.brk [⟨base, 0⟩] [] :=
    ⟨rfl, List.isChain_singleton _, fresh.below, fresh.top,
      fun _ m => .inl (List.mem_singleton.mp m), fun _ m => absurd m List.not_mem_nil,
      fun _ _ _ m => absurd m List.not_mem_nil, List.Pairwise.nil⟩
  refine ⟨sound, ⟨?_, trivial⟩, fun _ m => absurd m List.not_mem_nil, List.mem_singleton_self base,
    fresh.grown, fresh.nonnull⟩
  show ((h.setPtr base base).setSize base 0).hdr base = ⟨base, 0⟩
  rw [Heap.setSize_hdr_self, Heap.setPtr_hdr_self]

/-- Once started, malloc goes straight to its loop from `freep`. -/
theorem malloc_of_wf {free : List Block} (wf : Wf base start h free live) (nbytes fuel : Nat) :
    malloc sbrk base h nbytes fuel =
      mallocLoop sbrk (nunits nbytes) fuel h h.freep (h.hdr h.freep).ptr := by
  unfold malloc
  dsimp only
  rw [if_neg (Nat.ne_of_gt wf.freep_pos)]

theorem malloc_of_fresh (fresh : Fresh base start h) (nbytes fuel : Nat) :
    malloc sbrk base h nbytes fuel =
      mallocLoop sbrk (nunits nbytes) fuel { (h.setPtr base base).setSize base 0 with freep := base }
        base (((h.setPtr base base).setSize base 0).hdr base).ptr := by
  unfold malloc
  dsimp only
  rw [if_pos fresh.null]

/-- A block handed out starts a header below the pointer returned, which is not null. -/
theorem Taken.block {N q : Nat} (taken : Taken base start N live h q) :
    HEADER ≤ q ∧ ∃ free, Wf base start h free (⟨q - HEADER, N⟩ :: live) := by
  obtain ⟨free, c, rfl, rfl, wf⟩ := taken
  obtain ⟨-, positive, stop⟩ := wf.sound.given c List.mem_cons_self
  have fits : c.addr + 1 * HEADER < 2 ^ 32 := by
    have := wf.sound.top
    have := Nat.mul_le_mul_right HEADER positive
    unfold Block.stop at stop
    omega
  rw [plus_of_lt fits, Nat.one_mul, Nat.add_sub_cancel]
  exact ⟨Nat.le_add_left _ _, free, wf⟩

/-- malloc from a heap malloc and free can leave, with sbrk as `Grows` says, fewer than 2^28
units asked and at least 2^31 rounds: it returns 0 and leaves such a heap, or hands out a block
of `nunits nbytes` units. -/
theorem malloc_valid (grows : Grows sbrk) (valid : Valid base start h live) {nbytes fuel : Nat}
    (small : nunits nbytes < 2 ^ 28) (enough : 2 ^ 31 ≤ fuel) :
    ∃ h' q, malloc sbrk base h nbytes fuel = some (h', q) ∧
      ((q = 0 ∧ Valid base start h' live) ∨ Taken base start (nunits nbytes) live h' q) := by
  rcases valid with ⟨fresh, rfl⟩ | ⟨free, wf⟩
  · have wf := fresh.wf
    rw [malloc_of_fresh fresh]
    obtain ⟨h', q, loop, result⟩ := wf.mallocLoop_spec grows (nunits_pos nbytes) small enough
    refine ⟨h', q, loop, result.imp (fun ⟨zero, same⟩ => ⟨zero, .inr ⟨[⟨base, 0⟩], ?_⟩⟩) id⟩
    rw [same]
    exact wf
  · rw [malloc_of_wf wf]
    obtain ⟨h', q, loop, result⟩ := wf.mallocLoop_spec grows (nunits_pos nbytes) small enough
    refine ⟨h', q, loop, result.imp (fun ⟨zero, same⟩ => ⟨zero, .inr ⟨free, ?_⟩⟩) id⟩
    rw [same]
    exact wf

/-- free of a block handed out, from a heap malloc and free can leave, with at least 2^29
rounds, leaves such a heap without that block. -/
theorem free_valid (valid : Valid base start h live) {b : Block} (given : b ∈ live) {fuel : Nat}
    (enough : 2 ^ 29 ≤ fuel) :
    ∃ h', free h (plus b.addr 1) fuel = some h' ∧ Valid base start h' (live.erase b) := by
  rcases valid with ⟨-, rfl⟩ | ⟨avail, wf⟩
  · exact absurd given List.not_mem_nil
  · obtain ⟨h', call, -, wf'⟩ := wf.free_release given (Nat.le_trans wf.sound.length_le enough)
    exact ⟨h', call, .inr ⟨_, wf'⟩⟩

end Calls

/-- The heaps a program reaches from `h₀` by calls of malloc and free, with the blocks it holds:
malloc of a size whose `nunits` is below 2^28, recording the block of the pointer returned, and
free of a block malloc handed out and not yet freed. -/
inductive Reach (sbrk : Nat → Int → Option Nat) (base fuel : Nat) (h₀ : Heap) :
    Heap → List Block → Prop
  | start : Reach sbrk base fuel h₀ h₀ []
  | malloc {h h' : Heap} {live : List Block} {nbytes q : Nat} :
      Reach sbrk base fuel h₀ h live → nunits nbytes < 2 ^ 28 →
      User.malloc sbrk base h nbytes fuel = some (h', q) →
      Reach sbrk base fuel h₀ h' (if q = 0 then live else ⟨q - HEADER, nunits nbytes⟩ :: live)
  | free {h h' : Heap} {live : List Block} {b : Block} :
      Reach sbrk base fuel h₀ h live → b ∈ live → User.free h (plus b.addr 1) fuel = some h' →
      Reach sbrk base fuel h₀ h' (live.erase b)

/-- sbrk of a process whose memory may grow up to KERNBASE, 2^31: a positive increment that
keeps the break below moves it up, and the call fails otherwise. The runs below are of it. -/
def upToKernbase (brk : Nat) (n : Int) : Option Nat :=
  if 0 ≤ n ∧ brk + n.toNat < 2 ^ 31 then some (brk + n.toNat) else none

theorem upToKernbase_grows : Grows upToKernbase := by
  intro brk n brk' nonneg answer
  unfold upToKernbase at answer
  by_cases fits : 0 ≤ n ∧ brk + n.toNat < 2 ^ 31
  · rw [if_pos fits, Option.some.injEq] at answer
    subst answer
    omega
  · rw [if_neg fits] at answer
    cases answer

/-- A heap before malloc's first call, its break at 0x10000, `base` at 0x1000. -/
def freshHeap : Heap := ⟨fun _ => ⟨0, 0⟩, 0, 0x10000⟩

theorem freshHeap_fresh : Fresh 0x1000 0x10000 freshHeap :=
  ⟨rfl, by decide, Nat.le_refl _, by decide, by decide⟩

section Run

variable {sbrk : Nat → Int → Option Nat} {base start fuel : Nat} {h₀ h : Heap}
  {live : List Block}

/-- Over every run from a fresh heap, with sbrk as `Grows` says and at least 2^31 rounds for
each loop, the heap is as malloc and free leave it, the blocks the program holds being the ones
handed out. -/
theorem Reach.valid (grows : Grows sbrk) (fresh : Fresh base start h₀) (enough : 2 ^ 31 ≤ fuel)
    (reach : Reach sbrk base fuel h₀ h live) : Valid base start h live := by
  induction reach with
  | start => exact .inl ⟨fresh, rfl⟩
  | malloc _ small call valid =>
    obtain ⟨h', q', call', result⟩ := malloc_valid grows valid small enough
    rw [call, Option.some.injEq, Prod.mk.injEq] at call'
    obtain ⟨rfl, rfl⟩ := call'
    rcases result with ⟨zero, valid'⟩ | taken
    · rw [if_pos zero]
      exact valid'
    · obtain ⟨above, free, wf⟩ := taken.block
      rw [if_neg (Nat.ne_of_gt (Nat.lt_of_lt_of_le (by decide) above))]
      exact .inr ⟨free, wf⟩
  | free _ given call valid =>
    obtain ⟨h', call', valid'⟩ := free_valid valid given (Nat.le_trans (by decide) enough)
    rw [call, Option.some.injEq] at call'
    rw [call']
    exact valid'

/-- In every run, malloc of a size whose `nunits` is below 2^28 returns, with 0 or a pointer
just past the header of a block of `nunits nbytes` units: one that holds the bytes asked unless
`nunits` wraps, lies in the memory sbrk gave, shares no byte with a block still handed out or
with a free block, and is handed out in a heap that keeps the invariant. -/
theorem Reach.malloc_block (grows : Grows sbrk) (fresh : Fresh base start h₀)
    (enough : 2 ^ 31 ≤ fuel) (reach : Reach sbrk base fuel h₀ h live) {nbytes : Nat}
    (small : nunits nbytes < 2 ^ 28) :
    ∃ h' q, User.malloc sbrk base h nbytes fuel = some (h', q) ∧ (q = 0 ∨ ∃ free,
      (nbytes < 2 ^ 32 - 7 → q + nbytes ≤ Block.stop ⟨q - HEADER, nunits nbytes⟩) ∧
      InHeap start h'.brk ⟨q - HEADER, nunits nbytes⟩ ∧
      (∀ b ∈ live, Block.Apart ⟨q - HEADER, nunits nbytes⟩ b) ∧
      (∀ a ∈ free, Block.Apart a ⟨q - HEADER, nunits nbytes⟩) ∧
      Wf base start h' free (⟨q - HEADER, nunits nbytes⟩ :: live)) := by
  obtain ⟨h', q, call, result⟩ := malloc_valid grows (reach.valid grows fresh enough) small enough
  refine ⟨h', q, call, ?_⟩
  rcases result with ⟨zero, -⟩ | taken
  · exact .inl zero
  · obtain ⟨above, free, wf⟩ := taken.block
    refine .inr ⟨free, fun lower => ?_, wf.sound.given _ List.mem_cons_self, fun b m => ?_,
      fun a m => wf.sound.apart a m _ List.mem_cons_self, wf⟩
    · have covers := (nunits_bytes (Nat.lt_trans lower (by decide))).1 lower
      unfold Block.stop
      dsimp only
      omega
    · exact List.rel_of_pairwise_cons wf.sound.distinct m

/-- malloc(16), the first call from `freshHeap`, returns a block. -/
theorem malloc_block_first : ∃ h' q,
    User.malloc upToKernbase 0x1000 freshHeap 16 (2 ^ 31) = some (h', q) ∧ (q = 0 ∨ ∃ free,
      (16 < 2 ^ 32 - 7 → q + 16 ≤ Block.stop ⟨q - HEADER, nunits 16⟩) ∧
      InHeap 0x10000 h'.brk ⟨q - HEADER, nunits 16⟩ ∧
      (∀ b ∈ ([] : List Block), Block.Apart ⟨q - HEADER, nunits 16⟩ b) ∧
      (∀ a ∈ free, Block.Apart a ⟨q - HEADER, nunits 16⟩) ∧
      Wf 0x1000 0x10000 h' free [⟨q - HEADER, nunits 16⟩]) :=
  Reach.malloc_block upToKernbase_grows freshHeap_fresh (Nat.le_refl _) Reach.start
    (show nunits 16 < 2 ^ 28 by decide)

/-- In every run, free of a block the program holds rewrites the free list the headers hold
into the one `release` gives, and the heap keeps the invariant without the block. -/
theorem Reach.free_refines_release (grows : Grows sbrk) (fresh : Fresh base start h₀)
    (enough : 2 ^ 31 ≤ fuel) (reach : Reach sbrk base fuel h₀ h live) {b : Block} (given : b ∈ live) :
    ∃ free h', Wf base start h free live ∧ User.free h (plus b.addr 1) fuel = some h' ∧
      h'.brk = h.brk ∧ Wf base start h' (release b free) (live.erase b) := by
  rcases reach.valid grows fresh enough with ⟨-, rfl⟩ | ⟨free, wf⟩
  · exact absurd given List.not_mem_nil
  · obtain ⟨h', call, brk, wf'⟩ :=
      wf.free_release given (Nat.le_trans wf.sound.length_le (Nat.le_trans (by decide) enough))
    exact ⟨free, h', wf, call, brk, wf'⟩

/-- malloc(16) then free of its block, from `freshHeap`. -/
theorem free_release_after_malloc : ∃ h free h',
    Wf 0x1000 0x10000 h free [⟨0x17FE8, 3⟩] ∧ User.free h (plus 0x17FE8 1) (2 ^ 31) = some h' ∧
      h'.brk = h.brk ∧ Wf 0x1000 0x10000 h' (release ⟨0x17FE8, 3⟩ free) [] := by
  obtain ⟨h, q, call, -⟩ := malloc_valid upToKernbase_grows (.inl ⟨freshHeap_fresh, rfl⟩)
    (show nunits 16 < 2 ^ 28 by decide) (Nat.le_refl (2 ^ 31))
  have returned : q = 0x17FF0 := by
    have : (User.malloc upToKernbase 0x1000 freshHeap 16 (2 ^ 31)).map Prod.snd = some 0x17FF0 := by
      decide
    rw [call] at this
    exact Option.some.inj this
  have begun : Reach upToKernbase 0x1000 (2 ^ 31) freshHeap freshHeap [] := Reach.start
  have reach := Reach.malloc begun (show nunits 16 < 2 ^ 28 by decide) call
  rw [returned, if_neg (by decide)] at reach
  obtain ⟨free, h', wf, freed, brk, wf'⟩ := Reach.free_refines_release upToKernbase_grows freshHeap_fresh
    (Nat.le_refl _) reach List.mem_cons_self
  rw [List.erase_cons_head] at wf'
  exact ⟨h, free, h', wf, freed, brk, wf'⟩

end Run

/-- For the seven sizes below 2^32 at which `nunits` wraps, malloc from a heap malloc and free can
leave returns 0, or a pointer whose block ends where it points: a header, and none of the bytes
asked. -/
theorem malloc_wraps {sbrk : Nat → Int → Option Nat} {base start : Nat} {h : Heap}
    {live : List Block} (grows : Grows sbrk) (valid : Valid base start h live) {nbytes fuel : Nat}
    (high : 2 ^ 32 - 7 ≤ nbytes) (lt : nbytes < 2 ^ 32) (enough : 2 ^ 31 ≤ fuel) :
    ∃ h' q, malloc sbrk base h nbytes fuel = some (h', q) ∧
      (q = 0 ∨ ∃ free c, c.stop = q ∧ Wf base start h' free (c :: live)) := by
  have one := (nunits_bytes lt).2 high
  obtain ⟨h', q, call, result⟩ := malloc_valid grows valid (by rw [one]; decide) enough
  refine ⟨h', q, call, result.imp And.left fun taken => ?_⟩
  obtain ⟨above, free, wf⟩ := taken.block
  refine ⟨free, _, ?_, wf⟩
  rw [one]
  unfold Block.stop
  dsimp only
  omega

/-- malloc(2^32 - 1), the first call from `freshHeap`, returns 0x18000, a block of one unit. -/
theorem malloc_wraps_first :
    (malloc upToKernbase 0x1000 freshHeap (2 ^ 32 - 1) (2 ^ 31)).map Prod.snd = some 0x18000 ∧
      ∃ h' q, malloc upToKernbase 0x1000 freshHeap (2 ^ 32 - 1) (2 ^ 31) = some (h', q) ∧
        (q = 0 ∨ ∃ free c, c.stop = q ∧ Wf 0x1000 0x10000 h' free [c]) :=
  ⟨by decide, malloc_wraps upToKernbase_grows (.inl ⟨freshHeap_fresh, rfl⟩) (by decide) (by decide)
    (Nat.le_refl _)⟩

end Xv6.User
