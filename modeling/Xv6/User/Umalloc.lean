import Mathlib

/-!
# The user memory allocator

`free`, `morecore` and `malloc` of umalloc.c, the allocator of Kernighan and Ritchie. Memory is
handed out in units of a `Header`, 8 bytes: a block is a header and the units after it, its
size counting the header. The free blocks form a circular list through the headers' `s.ptr`,
kept in address order, with the static `base`, of size 0, in it; `freep` is where the last
search stopped.

Of memory the model keeps the headers, by address: the code reads a header only at the start
of a free block or of the block being freed, and a program writes only the bytes it was given.
Pointers are uint addresses, and `p + n` on a `Header*` moves `8 * n` bytes in uint arithmetic.
`base` is the address of the static `base`. sbrk is the system call as the parameter `sbrk`
answers it: from the break and the increment, the new break, or none for -1; the call returns
the old break. The loops of free and malloc have at most `fuel` rounds each, and none is a loop
that ran out of them.
-/

namespace Xv6.User

/-- `sizeof(Header)`. -/
def HEADER : Nat := 8

/-- A header: `s.ptr`, the next free block, and `s.size`, the block's size in units. -/
structure Header where
  ptr : Nat
  size : Nat
  deriving DecidableEq, Repr

/-- The allocator's memory: the headers by address, `freep` (0 is null), and the break. -/
structure Heap where
  hdr : Nat → Header
  freep : Nat
  brk : Nat

/-- `p->s.ptr = v`. -/
def Heap.setPtr (h : Heap) (p v : Nat) : Heap :=
  { h with hdr := Function.update h.hdr p { h.hdr p with ptr := v } }

/-- `p->s.size = v`. -/
def Heap.setSize (h : Heap) (p v : Nat) : Heap :=
  { h with hdr := Function.update h.hdr p { h.hdr p with size := v } }

/-- `p + n` on a `Header*`. -/
def plus (p n : Nat) : Nat := (p + n * HEADER) % 2 ^ 32

/-- free's `for` loop from `p`: the block after which `bp` goes, the one with `bp` between it
and the next, or the last one, where the list wraps, when `bp` lies past it or before the
first. -/
def freeSearch (h : Heap) (bp : Nat) : (fuel : Nat) → (p : Nat) → Option Nat
  | 0, _ => none
  | fuel + 1, p =>
    if bp > p ∧ bp < (h.hdr p).ptr then some p
    else if p ≥ (h.hdr p).ptr ∧ (bp > p ∨ bp < (h.hdr p).ptr) then some p
    else freeSearch h bp fuel (h.hdr p).ptr

/-- `free(ap)`: the block goes in after `p`, joined to the next block and to `p` where it
touches them, and `freep` is left at `p`. -/
def free (h : Heap) (ap fuel : Nat) : Option Heap :=
  let bp := (ap + 2 ^ 32 - HEADER) % 2 ^ 32
  match freeSearch h bp fuel h.freep with
  | none => none
  | some p =>
    let h :=
      if plus bp (h.hdr bp).size = (h.hdr p).ptr then
        let h := h.setSize bp (((h.hdr bp).size + (h.hdr (h.hdr p).ptr).size) % 2 ^ 32)
        h.setPtr bp (h.hdr (h.hdr p).ptr).ptr
      else h.setPtr bp (h.hdr p).ptr
    let h :=
      if plus p (h.hdr p).size = bp then
        let h := h.setSize p (((h.hdr p).size + (h.hdr bp).size) % 2 ^ 32)
        h.setPtr p (h.hdr bp).ptr
      else h.setPtr p bp
    some { h with freep := p }

/-- `nu * sizeof(Header)`, a uint, as the int sbrk takes. -/
def sbrkArg (nu : Nat) : Int :=
  let bytes : Nat := nu * HEADER % 2 ^ 32
  if bytes < 2 ^ 31 then bytes else (bytes : Int) - 2 ^ 32

/-- `nunits` for `nbytes`: the units that hold them and one for the header, in uint
arithmetic. -/
def nunits (nbytes : Nat) : Nat := (nbytes + HEADER - 1) % 2 ^ 32 / HEADER + 1

section Sbrk

variable (sbrk : Nat → Int → Option Nat)

/-- `morecore(nu)`: at least 4096 units from sbrk, freed into the list; the heap and `freep`,
or 0 when sbrk fails. -/
def morecore (h : Heap) (nu fuel : Nat) : Option (Heap × Nat) :=
  let nu := if nu < 4096 then 4096 else nu
  match sbrk h.brk (sbrkArg nu) with
  | none => some (h, 0)
  | some brk =>
    let hp := h.brk
    let h := ({ h with brk := brk } : Heap).setSize hp nu
    match free h (plus hp 1) fuel with
    | none => none
    | some h => some (h, h.freep)

/-- malloc's `for` loop at `prevp` and `p`: the first free block of at least `nunits` units is
taken whole or from its tail; on reaching `freep` again, morecore, and on from what it
returns. -/
def mallocLoop (nunits : Nat) : (fuel : Nat) → Heap → (prevp p : Nat) → Option (Heap × Nat)
  | 0, _, _, _ => none
  | fuel + 1, h, prevp, p =>
    if (h.hdr p).size ≥ nunits then
      if (h.hdr p).size = nunits then
        let h := h.setPtr prevp (h.hdr p).ptr
        some ({ h with freep := prevp }, plus p 1)
      else
        let h := h.setSize p ((h.hdr p).size - nunits)
        let p := plus p (h.hdr p).size
        let h := h.setSize p nunits
        some ({ h with freep := prevp }, plus p 1)
    else if p = h.freep then
      match morecore sbrk h nunits fuel with
      | none => none
      | some (h, 0) => some (h, 0)
      | some (h, p) => mallocLoop nunits fuel h p (h.hdr p).ptr
    else mallocLoop nunits fuel h p (h.hdr p).ptr

/-- `malloc(nbytes)`: the heap and the pointer returned, 0 when sbrk fails. The first call
starts the list with `base` alone. -/
def malloc (base : Nat) (h : Heap) (nbytes fuel : Nat) : Option (Heap × Nat) :=
  let h := if h.freep = 0 then { (h.setPtr base base).setSize base 0 with freep := base } else h
  mallocLoop sbrk (nunits nbytes) fuel h h.freep (h.hdr h.freep).ptr

end Sbrk

end Xv6.User
