import Mathlib

/-!
# The physical page allocator

kalloc.c keeps the free physical pages on a list threaded through the pages themselves:
`kfree` pushes a page and `kalloc` pops the last page freed. `kinit1` and `kinit2` fill the list
through `freerange` with every whole page from the end of the kernel to PHYSTOP.

A page is named by its physical address. The code passes kernel virtual addresses to `kfree` and
gets them from `kalloc`, and converts with `V2P` and `P2V` where a page table needs the physical
address; every page here lies in the kernel's direct map, where the two conversions undo each
other, so the model leaves them out and keeps the physical address throughout. `kfree`'s check
is kept, stated on the physical address. The contents of pages (the junk `kfree` writes, the
zeroes after `kalloc`) are not modelled, and neither is the lock.
-/

namespace Xv6.Mem

def PGSIZE : Nat := 4096
def KERNBASE : Nat := 0x80000000
def PHYSTOP : Nat := 0xE000000
def EXTMEM : Nat := 0x100000
def KERNLINK : Nat := KERNBASE + EXTMEM
def DEVSPACE : Nat := 0xFE000000

/-- `V2P(a)`: the physical address of a kernel virtual address. -/
def V2P (a : Nat) : Nat := a - KERNBASE

/-- `PGROUNDUP(sz)`, in uint arithmetic. -/
def PGROUNDUP (sz : Nat) : Nat := (sz + PGSIZE - 1) % 2 ^ 32 / PGSIZE * PGSIZE

/-- `PGROUNDDOWN(a)`. -/
def PGROUNDDOWN (a : Nat) : Nat := a / PGSIZE * PGSIZE

/-- `kmem.freelist`, the last page freed first. -/
abbrev FreeList := List Nat

/-- `kalloc()`: the first free page, or none when the list is empty. -/
def kalloc : FreeList → Option (Nat × FreeList)
  | [] => none
  | page :: rest => some (page, rest)

section Layout

variable (kernEnd : Nat)

/-- The pages `kfree` accepts: page-aligned, at or after the kernel's end, below PHYSTOP. Here
`kernEnd` is `end`, the first kernel virtual address after the kernel's image. -/
def Allocatable (pa : Nat) : Prop :=
  pa % PGSIZE = 0 ∧ kernEnd ≤ pa + KERNBASE ∧ pa < PHYSTOP

instance (pa : Nat) : Decidable (Allocatable kernEnd pa) :=
  inferInstanceAs (Decidable (_ ∧ _ ∧ _))

/-- `kfree(P2V(pa))`. -/
def kfree (free : FreeList) (pa : Nat) : Except String FreeList :=
  if Allocatable kernEnd pa then .ok (pa :: free) else .error "kfree"

/-- The pages `freerange(vstart, vend)` frees, in order: every whole page from
`PGROUNDUP(vstart)` up to `vend`. -/
def rangePages (vstart vend : Nat) : List Nat :=
  let first := PGROUNDUP vstart
  (List.range ((vend - first) / PGSIZE)).map fun k => V2P (first + k * PGSIZE)

/-- `freerange(vstart, vend)`, onto the list `free`. -/
def freerange (free : FreeList) (vstart vend : Nat) : Except String FreeList :=
  (rangePages vstart vend).foldlM (kfree kernEnd) free

/-- The free list after `kinit1(end, P2V(4MB))` and `kinit2(P2V(4MB), P2V(PHYSTOP))`. -/
def kinit : Except String FreeList := do
  let free ← freerange kernEnd [] kernEnd (KERNBASE + 4 * 1024 * 1024)
  freerange kernEnd free (KERNBASE + 4 * 1024 * 1024) (KERNBASE + PHYSTOP)

end Layout

end Xv6.Mem
