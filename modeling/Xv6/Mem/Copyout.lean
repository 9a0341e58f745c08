import Xv6.Mem.Vm
import Xv6.Kernel.String

/-!
# copyout

`uva2ka` and `copyout` of vm.c over the bytes of physical memory. As in the other memory
modules the kernel's direct map is read through `V2P`: a user page is named by the physical
address its PTE holds, and `copyout`'s source by the physical address of the kernel buffer.
`copyout` moves each piece with the kernel's `memmove`.

`uva2ka` calls `walkpgdir` without allocating and reads `*pte` whatever it returned. Where the
page table of the address is absent walkpgdir returns 0, and the read is of the word at
address 0: the model takes that word, read as a PTE, as the parameter `atZero`.
-/

namespace Xv6.Mem

open Xv6.Kernel

/-- `uva2ka(pgdir, uva)`: the physical page of a present PTE_U page, or none (0). The PTE is read as
`*pte`, with no check that walkpgdir found the page table: `atZero` is what address 0 holds. -/
def uva2ka (pd : PageDir) (atZero : Option Pte) (uva : Nat) : Option Nat :=
  let pte :=
    match walkpgdir pd [] uva false with
    | some (pd, _) => pd.entry uva
    | none => atZero
  match pte with
  | none => none
  | some pte => if !pte.perm.user then none else some pte.addr

theorem copyout_piece_pos (va len : Nat) (more : ¬len = 0) :
    len - (if PGSIZE - (va - PGROUNDDOWN va) > len then len else PGSIZE - (va - PGROUNDDOWN va)) <
      len := by
  unfold PGROUNDDOWN PGSIZE
  split <;> omega

/-- `copyout(pgdir, va, p, len)`: the memory and the value it returns. `buf` is where the
source has got to, `p` at the start; `va = va0 + PGSIZE` is uint arithmetic. -/
def copyout (pd : PageDir) (atZero : Option Pte) (mem : Nat → UInt8) (va buf len : Nat) :
    (Nat → UInt8) × Int :=
  if len = 0 then (mem, 0)
  else
    let va0 := PGROUNDDOWN va
    match uva2ka pd atZero va0 with
    | none => (mem, -1)
    | some pa0 =>
      let n := PGSIZE - (va - va0)
      let n := if n > len then len else n
      copyout pd atZero (memmove mem (pa0 + (va - va0)) buf n) ((va0 + PGSIZE) % 2 ^ 32) (buf + n)
        (len - n)
termination_by len
decreasing_by exact copyout_piece_pos va len ‹_›

end Xv6.Mem
