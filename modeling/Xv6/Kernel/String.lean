import Xv6.Lib.Copy

/-!
# The kernel's memmove

`memmove` of string.c over a byte memory. Addresses are numbers and a region is the run of
addresses from its start, so the pointer comparisons `s < d` and `s + n > d` compare numbers; a
C object never runs past the top of the address space, so nothing here wraps.
-/

namespace Xv6.Kernel

open Xv6.Copy

/-- `memmove(dst, src, n)`: a backward copy when the source starts below the destination and
reaches into it, else a forward copy. -/
def memmove (mem : Nat → UInt8) (dst src n : Nat) : Nat → UInt8 :=
  if src < dst ∧ src + n > dst then copyDown mem dst src n else copyUp mem dst src n

/-- The kernel's memmove always places the source as it was: it picks the direction in which
no cell is read after it is written. -/
theorem memmove_eq_moved (mem : Nat → UInt8) (dst src n : Nat) :
    memmove mem dst src n = moved mem dst src n := by
  unfold memmove
  split_ifs with overlap
  · exact copyDown_eq_moved mem n (.inl (Nat.le_of_lt overlap.1))
  · exact copyUp_eq_moved mem n (by omega)

end Xv6.Kernel
