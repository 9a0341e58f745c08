import Xv6.Lib.Copy

/-!
# The user library

`strchr` and `memmove` of ulib.c. A C string is the list of its bytes before its NUL, so the
end of the list is where the NUL is. A memory is as in the kernel's memmove: addresses are
numbers and nothing wraps.
-/

namespace Xv6.User

open Xv6.Copy

/-- `strchr(s, c)`: the offset of the first `c` in the string that starts at `s`, or none (the
code's 0). The scan stops at the first 0 byte, so the NUL that ends the string is never found,
and neither is anything after it. -/
def strchr : List UInt8 → UInt8 → Option Nat
  | [], _ => none
  | x :: s, c => if x = 0 then none else if x = c then some 0 else (strchr s c).map (· + 1)

/-- In a string without a 0 byte, strchr finds a byte exactly when the string holds it. -/
theorem strchr_isSome_iff {s : List UInt8} (c : UInt8) (noNul : 0 ∉ s) :
    (strchr s c).isSome ↔ c ∈ s := by
  induction s with
  | nil => simp [strchr]
  | cons x s ih =>
    have nonzero : x ≠ 0 := fun zero => noNul (zero ▸ List.mem_cons_self)
    have rest := ih fun mem => noNul (List.mem_cons_of_mem x mem)
    by_cases same : x = c
    · subst same
      simp [strchr, nonzero]
    · simp [strchr, nonzero, same, rest, Ne.symm same]

/-- `memmove(vdst, vsrc, n)`: always a forward copy, `while(n-- > 0) *dst++ = *src++`; a count
that is not positive copies nothing. -/
def memmove (mem : Nat → UInt8) (vdst vsrc : Nat) (n : Int) : Nat → UInt8 :=
  copyUp mem vdst vsrc n.toNat

end Xv6.User
