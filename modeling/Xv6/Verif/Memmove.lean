import Xv6.Kernel.String
import Xv6.User.Ulib

/-!
# The kernel's memmove, and the user memmove against it

The kernel's memmove picks its direction so that it never reads a byte it has written, and
always places the source as it was: the destination's bytes are the source's before the call,
whichever way the two overlap, and no other byte changes. The user library's memmove always copies forward. That is
the same when the destination starts at or below the source, or past its end; when it starts
inside the source above its first byte, each byte copied past the first `dst - src` is one the
copy wrote, and the destination gets the first `dst - src` source bytes over and over.
-/

namespace Xv6.Kernel

open Xv6.Copy

/-- The kernel's memmove, however the regions overlap: the destination holds the source's bytes
as they were before the call, and every byte outside the destination is as it was. -/
theorem kernel_memmove_spec (mem : Nat → UInt8) (dst src n : Nat) :
    (∀ i < n, memmove mem dst src n (dst + i) = mem (src + i)) ∧
    (∀ a, a < dst ∨ dst + n ≤ a → memmove mem dst src n a = mem a) := by
  rw [memmove_eq_moved]
  refine ⟨fun i inside => ?_, fun a outside => ?_⟩
  · dsimp only [moved]
    rw [if_pos (by omega), Nat.add_sub_cancel_left]
  · dsimp only [moved]
    rw [if_neg (by omega)]

end Xv6.Kernel

namespace Xv6.User

open Xv6.Copy

/-- Where the two memmoves part: they agree unless the destination starts inside the source
above it, the user one then repeats the source's first `dst - src` bytes, and the kernel one
always places the source. -/
theorem memmove_agrees_unless_above (mem : Nat → UInt8) (dst src : Nat) (n : Int) :
    ((dst ≤ src ∨ src + n.toNat ≤ dst) →
      memmove mem dst src n = Kernel.memmove mem dst src n.toNat) ∧
    (src < dst → ∀ i < n.toNat,
      memmove mem dst src n (dst + i) = mem (src + i % (dst - src))) ∧
    Kernel.memmove mem dst src n.toNat = moved mem dst src n.toNat := by
  refine ⟨fun apart => ?_, copyUp_of_lt mem n.toNat, Kernel.memmove_eq_moved mem dst src _⟩
  rw [memmove, Kernel.memmove_eq_moved, copyUp_eq_moved mem _ apart]

/-- A memory holding 1 and 2 at addresses 0 and 1. -/
def overlapMem : Nat → UInt8 := fun a => if a = 0 then 1 else if a = 1 then 2 else 0

/-- Moving those two bytes up by one: the user memmove leaves 1 at address 2, where the
kernel's leaves 2. -/
theorem memmove_overlap_repeats :
    memmove overlapMem 1 0 2 2 = 1 ∧ Kernel.memmove overlapMem 1 0 2 2 = 2 := by
  obtain ⟨-, repeats, kernel⟩ := memmove_agrees_unless_above overlapMem 1 0 2
  exact ⟨repeats (by decide) 1 (by decide), (congrFun kernel 2).trans rfl⟩

end Xv6.User
