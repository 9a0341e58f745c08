import Mathlib

/-!
# Copying a run of cells one at a time

A memory maps addresses to cells. A copy of `n` cells from `src` to `dst` that goes one cell at
a time, from the lowest address up or from the highest down, is meant to leave the destination
holding the source as it was before the copy (`moved`). It does so exactly when it never reads
a cell it has already written. Going up, that fails only when the destination starts inside
the source above its first cell, and there the copy repeats the first `dst - src` cells of the
source. Going down, it fails only when the destination starts below the source and reaches
into it.

`Scattered` says what `moved` says of a copy whose destination cells need not lie in a run, and
joins the copies of consecutive pieces of a source into one.
-/

namespace Xv6.Copy

variable {α : Type}

/-- The memory after the `n` cells from `src` are placed at `dst`, all read before any is
written. -/
def moved (mem : Nat → α) (dst src n : Nat) : Nat → α :=
  fun a => if dst ≤ a ∧ a < dst + n then mem (src + (a - dst)) else mem a

/-- `while(n-- > 0) *d++ = *s++;` -/
def copyUp (mem : Nat → α) (dst src : Nat) : Nat → Nat → α
  | 0 => mem
  | n + 1 => copyUp (Function.update mem dst (mem src)) (dst + 1) (src + 1) n

/-- `s += n; d += n; while(n-- > 0) *--d = *--s;` -/
def copyDown (mem : Nat → α) (dst src : Nat) : Nat → Nat → α
  | 0 => mem
  | n + 1 => copyDown (Function.update mem (dst + n) (mem (src + n))) dst src n

@[simp] theorem moved_zero (mem : Nat → α) (dst src : Nat) : moved mem dst src 0 = mem := by
  funext a
  unfold moved
  rw [if_neg (by omega)]

/-- Placing `n + 1` cells is placing the first one and then the other `n`, when the first
write does not land on a cell the others read. -/
theorem moved_succ (mem : Nat → α) {dst src n : Nat}
    (unread : ∀ i < n, src + 1 + i ≠ dst) :
    moved (Function.update mem dst (mem src)) (dst + 1) (src + 1) n =
      moved mem dst src (n + 1) := by
  funext a
  unfold moved
  by_cases first : a = dst
  · subst first
    rw [if_neg (by omega), if_pos (by omega), Function.update_self, Nat.sub_self, Nat.add_zero]
  · by_cases inside : dst + 1 ≤ a ∧ a < dst + 1 + n
    · have read : src + 1 + (a - (dst + 1)) = src + (a - dst) := by omega
      rw [if_pos inside, if_pos (by omega), Function.update_of_ne (unread _ (by omega)), read]
    · rw [if_neg inside, if_neg (by omega), Function.update_of_ne first]

/-- Placing `n + 1` cells is placing the last one and then the first `n`, when the last write
does not land on a cell the others read. -/
theorem moved_succ_last (mem : Nat → α) {dst src n : Nat}
    (unread : ∀ i < n, src + i ≠ dst + n) :
    moved (Function.update mem (dst + n) (mem (src + n))) dst src n =
      moved mem dst src (n + 1) := by
  funext a
  unfold moved
  by_cases last : a = dst + n
  · subst last
    rw [if_neg (by omega), if_pos (by omega), Function.update_self, Nat.add_sub_cancel_left]
  · by_cases inside : dst ≤ a ∧ a < dst + n
    · rw [if_pos inside, if_pos (by omega), Function.update_of_ne (unread _ (by omega))]
    · rw [if_neg inside, if_neg (by omega), Function.update_of_ne last]

section Up

/-- Going up, a cell below the destination is never written. -/
theorem copyUp_below (mem : Nat → α) {dst src a : Nat} (n : Nat) (below : a < dst) :
    copyUp mem dst src n a = mem a := by
  induction n generalizing mem dst src with
  | zero => rfl
  | succ n ih =>
    rw [copyUp, ih _ (by omega), Function.update_of_ne (by omega)]

/-- Going up from a destination that does not start inside the source above its first cell,
the copy places the source. -/
theorem copyUp_eq_moved (mem : Nat → α) {dst src : Nat} (n : Nat)
    (apart : dst ≤ src ∨ src + n ≤ dst) : copyUp mem dst src n = moved mem dst src n := by
  induction n generalizing mem dst src with
  | zero => simp [copyUp]
  | succ n ih =>
    rw [copyUp, ih _ (by omega)]
    exact moved_succ mem fun i _ => by omega

/-- Going up from a destination above the source, the cell `i` past the destination gets the source
cell `i % (dst - src)`: once the copy reaches cells it wrote, it reads them again. The cell read is
the destination's first exactly when `j + 1` is a whole period. -/
theorem copyUp_of_lt (mem : Nat → α) {dst src : Nat} (n : Nat) (above : src < dst) :
    ∀ i < n, copyUp mem dst src n (dst + i) = mem (src + i % (dst - src)) := by
  induction n generalizing mem dst src with
  | zero => intro i past; omega
  | succ n ih =>
    intro i inside
    rw [copyUp]
    cases i with
    | zero =>
      simp only [Nat.add_zero, Nat.zero_mod]
      rw [copyUp_below _ _ (by omega), Function.update_self]
    | succ j =>
      have shifted := @ih (Function.update mem dst (mem src)) (dst + 1) (src + 1) (by omega) j
        (by omega)
      rw [show dst + (j + 1) = dst + 1 + j by omega, shifted,
        show dst + 1 - (src + 1) = dst - src by omega]
      by_cases wrap : src + 1 + j % (dst - src) = dst
      · have period : (j + 1) % (dst - src) = 0 := by
          rw [Nat.add_mod, show j % (dst - src) = dst - src - 1 by omega]
          rcases Nat.lt_or_ge 1 (dst - src) with more | one
          · rw [Nat.mod_eq_of_lt more, Nat.sub_add_cancel (by omega), Nat.mod_self]
          · have : dst - src = 1 := by omega
            rw [this, Nat.mod_one]
        rw [wrap, Function.update_self, period, Nat.add_zero]
      · have step : (j + 1) % (dst - src) = j % (dst - src) + 1 := by
          have less := Nat.mod_lt j (show 0 < dst - src by omega)
          rw [Nat.add_mod, Nat.mod_eq_of_lt (a := 1) (by omega), Nat.mod_eq_of_lt (by omega)]
        rw [Function.update_of_ne wrap, step, Nat.add_assoc, Nat.add_comm 1]

end Up

section Down

/-- Going down from a destination that does not start below the source and reach into it,
the copy places the source. -/
theorem copyDown_eq_moved (mem : Nat → α) {dst src : Nat} (n : Nat)
    (apart : src ≤ dst ∨ dst + n ≤ src) : copyDown mem dst src n = moved mem dst src n := by
  induction n generalizing mem with
  | zero => simp [copyDown]
  | succ n ih =>
    rw [copyDown, ih _ (by omega)]
    exact moved_succ_last mem fun i _ => by omega

end Down

section Scattered

/-- `mem'` is `mem` with the cell `src + i` placed at `dst i` for each `i < n`, read before any
is written, and every other cell as it was. -/
structure Scattered (mem mem' : Nat → α) (dst : Nat → Nat) (src n : Nat) : Prop where
  placed : ∀ i < n, mem' (dst i) = mem (src + i)
  frame : ∀ a, (∀ i < n, dst i ≠ a) → mem' a = mem a

theorem Scattered.zero (mem : Nat → α) (dst : Nat → Nat) (src : Nat) :
    Scattered mem mem dst src 0 where
  placed _ past := absurd past (Nat.not_lt_zero _)
  frame _ _ := rfl

/-- A copy to a run of cells is scattered to the run. -/
theorem Scattered.of_moved (mem : Nat → α) (dst src n : Nat) :
    Scattered mem (moved mem dst src n) (dst + ·) src n where
  placed i inside := by
    dsimp only [moved]
    rw [if_pos (by omega), Nat.add_sub_cancel_left]
  frame a outside := by
    dsimp only [moved]
    rw [if_neg]
    rintro ⟨above, below⟩
    exact outside (a - dst) (by omega) (by omega)

theorem Scattered.congr {mem mem' : Nat → α} {dst dst' : Nat → Nat} {src n : Nat}
    (scattered : Scattered mem mem' dst src n) (same : ∀ i < n, dst i = dst' i) :
    Scattered mem mem' dst' src n where
  placed i inside := same i inside ▸ scattered.placed i inside
  frame a outside := scattered.frame a fun i inside => same i inside ▸ outside i inside

/-- `n` cells and then the next `m` are `n + m` cells, when the second copy writes none of the
cells the first wrote and the first writes none of the cells the second reads. -/
theorem Scattered.append {mem mem₁ mem₂ : Nat → α} {dst : Nat → Nat} {src n m : Nat}
    (first : Scattered mem mem₁ dst src n)
    (second : Scattered mem₁ mem₂ (fun j => dst (n + j)) (src + n) m)
    (distinct : ∀ i < n, ∀ j < m, dst (n + j) ≠ dst i)
    (unread : ∀ i < n, ∀ j < m, dst i ≠ src + n + j) :
    Scattered mem mem₂ dst src (n + m) where
  placed i inside := by
    by_cases early : i < n
    · rw [second.frame _ fun j later => distinct i early j later, first.placed i early]
    · obtain ⟨j, rfl⟩ : ∃ j, i = n + j := ⟨i - n, by omega⟩
      rw [second.placed j (by omega), first.frame _ fun i' early' => unread i' early' j (by omega),
        Nat.add_assoc]
  frame a outside := by
    rw [second.frame a fun j later => outside (n + j) (by omega),
      first.frame a fun i early => outside i (by omega)]

end Scattered

end Xv6.Copy
