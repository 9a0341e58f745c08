import Mathlib

/-!
# Rings indexed by free-running counters

A buffer of `cap` slots read and written through unsigned 32-bit counters that only go up, as
pipe.c and console.c keep theirs: a counter value `n` stands for slot `n % cap`, and the
difference of two counters, taken in uint arithmetic, is the number of entries between them.
The counters wrap at 2^32. When `cap` divides 2^32 the wrap does not move the slots, and the
entries between two counters read, oldest first, as a list: the view. Writing the slot of the
upper counter and moving it on appends to the view; moving the lower counter on takes the view's
head; moving the upper one back drops the view's last entry.
-/

namespace Xv6.Ring

variable {α : Type} {cap : Nat} [NeZero cap]

/-- The slot counter value `n` indexes: `n % cap`, as the C code computes it. -/
def slot (cap : Nat) [NeZero cap] (n : UInt32) : Fin cap := Fin.ofNat cap n.toNat

/-- How many counter steps lead from `lo` up to `hi`: `hi - lo` in uint arithmetic. -/
def span (lo hi : UInt32) : Nat := (hi - lo).toNat

/-- The `count` entries from counter value `start` on, oldest first. -/
def view (buf : Fin cap → α) (start : UInt32) (count : Nat) : List α :=
  (List.range count).map fun k => buf (Fin.ofNat cap (start.toNat + k))

/-! ## Distances between counters -/

@[simp] theorem span_self (n : UInt32) : span n n = 0 := by
  simp [span]

theorem span_eq_zero {lo hi : UInt32} : span lo hi = 0 ↔ lo = hi := by
  have lo_lt := lo.toNat_lt
  have hi_lt := hi.toNat_lt
  rw [span, UInt32.toNat_sub, ← UInt32.toNat_inj]
  omega

/-- The upper counter is the lower one moved on by the span. -/
theorem toNat_of_span {lo hi : UInt32} {count : Nat} (h : span lo hi = count) :
    hi.toNat = (lo.toNat + count) % 2 ^ 32 := by
  have lo_lt := lo.toNat_lt
  have hi_lt := hi.toNat_lt
  rw [span, UInt32.toNat_sub] at h
  omega

theorem span_succ_right {lo hi : UInt32} (room : span lo hi + 1 < 2 ^ 32) :
    span lo (hi + 1) = span lo hi + 1 := by
  have lo_lt := lo.toNat_lt
  have hi_lt := hi.toNat_lt
  simp only [span, UInt32.toNat_sub, UInt32.toNat_add, UInt32.toNat_one] at room ⊢
  omega

theorem span_pred_right {lo hi : UInt32} (pos : 0 < span lo hi) :
    span lo (hi - 1) = span lo hi - 1 := by
  have lo_lt := lo.toNat_lt
  have hi_lt := hi.toNat_lt
  simp only [span, UInt32.toNat_sub, UInt32.toNat_one] at pos ⊢
  omega

theorem span_succ_left {lo hi : UInt32} (pos : 0 < span lo hi) :
    span (lo + 1) hi = span lo hi - 1 := by
  have lo_lt := lo.toNat_lt
  have hi_lt := hi.toNat_lt
  simp only [span, UInt32.toNat_sub, UInt32.toNat_add, UInt32.toNat_one] at pos ⊢
  omega

/-- A span of `k` is the lower counter moved on by `k`. -/
theorem span_eq_toNat_iff {lo hi k : UInt32} : span lo hi = k.toNat ↔ hi = lo + k := by
  have lo_lt := lo.toNat_lt
  have hi_lt := hi.toNat_lt
  have k_lt := k.toNat_lt
  rw [span, UInt32.toNat_sub, ← UInt32.toNat_inj, UInt32.toNat_add]
  omega

/-- Spans add up along three counters in order. -/
theorem span_add {lo mid hi : UInt32} (within : span lo mid + span mid hi < 2 ^ 32) :
    span lo hi = span lo mid + span mid hi := by
  have lo_lt := lo.toNat_lt
  have mid_lt := mid.toNat_lt
  have hi_lt := hi.toNat_lt
  simp only [span, UInt32.toNat_sub] at within ⊢
  omega

/-! ## Slots

From here on `cap` divides 2^32, as PIPESIZE and INPUT_BUF do. -/

section Divides

variable (divides : cap ∣ 2 ^ 32)
include divides

/-- The slot of the upper counter is `span` slots on from the lower one, across any wrap. -/
theorem slot_of_span {lo hi : UInt32} {count : Nat} (h : span lo hi = count) :
    slot cap hi = Fin.ofNat cap (lo.toNat + count) := by
  apply Fin.ext
  simp only [slot, Fin.val_ofNat]
  rw [toNat_of_span h, Nat.mod_mod_of_dvd _ divides]

/-- Counter values one apart index neighbouring slots. -/
theorem ofNat_succ (start : UInt32) (k : Nat) :
    Fin.ofNat cap ((start + 1).toNat + k) = Fin.ofNat cap (start.toNat + (k + 1)) := by
  apply Fin.ext
  simp only [Fin.val_ofNat, UInt32.toNat_add, UInt32.toNat_one]
  rw [Nat.add_mod, Nat.mod_mod_of_dvd _ divides, ← Nat.add_mod]
  congr 1
  omega

end Divides

/-- Distinct offsets within one turn of the ring index distinct slots. -/
theorem ofNat_ne {start : Nat} {j k : Nat} (lt : j < k) (within : k < cap) :
    Fin.ofNat cap (start + j) ≠ Fin.ofNat cap (start + k) := by
  intro same
  have congruent : start + j ≡ start + k [MOD cap] := by
    simpa only [Fin.ext_iff, Fin.val_ofNat, Nat.ModEq] using same
  have offsets := Nat.ModEq.add_left_cancel' start congruent
  rw [Nat.ModEq, Nat.mod_eq_of_lt (lt.trans within), Nat.mod_eq_of_lt within] at offsets
  omega

/-! ## Views -/

@[simp] theorem view_length (buf : Fin cap → α) (start : UInt32) (count : Nat) :
    (view buf start count).length = count := by
  simp [view]

@[simp] theorem view_zero (buf : Fin cap → α) (start : UInt32) : view buf start 0 = [] := rfl

theorem view_succ (buf : Fin cap → α) (start : UInt32) (count : Nat) :
    view buf start (count + 1) =
      view buf start count ++ [buf (Fin.ofNat cap (start.toNat + count))] := by
  simp [view, List.range_succ]

/-- A view depends only on the slots it covers. -/
theorem view_congr {buf buf' : Fin cap → α} {start : UInt32} {count : Nat}
    (agree : ∀ k, k < count → buf (Fin.ofNat cap (start.toNat + k)) =
      buf' (Fin.ofNat cap (start.toNat + k))) :
    view buf start count = view buf' start count := by
  apply List.map_congr_left
  intro k mem
  exact agree k (List.mem_range.mp mem)

/-- Writing a slot past the view, within one turn of its start, leaves the view as it is. -/
theorem view_update_outside (buf : Fin cap → α) (start : UInt32) {count j : Nat} (x : α)
    (past : count ≤ j) (within : j < cap) :
    view (Function.update buf (Fin.ofNat cap (start.toNat + j)) x) start count =
      view buf start count := by
  apply view_congr
  intro k lt
  exact Function.update_of_ne (ofNat_ne (lt_of_lt_of_le lt past) within) x buf

/-- Writing the slot just past the view and counting it appends the entry. -/
theorem view_push (buf : Fin cap → α) (start : UInt32) {count : Nat} (x : α)
    (within : count < cap) :
    view (Function.update buf (Fin.ofNat cap (start.toNat + count)) x) start (count + 1) =
      view buf start count ++ [x] := by
  rw [view_succ, view_update_outside buf start x le_rfl within, Function.update_self]

theorem view_dropLast (buf : Fin cap → α) (start : UInt32) (count : Nat) :
    (view buf start (count + 1)).dropLast = view buf start count := by
  rw [view_succ, List.dropLast_concat]

section Divides

variable (divides : cap ∣ 2 ^ 32)
include divides

/-- Moving the lower counter on takes the first entry off the view. -/
theorem view_pop (buf : Fin cap → α) (start : UInt32) (count : Nat) :
    view buf start (count + 1) = buf (slot cap start) :: view buf (start + 1) count := by
  simp only [view, List.range_succ_eq_map, List.map_cons, List.map_map, Nat.add_zero, slot]
  congr 1
  apply List.map_congr_left
  intro k _
  simp only [Function.comp_apply]
  rw [ofNat_succ divides]

/-- The view up to a counter in the middle, followed by the view from it. -/
theorem view_append (buf : Fin cap → α) {lo mid : UInt32} {first : Nat}
    (h : span lo mid = first) (second : Nat) :
    view buf lo (first + second) = view buf lo first ++ view buf mid second := by
  induction second with
  | zero => simp
  | succ second ih =>
    have shifted : Fin.ofNat cap (mid.toNat + second) =
        Fin.ofNat cap (lo.toNat + (first + second)) := by
      apply Fin.ext
      simp only [Fin.val_ofNat]
      rw [toNat_of_span h, Nat.add_mod, Nat.mod_mod_of_dvd _ divides, ← Nat.add_mod,
        Nat.add_assoc]
    rw [← Nat.add_assoc, view_succ, ih, view_succ, shifted, List.append_assoc]

end Divides

end Xv6.Ring
