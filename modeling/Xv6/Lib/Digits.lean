import Mathlib.Data.Nat.Digits.Lemmas
import Xv6.Lib.Bytes

/-!
# Writing a number's digits

The loop that writes the digits of a number from the least significant one, dividing by the
base until nothing is left, writes the number's base representation: Mathlib's `Nat.digits`,
which has no leading zero, and the single digit 0 for zero. A number below `base ^ k` has at
most `k` digits.
-/

namespace Xv6.Digits

/-- The digits of `n` in base `base`, least significant first, with one digit for 0. -/
def digitsOf (base n : Nat) : List Nat := if n = 0 then [0] else Nat.digits base n

/-- `do{ buf[i++] = table[x % base]; }while((x /= base) != 0)`: the entries of `table` for the
digits of `x`, least significant first; `fuel` bounds the turns. -/
def digitLoop (table : List UInt8) (base : Nat) : (fuel x : Nat) → List UInt8
  | 0, _ => []
  | fuel + 1, x =>
    table.getD (x % base) 0 :: if x / base = 0 then [] else digitLoop table base fuel (x / base)

section Loop

variable (table : List UInt8) {base : Nat} (two : 2 ≤ base)
include two

/-- With more turns than `x`, the loop writes the digits of `x`: each turn divides a positive
`x` by at least 2. -/
theorem digitLoop_eq : ∀ {fuel x : Nat}, x < fuel →
    digitLoop table base fuel x = (digitsOf base x).map (table.getD · 0)
  | fuel + 1, x, enough => by
    rw [digitLoop]
    by_cases zero : x = 0
    · subst zero
      simp [digitsOf]
    · have split := Nat.digits_def' (b := base) (by omega) (Nat.pos_of_ne_zero zero)
      have shrinks : x / base < x := Nat.div_lt_self (Nat.pos_of_ne_zero zero) (by omega)
      rw [digitsOf, if_neg zero, split, List.map_cons]
      by_cases last : x / base = 0
      · rw [if_pos last, last, Nat.digits_zero, List.map_nil]
      · rw [if_neg last, digitLoop_eq (by omega), digitsOf, if_neg last]

/-- Every digit is below the base. -/
theorem digitsOf_lt {n d : Nat} (mem : d ∈ digitsOf base n) : d < base := by
  unfold digitsOf at mem
  split_ifs at mem
  · rw [List.mem_singleton.mp mem]
    omega
  · exact Nat.digits_lt_base (by omega) mem

/-- A number below `base ^ k`, for `k` at least one, has at most `k` digits. -/
theorem digitsOf_length_le {n k : Nat} (small : n < base ^ k) (positive : 1 ≤ k) :
    (digitsOf base n).length ≤ k := by
  unfold digitsOf
  split_ifs
  · simpa using positive
  · exact (Nat.digits_length_le_iff (b := base) (by omega) n).mpr small

end Loop

open Xv6.Bytes

/-- printint's body: the digits of the word `xx` from `table`, most significant first, after a
`'-'` when `sign` is set and `xx` is negative as an int. `x = -xx` negates through the unsigned
word; the digits go into the buffer least significant first, then the sign, and are printed
from the end. -/
def signedDigits (table : List UInt8) (xx : UInt32) (base : Nat) (sign : Bool) : List UInt8 :=
  let neg := sign && decide (toSigned xx < 0)
  let x : UInt32 := if neg then 0 - xx else xx
  let buf := digitLoop table base (x.toNat + 1) x.toNat
  (if neg then buf ++ [45] else buf).reverse

section Signed

variable (table : List UInt8) {base : Nat} (two : 2 ≤ base)
include two

/-- Without a sign, printint prints the word's digits as an unsigned number. -/
theorem signedDigits_unsigned (xx : UInt32) :
    signedDigits table xx base false = ((digitsOf base xx.toNat).map (table.getD · 0)).reverse := by
  simp only [signedDigits, Bool.false_and, Bool.false_eq_true, if_false]
  rw [digitLoop_eq table two (Nat.lt_succ_self _)]

/-- With a sign, printint prints a `'-'` for a negative int and then the digits of its magnitude.
The magnitude of a negative int is what its negation through the uint leaves. -/
theorem signedDigits_signed (xx : UInt32) :
    signedDigits table xx base true = (if toSigned xx < 0 then [45] else []) ++
      ((digitsOf base (toSigned xx).natAbs).map (table.getD · 0)).reverse := by
  have bounded := xx.toNat_lt
  simp only [signedDigits, Bool.true_and]
  by_cases negative : toSigned xx < 0
  · have high : 2 ^ 31 ≤ xx.toNat := by
      unfold toSigned at negative
      split_ifs at negative <;> omega
    have magnitude : (0 - xx).toNat = (toSigned xx).natAbs := by
      rw [UInt32.toNat_sub, UInt32.toNat_zero]
      unfold toSigned
      rw [if_neg (by omega)]
      omega
    simp only [negative, decide_true, if_true]
    rw [digitLoop_eq table two (Nat.lt_succ_self _), magnitude, List.reverse_append]
    rfl
  · have low : xx.toNat < 2 ^ 31 := by
      unfold toSigned at negative
      split_ifs at negative with small
      · exact small
      · omega
    have value : (toSigned xx).natAbs = xx.toNat := by
      unfold toSigned
      rw [if_pos low]
      simp
    simp only [negative, decide_false, Bool.false_eq_true, if_false, List.nil_append]
    rw [digitLoop_eq table two (Nat.lt_succ_self _), value]

end Signed

end Xv6.Digits
