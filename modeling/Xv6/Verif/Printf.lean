import Xv6.Dev.Cprintf
import Xv6.User.Printf

/-!
# What printint and the two printfs print

Stated without the code: a number's numeral is its shortest representation in its base, most
significant digit first, and an int's decimal numeral has a `'-'` before a negative one. A
format is a sequence of pieces, each character that is not a `%` standing for itself and a `%`
with the character after it for a directive, the last `%` alone being dropped; a format prints
its pieces in order, and the `k`th directive that takes an argument word takes word `k`.

Both printints print exactly the numeral, INT_MIN's included, in at most 11 characters. cprintf
and printf both print a format this way; the directives that take a word are `%d`, `%x`, `%p`
and `%s`, and `%c` in printf, which cprintf prints as the unknown sequence it is there.
-/

namespace Xv6

open Xv6.Bytes Xv6.Digits

/-! ## Numerals -/

/-- The ASCII character of a digit below 16, with lower- or upper-case letters. -/
def digitChar (upper : Bool) (d : Nat) : UInt8 :=
  if d < 10 then UInt8.ofNat (48 + d) else UInt8.ofNat ((if upper then 55 else 87) + d)

/-- The shortest representation of `n` in base `base`, most significant digit first. -/
def numeral (upper : Bool) (base n : Nat) : List UInt8 :=
  ((digitsOf base n).map (digitChar upper)).reverse

/-- The decimal numeral of an int, with `'-'` before a negative one. -/
def decimal (v : Int) : List UInt8 := (if v < 0 then [45] else []) ++ numeral false 10 v.natAbs

section Numerals

theorem kernelDigits_getD : ∀ d < 16, Dev.kernelDigits.getD d 0 = digitChar false d := by
  decide

theorem userDigits_getD : ∀ d < 16, User.userDigits.getD d 0 = digitChar true d := by
  decide

/-- The upper-case table's decimal digits are the digits. -/
theorem userDigits_getD_decimal : ∀ d < 10, User.userDigits.getD d 0 = digitChar false d := by
  decide

/-- A digit table that holds the ASCII digits prints numerals. -/
theorem map_table_eq_numeral {table : List UInt8} {upper : Bool} {base : Nat}
    (two : 2 ≤ base) (ascii : ∀ d < base, table.getD d 0 = digitChar upper d)
    (n : Nat) : ((digitsOf base n).map (table.getD · 0)).reverse = numeral upper base n := by
  rw [numeral, List.map_congr_left fun d mem => ascii d (digitsOf_lt two mem)]

/-- A numeral of a 32-bit number has at most as many digits as `2 ^ 32` needs. -/
theorem numeral_length_le {upper : Bool} {base n k : Nat} (two : 2 ≤ base)
    (small : n < base ^ k) (positive : 1 ≤ k) : (numeral upper base n).length ≤ k := by
  rw [numeral, List.length_reverse, List.length_map]
  exact digitsOf_length_le two small positive

/-- An int's magnitude is at most 2³¹, INT_MIN's. -/
theorem natAbs_toSigned_le (xx : UInt32) : (toSigned xx).natAbs ≤ 2 ^ 31 := by
  have bounded := xx.toNat_lt
  unfold toSigned
  split_ifs <;> omega

/-- An int's decimal numeral takes at most 11 characters: ten digits and the sign. -/
theorem decimal_length_le (xx : UInt32) : (decimal (toSigned xx)).length ≤ 11 := by
  have digits : (numeral false 10 (toSigned xx).natAbs).length ≤ 10 :=
    numeral_length_le (by decide) (Nat.lt_of_le_of_lt (natAbs_toSigned_le xx) (by decide))
      (by decide)
  rw [decimal, List.length_append]
  split_ifs <;> simp only [List.length_cons, List.length_nil] <;> omega

/-- A word's hexadecimal numeral takes at most 8 characters. -/
theorem hex_length_le (upper : Bool) (xx : UInt32) : (numeral upper 16 xx.toNat).length ≤ 8 :=
  numeral_length_le (by decide) (Nat.lt_of_lt_of_le xx.toNat_lt (by decide)) (by decide)

theorem kernel_printint_decimal (xx : UInt32) :
    Dev.printint xx 10 true = decimal (toSigned xx) := by
  rw [Dev.printint, signedDigits_signed _ (by decide),
    map_table_eq_numeral (by decide) fun d small => kernelDigits_getD d (by omega), decimal]

/-- INT_MIN, negated through the uint to itself, prints as `-2147483648`. -/
example : Dev.printint 2147483648 10 true = [45, 50, 49, 52, 55, 52, 56, 51, 54, 52, 56] := by
  decide

theorem kernel_printint_hex (xx : UInt32) :
    Dev.printint xx 16 false = numeral false 16 xx.toNat := by
  rw [Dev.printint, signedDigits_unsigned _ (by decide),
    map_table_eq_numeral (by decide) kernelDigits_getD]

theorem user_printint_decimal (xx : UInt32) :
    User.printint xx 10 true = decimal (toSigned xx) := by
  rw [User.printint, signedDigits_signed _ (by decide),
    map_table_eq_numeral (by decide) userDigits_getD_decimal, decimal]

theorem user_printint_hex (xx : UInt32) :
    User.printint xx 16 false = numeral true 16 xx.toNat := by
  rw [User.printint, signedDigits_unsigned _ (by decide),
    map_table_eq_numeral (by decide) userDigits_getD]

end Numerals

/-! ## Formats -/

/-- A piece of a format: a character printed as it is, or a directive, the character after a
`%`. -/
inductive Piece
  | lit (c : UInt8)
  | conv (c : UInt8)
  deriving DecidableEq, Repr

/-- The pieces of a format; a `%` that ends it is dropped. -/
def pieces : List UInt8 → List Piece
  | [] => []
  | [37] => []
  | 37 :: c :: fmt => .conv c :: pieces fmt
  | c :: fmt => .lit c :: pieces fmt

/-- What a format prints from argument word `k` on: its literal characters as they are, and
for each directive the text `text` gives it with its word, a directive that `takes` a word
taking the next one. -/
def render (takes : UInt8 → Bool) (text : UInt8 → UInt32 → List UInt8) (args : Nat → UInt32) :
    List Piece → Nat → List UInt8
  | [], _ => []
  | .lit c :: ps, k => c :: render takes text args ps k
  | .conv c :: ps, k => text c (args k) ++ render takes text args ps (if takes c then k + 1 else k)

/-- A piece that takes an argument word. -/
def TakesWord (takes : UInt8 → Bool) : Piece → Bool
  | .lit _ => false
  | .conv c => takes c

/-- The argument words a format's directives take. -/
def argWords (takes : UInt8 → Bool) (ps : List Piece) : Nat := (ps.filter (TakesWord takes)).length

/-- cprintf's directives that take a word: `%d`, `%x`, `%p` and `%s`. -/
def kernelTakes (c : UInt8) : Bool := c ∈ [100, 120, 112, 115]

/-- printf's: those and `%c`. -/
def userTakes (c : UInt8) : Bool := c ∈ [100, 120, 112, 115, 99]

/-- What a cprintf directive prints with its word `w`: `%d` the int's decimal numeral, `%x` and
`%p` the word's hexadecimal one, `%s` the string at `w` or `"(null)"`, `%%` a `%`, and any other
sequence as it stands. -/
def kernelText (strings : UInt32 → List UInt8) (c : UInt8) (w : UInt32) : List UInt8 :=
  if c = 100 then decimal (toSigned w)
  else if c = 120 ∨ c = 112 then numeral false 16 w.toNat
  else if c = 115 then (if w = 0 then Dev.nullString else strings w)
  else if c = 37 then [37]
  else [37, c]

/-- What a printf directive prints: as cprintf's with upper-case hexadecimal, and `%c` the
word's low byte. -/
def userText (strings : UInt32 → List UInt8) (c : UInt8) (w : UInt32) : List UInt8 :=
  if c = 100 then decimal (toSigned w)
  else if c = 120 ∨ c = 112 then numeral true 16 w.toNat
  else if c = 115 then (if w = 0 then User.nullString else strings w)
  else if c = 99 then [w.toUInt8]
  else if c = 37 then [37]
  else [37, c]

section Formats

variable (args : Nat → UInt32) (strings : UInt32 → List UInt8)

theorem pieces_percent (c : UInt8) (fmt : List UInt8) :
    pieces (37 :: c :: fmt) = .conv c :: pieces fmt := by
  rw [pieces]

theorem pieces_lit {c : UInt8} (other : c ≠ 37) (fmt : List UInt8) :
    pieces (c :: fmt) = .lit c :: pieces fmt := by
  cases fmt with
  | nil => simp [pieces, other]
  | cons d fmt =>
    rw [pieces]
    · exact fun same => absurd same other
    · exact fun _ _ same => absurd same other

@[simp] theorem argWords_nil (takes : UInt8 → Bool) : argWords takes [] = 0 := rfl

@[simp] theorem argWords_lit (takes : UInt8 → Bool) (c : UInt8) (ps : List Piece) :
    argWords takes (.lit c :: ps) = argWords takes ps := by
  simp [argWords, TakesWord]

@[simp] theorem argWords_conv (takes : UInt8 → Bool) (c : UInt8) (ps : List Piece) :
    argWords takes (.conv c :: ps) = (if takes c then 1 else 0) + argWords takes ps := by
  by_cases taken : takes c <;> simp [argWords, TakesWord, taken, Nat.add_comm]

/-- A cprintf directive prints its text from the word at `argp`, and takes that word when it
is one of `%d`, `%x`, `%p` and `%s`. -/
theorem cprintfConv_eq (c : UInt8) (argp : Nat) :
    Dev.cprintfConv args strings c argp =
      (kernelText strings c (args argp), if kernelTakes c then argp + 1 else argp) := by
  unfold Dev.cprintfConv kernelText kernelTakes
  split_ifs <;> simp_all [kernel_printint_decimal, kernel_printint_hex]

/-- A printf directive likewise, `%c` also taking its word. -/
theorem printfConv_eq (c : UInt8) (ap : Nat) :
    User.printfConv args strings c ap =
      (userText strings c (args ap), if userTakes c then ap + 1 else ap) := by
  unfold User.printfConv userText userTakes
  split_ifs <;> simp_all [user_printint_decimal, user_printint_hex]

/-- cprintf's loop prints the rendering of the format's pieces from word `argp`, and moves
`argp` past the words they take. The recursion is the loop's: one character, or a `%` and the
character after it. -/
theorem cprintfLoop_eq : ∀ (fmt : List UInt8) (argp : Nat),
    Dev.cprintfLoop args strings fmt argp =
      (render kernelTakes (kernelText strings) args (pieces fmt) argp,
        argp + argWords kernelTakes (pieces fmt))
  | [], argp => by simp [Dev.cprintfLoop, pieces, render]
  | [c], argp => by
    by_cases percent : c = 37
    · subst percent
      simp [Dev.cprintfLoop, pieces, render]
    · rw [pieces_lit percent, Dev.cprintfLoop, cprintfLoop_eq [] argp]
      · simp [pieces, render]
      · exact fun same => absurd same percent
      · exact fun _ _ same => absurd same percent
  | c :: d :: fmt, argp => by
    by_cases percent : c = 37
    · subst percent
      rw [pieces_percent, Dev.cprintfLoop, cprintfConv_eq]
      by_cases taken : kernelTakes d
      · simp only [taken, if_true, cprintfLoop_eq fmt (argp + 1), render, argWords_conv]
        rw [Nat.add_assoc]
      · simp only [taken, Bool.false_eq_true, if_false, cprintfLoop_eq fmt argp, render,
          argWords_conv, Nat.zero_add]
    · rw [pieces_lit percent, Dev.cprintfLoop, cprintfLoop_eq (d :: fmt) argp]
      · simp [render]
      · exact fun same => absurd same percent
      · exact fun _ _ same => absurd same percent

/-- `"a%x%"` with the word 255: the trailing `%` prints nothing. -/
example : Dev.cprintf (fun _ => 255) (fun _ => []) [97, 37, 120, 37] = ([97, 102, 102], 1) := by
  decide

/-- printf's loop, from state 0, prints the same rendering with its own directives: the state
`'%'` after a `%` is the first half of a directive piece, and a `%` that ends the format leaves
the loop in it with nothing printed. -/
theorem printfLoop_eq : ∀ (fmt : List UInt8) (ap : Nat),
    User.printfLoop args strings fmt false ap =
      (render userTakes (userText strings) args (pieces fmt) ap,
        ap + argWords userTakes (pieces fmt))
  | [], ap => by simp [User.printfLoop, pieces, render]
  | [c], ap => by
    by_cases percent : c = 37
    · subst percent
      simp [User.printfLoop, pieces, render]
    · simp [User.printfLoop, percent, pieces_lit percent, pieces, render]
  | c :: d :: fmt, ap => by
    by_cases percent : c = 37
    · subst percent
      rw [pieces_percent, User.printfLoop, if_pos rfl, User.printfLoop, printfConv_eq]
      by_cases taken : userTakes d
      · simp only [taken, if_true, printfLoop_eq fmt (ap + 1), render, argWords_conv]
        rw [Nat.add_assoc]
      · simp only [taken, Bool.false_eq_true, if_false, printfLoop_eq fmt ap, render,
          argWords_conv, Nat.zero_add]
    · rw [pieces_lit percent, User.printfLoop, if_neg percent, printfLoop_eq (d :: fmt) ap]
      simp [render]

end Formats

/-- Both printints print an int's decimal numeral and a word's hexadecimal one, in at most 11
characters; cprintf and printf print their formats' pieces in order, each directive that takes
a word taking the next one, and read exactly those words. -/
theorem printint_printf_spec (xx : UInt32) (args : Nat → UInt32)
    (strings : UInt32 → List UInt8) (fmt : List UInt8) :
    (Dev.printint xx 10 true = decimal (toSigned xx) ∧
      User.printint xx 10 true = decimal (toSigned xx)) ∧
    (Dev.printint xx 16 false = numeral false 16 xx.toNat ∧
      User.printint xx 16 false = numeral true 16 xx.toNat) ∧
    ((Dev.printint xx 10 true).length ≤ 11 ∧ (User.printint xx 10 true).length ≤ 11 ∧
      (Dev.printint xx 16 false).length ≤ 11 ∧ (User.printint xx 16 false).length ≤ 11) ∧
    Dev.cprintf args strings fmt =
      (render kernelTakes (kernelText strings) args (pieces fmt) 0,
        argWords kernelTakes (pieces fmt)) ∧
    User.printf args strings fmt =
      (render userTakes (userText strings) args (pieces fmt) 0,
        argWords userTakes (pieces fmt)) := by
  refine ⟨⟨kernel_printint_decimal xx, user_printint_decimal xx⟩,
    ⟨kernel_printint_hex xx, user_printint_hex xx⟩, ?_, ?_, ?_⟩
  · have lower := hex_length_le false xx
    have upper := hex_length_le true xx
    rw [kernel_printint_decimal, user_printint_decimal, kernel_printint_hex, user_printint_hex]
    exact ⟨decimal_length_le xx, decimal_length_le xx, by omega, by omega⟩
  · rw [Dev.cprintf, cprintfLoop_eq, Nat.zero_add]
  · rw [User.printf, printfLoop_eq, Nat.zero_add]

end Xv6
