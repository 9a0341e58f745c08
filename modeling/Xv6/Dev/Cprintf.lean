import Xv6.Lib.Digits

/-!
# Console output

`printint` and `cprintf` of console.c, as the characters they hand to `consputc`. cprintf's
arguments are the words on the stack after `fmt`, `args k` the `k`th of them; a `%s` word is
the address of a string, which `strings` gives up to its NUL. A format is a C string, the list
of its bytes before the NUL. The lock cprintf takes around its loop does not change what it
prints, and its panic on a null format is left out with the null format.
-/

namespace Xv6.Dev

open Xv6.Digits

/-- `digits[]` of console.c's printint, `"0123456789abcdef"`. -/
def kernelDigits : List UInt8 :=
  [48, 49, 50, 51, 52, 53, 54, 55, 56, 57, 97, 98, 99, 100, 101, 102]

/-- `printint(xx, base, sign)`. `if(sign && (sign = xx < 0)) x = -xx;` -/
def printint (xx : UInt32) (base : Nat) (sign : Bool) : List UInt8 :=
  signedDigits kernelDigits xx base sign

/-- `"(null)"`, printed for a null `%s` argument. -/
def nullString : List UInt8 := [40, 110, 117, 108, 108, 41]

/-- One `%` directive of cprintf, with `argp` at the next argument word: what it prints, and where
`argp` is after it. The tests are those of `%d`, of `%x` and `%p`, of `%s` and of `%%`; an unknown
sequence is printed whole to draw attention. -/
def cprintfConv (args : Nat → UInt32) (strings : UInt32 → List UInt8) (c : UInt8)
    (argp : Nat) : List UInt8 × Nat :=
  if c = 100 then (printint (args argp) 10 true, argp + 1)
  else if c = 120 ∨ c = 112 then (printint (args argp) 16 false, argp + 1)
  else if c = 115 then (if args argp = 0 then nullString else strings (args argp), argp + 1)
  else if c = 37 then ([37], argp)
  else ([37, c], argp)

/-- cprintf's loop over the format from `argp`: a `%` before the NUL ends it. -/
def cprintfLoop (args : Nat → UInt32) (strings : UInt32 → List UInt8) :
    List UInt8 → Nat → List UInt8 × Nat
  | [], argp => ([], argp)
  | [37], argp => ([], argp)
  | 37 :: c :: fmt, argp =>
    let (piece, argp) := cprintfConv args strings c argp
    let (out, argp) := cprintfLoop args strings fmt argp
    (piece ++ out, argp)
  | c :: fmt, argp =>
    let (out, argp) := cprintfLoop args strings fmt argp
    (c :: out, argp)

/-- `cprintf(fmt, ...)`: what it prints, and how many argument words it reads. -/
def cprintf (args : Nat → UInt32) (strings : UInt32 → List UInt8) (fmt : List UInt8) :
    List UInt8 × Nat :=
  cprintfLoop args strings fmt 0

end Xv6.Dev
