import Xv6.Lib.Digits

/-!
# The user printf

`printint` and `printf` of printf.c, as the bytes they write to the file descriptor, one
`putc` at a time. The arguments are the words after `fmt` on the stack, `args k` the `k`th of
them, and a `%s` word is the address of a string, which `strings` gives up to its NUL, as for
the kernel's cprintf. printf's loop is a state machine: `state` is `'%'` after a `%`, 0 before
anything else.
-/

namespace Xv6.User

open Xv6.Digits

/-- `digits[]` of printf.c's printint, `"0123456789ABCDEF"`. -/
def userDigits : List UInt8 :=
  [48, 49, 50, 51, 52, 53, 54, 55, 56, 57, 65, 66, 67, 68, 69, 70]

/-- `printint(fd, xx, base, sgn)`. `if(sgn && xx < 0){ neg = 1; x = -xx; }` -/
def printint (xx : UInt32) (base : Nat) (sgn : Bool) : List UInt8 :=
  signedDigits userDigits xx base sgn

/-- `"(null)"`. -/
def nullString : List UInt8 := [40, 110, 117, 108, 108, 41]

/-- The character after a `%`, with `ap` at the next argument word: what printf writes, and where
`ap` is after it. Unlike cprintf's, it knows `%c`. The tests are those of `%d`, of `%x` and `%p`, of
`%s`, of `%c`, which writes the word's low byte, and of `%%`; an unknown sequence is printed whole
to draw attention. -/
def printfConv (args : Nat → UInt32) (strings : UInt32 → List UInt8) (c : UInt8) (ap : Nat) :
    List UInt8 × Nat :=
  if c = 100 then (printint (args ap) 10 true, ap + 1)
  else if c = 120 ∨ c = 112 then (printint (args ap) 16 false, ap + 1)
  else if c = 115 then (if args ap = 0 then nullString else strings (args ap), ap + 1)
  else if c = 99 then ([(args ap).toUInt8], ap + 1)
  else if c = 37 then ([37], ap)
  else ([37, c], ap)

/-- printf's loop over the format, in state `'%'` when `percent` is set. -/
def printfLoop (args : Nat → UInt32) (strings : UInt32 → List UInt8) :
    List UInt8 → (percent : Bool) → Nat → List UInt8 × Nat
  | [], _, ap => ([], ap)
  | c :: fmt, false, ap =>
    if c = 37 then printfLoop args strings fmt true ap
    else
      let (out, ap) := printfLoop args strings fmt false ap
      (c :: out, ap)
  | c :: fmt, true, ap =>
    let (piece, ap) := printfConv args strings c ap
    let (out, ap) := printfLoop args strings fmt false ap
    (piece ++ out, ap)

/-- `printf(fd, fmt, ...)`: what it writes, and how many argument words it reads. -/
def printf (args : Nat → UInt32) (strings : UInt32 → List UInt8) (fmt : List UInt8) :
    List UInt8 × Nat :=
  printfLoop args strings fmt false 0

end Xv6.User
