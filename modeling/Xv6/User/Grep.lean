import Xv6.User.Ulib

/-!
# grep

`match`, `matchhere`, `matchstar` and `grep` of grep.c. The matcher is Kernighan and Pike's, from
The Practice of Programming (the source's own reference). A C string is read from a list of
bytes up to its first 0; inside the matcher the end of a list is the NUL. `matchstar(c, re,
text)` uses `re` only to call `matchhere(re, ·)`, so it takes that call as a function: matchhere
recurses on the pattern and matchstar on the text, and match ends on every input.

grep keeps `buf[0..m)` of its 1024-byte buffer, asks each read for the 1023 - m bytes left but
one, and writes every line it finds there that matches, newline included. How many bytes a read
returns is the reader's choice, at least one while the stream lasts and at most what was asked
(`readAmount`). `memmove(buf, p, m)` moves the bytes after the last newline to the front; the
destination is below the source, where the user memmove copies correctly (`Verif.Memmove`).
-/

namespace Xv6.User

/-- `'.'`, which matches any character. -/
def DOT : UInt8 := 46

/-- `'\n'`. -/
def NEWLINE : UInt8 := 10

/-- `matchstar(c, re, text)`: `c*re` at the beginning of `text`, with `here` for
`matchhere(re, ·)`. -/
def matchstar (c : UInt8) (here : List UInt8 → Bool) : List UInt8 → Bool
  | [] => here []
  | x :: text => here (x :: text) || ((x == c || c == DOT) && matchstar c here text)

/-- `matchhere(re, text)`: `re` at the beginning of `text`. The patterns are the source's tests
in its order: the end of the pattern, a `'*'` after the first character, a `'$'` that ends the
pattern, and one character. -/
def matchhere : List UInt8 → List UInt8 → Bool
  | [], _ => true
  | c :: 42 :: re, text => matchstar c (matchhere re) text
  | [36], text => text.isEmpty
  | _ :: _, [] => false
  | c :: re, x :: text => (c == DOT || c == x) && matchhere re text

/-- match's loop, `do{ if(matchhere(re, text)) return 1; }while(*text++ != '\0')`: every start
from here to the NUL, the empty rest included. -/
def matchLoop (re : List UInt8) : List UInt8 → Bool
  | [] => matchhere re []
  | x :: text => matchhere re (x :: text) || matchLoop re text

/-- `match(re, text)`: `re` anywhere in `text`, or at its start for a pattern that begins with
`'^'`, the byte 94. -/
def «match» (re text : List UInt8) : Bool :=
  let re := re.takeWhile (· != 0)
  let text := text.takeWhile (· != 0)
  if re.headD 0 = 94 then matchhere re.tail text else matchLoop re text

/-- The lines in the buffer from `p`, `while((q = strchr(p, '\n')) != 0)`: what grep writes for
them, and how far `p` moves, to just past the last newline. -/
def grepLines (pattern : List UInt8) : (fuel : Nat) → List UInt8 → List UInt8 × Nat
  | 0, _ => ([], 0)
  | fuel + 1, p =>
    match strchr p NEWLINE with
    | none => ([], 0)
    | some q =>
      let line := p.take q
      let (out, moved) := grepLines pattern fuel (p.drop (q + 1))
      ((if «match» pattern line then line ++ [NEWLINE] else []) ++ out, q + 1 + moved)

/-- How many bytes a read asking for `request` returns with `stream` left: the reader's choice
`sizes.headD request`, at least one, cut to the request and to the stream; 0 when nothing is
asked or nothing is left. -/
def readAmount (request : Nat) (stream : List UInt8) (sizes : List Nat) : Nat :=
  min (max 1 (sizes.headD request)) (min request stream.length)

/-- grep's loop, `while((n = read(fd, buf+m, sizeof(buf)-m-1)) > 0)`, from the bytes `buf` kept in
the buffer; `fuel` bounds the reads, and each read takes at least one byte. The bytes after `p` move
to the front of the buffer, or none stay when `p == buf`. -/
def grepLoop (pattern : List UInt8) :
    (fuel : Nat) → (buf stream : List UInt8) → (sizes : List Nat) → List UInt8
  | 0, _, _, _ => []
  | fuel + 1, buf, stream, sizes =>
    let n := readAmount (1024 - buf.length - 1) stream sizes
    if n = 0 then []
    else
      let buf := buf ++ stream.take n
      let (out, p) := grepLines pattern (buf.length + 1) buf
      let buf := if p = 0 then [] else buf.drop p
      out ++ grepLoop pattern fuel buf (stream.drop n) sizes.tail

/-- `grep(pattern, fd)` on a stream read in pieces of the sizes the reader picks: the bytes it
writes. -/
def grep (pattern stream : List UInt8) (sizes : List Nat) : List UInt8 :=
  grepLoop pattern (stream.length + 1) [] stream sizes

end Xv6.User
