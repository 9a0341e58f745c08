import Xv6.Lib.Bytes
import Xv6.User.Ulib

/-!
# wc

`wc` of wc.c, over what its reads return. Each read returns some bytes, 0 at the end of the file
or -1; the list of results running out is the end of the file. wc's counters are ints and are
kept as 32-bit words, which is how they wrap; what it prints with `%d` is their signed value.
-/

namespace Xv6.User

open Xv6.Bytes

/-- The string wc hands to strchr, `" \r\t\n\v"`. -/
def wcSpace : List UInt8 := [32, 13, 9, 10, 11]

/-- What one `read` returns: its bytes, none for 0 at the end of the file, or -1. -/
inductive ReadResult
  | bytes (data : List UInt8)
  | failed
  deriving DecidableEq, Repr

/-- wc's locals `l`, `w`, `c` and `inword`. -/
structure WcState where
  l : UInt32
  w : UInt32
  c : UInt32
  inword : Bool
  deriving DecidableEq, Repr

/-- One turn of the inner loop, on the byte `b`. -/
def wcStep (s : WcState) (b : UInt8) : WcState :=
  let c := s.c + 1
  let l := if b = 10 then s.l + 1 else s.l
  if (strchr wcSpace b).isSome then ⟨l, s.w, c, false⟩
  else if !s.inword then ⟨l, s.w + 1, c, true⟩
  else ⟨l, s.w, c, s.inword⟩

/-- `while((n = read(fd, buf, sizeof(buf))) > 0)`: the state the loop ends in, and whether the
read that ended it returned -1. -/
def wcLoop (s : WcState) : List ReadResult → WcState × Bool
  | [] => (s, false)
  | .failed :: _ => (s, true)
  | .bytes data :: rest => if data = [] then (s, false) else wcLoop (data.foldl wcStep s) rest

/-- `wc(fd, name)`: the three numbers it prints before the name, or its message for a read
that failed. -/
def wc (reads : List ReadResult) : Except String (Int × Int × Int) :=
  match wcLoop ⟨0, 0, 0, false⟩ reads with
  | (_, true) => .error "wc: read error\n"
  | (s, false) => .ok (toSigned s.l, toSigned s.w, toSigned s.c)

end Xv6.User
