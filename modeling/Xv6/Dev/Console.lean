import Xv6.Lib.Ring

/-!
# Console input

console.c's input ring and the two sides that share it under `cons.lock`: `consoleintr`, which
runs at a keyboard or UART interrupt and edits the ring one character at a time, and
`consoleread`, which a process calls through `readi` and which gives up the lock only in
`sleep`. The ring has INPUT_BUF slots and three uint indices: up to `r` the bytes have been read,
up to `w` they have been committed, up to `e` they have been typed. One `consoleintr` call, with
all the characters its `getc` yields, is one step; a `consoleread` runs from its start or a
wakeup to its next `sleep` or its return as one step, and a sleeping call runs again at any later
event of its own. Characters are bytes: `input.buf` is a `char` array, and the code compares
what it reads back only for equality with small positive constants.

The echo through `consputc` and the `procdump` that `^P` asks for touch nothing here.
`sys_read` rejects a negative count in `argptr`, so a count is a `Nat`.
-/

namespace Xv6.Dev

open Xv6.Ring

def INPUT_BUF : Nat := 128

instance : NeZero INPUT_BUF := ⟨by decide⟩

theorem input_buf_dvd : INPUT_BUF ∣ 2 ^ 32 := ⟨2 ^ 25, by decide⟩

/-- A character constant as the byte it is. -/
def byte (c : Char) : UInt8 := c.toNat.toUInt8

/-- `C(x)`, control-x. -/
def C (x : Char) : UInt8 := byte x - byte '@'

/-- The `input` struct. -/
structure Input where
  buf : Fin INPUT_BUF → UInt8
  /-- Read index. -/
  r : UInt32
  /-- Write index. -/
  w : UInt32
  /-- Edit index. -/
  e : UInt32

/-- The kill-line loop of `consoleintr`, run for at most `fuel` rounds. -/
def killLine (input : Input) : Nat → Input
  | 0 => input
  | fuel + 1 =>
    if input.e != input.w && input.buf (slot INPUT_BUF (input.e - 1)) != byte '\n' then
      killLine { input with e := input.e - 1 } fuel
    else input

/-- The switch of `consoleintr`'s loop, for one character `c`. Each round of the kill-line loop
moves `e` one step towards `w` and the loop stops at `w`, so `e - w` rounds are all it can run. -/
def consoleChar (input : Input) (c : UInt8) : Input :=
  if c = C 'P' then input
  else if c = C 'U' then killLine input (span input.w input.e)
  else if c = C 'H' ∨ c = 0x7f then
    if input.e != input.w then { input with e := input.e - 1 } else input
  else if c != 0 && span input.r input.e < INPUT_BUF then
    let c := if c = byte '\r' then byte '\n' else c
    let input := { input with buf := Function.update input.buf (slot INPUT_BUF input.e) c,
                              e := input.e + 1 }
    if c = byte '\n' ∨ c = C 'D' ∨ input.e = input.r + 128 then { input with w := input.e }
    else input
  else input

/-- `consoleintr(getc)`, where `getc` yields the characters `cs` and then -1. -/
def consoleintr (input : Input) (cs : List UInt8) : Input := cs.foldl consoleChar input

/-- How a call's stretch under the lock ends. -/
inductive Outcome
  | sleeps
  | returns (value : Int)
  deriving DecidableEq, Repr

/-- `consoleread`'s outer loop, from a call that wants `n` more of its `target` bytes and has put
`copied` in `dst`: the ring, the bytes in `dst`, and how the stretch ends. A ^D met after some bytes
is left in the ring, so that the next call returns 0. -/
def readLoop (input : Input) (killed : Bool) (target : Nat) :
    Nat → List UInt8 → Input × List UInt8 × Outcome
  | 0, copied => (input, copied, .returns target)
  | n + 1, copied =>
    if input.r = input.w then
      if killed then (input, copied, .returns (-1)) else (input, copied, .sleeps)
    else
      let c := input.buf (slot INPUT_BUF input.r)
      let input := { input with r := input.r + 1 }
      if c = C 'D' then
        let input := if n + 1 < target then { input with r := input.r - 1 } else input
        (input, copied, .returns ((target - (n + 1) : Nat) : Int))
      else if c = byte '\n' then (input, copied ++ [c], .returns ((target - n : Nat) : Int))
      else readLoop input killed target n (copied ++ [c])

/-- Where a process stands in `consoleread`. -/
inductive ReadPc
  | idle
  /-- Asleep on `input.r`, in a call for `target` bytes with `copied` in `dst`. -/
  | reading (target : Nat) (copied : List UInt8)
  deriving DecidableEq, Repr

/-- The ring and the processes that read it. -/
structure Console (ι : Type) where
  input : Input
  pc : ι → ReadPc
  killed : ι → Bool
  /-- What the last `consoleread` of each process returned, and the bytes it left in `dst`. -/
  returned : ι → Option (Int × List UInt8)

inductive ConsoleEvent (ι : Type)
  /-- An interrupt whose `getc` yields these characters. -/
  | intr (cs : List UInt8)
  | read (i : ι) (n : Nat)
  | resume (i : ι)
  | kill (i : ι)

variable {ι : Type} [DecidableEq ι]

/-- Process `i` runs `consoleread` for `target` bytes with `copied` already in `dst`. -/
def readRun (s : Console ι) (i : ι) (target : Nat) (copied : List UInt8) : Console ι :=
  let (input, copied, outcome) :=
    readLoop s.input (s.killed i) target (target - copied.length) copied
  match outcome with
  | .sleeps => { s with input := input, pc := Function.update s.pc i (.reading target copied) }
  | .returns value =>
    { s with input := input, pc := Function.update s.pc i .idle,
             returned := Function.update s.returned i (some (value, copied)) }

/-- One event. A call starts only from a process that is in none. -/
def consoleStep (s : Console ι) : ConsoleEvent ι → Console ι
  | .intr cs => { s with input := consoleintr s.input cs }
  | .read i n => if s.pc i = .idle then readRun s i n [] else s
  | .resume i =>
    match s.pc i with
    | .reading target copied => readRun s i target copied
    | .idle => s
  | .kill i => { s with killed := Function.update s.killed i true }

/-- The zeroed `input` at boot, with no process reading. -/
def consoleBoot : Console ι :=
  { input := { buf := fun _ => 0, r := 0, w := 0, e := 0 }, pc := fun _ => .idle,
    killed := fun _ => false, returned := fun _ => none }

end Xv6.Dev
