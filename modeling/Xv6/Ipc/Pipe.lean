import Xv6.Lib.Ring

/-!
# Pipes

pipe.c's `struct pipe` and its calls. A pipe is a ring of PIPESIZE bytes with the uint counters
`nread` and `nwrite`. Both calls run under `p->lock` and give it up only in `sleep`, so a call
runs from its start or a wakeup to its next `sleep` or its return as one step. Any number of
processes call `pipewrite` and `piperead` at once; a sleeping call runs again at any later event
of its own, which covers every `wakeup` and lets the loops test again. `kill` sets the flag the
loops test, and `pipeclose` clears `readopen` or `writeopen` at any time. The ghost fields
`stored` and `delivered` record, in order, each byte `pipewrite` puts in the ring and each byte
`piperead` hands out.

`sys_write` and `sys_read` reject a negative count in `argptr`, so a count is a `Nat`, and the
user buffer of `pipewrite` is the list of its bytes. The `kfree` of a pipe whose two ends are
closed is not modelled: no call runs on it after that.
-/

namespace Xv6.Ipc

open Xv6.Ring

def PIPESIZE : Nat := 512

instance : NeZero PIPESIZE := ⟨by decide⟩

/-- The ring's counters wrap at 2^32 without moving its slots. -/
theorem pipesize_dvd : PIPESIZE ∣ 2 ^ 32 := ⟨2 ^ 23, by decide⟩

/-- `struct pipe` without its lock. -/
structure Pipe where
  data : Fin PIPESIZE → UInt8
  nread : UInt32
  nwrite : UInt32
  readopen : Bool
  writeopen : Bool

namespace Pipe

/-- The test of `pipewrite`'s inner loop. -/
def full (p : Pipe) : Bool := p.nwrite == p.nread + 512

/-- `p->data[p->nwrite++ % PIPESIZE] = b`. -/
def put (p : Pipe) (b : UInt8) : Pipe :=
  { p with data := Function.update p.data (slot PIPESIZE p.nwrite) b, nwrite := p.nwrite + 1 }

/-- The byte `p->data[p->nread % PIPESIZE]`. -/
def first (p : Pipe) : UInt8 := p.data (slot PIPESIZE p.nread)

/-- `p->nread++`. -/
def advance (p : Pipe) : Pipe := { p with nread := p.nread + 1 }

/-- The bytes in the ring, oldest first. -/
def contents (p : Pipe) : List UInt8 := view p.data p.nread (span p.nread p.nwrite)

end Pipe

/-- `pipewrite`'s loop over the bytes it has left, while the ring has room: the pipe after it
and how many bytes it stored. -/
def store (p : Pipe) : List UInt8 → Pipe × Nat
  | [] => (p, 0)
  | b :: rest =>
    if p.full then (p, 0)
    else
      let (q, count) := store (p.put b) rest
      (q, count + 1)

/-- `piperead`'s copy loop: up to `n` bytes while the ring is not empty, and the bytes. -/
def fetch (p : Pipe) : Nat → Pipe × List UInt8
  | 0 => (p, [])
  | n + 1 =>
    if p.nread == p.nwrite then (p, [])
    else
      let (q, rest) := fetch p.advance n
      (q, p.first :: rest)

/-- How a call's stretch under the lock ends. -/
inductive Outcome
  | sleeps
  | returns (value : Int)
  deriving DecidableEq, Repr

/-- `pipewrite` of the bytes `pending` of a call, from its start or a wakeup: the pipe, how
many bytes it stored, and how the stretch ends. -/
def pipewrite (p : Pipe) (killed : Bool) (total : Nat) (pending : List UInt8) :
    Pipe × Nat × Outcome :=
  let (q, count) := store p pending
  if count = pending.length then (q, count, .returns total)
  else if !q.readopen || killed then (q, count, .returns (-1))
  else (q, count, .sleeps)

/-- `piperead` of up to `n` bytes, from its start or a wakeup: the pipe, the bytes it copied
out, and how the stretch ends. -/
def piperead (p : Pipe) (killed : Bool) (n : Nat) : Pipe × List UInt8 × Outcome :=
  if p.nread == p.nwrite && p.writeopen then
    if killed then (p, [], .returns (-1)) else (p, [], .sleeps)
  else
    let (q, bytes) := fetch p n
    (q, bytes, .returns bytes.length)

/-- `pipeclose(p, writable)`. -/
def pipeclose (p : Pipe) (writable : Bool) : Pipe :=
  if writable then { p with writeopen := false } else { p with readopen := false }

/-- The pipe that `pipealloc` sets up in a fresh page. -/
def pipealloc (page : Fin PIPESIZE → UInt8) : Pipe :=
  { data := page, nread := 0, nwrite := 0, readopen := true, writeopen := true }

/-- Where a process stands in its pipe call. -/
inductive PipePc
  | idle
  /-- In `pipewrite`, asleep on `nwrite`, at byte `i` of `addr`. -/
  | writing (addr : List UInt8) (i : Nat)
  /-- In `piperead` of up to `n` bytes, asleep on `nread`. -/
  | reading (n : Nat)
  deriving DecidableEq, Repr

/-- One pipe and the processes that call it. -/
structure PipeSys (ι : Type) where
  pipe : Pipe
  pc : ι → PipePc
  killed : ι → Bool
  /-- What the last call of each process returned. -/
  returned : ι → Option Int
  stored : List UInt8
  delivered : List UInt8

inductive PipeEvent (ι : Type)
  | write (i : ι) (addr : List UInt8)
  | read (i : ι) (n : Nat)
  | resume (i : ι)
  | close (writable : Bool)
  | kill (i : ι)

variable {ι : Type} [DecidableEq ι]

/-- The place a call goes to when its stretch ends, and what it returned if it did. -/
def PipeSys.finish (s : PipeSys ι) (i : ι) (pc : PipePc) : Outcome → PipeSys ι
  | .sleeps => { s with pc := Function.update s.pc i pc }
  | .returns value =>
    { s with pc := Function.update s.pc i .idle,
             returned := Function.update s.returned i (some value) }

/-- Process `i` runs `pipewrite` of `addr` from byte `pos`. -/
def writeRun (s : PipeSys ι) (i : ι) (addr : List UInt8) (pos : Nat) : PipeSys ι :=
  let pending := addr.drop pos
  let (q, count, outcome) := pipewrite s.pipe (s.killed i) addr.length pending
  { s with pipe := q, stored := s.stored ++ pending.take count }.finish i
    (.writing addr (pos + count)) outcome

/-- Process `i` runs `piperead` of up to `n` bytes. -/
def readRun (s : PipeSys ι) (i : ι) (n : Nat) : PipeSys ι :=
  let (q, bytes, outcome) := piperead s.pipe (s.killed i) n
  { s with pipe := q, delivered := s.delivered ++ bytes }.finish i (.reading n) outcome

/-- One event. A call starts only from a process that is in none. -/
def pipeStep (s : PipeSys ι) : PipeEvent ι → PipeSys ι
  | .write i addr => if s.pc i = .idle then writeRun s i addr 0 else s
  | .read i n => if s.pc i = .idle then readRun s i n else s
  | .resume i =>
    match s.pc i with
    | .writing addr pos => writeRun s i addr pos
    | .reading n => readRun s i n
    | .idle => s
  | .close writable => { s with pipe := pipeclose s.pipe writable }
  | .kill i => { s with killed := Function.update s.killed i true }

/-- A fresh pipe, with no process in a call. -/
def pipeInit (page : Fin PIPESIZE → UInt8) : PipeSys ι :=
  { pipe := pipealloc page, pc := fun _ => .idle, killed := fun _ => false,
    returned := fun _ => none, stored := [], delivered := [] }

end Xv6.Ipc
