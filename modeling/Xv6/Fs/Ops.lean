import Xv6.Fs.Log
import Xv6.Lib.Run

/-!
# FS system calls bracketed by begin_op and end_op

Any number of FS system calls, indexed by `ι`, share the in-memory log. Each call runs
`begin_op()`, some `log_write()`s, and `end_op()`; the last call to end commits, and while it
commits the others wait. One event is one critical section under `log.lock`:

* `begin i`: one test of `begin_op`'s loop. The call is admitted or goes to sleep on the log; a
  sleeping call tests again at any later event of its own, which covers every `wakeup(&log)`.
* `write i b`: `log_write` of block `b`. A call writes at most MAXOPBLOCKS distinct blocks, as
  every FS system call of xv6 is written to; a write past that bound is not an event of the
  model. The distinct blocks a call has written are kept as its place.
* `finish i`: `end_op`'s critical section; the last call sets the committing flag.
* `commitDone i`: `commit()` of the committing call returns, and the flag is cleared.

A panic (`log_write`'s or `end_op`'s) stops the system.
-/

namespace Xv6.Fs

open Xv6.Run

/-- Where an FS system call stands. -/
inductive OpPc
  /-- Outside a `begin_op`/`end_op` bracket. -/
  | idle
  /-- In `begin_op`, asleep on the log. -/
  | waiting
  /-- Admitted, with the distinct blocks it has passed to `log_write`. -/
  | active (written : List Nat)
  /-- The call whose `end_op` runs `commit()`. -/
  | committing
  deriving DecidableEq, Repr

namespace OpPc

/-- Counted in `log.outstanding`. -/
def isActive : OpPc → Bool
  | .active _ => true
  | _ => false

/-- The log blocks a call may still add: what is left of its MAXOPBLOCKS. -/
def remaining : OpPc → Nat
  | .active written => MAXOPBLOCKS - written.length
  | _ => 0

@[simp] theorem isActive_active (written : List Nat) : (active written).isActive = true := rfl

@[simp] theorem remaining_active (written : List Nat) :
    (active written).remaining = MAXOPBLOCKS - written.length := rfl

/-- A call that is not counted may add no blocks. -/
theorem remaining_of_not_active {pc : OpPc} (idle : pc.isActive = false) : pc.remaining = 0 := by
  cases pc <;> simp_all [isActive, remaining]

end OpPc

/-- The log and the calls. -/
structure FsState (ι : Type) where
  log : Log
  op : ι → OpPc
  panicked : Option String

/-- The events of the calls. -/
inductive FsEvent (ι : Type)
  | begin (i : ι)
  | write (i : ι) (blockno : Nat)
  | finish (i : ι)
  | commitDone (i : ι)

variable {ι : Type} [DecidableEq ι]

/-- The state with call `i` at a new place. -/
def FsState.move (s : FsState ι) (i : ι) (pc : OpPc) : FsState ι :=
  { s with op := Function.update s.op i pc }

@[simp] theorem FsState.move_log (s : FsState ι) (i : ι) (pc : OpPc) : (s.move i pc).log = s.log :=
  rfl

@[simp] theorem FsState.move_op (s : FsState ι) (i : ι) (pc : OpPc) :
    (s.move i pc).op = Function.update s.op i pc := rfl

@[simp] theorem FsState.move_panicked (s : FsState ι) (i : ι) (pc : OpPc) :
    (s.move i pc).panicked = s.panicked := rfl

/-- One test of `begin_op`'s loop by call `i`. -/
def beginStep (s : FsState ι) (i : ι) : FsState ι :=
  match s.op i with
  | .idle | .waiting =>
    match beginOp s.log with
    | some log => { s with log := log }.move i (.active [])
    | none => s.move i .waiting
  | _ => s

/-- `log_write` of block `b` by call `i`, within its MAXOPBLOCKS distinct blocks. -/
def writeStep (s : FsState ι) (i : ι) (b : Nat) : FsState ι :=
  match s.op i with
  | .active written =>
    if b ∈ written ∨ written.length < MAXOPBLOCKS then
      match logWrite s.log b with
      | .error message => { s with panicked := some message }
      | .ok log => { s with log := log }.move i (.active (if b ∈ written then written else b :: written))
    else s
  | _ => s

/-- `end_op` of call `i`: it ends, or it is the last and goes on to commit. -/
def finishStep (s : FsState ι) (i : ι) : FsState ι :=
  match s.op i with
  | .active _ =>
    match endOp s.log with
    | .error message => { s with panicked := some message }
    | .ok (log, true) => { s with log := log }.move i .committing
    | .ok (log, false) => { s with log := log }.move i .idle
  | _ => s

/-- `commit()` of the committing call returns: the header is emptied and the flag cleared. The
log after `commit()` does not depend on the cached blocks. -/
def commitDoneStep (s : FsState ι) (i : ι) : FsState ι :=
  match s.op i with
  | .committing => { s with log := endCommit (commit s.log emptyCache).2 }.move i .idle
  | _ => s

/-- One event; after a panic nothing happens. -/
def fsStep (s : FsState ι) (event : FsEvent ι) : FsState ι :=
  if s.panicked.isSome then s
  else
    match event with
    | .begin i => beginStep s i
    | .write i b => writeStep s i b
    | .finish i => finishStep s i
    | .commitDone i => commitDoneStep s i

/-- The calls start idle on the log that `initlog` leaves. -/
def fsInit (log : Log) : FsState ι := { log := log, op := fun _ => .idle, panicked := none }

end Xv6.Fs
