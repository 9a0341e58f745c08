import Xv6.Lib.Run

/-!
# pushcli, popcli and the spin locks that use them

`pushcli` and `popcli` of spinlock.c, with `holding`, `acquire` and `release` on top of them,
and `sched` of proc.c, over what they read and write of a CPU: `ncli`, `intena` and the
interrupt flag FL_IF of its eflags. `readeflags() & FL_IF` is the flag, `cli` and `sti` clear
and set it, and `intena`, which pushcli sets to `eflags & FL_IF`, is only tested for being
nonzero. A panic is an error carrying its message.

A lock is seen from the CPU that calls these functions: `lk->locked && lk->cpu == mycpu()` is
whether this CPU holds it. `acquire`'s spin ends once the lock is free, which another CPU's
`release` brings about, so the model takes the acquire as done. In `sched` the process switches
to the scheduler and later back: the scheduler switches to a process while it holds
`ptable.lock` alone, with interrupts off, so `swtch` returns with `ncli` 1 and the flag clear,
and sched then puts back the `intena` it saved.

The systems below run a CPU through the calls one at a time: pushcli and popcli alone, or the
locks it acquires and releases, with the locks it holds. A panic stops the CPU, and the events
after it change nothing.
-/

namespace Xv6.Sync

open Xv6.Run

/-- What pushcli and popcli keep of a CPU: the nesting depth `ncli`, whether interrupts were
enabled before the outermost pushcli, and FL_IF. -/
structure Cpu where
  ncli : Int
  intena : Bool
  interruptible : Bool
  deriving DecidableEq, Repr

/-- `pushcli()`: interrupts off, and the flag as it was kept in `intena` at depth 0. -/
def pushcli (c : Cpu) : Cpu :=
  let eflags := c.interruptible
  let c := { c with interruptible := false }
  let c := if c.ncli = 0 then { c with intena := eflags } else c
  { c with ncli := c.ncli + 1 }

/-- `popcli()`: one level out, with interrupts back on when it leaves the outermost level and
they were on before it. -/
def popcli (c : Cpu) : Except String Cpu :=
  if c.interruptible then .error "popcli - interruptible"
  else
    let c := { c with ncli := c.ncli - 1 }
    if c.ncli < 0 then .error "popcli"
    else if c.ncli = 0 ∧ c.intena then .ok { c with interruptible := true }
    else .ok c

/-- `holding(lock)`, where `mine` is `lock->locked && lock->cpu == mycpu()`. -/
def holding (c : Cpu) (mine : Bool) : Except String (Cpu × Bool) :=
  match popcli (pushcli c) with
  | .error message => .error message
  | .ok c => .ok (c, mine)

/-- `acquire(lk)`, up to the end of its spin. -/
def acquire (c : Cpu) (mine : Bool) : Except String Cpu :=
  match holding (pushcli c) mine with
  | .error message => .error message
  | .ok (_, true) => .error "acquire"
  | .ok (c, false) => .ok c

/-- `release(lk)`. -/
def release (c : Cpu) (mine : Bool) : Except String Cpu :=
  match holding c mine with
  | .error message => .error message
  | .ok (_, false) => .error "release"
  | .ok (c, true) => popcli c

/-- `sched()`, where `holdsPtable` is whether this CPU holds `ptable.lock` and `running` whether the
process is still RUNNING. The `swtch` there and back is the scheduler returning here with
ptable.lock alone held. -/
def sched (c : Cpu) (holdsPtable running : Bool) : Except String Cpu :=
  match holding c holdsPtable with
  | .error message => .error message
  | .ok (_, false) => .error "sched ptable.lock"
  | .ok (c, true) =>
    if c.ncli ≠ 1 then .error "sched locks"
    else if running then .error "sched running"
    else if c.interruptible then .error "sched interruptible"
    else
      let intena := c.intena
      let c := { c with ncli := 1, interruptible := false }
      .ok { c with intena := intena }

/-- A CPU, and the panic that stopped it. -/
structure CliState where
  cpu : Cpu
  panicked : Option String

/-- The CPU after a call that returns `result`: its new state, or stopped by a panic. -/
def CliState.after (s : CliState) (result : Except String Cpu) : CliState :=
  match result with
  | .error message => { s with panicked := some message }
  | .ok c => { s with cpu := c }

/-- The two calls. -/
inductive CliOp
  | pushcli
  | popcli
  deriving DecidableEq, Repr

/-- A CPU through pushcli and popcli. -/
def cliStep (s : CliState) (op : CliOp) : CliState :=
  if s.panicked.isSome then s
  else
    match op with
    | .pushcli => s.after (.ok (pushcli s.cpu))
    | .popcli => s.after (popcli s.cpu)

/-- A CPU and the locks it holds, most recent first; `ptable` is `ptable.lock`. -/
structure Locks (ℓ : Type) where
  cpu : Cpu
  held : List ℓ
  panicked : Option String

/-- The calls on locks: `sched` carries whether the process is still RUNNING. -/
inductive LockOp (ℓ : Type)
  | acquire (lk : ℓ)
  | release (lk : ℓ)
  | holding (lk : ℓ)
  | sched (running : Bool)
  deriving DecidableEq, Repr

variable {ℓ : Type} [DecidableEq ℓ]

/-- The CPU after a call on a lock that returns `result`, holding `held` when it returns. -/
def Locks.after (s : Locks ℓ) (result : Except String Cpu) (held : List ℓ) : Locks ℓ :=
  match result with
  | .error message => { s with panicked := some message }
  | .ok c => { s with cpu := c, held := held }

/-- A CPU through the calls on its locks. -/
def lockStep (ptable : ℓ) (s : Locks ℓ) (op : LockOp ℓ) : Locks ℓ :=
  if s.panicked.isSome then s
  else
    match op with
    | .acquire lk => s.after (acquire s.cpu (lk ∈ s.held)) (lk :: s.held)
    | .release lk => s.after (release s.cpu (lk ∈ s.held)) (s.held.erase lk)
    | .holding lk => s.after ((holding s.cpu (lk ∈ s.held)).map Prod.fst) s.held
    | .sched running => s.after (sched s.cpu (ptable ∈ s.held) running) s.held

end Xv6.Sync
