import Xv6.Lib.Run
import Xv6.Kernel.Table

/-!
# Sleep and wakeup

The lock protocol of `sleep`, `wakeup1` and `wakeup` in proc.c, run by the two sides of the
pattern that pipe.c and sleeplock.c follow. A waiter tests a condition under a spin lock `lk`
and calls `sleep(chan, lk)` while it is false; a waker makes the condition true under `lk` and
calls `wakeup(chan)`, before or after it releases `lk`. Any number of waiters and wakers run at
once. Every acquire and every release is a step of its own, and so is each stretch of code
between two of them, so the threads interleave at every point the locks allow; an acquire of a
held lock spins, which leaves the state as it is.

`sleep` takes `ptable.lock` before it releases `lk`, and `wakeup1` runs under `ptable.lock`.
In `sched` the CPU keeps `ptable.lock`: the scheduler then releases it or hands it to the next
process it runs, and the model records this as a change of the lock's holder. When `lk` is
`ptable.lock` itself, as in `wait`, `sleep` skips its acquire and both releases, and a waker
that holds it calls `wakeup1` directly, as `exit` does. The timer's `yield` is left out: it
happens only while a process holds no spin lock, since holding one disables interrupts, and it
changes nothing the protocol reads.
-/

namespace Xv6.Sync

open Xv6.Run
open Xv6.Kernel (ProcState)

/-- The two spin locks of the protocol: the condition's lock and `ptable.lock`. -/
inductive SpinLock
  | lk
  | ptable
  deriving DecidableEq, Repr

/-- The lock that the waiter and the waker call `lk`: `ptable.lock` when `lkIsPtable`. -/
def lkOf (lkIsPtable : Bool) : SpinLock := if lkIsPtable then .ptable else .lk

/-- Who runs the code that holds a lock: a waiter, a waker, or a CPU's scheduler, which holds
`ptable.lock` from a process's `sched` to the next `swtch` or `release`. -/
inductive Thread (ι κ : Type)
  | waiter (i : ι)
  | waker (j : κ)
  | scheduler
  deriving DecidableEq

/-- Where a waiter is in `acquire(lk); while (!cond) sleep(chan, lk); release(lk)` and in the
body of `sleep`. -/
inductive WaiterPc
  /-- Before `acquire(lk)`. -/
  | start
  /-- Holding `lk`, at the test of the condition; `sleep` returns here. -/
  | checking
  /-- In `sleep`, at `acquire(&ptable.lock)`. -/
  | entering
  /-- In `sleep`, holding both locks, at `release(lk)`. -/
  | releasing
  /-- In `sleep`, holding `ptable.lock`, at `p->chan = chan; p->state = SLEEPING; sched()`. -/
  | sleeping
  /-- Switched out in `sched`. -/
  | switched
  /-- Back from `sched` holding `ptable.lock`, at `p->chan = 0` and `release(&ptable.lock)`. -/
  | resumed
  /-- In `sleep`, at `acquire(lk)` again. -/
  | reacquiring
  /-- Out of the loop with the condition true, holding `lk`. -/
  | done
  /-- After the last `release(lk)`. -/
  | finished
  deriving DecidableEq, Repr

/-- Where a waker is in `acquire(lk); cond = 1;` followed by `wakeup(chan); release(lk)` or by
`release(lk); wakeup(chan)`. -/
inductive WakerPc
  /-- Before `acquire(lk)`. -/
  | start
  /-- Holding `lk`, at `cond = 1`. -/
  | locked
  /-- The condition is set; still holding `lk`. -/
  | signalled
  /-- In `wakeup` holding `ptable.lock`, at `wakeup1`; `early` when `lk` is still held. -/
  | waking (early : Bool)
  /-- After `wakeup1`, at `release(&ptable.lock)`. -/
  | woken (early : Bool)
  /-- After an early wakeup, at `release(lk)`. -/
  | unlocking
  /-- After `release(lk)`, at the `acquire(&ptable.lock)` of a late wakeup. -/
  | released
  /-- Finished. -/
  | done
  deriving DecidableEq, Repr

/-- The protocol's state: the holder of each lock, the condition, and for each waiter its place
in the code, its process state and whether its `chan` is the protocol's channel. -/
structure State (ι κ : Type) where
  holder : SpinLock → Option (Thread ι κ)
  cond : Bool
  waiter : ι → WaiterPc
  state : ι → ProcState
  chan : ι → Bool
  waker : κ → WakerPc

/-- A step of one thread. A waker's `early` says which way it goes at `signalled`. -/
inductive Event (ι κ : Type)
  /-- The waiter's next step. -/
  | waiter (i : ι)
  /-- The waker's next step. -/
  | waker (j : κ) (early : Bool)
  /-- The scheduler's `acquire(&ptable.lock)`. -/
  | acquire
  /-- The scheduler's `release(&ptable.lock)`. -/
  | release
  /-- The scheduler switches to a runnable waiter, handing it `ptable.lock`. -/
  | run (i : ι)

variable {ι κ : Type}

/-! ## Which locks a place in the code holds -/

/-- A thread holds `l` when its place holds `lk` (`onLk`) or `ptable.lock` (`onPtable`). -/
def Holding (lkIsPtable onLk onPtable : Bool) (l : SpinLock) : Prop :=
  l = lkOf lkIsPtable ∧ onLk = true ∨ l = .ptable ∧ onPtable = true

namespace WaiterPc

/-- The places that hold `lk`. -/
@[simp]
def holdsLk : WaiterPc → Bool
  | checking | entering | releasing | done => true
  | _ => false

/-- The places that hold `ptable.lock`. -/
@[simp]
def holdsPtable : WaiterPc → Bool
  | releasing | sleeping | resumed => true
  | _ => false

/-- The locks a waiter holds at a place. -/
def Holds (lkIsPtable : Bool) (pc : WaiterPc) (l : SpinLock) : Prop :=
  Holding lkIsPtable pc.holdsLk pc.holdsPtable l

/-- The code of `sleep` that runs only when `lk` is not `ptable.lock`. -/
@[simp]
def skipped : WaiterPc → Bool
  | entering | releasing | reacquiring => true
  | _ => false

/-- Past a test that found the condition false, still holding `lk`. -/
@[simp]
def tested (lkIsPtable : Bool) : WaiterPc → Bool
  | entering | releasing => true
  | sleeping => lkIsPtable
  | _ => false

/-- On the way from a false test to SLEEPING. -/
@[simp]
def committed : WaiterPc → Bool
  | entering | releasing | sleeping => true
  | _ => false

/-- Where `sleep` has returned, or the loop has ended. -/
@[simp]
def returned : WaiterPc → Bool
  | checking | done => true
  | _ => false

end WaiterPc

namespace WakerPc

/-- The places that hold `lk`. -/
@[simp]
def holdsLk : WakerPc → Bool
  | locked | signalled | waking true | woken true | unlocking => true
  | _ => false

/-- The places that hold `ptable.lock`. -/
@[simp]
def holdsPtable : WakerPc → Bool
  | waking _ | woken _ => true
  | _ => false

/-- The locks a waker holds at a place. -/
def Holds (lkIsPtable : Bool) (pc : WakerPc) (l : SpinLock) : Prop :=
  Holding lkIsPtable pc.holdsLk pc.holdsPtable l

/-- The condition has been set. -/
@[simp]
def condSet : WakerPc → Bool
  | start | locked => false
  | _ => true

/-- The waker's `wakeup1` has run. -/
@[simp]
def woke : WakerPc → Bool
  | woken _ | unlocking | done => true
  | _ => false

end WakerPc

/-! ## How a step changes the holders -/

/-- From `before` to `after` only `t` and the scheduler take or release locks. -/
def Moves (t : Thread ι κ) (before after : SpinLock → Option (Thread ι κ)) : Prop :=
  ∀ l other, other ≠ t → other ≠ .scheduler → (after l = some other ↔ before l = some other)

/-- A holder map moves for anyone when it stays. -/
theorem Moves.refl (t : Thread ι κ) (holder : SpinLock → Option (Thread ι κ)) :
    Moves t holder holder :=
  fun _ _ _ _ => Iff.rfl

/-- A lock that passes between the free state, `t` and the scheduler moves only for `t`. -/
theorem moves_update {t : Thread ι κ} {holder : SpinLock → Option (Thread ι κ)} {l : SpinLock}
    {value : Option (Thread ι κ)}
    (old : holder l = none ∨ holder l = some t ∨ holder l = some .scheduler)
    (new : value = none ∨ value = some t ∨ value = some .scheduler) :
    Moves t holder (Function.update holder l value) := by
  intro l' other notMover notScheduler
  by_cases same : l' = l
  · subst same
    rw [Function.update_self]
    rcases old with old | old | old <;> rcases new with new | new | new <;>
      simp [old, new, notMover.symm, notScheduler.symm]
  · rw [Function.update_of_ne same]

/-- After `t` takes `l` it holds `l` and what it held. -/
theorem holds_take {t : Thread ι κ} {holder : SpinLock → Option (Thread ι κ)}
    {held : SpinLock → Prop} (old : ∀ l, holder l = some t ↔ held l) (taken : SpinLock) (l : SpinLock) :
    Function.update holder taken (some t) l = some t ↔ l = taken ∨ held l := by
  by_cases same : l = taken
  · simp [same]
  · simp [old, same]

/-- After `l` passes from `t` to another holder or none, `t` holds what it held but `l`. -/
theorem holds_leave {t : Thread ι κ} {holder : SpinLock → Option (Thread ι κ)}
    {held : SpinLock → Prop} (old : ∀ l, holder l = some t ↔ held l) (left : SpinLock)
    {value : Option (Thread ι κ)} (other : value ≠ some t) (l : SpinLock) :
    Function.update holder left value l = some t ↔ l ≠ left ∧ held l := by
  by_cases same : l = left
  · simp [same, other]
  · simp [old, same]

/-! ## Steps -/

variable [DecidableEq ι] [DecidableEq κ]

namespace State

/-- `l` is now held by `t`. -/
@[simps]
def take (s : State ι κ) (l : SpinLock) (t : Thread ι κ) : State ι κ :=
  { s with holder := Function.update s.holder l (some t) }

/-- `l` is free. -/
@[simps]
def drop (s : State ι κ) (l : SpinLock) : State ι κ :=
  { s with holder := Function.update s.holder l none }

/-- The waiter moves to `pc`. -/
@[simps]
def moveWaiter (s : State ι κ) (i : ι) (pc : WaiterPc) : State ι κ :=
  { s with waiter := Function.update s.waiter i pc }

/-- The waker moves to `pc`. -/
@[simps]
def moveWaker (s : State ι κ) (j : κ) (pc : WakerPc) : State ι κ :=
  { s with waker := Function.update s.waker j pc }

/-- The waiter's process state is now `state`. -/
@[simps]
def setState (s : State ι κ) (i : ι) (state : ProcState) : State ι κ :=
  { s with state := Function.update s.state i state }

/-- The waiter's `chan` is now the protocol's channel, or not. -/
@[simps]
def setChan (s : State ι κ) (i : ι) (onChan : Bool) : State ι κ :=
  { s with chan := Function.update s.chan i onChan }

/-- `wakeup1(chan)`: every waiter sleeping on the channel becomes runnable. -/
@[simps]
def wakeup1 (s : State ι κ) : State ι κ :=
  { s with
    state := fun i => if s.state i = .sleeping ∧ s.chan i = true then .runnable else s.state i }

end State

open State

/-- The next step of a waiter. -/
def waiterStep (lkIsPtable : Bool) (s : State ι κ) (i : ι) : State ι κ :=
  let lock := lkOf lkIsPtable
  match s.waiter i with
  | .start =>
    if s.holder lock = none then (s.take lock (.waiter i)).moveWaiter i .checking else s
  | .checking =>
    if s.cond then s.moveWaiter i .done
    else s.moveWaiter i (if lkIsPtable then .sleeping else .entering)
  | .entering =>
    if s.holder .ptable = none then (s.take .ptable (.waiter i)).moveWaiter i .releasing else s
  | .releasing => (s.drop lock).moveWaiter i .sleeping
  | .sleeping =>
    (((s.setChan i true).setState i .sleeping).take .ptable .scheduler).moveWaiter i .switched
  | .switched => s
  | .resumed =>
    if lkIsPtable then (s.setChan i false).moveWaiter i .checking
    else ((s.setChan i false).drop .ptable).moveWaiter i .reacquiring
  | .reacquiring =>
    if s.holder lock = none then (s.take lock (.waiter i)).moveWaiter i .checking else s
  | .done => (s.drop lock).moveWaiter i .finished
  | .finished => s

/-- The next step of a waker. A waker whose `lk` is `ptable.lock` already holds it, and calls
`wakeup1` itself. -/
def wakerStep (lkIsPtable : Bool) (s : State ι κ) (j : κ) (early : Bool) : State ι κ :=
  let lock := lkOf lkIsPtable
  match s.waker j with
  | .start =>
    if s.holder lock = none then (s.take lock (.waker j)).moveWaker j .locked else s
  | .locked => { s.moveWaker j .signalled with cond := true }
  | .signalled =>
    if early then
      if lkIsPtable then s.moveWaker j (.waking true)
      else if s.holder .ptable = none then
        (s.take .ptable (.waker j)).moveWaker j (.waking true)
      else s
    else (s.drop lock).moveWaker j .released
  | .released =>
    if s.holder .ptable = none then (s.take .ptable (.waker j)).moveWaker j (.waking false)
    else s
  | .waking e => s.wakeup1.moveWaker j (.woken e)
  | .woken e => (s.drop .ptable).moveWaker j (if e && !lkIsPtable then .unlocking else .done)
  | .unlocking => (s.drop lock).moveWaker j .done
  | .done => s

/-- One step of the protocol. -/
def step (lkIsPtable : Bool) (s : State ι κ) : Event ι κ → State ι κ
  | .waiter i => waiterStep lkIsPtable s i
  | .waker j early => wakerStep lkIsPtable s j early
  | .acquire => if s.holder .ptable = none then s.take .ptable .scheduler else s
  | .release => if s.holder .ptable = some .scheduler then s.drop .ptable else s
  | .run i =>
    if s.holder .ptable = some .scheduler ∧ s.state i = .runnable then
      ((s.setState i .running).take .ptable (.waiter i)).moveWaiter i .resumed
    else s

/-- Every lock free, the condition false, every waiter and waker at its start and running. -/
def initial : State ι κ where
  holder _ := none
  cond := false
  waiter _ := .start
  state _ := .running
  chan _ := false
  waker _ := .start

end Xv6.Sync
