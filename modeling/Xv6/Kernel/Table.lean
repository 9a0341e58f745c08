import Xv6.Kernel.Sigaction

/-!
# The process table

`ptable` and the globals of proc.c and trap.c that the process code uses, and the functions
that work on the whole table: `wakeup1`, `allocproc`, `fork`, `exit`, one scan of `wait`,
`kill` and one visit of the scheduler's loop. Each runs under `ptable.lock` and is one
atomic step of the model. A slot is named by its index; a slot beyond the table reads as an
unused one and writes to it are dropped.

`nextpid` is kept as the count it reaches without overflow; the C int holds that count modulo
2^32, read signed, and that is the pid `allocproc` hands out (`pidOf`), so after 2^32 pids the
numbers come round again. `strayed` is ghost state: it records that a `sigaction` has stored
outside `signal_handlers`, into a word of this table or beyond it.

Two behaviours of the source are kept as they are. `kill` matches the pid of every slot, also
of unused ones. The scheduler's freeze check calls `SIGCONT_handler`, which writes through
`myproc()`; while the scheduler runs, the CPU's process is null, so the write faults in the
kernel and `trap` panics.
-/

namespace Xv6.Kernel

/-- The state the process code shares. -/
structure Machine where
  /-- `ptable.proc`; the source has `NPROC` slots. -/
  procs : List Proc
  /-- `nextpid` without its overflow: one more than the number of pids handed out. -/
  nextpid : Int
  /-- The slot of `initproc`. -/
  initproc : Nat
  /-- trap.c's tick counter. -/
  ticks : UInt32
  /-- The address of `SIGCONT_handler` in the kernel image, which the scheduler compares
  handlers with. -/
  sigcontAddress : UInt32
  /-- The message of the panic that stopped the kernel, if any. -/
  panicked : Option String
  /-- Ghost: a `sigaction` has stored through `signal_handlers` with a signal number outside
  [0, 31]. -/
  strayed : Bool

/-- The value of the C int `nextpid` once the count has reached `n`: `n` modulo 2^32, read as a
signed number. -/
def pidOf (n : Int) : Int := (Int32.ofInt n).toInt

/-- Below 2^31 the C int is the count itself. -/
theorem pidOf_of_lt {n : Int} (low : -2 ^ 31 ≤ n) (high : n < 2 ^ 31) : pidOf n = n := by
  unfold pidOf
  rw [Int32.toInt_ofInt]
  apply Int.bmod_eq_of_le <;> simp only [Int32.size] <;> omega

namespace Machine

/-- The process in a slot. -/
def proc (k : Machine) (slot : Nat) : Proc := k.procs.getD slot Proc.empty

/-- Replace the process in a slot. -/
def setProc (k : Machine) (slot : Nat) (p : Proc) : Machine :=
  { k with procs := k.procs.set slot p }

/-- Stop the kernel with a panic message. -/
def panic (k : Machine) (message : String) : Machine := { k with panicked := some message }

@[simp] theorem proc_setProc_self (k : Machine) {slot : Nat} (p : Proc)
    (inside : slot < k.procs.length) : (k.setProc slot p).proc slot = p := by
  simp [proc, setProc, List.getD_eq_getElem?_getD, inside]

@[simp] theorem proc_setProc_other (k : Machine) {slot other : Nat} (p : Proc)
    (apart : other ≠ slot) : (k.setProc slot p).proc other = k.proc other := by
  simp [proc, setProc, List.getD_eq_getElem?_getD, List.getElem?_set_ne apart.symm]

/-- A write reaches the slot it names if the table has that slot. -/
theorem proc_setProc (k : Machine) (slot : Nat) (p : Proc) (other : Nat) :
    (k.setProc slot p).proc other =
      if other = slot ∧ slot < k.procs.length then p else k.proc other := by
  split
  · rename_i reached
    rw [reached.1]
    exact proc_setProc_self k p reached.2
  · rename_i missed
    by_cases same : other = slot
    · subst same
      have outside : k.procs.length ≤ other := Nat.le_of_not_lt fun inside => missed ⟨rfl, inside⟩
      have unchanged : (k.procs.set other p).length ≤ other := by simpa using outside
      simp [proc, setProc, List.getD_eq_getElem?_getD, List.getElem?_eq_none outside,
        List.getElem?_eq_none unchanged]
    · exact proc_setProc_other k p same

/-- A second write to a slot replaces the first. -/
@[simp] theorem setProc_setProc (k : Machine) (slot : Nat) (p q : Proc) :
    (k.setProc slot p).setProc slot q = k.setProc slot q := by
  simp [setProc]

@[simp] theorem setProc_length (k : Machine) (slot : Nat) (p : Proc) :
    (k.setProc slot p).procs.length = k.procs.length := by
  simp [setProc]

@[simp] theorem setProc_initproc (k : Machine) (slot : Nat) (p : Proc) :
    (k.setProc slot p).initproc = k.initproc := rfl

@[simp] theorem setProc_nextpid (k : Machine) (slot : Nat) (p : Proc) :
    (k.setProc slot p).nextpid = k.nextpid := rfl

@[simp] theorem setProc_ticks (k : Machine) (slot : Nat) (p : Proc) :
    (k.setProc slot p).ticks = k.ticks := rfl

@[simp] theorem setProc_panicked (k : Machine) (slot : Nat) (p : Proc) :
    (k.setProc slot p).panicked = k.panicked := rfl

@[simp] theorem setProc_sigcontAddress (k : Machine) (slot : Nat) (p : Proc) :
    (k.setProc slot p).sigcontAddress = k.sigcontAddress := rfl

@[simp] theorem setProc_strayed (k : Machine) (slot : Nat) (p : Proc) :
    (k.setProc slot p).strayed = k.strayed := rfl

/-- A slot beyond the table reads as an empty one. -/
theorem proc_of_le (k : Machine) {slot : Nat} (outside : k.procs.length ≤ slot) :
    k.proc slot = Proc.empty := by
  simp [proc, List.getD_eq_getElem?_getD, List.getElem?_eq_none outside]

/-- The slot a search of the table returns holds a process that passes the test. -/
theorem proc_of_findIdx_eq_some {k : Machine} {test : Proc → Bool} {slot : Nat}
    (found : k.procs.findIdx? test = some slot) : test (k.proc slot) = true := by
  obtain ⟨inside, passes, -⟩ := List.findIdx?_eq_some_iff_getElem.mp found
  simpa [proc, List.getD_eq_getElem?_getD, inside] using passes

@[simp] theorem proc_withTicks (k : Machine) (ticks : UInt32) (slot : Nat) :
    ({ k with ticks := ticks } : Machine).proc slot = k.proc slot := rfl

@[simp] theorem panic_proc (k : Machine) (message : String) (slot : Nat) :
    (k.panic message).proc slot = k.proc slot := rfl

@[simp] theorem panic_length (k : Machine) (message : String) :
    (k.panic message).procs.length = k.procs.length := rfl

@[simp] theorem panic_strayed (k : Machine) (message : String) :
    (k.panic message).strayed = k.strayed := rfl

@[simp] theorem panic_nextpid (k : Machine) (message : String) :
    (k.panic message).nextpid = k.nextpid := rfl

end Machine

open Machine

/-- `wakeup1`: every process sleeping on the channel becomes runnable. -/
def wakeup1 (k : Machine) (chan : Chan) : Machine :=
  { k with procs := k.procs.map fun p =>
      if p.state = .sleeping ∧ p.chan = chan then { p with state := .runnable } else p }

/-- `wakeup1` makes a process in a slot runnable exactly when it sleeps on the channel. -/
theorem proc_wakeup1 (k : Machine) (chan : Chan) (slot : Nat) :
    (wakeup1 k chan).proc slot =
      if (k.proc slot).state = .sleeping ∧ (k.proc slot).chan = chan then
        { k.proc slot with state := .runnable }
      else k.proc slot := by
  unfold wakeup1 proc
  simp only [List.getD_eq_getElem?_getD, List.getElem?_map]
  cases k.procs[slot]? <;> simp [Proc.empty]

@[simp] theorem wakeup1_length (k : Machine) (chan : Chan) :
    (wakeup1 k chan).procs.length = k.procs.length := by
  simp [wakeup1]

@[simp] theorem wakeup1_initproc (k : Machine) (chan : Chan) :
    (wakeup1 k chan).initproc = k.initproc := rfl

@[simp] theorem wakeup1_panicked (k : Machine) (chan : Chan) :
    (wakeup1 k chan).panicked = k.panicked := rfl

@[simp] theorem wakeup1_strayed (k : Machine) (chan : Chan) :
    (wakeup1 k chan).strayed = k.strayed := rfl

@[simp] theorem wakeup1_nextpid (k : Machine) (chan : Chan) :
    (wakeup1 k chan).nextpid = k.nextpid := rfl

/-- How the page allocations of a `fork` turn out. -/
inductive Alloc
  /-- Both the kernel stack and the copy of the address space are allocated. -/
  | ok
  /-- `kalloc` finds no page for the kernel stack. -/
  | noKstack
  /-- `copyuvm` runs out of memory. -/
  | noMemory
  deriving DecidableEq, Repr

/-- `allocproc`: claim the first unused slot and give it the pid the C int `nextpid` holds;
with a kernel stack, start it at forkret with default handlers and no pending signal. Without
one the slot goes back to unused but keeps its new pid. -/
def allocproc (k : Machine) (alloc : Alloc) : Machine × Option Nat :=
  match k.procs.findIdx? (·.state = .unused) with
  | none => (k, none)
  | some slot =>
    let p := { k.proc slot with state := .embryo, pid := pidOf k.nextpid }
    let k := { k with nextpid := k.nextpid + 1 }
    if alloc = .noKstack then (k.setProc slot { p with state := .unused }, none)
    else
      (k.setProc slot { p with
        context := .forkret
        signalHandlers := fun _ => sigDfl
        pendingSignals := 0 }, some slot)

/-- `fork` by the process in slot `cur`: the child copies the mask and handlers, then the
size, memory and trap frame with eax cleared, and becomes runnable; if the copy of the
address space fails the child's slot goes back to unused. -/
def fork (k : Machine) (cur : Nat) (alloc : Alloc) : Machine × Int :=
  match allocproc k alloc with
  | (k, none) => (k, -1)
  | (k, some slot) =>
    let parent := k.proc cur
    let child := { k.proc slot with
      signalMask := parent.signalMask
      signalHandlers := parent.signalHandlers }
    if alloc = .noMemory then (k.setProc slot { child with state := .unused }, -1)
    else
      (k.setProc slot { child with
        sz := parent.sz
        memory := parent.memory
        parent := some cur
        tf := { parent.tf with eax := 0 }
        state := .runnable }, child.pid)

/-- The channel of a parent pointer: the parent's slot, or null. -/
def parentChan : Option Nat → Chan
  | some slot => .proc slot
  | none => .none

/-- One turn of exit's loop: a child of `cur` passes to init, which is woken if the child is a
zombie. -/
def reparent (cur : Nat) (k : Machine) (slot : Nat) : Machine :=
  let p := k.proc slot
  if p.parent = some cur then
    let k := k.setProc slot { p with parent := some k.initproc }
    if p.state = .zombie then wakeup1 k (.proc k.initproc) else k
  else k

/-- `exit` by the process in slot `cur`: init may not exit; any other process wakes its
parent, passes its children to init, and becomes a zombie that never runs again. Closing
files and releasing the current directory are left out. -/
def exit (k : Machine) (cur : Nat) : Machine :=
  if cur = k.initproc then k.panic "init exiting"
  else
    let k := wakeup1 k (parentChan (k.proc cur).parent)
    let k := (List.range k.procs.length).foldl (reparent cur) k
    k.setProc cur { k.proc cur with state := .zombie, context := .exited }

/-- What one scan of `wait`'s loop decides. -/
inductive WaitScan
  /-- A zombie child in this slot is reaped. -/
  | reap (slot : Nat)
  /-- No child at all, or the caller was killed: return -1. -/
  | fail
  /-- Children, none of them a zombie: sleep on the caller. -/
  | sleep
  deriving DecidableEq, Repr

/-- The decision of one scan of `wait`'s loop for the process in slot `cur`: the first zombie
child in table order, else failure or sleep. -/
def waitScan (k : Machine) (cur : Nat) : WaitScan :=
  let slots := List.range k.procs.length
  match slots.find? fun slot =>
      (k.proc slot).parent = some cur ∧ (k.proc slot).state = .zombie with
  | some slot => .reap slot
  | none =>
    if (slots.any fun slot => (k.proc slot).parent = some cur) ∧ ¬ (k.proc cur).killed then .sleep
    else .fail

/-- Free a reaped child's slot as `wait` does. -/
def reap (k : Machine) (slot : Nat) : Machine :=
  k.setProc slot { k.proc slot with pid := 0, parent := none, killed := false, state := .unused }

/-- `sleep(chan, ...)` for the process in slot `cur`, inside a killable loop. -/
def sleep (k : Machine) (cur : Nat) (chan : Chan) (loop : Loop) : Machine :=
  k.setProc cur { k.proc cur with chan := chan, state := .sleeping, context := .asleep loop }

/-- `kill`: for a signal number in range, set the signal's bit in the first slot with the pid,
whatever its state, and make a sleeping target of SIGKILL runnable. -/
def kill (k : Machine) (pid signum : Int) : Machine × Int :=
  if signum < 0 ∨ signum > 31 then (k, -1)
  else
    match k.procs.findIdx? (·.pid = pid) with
    | none => (k, -1)
    | some slot =>
      let p := k.proc slot
      let p := { p with pendingSignals := p.pendingSignals ||| sigBit signum.toNat }
      let p := if p.state = .sleeping ∧ signum = sigkill then { p with state := .runnable } else p
      (k.setProc slot p, 0)

/-- The freeze check of the scheduler finds a reason to continue the process: SIGCONT pending
with the default handler, or another pending signal whose handler is `SIGCONT_handler`. -/
def continueRequested (k : Machine) (p : Proc) : Prop :=
  (p.Pending sigcont ∧ p.signalHandlers ⟨sigcont, by decide⟩ = sigDfl) ∨
    ∃ i : Fin 32, i.val ≠ sigkill ∧ i.val ≠ sigstop ∧ p.Pending i ∧
      p.signalHandlers i = k.sigcontAddress

instance (k : Machine) (p : Proc) : Decidable (continueRequested k p) :=
  inferInstanceAs (Decidable (_ ∨ _))

/-- One visit of the scheduler's loop to a slot: a runnable process that is not frozen starts
running where its context left it. For a frozen one, a request to continue calls
`SIGCONT_handler` with no current process, which faults and panics the kernel; otherwise the
process is skipped. -/
def scheduleSlot (k : Machine) (slot : Nat) : Machine :=
  let p := k.proc slot
  if p.state ≠ .runnable then k
  else if p.freeze then
    if continueRequested k p then k.panic "trap" else k
  else k.setProc slot { p with state := .running }

/-! ## The ghost flag and the pid counter

Only the stray `sigaction` of the kernel step sets `strayed`, and only `allocproc` moves
`nextpid`, up by one; every other function of the table keeps both as they are. -/

section Strayed

variable {k : Machine} {cur : Nat}

@[simp] theorem reparent_strayed (slot : Nat) : (reparent cur k slot).strayed = k.strayed := by
  unfold reparent
  dsimp only
  split
  · split <;> rfl
  · rfl

theorem foldl_reparent_strayed (slots : List Nat) :
    (slots.foldl (reparent cur) k).strayed = k.strayed := by
  induction slots generalizing k with
  | nil => rfl
  | cons slot slots ih => rw [List.foldl_cons, ih, reparent_strayed]

@[simp] theorem exit_strayed : (exit k cur).strayed = k.strayed := by
  unfold exit
  split
  · rfl
  · simp [foldl_reparent_strayed]

@[simp] theorem allocproc_strayed (alloc : Alloc) : (allocproc k alloc).1.strayed = k.strayed := by
  unfold allocproc
  split
  · rfl
  · split <;> rfl

@[simp] theorem fork_strayed (alloc : Alloc) : (fork k cur alloc).1.strayed = k.strayed := by
  have kept := allocproc_strayed (k := k) alloc
  unfold fork
  split
  · rename_i _ _ allocated
    simpa [allocated] using kept
  · rename_i _ _ _ allocated
    rw [allocated] at kept
    split <;> simpa using kept

@[simp] theorem reap_strayed (slot : Nat) : (reap k slot).strayed = k.strayed := rfl

@[simp] theorem reap_nextpid (slot : Nat) : (reap k slot).nextpid = k.nextpid := rfl

@[simp] theorem sleep_strayed (chan : Chan) (loop : Loop) :
    (sleep k cur chan loop).strayed = k.strayed := rfl

@[simp] theorem sleep_nextpid (chan : Chan) (loop : Loop) :
    (sleep k cur chan loop).nextpid = k.nextpid := rfl

@[simp] theorem kill_strayed (pid signum : Int) : (kill k pid signum).1.strayed = k.strayed := by
  unfold kill
  split
  · rfl
  · split <;> rfl

@[simp] theorem scheduleSlot_strayed (slot : Nat) : (scheduleSlot k slot).strayed = k.strayed := by
  unfold scheduleSlot
  dsimp only
  split
  · rfl
  · split
    · split <;> rfl
    · rfl

@[simp] theorem reparent_nextpid (slot : Nat) : (reparent cur k slot).nextpid = k.nextpid := by
  unfold reparent
  dsimp only
  split
  · split <;> rfl
  · rfl

theorem foldl_reparent_nextpid (slots : List Nat) :
    (slots.foldl (reparent cur) k).nextpid = k.nextpid := by
  induction slots generalizing k with
  | nil => rfl
  | cons slot slots ih => rw [List.foldl_cons, ih, reparent_nextpid]

@[simp] theorem exit_nextpid : (exit k cur).nextpid = k.nextpid := by
  unfold exit
  split
  · rfl
  · simp [foldl_reparent_nextpid]

theorem allocproc_nextpid_le (alloc : Alloc) : k.nextpid ≤ (allocproc k alloc).1.nextpid := by
  unfold allocproc
  split
  · exact Int.le_refl _
  · split <;> exact Int.le_add_of_nonneg_right Int.one_nonneg

theorem fork_nextpid_le (alloc : Alloc) : k.nextpid ≤ (fork k cur alloc).1.nextpid := by
  have grown := allocproc_nextpid_le (k := k) alloc
  unfold fork
  split
  · rename_i _ _ allocated
    simpa [allocated] using grown
  · rename_i _ _ _ allocated
    rw [allocated] at grown
    split <;> simpa using grown

@[simp] theorem kill_nextpid (pid signum : Int) : (kill k pid signum).1.nextpid = k.nextpid := by
  unfold kill
  split
  · rfl
  · split <;> rfl

@[simp] theorem scheduleSlot_nextpid (slot : Nat) : (scheduleSlot k slot).nextpid = k.nextpid := by
  unfold scheduleSlot
  dsimp only
  split
  · rfl
  · split
    · split <;> rfl
    · rfl

end Strayed

end Xv6.Kernel
