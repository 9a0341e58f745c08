import Xv6.Verif.Kill

/-!
# Reused slots

`allocproc` claims the first UNUSED slot and resets its handlers and pending signals, and
`fork` copies the parent's mask and handlers into it; every other field of the slot's last
process stays. `wait` clears `killed` when it frees a zombie, so in every reachable table no
UNUSED slot has its kill flag set, and a child never starts killed. Nothing clears `freeze`
but `SIGCONT_handler`: a process frozen by SIGSTOP that exits before it is descheduled leaves
the flag in its slot, and the next child there starts frozen, so the scheduler skips it.
-/

namespace Xv6.Kernel

open Xv6.Bytes Xv6.Run Machine

/-- No UNUSED slot has its kill flag set. -/
def UnusedUnkilled (k : Machine) : Prop :=
  ∀ slot, (k.proc slot).state = .unused → (k.proc slot).killed = false

namespace UnusedUnkilled

variable {k : Machine}

/-- Writing a process that is not UNUSED with its kill flag set keeps the table clean. -/
theorem setProc (clean : UnusedUnkilled k) (slot : Nat) {p : Proc}
    (fresh : p.state = .unused → p.killed = false) : UnusedUnkilled (k.setProc slot p) := by
  intro other unused
  rw [proc_setProc] at unused ⊢
  by_cases written : other = slot ∧ slot < k.procs.length
  · rw [if_pos written] at unused ⊢
    exact fresh unused
  · rw [if_neg written] at unused ⊢
    exact clean other unused

/-- Writing a process that is not UNUSED keeps the table clean. -/
theorem setProc_used (clean : UnusedUnkilled k) (slot : Nat) {p : Proc}
    (used : p.state ≠ .unused) : UnusedUnkilled (k.setProc slot p) :=
  clean.setProc slot fun unused => absurd unused used

/-- A change of a slot that keeps its state and kill flag keeps the table clean. -/
theorem update (clean : UnusedUnkilled k) (slot : Nat) {p : Proc}
    (state : p.state = (k.proc slot).state) (killed : p.killed = (k.proc slot).killed) :
    UnusedUnkilled (k.setProc slot p) :=
  clean.setProc slot fun unused => killed.trans (clean slot (state ▸ unused))

/-- A change that leaves the table as it is keeps it clean. -/
theorem of_procs (clean : UnusedUnkilled k) {k' : Machine} (same : k'.procs = k.procs) :
    UnusedUnkilled k' := by
  intro slot
  rw [proc, same]
  exact clean slot

/-- `wakeup1` makes sleepers runnable and touches no UNUSED slot. -/
theorem wakeup1 (clean : UnusedUnkilled k) (chan : Chan) :
    UnusedUnkilled (Kernel.wakeup1 k chan) := by
  intro slot
  rw [proc_wakeup1]
  split
  · exact nofun
  · exact clean slot

end UnusedUnkilled

section Functions

variable {k : Machine} {cur : Nat}

theorem unusedUnkilled_reparent (clean : UnusedUnkilled k) (exiting slot : Nat) :
    UnusedUnkilled (reparent exiting k slot) := by
  unfold reparent
  dsimp only
  split
  · have moved : UnusedUnkilled (k.setProc slot { k.proc slot with parent := some k.initproc }) :=
      clean.update slot rfl rfl
    split
    · exact moved.wakeup1 _
    · exact moved
  · exact clean

theorem unusedUnkilled_handOver (clean : UnusedUnkilled k) (exiting : Nat) (slots : List Nat) :
    UnusedUnkilled (slots.foldl (reparent exiting) k) := by
  induction slots generalizing k with
  | nil => exact clean
  | cons slot slots ih => exact ih (unusedUnkilled_reparent clean exiting slot)

/-- `exit` leaves a zombie, never an UNUSED slot. -/
theorem unusedUnkilled_exit (clean : UnusedUnkilled k) : UnusedUnkilled (exit k cur) := by
  unfold exit
  split
  · exact clean.of_procs rfl
  · exact (unusedUnkilled_handOver (clean.wakeup1 _) cur _).setProc_used cur nofun

/-- `wait` frees a zombie with its kill flag cleared. -/
theorem unusedUnkilled_reap (clean : UnusedUnkilled k) (slot : Nat) :
    UnusedUnkilled (reap k slot) :=
  clean.setProc slot fun _ => rfl

theorem unusedUnkilled_finish (clean : UnusedUnkilled k) (value : Int) :
    UnusedUnkilled (finish k cur value) :=
  clean.update cur rfl rfl

theorem unusedUnkilled_sleep (clean : UnusedUnkilled k) (chan : Chan) (loop : Loop) :
    UnusedUnkilled (sleep k cur chan loop) :=
  clean.setProc_used cur nofun

theorem unusedUnkilled_waitLoop (clean : UnusedUnkilled k) : UnusedUnkilled (waitLoop k cur) := by
  unfold waitLoop
  split
  · exact unusedUnkilled_finish (unusedUnkilled_reap clean _) _
  · exact unusedUnkilled_finish clean _
  · exact unusedUnkilled_sleep clean _ _

theorem unusedUnkilled_ticksLoop (clean : UnusedUnkilled k) (ticks0 n : UInt32) :
    UnusedUnkilled (ticksLoop k cur ticks0 n) := by
  unfold ticksLoop
  split
  · split
    · exact unusedUnkilled_finish clean _
    · exact unusedUnkilled_sleep clean _ _
  · exact unusedUnkilled_finish clean _

/-- `kill` sets a pending bit and may wake its target; neither touches the kill flag. -/
theorem unusedUnkilled_kill (clean : UnusedUnkilled k) (pid signum : Int) :
    UnusedUnkilled (kill k pid signum).1 := by
  unfold kill
  by_cases range : signum < 0 ∨ signum > 31
  · rw [if_pos range]
    exact clean
  · rw [if_neg range]
    cases k.procs.findIdx? (·.pid = pid) with
    | none => exact clean
    | some slot =>
      dsimp only
      apply clean.setProc slot
      by_cases wake : (k.proc slot).state = .sleeping ∧ signum = sigkill
      · rw [if_pos wake]
        exact nofun
      · rw [if_neg wake]
        exact clean slot

/-- The slot `allocproc` claims keeps its kill flag; a failed claim leaves it UNUSED. -/
theorem unusedUnkilled_allocproc (clean : UnusedUnkilled k) (alloc : Alloc) :
    UnusedUnkilled (allocproc k alloc).1 := by
  unfold allocproc
  cases found : k.procs.findIdx? (·.state = .unused) with
  | none => exact clean
  | some slot =>
    have unused : (k.proc slot).state = .unused := by
      simpa using proc_of_findIdx_eq_some found
    have counted : UnusedUnkilled { k with nextpid := k.nextpid + 1 } := clean.of_procs rfl
    dsimp only
    by_cases failed : alloc = .noKstack
    · rw [if_pos failed]
      exact counted.setProc slot fun _ => clean slot unused
    · rw [if_neg failed]
      exact counted.setProc_used slot nofun

/-- A successful `allocproc` claims the first UNUSED slot and resets its handlers and pending
signals. -/
theorem allocproc_of_found {slot : Nat} (found : k.procs.findIdx? (·.state = .unused) = some slot)
    (alloc : Alloc) (allocated : alloc ≠ .noKstack) :
    allocproc k alloc = ({ k with nextpid := k.nextpid + 1 }.setProc slot
      { k.proc slot with
        state := .embryo
        pid := pidOf k.nextpid
        context := .forkret
        signalHandlers := fun _ => sigDfl
        pendingSignals := 0 }, some slot) := by
  simp only [allocproc, found, allocated, if_false]

/-- The child of a `fork` that fails gets its UNUSED slot back with the flag it had. The claim
changes the slot's state, pid, context, handlers and pending signals only. -/
theorem unusedUnkilled_fork (clean : UnusedUnkilled k) (forker : Nat) (alloc : Alloc) :
    UnusedUnkilled (fork k forker alloc).1 := by
  have allocated : UnusedUnkilled (allocproc k alloc).1 := unusedUnkilled_allocproc clean alloc
  unfold fork
  split
  · rename_i k' claimed
    rwa [claimed] at allocated
  · rename_i k' slot claimed
    rw [claimed] at allocated
    have unused : (k.proc slot).state = .unused := allocproc_unused claimed
    have flag : (k'.proc slot).killed = false := by
      obtain ⟨found, allocated⟩ := allocproc_claimed claimed
      have inside : slot < k.procs.length := (List.findIdx?_eq_some_iff_getElem.mp found).1
      rw [allocproc_of_found found alloc allocated] at claimed
      cases claimed
      simpa [inside] using clean slot unused
    dsimp only
    split
    · exact allocated.setProc slot fun _ => flag
    · exact allocated.setProc_used slot nofun

/-- `sigaction` changes the caller's handlers, mask and memory only. -/
theorem sigaction_state_killed (p : Proc) (signum : Fin 32) (act oldact : UInt32) :
    (sigaction p signum act oldact).1.state = p.state ∧
      (sigaction p signum act oldact).1.killed = p.killed := by
  unfold sigaction
  split <;> exact ⟨rfl, rfl⟩

/-- Every system call keeps the table clean, except a stray `sigaction`, whose store may set
the kill flag of an UNUSED slot. -/
theorem unusedUnkilled_syscall (clean : UnusedUnkilled k) (alloc : Alloc) (result : UInt32) :
    UnusedUnkilled (syscall k cur alloc result) ∨ (syscall k cur alloc result).strayed = true := by
  unfold syscall
  dsimp only
  split
  · exact .inl (unusedUnkilled_finish clean _)
  · exact .inl (unusedUnkilled_finish (unusedUnkilled_fork clean cur alloc) _)
  · exact .inl (unusedUnkilled_exit clean)
  · exact .inl (unusedUnkilled_waitLoop clean)
  · split
    · exact .inl (unusedUnkilled_finish (unusedUnkilled_kill clean _ _) _)
    · exact .inl (unusedUnkilled_finish clean _)
  · exact .inl (unusedUnkilled_finish clean _)
  · split
    · exact .inl (unusedUnkilled_ticksLoop clean _ _)
    · exact .inl (unusedUnkilled_finish clean _)
  · split
    · exact .inl (unusedUnkilled_finish (clean.update cur (by rfl) (by rfl)) _)
    · exact .inl (unusedUnkilled_finish clean _)
  · split
    · split
      · exact .inl (unusedUnkilled_finish (clean.update cur
          (by exact (sigaction_state_killed _ _ _ _).1)
          (by exact (sigaction_state_killed _ _ _ _).2)) _)
      · exact .inr (straySigaction_strayed _ _ _)
    · exact .inl (unusedUnkilled_finish clean _)
  · exact .inl (unusedUnkilled_finish (clean.update cur (by rfl) (by rfl)) _)
  · exact .inl (unusedUnkilled_finish clean _)

/-- A trap of a running process keeps the table clean unless it strays: the fault that sets the
kill flag sets it on the running process. -/
theorem unusedUnkilled_trap (clean : UnusedUnkilled k) (kind : TrapKind) :
    UnusedUnkilled (trap k cur kind) ∨ (trap k cur kind).strayed = true := by
  unfold trap
  dsimp only
  split
  · exact .inl clean
  · rename_i user
    have running : (k.proc cur).state = .running := by
      by_contra other
      exact user (.inl other)
    have entered : ∀ trapno, UnusedUnkilled
        (k.setProc cur { k.proc cur with tf := (k.proc cur).tf.entry trapno }) :=
      fun _ => clean.update cur rfl rfl
    cases kind with
    | syscall alloc result =>
      dsimp only
      split
      · exact .inl (unusedUnkilled_exit (entered _))
      · exact unusedUnkilled_syscall (entered _) alloc result
    | timer =>
      dsimp only
      have ticked := ((entered tIrqTimer).of_procs rfl).wakeup1 .ticks
      split
      · exact .inl (unusedUnkilled_exit ticked)
      · exact .inl (ticked.setProc_used cur nofun)
    | device trapno =>
      dsimp only
      split
      · exact .inl (unusedUnkilled_exit (entered _))
      · exact .inl ((entered _).update cur rfl rfl)
    | fault trapno =>
      exact .inl (unusedUnkilled_exit (clean.setProc_used cur (by simp [running])))

/-- The next part of a kernel path keeps the table clean; the runner's kill flag goes to the
running process. -/
theorem unusedUnkilled_resume (clean : UnusedUnkilled k) : UnusedUnkilled (resume k cur) := by
  unfold resume
  dsimp only
  split
  · exact clean
  · rename_i running
    have running : (k.proc cur).state = .running := by
      by_contra other
      exact running other
    split
    · split
      · exact unusedUnkilled_exit clean
      · exact clean.update cur rfl rfl
    · split
      · exact unusedUnkilled_exit clean
      · exact clean.update cur rfl rfl
    · exact clean.setProc_used cur (by simp [sigHandlerRunner_unmoved.state, running])
    · exact clean.update cur rfl rfl
    · have cleared : UnusedUnkilled (k.setProc cur { k.proc cur with chan := .none }) :=
        clean.update cur rfl rfl
      split
      · exact unusedUnkilled_waitLoop cleared
      · exact unusedUnkilled_ticksLoop cleared _ _
    · exact clean
    · exact clean

theorem unusedUnkilled_userRun (clean : UnusedUnkilled k) (regs : Trapframe) (memory : Memory) :
    UnusedUnkilled (userRun k cur regs memory) := by
  unfold userRun
  dsimp only
  split
  · exact clean.update cur rfl rfl
  · exact clean

theorem unusedUnkilled_scheduleSlot (clean : UnusedUnkilled k) :
    UnusedUnkilled (scheduleSlot k cur) := by
  unfold scheduleSlot
  dsimp only
  split
  · exact clean
  · split
    · split
      · exact clean.of_procs rfl
      · exact clean
    · exact clean.setProc_used cur nofun

/-- Every event keeps the table clean, unless it strays. -/
theorem unusedUnkilled_step (clean : UnusedUnkilled k) (event : Event) :
    UnusedUnkilled (step k event) ∨ (step k event).strayed = true := by
  unfold step
  split
  · exact .inl clean
  · cases event with
    | schedule slot => exact .inl (unusedUnkilled_scheduleSlot clean)
    | user slot regs memory => exact .inl (unusedUnkilled_userRun clean regs memory)
    | trap slot kind => exact unusedUnkilled_trap clean kind
    | resume slot => exact .inl (unusedUnkilled_resume clean)

end Functions

/-- The booted table holds init and zeroed slots. -/
theorem unusedUnkilled_boot (sigcontAddress : UInt32) (initcode : Memory) :
    UnusedUnkilled (boot sigcontAddress initcode) := by
  intro slot
  cases slot with
  | zero => exact nofun
  | succ slot =>
    intro _
    simp [boot, proc, List.getD_eq_getElem?_getD, List.getElem?_replicate]
    split <;> rfl

/-- In every table reached with no stray store, no UNUSED slot has its kill flag set. -/
theorem unusedUnkilled_reachable {sigcontAddress : UInt32} {initcode : Memory} {k : Machine}
    (reached : Reachable step (boot sigcontAddress initcode) k) (tame : k.strayed = false) :
    UnusedUnkilled k := by
  have kept : ∀ k event, UnusedUnkilled k →
      UnusedUnkilled (step k event) ∨ (step k event).strayed = true :=
    fun _ event clean => unusedUnkilled_step clean event
  exact reachable_of_tame kept (unusedUnkilled_boot sigcontAddress initcode) reached tame

/-! ## The child of a fork -/

/-- The child of a successful `fork` is the slot's last process with a new pid, the parent's
mask, handlers, size, memory and frame, no pending signal, and runnable. -/
theorem fork_child {k : Machine} {cur slot : Nat}
    (found : k.procs.findIdx? (·.state = .unused) = some slot) (apart : cur ≠ slot) :
    (fork k cur .ok).1.proc slot =
      { k.proc slot with
        sz := (k.proc cur).sz
        state := .runnable
        pid := pidOf k.nextpid
        parent := some cur
        tf := { (k.proc cur).tf with eax := 0 }
        context := .forkret
        pendingSignals := 0
        signalMask := (k.proc cur).signalMask
        signalHandlers := (k.proc cur).signalHandlers
        memory := (k.proc cur).memory } := by
  have inside : slot < k.procs.length := (List.findIdx?_eq_some_iff_getElem.mp found).1
  have counted : ∀ s, ({ k with nextpid := k.nextpid + 1 } : Machine).proc s = k.proc s :=
    fun _ => rfl
  unfold fork
  rw [allocproc_of_found found .ok nofun]
  simp [inside, apart, counted]

/-- A successful `fork` leaves the forking process's slot as it was. -/
theorem fork_parent {k : Machine} {cur slot : Nat}
    (found : k.procs.findIdx? (·.state = .unused) = some slot) (apart : cur ≠ slot) :
    (fork k cur .ok).1.proc cur = k.proc cur := by
  have counted : ∀ s, ({ k with nextpid := k.nextpid + 1 } : Machine).proc s = k.proc s :=
    fun _ => rfl
  unfold fork
  rw [allocproc_of_found found .ok nofun]
  simp [apart, counted]

section Scenario

/-- init's `kill(2, SIGSTOP)`; then pid 2's `getpid`, at whose trapret the runner freezes it;
then pid 2's `exit` before it is descheduled; then init's `wait`, which frees slot 1. -/
def reapedMachine : Machine :=
  syscallRun (syscallRun (syscallRun (syscallRun forkedMachine 0 6 2024) 1 11 1000) 1 2 1000)
    0 3 1000

theorem reapedMachine_reachable : Reachable step (boot 0 scenarioMemory) reapedMachine := by
  have stopped :=
    reachable_syscallRun (reachable_syscallRun forkedMachine_reachable 0 6 2024) 1 11 1000
  exact reachable_syscallRun (reachable_syscallRun stopped 1 2 1000) 0 3 1000

/-- init's next `fork`, which puts pid 3 in slot 1. -/
def reusedMachine : Machine := syscallRun reapedMachine 0 1 1000

end Scenario

end Xv6.Kernel
