import Xv6.Kernel.Table
import Xv6.Mem.Kalloc

/-!
# Traps, system calls and the scheduler

The kernel as one step function. A user program runs until it traps; `trap` checks the
kill flag and runs the system call or the interrupt handler; a system call either returns,
leaving the process at trap's final check, or sleeps in a killable loop, or exits; a timer
tick makes the process yield. Each later part of a kernel path is a `resume` event of the
running process: trap's last killed check, trapret with `sig_handler_runner` and the return to
user mode, or the re-test of the loop a sleeper was woken in. The scheduler visits one slot at
a time. Any number of processes may run at once, one per processor, so events of different
processes interleave freely.

User code is any change of the user registers that keeps the user code segment, and any change
of the bytes of the process's own pages, below `PGROUNDUP(sz)`: every other address is unmapped
or the kernel's, and the page table gives it no `PTE_U`. The system calls of the file system, pipes and memory are not described here and return the
value the trap event carries. A `sigaction` whose signal number lies outside [0, 31] stores
outside `signal_handlers`, into whatever word of the table the index reaches; the model makes
the store where it holds that word and records in `strayed` that such a store happened.
-/

namespace Xv6.Kernel

open Xv6.Bytes Machine

/-- What a process in user mode traps with. -/
inductive TrapKind
  /-- `int $T_SYSCALL`: `alloc` is how a fork's allocations turn out and `result` is what a
  system call outside this model returns. -/
  | syscall (alloc : Alloc) (result : UInt32)
  /-- The timer interrupt. -/
  | timer
  /-- Another device interrupt: disk, keyboard, serial line or a spurious one. -/
  | device (trapno : UInt32)
  /-- Any other vector: the process misbehaved. -/
  | fault (trapno : UInt32)

/-- The events of the kernel. -/
inductive Event
  /-- The scheduler of some processor visits a slot. -/
  | schedule (slot : Nat)
  /-- The process runs user code, which leaves these registers and this memory. -/
  | user (slot : Nat) (regs : Trapframe) (memory : Memory)
  /-- The process, running user code, traps into the kernel. -/
  | trap (slot : Nat) (kind : TrapKind)
  /-- The process continues its kernel path where it stands. -/
  | resume (slot : Nat)

/-- The slot an event belongs to. -/
def Event.slot : Event → Nat
  | .schedule slot | .user slot _ _ | .trap slot _ | .resume slot => slot

/-- A system call returns `value`: it goes to eax and the process stands at trap's final
check. -/
def finish (k : Machine) (cur : Nat) (value : Int) : Machine :=
  let p := k.proc cur
  k.setProc cur { p with tf := { p.tf with eax := UInt32.ofInt value }, context := .syscallDone }

/-- One test of `sys_sleep`'s loop, with the unsigned comparison of the source. -/
def ticksLoop (k : Machine) (cur : Nat) (ticks0 n : UInt32) : Machine :=
  if k.ticks - ticks0 < n then
    if (k.proc cur).killed then finish k cur (-1)
    else sleep k cur .ticks (.ticks ticks0 n)
  else finish k cur 0

/-- One pass of `wait`'s loop. -/
def waitLoop (k : Machine) (cur : Nat) : Machine :=
  match waitScan k cur with
  | .reap slot => finish (reap k slot) cur (k.proc slot).pid
  | .fail => finish k cur (-1)
  | .sleep => sleep k cur (.proc cur) .wait

/-- The signed value of a word argument, as the C ints of the system calls read it. -/
def signed (word : UInt32) : Int := word.toInt32.toInt

/-- `sigaction` with a signal number outside [0, 31], which the source does not refuse: the old
value of the word `signal_handlers[signum]` names goes to `*oldact`, the handler read from
`*act` is stored into that word, of this slot or of another, the mask is replaced, and the call
returns 0. A word the model does not hold (a pointer, an open file, the name, the state, or
kernel memory outside the table) is neither read nor written. -/
def straySigaction (k : Machine) (cur : Nat) (signum : Int) (act oldact : UInt32) : Machine :=
  let k := { k with strayed := true }
  match tableWord (handlerIndex cur signum) with
  | none => finish k cur 0
  | some (slot, word) =>
    let p := k.proc cur
    let written := if oldact ≠ 0 then
        ((k.proc slot).readWord word).map fun old =>
          p.memory.write oldact (sigactionBytes old p.signalMask)
      else some p.memory
    match written with
    | none => finish k cur 0
    | some memory =>
      let k := k.setProc cur { p with memory := memory }
      let k := k.setProc slot ((k.proc slot).writeWord word (memory.read32 act))
      finish (k.setProc cur { k.proc cur with signalMask := memory.read32 (act + 4) }) cur 0

/-- `syscall()` with the system call bodies of proc.c and sysproc.c, for the process in slot
`cur`. A signal number inside the handler array goes to `sigaction`, which refuses SIGKILL and
SIGSTOP; any other one to `straySigaction`. -/
def syscall (k : Machine) (cur : Nat) (alloc : Alloc) (result : UInt32) : Machine :=
  let p := k.proc cur
  match syscallOf p.tf.eax with
  | none => finish k cur (-1)
  | some .fork =>
    let (k, pid) := fork k cur alloc
    finish k cur pid
  | some .exit => exit k cur
  | some .wait => waitLoop k cur
  | some .kill =>
    match argint p 0, argint p 1 with
    | some pid, some signum =>
      let (k, value) := kill k (signed pid) (signed signum)
      finish k cur value
    | _, _ => finish k cur (-1)
  | some .getpid => finish k cur p.pid
  | some .sleep =>
    match argint p 0 with
    | some n => ticksLoop k cur k.ticks n
    | none => finish k cur (-1)
  | some .sigprocmask =>
    match argint p 0 with
    | some sigmask =>
      let (q, old) := sigprocmask p sigmask
      finish (k.setProc cur q) cur (signed old)
    | none => finish k cur (-1)
  | some .sigaction =>
    match argint p 0, argptr p 1 8, argptr p 2 8 with
    | some signum, some act, some oldact =>
      if inside : signed signum < 32 ∧ 0 ≤ signed signum then
        let (q, value) := sigaction p ⟨(signed signum).toNat, by omega⟩ act oldact
        finish (k.setProc cur q) cur value
      else straySigaction k cur (signed signum) act oldact
    | _, _, _ => finish k cur (-1)
  | some .sigret => finish (k.setProc cur (sigret p)) cur 0
  | some _ => finish k cur (signed result)

/-- `trap` for a process running user code: push the frame, then check the kill flag and
handle the trap. -/
def trap (k : Machine) (cur : Nat) (kind : TrapKind) : Machine :=
  let p := k.proc cur
  if p.state ≠ .running ∨ p.context ≠ .user then k
  else
    match kind with
    | .syscall alloc result =>
      let k' := k.setProc cur { p with tf := p.tf.entry tSyscall }
      if p.killed then exit k' cur else syscall k' cur alloc result
    | .timer =>
      let k := wakeup1 { k.setProc cur { p with tf := p.tf.entry tIrqTimer } with
        ticks := k.ticks + 1 } .ticks
      if (k.proc cur).killed then exit k cur
      else k.setProc cur { k.proc cur with state := .runnable, context := .yielded }
    | .device trapno =>
      let k := k.setProc cur { p with tf := p.tf.entry trapno }
      if p.killed then exit k cur else k.setProc cur { k.proc cur with context := .trapret }
    | .fault trapno =>
      exit (k.setProc cur { p with tf := p.tf.entry trapno, killed := true }) cur

/-- The running process in slot `cur` continues its kernel path. -/
def resume (k : Machine) (cur : Nat) : Machine :=
  let p := k.proc cur
  if p.state ≠ .running then k
  else
    match p.context with
    | .syscallDone | .yielded =>
      if p.killed then exit k cur else k.setProc cur { p with context := .trapret }
    | .trapret => k.setProc cur { sigHandlerRunner p with context := .user }
    | .forkret => k.setProc cur { p with context := .trapret }
    | .asleep loop =>
      let k := k.setProc cur { p with chan := .none }
      match loop with
      | .wait => waitLoop k cur
      | .ticks ticks0 n => ticksLoop k cur ticks0 n
    | .user | .exited => k

/-- The memory after user code of `p` stored `memory`: the bytes below `PGROUNDUP(sz)` change,
and the others stay as they were. -/
def userWrite (p : Proc) (memory : Memory) : Memory :=
  fun a => if a.toNat < Mem.PGROUNDUP p.sz.toNat then memory a else p.memory a

/-- User code of the running process leaves new registers and new bytes in its pages; it cannot
load a code segment of another privilege level. -/
def userRun (k : Machine) (cur : Nat) (regs : Trapframe) (memory : Memory) : Machine :=
  let p := k.proc cur
  if p.state = .running ∧ p.context = .user ∧ regs.cs &&& 3 = dplUser then
    k.setProc cur { p with tf := regs, memory := userWrite p memory }
  else k

/-- One event of the kernel; after a panic nothing happens. -/
def step (k : Machine) (event : Event) : Machine :=
  if k.panicked.isSome then k
  else
    match event with
    | .schedule slot => scheduleSlot k slot
    | .user slot regs memory => userRun k slot regs memory
    | .trap slot kind => trap k slot kind
    | .resume slot => resume k slot

section Steps

variable {k : Machine} {cur : Nat}

/-- After a panic no event changes anything. -/
theorem step_of_panicked (stopped : k.panicked ≠ none) (event : Event) : step k event = k := by
  have halted : k.panicked.isSome := Option.ne_none_iff_isSome.mp stopped
  simp [step, halted]

@[simp] theorem step_resume (calm : k.panicked = none) : step k (.resume cur) = resume k cur := by
  simp [step, calm]

@[simp] theorem step_user (calm : k.panicked = none) (regs : Trapframe) (memory : Memory) :
    step k (.user cur regs memory) = userRun k cur regs memory := by
  simp [step, calm]

@[simp] theorem step_trap (calm : k.panicked = none) (kind : TrapKind) :
    step k (.trap cur kind) = trap k cur kind := by
  simp [step, calm]

@[simp] theorem step_schedule (calm : k.panicked = none) (slot : Nat) :
    step k (.schedule slot) = scheduleSlot k slot := by
  simp [step, calm]

/-- trapret: the runner, then the return to user mode. -/
theorem resume_trapret (running : (k.proc cur).state = .running)
    (atTrapret : (k.proc cur).context = .trapret) :
    resume k cur = k.setProc cur { sigHandlerRunner (k.proc cur) with context := .user } := by
  simp [resume, running, atTrapret]

/-- After a system call, trap's last killed check lets a live process go on to trapret. -/
theorem resume_syscallDone (running : (k.proc cur).state = .running)
    (returned : (k.proc cur).context = .syscallDone) (alive : (k.proc cur).killed = false) :
    resume k cur = k.setProc cur { k.proc cur with context := .trapret } := by
  simp [resume, running, returned, alive]

/-- User code in user mode leaves its registers and the bytes of its pages. -/
theorem userRun_of_user (running : (k.proc cur).state = .running)
    (inUser : (k.proc cur).context = .user) {regs : Trapframe} (toUser : regs.cs &&& 3 = dplUser)
    (memory : Memory) :
    userRun k cur regs memory =
      k.setProc cur { k.proc cur with tf := regs, memory := userWrite (k.proc cur) memory } := by
  simp [userRun, running, inUser, toUser]

/-- User code that stores the memory it has changes nothing in it. -/
@[simp] theorem userWrite_self (p : Proc) : userWrite p p.memory = p.memory := by
  funext a
  simp [userWrite]

/-- A second store of user code replaces what the first stored, within the same pages. -/
@[simp] theorem userWrite_userWrite (p : Proc) (tf : Trapframe) (first second : Memory) :
    userWrite { p with tf := tf, memory := userWrite p first } second = userWrite p second := by
  funext a
  by_cases mine : a.toNat < Mem.PGROUNDUP p.sz.toNat <;> simp [userWrite, mine]

/-- Where the memory user code stored agrees with the process's, so does what it leaves. -/
theorem userWrite_read {p : Proc} {memory : Memory} {start : UInt32} {count : Nat}
    (same : memory.read start count = p.memory.read start count) :
    (userWrite p memory).read start count = p.memory.read start count := by
  apply Memory.read_congr
  intro offset below
  have byte := congrArg (fun bytes => bytes[offset]?) same
  simp only [Memory.read, List.getElem?_map, List.getElem?_range below, Option.map_some,
    Option.some.injEq] at byte
  simp [userWrite, byte]

/-- The `sigret` system call of a live process: the frame is pushed, `sigret` reloads the saved
one, and `syscall()` stores the return value 0 in eax. -/
theorem trap_sigret (inside : cur < k.procs.length) (running : (k.proc cur).state = .running)
    (inUser : (k.proc cur).context = .user) (alive : (k.proc cur).killed = false)
    (asks : (k.proc cur).tf.eax = sysSigret) (alloc : Alloc) (result : UInt32) :
    trap k cur (.syscall alloc result) =
      finish (k.setProc cur (sigret { k.proc cur with tf := (k.proc cur).tf.entry tSyscall })) cur 0 := by
  simp only [trap, running, inUser, ne_eq, not_true_eq_false, or_self, if_false, alive,
    Bool.false_eq_true]
  simp [syscall, proc_setProc_self _ _ inside, asks, syscallOf_sysSigret]

end Steps

/-! ## The ghost flag and the pid counter along a step

The stray `sigaction` sets `strayed`; every other path keeps it, so once set it stays set. No
step lowers `nextpid`. -/

section Strayed

variable {k : Machine} {cur : Nat}

@[simp] theorem finish_strayed (value : Int) : (finish k cur value).strayed = k.strayed := rfl

@[simp] theorem ticksLoop_strayed (ticks0 n : UInt32) :
    (ticksLoop k cur ticks0 n).strayed = k.strayed := by
  unfold ticksLoop
  split
  · split <;> rfl
  · rfl

@[simp] theorem waitLoop_strayed : (waitLoop k cur).strayed = k.strayed := by
  unfold waitLoop
  split <;> rfl

theorem straySigaction_strayed (signum : Int) (act oldact : UInt32) :
    (straySigaction k cur signum act oldact).strayed = true := by
  unfold straySigaction
  dsimp only
  split
  · rfl
  · split <;> rfl

/-- On the caller's own signal words the stray store is `sigactionAt`'s: a signal number that
names a signal word of the caller's slot stores there what `sigactionAt` stores, and the call
returns 0. -/
theorem straySigaction_own (inside : cur < nproc) (present : cur < k.procs.length) {signum : Int}
    {act oldact : UInt32} {p' : Proc} (accepted : ¬ (signum = sigkill ∨ signum = sigstop))
    (stored : sigactionAt (k.proc cur) signum act oldact = some (p', 0)) :
    straySigaction k cur signum act oldact =
      finish ({ k with strayed := true }.setProc cur p') cur 0 := by
  obtain ⟨word, memory, named, written, result⟩ := sigactionAt_accepted accepted stored
  have disposed : p' = storeDisposition (k.proc cur) word memory act := (Prod.mk.inj result).1
  have read : (if oldact ≠ 0 then
      ((k.proc cur).readWord (.signal word)).map fun old =>
        (k.proc cur).memory.write oldact (sigactionBytes old (k.proc cur).signalMask)
      else some (k.proc cur).memory) = some memory := written
  have unchanged : ({ k with strayed := true } : Machine).proc cur = k.proc cur := rfl
  have reached : cur < ({ k with strayed := true } : Machine).procs.length := present
  unfold straySigaction
  dsimp only
  rw [tableWord_handlerIndex inside named]
  dsimp only
  rw [unchanged, read]
  simp only [proc_setProc_self, reached, setProc_setProc, disposed]
  rfl

theorem syscall_strayed (was : k.strayed = true) (alloc : Alloc) (result : UInt32) :
    (syscall k cur alloc result).strayed = true := by
  unfold syscall
  dsimp only
  split <;> (try split) <;> (try split) <;> simp [was, straySigaction_strayed]

@[simp] theorem resume_strayed : (resume k cur).strayed = k.strayed := by
  unfold resume
  dsimp only
  split
  · rfl
  · split <;> (try split) <;> simp

@[simp] theorem userRun_strayed (regs : Trapframe) (memory : Memory) :
    (userRun k cur regs memory).strayed = k.strayed := by
  unfold userRun
  dsimp only
  split <;> rfl

theorem trap_strayed (was : k.strayed = true) (kind : TrapKind) :
    (trap k cur kind).strayed = true := by
  unfold trap
  dsimp only
  split
  · exact was
  · cases kind with
    | syscall alloc result =>
      dsimp only
      split
      · simpa using was
      · exact syscall_strayed (by simpa using was) alloc result
    | timer =>
      dsimp only
      split <;> simpa using was
    | device trapno =>
      dsimp only
      split <;> simpa using was
    | fault trapno => simpa using was

@[simp] theorem finish_nextpid (value : Int) : (finish k cur value).nextpid = k.nextpid := rfl

@[simp] theorem ticksLoop_nextpid (ticks0 n : UInt32) :
    (ticksLoop k cur ticks0 n).nextpid = k.nextpid := by
  unfold ticksLoop
  split
  · split <;> rfl
  · rfl

@[simp] theorem waitLoop_nextpid : (waitLoop k cur).nextpid = k.nextpid := by
  unfold waitLoop
  split <;> rfl

@[simp] theorem straySigaction_nextpid (signum : Int) (act oldact : UInt32) :
    (straySigaction k cur signum act oldact).nextpid = k.nextpid := by
  unfold straySigaction
  dsimp only
  split
  · rfl
  · split <;> rfl

theorem syscall_nextpid_le (alloc : Alloc) (result : UInt32) :
    k.nextpid ≤ (syscall k cur alloc result).nextpid := by
  unfold syscall
  dsimp only
  split
  · exact Int.le_refl _
  · simpa using (fork_nextpid_le alloc : k.nextpid ≤ (fork k cur alloc).1.nextpid)
  all_goals (try split) <;> (try split) <;> simp

@[simp] theorem resume_nextpid : (resume k cur).nextpid = k.nextpid := by
  unfold resume
  dsimp only
  split
  · rfl
  · split <;> (try split) <;> simp

@[simp] theorem userRun_nextpid (regs : Trapframe) (memory : Memory) :
    (userRun k cur regs memory).nextpid = k.nextpid := by
  unfold userRun
  dsimp only
  split <;> rfl

theorem trap_nextpid_le (kind : TrapKind) : k.nextpid ≤ (trap k cur kind).nextpid := by
  unfold trap
  dsimp only
  split
  · exact Int.le_refl _
  · cases kind with
    | syscall alloc result =>
      dsimp only
      split
      · simp
      · exact syscall_nextpid_le (k := k.setProc cur _) alloc result
    | timer =>
      dsimp only
      split <;> simp
    | device trapno =>
      dsimp only
      split <;> simp
    | fault trapno => simp

/-- No step lowers the pid counter. -/
theorem step_nextpid_le (event : Event) : k.nextpid ≤ (step k event).nextpid := by
  unfold step
  split
  · exact Int.le_refl _
  · cases event with
    | schedule slot => simp
    | user slot regs memory => simp
    | trap slot kind => exact trap_nextpid_le kind
    | resume slot => simp

/-- Once a stray store has happened, every later state records it. -/
theorem step_strayed (was : k.strayed = true) (event : Event) : (step k event).strayed = true := by
  unfold step
  split
  · exact was
  · cases event with
    | schedule slot => simpa using was
    | user slot regs memory => simpa using was
    | trap slot kind => exact trap_strayed was kind
    | resume slot => simpa using was

end Strayed

/-- The frame `userinit` builds for initcode: user segments, interrupts on, the stack at the
top of the first page, eip at 0. -/
def initcodeFrame : Trapframe :=
  { (default : Trapframe) with
    cs := 0x1B, ds := 0x23, es := 0x23, ss := 0x23, eflags := 0x200, esp := 4096, eip := 0 }

/-- The machine after `userinit`: initcode, pid 1 in slot 0, runnable at forkret with default
handlers, and the other slots as the zeroed table holds them. -/
def boot (sigcontAddress : UInt32) (initcode : Memory) : Machine where
  procs := { Proc.empty with
      sz := 4096
      state := .runnable
      pid := 1
      tf := initcodeFrame
      context := .forkret
      signalHandlers := fun _ => sigDfl
      memory := initcode } :: List.replicate (nproc - 1) Proc.empty
  nextpid := 2
  initproc := 0
  ticks := 0
  sigcontAddress := sigcontAddress
  panicked := none
  strayed := false

/-- Past init's slot the booted table is zeroed. -/
theorem boot_proc_succ (sigcontAddress : UInt32) (initcode : Memory) (slot : Nat) :
    (boot sigcontAddress initcode).proc (slot + 1) = Proc.empty := by
  simp [boot, proc, List.getD_eq_getElem?_getD, List.getElem?_replicate]
  split <;> rfl

end Xv6.Kernel
