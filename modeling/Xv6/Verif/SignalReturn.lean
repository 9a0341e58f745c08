import Xv6.Kernel.Trap
import Xv6.Lib.Run

/-!
# Returning from a user signal handler

The round trip of one user handler: at trapret `sig_handler_runner` saves the trap frame below
the user stack and builds the handler's frame under it, the handler runs and returns into the
copied `implicit_sigret` stub, the stub makes the `sigret` system call, and the process goes
back to user mode. The frame the runner builds is laid out so that every part of the round trip
finds what it needs: the return address at the handler's entry esp is the stub, the stub's bytes
lie above it, and the saved frame lies above the stub where `user_trap_fram_backup` points.

`sigret` reloads the saved frame in full and steps esp over it, so every register comes back as
it was. Then `syscall()` stores sys_sigret's return value in eax: the interrupted code resumes
with eax equal to 0.
-/

namespace Xv6.Kernel

open Xv6.Bytes Xv6.Run Machine

/-- The bytes the runner writes for a handler, from its entry esp up: the return address, the
signal number, the stub and the saved trap frame. -/
def handlerFrameSize : Nat := 8 + implicitSigretCode.length + Trapframe.size

/-- A user handler entered with the frame of the process `frame` returns normally, leaving
`regs` and `memory`: the bytes of its frame are as the runner wrote them, and its `ret` loaded
eip with the return address at its entry esp, in user mode. -/
structure ReturnsNormally (frame : Proc) (regs : Trapframe) (memory : Memory) : Prop where
  untouched : memory.read frame.tf.esp handlerFrameSize =
    frame.memory.read frame.tf.esp handlerFrameSize
  returned : regs.eip = frame.memory.read32 frame.tf.esp
  userCode : regs.cs &&& 3 = dplUser

section Frame

variable (p : Proc) (i : Fin 32)

/-- Where the runner saves the trap frame: one frame below the user stack pointer. -/
def backupAddress : UInt32 := p.tf.esp - UInt32.ofNat Trapframe.size

/-- Where the runner copies the stub: right below the saved frame. -/
def stubAddress : UInt32 := backupAddress p - UInt32.ofNat implicitSigretCode.length

/-- The frame the runner saves: the trap frame with esp already lowered over it. -/
def savedFrame : Trapframe := { p.tf with esp := backupAddress p }

/-- The four writes of the runner's user-handler branch. -/
theorem deliver_memory : (deliver p i).memory =
    (((p.memory.write (backupAddress p) (savedFrame p).bytes).write (stubAddress p)
      implicitSigretCode).write32 (stubAddress p - 4) (UInt32.ofNat i.val)).write32
      (stubAddress p - 8) (stubAddress p) := rfl

@[simp] theorem deliver_userTrapFramBackup : (deliver p i).userTrapFramBackup = backupAddress p :=
  rfl

theorem deliver_esp : (deliver p i).tf.esp = stubAddress p - 8 := rfl

/-- The return address at the handler's entry esp is the stub. -/
theorem deliver_return : (deliver p i).memory.read32 (deliver p i).tf.esp = stubAddress p := by
  rw [deliver_memory, deliver_esp, Memory.read32_write32]

/-- The stub's bytes survive the two words written below them. -/
theorem deliver_stub :
    (deliver p i).memory.read (stubAddress p) implicitSigretCode.length = implicitSigretCode := by
  rw [deliver_memory]
  unfold Memory.write32
  rw [Memory.read_write_of_below _ _ 8 (by simp) (by decide),
    Memory.read_write_of_below _ _ 4 (by simp) (by decide)]
  exact Memory.read_write_same _ _ _ (by decide)

/-- The saved frame survives the stub and the two words written below it. -/
theorem deliver_saved :
    (deliver p i).memory.read (backupAddress p) Trapframe.size = (savedFrame p).bytes := by
  rw [deliver_memory]
  unfold Memory.write32 stubAddress
  simp only [sub_sub]
  rw [Memory.read_write_of_below _ _ (UInt32.ofNat implicitSigretCode.length + 8)
      (by simp [implicitSigretCode]) (by decide),
    Memory.read_write_of_below _ _ (UInt32.ofNat implicitSigretCode.length + 4)
      (by simp [implicitSigretCode]) (by decide),
    Memory.read_write_of_below _ _ (UInt32.ofNat implicitSigretCode.length) (by decide)
      (by decide)]
  have whole := Memory.read_write_same p.memory (backupAddress p) (savedFrame p).bytes
    (by simp [Trapframe.size])
  rwa [Trapframe.bytes_length] at whole

end Frame

section Handler

variable {p : Proc} {i : Fin 32} {regs : Trapframe} {memory : Memory}

/-- A read inside the frame of a handler that returns normally sees what the runner wrote. -/
theorem read_of_returnsNormally (returns : ReturnsNormally (deliver p i) regs memory)
    {source gap : UInt32} {count : Nat} (below : (deliver p i).tf.esp = source - gap)
    (fits : gap.toNat + count ≤ handlerFrameSize) :
    memory.read source count = (deliver p i).memory.read source count := by
  have size : handlerFrameSize = 91 := rfl
  apply Memory.read_eq_of_read_eq returns.untouched
  intro offset small
  rw [below, Memory.offset_sub source gap (by omega)]
  omega

/-- A handler that returns normally lands on the stub's bytes, which trap into `sigret`. -/
theorem runImplicitSigret_of_returnsNormally (returns : ReturnsNormally (deliver p i) regs memory) :
    runImplicitSigret regs memory =
      some { regs with eax := sysSigret, eip := regs.eip + UInt32.ofNat implicitSigretCode.length } := by
  have stub : memory.read (stubAddress p) implicitSigretCode.length = implicitSigretCode := by
    rw [read_of_returnsNormally returns (deliver_esp p i) (by decide), deliver_stub]
  unfold runImplicitSigret
  rw [returns.returned, deliver_return, stub, if_pos rfl]

/-- After a handler that returns normally, `sigret` reloads the interrupted trap frame. -/
theorem sigret_of_returnsNormally (returns : ReturnsNormally (deliver p i) regs memory) {q : Proc}
    (backed : q.userTrapFramBackup = backupAddress p) (seen : q.memory = memory) :
    (sigret q).tf = p.tf := by
  have below : (deliver p i).tf.esp =
      backupAddress p - (UInt32.ofNat implicitSigretCode.length + 8) := by
    rw [deliver_esp, stubAddress, sub_sub]
  have saved : memory.read (backupAddress p) Trapframe.size = (savedFrame p).bytes := by
    rw [read_of_returnsNormally returns below (by decide), deliver_saved]
  have restored : backupAddress p + UInt32.ofNat Trapframe.size = p.tf.esp := sub_add_cancel _ _
  unfold sigret
  rw [backed, seen, saved, Trapframe.ofBytes_bytes]
  simp only [savedFrame, restored]

end Handler

section RoundTrip

variable {k : Machine} {c : Nat} {q : Proc}

/-- trapret with only signal `i` pending, for a user handler: the handler's frame is built and the
process enters user mode at the handler. -/
theorem step_deliver {i : Fin 32} (calm : k.panicked = none)
    (running : (k.proc c).state = .running) (atTrapret : (k.proc c).context = .trapret)
    (toUser : (k.proc c).tf.cs &&& 3 = dplUser) (only : (k.proc c).pendingSignals = sigBit i)
    (handled : action (k.proc c) i = .handle) :
    step k (.resume c) =
      k.setProc c { deliver (clearPending (k.proc c) i) i with context := .user } := by
  rw [step_resume calm, resume_trapret running atTrapret, sigHandlerRunner_of_single toUser only,
    handled]
  rfl

/-- User code of the process in slot `c`, once the slot holds `q`. -/
theorem step_user_setProc (inside : c < k.procs.length) (calm : k.panicked = none)
    (running : q.state = .running) (inUser : q.context = .user) {regs : Trapframe}
    (toUser : regs.cs &&& 3 = dplUser) (memory : Memory) :
    step (k.setProc c q) (.user c regs memory) =
      k.setProc c { q with tf := regs, memory := userWrite q memory } := by
  have held := proc_setProc_self k q inside
  rw [step_user (by simpa using calm), userRun_of_user (by rwa [held]) (by rwa [held]) toUser,
    held, setProc_setProc]

/-- The `sigret` system call of the process in slot `c`, once the slot holds `q`. -/
theorem step_sigret (inside : c < k.procs.length) (calm : k.panicked = none)
    (running : q.state = .running) (inUser : q.context = .user) (alive : q.killed = false)
    (asks : q.tf.eax = sysSigret) (alloc : Alloc) (result : UInt32) :
    step (k.setProc c q) (.trap c (.syscall alloc result)) =
      k.setProc c { sigret { q with tf := q.tf.entry tSyscall } with
        tf := { (sigret { q with tf := q.tf.entry tSyscall }).tf with eax := 0 },
        context := .syscallDone } := by
  have held := proc_setProc_self k q inside
  rw [step_trap (by simpa using calm), trap_sigret (by simpa using inside) (by rwa [held])
    (by rwa [held]) (by rwa [held]) (by rwa [held]), held]
  simp only [finish, setProc_setProc]
  rw [proc_setProc_self _ _ inside]
  rfl

/-- Trap's last killed check after a system call, once the slot holds `q`. -/
theorem step_syscallDone (inside : c < k.procs.length) (calm : k.panicked = none)
    (running : q.state = .running) (returned : q.context = .syscallDone) (alive : q.killed = false) :
    step (k.setProc c q) (.resume c) = k.setProc c { q with context := .trapret } := by
  have held := proc_setProc_self k q inside
  rw [step_resume (by simpa using calm),
    resume_syscallDone (by rwa [held]) (by rwa [held]) (by rwa [held]), held, setProc_setProc]

/-- trapret with nothing pending returns to user mode as it is, once the slot holds `q`. -/
theorem step_trapret_quiet (inside : c < k.procs.length) (calm : k.panicked = none)
    (running : q.state = .running) (atTrapret : q.context = .trapret) (idle : q.pendingSignals = 0) :
    step (k.setProc c q) (.resume c) = k.setProc c { q with context := .user } := by
  have held := proc_setProc_self k q inside
  rw [step_resume (by simpa using calm), resume_trapret (by rwa [held]) (by rwa [held]), held,
    sigHandlerRunner_of_none idle, setProc_setProc]

/-- The round trip through one user handler. A process at trapret with a single pending signal
`i` that has a user handler enters the handler; the handler returns normally into the stub; the
stub's `sigret` call returns; and the process is back in user mode with the trap frame it had
before the runner, in every register but eax, which holds sys_sigret's return value 0. -/
theorem sigreturn_restores_all_but_eax {i : Fin 32} (inside : c < k.procs.length)
    (calm : k.panicked = none) (running : (k.proc c).state = .running)
    (atTrapret : (k.proc c).context = .trapret) (toUser : (k.proc c).tf.cs &&& 3 = dplUser)
    (alive : (k.proc c).killed = false) (only : (k.proc c).pendingSignals = sigBit i)
    (handled : action (k.proc c) i = .handle) {regs : Trapframe} {memory : Memory}
    (returns : ReturnsNormally ((step k (.resume c)).proc c) regs memory) (alloc : Alloc)
    (result : UInt32) :
    ∃ stub, runImplicitSigret regs memory = some stub ∧
      ((run step k [.resume c, .user c regs memory, .user c stub memory,
        .trap c (.syscall alloc result), .resume c, .resume c]).proc c).context = .user ∧
      ((run step k [.resume c, .user c regs memory, .user c stub memory,
        .trap c (.syscall alloc result), .resume c, .resume c]).proc c).tf =
        { (k.proc c).tf with eax := 0 } := by
  have delivered := step_deliver calm running atTrapret toUser only handled
  rw [delivered, proc_setProc_self _ _ inside] at returns
  have frame : ReturnsNormally (deliver (clearPending (k.proc c) i) i) regs memory :=
    ⟨returns.untouched, returns.returned, returns.userCode⟩
  refine ⟨_, runImplicitSigret_of_returnsNormally frame, ?_⟩
  have cleared : (deliver (clearPending (k.proc c) i) i).pendingSignals = 0 := by
    simp [clearPending, only]
  have masked : ReturnsNormally (deliver (clearPending (k.proc c) i) i) regs
      (userWrite (deliver (clearPending (k.proc c) i) i) memory) :=
    ⟨userWrite_read frame.untouched, frame.returned, frame.userCode⟩
  simp only [run_cons, run_nil, delivered]
  rw [step_user_setProc inside calm ?_ rfl returns.userCode,
    step_user_setProc inside calm ?_ rfl ?_,
    step_sigret inside calm ?_ rfl ?_ rfl,
    step_syscallDone inside calm ?_ rfl ?_,
    step_trapret_quiet inside calm ?_ rfl ?_,
    proc_setProc_self _ _ inside]
  · exact ⟨rfl, congrArg (fun tf : Trapframe => { tf with eax := 0 })
      (sigret_of_returnsNormally masked rfl (userWrite_userWrite _ _ _ _))⟩
  all_goals first | exact running | exact alive | exact returns.userCode | exact cleared

/-- A process interrupted in user mode with eax = 7 and standing at trapret, with signal 3
pending for a user handler at 0x1000. -/
def interruptedProc : Proc :=
  { Proc.empty with
    sz := 0x4000
    state := .running
    pid := 2
    parent := some 0
    tf := { initcodeFrame with eax := 7, esp := 0x3000, eip := 0x20 }
    context := .trapret
    pendingSignals := sigBit 3
    signalHandlers := fun signum => if signum = 3 then 0x1000 else sigDfl }

/-- The booted machine with `interruptedProc` in slot 1. -/
def interruptedMachine : Machine :=
  { boot 0 (fun _ => 0) with procs := (boot 0 fun _ => 0).procs.set 1 interruptedProc }

/-- A handler that returns at once: its `ret` pops the return address at its entry. -/
def returnAtOnce (frame : Proc) : Trapframe :=
  { frame.tf with eip := frame.memory.read32 frame.tf.esp, esp := frame.tf.esp + 4 }

/-- A handler that returns at once returns normally. -/
theorem returnAtOnce_returnsNormally (frame : Proc) (toUser : frame.tf.cs &&& 3 = dplUser) :
    ReturnsNormally frame (returnAtOnce frame) frame.memory :=
  ⟨rfl, rfl, toUser⟩

/-- The process in slot 1 enters the handler in user mode. -/
theorem interrupted_handler_user :
    ((step interruptedMachine (.resume 1)).proc 1).tf.cs &&& 3 = dplUser := by
  rw [@step_deliver interruptedMachine 1 3 rfl rfl rfl (by decide) rfl (by decide),
    proc_setProc_self _ _ (by decide)]
  decide

theorem sigreturn_clears_interrupted_eax :
    (interruptedMachine.proc 1).tf.eax = 7 ∧
    ∃ stub, runImplicitSigret (returnAtOnce ((step interruptedMachine (.resume 1)).proc 1))
        ((step interruptedMachine (.resume 1)).proc 1).memory = some stub ∧
      ((run step interruptedMachine [.resume 1,
        .user 1 (returnAtOnce ((step interruptedMachine (.resume 1)).proc 1))
          ((step interruptedMachine (.resume 1)).proc 1).memory,
        .user 1 stub ((step interruptedMachine (.resume 1)).proc 1).memory,
        .trap 1 (.syscall .ok 0), .resume 1, .resume 1]).proc 1).context = .user ∧
      ((run step interruptedMachine [.resume 1,
        .user 1 (returnAtOnce ((step interruptedMachine (.resume 1)).proc 1))
          ((step interruptedMachine (.resume 1)).proc 1).memory,
        .user 1 stub ((step interruptedMachine (.resume 1)).proc 1).memory,
        .trap 1 (.syscall .ok 0), .resume 1, .resume 1]).proc 1).tf =
        { (interruptedMachine.proc 1).tf with eax := 0 } :=
  ⟨rfl, @sigreturn_restores_all_but_eax interruptedMachine 1 3 (by decide) rfl rfl rfl (by decide)
    rfl rfl (by decide) _ _ (returnAtOnce_returnsNormally _ interrupted_handler_user) .ok 0⟩

end RoundTrip

end Xv6.Kernel
