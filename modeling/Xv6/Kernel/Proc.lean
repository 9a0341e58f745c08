import Xv6.Kernel.Trapframe

/-!
# Processes

`struct proc` of proc.h with the fields that the process and signal code reads and writes,
and the constants of param.h and types.h they use. The open files, current directory,
name, kernel stack and page table are left out: the modelled functions do not read them.
The user address space is a byte memory, the contents the process sees through its page
table. The saved kernel context is modelled by where the process's kernel thread resumes
(`Point`), together with `user` for a process that runs user code.

`killed` and `freeze` are C ints that the code only sets to 0 or 1 and tests for being
non-zero; they are booleans here. A channel is the address a sleeper waits on, named by the
object it belongs to.
-/

namespace Xv6.Kernel

open Xv6.Bytes

/-- `NPROC`: the size of the process table. -/
def nproc : Nat := 64

/-- `SIG_DFL`: the default disposition. -/
def sigDfl : UInt32 := 0

/-- `SIG_IGN`: ignore the signal. -/
def sigIgn : UInt32 := 1

/-- `SIGKILL`. -/
def sigkill : Nat := 9

/-- `SIGSTOP`. -/
def sigstop : Nat := 17

/-- `SIGCONT`. -/
def sigcont : Nat := 19

/-- The bit of signal `signum` in a signal set, `1 << signum`. -/
def sigBit (signum : Nat) : UInt32 := 1 <<< UInt32.ofNat signum

/-- The bit of a signal below 32 is its power of two. -/
theorem sigBit_toNat (i : Fin 32) : (sigBit i).toNat = 2 ^ i.val := by
  have small := i.isLt
  have fits : 2 ^ i.val < 2 ^ 32 := Nat.pow_lt_pow_right (by decide) small
  rw [sigBit, UInt32.toNat_shiftLeft, UInt32.toNat_ofNat',
    Nat.mod_eq_of_lt (by omega : i.val < 2 ^ 32), Nat.mod_eq_of_lt small, Nat.shiftLeft_eq]
  simpa using Nat.mod_eq_of_lt fits

/-- The bit of a signal below 32 as a bit vector. -/
theorem sigBit_toBitVec (i : Fin 32) : (sigBit i).toBitVec = BitVec.twoPow 32 i := by
  apply BitVec.eq_of_toNat_eq
  rw [BitVec.toNat_twoPow_of_lt i.isLt, UInt32.toNat_toBitVec, sigBit_toNat]

/-- A set masked by the bit of one signal is that bit or zero, as the signal is in it. -/
theorem and_sigBit (set : UInt32) (i : Fin 32) :
    set &&& sigBit i = if set.toBitVec.getLsbD i then sigBit i else 0 := by
  apply UInt32.toBitVec_inj.mp
  rw [UInt32.toBitVec_and, sigBit_toBitVec, BitVec.and_twoPow]
  split <;> simp [sigBit_toBitVec]

/-- The bit of one signal is not zero. -/
theorem sigBit_ne_zero (i : Fin 32) : sigBit i ≠ 0 := by
  intro zero
  have bits := congrArg UInt32.toNat zero
  rw [sigBit_toNat] at bits
  simp at bits

/-- The bits of two different signals have no bit in common. -/
theorem sigBit_and_sigBit {i j : Fin 32} (apart : i ≠ j) : sigBit i &&& sigBit j = 0 := by
  have distinct : i.val ≠ j.val := Fin.val_ne_of_ne apart
  rw [and_sigBit, sigBit_toBitVec, BitVec.getLsbD_twoPow]
  simp [distinct]

/-- `enum procstate`. -/
inductive ProcState
  | unused
  | embryo
  | sleeping
  | runnable
  | running
  | zombie
  deriving DecidableEq, Repr, Inhabited

/-- A sleep channel: the address a sleeper waits on. -/
inductive Chan
  /-- The null channel of a process that is not sleeping. -/
  | none
  /-- A process slot, as `wait` sleeps on the caller and `exit` wakes the parent. -/
  | proc (slot : Nat)
  /-- `&ticks`. -/
  | ticks
  /-- Any other kernel object, such as a pipe counter, the log or a buffer. -/
  | object (address : Nat)
  deriving DecidableEq, Repr, Inhabited

/-- A killable loop that a system call sleeps in: its test is re-run when the sleeper wakes. -/
inductive Loop
  /-- `wait`: sleeping on its own process until a child exits. -/
  | wait
  /-- `sys_sleep`: sleeping on `&ticks` while `ticks - ticks0 < n`, compared unsigned. -/
  | ticks (ticks0 n : UInt32)
  deriving DecidableEq, Repr

/-- Where a process's kernel thread stands: the model of `p->context` and of the kernel stack
below it, or `user` while it runs user code. -/
inductive Point
  /-- Running user code. -/
  | user
  /-- `syscall()` has returned in `trap`: the final killed check, then trapret. -/
  | syscallDone
  /-- `yield()` from a timer tick: after it, trap's last killed check, then trapret. -/
  | yielded
  /-- At trapret: `sig_handler_runner`, then iret to user mode. -/
  | trapret
  /-- A new child: forkret, which returns to trapret. -/
  | forkret
  /-- In `sleep()` inside a killable loop. -/
  | asleep (loop : Loop)
  /-- In `sched()` after exit; never resumed. -/
  | exited
  deriving DecidableEq, Repr, Inhabited

/-- `struct proc`, with the saved context as a `Point` and the user memory as a byte map. -/
structure Proc where
  /-- Size of process memory (bytes). -/
  sz : UInt32
  state : ProcState
  pid : Int
  /-- Slot of the parent process, or none for a null pointer. -/
  parent : Option Nat
  /-- The trap frame; the user registers while the process runs user code. -/
  tf : Trapframe
  /-- Where the kernel thread resumes. -/
  context : Point
  /-- If non-null, sleeping on chan. -/
  chan : Chan
  killed : Bool
  pendingSignals : UInt32
  signalMask : UInt32
  signalHandlers : Fin 32 → UInt32
  /-- User address of the frame saved by the runner. -/
  userTrapFramBackup : UInt32
  freeze : Bool
  /-- The user address space as the process sees it. -/
  memory : Memory

namespace Proc

/-- A slot as the zeroed static process table holds it before any use. -/
def empty : Proc where
  sz := 0
  state := .unused
  pid := 0
  parent := none
  tf := default
  context := .user
  chan := .none
  killed := false
  pendingSignals := 0
  signalMask := 0
  signalHandlers := fun _ => 0
  userTrapFramBackup := 0
  freeze := false
  memory := fun _ => 0

/-- The signal `signum` is pending: its bit of `pending_signals` is set. -/
def Pending (p : Proc) (signum : Nat) : Prop := p.pendingSignals.toBitVec.getLsbD signum = true

instance (p : Proc) (signum : Nat) : Decidable (p.Pending signum) :=
  inferInstanceAs (Decidable (_ = _))

/-- The process is in a state other than UNUSED and ZOMBIE. -/
def Alive (p : Proc) : Prop := p.state ≠ .unused ∧ p.state ≠ .zombie

instance (p : Proc) : Decidable p.Alive := inferInstanceAs (Decidable (_ ∧ _))

end Proc

end Xv6.Kernel
