import Xv6.Kernel.Syscall

/-!
# Signals

The signal code of proc.c: the three kernel handlers, `sig_handler_runner` that trapret runs
before every return to user mode, `sigret`, `sigprocmask` and `sigaction`, and the
`implicit_sigret` stub that the runner copies onto the user stack. The runner visits the 32
signals in order and clears each pending bit before looking at it; SIGSTOP and SIGKILL act
whatever the mask; a blocked signal is dropped; SIGCONT with the default handler unfreezes;
any other signal with the default handler kills; an ignored signal does nothing; and a user
handler gets a frame: the current trap frame saved on the user stack, the stub below it, the
signal number and the stub's address as argument and return address, and eip at the handler.
Nothing stops a later signal of the same pass from building a second frame below the first.
-/

namespace Xv6.Kernel

open Xv6.Bytes

/-- `SIGKILL_handler`. -/
def sigkillHandler (p : Proc) : Proc := { p with killed := true }

/-- `SIGSTOP_handler`: a sleeping process is not frozen. -/
def sigstopHandler (p : Proc) : Proc :=
  if p.state = .sleeping then p else { p with freeze := true }

/-- `SIGCONT_handler`. -/
def sigcontHandler (p : Proc) : Proc := { p with freeze := false }

/-- The bytes from `start_implicit_sigret` to `done_implicit_sigret` as the assembler emits
them: `movl $SYS_sigret, %eax` (B8 and the immediate 24), then `int $T_SYSCALL` (CD 40). -/
def implicitSigretCode : List UInt8 := [0xB8, 0x18, 0x00, 0x00, 0x00, 0xCD, 0x40]

/-- The user-handler branch of the runner for signal `signum`: save the frame below the user
stack pointer, copy the stub below it, write the signal number and the stub's address under
the stub, and continue at the handler with esp at the stub's address. -/
def deliver (p : Proc) (signum : Fin 32) : Proc :=
  let backup := p.tf.esp - UInt32.ofNat Trapframe.size
  let saved := { p.tf with esp := backup }
  let code := backup - UInt32.ofNat implicitSigretCode.length
  let memory := (((p.memory.write backup saved.bytes).write code implicitSigretCode).write32
    (code - 4) (UInt32.ofNat signum.val)).write32 (code - 8) code
  { p with
    memory := memory
    userTrapFramBackup := backup
    tf := { saved with esp := code - 8, eip := p.signalHandlers signum } }

/-- One turn of the runner's loop, for signal `i`. -/
def runnerStep (p : Proc) (i : Fin 32) : Proc :=
  let sig := p.pendingSignals &&& sigBit i
  if sig = 0 then p
  else
    let p := { p with pendingSignals := p.pendingSignals ^^^ sigBit i }
    if i.val = sigstop then sigstopHandler p
    else if i.val = sigkill then sigkillHandler p
    else if p.signalMask &&& sig ≠ 0 then p
    else if i.val = sigcont ∧ p.signalHandlers i = sigDfl then sigcontHandler p
    else if p.signalHandlers i = sigDfl then sigkillHandler p
    else if p.signalHandlers i = sigIgn then p
    else deliver p i

/-- `sig_handler_runner`: nothing for a frame that returns to kernel mode, else one turn for
each signal from 0 to 31. -/
def sigHandlerRunner (p : Proc) : Proc :=
  if p.tf.cs &&& 3 ≠ dplUser then p else (List.finRange 32).foldl runnerStep p

/-- `sigret`: reload the frame from the saved copy and step esp over it. -/
def sigret (p : Proc) : Proc :=
  let tf := Trapframe.ofBytes (p.memory.read p.userTrapFramBackup Trapframe.size)
  { p with tf := { tf with esp := tf.esp + UInt32.ofNat Trapframe.size } }

/-- `sigprocmask`: set the mask, returning the old one. -/
def sigprocmask (p : Proc) (sigmask : UInt32) : Proc × UInt32 :=
  ({ p with signalMask := sigmask }, p.signalMask)

/-- `struct sigaction` in user memory: the handler address, then the mask. -/
def sigactionBytes (handler sigmask : UInt32) : List UInt8 := le32 handler ++ le32 sigmask

/-- `sigaction` for a signal number inside the handler array. The test `act->sigmask < 0` on
an unsigned mask never fails. The old disposition is written to `oldact` first, then the new
one is read from `act`, and the mask is replaced, not merged. -/
def sigaction (p : Proc) (signum : Fin 32) (act oldact : UInt32) : Proc × Int :=
  if signum.val = sigkill ∨ signum.val = sigstop then (p, -1)
  else
    let memory := if oldact ≠ 0 then
        p.memory.write oldact (sigactionBytes (p.signalHandlers signum) p.signalMask)
      else p.memory
    let handler := memory.read32 act
    let sigmask := memory.read32 (act + 4)
    ({ p with
        memory := memory
        signalHandlers := Function.update p.signalHandlers signum handler
        signalMask := sigmask }, 0)

/-- What the processor does at the copied stub: with the stub's bytes at eip, it loads
SYS_sigret into eax and reaches the system call trap with eip past the `int`. -/
def runImplicitSigret (regs : Trapframe) (memory : Memory) : Option Trapframe :=
  if memory.read regs.eip implicitSigretCode.length = implicitSigretCode then
    some { regs with eax := sysSigret, eip := regs.eip + UInt32.ofNat implicitSigretCode.length }
  else none

/-- What the runner does with a pending signal once its bit is cleared. -/
inductive Action
  | stop
  | kill
  | drop
  | cont
  | ignore
  | handle
  deriving DecidableEq, Repr

/-- The runner's choice for a pending signal, its tests taken in the order of the source. -/
def action (p : Proc) (i : Fin 32) : Action :=
  if i.val = sigstop then .stop
  else if i.val = sigkill then .kill
  else if p.signalMask.toBitVec.getLsbD i then .drop
  else if i.val = sigcont ∧ p.signalHandlers i = sigDfl then .cont
  else if p.signalHandlers i = sigDfl then .kill
  else if p.signalHandlers i = sigIgn then .ignore
  else .handle

/-- The effect of an action. -/
def Action.apply : Action → Proc → Fin 32 → Proc
  | .stop, p, _ => sigstopHandler p
  | .kill, p, _ => sigkillHandler p
  | .drop, p, _ => p
  | .cont, p, _ => sigcontHandler p
  | .ignore, p, _ => p
  | .handle, p, i => deliver p i

/-- The process with the bit of signal `i` flipped, as the runner clears a pending bit. -/
def clearPending (p : Proc) (i : Fin 32) : Proc :=
  { p with pendingSignals := p.pendingSignals ^^^ sigBit i }

section Lemmas

variable (p : Proc) (i : Fin 32)

@[simp] theorem sigkillHandler_killed : (sigkillHandler p).killed = true := rfl

@[simp] theorem sigkillHandler_pendingSignals :
    (sigkillHandler p).pendingSignals = p.pendingSignals := rfl

@[simp] theorem sigstopHandler_killed : (sigstopHandler p).killed = p.killed := by
  unfold sigstopHandler
  split <;> rfl

@[simp] theorem sigstopHandler_pendingSignals :
    (sigstopHandler p).pendingSignals = p.pendingSignals := by
  unfold sigstopHandler
  split <;> rfl

@[simp] theorem sigcontHandler_killed : (sigcontHandler p).killed = p.killed := rfl

@[simp] theorem sigcontHandler_pendingSignals :
    (sigcontHandler p).pendingSignals = p.pendingSignals := rfl

@[simp] theorem deliver_killed : (deliver p i).killed = p.killed := rfl

@[simp] theorem deliver_pendingSignals : (deliver p i).pendingSignals = p.pendingSignals := rfl

@[simp] theorem clearPending_killed : (clearPending p i).killed = p.killed := rfl

/-- A turn of the loop: nothing for a signal that is not pending, else the bit is cleared and
the signal's action is taken. -/
theorem runnerStep_eq :
    runnerStep p i = if p.Pending i then (action p i).apply (clearPending p i) i else p := by
  have pendingTest := and_sigBit p.pendingSignals i
  have distinct : sigkill ≠ sigstop := by decide
  unfold runnerStep Proc.Pending
  by_cases pending : p.pendingSignals.toBitVec.getLsbD i = true
  · have masked := and_sigBit p.signalMask i
    simp only [pendingTest, pending, if_true, sigBit_ne_zero, if_false]
    rw [masked]
    unfold action
    by_cases stop : i.val = sigstop
    · simp [stop, Action.apply, clearPending]
    by_cases kill : i.val = sigkill
    · simp [kill, distinct, Action.apply, clearPending]
    by_cases drop : p.signalMask.toBitVec.getLsbD i = true
    · simp [stop, kill, drop, sigBit_ne_zero, Action.apply, clearPending]
    simp only [stop, kill, drop, if_false, Bool.false_eq_true, ne_eq, not_true_eq_false]
    split_ifs <;> rfl
  · simp only [pendingTest, pending, Bool.false_eq_true, if_false, if_true]

/-- A turn for a signal that is not pending changes nothing. -/
theorem runnerStep_of_not_pending (idle : p.pendingSignals &&& sigBit i = 0) :
    runnerStep p i = p := by
  simp [runnerStep, idle]

/-- The fields that the signal code leaves alone: size, state, pid, parent, context and chan. -/
structure Unmoved (before after : Proc) : Prop where
  sz : after.sz = before.sz
  state : after.state = before.state
  pid : after.pid = before.pid
  parent : after.parent = before.parent
  context : after.context = before.context
  chan : after.chan = before.chan

theorem Unmoved.refl : Unmoved p p := ⟨rfl, rfl, rfl, rfl, rfl, rfl⟩

theorem Unmoved.trans {first middle last : Proc} (early : Unmoved first middle)
    (late : Unmoved middle last) : Unmoved first last :=
  ⟨late.sz.trans early.sz, late.state.trans early.state, late.pid.trans early.pid,
    late.parent.trans early.parent, late.context.trans early.context, late.chan.trans early.chan⟩

/-- Every action leaves the process in its place. -/
theorem Action.apply_unmoved (act : Action) : Unmoved p (act.apply p i) := by
  cases act
  case stop =>
    simp only [Action.apply, sigstopHandler]
    split
    · exact Unmoved.refl p
    · exact ⟨rfl, rfl, rfl, rfl, rfl, rfl⟩
  all_goals exact ⟨rfl, rfl, rfl, rfl, rfl, rfl⟩

/-- A turn of the loop leaves the process in its place. -/
theorem runnerStep_unmoved : Unmoved p (runnerStep p i) := by
  rw [runnerStep_eq]
  split
  · have cleared : Unmoved p (clearPending p i) := ⟨rfl, rfl, rfl, rfl, rfl, rfl⟩
    exact cleared.trans (Action.apply_unmoved (clearPending p i) i _)
  · exact Unmoved.refl p

/-- No action clears the kill flag. -/
theorem Action.apply_killed (act : Action) (killed : p.killed) : (act.apply p i).killed := by
  cases act <;> simp [Action.apply, killed]

/-- No action changes the pending set; the runner clears bits before it acts. -/
theorem Action.apply_pendingSignals (act : Action) :
    (act.apply p i).pendingSignals = p.pendingSignals := by
  cases act <;> simp [Action.apply]

/-- Clearing the bit of a pending signal leaves exactly the other pending signals. -/
theorem clearPending_pending (pending : p.Pending i) (j : Nat) :
    (clearPending p i).Pending j ↔ p.Pending j ∧ j ≠ i.val := by
  unfold Proc.Pending clearPending
  rw [UInt32.toBitVec_xor, sigBit_toBitVec, BitVec.getLsbD_xor, BitVec.getLsbD_twoPow]
  by_cases same : j = i.val
  · subst same
    simp only [Proc.Pending] at pending
    simp [pending]
  · have apart : ¬ (i.val = j) := fun h => same h.symm
    simp [apart, same]

/-- A turn keeps the kill flag once set. -/
theorem runnerStep_killed (killed : p.killed) : (runnerStep p i).killed := by
  rw [runnerStep_eq]
  split
  · exact Action.apply_killed _ i _ killed
  · exact killed

/-- A turn for signal `i` keeps whether any other signal is pending. -/
theorem runnerStep_pending_other {j : Nat} (other : j ≠ i.val) :
    (runnerStep p i).Pending j ↔ p.Pending j := by
  rw [runnerStep_eq]
  split
  · rename_i pending
    unfold Proc.Pending
    rw [Action.apply_pendingSignals]
    exact (clearPending_pending p i pending j).trans (and_iff_left other)
  · exact Iff.rfl

/-- The turn for a pending signal clears its bit. -/
theorem runnerStep_not_pending_self : ¬ (runnerStep p i).Pending i := by
  rw [runnerStep_eq]
  split
  · rename_i pending
    unfold Proc.Pending
    rw [Action.apply_pendingSignals]
    intro again
    exact ((clearPending_pending p i pending i).mp again).2 rfl
  · assumption

/-- The turn for SIGKILL sets the kill flag when SIGKILL is pending. -/
theorem runnerStep_sigkill {i : Fin 32} (nine : i.val = sigkill) (pending : p.Pending sigkill) :
    (runnerStep p i).killed := by
  rw [runnerStep_eq, if_pos (nine ▸ pending)]
  have choice : action p i = .kill := by
    have distinct : sigkill ≠ sigstop := by decide
    simp [action, nine, distinct]
  rw [choice]
  rfl

end Lemmas

section Runner

variable {p : Proc}

/-- A property that every turn keeps holds after any list of turns. -/
theorem foldl_runnerStep_induction (keeps : Proc → Prop)
    (step : ∀ q i, keeps q → keeps (runnerStep q i)) (turns : List (Fin 32)) (start : keeps p) :
    keeps (turns.foldl runnerStep p) := by
  induction turns generalizing p with
  | nil => exact start
  | cons i turns ih => exact ih (step p i start)

/-- The runner leaves the process in its place. -/
theorem sigHandlerRunner_unmoved : Unmoved p (sigHandlerRunner p) := by
  unfold sigHandlerRunner
  split
  · exact Unmoved.refl p
  · exact foldl_runnerStep_induction (Unmoved p)
      (fun q i early => early.trans (runnerStep_unmoved q i)) _ (Unmoved.refl p)

/-- `sigaction` changes the caller's handlers, mask and memory only. -/
theorem sigaction_unmoved (signum : Fin 32) (act oldact : UInt32) :
    Unmoved p (sigaction p signum act oldact).1 := by
  unfold sigaction
  split
  · exact Unmoved.refl p
  · exact ⟨rfl, rfl, rfl, rfl, rfl, rfl⟩

/-- On a return to user mode the runner sets the kill flag of a process with SIGKILL pending:
turns before SIGKILL's keep the bit, SIGKILL's turn sets the flag, and later turns keep it. -/
theorem sigHandlerRunner_killed_of_sigkill (toUser : p.tf.cs &&& 3 = dplUser)
    (marked : p.Pending sigkill ∨ p.killed) : (sigHandlerRunner p).killed := by
  have split : List.finRange 32 = (List.finRange 32).take 9 ++ [9] ++ (List.finRange 32).drop 10 := by
    decide
  unfold sigHandlerRunner
  rw [if_neg (not_not.mpr toUser), split, List.foldl_append, List.foldl_append]
  have early : ∀ turns : List (Fin 32), (∀ j ∈ turns, j.val ≠ sigkill) →
      ∀ q : Proc, (q.Pending sigkill ∨ q.killed) →
        ((turns.foldl runnerStep q).Pending sigkill ∨ (turns.foldl runnerStep q).killed) := by
    intro turns avoid
    induction turns with
    | nil => exact fun q marked => marked
    | cons j turns ih =>
      intro q marked
      apply ih (fun j' inside => avoid j' (List.mem_cons_of_mem _ inside))
      rcases marked with pending | killed
      · exact Or.inl ((runnerStep_pending_other q j (avoid j List.mem_cons_self).symm).mpr pending)
      · exact Or.inr (runnerStep_killed q j killed)
  have before := early ((List.finRange 32).take 9) (by decide) p marked
  have atNine : (runnerStep (List.foldl runnerStep p ((List.finRange 32).take 9)) 9).killed := by
    rcases before with pending | killed
    · exact runnerStep_sigkill _ rfl pending
    · exact runnerStep_killed _ 9 killed
  simp only [List.foldl_cons, List.foldl_nil]
  exact foldl_runnerStep_induction (fun q => q.killed = true)
    (fun q i set => runnerStep_killed q i set) _ atNine

/-- With no signal pending, the turns change nothing. -/
theorem foldl_runnerStep_of_none (idle : p.pendingSignals = 0) (turns : List (Fin 32)) :
    turns.foldl runnerStep p = p := by
  induction turns with
  | nil => rfl
  | cons i turns ih =>
    have quiet : p.pendingSignals &&& sigBit i = 0 := by simp [idle]
    rw [List.foldl_cons, runnerStep_of_not_pending p i quiet, ih]

/-- The runner changes nothing while no signal is pending. -/
theorem sigHandlerRunner_of_none (idle : p.pendingSignals = 0) : sigHandlerRunner p = p := by
  unfold sigHandlerRunner
  split
  · rfl
  · exact foldl_runnerStep_of_none idle _

/-- With only signal `i` pending, turns that visit `i` once take its action once: the turns
before it find nothing, and after it nothing is pending. -/
theorem foldl_runnerStep_of_single {i : Fin 32} (only : p.pendingSignals = sigBit i)
    {turns : List (Fin 32)} (visits : i ∈ turns) (distinct : turns.Nodup) :
    turns.foldl runnerStep p = (action p i).apply (clearPending p i) i := by
  induction turns with
  | nil => cases visits
  | cons j turns ih =>
    rw [List.foldl_cons]
    by_cases same : j = i
    · subst same
      have pending : p.Pending j := by
        simp [Proc.Pending, only, sigBit_toBitVec]
      rw [runnerStep_eq, if_pos pending]
      apply foldl_runnerStep_of_none
      simp [Action.apply_pendingSignals, clearPending, only]
    · have quiet : p.pendingSignals &&& sigBit j = 0 := by
        rw [only]
        exact sigBit_and_sigBit (Ne.symm same)
      rw [runnerStep_of_not_pending p j quiet]
      exact ih ((List.mem_cons.mp visits).resolve_left (fun back => same back.symm))
        (List.nodup_cons.mp distinct).2

/-- On a return to user mode with only signal `i` pending, the runner takes `i`'s action. -/
theorem sigHandlerRunner_of_single {i : Fin 32} (toUser : p.tf.cs &&& 3 = dplUser)
    (only : p.pendingSignals = sigBit i) :
    sigHandlerRunner p = (action p i).apply (clearPending p i) i := by
  unfold sigHandlerRunner
  rw [if_neg (not_not.mpr toUser)]
  exact foldl_runnerStep_of_single only (List.mem_finRange i) (List.nodup_finRange 32)

end Runner

end Xv6.Kernel
