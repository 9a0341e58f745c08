import Mathlib.Data.List.FinRange
import Xv6.Verif.Kill

/-!
# What the runner does with each signal

One pass of `sig_handler_runner` visits the 32 signals in order. The turn for a signal that is
not pending does nothing; the turn for a pending one clears its bit and takes the action that
`action` picks from the mask and the handlers, which no turn changes, so every pending signal
gets the action its disposition at the start of the pass gives. The bit is cleared before the
mask is tested: a blocked signal is dropped, not deferred, and after the pass no signal is
pending at all. A handler that is neither SIG_DFL nor SIG_IGN is entered as a user address,
the address of `SIGCONT_handler` included, which the scheduler's freeze check reads as the
continue action.

The scheduler's freeze check, for its part, calls `SIGCONT_handler` with no current process,
which faults in the kernel: a frozen process is never continued without a kernel panic.
-/

namespace Xv6.Kernel

open Xv6.Bytes Xv6.Run Machine

section Runner

variable {p : Proc}

/-- The runner's loop after its first `k` turns. -/
def runnerTurns (p : Proc) (k : Nat) : Proc := ((List.finRange 32).take k).foldl runnerStep p

theorem runnerTurns_succ {k : Nat} (inside : k < 32) :
    runnerTurns p (k + 1) = runnerStep (runnerTurns p k) ⟨k, inside⟩ := by
  simp [runnerTurns, List.take_add_one, inside, List.foldl_append]

theorem sigHandlerRunner_eq_runnerTurns (toUser : p.tf.cs &&& 3 = dplUser) :
    sigHandlerRunner p = runnerTurns p 32 := by
  simp [sigHandlerRunner, toUser, runnerTurns, List.take_of_length_le]

@[simp] theorem sigstopHandler_signalMask : (sigstopHandler p).signalMask = p.signalMask := by
  unfold sigstopHandler
  split <;> rfl

@[simp] theorem sigstopHandler_signalHandlers :
    (sigstopHandler p).signalHandlers = p.signalHandlers := by
  unfold sigstopHandler
  split <;> rfl

/-- No action changes the mask or the handlers. -/
theorem Action.apply_disposition (act : Action) (i : Fin 32) :
    (act.apply p i).signalMask = p.signalMask ∧ (act.apply p i).signalHandlers = p.signalHandlers := by
  cases act <;> simp [Action.apply, sigkillHandler, sigcontHandler, deliver]

/-- The action of a signal depends only on the mask and the handlers. -/
theorem action_congr {q : Proc} (mask : q.signalMask = p.signalMask)
    (handlers : q.signalHandlers = p.signalHandlers) (i : Fin 32) : action q i = action p i := by
  unfold action
  rw [mask, handlers]

theorem runnerStep_disposition (i : Fin 32) :
    (runnerStep p i).signalMask = p.signalMask ∧
      (runnerStep p i).signalHandlers = p.signalHandlers := by
  rw [runnerStep_eq]
  split
  · exact Action.apply_disposition _ i
  · exact ⟨rfl, rfl⟩

theorem runnerTurns_disposition (k : Nat) :
    (runnerTurns p k).signalMask = p.signalMask ∧
      (runnerTurns p k).signalHandlers = p.signalHandlers :=
  foldl_runnerStep_induction (fun q => q.signalMask = p.signalMask ∧ q.signalHandlers = p.signalHandlers)
    (fun _ i kept => ⟨(runnerStep_disposition i).1.trans kept.1,
      (runnerStep_disposition i).2.trans kept.2⟩) _ ⟨rfl, rfl⟩

/-- After `k` turns the signals below `k` are no longer pending and the others are as they
were. -/
theorem runnerTurns_pending {k : Nat} (inside : k ≤ 32) (j : Nat) :
    (runnerTurns p k).Pending j ↔ p.Pending j ∧ k ≤ j := by
  induction k with
  | zero => simp [runnerTurns]
  | succ k ih =>
    rw [runnerTurns_succ (by omega)]
    by_cases same : j = k
    · subst same
      have cleared := runnerStep_not_pending_self (runnerTurns p j) ⟨j, by omega⟩
      exact ⟨fun pending => absurd pending cleared, fun ⟨_, after⟩ => absurd after (by omega)⟩
    · rw [runnerStep_pending_other _ _ same, ih (by omega)]
      constructor
      · rintro ⟨pending, after⟩
        exact ⟨pending, by omega⟩
      · rintro ⟨pending, after⟩
        exact ⟨pending, by omega⟩

/-- The turn for signal `i`: nothing if it was not pending at the start of the pass, else its
bit is cleared and it takes the action its disposition at the start gives. -/
theorem runnerTurns_turn (i : Fin 32) :
    runnerTurns p (i.val + 1) =
      if p.Pending i then (action p i).apply (clearPending (runnerTurns p i) i) i
      else runnerTurns p i := by
  rw [runnerTurns_succ i.isLt, runnerStep_eq]
  have pending : (runnerTurns p i).Pending i ↔ p.Pending i := by
    rw [runnerTurns_pending (by omega)]
    exact and_iff_left (Nat.le_refl _)
  obtain ⟨mask, handlers⟩ := runnerTurns_disposition (p := p) i
  simp only [pending, action_congr mask handlers]

/-- A signal number past 31 is never pending. -/
theorem Proc.not_pending_of_le {j : Nat} (past : 32 ≤ j) : ¬ p.Pending j := by
  simp [Proc.Pending, BitVec.getLsbD_of_ge _ _ past]

/-- Only the default SIGCONT action unfreezes. -/
theorem Action.apply_freeze {act : Action} (notCont : act ≠ .cont) (frozen : p.freeze)
    (i : Fin 32) : (act.apply p i).freeze := by
  cases act
  case cont => exact absurd rfl notCont
  case stop =>
    simp only [Action.apply, sigstopHandler]
    split
    · exact frozen
    · rfl
  all_goals exact frozen

/-- A frozen process stays frozen through the turns from `k` on while no pending signal among
them has the continue action. -/
theorem runnerTurns_freeze {k : Nat} (frozen : (runnerTurns p k).freeze)
    (noCont : ∀ i : Fin 32, k ≤ i.val → p.Pending i → action p i ≠ .cont) :
    ∀ m, k + m ≤ 32 → (runnerTurns p (k + m)).freeze := by
  intro m
  induction m with
  | zero => exact fun _ => frozen
  | succ m ih =>
    intro inside
    have turn := runnerTurns_turn (p := p) ⟨k + m, by omega⟩
    rw [show k + (m + 1) = k + m + 1 from rfl, turn]
    split
    · rename_i pending
      have stillFrozen : (clearPending (runnerTurns p (k + m)) ⟨k + m, by omega⟩).freeze :=
        ih (by omega)
      exact Action.apply_freeze (noCont _ (by simp) pending) stillFrozen _
    · exact ih (by omega)

/-- SIGSTOP's turn freezes a process that is not asleep. -/
theorem runnerTurns_sigstop (awake : p.state ≠ .sleeping) (pending : p.Pending sigstop) :
    (runnerTurns p (sigstop + 1)).freeze := by
  have turn := runnerTurns_turn (p := p) ⟨sigstop, by decide⟩
  rw [turn, if_pos pending]
  have chosen : action p ⟨sigstop, by decide⟩ = .stop := by simp [action]
  have stillAwake : (clearPending (runnerTurns p sigstop) ⟨sigstop, by decide⟩).state ≠ .sleeping := by
    have unmoved := foldl_runnerStep_induction (Unmoved p)
      (fun q i early => early.trans (runnerStep_unmoved q i)) ((List.finRange 32).take sigstop)
      (Unmoved.refl p)
    show (runnerTurns p sigstop).state ≠ .sleeping
    rw [show runnerTurns p sigstop = ((List.finRange 32).take sigstop).foldl runnerStep p from rfl,
      unmoved.state]
    exact awake
  rw [chosen]
  simp [Action.apply, sigstopHandler, stillAwake]

end Runner

/-- One pass of the runner on a frame that returns to user mode. Each signal's turn does nothing if
the signal was not pending, and otherwise clears its bit and takes the action that the mask and
handlers at the start of the pass give it. After the pass no signal is pending, blocked ones
included. SIGKILL kills. SIGSTOP freezes a process that is not asleep unless a pending SIGCONT with
the continue action comes after it. Every handler other than SIG_DFL and SIG_IGN of an unblocked
signal other than SIGSTOP and SIGKILL is entered as a user address. Only SIGCONT's turn could
unfreeze, and it does not have the continue action. -/
theorem sigHandlerRunner_dispatch (p : Proc) (toUser : p.tf.cs &&& 3 = dplUser) :
    (∀ i : Fin 32, runnerTurns p (i.val + 1) =
      if p.Pending i then (action p i).apply (clearPending (runnerTurns p i) i) i
      else runnerTurns p i) ∧
    sigHandlerRunner p = runnerTurns p 32 ∧
    (∀ j, ¬ (sigHandlerRunner p).Pending j) ∧
    (p.Pending sigkill → (sigHandlerRunner p).killed) ∧
    (p.Pending sigstop → p.state ≠ .sleeping →
      ¬ (p.Pending sigcont ∧ action p ⟨sigcont, by decide⟩ = .cont) →
      (sigHandlerRunner p).freeze) ∧
    (∀ i : Fin 32, i.val ≠ sigstop → i.val ≠ sigkill → ¬ p.signalMask.toBitVec.getLsbD i →
      p.signalHandlers i ≠ sigDfl → p.signalHandlers i ≠ sigIgn → action p i = .handle) := by
  have runs := sigHandlerRunner_eq_runnerTurns toUser
  refine ⟨runnerTurns_turn, runs, fun j pending => ?_, fun pending => ?_,
    fun pending awake noCont => ?_, fun i notStop notKill unmasked notDfl notIgn => ?_⟩
  · rw [runs, runnerTurns_pending (Nat.le_refl _)] at pending
    exact Proc.not_pending_of_le pending.2 pending.1
  · exact sigHandlerRunner_killed_of_sigkill toUser (.inl pending)
  · have frozen := runnerTurns_sigstop awake pending
    have later : ∀ i : Fin 32, sigstop + 1 ≤ i.val → p.Pending i → action p i ≠ .cont := by
      intro i _ pendingI chosen
      have isCont : i.val = sigcont := by
        unfold action at chosen
        split_ifs at chosen with stop kill masked cont
        exact cont.1
      have same : i = ⟨sigcont, by decide⟩ := Fin.ext isCont
      subst same
      exact noCont ⟨pendingI, chosen⟩
    rw [runs]
    exact runnerTurns_freeze frozen later (32 - (sigstop + 1)) (by decide)
  · unfold action
    rw [if_neg notStop, if_neg notKill, if_neg unmasked, if_neg fun cont => notDfl cont.2,
      if_neg notDfl, if_neg notIgn]

/-- A process back from a trap with signal 3 pending and blocked, and signal 5 pending with a
kernel address, as that of `SIGCONT_handler`, for its handler; it is frozen. -/
def blockedProc : Proc :=
  { Proc.empty with
    state := .running
    tf := initcodeFrame
    pendingSignals := sigBit 3 ||| sigBit 5
    signalMask := sigBit 3
    signalHandlers := fun i => if i.val = 5 then 0x80100000 else sigDfl
    freeze := true }

/-- The runner drops the blocked signal 3, and enters the handler of signal 5 at its kernel
address as a user handler, leaving the process frozen. -/
theorem sigHandlerRunner_drops_blocked :
    blockedProc.tf.cs &&& 3 = dplUser ∧ blockedProc.Pending 3 ∧
      blockedProc.signalMask.toBitVec.getLsbD 3 = true ∧ ¬ (sigHandlerRunner blockedProc).Pending 3 ∧
      action blockedProc 5 = .handle ∧ (sigHandlerRunner blockedProc).tf.eip = 0x80100000 ∧
      (sigHandlerRunner blockedProc).freeze = true := by
  have toUser : blockedProc.tf.cs &&& 3 = dplUser := by decide
  have dispatch := sigHandlerRunner_dispatch blockedProc toUser
  refine ⟨toUser, by decide, by decide, dispatch.2.2.1 3, ?_, by decide +kernel, by decide +kernel⟩
  exact dispatch.2.2.2.2.2 5 (by decide) (by decide) (by decide) (by decide) (by decide)

/-! ## The scheduler's freeze check -/

/-- The scheduler's visit to a RUNNABLE frozen process. A request to continue it calls
`SIGCONT_handler` with no current process; the write through the null pointer faults in the
kernel and the kernel panics. Without one the process is skipped. Either way no process
changes: the check never unfreezes a process and never clears a pending signal. -/
theorem scheduleSlot_frozen (k : Machine) {slot : Nat} (runnable : (k.proc slot).state = .runnable)
    (frozen : (k.proc slot).freeze = true) :
    (∀ q, (scheduleSlot k slot).proc q = k.proc q) ∧
      (scheduleSlot k slot).panicked =
        if continueRequested k (k.proc slot) then some "trap" else k.panicked := by
  unfold scheduleSlot
  simp only [runnable, ne_eq, not_true_eq_false, if_false, frozen, if_true]
  split
  · exact ⟨fun q => panic_proc k _ q, rfl⟩
  · exact ⟨fun _ => rfl, rfl⟩

/-- From `frozenMachine`, where pid 2 is frozen and RUNNABLE, init's user code writes the
arguments (2, SIGCONT) at 3004 and calls `kill`. -/
def continuedMachine : Machine :=
  let init := frozenMachine.proc 0
  run step frozenMachine
    [.user 0 { init.tf with eax := 6, esp := 3000 } (init.memory.write 3004 (le32 2 ++ le32 19)),
      .trap 0 (.syscall .ok 0), .resume 0, .resume 0]

theorem continuedMachine_reachable : Reachable step (boot 0 scenarioMemory) continuedMachine := by
  have forked := forkedMachine_reachable
  have frozen : Reachable step (boot 0 scenarioMemory) frozenMachine :=
    reachable_syscallRun ((reachable_syscallRun (reachable_syscallRun forked 0 6 2024) 1 11 1000).run
      [.trap 1 .timer]) 0 6 2008
  exact frozen.run _

/-- The scheduler's visit to pid 2 after `kill(2, SIGCONT)` panics the kernel and leaves pid 2
frozen. -/
theorem scheduleSlot_frozen_continued :
    Reachable step (boot 0 scenarioMemory) continuedMachine ∧
      (continuedMachine.proc 1).state = .runnable ∧ (continuedMachine.proc 1).freeze = true ∧
      (scheduleSlot continuedMachine 1).panicked = some "trap" ∧
      ((scheduleSlot continuedMachine 1).proc 1).freeze = true := by
  have runnable : (continuedMachine.proc 1).state = .runnable := by decide +kernel
  have frozen : (continuedMachine.proc 1).freeze = true := by decide +kernel
  obtain ⟨kept, panicked⟩ := scheduleSlot_frozen continuedMachine runnable frozen
  refine ⟨continuedMachine_reachable, runnable, frozen, ?_, ?_⟩
  · rw [panicked]
    decide +kernel
  · rw [kept]
    exact frozen

end Xv6.Kernel
