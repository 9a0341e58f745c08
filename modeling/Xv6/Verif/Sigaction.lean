import Xv6.Kernel.Sigaction

/-!
# sigaction stores past the handler array

`sigaction` refuses SIGKILL and SIGSTOP and nothing else: every other int is taken as an index
of `signal_handlers`, and the call returns 0. Just past the array the store lands in
`user_trap_fram_backup` or `freeze`, and just before it in `signal_mask` or
`pending_signals`, so a process can clear a pending SIGKILL or freeze itself with one call.
-/

namespace Xv6.Kernel

open Xv6.Bytes

/-- `sigaction` on every int signal number. SIGKILL and SIGSTOP are refused and nothing
changes. Every other number the model follows returns 0, not -1, after storing the handler read
from `*act` into the word of struct proc that the number names, in the handler array or beside
it, and then the mask; the numbers from -2 to 34 are the ones the model follows, and for each
the call runs whenever it can read the old handler it reports. Inside the array this is the
kernel step's `sigaction`. No call moves the process or changes its trap frame or kill flag. -/
theorem sigaction_any_signum (p : Proc) (signum : Int) (act oldact : UInt32) :
    ((signum = sigkill ∨ signum = sigstop) → sigactionAt p signum act oldact = some (p, -1)) ∧
    (¬ (signum = sigkill ∨ signum = sigstop) →
      ∀ result, sigactionAt p signum act oldact = some result →
        result.2 = 0 ∧ ∃ word memory, signalWord signum = some word ∧
          oldactMemory p word oldact = some memory ∧
          result.1 = storeDisposition p word memory act) ∧
    (¬ (signum = sigkill ∨ signum = sigstop) → ∀ word, signalWord signum = some word →
      (oldact = 0 ∨ (p.readSignalWord word).isSome) →
        (sigactionAt p signum act oldact).isSome) ∧
    (signalWord signum = none ↔ signum < -2 ∨ 34 < signum) ∧
    (∀ i : Fin 32, (i.val : Int) = signum →
      sigactionAt p signum act oldact = some (sigaction p i act oldact)) ∧
    (∀ result, sigactionAt p signum act oldact = some result →
      Unmoved p result.1 ∧ result.1.tf = p.tf ∧ result.1.killed = p.killed) := by
  refine ⟨sigactionAt_refused, fun accepted result ran => ?_,
    fun accepted _ named readable => sigactionAt_isSome accepted named readable,
    signalWord_eq_none_iff signum, fun i same => same ▸ sigactionAt_handler i act oldact,
    fun result ran => ?_⟩
  · obtain ⟨word, memory, named, written, rfl⟩ := sigactionAt_accepted accepted ran
    exact ⟨rfl, word, memory, named, written, rfl⟩
  · by_cases refused : signum = sigkill ∨ signum = sigstop
    · rw [sigactionAt_refused refused] at ran
      cases ran
      exact ⟨Unmoved.refl p, rfl, rfl⟩
    · obtain ⟨word, memory, -, -, rfl⟩ := sigactionAt_accepted refused ran
      have stored := Proc.writeSignalWord_unmoved ({ p with memory := memory } : Proc) word
        (memory.read32 act)
      exact ⟨⟨stored.sz, stored.state, stored.pid, stored.parent, stored.context,
        stored.chan⟩, Proc.writeSignalWord_tf _ _ _, Proc.writeSignalWord_killed _ _ _⟩

/-- A process with SIGKILL pending and, at 0x800, a `struct sigaction` with handler 1 and an
empty mask. -/
def sigkillPendingProc : Proc :=
  { Proc.empty with
    sz := 4096
    state := .running
    pendingSignals := sigBit sigkill
    signalHandlers := fun _ => sigDfl
    memory := Memory.write (fun _ => 0) 0x800 (sigactionBytes 1 0) }

/-- `sigaction(-2, 0x800, 0)` returns 0 and stores the handler over `pending_signals`, which
clears the pending SIGKILL; `sigaction(33, 0x800, 0)` returns 0 and freezes the caller. -/
theorem sigaction_clears_sigkill :
    sigkillPendingProc.Pending sigkill ∧
      (∃ result, sigactionAt sigkillPendingProc (-2) 0x800 0 = some result ∧ result.2 = 0 ∧
        ¬ result.1.Pending sigkill) ∧
      (∃ result, sigactionAt sigkillPendingProc 33 0x800 0 = some result ∧ result.2 = 0 ∧
        result.1.freeze = true) := by
  have unchanged :
      ∀ word, oldactMemory sigkillPendingProc word 0 = some sigkillPendingProc.memory :=
    fun _ => rfl
  have outcome : ∀ (signum : Int) (word : SignalWord),
      ¬ (signum = sigkill ∨ signum = sigstop) → signalWord signum = some word →
      ∃ result, sigactionAt sigkillPendingProc signum 0x800 0 = some result ∧ result.2 = 0 ∧
        result.1 = storeDisposition sigkillPendingProc word sigkillPendingProc.memory 0x800 := by
    intro signum word accepted named
    have spec := sigaction_any_signum sigkillPendingProc signum 0x800 0
    obtain ⟨result, ran⟩ :=
      Option.isSome_iff_exists.mp (spec.2.2.1 accepted word named (.inl rfl))
    obtain ⟨zero, found, memory, foundNamed, written, shape⟩ := spec.2.1 accepted result ran
    obtain rfl : found = word := Option.some.inj (foundNamed.symm.trans named)
    obtain rfl : memory = sigkillPendingProc.memory :=
      Option.some.inj (written.symm.trans (unchanged _))
    exact ⟨result, ran, zero, shape⟩
  obtain ⟨cleared, clearedRan, clearedZero, clearedShape⟩ :=
    outcome (-2) .pendingSignals (by decide) (by decide)
  obtain ⟨frozen, frozenRan, frozenZero, frozenShape⟩ :=
    outcome 33 .freeze (by decide) (by decide)
  refine ⟨by decide, ⟨cleared, clearedRan, clearedZero, ?_⟩,
    ⟨frozen, frozenRan, frozenZero, ?_⟩⟩
  · rw [clearedShape]
    decide +kernel
  · rw [frozenShape]
    decide +kernel

end Xv6.Kernel
