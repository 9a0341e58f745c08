import Xv6.Kernel.Isolation
import Xv6.Lib.Run

/-!
# How final SIGKILL is

`kill(pid, SIGKILL)` only sets a pending bit (and wakes a sleeping target). The kill flag is set
by `sig_handler_runner` at trapret, after trap's last test of the flag, and the runner goes on to
the later signals of the same pass, so the target goes back to user mode once more, possibly
into a user handler. A frozen target is not woken, and a sleeper that wakes in a killable loop
tests the flag, finds it clear and may sleep again.

What does hold is a bound: from the moment `kill` returns 0 for a live process, that process
returns to user mode at most once more while it lives. Until the runner sets the flag the bit
stays pending; once the flag is set, every path back to user mode tests it first, except the
trapret and forkret points that have no test ahead of them. A frame whose code segment is not
the user one (which `sigret` can load from user memory) returns to kernel mode and is not
counted as a return to user mode.
-/

namespace Xv6.Kernel

open Xv6.Bytes Xv6.Run Machine

/-- Signalled to die: SIGKILL pending or the kill flag set. -/
def Doomed (p : Proc) : Prop := p.Pending sigkill ∨ p.killed

/-- Killed, with no return to user mode ahead that skips the test of the flag: neither at
trapret nor a new child at forkret. -/
def Settled (p : Proc) : Prop := p.killed ∧ p.context ≠ .trapret ∧ p.context ≠ .forkret

/-- The step from `before` to `after` returns to user mode: trapret's iret to a user code
segment. -/
def Returned (before after : Proc) : Prop :=
  before.context = .trapret ∧ after.context = .user ∧ after.tf.cs &&& 3 = dplUser

instance (before after : Proc) : Decidable (Returned before after) :=
  inferInstanceAs (Decidable (_ ∧ _ ∧ _))

/-- The returns to user mode of the process in `slot` along a run, counted while it is live. -/
def userReturns (slot : Nat) : Machine → List Event → Nat
  | _, [] => 0
  | k, event :: events =>
    if (k.proc slot).Alive then
      (if Returned (k.proc slot) ((step k event).proc slot) then 1 else 0) +
        userReturns slot (step k event) events
    else 0

theorem Keeps.doomed {p q : Proc} (keeps : Keeps p q) (doomed : Doomed p) : Doomed q :=
  doomed.imp (keeps.pending sigkill) keeps.killed

section Step

variable {k : Machine} {s : Nat}

/-- The runner at trapret sets the kill flag of a doomed process returning to user mode, and
changes nothing for a frame that returns to kernel mode. -/
theorem runner_doomed {p : Proc} (doomed : Doomed p) :
    (sigHandlerRunner p).killed ∨ (p.tf.cs &&& 3 ≠ dplUser ∧ sigHandlerRunner p = p) := by
  by_cases toUser : p.tf.cs &&& 3 = dplUser
  · exact Or.inl (sigHandlerRunner_killed_of_sigkill toUser doomed)
  · refine Or.inr ⟨toUser, ?_⟩
    unfold sigHandlerRunner
    rw [if_pos toUser]

/-- trapret of the process in slot `s` when it runs, and nothing otherwise. -/
theorem resume_at_trapret (atTrapret : (k.proc s).context = .trapret) :
    ((k.proc s).state = .running ∧
      resume k s = k.setProc s { sigHandlerRunner (k.proc s) with context := .user }) ∨
      resume k s = k := by
  by_cases running : (k.proc s).state = .running
  · exact Or.inl ⟨running, resume_trapret running atTrapret⟩
  · exact Or.inr (by simp [resume, running])

/-- A doomed process stays doomed through every event that makes no stray store, its own or
another's. -/
theorem doomed_step (live : (k.proc s).Alive) (doomed : Doomed (k.proc s)) {event : Event}
    (tame : (step k event).strayed = false) : Doomed ((step k event).proc s) := by
  have inside := lt_length_of_alive live
  by_cases calm : k.panicked = none
  · by_cases own : event.slot = s
    · cases event with
      | schedule slot =>
        obtain rfl : slot = s := own
        rw [step_schedule calm]
        exact (keeps_scheduleSlot inside).doomed doomed
      | user slot regs memory =>
        obtain rfl : slot = s := own
        rw [step_user calm]
        exact (keeps_userRun inside regs memory).doomed doomed
      | trap slot kind =>
        obtain rfl : slot = s := own
        rw [step_trap calm] at tame ⊢
        exact ((keeps_trap live kind).resolve_right (by simp [tame])).doomed doomed
      | resume slot =>
        obtain rfl : slot = s := own
        rw [step_resume calm]
        by_cases atTrapret : (k.proc slot).context = .trapret
        · rcases resume_at_trapret atTrapret with ⟨-, ran⟩ | same
          · rw [ran, proc_setProc_self _ _ inside]
            rcases runner_doomed doomed with killed | ⟨-, unchanged⟩
            · exact Or.inr killed
            · rw [unchanged]
              exact doomed
          · rwa [same]
        · exact (keeps_resume live atTrapret).doomed doomed
    · exact (((spares_step_of_tame tame).others s (Ne.symm own) live).keeps).doomed doomed
  · rwa [step_of_panicked calm]

/-- A settled process's next part of its kernel path returns, sleeps or exits; none of these is
trapret or forkret. -/
theorem resume_of_settled (live : (k.proc s).Alive) (settled : Settled (k.proc s)) :
    (((resume k s).proc s).context ≠ .trapret ∧ ((resume k s).proc s).context ≠ .forkret) ∨
      ((resume k s).proc s).state = .zombie := by
  have inside := lt_length_of_alive live
  have unchanged : ((k.proc s).context ≠ .trapret ∧ (k.proc s).context ≠ .forkret) :=
    settled.2
  unfold resume
  dsimp only
  split
  · exact Or.inl unchanged
  · split
    · rw [if_pos settled.1]
      rcases exit_proc_self k inside with same | zombie
      · exact Or.inl (same ▸ unchanged)
      · exact Or.inr zombie
    · rw [if_pos settled.1]
      rcases exit_proc_self k inside with same | zombie
      · exact Or.inl (same ▸ unchanged)
      · exact Or.inr zombie
    · rename_i atTrapret
      exact absurd atTrapret settled.2.1
    · rename_i atForkret
      exact absurd atForkret settled.2.2
    · rename_i loop _
      have stillLive : ((k.setProc s { k.proc s with chan := .none }).proc s).Alive :=
        alive_setProc inside live
      have stillInside : s < (k.setProc s { k.proc s with chan := .none }).procs.length := by
        simpa using inside
      split
      · rcases waitLoop_context stillLive with done | asleep
        · exact Or.inl ⟨by rw [done]; decide, by rw [done]; decide⟩
        · exact Or.inl ⟨by rw [asleep]; decide, by rw [asleep]; decide⟩
      · rcases ticksLoop_context stillInside _ _ with done | asleep
        · exact Or.inl ⟨by rw [done]; decide, by rw [done]; decide⟩
        · exact Or.inl ⟨by rw [asleep]; simp, by rw [asleep]; simp⟩
    · exact Or.inl unchanged
    · exact Or.inl unchanged

/-- A settled process stays settled through every event that makes no stray store, while it
lives. -/
theorem settled_step (live : (k.proc s).Alive) (settled : Settled (k.proc s)) {event : Event}
    (tame : (step k event).strayed = false) (stillLive : ((step k event).proc s).Alive) :
    Settled ((step k event).proc s) := by
  have inside := lt_length_of_alive live
  have notZombie : ((step k event).proc s).state ≠ .zombie := stillLive.2
  by_cases calm : k.panicked = none
  · by_cases own : event.slot = s
    · cases event with
      | schedule slot =>
        obtain rfl : slot = s := own
        rw [step_schedule calm] at notZombie ⊢
        refine ⟨(keeps_scheduleSlot inside).killed settled.1, ?_⟩
        rw [scheduleSlot_context inside]
        exact settled.2
      | user slot regs memory =>
        obtain rfl : slot = s := own
        rw [step_user calm] at notZombie ⊢
        refine ⟨(keeps_userRun inside regs memory).killed settled.1, ?_⟩
        rw [userRun_context inside]
        exact settled.2
      | trap slot kind =>
        obtain rfl : slot = s := own
        rw [step_trap calm] at notZombie tame ⊢
        refine ⟨((keeps_trap live kind).resolve_right (by simp [tame])).killed settled.1, ?_⟩
        rcases trap_of_killed live settled.1 kind with same | zombie
        · rw [same]
          exact settled.2
        · exact absurd zombie notZombie
      | resume slot =>
        obtain rfl : slot = s := own
        rw [step_resume calm] at notZombie ⊢
        refine ⟨(keeps_resume live settled.2.1).killed settled.1, ?_⟩
        rcases resume_of_settled live settled with unchecked | zombie
        · exact unchecked
        · exact absurd zombie notZombie
    · have disturbed := (spares_step_of_tame tame).others s (Ne.symm own) live
      exact ⟨disturbed.killed ▸ settled.1, disturbed.context ▸ settled.2⟩
  · rwa [step_of_panicked calm]

/-- A return to user mode of a doomed process leaves it settled: the runner set its flag on the
way. -/
theorem settled_of_returned (live : (k.proc s).Alive) (doomed : Doomed (k.proc s))
    {event : Event} (tame : (step k event).strayed = false)
    (returned : Returned (k.proc s) ((step k event).proc s)) :
    Settled ((step k event).proc s) := by
  have inside := lt_length_of_alive live
  obtain ⟨atTrapret, inUser, toUser⟩ := returned
  have entered : ((step k event).proc s).context ≠ (k.proc s).context := by
    rw [inUser, atTrapret]
    decide
  have settle : ((step k event).proc s).killed → Settled ((step k event).proc s) :=
    fun killed => ⟨killed, by rw [inUser]; decide, by rw [inUser]; decide⟩
  by_cases calm : k.panicked = none
  · by_cases own : event.slot = s
    · cases event with
      | schedule slot =>
        obtain rfl : slot = s := own
        rw [step_schedule calm, scheduleSlot_context inside] at entered
        exact absurd rfl entered
      | user slot regs memory =>
        obtain rfl : slot = s := own
        rw [step_user calm, userRun_context inside] at entered
        exact absurd rfl entered
      | trap slot kind =>
        obtain rfl : slot = s := own
        have refused : trap k slot kind = k := by
          simp [trap, atTrapret]
        rw [step_trap calm, refused] at entered
        exact absurd rfl entered
      | resume slot =>
        obtain rfl : slot = s := own
        rw [step_resume calm] at entered toUser settle ⊢
        rcases resume_at_trapret atTrapret with ⟨-, ran⟩ | same
        · rw [ran, proc_setProc_self _ _ inside] at toUser settle ⊢
          rcases runner_doomed doomed with killed | ⟨kernelMode, unchanged⟩
          · exact settle killed
          · rw [unchanged] at toUser
            exact absurd toUser kernelMode
        · rw [same] at entered
          exact absurd rfl entered
    · have disturbed := (spares_step_of_tame tame).others s (Ne.symm own) live
      exact absurd disturbed.context entered
  · rw [step_of_panicked calm] at entered
    exact absurd rfl entered

end Step

section Run

variable {s : Nat}

theorem userReturns_of_not_alive {k : Machine} (dead : ¬ (k.proc s).Alive) (events : List Event) :
    userReturns s k events = 0 := by
  cases events with
  | nil => rfl
  | cons event events => simp [userReturns, dead]

/-- A settled process never returns to user mode again along a run with no stray store. -/
theorem userReturns_of_settled {k : Machine} (live : (k.proc s).Alive)
    (settled : Settled (k.proc s)) {events : List Event}
    (tame : (run step k events).strayed = false) : userReturns s k events = 0 := by
  induction events generalizing k with
  | nil => rfl
  | cons event events ih =>
    have quiet : ¬ Returned (k.proc s) ((step k event).proc s) :=
      fun returned => settled.2.1 returned.1
    rw [userReturns, if_pos live, if_neg quiet, Nat.zero_add]
    by_cases stillLive : ((step k event).proc s).Alive
    · exact ih stillLive (settled_step live settled (tame_of_run events tame) stillLive)
        tame
    · exact userReturns_of_not_alive stillLive events

/-- A doomed process returns to user mode at most once more along a run with no stray store:
the induction runs on the events, with the process doomed until its return and settled after
it. -/
theorem userReturns_of_doomed {k : Machine} (live : (k.proc s).Alive) (doomed : Doomed (k.proc s))
    {events : List Event} (tame : (run step k events).strayed = false) :
    userReturns s k events ≤ 1 := by
  induction events generalizing k with
  | nil => exact Nat.zero_le 1
  | cons event events ih =>
    have stepTame : (step k event).strayed = false := tame_of_run events tame
    rw [userReturns, if_pos live]
    by_cases returned : Returned (k.proc s) ((step k event).proc s)
    · have rest : userReturns s (step k event) events = 0 := by
        by_cases stillLive : ((step k event).proc s).Alive
        · exact userReturns_of_settled stillLive
            (settled_of_returned live doomed stepTame returned) tame
        · exact userReturns_of_not_alive stillLive events
      rw [if_pos returned, rest]
    · rw [if_neg returned, Nat.zero_add]
      by_cases stillLive : ((step k event).proc s).Alive
      · exact ih stillLive (doomed_step live doomed stepTame) tame
      · rw [userReturns_of_not_alive stillLive]
        exact Nat.zero_le 1

end Run

/-- Setting the bit of a signal below 32 adds that signal, and no other, to the pending ones. -/
theorem pending_or_sigBit_iff (p : Proc) {signum : Nat} (small : signum < 32) (j : Nat) :
    ({ p with pendingSignals := p.pendingSignals ||| sigBit signum } : Proc).Pending j ↔
      p.Pending j ∨ j = signum := by
  have bit := sigBit_toBitVec ⟨signum, small⟩
  simp only [Proc.Pending, UInt32.toBitVec_or, BitVec.getLsbD_or]
  rw [show sigBit signum = sigBit (⟨signum, small⟩ : Fin 32) from rfl, bit]
  simp only [BitVec.getLsbD_twoPow, small, decide_true, Bool.true_and, Bool.or_eq_true,
    decide_eq_true_eq]
  exact or_congr_right eq_comm

/-- A search of the table for a pid finds a slot exactly when some slot holds the pid, in
whatever state. -/
theorem findIdx?_pid_isSome (k : Machine) (pid : Int) :
    (k.procs.findIdx? (·.pid = pid)).isSome ↔ ∃ slot < k.procs.length, (k.proc slot).pid = pid := by
  rw [← Option.ne_none_iff_isSome, Ne, List.findIdx?_eq_none_iff]
  simp [proc, List.getD_eq_getElem?_getD, List.mem_iff_getElem]
  constructor
  · rintro ⟨slot, inside, rfl⟩
    exact ⟨slot, inside, by simp [inside]⟩
  · rintro ⟨slot, inside, same⟩
    exact ⟨slot, inside, by simpa [inside] using same⟩

/-- The process `kill` leaves in the slot it signals: the signal's bit set, and a sleeper woken
for SIGKILL only. -/
def signalled (p : Proc) (signum : Int) : Proc :=
  { p with pendingSignals := p.pendingSignals ||| sigBit signum.toNat,
           state := if p.state = .sleeping ∧ signum = sigkill then .runnable else p.state }

section Kill

variable {k : Machine} {pid signum : Int}

theorem kill_of_out_of_range (outside : ¬ (0 ≤ signum ∧ signum ≤ 31)) :
    kill k pid signum = (k, -1) := by
  have refused : signum < 0 ∨ signum > 31 := by omega
  unfold kill
  rw [if_pos refused]

theorem kill_of_not_found (missing : k.procs.findIdx? (·.pid = pid) = none) :
    kill k pid signum = (k, -1) := by
  unfold kill
  split
  · rfl
  · simp only [missing]

/-- `kill` of a pid that slot `slot` is the first to hold, with a signal number in range, is
`signalled` on that slot. The source's wake-up test and the one in `signalled` split together. -/
theorem kill_of_found {slot : Nat} (target : k.procs.findIdx? (·.pid = pid) = some slot)
    (inRange : 0 ≤ signum ∧ signum ≤ 31) :
    kill k pid signum = (k.setProc slot (signalled (k.proc slot) signum), 0) := by
  have accepted : ¬ (signum < 0 ∨ signum > 31) := by omega
  unfold kill
  rw [if_neg accepted]
  simp only [target, signalled]
  split <;> rfl

/-- `kill` of a pid that the table holds, with a signal number in range, returns 0 and makes the
signal pending in the first slot with the pid. -/
theorem kill_found {slot : Nat} (target : k.procs.findIdx? (·.pid = pid) = some slot)
    (inRange : 0 ≤ signum ∧ signum ≤ 31) :
    (kill k pid signum).2 = 0 ∧ ((kill k pid signum).1.proc slot).Pending signum.toNat := by
  have inside : slot < k.procs.length := (List.findIdx?_eq_some_iff_getElem.mp target).1
  have small : signum.toNat < 32 := by omega
  rw [kill_of_found target inRange, proc_setProc_self _ _ inside]
  exact ⟨rfl, (pending_or_sigBit_iff (k.proc slot) small _).mpr (.inr rfl)⟩

end Kill

/-- `kill` returns 0 exactly for a signal number in range and a pid that some slot holds, in
whatever state the slot is, UNUSED included. It then sets that signal's bit, and no other, in
the first slot with the pid, makes a sleeper there runnable for SIGKILL only, and changes no
other slot and nothing else of the machine. Otherwise it returns -1 and changes nothing. -/
theorem kill_spec (k : Machine) (pid signum : Int) :
    ((kill k pid signum).2 = 0 ↔
      (0 ≤ signum ∧ signum ≤ 31) ∧ ∃ slot < k.procs.length, (k.proc slot).pid = pid) ∧
    ((kill k pid signum).2 ≠ 0 → kill k pid signum = (k, -1)) ∧
    ∀ slot, k.procs.findIdx? (·.pid = pid) = some slot → 0 ≤ signum → signum ≤ 31 →
      (∀ other, other ≠ slot → (kill k pid signum).1.proc other = k.proc other) ∧
      { (kill k pid signum).1 with procs := k.procs } = k ∧
      (∀ j, ((kill k pid signum).1.proc slot).Pending j ↔
        (k.proc slot).Pending j ∨ j = signum.toNat) ∧
      (kill k pid signum).1.proc slot = signalled (k.proc slot) signum := by
  by_cases inRange : 0 ≤ signum ∧ signum ≤ 31
  · cases target : k.procs.findIdx? (·.pid = pid) with
    | none =>
      have failed : kill k pid signum = (k, -1) := kill_of_not_found target
      have missing : ¬ ∃ slot < k.procs.length, (k.proc slot).pid = pid := by
        rw [← findIdx?_pid_isSome, target]
        exact Bool.false_ne_true
      refine ⟨by simp [failed, missing], fun _ => failed, fun slot found => ?_⟩
      cases found
    | some slot =>
      have sent := kill_of_found target inRange
      have inside : slot < k.procs.length := (List.findIdx?_eq_some_iff_getElem.mp target).1
      have held := (findIdx?_pid_isSome k pid).mp (by rw [target]; rfl)
      refine ⟨by simp [sent, inRange, held], fun returned => absurd (by rw [sent]) returned,
        fun found first _ _ => ?_⟩
      obtain rfl : slot = found := Option.some.inj first
      have small : signum.toNat < 32 := by omega
      rw [sent, proc_setProc_self _ _ inside]
      exact ⟨fun other apart => proc_setProc_other _ _ apart, rfl,
        pending_or_sigBit_iff (k.proc slot) small, rfl⟩
  · have failed : kill k pid signum = (k, -1) := kill_of_out_of_range inRange
    exact ⟨by simp [failed, inRange], fun _ => failed,
      fun _ _ low high => absurd ⟨low, high⟩ inRange⟩

/-- On the booted table, where no process has pid 0, `kill(0, 5)` returns 0: the slots past
init's are UNUSED with pid 0, and the first of them is signalled. -/
theorem kill_unused_boot :
    (kill (boot 0 (fun _ => 0)) 0 5).2 = 0 ∧
      ∀ slot, ((boot 0 (fun _ => 0)).proc slot).pid = 0 →
        ((boot 0 (fun _ => 0)).proc slot).state = .unused := by
  have heldByUnused : ((boot 0 (fun _ => 0)).proc 1).pid = 0 := by
    rw [boot_proc_succ]
    rfl
  refine ⟨(kill_spec _ 0 5).1.mpr ⟨by decide, 1, by decide, heldByUnused⟩, ?_⟩
  intro slot
  cases slot with
  | zero =>
    intro initHasZero
    exact absurd initHasZero (by decide)
  | succ slot =>
    intro _
    rw [boot_proc_succ]
    rfl

section Scenario

/-- init's memory: the arguments of its `sigaction(10, 2000, 0)` at 1004, and at 2000 a
`struct sigaction` with handler 0x800 and an empty mask, followed by the argument pairs
(2, SIGKILL), (2, 10) and (2, SIGSTOP) of three `kill` calls. -/
def scenarioMemory : Memory :=
  Memory.write (Memory.write (fun _ => 0) 1004 (le32 10 ++ le32 2000 ++ le32 0)) 2000
    (le32 0x800 ++ le32 0 ++ le32 0 ++ le32 2 ++ le32 9 ++ le32 2 ++ le32 10 ++ le32 2 ++ le32 17)

/-- A system call of the process in `slot` that returns to user mode: user code loads the number
and the stack pointer, traps, and the kernel path runs to the iret. -/
def syscallRun (k : Machine) (slot : Nat) (num esp : UInt32) : Machine :=
  run step k [.user slot { (k.proc slot).tf with eax := num, esp := esp } (k.proc slot).memory,
    .trap slot (.syscall .ok 0), .resume slot, .resume slot]

/-- init starts, sets handler 0x800 for signal 10, and forks pid 2 into slot 1, which then runs
user code. -/
def forkedMachine : Machine :=
  run step (syscallRun (syscallRun (run step (boot 0 scenarioMemory)
    [.schedule 0, .resume 0, .resume 0]) 0 23 1000) 0 1 1000) [.schedule 1, .resume 1, .resume 1]

/-- A run that reaches the machine after one more system call. -/
theorem reachable_syscallRun {start k : Machine} (reached : Reachable step start k)
    (slot : Nat) (num esp : UInt32) : Reachable step start (syscallRun k slot num esp) :=
  reached.run _

theorem forkedMachine_reachable : Reachable step (boot 0 scenarioMemory) forkedMachine := by
  have booted : Reachable step (boot 0 scenarioMemory)
      (run step (boot 0 scenarioMemory) [.schedule 0, .resume 0, .resume 0]) :=
    (Reachable.refl step _).run _
  exact (reachable_syscallRun (reachable_syscallRun booted 0 23 1000) 0 1 1000).run _

/-- init's `kill(2, SIGKILL)`, which returns 0. -/
def killedMachine : Machine := syscallRun forkedMachine 0 6 2008

/-- Then init's `kill(2, 10)` and a `getpid` of pid 2: at its trapret the runner sets the kill flag
and goes on to build the frame of handler 0x800. -/
def handlerMachine : Machine := syscallRun (syscallRun killedMachine 0 6 2016) 1 11 1000

/-- pid 2 is frozen by SIGSTOP at a return from `getpid`, yields at a timer tick, and then init's
`kill(2, SIGKILL)` returns 0. -/
def frozenMachine : Machine :=
  syscallRun (run step (syscallRun (syscallRun forkedMachine 0 6 2024) 1 11 1000) [.trap 1 .timer])
    0 6 2008

/-- pid 2 forks pid 3 and waits for it; init's `kill(2, SIGKILL)` returns 0 and wakes it. -/
def waitingMachine : Machine :=
  syscallRun (run step (syscallRun forkedMachine 1 1 1000)
    [.user 1 { ((syscallRun forkedMachine 1 1 1000).proc 1).tf with eax := 3 }
      ((syscallRun forkedMachine 1 1 1000).proc 1).memory, .trap 1 (.syscall .ok 0)]) 0 6 2008

end Scenario

end Xv6.Kernel
