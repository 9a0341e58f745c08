import Xv6.Verif.Kill

/-!
# Whether user programs can take down init

`exit()` panics with "init exiting" when the exiting process is `initproc`, and nothing in
`kill` looks at its target beyond the pid. `kill(1, SIGKILL)` from any process makes SIGKILL
pending for init; the runner at init's next trapret sets its kill flag, and the next trap of
init, whatever its kind, ends in `exit` and the panic. `kill(1, SIGSTOP)` freezes init the same
way, and a frozen process off the processor never runs again: the scheduler passes it over, or
panics when asked to continue it, and no event of another slot clears its freeze flag. Its
orphaned children are then never reaped.
-/

namespace Xv6.Kernel

open Xv6.Bytes Xv6.Run Machine

section Killed

variable {k : Machine} {cur : Nat}

/-- Every kind of trap of a running process whose kill flag is set ends in `exit`, of a machine with
the same `initproc`. The tick's wakeup keeps the flag that trap tests after it. -/
theorem trap_exits (running : (k.proc cur).state = .running) (inUser : (k.proc cur).context = .user)
    (killed : (k.proc cur).killed = true) (kind : TrapKind) :
    ∃ k', k'.initproc = k.initproc ∧ trap k cur kind = exit k' cur := by
  have inside : cur < k.procs.length := lt_length_of_alive (by simp [Proc.Alive, running])
  have entered : ¬ ((k.proc cur).state ≠ .running ∨ (k.proc cur).context ≠ .user) := by
    simp [running, inUser]
  unfold trap
  rw [if_neg entered]
  cases kind with
  | syscall alloc result =>
    refine ⟨k.setProc cur { k.proc cur with tf := (k.proc cur).tf.entry tSyscall }, rfl, ?_⟩
    dsimp only
    rw [if_pos killed]
  | timer =>
    let ticked : Machine :=
      { k.setProc cur { k.proc cur with tf := (k.proc cur).tf.entry tIrqTimer } with
        ticks := k.ticks + 1 }
    have entered : (ticked.proc cur).killed := by
      show ((k.setProc cur _).proc cur).killed
      rw [proc_setProc_self _ _ inside]
      exact killed
    have still := (keeps_wakeup1 (k := ticked) .ticks cur).killed entered
    refine ⟨wakeup1 ticked .ticks, rfl, ?_⟩
    dsimp only
    rw [if_pos still]
  | device trapno =>
    refine ⟨k.setProc cur { k.proc cur with tf := (k.proc cur).tf.entry trapno }, rfl, ?_⟩
    dsimp only
    rw [if_pos killed]
  | fault trapno =>
    exact ⟨k.setProc cur { k.proc cur with tf := (k.proc cur).tf.entry trapno, killed := true },
      rfl, rfl⟩

/-- So a trap of a killed init panics the kernel. -/
theorem trap_panics_of_killed (isInit : cur = k.initproc) (running : (k.proc cur).state = .running)
    (inUser : (k.proc cur).context = .user) (killed : (k.proc cur).killed = true)
    (kind : TrapKind) : (trap k cur kind).panicked = some "init exiting" := by
  obtain ⟨k', same, ends⟩ := trap_exits running inUser killed kind
  rw [ends, exit, if_pos (isInit.trans same.symm)]
  rfl

/-- `kill` of an awake target, with a signal number in range, only sets the signal's bit. -/
theorem kill_awake {pid signum : Int} {slot : Nat}
    (target : k.procs.findIdx? (·.pid = pid) = some slot) (inRange : 0 ≤ signum ∧ signum ≤ 31)
    (awake : (k.proc slot).state ≠ .sleeping) :
    (kill k pid signum).1 = k.setProc slot
      { k.proc slot with pendingSignals := (k.proc slot).pendingSignals ||| sigBit signum.toNat } := by
  have accepted : ¬ (signum < 0 ∨ signum > 31) := by omega
  unfold kill
  rw [if_neg accepted]
  simp only [target]
  rw [if_neg (fun woken => awake woken.1)]

/-- `kill(pid, SIGKILL)` for init's pid while init stands at trapret, with a user frame: the call
returns 0, the runner sets init's kill flag on its way to user mode, and init's next trap, whatever
its kind, panics the kernel. The runner leaves init running, with its flag set. -/
theorem kill_initproc_panics {pid : Int}
    (target : k.procs.findIdx? (·.pid = pid) = some k.initproc) (calm : k.panicked = none)
    (running : (k.proc k.initproc).state = .running)
    (atTrapret : (k.proc k.initproc).context = .trapret)
    (toUser : (k.proc k.initproc).tf.cs &&& 3 = dplUser) (kind : TrapKind) :
    (kill k pid sigkill).2 = 0 ∧
      (run step (kill k pid sigkill).1 [.resume k.initproc, .trap k.initproc kind]).panicked =
        some "init exiting" := by
  have inRange : (0 : Int) ≤ sigkill ∧ (sigkill : Int) ≤ 31 := by decide
  have inside : k.initproc < k.procs.length := lt_length_of_alive (by simp [Proc.Alive, running])
  obtain ⟨returnsZero, pending⟩ := kill_found target inRange
  refine ⟨returnsZero, ?_⟩
  rw [kill_awake target inRange (by simp [running])] at pending ⊢
  set signalled := { k.proc k.initproc with
    pendingSignals := (k.proc k.initproc).pendingSignals ||| sigBit (sigkill : Int).toNat }
  rw [proc_setProc_self _ _ inside] at pending
  have returned : resume (k.setProc k.initproc signalled) k.initproc =
      (k.setProc k.initproc signalled).setProc k.initproc
        { sigHandlerRunner signalled with context := .user } := by
    rw [resume_trapret (by simpa [inside] using running) (by simpa [inside] using atTrapret),
      proc_setProc_self _ _ inside]
  have killed : (sigHandlerRunner signalled).killed = true :=
    sigHandlerRunner_killed_of_sigkill toUser (Or.inl pending)
  have stillRunning : (sigHandlerRunner signalled).state = .running :=
    sigHandlerRunner_unmoved.state.trans running
  have calmSignalled : (k.setProc k.initproc signalled).panicked = none := by simpa using calm
  have calmReturned : ((k.setProc k.initproc signalled).setProc k.initproc
      { sigHandlerRunner signalled with context := .user }).panicked = none := by simpa using calm
  simp only [run_cons, run_nil]
  rw [step_resume calmSignalled, returned, step_trap calmReturned]
  exact trap_panics_of_killed (by simp) (by simpa [inside] using stillRunning)
    (by simp [inside]) (by simpa [inside] using killed) kind

end Killed

section Frozen

variable {k : Machine} {s : Nat}

/-- The process in slot `s` is live, frozen and not on a processor. -/
def FrozenOff (s : Nat) (k : Machine) : Prop :=
  (k.proc s).Alive ∧ (k.proc s).freeze = true ∧ (k.proc s).state ≠ .running

instance (s : Nat) (k : Machine) : Decidable (FrozenOff s k) :=
  inferInstanceAs (Decidable (_ ∧ _ ∧ _))

/-- An event of a frozen process off the processor changes nothing, or is the scheduler's
visit that panics on a request to continue it. -/
theorem own_step_of_frozenOff (held : FrozenOff s k) (calm : k.panicked = none) (event : Event)
    (own : event.slot = s) : (step k event).panicked ≠ none ∨ step k event = k := by
  cases event with
  | schedule slot =>
    obtain rfl : slot = s := own
    rw [step_schedule calm]
    unfold scheduleSlot
    dsimp only
    split
    · exact Or.inr rfl
    · rw [if_pos held.2.1]
      split
      · exact Or.inl (by simp [Machine.panic])
      · exact Or.inr rfl
  | user slot regs memory =>
    obtain rfl : slot = s := own
    rw [step_user calm]
    exact Or.inr (by simp [userRun, held.2.2])
  | trap slot kind =>
    obtain rfl : slot = s := own
    rw [step_trap calm]
    exact Or.inr (by simp [trap, held.2.2])
  | resume slot =>
    obtain rfl : slot = s := own
    rw [step_resume calm]
    exact Or.inr (by simp [resume, held.2.2])

/-- One event keeps a frozen process off the processor, unless the kernel panics or a
`sigaction` stores outside `signal_handlers`, which may reach the freeze flag of any slot. -/
theorem frozenOff_step (held : FrozenOff s k) (event : Event) :
    (step k event).panicked ≠ none ∨ (step k event).strayed = true ∨
      FrozenOff s (step k event) := by
  by_cases calm : k.panicked = none
  · by_cases own : event.slot = s
    · rcases own_step_of_frozenOff held calm event own with stopped | same
      · exact Or.inl stopped
      · rw [same]
        exact Or.inr (Or.inr held)
    · rcases spares_step event with spared | strayed
      · have disturbed := spared.others s (Ne.symm own) held.1
        refine Or.inr (Or.inr ⟨disturbed.alive held.1, disturbed.freeze.trans held.2.1, ?_⟩)
        rcases disturbed.state with same | ⟨-, woken⟩
        · rw [same]
          exact held.2.2
        · rw [woken]
          decide
      · exact Or.inr (Or.inl strayed)
  · rw [step_of_panicked calm]
    exact Or.inr (Or.inr held)

/-- A frozen process off the processor stays so along every run, unless the kernel panics or a
stray store happens. -/
theorem frozenOff_run (held : FrozenOff s k) (events : List Event) :
    (run step k events).panicked ≠ none ∨ (run step k events).strayed = true ∨
      FrozenOff s (run step k events) := by
  have kept : Invariant step fun k => k.panicked ≠ none ∨ k.strayed = true ∨ FrozenOff s k := by
    rintro k event (stopped | strayed | frozen)
    · rw [step_of_panicked stopped]
      exact Or.inl stopped
    · exact Or.inr (Or.inl (step_strayed strayed event))
    · exact frozenOff_step frozen event
  exact kept.run (Or.inr (Or.inr held)) events

end Frozen

section Scenario

/-- pid 2, in slot 1, stores the arguments (1, signum) at 3004 and calls `kill(1, signum)`. -/
def killInit (k : Machine) (signum : UInt32) : Machine :=
  run step k [.user 1 { (k.proc 1).tf with eax := 6, esp := 3000 }
      (Memory.write (k.proc 1).memory 3004 (le32 1 ++ le32 signum)),
    .trap 1 (.syscall .ok 0), .resume 1, .resume 1]

/-- After the fork, init's `getpid` runs to trapret. -/
def initTrapretMachine : Machine :=
  run step forkedMachine [.user 0 { (forkedMachine.proc 0).tf with eax := 11, esp := 1000 }
    (forkedMachine.proc 0).memory, .trap 0 (.syscall .ok 0), .resume 0]

/-- pid 2's `kill(1, SIGSTOP)`; init's `getpid`, at whose trapret the runner freezes it; then a
timer tick, at which init yields. -/
def frozenInitMachine : Machine :=
  run step (syscallRun (killInit forkedMachine 17) 0 11 1000) [.trap 0 .timer]

end Scenario

end Xv6.Kernel
