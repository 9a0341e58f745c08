import Xv6.Kernel.Trap
import Xv6.Lib.Run

/-!
# What an event does to the other processes

An event belongs to one slot, but the code it runs may reach into others: `kill` sets a
pending bit and may wake the target, `wakeup1` wakes sleepers, `exit` hands children to init,
`fork` claims an unused slot and `wait` frees a zombie. None of this touches a live process
beyond three fields: it may be woken from sleep, gain pending signals and get a new parent.
Everything else it owns (its trap frame, saved context, kill and freeze flags, handlers, mask
and memory) changes only through its own events.
-/

namespace Xv6.Kernel

open Xv6.Bytes Machine

/-- What the events of other processes can do to a live process: wake it, add to its pending
signals and give it a new parent. -/
structure Disturbed (before after : Proc) : Prop where
  sz : after.sz = before.sz
  pid : after.pid = before.pid
  tf : after.tf = before.tf
  context : after.context = before.context
  chan : after.chan = before.chan
  killed : after.killed = before.killed
  signalMask : after.signalMask = before.signalMask
  signalHandlers : after.signalHandlers = before.signalHandlers
  userTrapFramBackup : after.userTrapFramBackup = before.userTrapFramBackup
  freeze : after.freeze = before.freeze
  memory : after.memory = before.memory
  state : after.state = before.state ∨ before.state = .sleeping ∧ after.state = .runnable
  pending : ∀ signum, before.Pending signum → after.Pending signum

namespace Disturbed

variable {p q r : Proc}

theorem refl (p : Proc) : Disturbed p p :=
  ⟨rfl, rfl, rfl, rfl, rfl, rfl, rfl, rfl, rfl, rfl, rfl, Or.inl rfl, fun _ pending => pending⟩

theorem trans (first : Disturbed p q) (second : Disturbed q r) : Disturbed p r where
  sz := second.sz.trans first.sz
  pid := second.pid.trans first.pid
  tf := second.tf.trans first.tf
  context := second.context.trans first.context
  chan := second.chan.trans first.chan
  killed := second.killed.trans first.killed
  signalMask := second.signalMask.trans first.signalMask
  signalHandlers := second.signalHandlers.trans first.signalHandlers
  userTrapFramBackup := second.userTrapFramBackup.trans first.userTrapFramBackup
  freeze := second.freeze.trans first.freeze
  memory := second.memory.trans first.memory
  state := by
    rcases first.state with same | ⟨asleep, woken⟩ <;>
      rcases second.state with same' | ⟨asleep', woken'⟩
    · exact Or.inl (same'.trans same)
    · exact Or.inr ⟨same ▸ asleep', woken'⟩
    · exact Or.inr ⟨asleep, same' ▸ woken⟩
    · rw [woken] at asleep'
      cases asleep'
  pending := fun signum pending => second.pending signum (first.pending signum pending)

/-- A disturbed process is still live. -/
theorem alive (disturbed : Disturbed p q) (live : p.Alive) : q.Alive := by
  rcases disturbed.state with same | ⟨-, woken⟩
  · rwa [Proc.Alive, same]
  · simp [Proc.Alive, woken]

/-- Waking a sleeper. -/
theorem wake (asleep : p.state = .sleeping) : Disturbed p { p with state := .runnable } :=
  { refl p with state := Or.inr ⟨asleep, rfl⟩ }

/-- Making more signals pending. -/
theorem signal (bits : UInt32) : Disturbed p { p with pendingSignals := p.pendingSignals ||| bits } :=
  { refl p with
    pending := fun signum pending => by
      simp only [Proc.Pending, UInt32.toBitVec_or, BitVec.getLsbD_or] at pending ⊢
      simp [pending] }

/-- Giving a new parent. -/
theorem reparent (parent : Option Nat) : Disturbed p { p with parent := parent } :=
  ⟨rfl, rfl, rfl, rfl, rfl, rfl, rfl, rfl, rfl, rfl, rfl, Or.inl rfl, fun _ pending => pending⟩

end Disturbed

/-- The machine `after` leaves every live process outside slot `cur` at most disturbed, and
keeps the size of the table. -/
structure Spares (cur : Nat) (before after : Machine) : Prop where
  length : after.procs.length = before.procs.length
  others : ∀ slot, slot ≠ cur → (before.proc slot).Alive →
    Disturbed (before.proc slot) (after.proc slot)

namespace Spares

variable {cur : Nat} {k k' k'' : Machine}

theorem refl (cur : Nat) (k : Machine) : Spares cur k k :=
  ⟨rfl, fun slot _ _ => Disturbed.refl (k.proc slot)⟩

theorem trans (first : Spares cur k k') (second : Spares cur k' k'') : Spares cur k k'' where
  length := second.length.trans first.length
  others slot other live :=
    (first.others slot other live).trans
      (second.others slot other ((first.others slot other live).alive live))

/-- A machine that sets only slot `cur` spares the others. -/
theorem setProc (p : Proc) : Spares cur k (k.setProc cur p) where
  length := setProc_length k cur p
  others slot other _ := by
    rw [proc_setProc_other k p other]
    exact Disturbed.refl _

/-- A change that leaves the table as it is spares every process. -/
theorem of_procs (same : k'.procs = k.procs) : Spares cur k k' where
  length := by rw [same]
  others slot _ _ := by
    rw [proc, proc, same]
    exact Disturbed.refl _

theorem panic (message : String) : Spares cur k (k.panic message) := of_procs rfl

/-- A tick of the clock spares every process. -/
theorem withTicks (spares : Spares cur k k') (ticks : UInt32) :
    Spares cur k { k' with ticks := ticks } :=
  spares.trans (of_procs rfl)

theorem wakeup1 (chan : Chan) : Spares cur k (Xv6.Kernel.wakeup1 k chan) where
  length := wakeup1_length k chan
  others slot _ _ := by
    rw [proc_wakeup1]
    split
    · rename_i sleeper
      exact Disturbed.wake sleeper.1
    · exact Disturbed.refl _

/-- Writing a slot whose process was not live spares every live process. -/
theorem setProc_of_not_alive (spares : Spares cur k k') {slot : Nat}
    (dead : ¬ (k.proc slot).Alive) (p : Proc) : Spares cur k (k'.setProc slot p) where
  length := (setProc_length k' slot p).trans spares.length
  others other apart live := by
    have distinct : other ≠ slot := fun same => dead (same ▸ live)
    rw [proc_setProc_other k' p distinct]
    exact spares.others other apart live

/-- Changing a slot's process in a way that at most disturbs a live one spares the others. -/
theorem update (slot : Nat) (change : Proc → Proc)
    (disturbs : ∀ p : Proc, p.Alive → Disturbed p (change p)) :
    Spares cur k (k.setProc slot (change (k.proc slot))) where
  length := setProc_length k slot _
  others other _ live := by
    by_cases same : other = slot
    · subst same
      have inside : other < k.procs.length := by
        by_contra outside
        rw [proc_of_le k (Nat.le_of_not_lt outside)] at live
        exact live.1 rfl
      rw [proc_setProc_self k _ inside]
      exact disturbs _ live
    · rw [proc_setProc_other k _ same]
      exact Disturbed.refl _

end Spares

section Functions

variable {k : Machine} {cur : Nat}

/-- An `allocproc` that returns a slot found it UNUSED and allocated the kernel stack. -/
theorem allocproc_claimed {alloc : Alloc} {k' : Machine} {slot : Nat}
    (claimed : allocproc k alloc = (k', some slot)) :
    k.procs.findIdx? (·.state = .unused) = some slot ∧ alloc ≠ .noKstack := by
  unfold allocproc at claimed
  split at claimed
  · cases claimed
  · rename_i found found_eq
    split at claimed
    · cases claimed
    · rename_i allocated
      cases claimed
      exact ⟨found_eq, allocated⟩

/-- The slot `allocproc` claims was unused. -/
theorem allocproc_unused {alloc : Alloc} {k' : Machine} {slot : Nat}
    (claimed : allocproc k alloc = (k', some slot)) : (k.proc slot).state = .unused := by
  simpa using proc_of_findIdx_eq_some (allocproc_claimed claimed).1

theorem spares_allocproc (alloc : Alloc) : Spares cur k (allocproc k alloc).1 := by
  unfold allocproc
  split
  · exact Spares.refl cur k
  · rename_i slot found
    have dead : ¬ (k.proc slot).Alive := fun live =>
      live.1 (by simpa using proc_of_findIdx_eq_some found)
    have counted : Spares cur k { k with nextpid := k.nextpid + 1 } := Spares.of_procs rfl
    dsimp only
    split
    · exact counted.setProc_of_not_alive dead _
    · exact counted.setProc_of_not_alive dead _

/-- A `fork` spares every live process: the child's slot was unused. -/
theorem spares_fork (forker : Nat) (alloc : Alloc) : Spares cur k (fork k forker alloc).1 := by
  unfold fork
  split
  · rename_i k' claimed
    have spared : Spares cur k (allocproc k alloc).1 := spares_allocproc alloc
    rwa [claimed] at spared
  · rename_i k' slot claimed
    have spared : Spares cur k (allocproc k alloc).1 := spares_allocproc alloc
    rw [claimed] at spared
    have dead : ¬ (k.proc slot).Alive := fun live => live.1 (allocproc_unused claimed)
    split
    · exact spared.setProc_of_not_alive dead _
    · exact spared.setProc_of_not_alive dead _

theorem spares_reparent (exiting slot : Nat) : Spares cur k (reparent exiting k slot) := by
  unfold reparent
  dsimp only
  split
  · have moved : Spares cur k (k.setProc slot { k.proc slot with parent := some k.initproc }) :=
      Spares.update slot _ fun _ _ => Disturbed.reparent _
    split
    · exact moved.trans (Spares.wakeup1 _)
    · exact moved
  · exact Spares.refl cur k

/-- Handing the children of an exiting process to init spares every live process. -/
theorem spares_handOver (exiting : Nat) (slots : List Nat) :
    Spares cur k (slots.foldl (reparent exiting) k) := by
  induction slots generalizing k with
  | nil => exact Spares.refl cur k
  | cons slot slots ih => exact (spares_reparent exiting slot).trans ih

/-- `exit` of the process in slot `cur` spares the others: it wakes the parent and hands the
children to init. -/
theorem spares_exit : Spares cur k (exit k cur) := by
  unfold exit
  split
  · exact Spares.panic _
  · exact ((Spares.wakeup1 _).trans (spares_handOver cur _)).trans (Spares.setProc _)

/-- The slot `wait` reaps holds a zombie. -/
theorem waitScan_reap_zombie {slot : Nat} (found : waitScan k cur = .reap slot) :
    (k.proc slot).state = .zombie := by
  unfold waitScan at found
  dsimp only at found
  split at found
  · rename_i child chosen
    cases found
    have passes := List.find?_some chosen
    simp only [decide_eq_true_eq] at passes
    exact passes.2
  · split at found <;> cases found

theorem spares_reap {slot : Nat} (zombie : (k.proc slot).state = .zombie) :
    Spares cur k (reap k slot) :=
  (Spares.refl cur k).setProc_of_not_alive (fun live => live.2 zombie) _

theorem spares_finish (value : Int) : Spares cur k (finish k cur value) := Spares.setProc _

theorem spares_sleep (chan : Chan) (loop : Loop) : Spares cur k (sleep k cur chan loop) :=
  Spares.setProc _

theorem spares_waitLoop : Spares cur k (waitLoop k cur) := by
  unfold waitLoop
  split
  · rename_i slot found
    exact (spares_reap (waitScan_reap_zombie found)).trans (spares_finish _)
  · exact spares_finish _
  · exact spares_sleep _ _

theorem spares_ticksLoop (ticks0 n : UInt32) : Spares cur k (ticksLoop k cur ticks0 n) := by
  unfold ticksLoop
  split
  · split
    · exact spares_finish _
    · exact spares_sleep _ _
  · exact spares_finish _

/-- `kill` only sets a pending bit of its target and may wake it. -/
theorem spares_kill (pid signum : Int) : Spares cur k (kill k pid signum).1 := by
  unfold kill
  split
  · exact Spares.refl cur k
  · split
    · exact Spares.refl cur k
    · rename_i slot _
      apply Spares.update slot fun p =>
        let p := { p with pendingSignals := p.pendingSignals ||| sigBit signum.toNat }
        if p.state = .sleeping ∧ signum = sigkill then { p with state := .runnable } else p
      intro p _
      dsimp only
      split
      · rename_i woken
        exact (Disturbed.signal _).trans (Disturbed.wake woken.1)
      · exact Disturbed.signal _

/-- Every system call spares the other processes, except a stray `sigaction`, whose store may
land in any slot and which sets `strayed`. -/
theorem spares_syscall (alloc : Alloc) (result : UInt32) :
    Spares cur k (syscall k cur alloc result) ∨ (syscall k cur alloc result).strayed = true := by
  unfold syscall
  dsimp only
  split
  · exact .inl (spares_finish _)
  · exact .inl ((spares_fork cur alloc).trans (spares_finish _))
  · exact .inl spares_exit
  · exact .inl spares_waitLoop
  · split
    · exact .inl ((spares_kill _ _).trans (spares_finish _))
    · exact .inl (spares_finish _)
  · exact .inl (spares_finish _)
  · split
    · exact .inl (spares_ticksLoop _ _)
    · exact .inl (spares_finish _)
  · split
    · exact .inl ((Spares.setProc _).trans (spares_finish _))
    · exact .inl (spares_finish _)
  · split
    · split
      · exact .inl ((Spares.setProc _).trans (spares_finish _))
      · exact .inr (straySigaction_strayed _ _ _)
    · exact .inl (spares_finish _)
  · exact .inl ((Spares.setProc _).trans (spares_finish _))
  · exact .inl (spares_finish _)

/-- A trap of the process in slot `cur` spares the others, unless it strays. -/
theorem spares_trap (kind : TrapKind) :
    Spares cur k (trap k cur kind) ∨ (trap k cur kind).strayed = true := by
  unfold trap
  dsimp only
  split
  · exact .inl (Spares.refl cur k)
  · cases kind with
    | syscall alloc result =>
      dsimp only
      split
      · exact .inl ((Spares.setProc _).trans spares_exit)
      · exact (spares_syscall alloc result).imp_left (Spares.setProc _).trans
    | timer =>
      dsimp only
      split
      · exact .inl ((((Spares.setProc _).withTicks _).trans (Spares.wakeup1 _)).trans spares_exit)
      · exact .inl ((((Spares.setProc _).withTicks _).trans (Spares.wakeup1 _)).trans
          (Spares.setProc _))
    | device trapno =>
      dsimp only
      split
      · exact .inl ((Spares.setProc _).trans spares_exit)
      · exact .inl ((Spares.setProc _).trans (Spares.setProc _))
    | fault trapno => exact .inl ((Spares.setProc _).trans spares_exit)

/-- The next part of the kernel path of the process in slot `cur` spares the others. -/
theorem spares_resume : Spares cur k (resume k cur) := by
  unfold resume
  dsimp only
  split
  · exact Spares.refl cur k
  · split
    · split
      · exact spares_exit
      · exact Spares.setProc _
    · split
      · exact spares_exit
      · exact Spares.setProc _
    · exact Spares.setProc _
    · exact Spares.setProc _
    · split
      · exact (Spares.setProc _).trans spares_waitLoop
      · exact (Spares.setProc _).trans (spares_ticksLoop _ _)
    · exact Spares.refl cur k
    · exact Spares.refl cur k

theorem spares_userRun (regs : Trapframe) (memory : Memory) :
    Spares cur k (userRun k cur regs memory) := by
  unfold userRun
  dsimp only
  split
  · exact Spares.setProc _
  · exact Spares.refl cur k

theorem spares_scheduleSlot : Spares cur k (scheduleSlot k cur) := by
  unfold scheduleSlot
  dsimp only
  split
  · exact Spares.refl cur k
  · split
    · split
      · exact Spares.panic _
      · exact Spares.refl cur k
    · exact Spares.setProc _

/-- Every event spares the live processes of the other slots, unless it strays. -/
theorem spares_step (event : Event) :
    Spares event.slot k (step k event) ∨ (step k event).strayed = true := by
  unfold step
  split
  · exact .inl (Spares.refl _ k)
  · cases event with
    | schedule slot => exact .inl spares_scheduleSlot
    | user slot regs memory => exact .inl (spares_userRun regs memory)
    | trap slot kind => exact spares_trap kind
    | resume slot => exact .inl spares_resume

/-- A run whose last state records no stray store made none on the way. -/
theorem tame_of_run (events : List Event) (tame : (Run.run step k events).strayed = false) :
    k.strayed = false := by
  induction events generalizing k with
  | nil => exact tame
  | cons event events ih =>
    have next : (step k event).strayed = false := ih tame
    cases was : k.strayed
    · rfl
    · rw [step_strayed was] at next
      cases next

/-- No run lowers the pid counter. -/
theorem nextpid_le_run (events : List Event) : k.nextpid ≤ (Run.run step k events).nextpid := by
  induction events generalizing k with
  | nil => exact Int.le_refl _
  | cons event events ih => exact Int.le_trans (step_nextpid_le event) ih

/-- A predicate that every step keeps, unless the step strays, holds in every reachable state
that records no stray store. -/
theorem reachable_of_tame {holds : Machine → Prop}
    (kept : ∀ k event, holds k → holds (step k event) ∨ (step k event).strayed = true)
    {start k : Machine} (initial : holds start) (reached : Run.Reachable step start k)
    (tame : k.strayed = false) : holds k := by
  obtain ⟨events, rfl⟩ := reached
  induction events generalizing start with
  | nil => exact initial
  | cons event events ih =>
    have stepTame : (step start event).strayed = false := tame_of_run events tame
    exact ih ((kept start event initial).resolve_right (by simp [stepTame])) tame

/-- An event of a run with no stray store spares the other slots. -/
theorem spares_step_of_tame {event : Event} (tame : (step k event).strayed = false) :
    Spares event.slot k (step k event) :=
  (spares_step event).resolve_right (by rw [tame]; exact Bool.false_ne_true)

end Functions

/-- A process keeps its kill flag once set and every pending signal. -/
structure Keeps (before after : Proc) : Prop where
  killed : before.killed → after.killed
  pending : ∀ signum, before.Pending signum → after.Pending signum

theorem Keeps.refl (p : Proc) : Keeps p p := ⟨id, fun _ pending => pending⟩

theorem Keeps.trans {p q r : Proc} (first : Keeps p q) (second : Keeps q r) : Keeps p r :=
  ⟨second.killed ∘ first.killed, fun signum => second.pending signum ∘ first.pending signum⟩

theorem Disturbed.keeps {p q : Proc} (disturbed : Disturbed p q) : Keeps p q :=
  ⟨fun killed => disturbed.killed ▸ killed, disturbed.pending⟩

/-- A change of fields other than the kill flag and the pending signals keeps both. -/
theorem Keeps.of_eq {p q : Proc} (killed : q.killed = p.killed)
    (pending : q.pendingSignals = p.pendingSignals) : Keeps p q :=
  ⟨fun set => killed ▸ set, fun _ was => by rwa [Proc.Pending, pending]⟩

/-- A live process lies inside the table. -/
theorem lt_length_of_alive {k : Machine} {slot : Nat} (live : (k.proc slot).Alive) :
    slot < k.procs.length := by
  by_contra outside
  rw [proc_of_le k (Nat.le_of_not_lt outside)] at live
  exact live.1 rfl

section Own

variable {k k' : Machine} {cur : Nat}

/-- An operation that spares every slot keeps the marks of any live process. -/
theorem keeps_of_spares (spares : ∀ other, Spares other k k') (live : (k.proc cur).Alive) :
    Keeps (k.proc cur) (k'.proc cur) :=
  ((spares (cur + 1)).others cur (by omega) live).keeps

theorem keeps_setProc (inside : cur < k.procs.length) {p : Proc} (keeps : Keeps (k.proc cur) p) :
    Keeps (k.proc cur) ((k.setProc cur p).proc cur) := by
  rwa [proc_setProc_self k p inside]

/-- A process keeps its marks through a change of the table followed by a change of its slot. -/
theorem keeps_then_setProc (length : k'.procs.length = k.procs.length)
    (inside : cur < k.procs.length) (first : Keeps (k.proc cur) (k'.proc cur)) {p : Proc}
    (second : Keeps (k'.proc cur) p) : Keeps (k.proc cur) ((k'.setProc cur p).proc cur) := by
  rw [proc_setProc_self k' p (length ▸ inside)]
  exact first.trans second

/-- A system call that changes the table and then returns keeps the caller's marks. -/
theorem keeps_then_finish (length : k'.procs.length = k.procs.length)
    (inside : cur < k.procs.length) (first : Keeps (k.proc cur) (k'.proc cur)) (value : Int) :
    Keeps (k.proc cur) ((finish k' cur value).proc cur) :=
  keeps_then_setProc length inside first (Keeps.of_eq (by rfl) (by rfl))

theorem keeps_finish (inside : cur < k.procs.length) (value : Int) :
    Keeps (k.proc cur) ((finish k cur value).proc cur) :=
  keeps_setProc inside (Keeps.of_eq (by rfl) (by rfl))

theorem keeps_sleep (inside : cur < k.procs.length) (chan : Chan) (loop : Loop) :
    Keeps (k.proc cur) ((sleep k cur chan loop).proc cur) :=
  keeps_setProc inside (Keeps.of_eq (by rfl) (by rfl))

theorem keeps_exit (live : (k.proc cur).Alive) : Keeps (k.proc cur) ((exit k cur).proc cur) := by
  unfold exit
  split
  · exact Keeps.refl _
  · have spares : ∀ other, Spares other k
        ((List.range (Xv6.Kernel.wakeup1 k (parentChan (k.proc cur).parent)).procs.length).foldl
          (reparent cur) (Xv6.Kernel.wakeup1 k (parentChan (k.proc cur).parent))) :=
      fun other => (Spares.wakeup1 _).trans (spares_handOver cur _)
    exact keeps_then_setProc (spares cur).length (lt_length_of_alive live)
      (keeps_of_spares spares live) (Keeps.of_eq (by rfl) (by rfl))

theorem keeps_waitLoop (live : (k.proc cur).Alive) :
    Keeps (k.proc cur) ((waitLoop k cur).proc cur) := by
  have inside := lt_length_of_alive live
  unfold waitLoop
  split
  · rename_i slot found
    have spares : ∀ other, Spares other k (reap k slot) :=
      fun _ => spares_reap (waitScan_reap_zombie found)
    exact keeps_then_finish (spares cur).length inside (keeps_of_spares spares live) _
  · exact keeps_finish inside _
  · exact keeps_sleep inside _ _

theorem keeps_ticksLoop (inside : cur < k.procs.length) (ticks0 n : UInt32) :
    Keeps (k.proc cur) ((ticksLoop k cur ticks0 n).proc cur) := by
  unfold ticksLoop
  split
  · split
    · exact keeps_finish inside _
    · exact keeps_sleep inside _ _
  · exact keeps_finish inside _

/-- `sigaction` changes the caller's handlers, mask and memory only. -/
theorem sigaction_keeps (p : Proc) (signum : Fin 32) (act oldact : UInt32) :
    Keeps p (sigaction p signum act oldact).1 := by
  unfold sigaction
  split
  · exact Keeps.refl p
  · exact Keeps.of_eq (by rfl) (by rfl)

/-- Every system call keeps the caller's marks, except a stray `sigaction`, which may store
over its pending signals or its kill flag. -/
theorem keeps_syscall (live : (k.proc cur).Alive) (alloc : Alloc) (result : UInt32) :
    Keeps (k.proc cur) ((syscall k cur alloc result).proc cur) ∨
      (syscall k cur alloc result).strayed = true := by
  have inside := lt_length_of_alive live
  have ownSlot : ∀ p : Proc, Keeps (k.proc cur) p → Keeps (k.proc cur) ((k.setProc cur p).proc cur) :=
    fun _ keeps => keeps_setProc inside keeps
  unfold syscall
  dsimp only
  split
  · exact .inl (keeps_finish inside _)
  · have forked : ∀ other, Spares other k (fork k cur alloc).1 := fun _ => spares_fork cur alloc
    exact .inl (keeps_then_finish (forked cur).length inside (keeps_of_spares forked live) _)
  · exact .inl (keeps_exit live)
  · exact .inl (keeps_waitLoop live)
  · split
    · rename_i pid signum _ _
      have sent : ∀ other, Spares other k (kill k (signed pid) (signed signum)).1 :=
        fun _ => spares_kill _ _
      exact .inl (keeps_then_finish (sent cur).length inside (keeps_of_spares sent live) _)
    · exact .inl (keeps_finish inside _)
  · exact .inl (keeps_finish inside _)
  · split
    · exact .inl (keeps_ticksLoop inside _ _)
    · exact .inl (keeps_finish inside _)
  · split
    · exact .inl (keeps_then_finish (setProc_length _ _ _) inside
        (ownSlot _ (Keeps.of_eq (by rfl) (by rfl))) _)
    · exact .inl (keeps_finish inside _)
  · split
    · split
      · exact .inl (keeps_then_finish (setProc_length _ _ _) inside
          (ownSlot _ (sigaction_keeps _ _ _ _)) _)
      · exact .inr (straySigaction_strayed _ _ _)
    · exact .inl (keeps_finish inside _)
  · exact .inl (keeps_then_finish (setProc_length _ _ _) inside
      (ownSlot _ (Keeps.of_eq (by rfl) (by rfl))) _)
  · exact .inl (keeps_finish inside _)

/-- `wakeup1` at most wakes a process. -/
theorem keeps_wakeup1 (chan : Chan) (slot : Nat) :
    Keeps (k.proc slot) ((Xv6.Kernel.wakeup1 k chan).proc slot) := by
  rw [proc_wakeup1]
  split
  · exact Keeps.of_eq (by rfl) (by rfl)
  · exact Keeps.refl _

theorem context_wakeup1 (chan : Chan) (slot : Nat) :
    ((Xv6.Kernel.wakeup1 k chan).proc slot).context = (k.proc slot).context := by
  rw [proc_wakeup1]
  split <;> rfl

/-- `wakeup1` keeps a process live. -/
theorem alive_wakeup1 (chan : Chan) {slot : Nat} (live : (k.proc slot).Alive) :
    ((Xv6.Kernel.wakeup1 k chan).proc slot).Alive := by
  rw [proc_wakeup1]
  split
  · simp [Proc.Alive]
  · exact live

/-- The process stays live when its slot is written with a copy that keeps its state. -/
theorem alive_setProc (inside : cur < k.procs.length) {p : Proc} (live : p.Alive) :
    ((k.setProc cur p).proc cur).Alive := by
  rwa [proc_setProc_self k p inside]

/-- A trap keeps the marks of the trapping process, unless it strays; a fault sets its kill
flag. -/
theorem keeps_trap (live : (k.proc cur).Alive) (kind : TrapKind) :
    Keeps (k.proc cur) ((trap k cur kind).proc cur) ∨ (trap k cur kind).strayed = true := by
  have inside := lt_length_of_alive live
  unfold trap
  dsimp only
  split
  · exact .inl (Keeps.refl _)
  · cases kind with
    | syscall alloc result =>
      dsimp only
      have entered : Keeps (k.proc cur) ((k.setProc cur { k.proc cur with
          tf := (k.proc cur).tf.entry tSyscall }).proc cur) :=
        keeps_setProc inside (Keeps.of_eq (by rfl) (by rfl))
      have stillLive : ((k.setProc cur { k.proc cur with
          tf := (k.proc cur).tf.entry tSyscall }).proc cur).Alive := alive_setProc inside live
      split
      · exact .inl (entered.trans (keeps_exit stillLive))
      · exact (keeps_syscall stillLive alloc result).imp_left entered.trans
    | timer =>
      dsimp only
      have entered : Keeps (k.proc cur) ((Xv6.Kernel.wakeup1 { k.setProc cur { k.proc cur with
          tf := (k.proc cur).tf.entry tIrqTimer } with ticks := k.ticks + 1 } .ticks).proc cur) :=
        (keeps_setProc inside (Keeps.of_eq (by rfl) (by rfl))).trans (keeps_wakeup1 _ _)
      split
      · exact .inl (entered.trans (keeps_exit (alive_wakeup1 _ (alive_setProc inside live))))
      · exact .inl (keeps_then_setProc (by simp) inside entered (Keeps.of_eq (by rfl) (by rfl)))
    | device trapno =>
      dsimp only
      have entered : Keeps (k.proc cur) ((k.setProc cur { k.proc cur with
          tf := (k.proc cur).tf.entry trapno }).proc cur) :=
        keeps_setProc inside (Keeps.of_eq (by rfl) (by rfl))
      split
      · exact .inl (entered.trans (keeps_exit (alive_setProc inside live)))
      · exact .inl (keeps_then_setProc (by simp) inside entered (Keeps.of_eq (by rfl) (by rfl)))
    | fault trapno =>
      have faulted : Keeps (k.proc cur) ((k.setProc cur { k.proc cur with
          tf := (k.proc cur).tf.entry trapno, killed := true }).proc cur) :=
        keeps_setProc inside ⟨fun _ => rfl, fun _ pending => pending⟩
      exact .inl (faulted.trans (keeps_exit (alive_setProc inside live)))

/-- A part of a kernel path other than trapret keeps the process's marks. -/
theorem keeps_resume (live : (k.proc cur).Alive) (notTrapret : (k.proc cur).context ≠ .trapret) :
    Keeps (k.proc cur) ((resume k cur).proc cur) := by
  have inside := lt_length_of_alive live
  unfold resume
  dsimp only
  split
  · exact Keeps.refl _
  · split
    · split
      · exact keeps_exit live
      · exact keeps_setProc inside (Keeps.of_eq (by rfl) (by rfl))
    · split
      · exact keeps_exit live
      · exact keeps_setProc inside (Keeps.of_eq (by rfl) (by rfl))
    · rename_i atTrapret
      exact absurd atTrapret notTrapret
    · exact keeps_setProc inside (Keeps.of_eq (by rfl) (by rfl))
    · have woken : Keeps (k.proc cur) ((k.setProc cur { k.proc cur with chan := .none }).proc cur) :=
        keeps_setProc inside (Keeps.of_eq (by rfl) (by rfl))
      split
      · exact woken.trans (keeps_waitLoop (alive_setProc inside live))
      · exact woken.trans (keeps_ticksLoop (by simpa using inside) _ _)
    · exact Keeps.refl _
    · exact Keeps.refl _

theorem keeps_userRun (inside : cur < k.procs.length) (regs : Trapframe) (memory : Memory) :
    Keeps (k.proc cur) ((userRun k cur regs memory).proc cur) := by
  unfold userRun
  dsimp only
  split
  · exact keeps_setProc inside (Keeps.of_eq (by rfl) (by rfl))
  · exact Keeps.refl _

theorem keeps_scheduleSlot (inside : cur < k.procs.length) :
    Keeps (k.proc cur) ((scheduleSlot k cur).proc cur) := by
  unfold scheduleSlot
  dsimp only
  split
  · exact Keeps.refl _
  · split
    · split
      · exact Keeps.refl _
      · exact Keeps.refl _
    · exact keeps_setProc inside (Keeps.of_eq (by rfl) (by rfl))

/-- A returning system call leaves its caller at trap's final check. -/
theorem finish_context (inside : cur < k.procs.length) (value : Int) :
    ((finish k cur value).proc cur).context = .syscallDone := by
  simp [finish, proc_setProc_self _ _ inside]

theorem sleep_context (inside : cur < k.procs.length) (chan : Chan) (loop : Loop) :
    ((sleep k cur chan loop).proc cur).context = .asleep loop := by
  simp [sleep, proc_setProc_self _ _ inside]

/-- `exit` either panics, leaving the table as it is, or leaves a zombie. -/
theorem exit_proc_self (k : Machine) (inside : cur < k.procs.length) :
    (exit k cur).proc cur = k.proc cur ∨ ((exit k cur).proc cur).state = .zombie := by
  unfold exit
  split
  · exact Or.inl rfl
  · have handed : Spares cur k _ := (Spares.wakeup1 (parentChan (k.proc cur).parent)).trans
      (spares_handOver cur (List.range
        (Xv6.Kernel.wakeup1 k (parentChan (k.proc cur).parent)).procs.length))
    refine Or.inr ?_
    rw [proc_setProc_self _ _ (by rw [handed.length]; exact inside)]

/-- One pass of `wait`'s loop returns or sleeps again. -/
theorem waitLoop_context (live : (k.proc cur).Alive) :
    ((waitLoop k cur).proc cur).context = .syscallDone ∨
      ((waitLoop k cur).proc cur).context = .asleep .wait := by
  have inside := lt_length_of_alive live
  unfold waitLoop
  split
  · rename_i slot found
    exact Or.inl (finish_context (by simpa [reap] using inside) _)
  · exact Or.inl (finish_context inside _)
  · exact Or.inr (sleep_context inside _ _)

/-- One test of `sys_sleep`'s loop returns or sleeps again. -/
theorem ticksLoop_context (inside : cur < k.procs.length) (ticks0 n : UInt32) :
    ((ticksLoop k cur ticks0 n).proc cur).context = .syscallDone ∨
      ((ticksLoop k cur ticks0 n).proc cur).context = .asleep (.ticks ticks0 n) := by
  unfold ticksLoop
  split
  · split
    · exact Or.inl (finish_context inside _)
    · exact Or.inr (sleep_context inside _ _)
  · exact Or.inl (finish_context inside _)

theorem scheduleSlot_context (inside : cur < k.procs.length) :
    ((scheduleSlot k cur).proc cur).context = (k.proc cur).context := by
  unfold scheduleSlot
  dsimp only
  split
  · rfl
  · split
    · split <;> rfl
    · simp [proc_setProc_self _ _ inside]

theorem userRun_context (inside : cur < k.procs.length) (regs : Trapframe) (memory : Memory) :
    ((userRun k cur regs memory).proc cur).context = (k.proc cur).context := by
  unfold userRun
  dsimp only
  split
  · simp [proc_setProc_self _ _ inside]
  · rfl

/-- A trap of a killed process ends in `exit`: its slot holds a zombie, or init's exit panicked
with the process still where it trapped. -/
theorem trap_of_killed (live : (k.proc cur).Alive) (killed : (k.proc cur).killed) (kind : TrapKind) :
    ((trap k cur kind).proc cur).context = (k.proc cur).context ∨
      ((trap k cur kind).proc cur).state = .zombie := by
  have inside := lt_length_of_alive live
  unfold trap
  dsimp only
  split
  · exact Or.inl rfl
  · cases kind with
    | syscall alloc result =>
      dsimp only
      rcases exit_proc_self (k.setProc cur { k.proc cur with tf := (k.proc cur).tf.entry tSyscall })
          (by simpa using inside) with same | zombie
      · rw [same, proc_setProc_self _ _ inside]
        exact Or.inl rfl
      · exact Or.inr zombie
    | timer =>
      dsimp only
      have entered := proc_setProc_self k { k.proc cur with tf := (k.proc cur).tf.entry tIrqTimer }
        inside
      split
      · rcases exit_proc_self (Xv6.Kernel.wakeup1 { k.setProc cur { k.proc cur with
            tf := (k.proc cur).tf.entry tIrqTimer } with ticks := k.ticks + 1 } .ticks)
            (by simpa using inside) with same | zombie
        · rw [same, context_wakeup1]
          exact Or.inl ((congrArg Proc.context entered).trans rfl)
        · exact Or.inr zombie
      · rename_i notKilled
        have stillKilled : (({ k.setProc cur { k.proc cur with tf := (k.proc cur).tf.entry tIrqTimer }
            with ticks := k.ticks + 1 } : Machine).proc cur).killed := by
          show ((k.setProc cur _).proc cur).killed
          rw [entered]
          exact killed
        exact absurd ((keeps_wakeup1 _ _).killed stillKilled) notKilled
    | device trapno =>
      dsimp only
      rcases exit_proc_self (k.setProc cur { k.proc cur with tf := (k.proc cur).tf.entry trapno })
          (by simpa using inside) with same | zombie
      · rw [same, proc_setProc_self _ _ inside]
        exact Or.inl rfl
      · exact Or.inr zombie
    | fault trapno =>
      dsimp only
      rcases exit_proc_self (k.setProc cur { k.proc cur with
          tf := (k.proc cur).tf.entry trapno, killed := true }) (by simpa using inside) with same | zombie
      · rw [same, proc_setProc_self _ _ inside]
        exact Or.inl rfl
      · exact Or.inr zombie

end Own

end Xv6.Kernel
