import Xv6.Sync.SleepWakeup

/-!
# No lost wakeup

The invariant of the sleep and wakeup protocol, and what follows from it for every reachable
state. Each thread holds exactly the locks its place in the code says, which is mutual
exclusion, since a lock has one holder. A waiter between its false test and its `release(lk)`
has the condition false, because every waker sets it under `lk`. And once a waker's `wakeup1`
has run, no waiter sleeps and none is on its way to sleep: a waiter that tested before the
waker set the condition held `lk` until it held `ptable.lock`, and it keeps `ptable.lock` until
it is SLEEPING, so `wakeup1`, which needs `ptable.lock`, finds it asleep; a waiter that tests
afterwards finds the condition true.
-/

namespace Xv6.Sync

open Xv6.Run State

variable {ι κ : Type} [DecidableEq ι] [DecidableEq κ] {b : Bool}

/-- Each waiter holds exactly the locks its place in the code says. -/
def WaiterHolds (lkIsPtable : Bool) (s : State ι κ) : Prop :=
  ∀ i l, s.holder l = some (.waiter i) ↔ (s.waiter i).Holds lkIsPtable l

/-- Each waker holds exactly the locks its place in the code says. -/
def WakerHolds (lkIsPtable : Bool) (s : State ι κ) : Prop :=
  ∀ j l, s.holder l = some (.waker j) ↔ (s.waker j).Holds lkIsPtable l

/-- The invariant of the protocol. -/
structure Inv (lkIsPtable : Bool) (s : State ι κ) : Prop where
  waiterHolds : WaiterHolds lkIsPtable s
  wakerHolds : WakerHolds lkIsPtable s
  waiterSkips : lkIsPtable = true → ∀ i, (s.waiter i).skipped = false
  wakerSkips : lkIsPtable = true → ∀ j, s.waker j ≠ .unlocking
  tested : ∀ i, (s.waiter i).tested lkIsPtable = true → s.cond = false
  condSet : ∀ j, (s.waker j).condSet = true → s.cond = true
  onCpu : ∀ i, s.waiter i ≠ .switched → s.state i = .running
  offCpu : ∀ i, s.waiter i = .switched →
    s.state i = .sleeping ∧ s.chan i = true ∨ s.state i = .runnable
  noLost : ∀ j, (s.waker j).woke = true →
    ∀ i, s.state i ≠ .sleeping ∧ (s.waiter i).committed = false

/-! ## Frames -/

/-- The waiters' holdings after a step of `t`: `t`'s own are as its new place says, and the
others' are unchanged. -/
theorem WaiterHolds.frame {s s' : State ι κ} (holds : WaiterHolds b s) {t : Thread ι κ}
    (moves : Moves t s.holder s'.holder)
    (mover : ∀ i, t = .waiter i → ∀ l, s'.holder l = some (.waiter i) ↔ (s'.waiter i).Holds b l)
    (others : ∀ i, t ≠ .waiter i → s'.waiter i = s.waiter i) : WaiterHolds b s' := by
  intro i l
  by_cases moving : t = .waiter i
  · exact mover i moving l
  · rw [others i moving, moves l (.waiter i) (Ne.symm moving) nofun]
    exact holds i l

/-- The wakers' holdings after a step of `t`. -/
theorem WakerHolds.frame {s s' : State ι κ} (holds : WakerHolds b s) {t : Thread ι κ}
    (moves : Moves t s.holder s'.holder)
    (mover : ∀ j, t = .waker j → ∀ l, s'.holder l = some (.waker j) ↔ (s'.waker j).Holds b l)
    (others : ∀ j, t ≠ .waker j → s'.waker j = s.waker j) : WakerHolds b s' := by
  intro j l
  by_cases moving : t = .waker j
  · exact mover j moving l
  · rw [others j moving, moves l (.waker j) (Ne.symm moving) nofun]
    exact holds j l

/-- A step of waiter `i` (or the scheduler's switch to it) keeps the invariant when what it does
to `i` keeps it: only `i`'s place, state and channel and the locks `i` passes change. -/
theorem Inv.waiterMove {s s' : State ι κ} (inv : Inv b s) (i : ι)
    (moves : Moves (.waiter i) s.holder s'.holder)
    (others : ∀ i', i' ≠ i →
      s'.waiter i' = s.waiter i' ∧ s'.state i' = s.state i' ∧ s'.chan i' = s.chan i')
    (wakers : s'.waker = s.waker) (cond : s'.cond = s.cond)
    (own : ∀ l, s'.holder l = some (.waiter i) ↔ (s'.waiter i).Holds b l)
    (skips : b = true → (s'.waiter i).skipped = false)
    (tested : (s'.waiter i).tested b = true → s.cond = false)
    (onCpu : s'.waiter i ≠ .switched → s'.state i = .running)
    (offCpu : s'.waiter i = .switched →
      s'.state i = .sleeping ∧ s'.chan i = true ∨ s'.state i = .runnable)
    (noLost : (∃ j, (s.waker j).woke = true) →
      s'.state i ≠ .sleeping ∧ (s'.waiter i).committed = false) :
    Inv b s' where
  waiterHolds := inv.waiterHolds.frame moves (by rintro _ ⟨⟩; exact own)
    (fun i' moving => (others i' (by rintro rfl; exact moving rfl)).1)
  wakerHolds := inv.wakerHolds.frame moves nofun (fun j _ => by rw [wakers])
  waiterSkips ptable i' := by
    by_cases mover : i' = i
    · exact mover ▸ skips ptable
    · rw [(others i' mover).1]
      exact inv.waiterSkips ptable i'
  wakerSkips := wakers ▸ inv.wakerSkips
  tested i' := by
    rw [cond]
    by_cases mover : i' = i
    · exact mover ▸ tested
    · rw [(others i' mover).1]
      exact inv.tested i'
  condSet := by
    rw [wakers, cond]
    exact inv.condSet
  onCpu i' := by
    by_cases mover : i' = i
    · exact mover ▸ onCpu
    · rw [(others i' mover).1, (others i' mover).2.1]
      exact inv.onCpu i'
  offCpu i' := by
    by_cases mover : i' = i
    · exact mover ▸ offCpu
    · rw [(others i' mover).1, (others i' mover).2.1, (others i' mover).2.2]
      exact inv.offCpu i'
  noLost j woke i' := by
    rw [wakers] at woke
    by_cases mover : i' = i
    · exact mover ▸ noLost ⟨j, woke⟩
    · rw [(others i' mover).1, (others i' mover).2.1]
      exact inv.noLost j woke i'

/-- A step of waker `j` that changes only `j`'s place and the locks `j` passes keeps the
invariant when what it does to `j` keeps it. -/
theorem Inv.wakerMove {s s' : State ι κ} (inv : Inv b s) (j : κ)
    (moves : Moves (.waker j) s.holder s'.holder)
    (others : ∀ j', j' ≠ j → s'.waker j' = s.waker j')
    (waiters : s'.waiter = s.waiter) (states : s'.state = s.state) (chans : s'.chan = s.chan)
    (cond : s'.cond = s.cond ∨ s'.cond = true ∧ ∀ i, (s.waiter i).tested b = false)
    (own : ∀ l, s'.holder l = some (.waker j) ↔ (s'.waker j).Holds b l)
    (skips : b = true → s'.waker j ≠ .unlocking)
    (condSet : (s'.waker j).condSet = true → s'.cond = true)
    (woke : (s'.waker j).woke = true →
      ∀ i, s.state i ≠ .sleeping ∧ (s.waiter i).committed = false) :
    Inv b s' where
  waiterHolds := inv.waiterHolds.frame moves nofun (fun i _ => by rw [waiters])
  wakerHolds := inv.wakerHolds.frame moves (by rintro _ ⟨⟩; exact own)
    (fun j' moving => others j' (by rintro rfl; exact moving rfl))
  waiterSkips := waiters ▸ inv.waiterSkips
  wakerSkips ptable j' := by
    by_cases mover : j' = j
    · exact mover ▸ skips ptable
    · rw [others j' mover]
      exact inv.wakerSkips ptable j'
  tested i tested := by
    rw [waiters] at tested
    rcases cond with same | ⟨-, untested⟩
    · exact same ▸ inv.tested i tested
    · rw [untested i] at tested
      cases tested
  condSet j' := by
    by_cases mover : j' = j
    · exact mover ▸ condSet
    · rw [others j' mover]
      intro set
      rcases cond with same | ⟨set', -⟩
      · exact same ▸ inv.condSet j' set
      · exact set'
  onCpu := by
    rw [waiters, states]
    exact inv.onCpu
  offCpu := by
    rw [waiters, states, chans]
    exact inv.offCpu
  noLost j' := by
    rw [waiters, states]
    by_cases mover : j' = j
    · exact mover ▸ woke
    · rw [others j' mover]
      exact inv.noLost j'

/-- A step of the scheduler that only takes or releases `ptable.lock` keeps the invariant. -/
theorem Inv.schedulerMove {s s' : State ι κ} (inv : Inv b s)
    (moves : Moves .scheduler s.holder s'.holder) (waiters : s'.waiter = s.waiter)
    (wakers : s'.waker = s.waker) (states : s'.state = s.state) (chans : s'.chan = s.chan)
    (cond : s'.cond = s.cond) : Inv b s' where
  waiterHolds := inv.waiterHolds.frame moves nofun (fun i _ => by rw [waiters])
  wakerHolds := inv.wakerHolds.frame moves nofun (fun j _ => by rw [wakers])
  waiterSkips := waiters ▸ inv.waiterSkips
  wakerSkips := wakers ▸ inv.wakerSkips
  tested := by
    rw [waiters, cond]
    exact inv.tested
  condSet := by
    rw [wakers, cond]
    exact inv.condSet
  onCpu := by
    rw [waiters, states]
    exact inv.onCpu
  offCpu := by
    rw [waiters, states, chans]
    exact inv.offCpu
  noLost := by
    rw [wakers, waiters, states]
    exact inv.noLost

/-! ## The waiter's steps -/

section Waiter

variable {s : State ι κ} (inv : Inv b s) (i : ι) {here : WaiterPc} (pc : s.waiter i = here)
include inv pc

/-- A waiter running on its CPU that takes a free lock keeps the invariant. -/
theorem Inv.waiterTake {l : SpinLock} (free : s.holder l = none) (next : WaiterPc)
    (gains : ∀ l', next.Holds b l' ↔ l' = l ∨ here.Holds b l')
    (onCpu : here ≠ .switched) (stays : next ≠ .switched)
    (skips : b = true → next.skipped = false) (tested : next.tested b = true → s.cond = false)
    (committed : (∃ j, (s.waker j).woke = true) → next.committed = false) :
    Inv b ((s.take l (.waiter i)).moveWaiter i next) := by
  have running : s.state i = .running := inv.onCpu i (pc ▸ onCpu)
  apply inv.waiterMove i
  · exact moves_update (.inl free) (.inr (.inl rfl))
  · intro i' other
    simp [other]
  · rfl
  · rfl
  · intro l'
    rw [moveWaiter_holder, take_holder, moveWaiter_waiter, Function.update_self, gains,
      holds_take (inv.waiterHolds i) l l', pc]
  all_goals simp only [moveWaiter_waiter, Function.update_self, moveWaiter_state, take_state]
  · exact skips
  · exact tested
  · exact fun _ => running
  · exact fun switched => absurd switched stays
  · exact fun woke => ⟨by simp [running], committed woke⟩

/-- A waiter running on its CPU that passes a lock it holds to `value` (free, or the scheduler)
keeps the invariant. -/
theorem Inv.waiterLeave {l : SpinLock} (held : s.holder l = some (.waiter i))
    {value : Option (Thread ι κ)} (passed : value = none ∨ value = some .scheduler)
    (next : WaiterPc) (loses : ∀ l', next.Holds b l' ↔ l' ≠ l ∧ here.Holds b l')
    (onCpu : here ≠ .switched) (stays : next ≠ .switched)
    (skips : b = true → next.skipped = false) (tested : next.tested b = true → s.cond = false)
    (committed : (∃ j, (s.waker j).woke = true) → next.committed = false) :
    Inv b ({ s with holder := Function.update s.holder l value }.moveWaiter i next) := by
  have running : s.state i = .running := inv.onCpu i (pc ▸ onCpu)
  have other : value ≠ some (.waiter i) := by
    rcases passed with rfl | rfl <;> simp
  apply inv.waiterMove i
  · exact moves_update (.inr (.inl held)) (passed.elim .inl (.inr ∘ .inr))
  · intro i' other
    simp [other]
  · rfl
  · rfl
  · intro l'
    rw [moveWaiter_holder, moveWaiter_waiter, Function.update_self, loses,
      holds_leave (inv.waiterHolds i) l other l', pc]
  all_goals simp only [moveWaiter_waiter, Function.update_self, moveWaiter_state]
  · exact skips
  · exact tested
  · exact fun _ => running
  · exact fun switched => absurd switched stays
  · exact fun woke => ⟨by simp [running], committed woke⟩

/-- A waiter running on its CPU that moves without passing a lock keeps the invariant. -/
theorem Inv.waiterStay (next : WaiterPc) (same : ∀ l', next.Holds b l' ↔ here.Holds b l')
    (onCpu : here ≠ .switched) (stays : next ≠ .switched)
    (skips : b = true → next.skipped = false) (tested : next.tested b = true → s.cond = false)
    (committed : (∃ j, (s.waker j).woke = true) → next.committed = false) :
    Inv b (s.moveWaiter i next) := by
  have running : s.state i = .running := inv.onCpu i (pc ▸ onCpu)
  apply inv.waiterMove i (show Moves _ s.holder (s.moveWaiter i next).holder from Moves.refl _ _)
  · intro i' other
    simp [other]
  · rfl
  · rfl
  · intro l'
    rw [moveWaiter_holder, moveWaiter_waiter, Function.update_self, same, ← pc]
    exact inv.waiterHolds i l'
  all_goals simp only [moveWaiter_waiter, Function.update_self, moveWaiter_state]
  · exact skips
  · exact tested
  · exact fun _ => running
  · exact fun switched => absurd switched stays
  · exact fun woke => ⟨by simp [running], committed woke⟩

/-- A waiter running on its CPU may change its `chan`, which only a switched waiter's invariant
reads. -/
theorem Inv.setChan (onCpu : here ≠ .switched) (onChan : Bool) : Inv b (s.setChan i onChan) := by
  have running : s.state i = .running := inv.onCpu i (pc ▸ onCpu)
  apply inv.waiterMove i (show Moves _ s.holder (s.setChan i onChan).holder from Moves.refl _ _)
  · intro i' other
    simp [other]
  · rfl
  · rfl
  · exact inv.waiterHolds i
  · exact fun ptable => inv.waiterSkips ptable i
  · exact inv.tested i
  · exact fun _ => running
  · exact fun switched => absurd (pc ▸ switched) onCpu
  · intro woke
    exact inv.noLost woke.choose woke.choose_spec i

/-- `sleep`'s `p->chan = chan; p->state = SLEEPING; sched()`: the waiter is asleep on the channel
and the scheduler holds `ptable.lock`. -/
theorem Inv.sched (asleep : here = .sleeping) :
    Inv b ((((s.setChan i true).setState i .sleeping).take .ptable .scheduler).moveWaiter i
      .switched) := by
  subst asleep
  have held : s.holder .ptable = some (.waiter i) :=
    (inv.waiterHolds i .ptable).mpr (by simp [pc, WaiterPc.Holds, Holding])
  apply inv.waiterMove i
  · exact moves_update (.inr (.inl held)) (.inr (.inr rfl))
  · intro i' other
    simp [other]
  · rfl
  · rfl
  · intro l
    show Function.update s.holder .ptable (some .scheduler) l = some (.waiter i) ↔ _
    rw [holds_leave (inv.waiterHolds i) .ptable (by simp) l, pc, moveWaiter_waiter,
      Function.update_self]
    cases l <;> simp [WaiterPc.Holds, Holding, lkOf]
  all_goals simp only [moveWaiter_waiter, Function.update_self, moveWaiter_state, take_state,
    setState_state, moveWaiter_chan, take_chan, setState_chan, setChan_chan]
  · exact fun _ => rfl
  · exact nofun
  · exact fun stays => absurd rfl stays
  · exact fun _ => by simp
  · intro woke
    have committed := (inv.noLost woke.choose woke.choose_spec i).2
    rw [pc] at committed
    cases committed

end Waiter

/-- The scheduler's switch to a runnable waiter: the waiter runs and holds `ptable.lock`. -/
theorem Inv.run {s : State ι κ} (inv : Inv b s) (i : ι) (scheduling : s.holder .ptable = some .scheduler)
    (runnable : s.state i = .runnable) :
    Inv b (((s.setState i .running).take .ptable (.waiter i)).moveWaiter i .resumed) := by
  have switched : s.waiter i = .switched := by
    by_contra onCpu
    rw [inv.onCpu i onCpu] at runnable
    cases runnable
  apply inv.waiterMove i
  · exact moves_update (.inr (.inr scheduling)) (.inr (.inl rfl))
  · intro i' other
    simp [other]
  · rfl
  · rfl
  · intro l
    show Function.update s.holder .ptable (some (.waiter i)) l = some (.waiter i) ↔ _
    rw [holds_take (inv.waiterHolds i) .ptable l, switched, moveWaiter_waiter,
      Function.update_self]
    simp [WaiterPc.Holds, Holding]
  all_goals simp only [moveWaiter_waiter, Function.update_self, moveWaiter_state, take_state,
    setState_state]
  · exact fun _ => rfl
  · exact nofun
  · exact fun _ => trivial
  · exact nofun
  · exact fun _ => ⟨nofun, rfl⟩

omit [DecidableEq ι] [DecidableEq κ] in
/-- A sleeping waiter is switched out, with its `chan` on the protocol's channel. -/
theorem Inv.asleep {s : State ι κ} (inv : Inv b s) {i : ι} (asleep : s.state i = .sleeping) :
    s.waiter i = .switched ∧ s.chan i = true := by
  have switched : s.waiter i = .switched := by
    by_contra onCpu
    rw [inv.onCpu i onCpu] at asleep
    cases asleep
  refine ⟨switched, ?_⟩
  rcases inv.offCpu i switched with ⟨-, onChan⟩ | runnable
  · exact onChan
  · rw [asleep] at runnable
    cases runnable

/-! ## The waker's steps -/

/-- A waiter past a false test holds `lk`. -/
theorem WaiterPc.holds_of_tested {pc : WaiterPc} (tested : pc.tested b = true) :
    pc.Holds b (lkOf b) := by
  cases pc <;> cases b <;> simp_all [WaiterPc.Holds, Holding, lkOf]

/-- A waiter on its way to sleep is past a false test or holds `ptable.lock`. -/
theorem WaiterPc.tested_or_holds {pc : WaiterPc} (committed : pc.committed = true) :
    pc.tested b = true ∨ pc.Holds b .ptable := by
  cases pc <;> simp_all [WaiterPc.Holds, Holding]

section Waker

variable {s : State ι κ} (inv : Inv b s) (j : κ) {here : WakerPc} (pc : s.waker j = here)
include inv pc

/-- A waker that takes a free lock keeps the invariant. -/
theorem Inv.wakerTake {l : SpinLock} (free : s.holder l = none) (next : WakerPc)
    (gains : ∀ l', next.Holds b l' ↔ l' = l ∨ here.Holds b l')
    (skips : b = true → next ≠ .unlocking) (condSet : next.condSet = true → s.cond = true)
    (woke : next.woke = true → ∀ i, s.state i ≠ .sleeping ∧ (s.waiter i).committed = false) :
    Inv b ((s.take l (.waker j)).moveWaker j next) := by
  apply inv.wakerMove j
  · exact moves_update (.inl free) (.inr (.inl rfl))
  · intro j' other
    simp [other]
  all_goals try rfl
  · exact .inl rfl
  · intro l'
    rw [moveWaker_holder, take_holder, moveWaker_waker, Function.update_self, gains,
      holds_take (inv.wakerHolds j) l l', pc]
  all_goals simp only [moveWaker_waker, Function.update_self]
  · exact skips
  · exact condSet
  · exact woke

/-- A waker that releases a lock it holds keeps the invariant. -/
theorem Inv.wakerLeave {l : SpinLock} (held : s.holder l = some (.waker j)) (next : WakerPc)
    (loses : ∀ l', next.Holds b l' ↔ l' ≠ l ∧ here.Holds b l')
    (skips : b = true → next ≠ .unlocking) (condSet : next.condSet = true → s.cond = true)
    (woke : next.woke = true → ∀ i, s.state i ≠ .sleeping ∧ (s.waiter i).committed = false) :
    Inv b ((s.drop l).moveWaker j next) := by
  apply inv.wakerMove j
  · exact moves_update (.inr (.inl held)) (.inl rfl)
  · intro j' other
    simp [other]
  all_goals try rfl
  · exact .inl rfl
  · intro l'
    rw [moveWaker_holder, drop_holder, moveWaker_waker, Function.update_self, loses,
      holds_leave (inv.wakerHolds j) l (by simp) l', pc]
  all_goals simp only [moveWaker_waker, Function.update_self]
  · exact skips
  · exact condSet
  · exact woke

/-- A waker that moves without passing a lock keeps the invariant. -/
theorem Inv.wakerStay (next : WakerPc) (same : ∀ l', next.Holds b l' ↔ here.Holds b l')
    (skips : b = true → next ≠ .unlocking) (condSet : next.condSet = true → s.cond = true)
    (woke : next.woke = true → ∀ i, s.state i ≠ .sleeping ∧ (s.waiter i).committed = false) :
    Inv b (s.moveWaker j next) := by
  apply inv.wakerMove j (show Moves _ s.holder (s.moveWaker j next).holder from Moves.refl _ _)
  · intro j' other
    simp [other]
  all_goals try rfl
  · exact .inl rfl
  · intro l'
    rw [moveWaker_holder, moveWaker_waker, Function.update_self, same, ← pc]
    exact inv.wakerHolds j l'
  all_goals simp only [moveWaker_waker, Function.update_self]
  · exact skips
  · exact condSet
  · exact woke

/-- `cond = 1` under `lk`: no waiter is past a false test, since every such waiter holds `lk`. -/
theorem Inv.setCond (locked : here = .locked) :
    Inv b { s.moveWaker j .signalled with cond := true } := by
  subst locked
  have holding : s.holder (lkOf b) = some (.waker j) :=
    (inv.wakerHolds j (lkOf b)).mpr (by simp [pc, WakerPc.Holds, Holding])
  have untested : ∀ i, (s.waiter i).tested b = false := by
    intro i
    by_contra tested
    have waiting := (inv.waiterHolds i (lkOf b)).mpr
      (WaiterPc.holds_of_tested (Bool.not_eq_false _ ▸ tested))
    rw [holding] at waiting
    cases waiting
  apply inv.wakerMove j (show Moves _ s.holder
    ({ s.moveWaker j .signalled with cond := true } : State ι κ).holder from Moves.refl _ _)
  · intro j' other
    simp [other]
  all_goals try rfl
  · exact .inr ⟨rfl, untested⟩
  · intro l'
    show s.holder l' = some (.waker j) ↔ _
    rw [inv.wakerHolds j l', pc, moveWaker_waker, Function.update_self]
    simp [WakerPc.Holds, Holding]
  all_goals simp only [moveWaker_waker, Function.update_self]
  · exact nofun
  · exact fun _ => trivial
  · exact nofun

omit [DecidableEq ι] [DecidableEq κ] in
/-- At a waker's `wakeup1` no waiter is asleep afterwards, and none is on its way to sleep: a
waiter past a false test contradicts the set condition, and one holding `ptable.lock`
contradicts the waker's holding it. -/
theorem Inv.wakeup1_clears {e : Bool} (waking : here = .waking e) (i : ι) :
    s.wakeup1.state i ≠ .sleeping ∧ (s.waiter i).committed = false := by
  subst waking
  constructor
  · by_cases asleep : s.state i = .sleeping
    · simp [asleep, (inv.asleep asleep).2]
    · simp [asleep]
  · by_contra committed
    rcases WaiterPc.tested_or_holds (Bool.not_eq_false _ ▸ committed) with tested | holds
    · have unset := inv.tested i tested
      rw [inv.condSet j (by simp [pc])] at unset
      cases unset
    · have waiting := (inv.waiterHolds i .ptable).mpr holds
      rw [(inv.wakerHolds j .ptable).mpr (by simp [pc, WakerPc.Holds, Holding])] at waiting
      cases waiting

/-- `wakeup1` under `ptable.lock` keeps the invariant. -/
theorem Inv.wakeup1 {e : Bool} (waking : here = .waking e) :
    Inv b (s.wakeup1.moveWaker j (.woken e)) where
  waiterHolds := inv.waiterHolds
  wakerHolds := inv.wakerHolds.frame (Moves.refl (.waker j) _)
    (by
      rintro _ ⟨⟩ l
      rw [moveWaker_waker, Function.update_self]
      show s.holder l = some (.waker j) ↔ _
      rw [inv.wakerHolds j l, pc, waking]
      cases e <;> simp [WakerPc.Holds, Holding])
    (fun j' moving => by simp [show j' ≠ j by rintro rfl; exact moving rfl])
  waiterSkips := inv.waiterSkips
  wakerSkips ptable j' := by
    by_cases mover : j' = j
    · simp [mover]
    · simpa [mover] using inv.wakerSkips ptable j'
  tested := inv.tested
  condSet j' := by
    by_cases mover : j' = j
    · subst mover waking
      exact fun _ => inv.condSet j' (by simp [pc])
    · simpa [mover] using inv.condSet j'
  onCpu i onCpu := by
    have running := inv.onCpu i onCpu
    simp [running]
  offCpu i switched := by
    rcases inv.offCpu i switched with ⟨asleep, onChan⟩ | runnable
    · simp [asleep, onChan]
    · simp [runnable]
  noLost j' woke i := by
    by_cases mover : j' = j
    · exact inv.wakeup1_clears j pc waking i
    · have before := inv.noLost j' (by simpa [mover] using woke) i
      exact ⟨by simp [before.1], before.2⟩

end Waker

/-! ## Every step -/

omit [DecidableEq ι] [DecidableEq κ] in
/-- Once some waker's `wakeup1` has run, the condition is true. -/
theorem Inv.cond_of_woke {s : State ι κ} (inv : Inv b s) (woke : ∃ j, (s.waker j).woke = true) :
    s.cond = true := by
  obtain ⟨j, woke⟩ := woke
  apply inv.condSet j
  revert woke
  cases s.waker j <;> simp

/-- Every step of a waiter keeps the invariant. A test that found the condition false means no waker
has woken the channel yet. -/
theorem inv_waiterStep {s : State ι κ} (inv : Inv b s) (i : ι) : Inv b (waiterStep b s i) := by
  unfold waiterStep
  cases pc : s.waiter i with
  | start =>
    dsimp only
    split
    · rename_i free
      exact inv.waiterTake i pc free .checking (by simp [WaiterPc.Holds, Holding]) nofun nofun
        (fun _ => rfl) nofun (fun _ => rfl)
    · exact inv
  | checking =>
    dsimp only
    split
    · exact inv.waiterStay i pc .done (by simp [WaiterPc.Holds, Holding]) nofun nofun
        (fun _ => rfl) nofun (fun _ => rfl)
    · rename_i unset
      have unset : s.cond = false := by simpa using unset
      have unwoken : ¬ ∃ j, (s.waker j).woke = true := fun woke => by
        rw [inv.cond_of_woke woke] at unset
        cases unset
      cases b
      · exact inv.waiterStay i pc .entering (by simp [WaiterPc.Holds, Holding]) nofun nofun
          nofun (fun _ => unset) (fun woke => absurd woke unwoken)
      · exact inv.waiterStay i pc .sleeping (by simp [WaiterPc.Holds, Holding, lkOf]) nofun
          nofun (fun _ => rfl) (fun _ => unset) (fun woke => absurd woke unwoken)
  | entering =>
    dsimp only
    split
    · rename_i free
      exact inv.waiterTake i pc free .releasing (by simp [WaiterPc.Holds, Holding, or_comm])
        nofun nofun (fun ptable => absurd (inv.waiterSkips ptable i) (by simp [pc]))
        (fun _ => inv.tested i (by simp [pc]))
        (fun woke => absurd (inv.noLost woke.choose woke.choose_spec i).2 (by simp [pc]))
    · exact inv
  | releasing =>
    have separate : b = false := by
      cases b
      · rfl
      · exact absurd (inv.waiterSkips rfl i) (by simp [pc])
    subst separate
    have held : s.holder (lkOf false) = some (.waiter i) :=
      (inv.waiterHolds i _).mpr (by simp [pc, WaiterPc.Holds, Holding])
    exact inv.waiterLeave i pc held (.inl rfl) .sleeping
      (by intro l; cases l <;> simp [WaiterPc.Holds, Holding, lkOf]) nofun nofun nofun nofun
      (fun woke => absurd (inv.noLost woke.choose woke.choose_spec i).2 (by simp [pc]))
  | sleeping => exact inv.sched i pc rfl
  | switched => exact inv
  | resumed =>
    have cleared := inv.setChan i pc nofun false
    have held : (s.setChan i false).holder .ptable = some (.waiter i) :=
      (inv.waiterHolds i _).mpr (by simp [pc, WaiterPc.Holds, Holding])
    have pc' : (s.setChan i false).waiter i = .resumed := pc
    dsimp only
    split
    · rename_i ptable
      subst ptable
      exact cleared.waiterStay i pc' .checking (by simp [WaiterPc.Holds, Holding, lkOf]) nofun
        nofun (fun _ => rfl) nofun (fun _ => rfl)
    · rename_i separate
      exact cleared.waiterLeave i pc' held (.inl rfl) .reacquiring
        (by simp [WaiterPc.Holds, Holding]) nofun nofun (fun ptable => absurd ptable separate)
        nofun (fun _ => rfl)
  | reacquiring =>
    dsimp only
    split
    · rename_i free
      exact inv.waiterTake i pc free .checking (by simp [WaiterPc.Holds, Holding]) nofun nofun
        (fun _ => rfl) nofun (fun _ => rfl)
    · exact inv
  | done =>
    have held : s.holder (lkOf b) = some (.waiter i) :=
      (inv.waiterHolds i _).mpr (by simp [pc, WaiterPc.Holds, Holding])
    exact inv.waiterLeave i pc held (.inl rfl) .finished (by simp [WaiterPc.Holds, Holding])
      nofun nofun (fun _ => rfl) nofun (fun _ => rfl)
  | finished => exact inv

/-- Every step of a waker keeps the invariant. A waker holding `ptable.lock` as `lk` calls `wakeup1`
without an acquire. -/
theorem inv_wakerStep {s : State ι κ} (inv : Inv b s) (j : κ) (early : Bool) :
    Inv b (wakerStep b s j early) := by
  have setBefore : (s.waker j).condSet = true → s.cond = true := inv.condSet j
  have wokeBefore := inv.noLost j
  unfold wakerStep
  cases pc : s.waker j with
  | start =>
    dsimp only
    split
    · rename_i free
      exact inv.wakerTake j pc free .locked (by simp [WakerPc.Holds, Holding]) (fun _ => by simp)
        (by simp) (by simp)
    · exact inv
  | locked => exact inv.setCond j pc rfl
  | signalled =>
    have set := setBefore (by simp [pc])
    have held : s.holder (lkOf b) = some (.waker j) :=
      (inv.wakerHolds j _).mpr (by simp [pc, WakerPc.Holds, Holding])
    dsimp only
    split
    · split
      · rename_i ptable
        subst ptable
        exact inv.wakerStay j pc (.waking true) (by simp [WakerPc.Holds, Holding, lkOf])
          (fun _ => by simp) (fun _ => set) (by simp)
      · split
        · rename_i separate free
          exact inv.wakerTake j pc free (.waking true)
            (by simp [WakerPc.Holds, Holding, or_comm]) (fun _ => by simp) (fun _ => set) (by simp)
        · exact inv
    · exact inv.wakerLeave j pc held .released (by simp [WakerPc.Holds, Holding])
        (fun _ => by simp) (fun _ => set) (by simp)
  | released =>
    dsimp only
    split
    · rename_i free
      exact inv.wakerTake j pc free (.waking false) (by simp [WakerPc.Holds, Holding])
        (fun _ => by simp) (fun _ => setBefore (by simp [pc])) (by simp)
    · exact inv
  | waking e => exact inv.wakeup1 j pc rfl
  | woken e =>
    have held : s.holder .ptable = some (.waker j) :=
      (inv.wakerHolds j _).mpr (by simp [pc, WakerPc.Holds, Holding])
    have skips : b = true → (if (e && !b) = true then WakerPc.unlocking else .done) ≠ .unlocking :=
      by rintro rfl; simp
    exact inv.wakerLeave j pc held _
      (by intro l; cases e <;> cases b <;> cases l <;> simp [WakerPc.Holds, Holding, lkOf])
      skips (fun _ => setBefore (by simp [pc])) (fun _ => wokeBefore (by simp [pc]))
  | unlocking =>
    have held : s.holder (lkOf b) = some (.waker j) :=
      (inv.wakerHolds j _).mpr (by simp [pc, WakerPc.Holds, Holding])
    exact inv.wakerLeave j pc held .done (by simp [WakerPc.Holds, Holding]) (fun _ => by simp)
      (fun _ => setBefore (by simp [pc])) (fun _ => wokeBefore (by simp [pc]))
  | done => exact inv

/-- Every step keeps the invariant. -/
theorem inv_step {s : State ι κ} (inv : Inv b s) : ∀ event, Inv b (step b s event)
  | .waiter i => inv_waiterStep inv i
  | .waker j early => inv_wakerStep inv j early
  | .acquire => by
    simp only [step]
    split
    · rename_i free
      exact inv.schedulerMove (moves_update (.inl free) (.inr (.inr rfl))) rfl rfl rfl rfl rfl
    · exact inv
  | .release => by
    simp only [step]
    split
    · rename_i held
      exact inv.schedulerMove (moves_update (.inr (.inr held)) (.inl rfl)) rfl rfl rfl rfl rfl
    · exact inv
  | .run i => by
    simp only [step]
    split
    · rename_i runnable
      exact inv.run i runnable.1 runnable.2
    · exact inv

omit [DecidableEq ι] [DecidableEq κ] in
/-- The invariant holds at the start. -/
theorem inv_initial : Inv b (initial : State ι κ) where
  waiterHolds i l := by simp [Sync.initial, WaiterPc.Holds, Holding]
  wakerHolds j l := by simp [Sync.initial, WakerPc.Holds, Holding]
  waiterSkips _ _ := rfl
  wakerSkips _ _ := nofun
  tested _ := nofun
  condSet _ := nofun
  onCpu _ _ := rfl
  offCpu _ := nofun
  noLost _ := nofun

/-- The invariant holds in every reachable state. -/
theorem inv_reachable {s : State ι κ} (reached : Reachable (step b) initial s) : Inv b s :=
  have kept : Invariant (step b) (Inv b : State ι κ → Prop) := fun _ event inv => inv_step inv event
  kept.reachable inv_initial reached

/-! ## No lost wakeup -/

/-- The step of a waker at `wakeup1` makes every sleeping waiter runnable and changes no other
process state. -/
theorem step_at_wakeup1 {s : State ι κ} (inv : Inv b s) {j : κ} {e : Bool}
    (waking : s.waker j = .waking e) (early : Bool) (i : ι) :
    (step b s (.waker j early)).state i = if s.state i = .sleeping then .runnable else s.state i := by
  have stepped : step b s (.waker j early) = s.wakeup1.moveWaker j (.woken e) := by
    simp only [step, wakerStep, waking]
  rw [stepped, moveWaker_state, wakeup1_state]
  by_cases asleep : s.state i = .sleeping
  · simp [asleep, (inv.asleep asleep).2]
  · simp [asleep]

omit [DecidableEq ι] [DecidableEq κ] in
/-- A waiter where `sleep` has returned, or past its loop, holds `lk`. -/
theorem Inv.holds_of_returned {s : State ι κ} (inv : Inv b s) {i : ι}
    (returned : (s.waiter i).returned = true) : s.holder (lkOf b) = some (.waiter i) := by
  apply (inv.waiterHolds i (lkOf b)).mpr
  revert returned
  cases s.waiter i <;> simp [WaiterPc.Holds, Holding]

/-- The kernel's `wakeup1` changes only a process sleeping on the channel, and makes it
runnable. -/
theorem wakeup1_changes_only_sleepers (k : Kernel.Machine) (chan : Kernel.Chan) (slot : Nat)
    (changed : (Kernel.wakeup1 k chan).proc slot ≠ k.proc slot) :
    (k.proc slot).state = .sleeping ∧ (k.proc slot).chan = chan ∧
      (Kernel.wakeup1 k chan).proc slot = { k.proc slot with state := .runnable } := by
  rw [Kernel.proc_wakeup1] at changed ⊢
  by_cases sleeper : (k.proc slot).state = .sleeping ∧ (k.proc slot).chan = chan
  · simp [sleeper]
  · simp [sleeper] at changed

/-- No wakeup is lost, for any number of waiters and wakers, with `lk` a lock of its own or
`ptable.lock`. In every reachable state: once a waker's `wakeup1` has run, no waiter is
SLEEPING and none is between its false test and SLEEPING; at a `wakeup1` every sleeping waiter
becomes RUNNABLE and no other changes; a waiter where `sleep` has returned holds `lk`; and the
kernel's `wakeup1` changes only processes SLEEPING on its channel. -/
theorem wakeup_not_lost (lkIsPtable : Bool) {s : State ι κ}
    (reached : Reachable (step lkIsPtable) initial s) :
    (∀ j, (s.waker j).woke = true →
      ∀ i, s.state i ≠ .sleeping ∧ (s.waiter i).committed = false) ∧
    (∀ j e, s.waker j = .waking e → ∀ early i,
      (step lkIsPtable s (.waker j early)).state i =
        if s.state i = .sleeping then .runnable else s.state i) ∧
    (∀ i, (s.waiter i).returned = true → s.holder (lkOf lkIsPtable) = some (.waiter i)) ∧
    (∀ (k : Kernel.Machine) (chan : Kernel.Chan) (slot : Nat),
      (Kernel.wakeup1 k chan).proc slot ≠ k.proc slot →
        (k.proc slot).state = .sleeping ∧ (k.proc slot).chan = chan ∧
          (Kernel.wakeup1 k chan).proc slot = { k.proc slot with state := .runnable }) := by
  have inv : Inv lkIsPtable s := inv_reachable reached
  refine ⟨inv.noLost, ?_, fun i returned => inv.holds_of_returned returned,
    wakeup1_changes_only_sleepers⟩
  intro j e waking early i
  exact step_at_wakeup1 inv waking early i

/-- One waiter and one waker with `lk` of its own: the waiter tests, enters `sleep` and sleeps;
the waker sets the condition; the scheduler releases `ptable.lock`, and the waker wakes the
channel before it releases `lk`. -/
def sleptRun : List (Event Unit Unit) :=
  [.waiter (), .waiter (), .waiter (), .waiter (), .waiter (), .waker () true, .waker () true,
    .release, .waker () true, .waker () true]

/-- The state after `sleptRun`. -/
def sleptState : State Unit Unit := run (step false) initial sleptRun

/-- No wakeup is lost in the state after `sleptRun`. -/
theorem wakeup_not_lost_sleptRun :
    (∀ j, (sleptState.waker j).woke = true →
      ∀ i, sleptState.state i ≠ .sleeping ∧ (sleptState.waiter i).committed = false) ∧
    (∀ j e, sleptState.waker j = .waking e → ∀ early i,
      (step false sleptState (.waker j early)).state i =
        if sleptState.state i = .sleeping then .runnable else sleptState.state i) ∧
    (∀ i, (sleptState.waiter i).returned = true →
      sleptState.holder (lkOf false) = some (.waiter i)) ∧
    (∀ (k : Kernel.Machine) (chan : Kernel.Chan) (slot : Nat),
      (Kernel.wakeup1 k chan).proc slot ≠ k.proc slot →
        (k.proc slot).state = .sleeping ∧ (k.proc slot).chan = chan ∧
          (Kernel.wakeup1 k chan).proc slot = { k.proc slot with state := .runnable }) :=
  wakeup_not_lost false ⟨sleptRun, rfl⟩

/-- The run does reach a sleep and its wakeup: the waiter is RUNNABLE, the waker past
`wakeup1`. -/
example : sleptState.state () = .runnable ∧ sleptState.waker () = .woken true := by
  decide

end Xv6.Sync
