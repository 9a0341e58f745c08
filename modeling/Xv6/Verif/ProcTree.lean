import Xv6.Verif.SlotReuse

/-!
# The process tree

In every reachable table each process other than init that is SLEEPING, RUNNABLE, RUNNING or
ZOMBIE has a parent, and the parent is neither UNUSED nor a zombie: `fork` makes the running
caller the parent, `exit` hands every child to init before it becomes a zombie, and `wait`
frees only zombies, which by then have no children. The pids in use are distinct and below
`nextpid`, which only grows, so a pid that `wait` has returned is never in use again, and
along every run no pid is returned twice.

The invariant is kept by every function of the table. Most of them only change a process's
fields other than its pid and parent, and move it between the active states; `Tame` says so
once. `Moves` is what one step may do to pids and zombies, for the run-level statement.
-/

namespace Xv6.Kernel

open Xv6.Run Machine

/-- SLEEPING, RUNNABLE or RUNNING. -/
def Active (state : ProcState) : Prop := state = .sleeping ∨ state = .runnable ∨ state = .running

/-- A state that may move only between active ones is in a state that is not active before
exactly when it is after. -/
theorem idle_iff {before after state : ProcState}
    (moved : after = before ∨ (Active before ∧ Active after)) (idle : ¬ Active state) :
    after = state ↔ before = state := by
  rcases moved with same | ⟨was, now⟩
  · rw [same]
  · constructor
    · intro reached
      exact absurd (reached ▸ now) idle
    · intro reached
      exact absurd (reached ▸ was) idle

/-- The tree of the table, and the facts about pids and UNUSED slots that keep it. -/
structure TreeInv (k : Machine) : Prop where
  init_lives : (k.proc k.initproc).state ≠ .unused ∧ (k.proc k.initproc).state ≠ .zombie
  no_embryo : ∀ slot, (k.proc slot).state ≠ .embryo
  orphan_unused : ∀ slot, (k.proc slot).state = .unused → (k.proc slot).parent = none
  has_parent : ∀ slot, slot ≠ k.initproc → (k.proc slot).state ≠ .unused →
    (k.proc slot).parent.isSome
  parent_lives : ∀ slot q, (k.proc slot).parent = some q →
    (k.proc q).state ≠ .unused ∧ (k.proc q).state ≠ .zombie
  pid_fresh : ∀ slot, (k.proc slot).state ≠ .unused → (k.proc slot).pid < k.nextpid
  pid_unique : ∀ a b, a ≠ b → (k.proc a).state ≠ .unused → (k.proc b).state ≠ .unused →
    (k.proc a).pid ≠ (k.proc b).pid

/-- A change of the table that keeps every slot's pid, and its state or, for an active one,
its being active. -/
structure Relabel (k k' : Machine) : Prop where
  initproc : k'.initproc = k.initproc
  nextpid : k'.nextpid = k.nextpid
  pid : ∀ slot, (k'.proc slot).pid = (k.proc slot).pid
  state : ∀ slot, (k'.proc slot).state = (k.proc slot).state ∨
    (Active (k.proc slot).state ∧ Active (k'.proc slot).state)

/-- A change that also keeps every parent: what most functions of the table do. -/
structure Tame (k k' : Machine) : Prop extends Relabel k k' where
  parent : ∀ slot, (k'.proc slot).parent = (k.proc slot).parent

/-- What one step of the process in slot `cur` may do to pids and zombies: `nextpid` grows, a
slot in use keeps its pid or has one at or above the old `nextpid`, and a zombie is freed only
as a child of `cur`. -/
structure Moves (cur : Nat) (k k' : Machine) : Prop where
  nextpid : k.nextpid ≤ k'.nextpid
  renumbered : ∀ slot, (k'.proc slot).state ≠ .unused →
    ((k.proc slot).state ≠ .unused ∧ (k'.proc slot).pid = (k.proc slot).pid) ∨
      k.nextpid ≤ (k'.proc slot).pid
  freed : ∀ slot, (k.proc slot).state = .zombie → (k'.proc slot).state = .unused →
    (k.proc slot).parent = some cur

/-- A step of `cur` that keeps the tree. -/
structure Sound (cur : Nat) (k k' : Machine) : Prop where
  inv : TreeInv k'
  moves : Moves cur k k'

namespace Relabel

variable {k k' k'' : Machine}

theorem refl (k : Machine) : Relabel k k := ⟨rfl, rfl, fun _ => rfl, fun _ => .inl rfl⟩

theorem trans (first : Relabel k k') (second : Relabel k' k'') : Relabel k k'' where
  initproc := second.initproc.trans first.initproc
  nextpid := second.nextpid.trans first.nextpid
  pid slot := (second.pid slot).trans (first.pid slot)
  state slot := by
    rcases first.state slot with same | ⟨was, middle⟩
    · rw [← same]
      exact second.state slot
    · rcases second.state slot with same' | ⟨_, now⟩
      · exact .inr ⟨was, same' ▸ middle⟩
      · exact .inr ⟨was, now⟩

/-- A slot is in a state that is not active before exactly when it is after. -/
theorem state_iff (relabel : Relabel k k') (slot : Nat) {state : ProcState}
    (idle : ¬ Active state) : (k'.proc slot).state = state ↔ (k.proc slot).state = state :=
  idle_iff (relabel.state slot) idle

theorem unused_iff (relabel : Relabel k k') (slot : Nat) :
    (k'.proc slot).state = .unused ↔ (k.proc slot).state = .unused :=
  relabel.state_iff slot (by simp [Active])

theorem zombie_iff (relabel : Relabel k k') (slot : Nat) :
    (k'.proc slot).state = .zombie ↔ (k.proc slot).state = .zombie :=
  relabel.state_iff slot (by simp [Active])

theorem embryo_iff (relabel : Relabel k k') (slot : Nat) :
    (k'.proc slot).state = .embryo ↔ (k.proc slot).state = .embryo :=
  relabel.state_iff slot (by simp [Active])

theorem used (relabel : Relabel k k') {slot : Nat} (used : (k.proc slot).state ≠ .unused) :
    (k'.proc slot).state ≠ .unused :=
  fun unused => used ((relabel.unused_iff slot).mp unused)

theorem active (relabel : Relabel k k') {slot : Nat} (active : Active (k.proc slot).state) :
    Active (k'.proc slot).state := by
  rcases relabel.state slot with same | ⟨-, now⟩
  · rw [same]
    exact active
  · exact now

/-- Writing a slot with its pid and its state, or another active state, relabels. -/
theorem setProc (k : Machine) (slot : Nat) {p : Proc} (pid : p.pid = (k.proc slot).pid)
    (state : p.state = (k.proc slot).state ∨ (Active (k.proc slot).state ∧ Active p.state)) :
    Relabel k (k.setProc slot p) where
  initproc := rfl
  nextpid := rfl
  pid other := by
    rw [proc_setProc]
    split
    · rename_i written
      rw [written.1]
      exact pid
    · rfl
  state other := by
    rw [proc_setProc]
    split
    · rename_i written
      rw [written.1]
      exact state
    · exact .inl rfl

end Relabel

namespace Tame

variable {k k' k'' : Machine}

theorem refl (k : Machine) : Tame k k := ⟨Relabel.refl k, fun _ => rfl⟩

theorem trans (first : Tame k k') (second : Tame k' k'') : Tame k k'' :=
  ⟨first.toRelabel.trans second.toRelabel,
    fun slot => (second.parent slot).trans (first.parent slot)⟩

/-- Writing a slot with its pid, parent and state, or another active state, is tame. -/
theorem setProc (k : Machine) (slot : Nat) {p : Proc} (pid : p.pid = (k.proc slot).pid)
    (parent : p.parent = (k.proc slot).parent)
    (state : p.state = (k.proc slot).state ∨ (Active (k.proc slot).state ∧ Active p.state)) :
    Tame k (k.setProc slot p) where
  toRelabel := Relabel.setProc k slot pid state
  parent other := by
    rw [proc_setProc]
    split
    · rename_i written
      rw [written.1]
      exact parent
    · rfl

/-- Writing a slot with fields the signal code leaves alone is tame. -/
theorem of_unmoved (k : Machine) (slot : Nat) {p : Proc} (unmoved : Unmoved (k.proc slot) p) :
    Tame k (k.setProc slot p) :=
  setProc k slot unmoved.pid unmoved.parent (.inl unmoved.state)

theorem wakeup1 (k : Machine) (chan : Chan) : Tame k (Kernel.wakeup1 k chan) where
  initproc := rfl
  nextpid := rfl
  pid slot := by
    rw [proc_wakeup1]
    split <;> rfl
  parent slot := by
    rw [proc_wakeup1]
    split <;> rfl
  state slot := by
    rw [proc_wakeup1]
    split
    · rename_i asleep
      exact .inr ⟨.inl asleep.1, .inr (.inl rfl)⟩
    · exact .inl rfl

theorem of_procs (same : k'.procs = k.procs) (initproc : k'.initproc = k.initproc)
    (nextpid : k'.nextpid = k.nextpid) : Tame k k' where
  initproc := initproc
  nextpid := nextpid
  pid slot := by rw [proc, same]; rfl
  parent slot := by rw [proc, same]; rfl
  state slot := by rw [proc, same]; exact .inl rfl

theorem panic (k : Machine) (message : String) : Tame k (k.panic message) :=
  of_procs rfl rfl rfl

theorem withTicks (k : Machine) (ticks : UInt32) : Tame k { k with ticks := ticks } :=
  of_procs rfl rfl rfl

/-- A tame change keeps the tree. -/
theorem inv (tame : Tame k k') (tree : TreeInv k) : TreeInv k' where
  init_lives := by
    rw [tame.initproc, Ne, Ne, tame.unused_iff, tame.zombie_iff]
    exact tree.init_lives
  no_embryo slot := by
    rw [Ne, tame.embryo_iff]
    exact tree.no_embryo slot
  orphan_unused slot unused := by
    rw [tame.parent]
    exact tree.orphan_unused slot ((tame.unused_iff slot).mp unused)
  has_parent slot other used := by
    rw [tame.parent]
    rw [tame.initproc] at other
    exact tree.has_parent slot other fun unused => used ((tame.unused_iff slot).mpr unused)
  parent_lives slot q parent := by
    rw [tame.parent] at parent
    rw [Ne, Ne, tame.unused_iff, tame.zombie_iff]
    exact tree.parent_lives slot q parent
  pid_fresh slot used := by
    rw [tame.pid, tame.nextpid]
    exact tree.pid_fresh slot fun unused => used ((tame.unused_iff slot).mpr unused)
  pid_unique a b apart usedA usedB := by
    rw [tame.pid, tame.pid]
    exact tree.pid_unique a b apart (fun unused => usedA ((tame.unused_iff a).mpr unused))
      fun unused => usedB ((tame.unused_iff b).mpr unused)

theorem moves (tame : Tame k k') (cur : Nat) : Moves cur k k' where
  nextpid := tame.nextpid.ge
  renumbered slot used :=
    .inl ⟨fun unused => used ((tame.unused_iff slot).mpr unused), tame.pid slot⟩
  freed slot zombie unused := by
    have := (tame.unused_iff slot).mp unused
    rw [this] at zombie
    cases zombie

theorem sound (tame : Tame k k') (tree : TreeInv k) (cur : Nat) : Sound cur k k' :=
  ⟨tame.inv tree, tame.moves cur⟩

end Tame

namespace Sound

variable {k k' k'' : Machine} {cur : Nat}

/-- A tame change, then a sound step. -/
theorem tame_trans (first : Tame k k') (second : Sound cur k' k'') : Sound cur k k'' where
  inv := second.inv
  moves := {
    nextpid := first.nextpid ▸ second.moves.nextpid
    renumbered := fun slot used => by
      rcases second.moves.renumbered slot used with ⟨was, same⟩ | fresh
      · exact .inl ⟨fun unused => was ((first.unused_iff slot).mpr unused),
          same.trans (first.pid slot)⟩
      · exact .inr (first.nextpid ▸ fresh)
    freed := fun slot zombie unused => by
      rw [← first.parent]
      exact second.moves.freed slot ((first.zombie_iff slot).mpr zombie) unused }

/-- A sound step, then a tame change. -/
theorem trans_tame (first : Sound cur k k') (second : Tame k' k'') : Sound cur k k'' where
  inv := second.inv first.inv
  moves := {
    nextpid := second.nextpid ▸ first.moves.nextpid
    renumbered := fun slot used => by
      have used' : (k'.proc slot).state ≠ .unused :=
        fun unused => used ((second.unused_iff slot).mpr unused)
      rw [second.pid]
      exact first.moves.renumbered slot used'
    freed := fun slot zombie unused =>
      first.moves.freed slot zombie ((second.unused_iff slot).mp unused) }

end Sound

section Functions

variable {k : Machine} {cur : Nat}

theorem tame_finish (k : Machine) (cur : Nat) (value : Int) : Tame k (finish k cur value) := by
  unfold finish
  exact Tame.setProc k cur rfl rfl (.inl rfl)

/-- `sleep` moves a running process to SLEEPING. -/
theorem tame_sleep (running : (k.proc cur).state = .running) (chan : Chan) (loop : Loop) :
    Tame k (sleep k cur chan loop) := by
  unfold sleep
  exact Tame.setProc k cur rfl rfl (.inr ⟨.inr (.inr running), .inl rfl⟩)

theorem tame_ticksLoop (running : (k.proc cur).state = .running) (ticks0 n : UInt32) :
    Tame k (ticksLoop k cur ticks0 n) := by
  unfold ticksLoop
  split
  · split
    · exact tame_finish k cur _
    · exact tame_sleep running _ _
  · exact tame_finish k cur _

/-- `kill` sets a pending bit and may make a sleeper runnable. -/
theorem tame_kill (k : Machine) (pid signum : Int) : Tame k (kill k pid signum).1 := by
  unfold kill
  split
  · exact Tame.refl k
  · split
    · exact Tame.refl k
    · rename_i slot _
      dsimp only
      refine Tame.setProc k slot ?_ ?_ ?_
      · split <;> rfl
      · split <;> rfl
      · split
        · rename_i asleep
          exact .inr ⟨.inl asleep.1, .inr (.inl rfl)⟩
        · exact .inl rfl

/-- `wait` frees a zombie child of the caller: no process has it for a parent, since it is a
zombie. -/
theorem sound_reap (tree : TreeInv k) {slot : Nat} (zombie : (k.proc slot).state = .zombie)
    (child : (k.proc slot).parent = some cur) : Sound cur k (reap k slot) := by
  have childless : ∀ other, (k.proc other).parent ≠ some slot := fun other parent =>
    (tree.parent_lives other slot parent).2 zombie
  have freed : ∀ other, (reap k slot).proc other =
      if other = slot ∧ slot < k.procs.length then
        { k.proc slot with pid := 0, parent := none, killed := false, state := .unused }
      else k.proc other := fun other => proc_setProc _ _ _ _
  have kept : ∀ other, ¬(other = slot ∧ slot < k.procs.length) →
      (reap k slot).proc other = k.proc other := fun other missed => by rw [freed, if_neg missed]
  have unused_or : ∀ other, (reap k slot).proc other = k.proc other ∨
      ((reap k slot).proc other).state = .unused ∧ ((reap k slot).proc other).parent = none ∧
        other = slot := by
    intro other
    by_cases written : other = slot ∧ slot < k.procs.length
    · right
      rw [freed, if_pos written]
      exact ⟨rfl, rfl, written.1⟩
    · exact .inl (kept other written)
  refine ⟨⟨?_, ?_, ?_, ?_, ?_, ?_, ?_⟩, ⟨le_refl _, ?_, ?_⟩⟩
  · have apart : k.initproc ≠ slot := fun same => tree.init_lives.2 (same ▸ zombie)
    rw [show (reap k slot).initproc = k.initproc from rfl,
      kept _ fun written => apart written.1]
    exact tree.init_lives
  · intro other
    rcases unused_or other with same | ⟨unused, -, -⟩
    · rw [same]
      exact tree.no_embryo other
    · rw [unused]
      exact nofun
  · intro other unused
    rcases unused_or other with same | ⟨-, orphan, -⟩
    · rw [same] at unused ⊢
      exact tree.orphan_unused other unused
    · exact orphan
  · intro other notInit used
    rcases unused_or other with same | ⟨unused, -, -⟩
    · rw [same] at used ⊢
      exact tree.has_parent other notInit used
    · exact absurd unused used
  · intro other q parent
    rcases unused_or other with same | ⟨-, orphan, -⟩
    · rw [same] at parent
      have apart : q ≠ slot := fun eq => childless other (eq ▸ parent)
      rw [kept q fun written => apart written.1]
      exact tree.parent_lives other q parent
    · rw [orphan] at parent
      cases parent
  · intro other used
    rcases unused_or other with same | ⟨unused, -, -⟩
    · rw [same] at used ⊢
      exact tree.pid_fresh other used
    · exact absurd unused used
  · intro a b apart usedA usedB
    rcases unused_or a with sameA | ⟨unused, -, -⟩
    · rcases unused_or b with sameB | ⟨unused, -, -⟩
      · rw [sameA] at usedA ⊢
        rw [sameB] at usedB ⊢
        exact tree.pid_unique a b apart usedA usedB
      · exact absurd unused usedB
    · exact absurd unused usedA
  · intro other used
    rcases unused_or other with same | ⟨unused, -, -⟩
    · rw [same] at used ⊢
      exact .inl ⟨used, rfl⟩
    · exact absurd unused used
  · intro other wasZombie nowUnused
    rcases unused_or other with same | ⟨-, -, rfl⟩
    · rw [same, wasZombie] at nowUnused
      cases nowUnused
    · exact child

/-- What one scan of `wait` finds: a zombie child, or failure only without children or when
killed. -/
theorem waitScan_reap {slot : Nat} (scanned : waitScan k cur = .reap slot) :
    (k.proc slot).parent = some cur ∧ (k.proc slot).state = .zombie := by
  unfold waitScan at scanned
  dsimp only at scanned
  split at scanned
  · rename_i found
    cases scanned
    simpa using List.find?_some found
  · split at scanned <;> cases scanned

theorem waitScan_fail (scanned : waitScan k cur = .fail) :
    (∀ slot, slot < k.procs.length → (k.proc slot).parent ≠ some cur) ∨ (k.proc cur).killed := by
  unfold waitScan at scanned
  dsimp only at scanned
  split at scanned
  · cases scanned
  · split at scanned
    · cases scanned
    · rename_i busy
      by_cases killed : (k.proc cur).killed
      · exact .inr killed
      · refine .inl fun slot inside parent => busy ⟨?_, killed⟩
        exact List.any_eq_true.mpr ⟨slot, List.mem_range.mpr inside, by simp [parent]⟩

theorem sound_waitLoop (tree : TreeInv k) (running : (k.proc cur).state = .running) :
    Sound cur k (waitLoop k cur) := by
  unfold waitLoop
  split
  · rename_i slot scanned
    obtain ⟨child, zombie⟩ := waitScan_reap scanned
    exact (sound_reap tree zombie child).trans_tame (tame_finish _ cur _)
  · exact (tame_finish k cur _).sound tree cur
  · exact (tame_sleep running _ _).sound tree cur

/-! ## `exit` -/

/-- What handing children over leaves: every slot's pid and state class, and init as the
parent of each child of the exiting process in the slots the loop went through. -/
structure HandedOver (cur : Nat) (slots : List Nat) (k k' : Machine) : Prop
    extends Relabel k k' where
  parent : ∀ slot, (k'.proc slot).parent =
    if slot ∈ slots ∧ (k.proc slot).parent = some cur then some k.initproc
    else (k.proc slot).parent

/-- One turn of exit's loop hands over the child in one slot. -/
theorem handedOver_reparent (k : Machine) (slot : Nat) :
    HandedOver cur [slot] k (reparent cur k slot) := by
  unfold reparent
  dsimp only
  split
  · rename_i child
    have moved : HandedOver cur [slot] k
        (k.setProc slot { k.proc slot with parent := some k.initproc }) := by
      refine ⟨Relabel.setProc k slot rfl (.inl rfl), fun other => ?_⟩
      rw [proc_setProc]
      by_cases same : other = slot
      · subst same
        split
        · simp [child]
        · rename_i outside
          have beyond : k.procs.length ≤ other := by omega
          rw [proc_of_le k beyond] at child
          cases child
      · rw [if_neg fun written => same written.1]
        simp [same]
    split
    · have woken := Tame.wakeup1 (k.setProc slot { k.proc slot with parent := some k.initproc })
        (.proc k.initproc)
      exact ⟨moved.toRelabel.trans woken.toRelabel,
        fun other => (woken.parent other).trans (moved.parent other)⟩
    · exact moved
  · rename_i orphan
    refine ⟨Relabel.refl k, fun other => ?_⟩
    by_cases same : other = slot
    · subst same
      simp [orphan]
    · simp [same]

theorem handedOver_handOver (exiting : cur ≠ k.initproc) (slots : List Nat) :
    HandedOver cur slots k (slots.foldl (reparent cur) k) := by
  induction slots generalizing k with
  | nil => exact ⟨Relabel.refl k, fun other => by simp⟩
  | cons slot slots ih =>
    have first : HandedOver cur [slot] k (reparent cur k slot) := handedOver_reparent k slot
    have rest := ih (k := reparent cur k slot) (by rw [first.initproc]; exact exiting)
    refine ⟨first.toRelabel.trans rest.toRelabel, fun other => ?_⟩
    rw [List.foldl_cons, rest.parent, first.parent, first.initproc]
    by_cases here : other = slot
    · subst here
      by_cases child : (k.proc other).parent = some cur
      · simp [child, exiting.symm]
      · simp [child]
    · simp [here]

/-- What `exit` leaves: the exiting process a zombie with its pid, every other slot relabelled,
and init the parent of each of its children. -/
structure Exited (cur : Nat) (k k' : Machine) : Prop where
  initproc : k'.initproc = k.initproc
  nextpid : k'.nextpid = k.nextpid
  pid : ∀ slot, (k'.proc slot).pid = (k.proc slot).pid
  zombie : (k'.proc cur).state = .zombie
  others : ∀ slot, slot ≠ cur → (k'.proc slot).state = (k.proc slot).state ∨
    (Active (k.proc slot).state ∧ Active (k'.proc slot).state)
  parent : ∀ slot, (k'.proc slot).parent =
    if (k.proc slot).parent = some cur then some k.initproc else (k.proc slot).parent

/-- A slot in use lies inside the table. -/
theorem inside_of_used {slot : Nat} (used : (k.proc slot).state ≠ .unused) :
    slot < k.procs.length := by
  by_contra outside
  rw [proc_of_le k (Nat.le_of_not_lt outside)] at used
  exact used rfl

/-- `exit` of a process other than init hands its children over: the loop covers the whole
table, and a slot beyond it has no parent. -/
theorem exited_exit (exiting : cur ≠ k.initproc) (inside : cur < k.procs.length) :
    Exited cur k (exit k cur) := by
  have woken := Tame.wakeup1 k (parentChan (k.proc cur).parent)
  have handed := handedOver_handOver
    (k := wakeup1 k (parentChan (k.proc cur).parent)) exiting
    (List.range (wakeup1 k (parentChan (k.proc cur).parent)).procs.length)
  have spares : Spares cur (wakeup1 k (parentChan (k.proc cur).parent))
      ((List.range (wakeup1 k (parentChan (k.proc cur).parent)).procs.length).foldl
        (reparent cur) (wakeup1 k (parentChan (k.proc cur).parent))) :=
    spares_handOver cur _
  have length := spares.length
  have handedAll : ∀ slot, ((List.range (wakeup1 k (parentChan (k.proc cur).parent)).procs.length).foldl
      (reparent cur) (wakeup1 k (parentChan (k.proc cur).parent)) |>.proc slot).parent =
      if (k.proc slot).parent = some cur then some k.initproc else (k.proc slot).parent := by
    intro slot
    rw [handed.parent, woken.parent]
    simp only [List.mem_range, wakeup1_length, wakeup1_initproc]
    by_cases below : slot < k.procs.length
    · simp [below]
    · rw [proc_of_le k (Nat.le_of_not_lt below)]
      simp [below, Proc.empty]
  unfold exit
  rw [if_neg exiting]
  dsimp only
  refine ⟨?_, ?_, fun slot => ?_, ?_, fun slot apart => ?_, fun slot => ?_⟩
  · rw [setProc_initproc, handed.initproc, woken.initproc]
  · rw [setProc_nextpid, handed.nextpid, woken.nextpid]
  · rw [proc_setProc]
    split
    · rename_i written
      rw [written.1]
      exact (handed.pid cur).trans (woken.pid cur)
    · exact (handed.pid slot).trans (woken.pid slot)
  · rw [proc_setProc_self _ _ (by rw [length, wakeup1_length]; exact inside)]
  · rw [proc_setProc_other _ _ apart]
    exact (woken.toRelabel.trans handed.toRelabel).state slot
  · rw [← handedAll, proc_setProc]
    split
    · rename_i written
      rw [written.1]
    · rfl

namespace Exited

variable {k k' : Machine} {cur : Nat}

theorem state_iff (exited : Exited cur k k') {slot : Nat} (apart : slot ≠ cur)
    {state : ProcState} (idle : ¬ Active state) :
    (k'.proc slot).state = state ↔ (k.proc slot).state = state :=
  idle_iff (exited.others slot apart) idle

/-- No slot is UNUSED after unless it was before, the exiting one being in use. -/
theorem unused_iff (exited : Exited cur k k') (used : (k.proc cur).state ≠ .unused)
    (slot : Nat) : (k'.proc slot).state = .unused ↔ (k.proc slot).state = .unused := by
  by_cases here : slot = cur
  · subst here
    rw [exited.zombie]
    exact ⟨nofun, fun unused => absurd unused used⟩
  · exact exited.state_iff here (by simp [Active])

/-- A slot other than the exiting one can be a parent after exactly when it could before. -/
theorem lives_iff (exited : Exited cur k k') {q : Nat} (apart : q ≠ cur) :
    ((k'.proc q).state ≠ .unused ∧ (k'.proc q).state ≠ .zombie) ↔
      ((k.proc q).state ≠ .unused ∧ (k.proc q).state ≠ .zombie) := by
  rw [Ne, Ne, exited.state_iff apart (show ¬ Active .unused by simp [Active]),
    exited.state_iff apart (show ¬ Active .zombie by simp [Active])]

/-- Handing the children to init keeps the tree, since init is neither the exiting process nor
a zombie. -/
theorem sound (exited : Exited cur k k') (tree : TreeInv k) (exiting : cur ≠ k.initproc)
    (used : (k.proc cur).state ≠ .unused) : Sound cur k k' := by
  have unused_iff := exited.unused_iff used
  have initApart : k.initproc ≠ cur := fun same => exiting same.symm
  refine ⟨⟨?_, ?_, ?_, ?_, ?_, ?_, ?_⟩, ⟨exited.nextpid.ge, ?_, ?_⟩⟩
  · rw [exited.initproc]
    exact (exited.lives_iff initApart).mpr tree.init_lives
  · intro slot
    by_cases here : slot = cur
    · rw [here, exited.zombie]
      exact nofun
    · rw [Ne, exited.state_iff here (show ¬ Active .embryo by simp [Active])]
      exact tree.no_embryo slot
  · intro slot unused
    rw [exited.parent]
    simp [tree.orphan_unused slot ((unused_iff slot).mp unused)]
  · intro slot notInit used'
    rw [exited.initproc] at notInit
    have some' := tree.has_parent slot notInit fun unused => used' ((unused_iff slot).mpr unused)
    rw [exited.parent]
    split
    · rfl
    · exact some'
  · intro slot q parent
    rw [exited.parent] at parent
    split at parent
    · cases parent
      exact (exited.lives_iff initApart).mpr tree.init_lives
    · rename_i other
      have apart : q ≠ cur := fun same => other (same ▸ parent)
      exact (exited.lives_iff apart).mpr (tree.parent_lives slot q parent)
  · intro slot used'
    rw [exited.pid, exited.nextpid]
    exact tree.pid_fresh slot fun unused => used' ((unused_iff slot).mpr unused)
  · intro a b apart usedA usedB
    rw [exited.pid, exited.pid]
    exact tree.pid_unique a b apart (fun unused => usedA ((unused_iff a).mpr unused))
      fun unused => usedB ((unused_iff b).mpr unused)
  · intro slot used'
    exact .inl ⟨fun unused => used' ((unused_iff slot).mpr unused), exited.pid slot⟩
  · intro slot zombie unused
    rw [(unused_iff slot).mp unused] at zombie
    cases zombie

end Exited

/-- `exit` keeps the tree: for init it panics the kernel, and any other process hands its
children to init. -/
theorem sound_exit (tree : TreeInv k) (used : (k.proc cur).state ≠ .unused) :
    Sound cur k (exit k cur) := by
  by_cases init : cur = k.initproc
  · have stopped : exit k cur = k.panic "init exiting" := by rw [exit, if_pos init]
    rw [stopped]
    exact (Tame.panic k _).sound tree cur
  · exact (exited_exit init (inside_of_used used)).sound tree init used

/-! ## `fork` -/

/-- Claiming an UNUSED slot for the next pid keeps the tree, whether the slot goes back to UNUSED
without a parent or takes a runnable child of the running caller. Each slot holds the claimed
process or what it held, and the child's parent is the caller, which is running. -/
theorem sound_claim (tree : TreeInv k) {slot : Nat} (unused : (k.proc slot).state = .unused)
    {p : Proc} (pid : p.pid = k.nextpid)
    (shape : (p.state = .unused ∧ p.parent = none) ∨
      (p.state = .runnable ∧ p.parent = some cur ∧ (k.proc cur).state = .running)) :
    Sound cur k ({ k with nextpid := k.nextpid + 1 }.setProc slot p) := by
  have view : ∀ other, (other = slot ∧ ({ k with nextpid := k.nextpid + 1 }.setProc slot p).proc
      other = p) ∨ ({ k with nextpid := k.nextpid + 1 }.setProc slot p).proc other = k.proc other := by
    intro other
    by_cases written : other = slot ∧ slot < k.procs.length
    · exact .inl ⟨written.1, by rw [proc_setProc, if_pos written]⟩
    · exact .inr (by rw [proc_setProc, if_neg written]; rfl)
  have kept : ∀ other, (k.proc other).state ≠ .unused →
      ({ k with nextpid := k.nextpid + 1 }.setProc slot p).proc other = k.proc other := by
    intro other used
    rcases view other with ⟨rfl, -⟩ | same
    · exact absurd unused used
    · exact same
  have fresh : ∀ other, (({ k with nextpid := k.nextpid + 1 }.setProc slot p).proc other).state ≠
      .unused → (({ k with nextpid := k.nextpid + 1 }.setProc slot p).proc other = k.proc other ∧
        (k.proc other).state ≠ .unused) ∨
      (other = slot ∧ (({ k with nextpid := k.nextpid + 1 }.setProc slot p).proc other).pid =
        k.nextpid) := by
    intro other used
    rcases view other with ⟨here, claimed⟩ | same
    · exact .inr ⟨here, by rw [claimed, pid]⟩
    · exact .inl ⟨same, same ▸ used⟩
  have settled : p.state ≠ .embryo ∧ p.state ≠ .zombie := by
    rcases shape with ⟨state, -⟩ | ⟨state, -⟩ <;> rw [state] <;> exact ⟨nofun, nofun⟩
  refine ⟨⟨?_, ?_, ?_, ?_, ?_, ?_, ?_⟩, ⟨Int.le_add_of_nonneg_right Int.one_nonneg, ?_, ?_⟩⟩
  · rw [setProc_initproc]
    dsimp only
    rw [kept _ tree.init_lives.1]
    exact tree.init_lives
  · intro other
    rcases view other with ⟨-, claimed⟩ | same
    · rw [claimed]
      exact settled.1
    · rw [same]
      exact tree.no_embryo other
  · intro other unusedNow
    rcases view other with ⟨-, claimed⟩ | same
    · rw [claimed] at unusedNow ⊢
      rcases shape with ⟨-, orphan⟩ | ⟨runnable, -⟩
      · exact orphan
      · rw [runnable] at unusedNow
        cases unusedNow
    · rw [same] at unusedNow ⊢
      exact tree.orphan_unused other unusedNow
  · intro other notInit used
    rcases view other with ⟨here, claimed⟩ | same
    · rw [claimed] at used ⊢
      rcases shape with ⟨unusedP, -⟩ | ⟨-, parent, -⟩
      · exact absurd unusedP used
      · rw [parent]
        rfl
    · rw [same] at used ⊢
      exact tree.has_parent other notInit used
  · intro other q parent
    rcases view other with ⟨-, claimed⟩ | same
    · rw [claimed] at parent
      rcases shape with ⟨-, orphan⟩ | ⟨-, child, running⟩
      · rw [orphan] at parent
        cases parent
      · rw [child] at parent
        cases parent
        rw [kept _ (by rw [running]; exact nofun), running]
        exact ⟨nofun, nofun⟩
    · rw [same] at parent
      have lives := tree.parent_lives other q parent
      rw [kept q lives.1]
      exact lives
  · intro other used
    rw [setProc_nextpid]
    dsimp only
    rcases fresh other used with ⟨same, was⟩ | ⟨-, new⟩
    · rw [same]
      exact Int.lt_add_one_of_le (tree.pid_fresh other was).le
    · rw [new]
      exact Int.lt_succ k.nextpid
  · intro a b apart usedA usedB
    rcases fresh a usedA with ⟨sameA, wasA⟩ | ⟨hereA, newA⟩
    · rcases fresh b usedB with ⟨sameB, wasB⟩ | ⟨-, newB⟩
      · rw [sameA, sameB]
        exact tree.pid_unique a b apart wasA wasB
      · rw [sameA, newB]
        exact (tree.pid_fresh a wasA).ne
    · rcases fresh b usedB with ⟨sameB, wasB⟩ | ⟨hereB, -⟩
      · rw [newA, sameB]
        exact (tree.pid_fresh b wasB).ne'
      · exact absurd (hereA.trans hereB.symm) apart
  · intro other used
    rcases fresh other used with ⟨same, was⟩ | ⟨-, new⟩
    · exact .inl ⟨was, by rw [same]⟩
    · exact .inr new.ge
  · intro other zombie unusedNow
    rcases view other with ⟨rfl, -⟩ | same
    · rw [unused] at zombie
      cases zombie
    · rw [same, zombie] at unusedNow
      cases unusedNow

/-- `fork` keeps the tree while the C int `nextpid` holds the count: the child gets the next pid
and the running caller for a parent, and a failed fork leaves its slot UNUSED without one. -/
theorem sound_fork (tree : TreeInv k) (running : (k.proc cur).state = .running)
    (fits : pidOf k.nextpid = k.nextpid) (alloc : Alloc) : Sound cur k (fork k cur alloc).1 := by
  cases found : k.procs.findIdx? (·.state = .unused) with
  | none =>
    have unchanged : fork k cur alloc = (k, -1) := by simp [fork, allocproc, found]
    rw [unchanged]
    exact (Tame.refl k).sound tree cur
  | some slot =>
    have unused : (k.proc slot).state = .unused := by
      simpa using proc_of_findIdx_eq_some found
    have inside : slot < k.procs.length := (List.findIdx?_eq_some_iff_getElem.mp found).1
    have apart : cur ≠ slot := fun same => by
      rw [same, unused] at running
      cases running
    have orphan := tree.orphan_unused slot unused
    by_cases stack : alloc = .noKstack
    · subst stack
      simp only [fork, allocproc, found, if_true]
      refine sound_claim tree unused ?_ (.inl ⟨rfl, ?_⟩)
      · exact fits
      · exact orphan
    · rw [fork, allocproc_of_found found alloc stack]
      dsimp only
      rw [proc_setProc_self { k with nextpid := k.nextpid + 1 } _ inside,
        proc_setProc_other { k with nextpid := k.nextpid + 1 } _ apart]
      split
      · rw [setProc_setProc]
        refine sound_claim tree unused ?_ (.inl ⟨rfl, ?_⟩)
        · exact fits
        · exact orphan
      · rw [setProc_setProc]
        exact sound_claim tree unused fits (.inr ⟨rfl, rfl, running⟩)

/-! ## System calls, traps and the scheduler -/

/-- A write of the caller's slot that keeps its pid, parent and state. -/
theorem sound_rewrite (tree : TreeInv k) {p : Proc} (pid : p.pid = (k.proc cur).pid)
    (parent : p.parent = (k.proc cur).parent) (state : p.state = (k.proc cur).state) :
    Sound cur k (k.setProc cur p) :=
  (Tame.setProc k cur pid parent (.inl state)).sound tree cur

/-- Every system call of a running process keeps the tree while `nextpid` holds the count,
except a stray `sigaction`, whose store may land on a pid or a parent. -/
theorem sound_syscall (tree : TreeInv k) (running : (k.proc cur).state = .running)
    (fits : pidOf k.nextpid = k.nextpid) (alloc : Alloc) (result : UInt32) :
    Sound cur k (syscall k cur alloc result) ∨ (syscall k cur alloc result).strayed = true := by
  have finished : ∀ value, Sound cur k (finish k cur value) :=
    fun value => (tame_finish k cur value).sound tree cur
  have updated : ∀ {q : Proc} (value : Int), Unmoved (k.proc cur) q →
      Sound cur k (finish (k.setProc cur q) cur value) := fun value unmoved =>
    ((Tame.of_unmoved k cur unmoved).trans (tame_finish _ cur value)).sound tree cur
  unfold syscall
  dsimp only
  split
  · exact .inl (finished _)
  · exact .inl ((sound_fork tree running fits alloc).trans_tame (tame_finish _ cur _))
  · exact .inl (sound_exit tree (by rw [running]; exact nofun))
  · exact .inl (sound_waitLoop tree running)
  · split
    · exact .inl (((tame_kill k _ _).trans (tame_finish _ cur _)).sound tree cur)
    · exact .inl (finished _)
  · exact .inl (finished _)
  · split
    · exact .inl ((tame_ticksLoop running _ _).sound tree cur)
    · exact .inl (finished _)
  · split
    · exact .inl (updated _ ⟨rfl, rfl, rfl, rfl, rfl, rfl⟩)
    · exact .inl (finished _)
  · split
    · split
      · exact .inl (updated _ (sigaction_unmoved _ _ _))
      · exact .inr (straySigaction_strayed _ _ _)
    · exact .inl (finished _)
  · exact .inl (updated _ ⟨rfl, rfl, rfl, rfl, rfl, rfl⟩)
  · exact .inl (finished _)

/-- A trap keeps the tree unless it strays: every path pushes the frame of the running process,
then may exit, yield or return to it. -/
theorem sound_trap (tree : TreeInv k) (fits : pidOf k.nextpid = k.nextpid) (kind : TrapKind) :
    Sound cur k (trap k cur kind) ∨ (trap k cur kind).strayed = true := by
  unfold trap
  dsimp only
  split
  · exact .inl ((Tame.refl k).sound tree cur)
  · rename_i user
    have running : (k.proc cur).state = .running := by
      by_contra other
      exact user (.inl other)
    have used : (k.proc cur).state ≠ .unused := by
      rw [running]
      exact nofun
    have inside := inside_of_used used
    have entered : ∀ trapno, Tame k
        (k.setProc cur { k.proc cur with tf := (k.proc cur).tf.entry trapno }) :=
      fun _ => Tame.setProc k cur rfl rfl (.inl rfl)
    cases kind with
    | syscall alloc result =>
      dsimp only
      have stillRunning : ((k.setProc cur { k.proc cur with tf := (k.proc cur).tf.entry tSyscall
          }).proc cur).state = .running := by
        rw [proc_setProc_self _ _ inside]
        exact running
      split
      · exact .inl (Sound.tame_trans (entered _)
          (sound_exit ((entered _).inv tree) ((entered _).used used)))
      · exact (sound_syscall ((entered _).inv tree) stillRunning fits alloc result).imp_left
          (Sound.tame_trans (entered _))
    | timer =>
      dsimp only
      have ticked : Tame k (wakeup1 { k.setProc cur { k.proc cur with
          tf := (k.proc cur).tf.entry tIrqTimer } with ticks := k.ticks + 1 } .ticks) :=
        ((entered tIrqTimer).trans (Tame.withTicks _ _)).trans (Tame.wakeup1 _ _)
      have active := ticked.active (.inr (.inr running))
      split
      · exact .inl (Sound.tame_trans ticked (sound_exit (ticked.inv tree) (ticked.used used)))
      · refine .inl ((ticked.trans (Tame.setProc _ cur ?_ ?_ ?_)).sound tree cur)
        · rfl
        · rfl
        · exact .inr ⟨active, .inr (.inl rfl)⟩
    | device trapno =>
      dsimp only
      split
      · exact .inl (Sound.tame_trans (entered _)
          (sound_exit ((entered _).inv tree) ((entered _).used used)))
      · refine .inl (((entered trapno).trans (Tame.setProc _ cur ?_ ?_ ?_)).sound tree cur)
        · rfl
        · rfl
        · exact .inl rfl
    | fault trapno =>
      have faulted : Tame k (k.setProc cur { k.proc cur with
          tf := (k.proc cur).tf.entry trapno, killed := true }) := Tame.setProc k cur rfl rfl (.inl rfl)
      exact .inl (Sound.tame_trans faulted (sound_exit (faulted.inv tree) (faulted.used used)))

/-- The next part of a kernel path keeps the tree. -/
theorem sound_resume (tree : TreeInv k) : Sound cur k (resume k cur) := by
  unfold resume
  dsimp only
  split
  · exact (Tame.refl k).sound tree cur
  · rename_i running
    have running : (k.proc cur).state = .running := by
      by_contra other
      exact running other
    have used : (k.proc cur).state ≠ .unused := by
      rw [running]
      exact nofun
    split
    · split
      · exact sound_exit tree used
      · exact sound_rewrite tree rfl rfl rfl
    · split
      · exact sound_exit tree used
      · exact sound_rewrite tree rfl rfl rfl
    · exact sound_rewrite tree sigHandlerRunner_unmoved.pid sigHandlerRunner_unmoved.parent
        sigHandlerRunner_unmoved.state
    · exact sound_rewrite tree rfl rfl rfl
    · have woken : Tame k (k.setProc cur { k.proc cur with chan := .none }) :=
        Tame.setProc k cur rfl rfl (.inl rfl)
      have stillRunning : ((k.setProc cur { k.proc cur with chan := .none }).proc cur).state =
          .running := by
        rw [proc_setProc_self _ _ (inside_of_used used)]
        exact running
      split
      · exact Sound.tame_trans woken (sound_waitLoop (woken.inv tree) stillRunning)
      · exact (woken.trans (tame_ticksLoop stillRunning _ _)).sound tree cur
    · exact (Tame.refl k).sound tree cur
    · exact (Tame.refl k).sound tree cur

theorem sound_userRun (tree : TreeInv k) (regs : Trapframe) (memory : Bytes.Memory) :
    Sound cur k (userRun k cur regs memory) := by
  unfold userRun
  dsimp only
  split
  · exact sound_rewrite tree rfl rfl rfl
  · exact (Tame.refl k).sound tree cur

/-- The scheduler moves a runnable process to RUNNING, or panics. -/
theorem sound_scheduleSlot (tree : TreeInv k) : Sound cur k (scheduleSlot k cur) := by
  unfold scheduleSlot
  dsimp only
  split
  · exact (Tame.refl k).sound tree cur
  · rename_i runnable
    have runnable : (k.proc cur).state = .runnable := by
      by_contra other
      exact runnable other
    split
    · split
      · exact (Tame.panic k _).sound tree cur
      · exact (Tame.refl k).sound tree cur
    · refine (Tame.setProc k cur ?_ ?_ ?_).sound tree cur
      · rfl
      · rfl
      · exact .inr ⟨.inr (.inl runnable), .inr (.inr rfl)⟩

/-- Every event keeps the tree while `nextpid` holds the count, unless it strays, and moves pids
and zombies only as `Moves` allows for the event's process. -/
theorem sound_step (tree : TreeInv k) (fits : pidOf k.nextpid = k.nextpid) (event : Event) :
    Sound event.slot k (step k event) ∨ (step k event).strayed = true := by
  unfold step
  split
  · exact .inl ((Tame.refl k).sound tree _)
  · cases event with
    | schedule slot => exact .inl (sound_scheduleSlot tree)
    | user slot regs memory => exact .inl (sound_userRun tree regs memory)
    | trap slot kind => exact sound_trap tree fits kind
    | resume slot => exact .inl (sound_resume tree)

/-! ## What `wait` frees -/

/-- The pids of the zombies that a change of the table frees, in table order. -/
def freedPids (k k' : Machine) : List Int :=
  ((List.range k.procs.length).filter fun slot =>
    (k.proc slot).state = .zombie ∧ (k'.proc slot).state = .unused).map fun slot => (k.proc slot).pid

theorem mem_freedPids {k' : Machine} {pid : Int} :
    pid ∈ freedPids k k' ↔ ∃ slot, slot < k.procs.length ∧ (k.proc slot).state = .zombie ∧
      (k'.proc slot).state = .unused ∧ (k.proc slot).pid = pid := by
  simp [freedPids, and_assoc]

theorem freedPids_lt (tree : TreeInv k) {k' : Machine} {pid : Int} (freed : pid ∈ freedPids k k') :
    pid < k.nextpid := by
  obtain ⟨slot, -, zombie, -, rfl⟩ := mem_freedPids.mp freed
  exact tree.pid_fresh slot (by rw [zombie]; exact nofun)

/-- The zombies of one table have distinct pids. -/
theorem nodup_freedPids (tree : TreeInv k) (k' : Machine) : (freedPids k k').Nodup := by
  refine (List.nodup_range.filter _).map_on fun a inA b inB same => ?_
  by_contra apart
  simp only [List.mem_filter, decide_eq_true_eq] at inA inB
  exact tree.pid_unique a b apart (by rw [inA.2.1]; exact nofun) (by rw [inB.2.1]; exact nofun) same

/-- `wait` frees the zombie child it reaps, whose pid it returns. -/
theorem waitLoop_freed (tree : TreeInv k) {slot : Nat} (scanned : waitScan k cur = .reap slot) :
    waitLoop k cur = finish (reap k slot) cur (k.proc slot).pid ∧
      (k.proc slot).pid ∈ freedPids k (waitLoop k cur) := by
  have returned : waitLoop k cur = finish (reap k slot) cur (k.proc slot).pid := by
    simp only [waitLoop, scanned]
  obtain ⟨child, zombie⟩ := waitScan_reap scanned
  have inside : slot < k.procs.length := inside_of_used (by rw [zombie]; exact nofun)
  have apart : cur ≠ slot := fun same => (tree.parent_lives slot cur child).2 (same ▸ zombie)
  refine ⟨returned, mem_freedPids.mpr ⟨slot, inside, zombie, ?_, rfl⟩⟩
  rw [returned, finish, proc_setProc_other _ _ apart.symm, reap, proc_setProc_self _ _ inside]

end Functions

/-! ## Runs -/

/-- The booted table holds init alone, with pid 1 and no parent. -/
theorem treeInv_boot (sigcontAddress : UInt32) (initcode : Bytes.Memory) :
    TreeInv (boot sigcontAddress initcode) := by
  have zeroed := boot_proc_succ sigcontAddress initcode
  have only : ∀ slot, ((boot sigcontAddress initcode).proc slot).state ≠ .unused → slot = 0 := by
    intro slot used
    cases slot with
    | zero => rfl
    | succ slot =>
      rw [zeroed] at used
      exact absurd rfl used
  have orphans : ∀ slot, ((boot sigcontAddress initcode).proc slot).parent = none := by
    intro slot
    cases slot with
    | zero => rfl
    | succ slot =>
      rw [zeroed]
      rfl
  refine ⟨⟨nofun, nofun⟩, fun slot => ?_, fun slot _ => orphans slot,
    fun slot notInit used => absurd (only slot used) notInit, fun slot q parent => ?_,
    fun slot used => ?_, fun a b apart usedA usedB => ?_⟩
  · cases slot with
    | zero => exact nofun
    | succ slot =>
      rw [zeroed]
      exact nofun
  · rw [orphans] at parent
    cases parent
  · rw [only slot used]
    show (1 : Int) < 2
    decide
  · exact absurd ((only a usedA).trans (only b usedB).symm) apart

/-- What a run keeps about the pids freed so far: none twice, all below `nextpid`, and none in
use; and the count has grown from boot's 2. -/
structure Retired (k : Machine) (freed : List Int) : Prop where
  tree : TreeInv k
  counted : 2 ≤ k.nextpid
  nodup : freed.Nodup
  below : ∀ pid ∈ freed, pid < k.nextpid
  retired : ∀ slot, (k.proc slot).state ≠ .unused → (k.proc slot).pid ∉ freed

/-- One step adds the pids it frees: fresh ones, since they were in use. -/
theorem Retired.step {k k' : Machine} {freed : List Int} {cur : Nat} (retired : Retired k freed)
    (sound : Sound cur k k') : Retired k' (freed ++ freedPids k k') := by
  have tree := retired.tree
  refine ⟨sound.inv, Int.le_trans retired.counted sound.moves.nextpid,
    List.nodup_append.mpr ⟨retired.nodup, nodup_freedPids tree k', ?_⟩, ?_, ?_⟩
  · intro a old b new same
    obtain ⟨slot, -, zombie, -, rfl⟩ := mem_freedPids.mp new
    exact retired.retired slot (by rw [zombie]; exact nofun) (same ▸ old)
  · intro pid freedNow
    have grown := sound.moves.nextpid
    rcases List.mem_append.mp freedNow with old | new
    · exact lt_of_lt_of_le (retired.below pid old) grown
    · exact lt_of_lt_of_le (freedPids_lt tree new) grown
  · intro slot used freedNow
    rcases sound.moves.renumbered slot used with ⟨was, same⟩ | fresh
    · rw [same] at freedNow
      rcases List.mem_append.mp freedNow with old | new
      · exact retired.retired slot was old
      · obtain ⟨other, -, zombie, unused, samePid⟩ := mem_freedPids.mp new
        have apart : other ≠ slot := fun same => used (same ▸ unused)
        exact tree.pid_unique other slot apart (by rw [zombie]; exact nofun) was samePid
    · rcases List.mem_append.mp freedNow with old | new
      · exact absurd (retired.below _ old) (not_lt.mpr fresh)
      · exact absurd (freedPids_lt tree new) (not_lt.mpr fresh)

/-- Along a run with no stray store whose count stays below 2^31, what is retired at its start stays
retired, with the pids the run frees added. The count at each step lies between boot's and the run's
last. -/
theorem Retired.run {k : Machine} {freed : List Int} (retired : Retired k freed)
    {events : List Event} (tame : (run Kernel.step k events).strayed = false)
    (counted : (run Kernel.step k events).nextpid < 2 ^ 31) :
    Retired (run Kernel.step k events) (freed ++ trace Kernel.step freedPids k events) := by
  induction events generalizing k freed with
  | nil => simpa [trace] using retired
  | cons event events ih =>
    have stepTame : (Kernel.step k event).strayed = false := tame_of_run events tame
    have below : k.nextpid < 2 ^ 31 :=
      Int.lt_of_le_of_lt (Int.le_trans (step_nextpid_le event) (nextpid_le_run events)) counted
    have fits : pidOf k.nextpid = k.nextpid := pidOf_of_lt (by have := retired.counted; omega) below
    have sound := (sound_step retired.tree fits event).resolve_right (by simp [stepTame])
    have next := ih (retired.step sound) tame counted
    rw [List.append_assoc] at next
    exact next

/-- Along every run from boot with no stray store whose count stays below 2^31, the tree holds
and no pid is freed twice. -/
theorem retired_trace (sigcontAddress : UInt32) (initcode : Bytes.Memory) {events : List Event}
    (tame : (run step (boot sigcontAddress initcode) events).strayed = false)
    (counted : (run step (boot sigcontAddress initcode) events).nextpid < 2 ^ 31) :
    Retired (run step (boot sigcontAddress initcode) events)
      (trace step freedPids (boot sigcontAddress initcode) events) := by
  have start : Retired (boot sigcontAddress initcode) [] :=
    ⟨treeInv_boot sigcontAddress initcode, Int.le_refl _, List.nodup_nil, nofun,
      fun _ _ => List.not_mem_nil⟩
  have done := start.run tame counted
  rwa [List.nil_append] at done

/-- init's first run from boot: scheduled, through forkret, back in user mode. -/
def initStarted : List Event := [.schedule 0, .resume 0, .resume 0]

end Xv6.Kernel