import Xv6.Sync.Spinlock

/-!
# pushcli and popcli nest

A CPU's pushcli and popcli calls are matched when no popcli comes at depth 0, the depth being
the pushcli calls so far less the popcli calls. Along matched calls from depth 0 the CPU keeps
one shape, `Nested`, with the flag it had before its outermost pushcli: `ncli` is the depth;
inside a pushcli interrupts are off and `intena` holds that flag; at depth 0 the flag is back.
So popcli never panics. The calls acquire, release and holding make of them are matched when
each acquire is of a lock the CPU does not hold and each release of one it does, and sched,
called holding `ptable.lock` alone, leaves the shape as it was: along such calls `ncli` is the
number of locks the CPU holds.
-/

namespace Xv6.Sync

open Xv6.Run

/-- The CPU at depth `d` of pushcli, entered with interrupts `flag`. -/
structure Nested (flag : Bool) (d : Nat) (c : Cpu) : Prop where
  ncli : c.ncli = d
  inside : 0 < d → c.interruptible = false ∧ c.intena = flag
  outside : d = 0 → c.interruptible = flag

/-- Calls in which no popcli comes at depth 0, counting from depth `d`. -/
def matched : Nat → List CliOp → Bool
  | _, [] => true
  | d, .pushcli :: ops => matched (d + 1) ops
  | d, .popcli :: ops => 0 < d && matched (d - 1) ops

/-- The depth after the calls, from depth `d`. -/
def depth : Nat → List CliOp → Nat
  | d, [] => d
  | d, .pushcli :: ops => depth (d + 1) ops
  | d, .popcli :: ops => depth (d - 1) ops

section Nesting

variable {flag : Bool} {d : Nat} {c : Cpu}

/-- A CPU outside every pushcli is nested at depth 0 with its own flag. -/
theorem Nested.start (outermost : c.ncli = 0) : Nested c.interruptible 0 c where
  ncli := outermost
  inside := fun positive => absurd positive (Nat.lt_irrefl 0)
  outside := fun _ => rfl

theorem Nested.pushcli (nested : Nested flag d c) : Nested flag (d + 1) (pushcli c) := by
  have ncli := nested.ncli
  refine ⟨?_, fun _ => ?_, fun zero => absurd zero (Nat.succ_ne_zero d)⟩
  · dsimp only [Xv6.Sync.pushcli]
    split_ifs <;> simp [ncli]
  · dsimp only [Xv6.Sync.pushcli]
    split_ifs with outermost
    · exact ⟨rfl, nested.outside (by omega)⟩
    · exact ⟨rfl, (nested.inside (by omega)).2⟩

/-- Inside a pushcli, popcli goes one level out and does not panic. -/
theorem Nested.popcli (nested : Nested flag (d + 1) c) :
    ∃ c', popcli c = .ok c' ∧ Nested flag d c' := by
  obtain ⟨off, saved⟩ := nested.inside (Nat.succ_pos d)
  have ncli := nested.ncli
  unfold Xv6.Sync.popcli
  rw [if_neg (by simp [off])]
  dsimp only
  rw [if_neg (by omega)]
  by_cases last : d = 0
  · subst last
    cases flag with
    | true => exact ⟨_, if_pos ⟨by simp [ncli], saved⟩, ⟨by simp [ncli], nofun, fun _ => rfl⟩⟩
    | false =>
      refine ⟨_, if_neg (fun both => by simp [saved] at both), ⟨by simp [ncli], nofun, ?_⟩⟩
      exact fun _ => off
  · have still : c.ncli - 1 ≠ 0 := by omega
    refine ⟨_, if_neg (fun both => still both.1), ⟨by simp [ncli], fun _ => ⟨off, saved⟩, ?_⟩⟩
    exact fun zero => absurd zero last

/-- holding goes in and out again: the depth and the flag stay, and it answers `mine`. -/
theorem Nested.holding (nested : Nested flag d c) (mine : Bool) :
    ∃ c', holding c mine = .ok (c', mine) ∧ Nested flag d c' := by
  obtain ⟨c', popped, nested'⟩ := nested.pushcli.popcli
  exact ⟨c', by rw [Xv6.Sync.holding, popped], nested'⟩

/-- acquire of a lock the CPU does not hold goes one level in. -/
theorem Nested.acquire (nested : Nested flag d c) :
    ∃ c', acquire c false = .ok c' ∧ Nested flag (d + 1) c' := by
  obtain ⟨c', held, nested'⟩ := nested.pushcli.holding false
  exact ⟨c', by rw [Xv6.Sync.acquire, held], nested'⟩

/-- release of a lock the CPU holds goes one level out. -/
theorem Nested.release (nested : Nested flag (d + 1) c) :
    ∃ c', release c true = .ok c' ∧ Nested flag d c' := by
  obtain ⟨c', held, nested'⟩ := nested.holding true
  obtain ⟨c'', popped, nested''⟩ := nested'.popcli
  exact ⟨c'', by rw [Xv6.Sync.release, held]; exact popped, nested''⟩

/-- sched, holding `ptable.lock` alone, comes back as it left: the intena it saves is the one the
CPU had. -/
theorem Nested.sched (nested : Nested flag 1 c) :
    ∃ c', sched c true false = .ok c' ∧ Nested flag 1 c' := by
  obtain ⟨c', held, nested'⟩ := nested.holding true
  obtain ⟨off, saved⟩ := nested'.inside Nat.one_pos
  rw [Xv6.Sync.sched, held]
  dsimp only
  rw [if_neg (by simp [nested'.ncli]), if_neg Bool.false_ne_true, if_neg (by simp [off])]
  exact ⟨_, rfl, ⟨rfl, fun _ => ⟨rfl, saved⟩, nofun⟩⟩

end Nesting

/-! ## Runs -/

/-- Matched pushcli and popcli calls from depth `d`: no panic, and the CPU nested at the depth
they end at. -/
theorem cliRun_nested {flag : Bool} :
    ∀ (ops : List CliOp) (d : Nat) (s : CliState), s.panicked = none → Nested flag d s.cpu →
      matched d ops = true →
      (run cliStep s ops).panicked = none ∧ Nested flag (depth d ops) (run cliStep s ops).cpu
  | [], _, _, running, nested, _ => ⟨running, nested⟩
  | .pushcli :: ops, d, s, running, nested, calls => by
    rw [run_cons, cliStep, if_neg (by simp [running])]
    exact cliRun_nested ops (d + 1) _ running nested.pushcli calls
  | .popcli :: ops, d, s, running, nested, calls => by
    simp only [matched, Bool.and_eq_true, decide_eq_true_eq] at calls
    obtain ⟨d', rfl⟩ : ∃ d', d = d' + 1 := ⟨d - 1, by omega⟩
    obtain ⟨c', popped, nested'⟩ := nested.popcli
    rw [run_cons, cliStep, if_neg (by simp [running])]
    rw [popped]
    exact cliRun_nested ops d' _ running nested' calls.2

variable {ℓ : Type} [DecidableEq ℓ]

/-- Calls on locks in which each acquire is of a lock the CPU does not hold, each release of one
it holds, and sched comes holding `ptable` alone, from a process no longer RUNNING. -/
def disciplined (ptable : ℓ) : List ℓ → List (LockOp ℓ) → Bool
  | _, [] => true
  | held, .acquire lk :: ops => !decide (lk ∈ held) && disciplined ptable (lk :: held) ops
  | held, .release lk :: ops => decide (lk ∈ held) && disciplined ptable (held.erase lk) ops
  | held, .holding _ :: ops => disciplined ptable held ops
  | held, .sched running :: ops =>
    decide (held = [ptable]) && !running && disciplined ptable held ops

/-- Disciplined calls on locks: no panic, and the CPU nested as deep as the locks it holds. The lock
a release gives up is one of those the CPU holds. -/
theorem lockRun_nested {flag : Bool} (ptable : ℓ) :
    ∀ (ops : List (LockOp ℓ)) (s : Locks ℓ), s.panicked = none → Nested flag s.held.length s.cpu →
      disciplined ptable s.held ops = true →
      (run (lockStep ptable) s ops).panicked = none ∧
        Nested flag (run (lockStep ptable) s ops).held.length (run (lockStep ptable) s ops).cpu
  | [], _, running, nested, _ => ⟨running, nested⟩
  | .acquire lk :: ops, s, running, nested, calls => by
    simp only [disciplined, Bool.and_eq_true, Bool.not_eq_true', decide_eq_false_iff_not]
      at calls
    obtain ⟨c', acquired, nested'⟩ := nested.acquire
    rw [run_cons, lockStep, if_neg (by simp [running]), decide_eq_false calls.1]
    rw [acquired]
    exact lockRun_nested ptable ops _ running nested' calls.2
  | .release lk :: ops, s, running, nested, calls => by
    simp only [disciplined, Bool.and_eq_true, decide_eq_true_eq] at calls
    have inner : Nested flag ((s.held.erase lk).length + 1) s.cpu := by
      rw [List.length_erase_add_one calls.1]
      exact nested
    obtain ⟨c', released, nested'⟩ := inner.release
    rw [run_cons, lockStep, if_neg (by simp [running]), decide_eq_true calls.1]
    rw [released]
    exact lockRun_nested ptable ops _ running nested' calls.2
  | .holding lk :: ops, s, running, nested, calls => by
    simp only [disciplined] at calls
    obtain ⟨c', held, nested'⟩ := nested.holding (decide (lk ∈ s.held))
    rw [run_cons, lockStep, if_neg (by simp [running])]
    rw [held]
    exact lockRun_nested ptable ops _ running nested' calls
  | .sched running' :: ops, s, running, nested, calls => by
    simp only [disciplined, Bool.and_eq_true, decide_eq_true_eq, Bool.not_eq_true'] at calls
    obtain ⟨⟨alone, notRunning⟩, rest⟩ := calls
    subst notRunning
    have one : s.held.length = 1 := by rw [alone]; rfl
    have inner : Nested flag 1 s.cpu := by rw [← one]; exact nested
    obtain ⟨c', switched, nested'⟩ := inner.sched
    rw [run_cons, lockStep, if_neg (by simp [running]),
      decide_eq_true (by rw [alone]; exact List.mem_singleton_self ptable)]
    rw [switched]
    exact lockRun_nested ptable ops _ running (show Nested flag s.held.length c' by rw [one]; exact nested')
      rest

/-- pushcli and popcli nest, on their own and as the spin locks and sched use them. From a CPU
outside every pushcli, matched calls never panic, and after them `ncli` is the depth, interrupts
are off while it is positive, `intena` holds the flag from before the outermost pushcli, and the
flag is back once the depth is 0. Acquire, release, holding and sched calls that keep to the
locks' discipline never panic either, and keep the CPU nested as deep as the locks it holds. -/
theorem pushcli_popcli_nest (c : Cpu) (outermost : c.ncli = 0) :
    (∀ ops, matched 0 ops = true →
      (run cliStep ⟨c, none⟩ ops).panicked = none ∧
        Nested c.interruptible (depth 0 ops) (run cliStep ⟨c, none⟩ ops).cpu) ∧
    (∀ (ptable : ℓ) ops, disciplined ptable [] ops = true →
      (run (lockStep ptable) ⟨c, [], none⟩ ops).panicked = none ∧
        Nested c.interruptible (run (lockStep ptable) ⟨c, [], none⟩ ops).held.length
          (run (lockStep ptable) ⟨c, [], none⟩ ops).cpu) :=
  ⟨fun ops calls => cliRun_nested ops 0 _ rfl (Nested.start outermost) calls,
    fun ptable ops calls => lockRun_nested ptable ops _ rfl (Nested.start outermost) calls⟩

/-- A process takes a lock and then `ptable.lock`, lets the first go, calls sched and releases
`ptable.lock`, as `sleep` does. -/
def sleepLocks : List (LockOp Bool) :=
  [.acquire false, .acquire true, .release false, .sched false, .release true]

theorem pushcli_popcli_nest_sleepLocks :
    (⟨0, false, true⟩ : Cpu).ncli = 0 ∧ disciplined true [] sleepLocks = true ∧
      (run (lockStep true) ⟨⟨0, false, true⟩, [], none⟩ sleepLocks).panicked = none ∧
      Nested true (run (lockStep true) ⟨⟨0, false, true⟩, [], none⟩ sleepLocks).held.length
        (run (lockStep true) ⟨⟨0, false, true⟩, [], none⟩ sleepLocks).cpu := by
  have calls : disciplined true [] sleepLocks = true := by decide
  exact ⟨rfl, calls, (pushcli_popcli_nest ⟨0, false, true⟩ rfl).2 true sleepLocks calls⟩

end Xv6.Sync
