import Xv6.Verif.ProcTree
import Xv6.Verif.SignalReturn

/-!
# The pid counter comes round

`allocproc` hands out `nextpid++` before it allocates the kernel stack, so a fork that finds
no free page still uses up a pid. The C int wraps after 2^32 increments, and nothing compares
the new pid with the ones in use: after 2^32 - 1 pids have been handed out since boot, the next
one is 1 again, while init lives with pid 1.

The run here starts init and has each of its forks find no page for the kernel stack, 2^32 - 1
times; then one fork succeeds, and its child in slot 1 has pid 1. The model does not count
physical pages: how each `kalloc` turns out is part of the fork event, as it is in the kernel
once another process has used up free memory with `sbrk`. `Burning` describes the table between
two failed forks, and one failed fork takes it to the next count.
-/

namespace Xv6.Kernel

open Xv6.Bytes Xv6.Run Machine

/-- The first slot of a list that passes a test stays first when an element is replaced by one
that passes the test exactly when the old one did. -/
theorem findIdx?_set_of_same {α : Type} {test : α → Bool} :
    ∀ {l : List α} {i : Nat} {a : α}, (∀ b, l[i]? = some b → test a = test b) →
      (l.set i a).findIdx? test = l.findIdx? test
  | [], _, _, _ => rfl
  | b :: l, 0, a, same => by
    have kept : test a = test b := same b rfl
    simp [List.findIdx?_cons, kept]
  | b :: l, i + 1, a, same => by
    have rest := findIdx?_set_of_same (l := l) (i := i) (a := a) (fun c found => same c found)
    simp [List.findIdx?_cons, rest]

/-- The frame of a system call with number `num` from initcode's registers. -/
def callFrame (num : UInt32) : Trapframe := { initcodeFrame with eax := num }

section Fork

variable {k : Machine} {c : Nat}

/-- A `fork` system call of a live process in user mode: the frame is pushed, `fork` runs on
the table, and its value goes to the caller. -/
theorem trap_fork (running : (k.proc c).state = .running) (inUser : (k.proc c).context = .user)
    (alive : (k.proc c).killed = false) (asks : (k.proc c).tf.eax = 1) (inside : c < k.procs.length)
    (alloc : Alloc) (result : UInt32) :
    trap k c (.syscall alloc result) =
      finish (fork (k.setProc c { k.proc c with tf := (k.proc c).tf.entry tSyscall }) c alloc).1 c
        (fork (k.setProc c { k.proc c with tf := (k.proc c).tf.entry tSyscall }) c alloc).2 := by
  have named : syscallOf ((k.proc c).tf.entry tSyscall).eax = some .fork := by
    rw [show ((k.proc c).tf.entry tSyscall).eax = (k.proc c).tf.eax from rfl, asks]
    decide
  simp only [trap, running, inUser, ne_eq, not_true_eq_false, or_self, if_false, alive,
    Bool.false_eq_true]
  simp only [syscall, proc_setProc_self _ _ inside, named]

/-- A `fork` that finds no page for the kernel stack: the first UNUSED slot takes the next pid
and goes back to UNUSED, and the caller gets -1. -/
theorem fork_noKstack {slot : Nat} (found : k.procs.findIdx? (·.state = .unused) = some slot) :
    fork k c .noKstack =
      ({ k with nextpid := k.nextpid + 1 }.setProc slot
        { k.proc slot with state := .unused, pid := pidOf k.nextpid }, -1) := by
  simp [fork, allocproc, found]

end Fork

/-- The table between two of init's failed forks, at count `n`: init runs user code about to
call fork, and slot 1 is the first UNUSED one. -/
structure Burning (n : Int) (k : Machine) : Prop where
  calm : k.panicked = none
  tame : k.strayed = false
  initproc : k.initproc = 0
  count : k.nextpid = n
  size : k.procs.length = nproc
  running : (k.proc 0).state = .running
  inUser : (k.proc 0).context = .user
  alive : (k.proc 0).killed = false
  quiet : (k.proc 0).pendingSignals = 0
  calls : (k.proc 0).tf = callFrame 1
  pid : (k.proc 0).pid = 1
  free : k.procs.findIdx? (·.state = .unused) = some 1

/-- The entry of a system call keeps slot 1 the first UNUSED one. -/
theorem Burning.entered_free {n : Int} {k : Machine} (burning : Burning n k) :
    (k.setProc 0 { k.proc 0 with tf := (k.proc 0).tf.entry tSyscall }).procs.findIdx?
      (·.state = .unused) = some 1 := by
  show (k.procs.set 0 _).findIdx? _ = some 1
  rw [findIdx?_set_of_same, burning.free]
  intro b held
  have same : k.proc 0 = b := by simp [proc, List.getD_eq_getElem?_getD, held]
  rw [← same]

/-- One failed fork of init, and its way back to user mode. -/
def burn : List Event :=
  [.trap 0 (.syscall .noKstack 0), .resume 0, .resume 0, .user 0 (callFrame 1) (fun _ => 0)]

/-- One failed fork moves the count on by one and leaves the table as it was. -/
theorem Burning.next {n : Int} {k : Machine} (burning : Burning n k) :
    Burning (n + 1) (run step k burn) := by
  have inside : 0 < k.procs.length := by rw [burning.size]; decide
  let entered := k.setProc 0 { k.proc 0 with tf := (k.proc 0).tf.entry tSyscall }
  have stillFree : entered.procs.findIdx? (·.state = .unused) = some 1 := burning.entered_free
  let taken := { entered with nextpid := k.nextpid + 1 }.setProc 1
    { entered.proc 1 with state := .unused, pid := pidOf k.nextpid }
  have forked : trap k 0 (.syscall .noKstack 0) = finish taken 0 (-1) := by
    rw [trap_fork burning.running burning.inUser burning.alive (by rw [burning.calls]; rfl) inside,
      fork_noKstack stillFree]
    rfl
  have own : taken.proc 0 = { k.proc 0 with tf := (k.proc 0).tf.entry tSyscall } := by
    rw [proc_setProc_other _ _ (by decide : (0 : Nat) ≠ 1)]
    exact proc_setProc_self k _ inside
  have length : taken.procs.length = k.procs.length := by simp [taken, entered]
  have calm : taken.panicked = none := burning.calm
  let q := { taken.proc 0 with
    tf := { (taken.proc 0).tf with eax := UInt32.ofInt (-1) }, context := .syscallDone }
  let returned := { q with context := .user }
  have ran : run step k burn =
      taken.setProc 0 { returned with tf := callFrame 1, memory := userWrite returned fun _ => 0 } := by
    have lengthInside : 0 < taken.procs.length := by rw [length]; exact inside
    simp only [burn, run_cons, run_nil]
    rw [step_trap burning.calm, forked, finish]
    rw [step_syscallDone lengthInside calm (by simp [own, burning.running]) rfl
      (by simp [own, burning.alive])]
    rw [step_trapret_quiet lengthInside calm (by simp [own, burning.running]) rfl
      (by simp [own, burning.quiet])]
    rw [step_user_setProc lengthInside calm (by simp [own, burning.running]) rfl
      (by rw [callFrame]; decide)]
  have back := proc_setProc_self taken
    { returned with tf := callFrame 1, memory := userWrite returned fun _ => 0 }
    (by rw [length]; exact inside)
  rw [ran]
  refine ⟨burning.calm, burning.tame, burning.initproc, ?_, ?_, ?_, ?_, ?_, ?_, ?_, ?_, ?_⟩
  · simp [taken, entered, burning.count]
  · simp [taken, entered, burning.size]
  · rw [back]; simp [returned, q, own, burning.running]
  · rw [back]
  · rw [back]; simp [returned, q, own, burning.alive]
  · rw [back]; simp [returned, q, own, burning.quiet]
  · rw [back]
  · rw [back]; simp [returned, q, own, burning.pid]
  · have unused : (entered.proc 1).state = .unused := by
      have first := proc_of_findIdx_eq_some stillFree
      simpa using first
    show ((entered.procs.set 1 _).set 0 _).findIdx? _ = some 1
    rw [findIdx?_set_of_same, findIdx?_set_of_same, stillFree]
    · intro b held
      have same : entered.proc 1 = b := by simp [proc, List.getD_eq_getElem?_getD, held]
      simp [← same, unused]
    · intro b held
      have same : taken.proc 0 = b := by
        simp only [proc, List.getD_eq_getElem?_getD]
        rw [show taken.procs[0]? = some b from held]
        rfl
      simp [← same, returned, q, own, burning.running]

/-- `m` failed forks move the count on by `m`. -/
theorem Burning.burns : ∀ (m : Nat) {n : Int} {k : Machine}, Burning n k →
    Burning (n + m) (run step k (List.replicate m burn).flatten)
  | 0, n, k, burning => by simpa using burning
  | m + 1, n, k, burning => by
    have rest := Burning.burns m burning.next
    rw [List.replicate_succ, List.flatten_cons, run_append]
    rw [show n + 1 + (m : Int) = n + ((m + 1 : Nat) : Int) by push_cast; ring] at rest
    exact rest

/-- init started from boot, in user mode about to call fork. -/
def wrapStart : List Event := initStarted ++ [.user 0 (callFrame 1) (fun _ => 0)]

/-- Before its first fork init is burning at count 2. -/
theorem burning_wrapStart : Burning 2 (run step (boot 0 scenarioMemory) wrapStart) where
  calm := by decide +kernel
  tame := by decide +kernel
  initproc := by decide +kernel
  count := by decide +kernel
  size := by decide +kernel
  running := by decide +kernel
  inUser := by decide +kernel
  alive := by decide +kernel
  quiet := by decide +kernel
  calls := by decide +kernel
  pid := by decide +kernel
  free := by decide +kernel

/-- The counter after 2^32 - 1 failed forks gives pid 1 again. -/
theorem pidOf_wrapped : pidOf (2 + ((2 ^ 32 - 1 : Nat) : Int)) = 1 := by
  rw [pidOf, Int32.toInt_ofInt]
  decide

/-- A successful fork of a burning init puts a runnable child with pid `pidOf n` in slot 1 and
leaves init running with pid 1: the fork writes slot 1 only, and `finish` writes init's. -/
theorem Burning.fork_ok {n : Int} {k : Machine} (burning : Burning n k) :
    let k' := step k (.trap 0 (.syscall .ok 0))
    k'.strayed = false ∧ (k'.proc 0).state = .running ∧ (k'.proc 0).pid = 1 ∧
      (k'.proc 1).state = .runnable ∧ (k'.proc 1).pid = pidOf n := by
  intro k'
  have inside : 0 < k.procs.length := by rw [burning.size]; decide
  let entered := k.setProc 0 { k.proc 0 with tf := (k.proc 0).tf.entry tSyscall }
  have found : entered.procs.findIdx? (·.state = .unused) = some 1 := burning.entered_free
  have child := fork_child found (show (0 : Nat) ≠ 1 by decide)
  have stepped : k' = finish (fork entered 0 .ok).1 0 (fork entered 0 .ok).2 := by
    show step k _ = _
    rw [step_trap burning.calm]
    exact trap_fork burning.running burning.inUser burning.alive (by rw [burning.calls]; rfl) inside
      .ok 0
  have parent : (fork entered 0 .ok).1.proc 0 = entered.proc 0 :=
    fork_parent found (by decide)
  have own : entered.proc 0 = { k.proc 0 with tf := (k.proc 0).tf.entry tSyscall } :=
    proc_setProc_self k _ inside
  have kept : (fork entered 0 .ok).1.strayed = false := by
    rw [fork_strayed]
    exact burning.tame
  have forkLength : 0 < (fork entered 0 .ok).1.procs.length := by
    rw [(spares_fork 0 .ok : Spares 0 entered (fork entered 0 .ok).1).length]
    simpa [entered] using inside
  refine ⟨?_, ?_, ?_, ?_, ?_⟩
  · rw [stepped, finish, setProc_strayed]
    exact kept
  · rw [stepped, finish, proc_setProc_self _ _ forkLength]
    simp [parent, own, burning.running]
  · rw [stepped, finish, proc_setProc_self _ _ forkLength]
    simp [parent, own, burning.pid]
  · rw [stepped, finish, proc_setProc_other _ _ (by decide : (1 : Nat) ≠ 0), child]
  · rw [stepped, finish, proc_setProc_other _ _ (by decide : (1 : Nat) ≠ 0), child]
    simp [entered, burning.count]

/-- The run in which the pid counter comes round: init starts, 2^32 - 1 of its forks fail at the
kernel stack, and the next one succeeds. -/
def wrapRun : List Event :=
  wrapStart ++ (List.replicate (2 ^ 32 - 1) burn).flatten ++ [.trap 0 (.syscall .ok 0)]

end Xv6.Kernel
