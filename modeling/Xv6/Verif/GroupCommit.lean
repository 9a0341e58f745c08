import Xv6.Fs.Ops
import Xv6.Lib.Count
import Mathlib.Algebra.BigOperators.Ring.Finset
import Mathlib.Algebra.Order.BigOperators.Group.Finset

/-!
# Group commit and log space

For any number of FS system calls and any interleaving of their critical sections, an invariant
ties the in-memory log to the calls. `log.outstanding` counts the admitted calls; the committing
flag is set exactly when one call commits, and then no call is admitted; every block an admitted
call has written is in the header, whose entries are distinct; and the header's count plus what
the admitted calls may still add stays within LOGSIZE, because `begin_op` reserves MAXOPBLOCKS
for each call against LOGSIZE.

From it: commit() runs only with no call in progress, `end_op`'s panic is unreachable, and no
call is admitted or writes while a commit runs. But the reservation is against LOGSIZE, while
`log_write` panics once the count reaches `log.size - 1`, and mkfs makes `log.size` LOGSIZE: three
calls admitted at once can fill 29 entries and the next write panics.
-/

namespace Xv6.Fs

open Xv6.Run

/-- The logged block numbers: the first `n` entries of the header. -/
def entries (lh : LogHeader) : List Nat := (List.range lh.n.toNat).map lh.block

section Absorb

variable {log log' : Log} {b : Nat}

/-- `log_write`'s loop stops at the block's entry, or at `n` when the block is not logged. -/
theorem absorbIndex_spec (lh : LogHeader) (b : Nat) :
    (absorbIndex lh b < lh.n.toNat ∧ lh.block (absorbIndex lh b) = b) ∨
      (absorbIndex lh b = lh.n.toNat ∧ b ∉ entries lh) := by
  unfold absorbIndex
  cases found : (List.range lh.n.toNat).find? (fun i => lh.block i = b) with
  | some i =>
    have hit := List.find?_some found
    have inside := List.mem_range.mp (List.mem_of_find?_eq_some found)
    exact Or.inl ⟨inside, by simpa using hit⟩
  | none =>
    refine Or.inr ⟨rfl, ?_⟩
    intro logged
    obtain ⟨i, inside, rfl⟩ := List.mem_map.mp logged
    have missed := List.find?_eq_none.mp found i inside
    simp at missed

/-- What a `log_write` that does not panic does: the guards held, and the block was absorbed into
its entry or appended as a new one; the rest of the log is unchanged. Absorption leaves the array
unchanged, as the entry already holds the block. -/
theorem logWrite_ok (nonneg : 0 ≤ log.lh.n) (wrote : logWrite log b = .ok log') :
    log.lh.n < LOGSIZE ∧ log.lh.n < log.size - 1 ∧ 1 ≤ log.outstanding ∧
      log'.outstanding = log.outstanding ∧ log'.committing = log.committing ∧
      ((b ∈ entries log.lh ∧ log'.lh.n = log.lh.n ∧ entries log'.lh = entries log.lh) ∨
        (b ∉ entries log.lh ∧ log'.lh.n = log.lh.n + 1 ∧
          entries log'.lh = entries log.lh ++ [b])) := by
  unfold logWrite at wrote
  split at wrote
  · cases wrote
  · rename_i roomy
    split at wrote
    · cases wrote
    · rename_i inside
      cases wrote
      refine ⟨by omega, by omega, by omega, rfl, rfl, ?_⟩
      rcases absorbIndex_spec log.lh b with ⟨found, same⟩ | ⟨appended, fresh⟩
      · have notLast : ((absorbIndex log.lh b : Nat) : Int) ≠ log.lh.n := by omega
        have unchanged : Function.update log.lh.block (absorbIndex log.lh b) b = log.lh.block :=
          Function.update_eq_self_iff.mpr same.symm
        refine Or.inl ⟨?_, ?_, ?_⟩
        · exact List.mem_map.mpr ⟨_, List.mem_range.mpr found, same⟩
        · simp only [if_neg notLast]
        · simp only [if_neg notLast, unchanged, entries]
      · have last : ((log.lh.n.toNat : Nat) : Int) = log.lh.n := by omega
        have grown : (log.lh.n + 1).toNat = log.lh.n.toNat + 1 := by omega
        simp only [appended]
        refine Or.inr ⟨fresh, by simp only [if_pos last], ?_⟩
        simp only [entries, if_pos last, grown, List.range_succ, List.map_append, List.map_cons,
          List.map_nil, Function.update_self]
        congr 1
        apply List.map_congr_left
        intro j mem
        exact Function.update_of_ne (Nat.ne_of_lt (List.mem_range.mp mem)) _ _

end Absorb

section Invariant

variable {ι : Type} [Fintype ι] [DecidableEq ι]

/-- The calls counted in `log.outstanding`. -/
def activeCount (op : ι → OpPc) : Nat := ∑ i, if (op i).isActive then 1 else 0

/-- What the admitted calls may still add to the header. -/
def reserved (op : ι → OpPc) : Nat := ∑ i, (op i).remaining

/-- The invariant of the log and the calls. -/
structure OpsInv (s : FsState ι) : Prop where
  outstanding : s.log.outstanding = activeCount s.op
  committing : s.log.committing = true ↔ ∃ i, s.op i = .committing
  oneCommitter : ∀ i j, s.op i = .committing → s.op j = .committing → i = j
  quiet : s.log.committing = true → ∀ i, (s.op i).isActive = false
  count : 0 ≤ s.log.lh.n
  space : s.log.lh.n + reserved s.op ≤ LOGSIZE
  distinct : (entries s.log.lh).Nodup
  written : ∀ i ws, s.op i = .active ws →
    ws.Nodup ∧ ws.length ≤ MAXOPBLOCKS ∧ ∀ b ∈ ws, b ∈ entries s.log.lh
  noEndPanic : s.panicked ≠ some "log.committing"

omit [Fintype ι] in
/-- A call's place after a move: the new place, or the old one of another call. -/
theorem update_eq_cases {op : ι → OpPc} {i j : ι} {pc other : OpPc}
    (moved : Function.update op i pc j = other) : (j = i ∧ pc = other) ∨ (j ≠ i ∧ op j = other) := by
  by_cases same : j = i
  · subst same
    rw [Function.update_self] at moved
    exact Or.inl ⟨rfl, moved⟩
  · rw [Function.update_of_ne same] at moved
    exact Or.inr ⟨same, moved⟩

theorem activeCount_update (op : ι → OpPc) (i : ι) (pc : OpPc) :
    activeCount (Function.update op i pc) + (if (op i).isActive then 1 else 0) =
      activeCount op + (if pc.isActive then 1 else 0) :=
  sum_comp_update (fun pc => if pc.isActive then 1 else 0) op i pc

theorem reserved_update (op : ι → OpPc) (i : ι) (pc : OpPc) :
    reserved (Function.update op i pc) + (op i).remaining = reserved op + pc.remaining :=
  sum_comp_update OpPc.remaining op i pc

omit [DecidableEq ι] in
/-- Each admitted call reserves at most MAXOPBLOCKS. -/
theorem reserved_le (op : ι → OpPc) : reserved op ≤ MAXOPBLOCKS * activeCount op := by
  rw [activeCount, Finset.mul_sum]
  apply Finset.sum_le_sum
  intro i _
  cases pc : op i with
  | active written => simp [OpPc.isActive]
  | idle | waiting | committing => simp [OpPc.remaining]

omit [DecidableEq ι] in
/-- With no call counted, none is admitted. -/
theorem not_active_of_activeCount {op : ι → OpPc} (none : activeCount op = 0) (i : ι) :
    (op i).isActive = false := by
  have zero := (Finset.sum_eq_zero_iff.mp none) i (Finset.mem_univ i)
  simpa using zero

end Invariant

section Ops

/-- `begin_op` admits only with no commit running and room for MAXOPBLOCKS more per call. -/
theorem beginOp_some {log log' : Log} (admitted : beginOp log = some log') :
    log.committing = false ∧ log.lh.n + (log.outstanding + 1) * MAXOPBLOCKS ≤ LOGSIZE ∧
      log' = { log with outstanding := log.outstanding + 1 } := by
  unfold beginOp at admitted
  split at admitted
  · cases admitted
  · split at admitted
    · cases admitted
    · rename_i free roomy
      cases admitted
      exact ⟨by simpa using free, by omega, rfl⟩

/-- `end_op` without its panic: no commit was running; the count goes down, and the caller
commits exactly when it was the last. -/
theorem endOp_ok {log log' : Log} {commits : Bool} (ended : endOp log = .ok (log', commits)) :
    log.committing = false ∧ log'.lh = log.lh ∧ log'.outstanding = log.outstanding - 1 ∧
      ((commits = true ∧ log.outstanding - 1 = 0 ∧ log'.committing = true) ∨
        (commits = false ∧ log.outstanding - 1 ≠ 0 ∧ log'.committing = false)) := by
  unfold endOp at ended
  dsimp only at ended
  split at ended
  · cases ended
  · rename_i free
    split at ended
    · rename_i last
      cases ended
      exact ⟨by simpa using free, rfl, rfl, Or.inl ⟨rfl, last, rfl⟩⟩
    · rename_i more
      cases ended
      exact ⟨by simpa using free, rfl, rfl, Or.inr ⟨rfl, more, by simpa using free⟩⟩

/-- `end_op` panics only while a commit runs. -/
theorem endOp_error {log : Log} {message : String} (failed : endOp log = .error message) :
    log.committing = true := by
  unfold endOp at failed
  dsimp only at failed
  split at failed
  · simpa using ‹_›
  · split at failed <;> cases failed

end Ops

section Steps

variable {ι : Type} [Fintype ι] [DecidableEq ι] {s : FsState ι} {i : ι}

omit [DecidableEq ι] in
/-- No call commits while the flag is clear. -/
theorem OpsInv.no_committer (inv : OpsInv s) (free : s.log.committing = false) (j : ι) :
    s.op j ≠ .committing := fun committer => by
  have busy := inv.committing.mpr ⟨j, committer⟩
  rw [free] at busy
  cases busy

omit [Fintype ι] in
/-- Moving a call between places that are not committing leaves who commits. -/
theorem committer_update_iff (before : s.op i ≠ .committing) {pc : OpPc} (after : pc ≠ .committing) :
    (∃ j, Function.update s.op i pc j = .committing) ↔ ∃ j, s.op j = .committing := by
  constructor
  · rintro ⟨j, committer⟩
    rcases update_eq_cases committer with ⟨-, same⟩ | ⟨-, other⟩
    · exact absurd same after
    · exact ⟨j, other⟩
  · rintro ⟨j, committer⟩
    have apart : j ≠ i := fun same => before (same ▸ committer)
    exact ⟨j, by rw [Function.update_of_ne apart]; exact committer⟩

/-- The part of the invariant about who commits survives a move between places that are not
committing, under a log with the same flag. -/
theorem OpsInv.committers_update (inv : OpsInv s) (before : s.op i ≠ .committing) {pc : OpPc}
    (after : pc ≠ .committing) :
    (∃ j, Function.update s.op i pc j = .committing) ↔ s.log.committing = true :=
  (committer_update_iff before after).trans inv.committing.symm

omit [Fintype ι] in
theorem oneCommitter_update (one : ∀ j k, s.op j = .committing → s.op k = .committing → j = k)
    {pc : OpPc} (after : pc ≠ .committing) :
    ∀ j k, Function.update s.op i pc j = .committing → Function.update s.op i pc k = .committing →
      j = k := by
  intro j k first second
  rcases update_eq_cases first with ⟨-, same⟩ | ⟨-, early⟩
  · exact absurd same after
  · rcases update_eq_cases second with ⟨-, same⟩ | ⟨-, late⟩
    · exact absurd same after
    · exact one j k early late

omit [Fintype ι] in
/-- With no call counted, moving one to a place that is not counted leaves none counted. -/
theorem inactive_update (none : ∀ j, (s.op j).isActive = false) {pc : OpPc}
    (idle : pc.isActive = false) (j : ι) : (Function.update s.op i pc j).isActive = false := by
  by_cases same : j = i
  · subst same
    rwa [Function.update_self]
  · rw [Function.update_of_ne same]
    exact none j

/-- The written blocks of the other calls survive a move of call `i`, under a header whose
entries include the old ones. -/
theorem written_update (inv : OpsInv s) {lh : LogHeader} (grows : ∀ b ∈ entries s.log.lh, b ∈ entries lh)
    {ws' : List Nat} (own : ws'.Nodup ∧ ws'.length ≤ MAXOPBLOCKS ∧ ∀ b ∈ ws', b ∈ entries lh)
    {pc : OpPc} (fresh : ∀ ws, pc = .active ws → ws = ws') :
    ∀ j ws, Function.update s.op i pc j = .active ws →
      ws.Nodup ∧ ws.length ≤ MAXOPBLOCKS ∧ ∀ b ∈ ws, b ∈ entries lh := by
  intro j ws placed
  rcases update_eq_cases placed with ⟨-, same⟩ | ⟨-, other⟩
  · rw [fresh ws same]
    exact own
  · obtain ⟨nodup, short, logged⟩ := inv.written j ws other
    exact ⟨nodup, short, fun b mem => grows b (logged b mem)⟩

/-- A call that is neither counted nor committing is admitted: the count goes up by one and
MAXOPBLOCKS more is reserved, which `begin_op`'s test leaves within LOGSIZE. -/
theorem inv_admit (inv : OpsInv s) (idle : (s.op i).isActive = false)
    (notCommitter : s.op i ≠ .committing) {log' : Log} (admitted : beginOp s.log = some log') :
    OpsInv ({ s with log := log' }.move i (.active [])) := by
  obtain ⟨free, roomy, rfl⟩ := beginOp_some admitted
  have counted := activeCount_update s.op i (.active [])
  have reservedMore := reserved_update s.op i (.active [])
  have bounded := reserved_le s.op
  rw [OpPc.remaining_of_not_active idle] at reservedMore
  simp [idle] at counted reservedMore
  have outstanding := inv.outstanding
  unfold MAXOPBLOCKS at roomy reservedMore bounded
  unfold LOGSIZE MAXOPBLOCKS at roomy
  exact {
    outstanding := by simp only [FsState.move_log, FsState.move_op]; omega
    committing := by
      simp only [FsState.move_log, FsState.move_op]
      exact (inv.committers_update notCommitter (by simp)).symm
    oneCommitter := oneCommitter_update inv.oneCommitter (by simp)
    quiet := fun busy => absurd busy (by simpa using free)
    count := inv.count
    space := by
      simp only [FsState.move_log, FsState.move_op]
      unfold LOGSIZE MAXOPBLOCKS
      omega
    distinct := inv.distinct
    written := written_update inv (fun _ mem => mem) ⟨List.nodup_nil, by simp, by simp⟩
      (fun ws same => by cases same; rfl)
    noEndPanic := inv.noEndPanic }

/-- A call that is refused goes to sleep on the log. -/
theorem inv_wait (inv : OpsInv s) (idle : (s.op i).isActive = false)
    (notCommitter : s.op i ≠ .committing) : OpsInv (s.move i .waiting) := by
  have counted := activeCount_update s.op i .waiting
  have reservedSame := reserved_update s.op i .waiting
  rw [OpPc.remaining_of_not_active idle] at reservedSame
  simp only [idle] at counted
  have outstanding := inv.outstanding
  have space := inv.space
  exact {
    outstanding := by simp only [FsState.move_log, FsState.move_op]; simp [OpPc.isActive] at counted; omega
    committing := (inv.committers_update notCommitter (by simp)).symm
    oneCommitter := oneCommitter_update inv.oneCommitter (by simp)
    quiet := fun busy => inactive_update (inv.quiet busy) rfl
    count := inv.count
    space := by simp only [FsState.move_log, FsState.move_op]; simp [OpPc.remaining] at reservedSame; omega
    distinct := inv.distinct
    written := written_update inv (fun _ mem => mem) ⟨List.nodup_nil, by simp, by simp⟩ nofun
    noEndPanic := inv.noEndPanic }

omit [DecidableEq ι] in
/-- A panic other than `end_op`'s leaves the invariant, which speaks of the log and the calls
only. -/
theorem OpsInv.panic (inv : OpsInv s) {message : String} (other : message ≠ "log.committing") :
    OpsInv { s with panicked := some message } :=
  { inv with noEndPanic := by simpa using other }

/-- `log_write`'s panics are its own. -/
theorem logWrite_error {log : Log} {b : Nat} {message : String}
    (failed : logWrite log b = .error message) : message ≠ "log.committing" := by
  unfold logWrite at failed
  split at failed
  · cases failed
    decide
  · split at failed
    · cases failed
      decide
    · cases failed

/-- `log_write` by an admitted call: the block is absorbed, or appended using one of the blocks the
call reserved, so the count plus the reservations does not grow. A new entry is a block the call had
not written, so it used one of the call's reservations. -/
theorem inv_write (inv : OpsInv s) {ws : List Nat} (pc : s.op i = .active ws) {b : Nat}
    (allowed : b ∈ ws ∨ ws.length < MAXOPBLOCKS) {log' : Log} (wrote : logWrite s.log b = .ok log') :
    OpsInv ({ s with log := log' }.move i (.active (if b ∈ ws then ws else b :: ws))) := by
  obtain ⟨-, -, -, outstanding', committing', change⟩ := logWrite_ok inv.count wrote
  obtain ⟨nodup, short, logged⟩ := inv.written i ws pc
  set ws' := if b ∈ ws then ws else b :: ws with chosen
  have counted := activeCount_update s.op i (.active ws')
  have reservations := reserved_update s.op i (.active ws')
  simp only [pc, OpPc.isActive_active, OpPc.remaining_active] at counted reservations
  have outstanding := inv.outstanding
  have space := inv.space
  have notCommitter : s.op i ≠ .committing := by simp [pc]
  have own : ws'.Nodup ∧ ws.length ≤ ws'.length ∧ ws'.length ≤ MAXOPBLOCKS ∧
      (b ∉ ws → ws'.length = ws.length + 1) := by
    by_cases again : b ∈ ws
    · simp only [chosen, if_pos again]
      exact ⟨nodup, le_refl _, short, fun fresh => absurd again fresh⟩
    · have room := allowed.resolve_left again
      simp only [chosen, if_neg again, List.length_cons]
      exact ⟨List.nodup_cons.mpr ⟨again, nodup⟩, by omega, by omega, fun _ => trivial⟩
  have grows : ∀ b' ∈ entries s.log.lh, b' ∈ entries log'.lh := by
    rcases change with ⟨-, -, same⟩ | ⟨-, -, appended⟩
    · rw [same]
      exact fun _ mem => mem
    · rw [appended]
      exact fun _ mem => List.mem_append_left _ mem
  have present : b ∈ entries log'.lh := by
    rcases change with ⟨logged, -, same⟩ | ⟨-, -, appended⟩
    · rw [same]
      exact logged
    · rw [appended]
      exact List.mem_append_right _ (List.mem_singleton_self b)
  exact {
    outstanding := by simp only [FsState.move_log, FsState.move_op, outstanding']; omega
    committing := by
      simp only [FsState.move_log, FsState.move_op, committing']
      exact (inv.committers_update notCommitter (by simp)).symm
    oneCommitter := oneCommitter_update inv.oneCommitter (by simp)
    quiet := fun busy => absurd (inv.quiet (committing' ▸ busy) i) (by simp [pc])
    count := by
      rcases change with ⟨-, same, -⟩ | ⟨-, grown, -⟩
      · simp only [FsState.move_log, same]
        exact inv.count
      · simp only [FsState.move_log, grown]
        have := inv.count
        omega
    space := by
      simp only [FsState.move_log, FsState.move_op]
      rcases change with ⟨-, same, -⟩ | ⟨fresh, grown, -⟩
      · rw [same]
        omega
      · have longer := own.2.2.2 fun mem => fresh (logged b mem)
        rw [grown]
        omega
    distinct := by
      rcases change with ⟨-, -, same⟩ | ⟨fresh, -, appended⟩
      · simp only [FsState.move_log, same]
        exact inv.distinct
      · simp only [FsState.move_log, appended]
        exact List.nodup_append.mpr ⟨inv.distinct, List.nodup_singleton b,
          fun a mem a' mem' same => fresh (by simp at mem'; exact mem' ▸ same ▸ mem)⟩
    written := by
      simp only [FsState.move_log, FsState.move_op]
      refine written_update inv grows ⟨own.1, own.2.2.1, fun b' mem => ?_⟩
        (fun ws'' same => by cases same; rfl)
      by_cases again : b ∈ ws
      · simp only [chosen, if_pos again] at mem
        exact grows b' (logged b' mem)
      · simp only [chosen, if_neg again] at mem
        rcases List.mem_cons.mp mem with rfl | earlier
        · exact present
        · exact grows b' (logged b' earlier)
    noEndPanic := inv.noEndPanic }

theorem inv_writeStep (inv : OpsInv s) (i : ι) (b : Nat) : OpsInv (writeStep s i b) := by
  unfold writeStep
  split
  · rename_i ws pc
    split
    · rename_i allowed
      cases wrote : logWrite s.log b with
      | error message => exact inv.panic (logWrite_error wrote)
      | ok log' => exact inv_write inv pc allowed wrote
    · exact inv
  · exact inv

theorem inv_beginStep (inv : OpsInv s) (i : ι) : OpsInv (beginStep s i) := by
  unfold beginStep
  cases pc : s.op i with
  | idle | waiting =>
    have idle : (s.op i).isActive = false := by simp [pc, OpPc.isActive]
    have notCommitter : s.op i ≠ .committing := by simp [pc]
    cases admitted : beginOp s.log with
    | some log' => exact inv_admit inv idle notCommitter admitted
    | none => exact inv_wait inv idle notCommitter
  | active ws => exact inv
  | committing => exact inv

/-- The last admitted call to end sets the flag and commits; any other just leaves. -/
theorem inv_finish (inv : OpsInv s) {ws : List Nat} (pc : s.op i = .active ws) {log' : Log}
    {commits : Bool} (ended : endOp s.log = .ok (log', commits)) :
    OpsInv ({ s with log := log' }.move i (if commits then .committing else .idle)) := by
  obtain ⟨free, sameHeader, down, last⟩ := endOp_ok ended
  have counted := activeCount_update s.op i (if commits then .committing else .idle)
  have reservations := reserved_update s.op i (if commits then .committing else .idle)
  have notActive : (if commits then OpPc.committing else OpPc.idle).isActive = false := by
    split <;> rfl
  rw [OpPc.remaining_of_not_active notActive] at reservations
  simp only [pc, OpPc.isActive_active, notActive] at counted
  have outstanding := inv.outstanding
  have space := inv.space
  have written : ∀ j ws', Function.update s.op i (if commits then .committing else .idle) j =
      .active ws' → ws'.Nodup ∧ ws'.length ≤ MAXOPBLOCKS ∧ ∀ b ∈ ws', b ∈ entries log'.lh := by
    rw [sameHeader]
    exact written_update inv (fun _ mem => mem) ⟨List.nodup_nil, by simp, by simp⟩
      (fun ws' same => by split at same <;> cases same)
  rcases last with ⟨rfl, zero, flag⟩ | ⟨rfl, more, flag⟩
  · have nobody : ∀ j, s.op j ≠ .committing := inv.no_committer free
    have none : activeCount (Function.update s.op i .committing) = 0 := by
      simp at counted
      omega
    exact {
      outstanding := by simp only [FsState.move_log, FsState.move_op, down, if_true]; omega
      committing := by
        simp only [FsState.move_log, FsState.move_op, flag, if_true, true_iff]
        exact ⟨i, Function.update_self _ _ _⟩
      oneCommitter := fun j k first second => by
        simp only [FsState.move_op, if_true] at first second
        rcases update_eq_cases first with ⟨rfl, -⟩ | ⟨-, early⟩
        · rcases update_eq_cases second with ⟨rfl, -⟩ | ⟨-, late⟩
          · rfl
          · exact absurd late (nobody k)
        · exact absurd early (nobody j)
      quiet := fun _ => by simpa using not_active_of_activeCount none
      count := by simp only [FsState.move_log, sameHeader]; exact inv.count
      space := by
        simp only [FsState.move_log, FsState.move_op, sameHeader, if_true]
        simp at reservations
        omega
      distinct := by simp only [FsState.move_log, sameHeader]; exact inv.distinct
      written := by simpa using written
      noEndPanic := inv.noEndPanic }
  · exact {
      outstanding := by
        simp only [FsState.move_log, FsState.move_op, down, Bool.false_eq_true, if_false]
        simp at counted
        omega
      committing := by
        simp only [FsState.move_log, FsState.move_op, flag, Bool.false_eq_true, if_false]
        rw [inv.committers_update (by simp [pc]) (by simp), free]
        simp
      oneCommitter := by
        simpa using oneCommitter_update (i := i) inv.oneCommitter (show OpPc.idle ≠ .committing by simp)
      quiet := fun busy => absurd busy (by simp [flag])
      count := by simp only [FsState.move_log, sameHeader]; exact inv.count
      space := by
        simp only [FsState.move_log, FsState.move_op, sameHeader, Bool.false_eq_true, if_false]
        simp at reservations
        omega
      distinct := by simp only [FsState.move_log, sameHeader]; exact inv.distinct
      written := by simpa using written
      noEndPanic := inv.noEndPanic }

/-- `end_op` keeps the invariant. Its panic needs the flag set, which no admitted call ever
sees. -/
theorem inv_finishStep (inv : OpsInv s) (i : ι) : OpsInv (finishStep s i) := by
  unfold finishStep
  split
  · rename_i ws pc
    have free : s.log.committing = false := by
      cases flag : s.log.committing
      · rfl
      · have := inv.quiet flag i
        simp [pc] at this
    cases ended : endOp s.log with
    | error message =>
      have busy := endOp_error ended
      rw [free] at busy
      cases busy
    | ok result =>
      obtain ⟨log', commits⟩ := result
      have moved := inv_finish inv pc ended
      cases commits
      · exact moved
      · exact moved
  · exact inv

/-- The committing call returns from `commit()`: the header is emptied and the flag cleared, with no
call counted. commit() leaves the header empty, or as it was when it had no entries. -/
theorem inv_commitDone (inv : OpsInv s) (pc : s.op i = .committing) :
    OpsInv ({ s with log := endCommit (commit s.log emptyCache).2 }.move i .idle) := by
  have busy : s.log.committing = true := inv.committing.mpr ⟨i, pc⟩
  have none := inv.quiet busy
  have only : ∀ j, j ≠ i → s.op j ≠ .committing := fun j other committer =>
    other (inv.oneCommitter j i committer pc)
  have counted := activeCount_update s.op i .idle
  have reservations := reserved_update s.op i .idle
  simp only [pc] at counted reservations
  have outstanding := inv.outstanding
  have space := inv.space
  have emptied : (commit s.log emptyCache).2.lh.n = 0 ∨ (commit s.log emptyCache).2 = s.log := by
    unfold commit
    split
    · exact Or.inl rfl
    · exact Or.inr rfl
  have others : ∀ j, Function.update s.op i .idle j ≠ .committing := by
    intro j committer
    rcases update_eq_cases committer with ⟨-, same⟩ | ⟨other, early⟩
    · cases same
    · exact only j other early
  have outstandingSame : (commit s.log emptyCache).2.outstanding = s.log.outstanding := by
    rcases emptied with cleared | same
    · unfold commit at cleared ⊢
      split <;> rfl
    · rw [same]
  exact {
    outstanding := by
      simp only [FsState.move_log, FsState.move_op, endCommit, outstandingSame]
      simp [OpPc.isActive] at counted
      omega
    committing := by
      simp only [FsState.move_log, FsState.move_op, endCommit, Bool.false_eq_true, false_iff]
      exact fun found => found.elim others
    oneCommitter := fun j _ committer => absurd committer (others j)
    quiet := fun flag => absurd flag (by simp [endCommit])
    count := by
      rcases emptied with cleared | same
      · simp only [FsState.move_log, endCommit, cleared, le_refl]
      · simp only [FsState.move_log, endCommit, same]
        exact inv.count
    space := by
      simp only [FsState.move_log, FsState.move_op, endCommit]
      simp [OpPc.remaining] at reservations
      rcases emptied with cleared | same
      · rw [cleared]
        have := inv.count
        omega
      · rw [same]
        omega
    distinct := by
      rcases emptied with cleared | same
      · simp [FsState.move_log, endCommit, entries, cleared]
      · simp only [FsState.move_log, endCommit, same]
        exact inv.distinct
    written := fun j ws placed => by
      simp only [FsState.move_op] at placed
      rcases update_eq_cases placed with ⟨-, same⟩ | ⟨-, early⟩
      · cases same
      · have := none j
        simp [early] at this
    noEndPanic := inv.noEndPanic }

theorem inv_commitDoneStep (inv : OpsInv s) (i : ι) : OpsInv (commitDoneStep s i) := by
  unfold commitDoneStep
  split
  · rename_i pc
    exact inv_commitDone inv pc
  · exact inv

/-- Every event keeps the invariant. -/
theorem inv_fsStep (inv : OpsInv s) (event : FsEvent ι) : OpsInv (fsStep s event) := by
  unfold fsStep
  split
  · exact inv
  · cases event with
    | begin i => exact inv_beginStep inv i
    | write i b => exact inv_writeStep inv i b
    | finish i => exact inv_finishStep inv i
    | commitDone i => exact inv_commitDoneStep inv i

end Steps

section Reachable

variable {ι : Type} [Fintype ι] [DecidableEq ι]

/-- The log `initlog` leaves has an empty header, no call counted and no commit running. -/
theorem initlog_log (logstart nlog : Nat) (disk : Disk) :
    (initlog logstart nlog disk).2.lh.n = 0 ∧ (initlog logstart nlog disk).2.outstanding = 0 ∧
      (initlog logstart nlog disk).2.committing = false :=
  ⟨rfl, rfl, rfl⟩

omit [DecidableEq ι] in
theorem inv_fsInit {log : Log} (empty : log.lh.n = 0) (none : log.outstanding = 0)
    (free : log.committing = false) : OpsInv (fsInit log : FsState ι) where
  outstanding := by simp [fsInit, activeCount, OpPc.isActive, none]
  committing := by simp [fsInit, free]
  oneCommitter := by simp [fsInit]
  quiet := by simp [fsInit, free]
  count := by simp [fsInit, empty]
  space := by simp [fsInit, reserved, OpPc.remaining, empty]
  distinct := by simp [fsInit, entries, empty]
  written := by simp [fsInit]
  noEndPanic := by simp [fsInit]

/-- The invariant holds in every state reachable from the log `initlog` leaves. -/
theorem inv_reachable {logstart nlog : Nat} {disk : Disk} {s : FsState ι}
    (reached : Reachable fsStep (fsInit (initlog logstart nlog disk).2) s) : OpsInv s := by
  obtain ⟨empty, none, free⟩ := initlog_log logstart nlog disk
  have kept : Invariant fsStep (OpsInv : FsState ι → Prop) := fun s event inv => inv_fsStep inv event
  exact kept.reachable (inv_fsInit empty none free) reached

omit [DecidableEq ι] in
/-- With no call admitted, none is counted. -/
theorem activeCount_of_none {op : ι → OpPc} (none : ∀ j, (op j).isActive = false) :
    activeCount op = 0 :=
  Finset.sum_eq_zero fun j _ => by simp [none j]

omit [DecidableEq ι] in
/-- One call's reservation is part of the total. -/
theorem remaining_le_reserved (op : ι → OpPc) (i : ι) : (op i).remaining ≤ reserved op :=
  Finset.single_le_sum (f := fun j => (op j).remaining) (fun _ _ => Nat.zero_le _)
    (Finset.mem_univ i)

omit [Fintype ι] in
/-- `begin_op` leaves the header. -/
theorem beginStep_lh (i : ι) : (beginStep s i).log.lh = s.log.lh := by
  unfold beginStep
  cases s.op i with
  | idle | waiting =>
    cases admitted : beginOp s.log with
    | some log' =>
      obtain ⟨-, -, rfl⟩ := beginOp_some admitted
      rfl
    | none => rfl
  | active ws => rfl
  | committing => rfl

omit [Fintype ι] in
/-- So does `end_op`'s critical section. -/
theorem finishStep_lh (i : ι) : (finishStep s i).log.lh = s.log.lh := by
  unfold finishStep
  cases s.op i with
  | active ws =>
    cases ended : endOp s.log with
    | error message => rfl
    | ok result =>
      obtain ⟨log', commits⟩ := result
      obtain ⟨-, sameHeader, -⟩ := endOp_ok ended
      cases commits
      · exact sameHeader
      · exact sameHeader
  | idle | waiting | committing => rfl

/-- `log_write` keeps the entries as a prefix: it absorbs the block or appends it. -/
theorem entries_writeStep (inv : OpsInv s) (i : ι) (b : Nat) :
    entries s.log.lh <+: entries (writeStep s i b).log.lh := by
  unfold writeStep
  cases s.op i with
  | active ws =>
    dsimp only
    split
    · cases wrote : logWrite s.log b with
      | error message => exact List.prefix_refl _
      | ok log' =>
        obtain ⟨-, -, -, -, -, change⟩ := logWrite_ok inv.count wrote
        rcases change with ⟨-, -, same⟩ | ⟨-, -, appended⟩
        · simp only [FsState.move_log, same, List.prefix_refl]
        · simp only [FsState.move_log, appended]
          exact List.prefix_append _ _
    · exact List.prefix_refl _
  | idle | waiting | committing => exact List.prefix_refl _

/-- Between commits the header only grows: an event other than a commit's return keeps the
entries as a prefix. -/
theorem entries_prefix_step (inv : OpsInv s) (event : FsEvent ι)
    (notCommit : ∀ i, event ≠ .commitDone i) : entries s.log.lh <+: entries (fsStep s event).log.lh := by
  unfold fsStep
  split
  · exact List.prefix_refl _
  · cases event with
    | begin i => rw [beginStep_lh]
    | write i b => exact entries_writeStep inv i b
    | finish i => rw [finishStep_lh]
    | commitDone i => exact absurd rfl (notCommit i)

/-- While a commit runs, `begin_op` admits no call. -/
theorem begin_refused (inv : OpsInv s) (busy : s.log.committing = true) (i : ι) :
    ((fsStep s (.begin i)).op i).isActive = false := by
  have idle := inv.quiet busy i
  have refused : beginOp s.log = none := by simp [beginOp, busy]
  by_cases halted : s.panicked.isSome
  · simp only [fsStep, halted, if_true]
    exact idle
  · simp only [fsStep, halted, Bool.false_eq_true, if_false]
    unfold beginStep
    cases pc : s.op i with
    | idle | waiting => simp [refused, OpPc.isActive]
    | active ws => simp [pc] at idle
    | committing => simp [pc, OpPc.isActive]

/-- While a commit runs, no `log_write` happens: no call is admitted to make one. -/
theorem write_refused (inv : OpsInv s) (busy : s.log.committing = true) (i : ι) (b : Nat) :
    fsStep s (.write i b) = s := by
  have idle := inv.quiet busy i
  by_cases halted : s.panicked.isSome
  · simp only [fsStep, halted, if_true]
  · simp only [fsStep, halted, Bool.false_eq_true, if_false]
    unfold writeStep
    cases pc : s.op i with
    | active ws => simp [pc] at idle
    | idle | waiting | committing => rfl

/-- Group commit never splits an operation. In every state reachable from the log `initlog`
leaves, for any number of FS system calls and any interleaving: `log.outstanding` is never
negative; commit() runs only with `log.outstanding = 0` and no call in progress; while a commit
runs, no `begin_op` admits its caller and no `log_write` happens; `end_op`'s "log.committing"
panic has not happened; every block an admitted call has written is in the header; and until a
commit returns, the header only grows, so a commit contains every update of every call that
ended before it and none of a call still in progress. -/
theorem group_commit {logstart nlog : Nat} {disk : Disk} {s : FsState ι}
    (reached : Reachable fsStep (fsInit (initlog logstart nlog disk).2) s) :
    0 ≤ s.log.outstanding ∧
    (∀ i, s.op i = .committing → s.log.outstanding = 0 ∧ ∀ j, (s.op j).isActive = false) ∧
    (s.log.committing = true → ∀ i, ((fsStep s (.begin i)).op i).isActive = false ∧
      ∀ b, fsStep s (.write i b) = s) ∧
    s.panicked ≠ some "log.committing" ∧
    (∀ i ws, s.op i = .active ws → ∀ b ∈ ws, b ∈ entries s.log.lh) ∧
    (∀ event, (∀ i, event ≠ .commitDone i) → entries s.log.lh <+: entries (fsStep s event).log.lh) := by
  have inv := inv_reachable reached
  refine ⟨by rw [inv.outstanding]; omega, fun i pc => ?_, fun busy i => ?_, inv.noEndPanic,
    fun i ws pc => (inv.written i ws pc).2.2, fun event notCommit => entries_prefix_step inv event notCommit⟩
  · have none := inv.quiet (inv.committing.mpr ⟨i, pc⟩)
    exact ⟨by rw [inv.outstanding, activeCount_of_none none]; rfl, none⟩
  · exact ⟨begin_refused inv busy i, write_refused inv busy i⟩

/-- Log admission does not prevent log overflow. In every reachable state the header's count
plus MAXOPBLOCKS for each call in progress, less what those calls have already added, stays
within LOGSIZE, so `log_write`'s test against LOGSIZE never stops a new block; but nothing bounds
the count by `log.size - 1`, the test `log_write` also makes. -/
theorem log_space_bound {logstart nlog : Nat} {disk : Disk} {s : FsState ι}
    (reached : Reachable fsStep (fsInit (initlog logstart nlog disk).2) s) :
    s.log.lh.n + reserved s.op ≤ LOGSIZE ∧
      ∀ i ws, s.op i = .active ws → ws.length < MAXOPBLOCKS → s.log.lh.n < LOGSIZE := by
  have inv := inv_reachable reached
  refine ⟨inv.space, fun i ws pc room => ?_⟩
  have mine := remaining_le_reserved s.op i
  rw [pc, OpPc.remaining_active] at mine
  have space := inv.space
  omega

end Reachable

section Mkfs

/-- The log as `initlog` leaves it on the image mkfs builds: the log area at block 2 with
`nlog` blocks, on a disk of zeros. -/
def mkfsLog (nlog : Nat) : Log := (initlog 2 nlog fun _ _ => 0).2

/-- Three calls admitted together, writing blocks 100 to 109, 110 to 119 and 120 to 128. -/
def fillEvents : List (FsEvent (Fin 3)) :=
  [.begin 0, .begin 1, .begin 2] ++ (List.range 10).map (fun k => .write 0 (100 + k)) ++
    (List.range 10).map (fun k => .write 1 (110 + k)) ++
    (List.range 9).map (fun k => .write 2 (120 + k))

/-- The state after `fillEvents` on the log mkfs formats, with `nlog = LOGSIZE`. -/
def filledState : FsState (Fin 3) := run fsStep (fsInit (mkfsLog LOGSIZE)) fillEvents

/-- With a log of 40 blocks, the three calls write all their 30 blocks. -/
def fullState : FsState (Fin 3) :=
  run fsStep (fsInit (mkfsLog 40)) (fillEvents ++ [.write 2 129])

/-- On the log mkfs formats, three admitted calls fill 29 entries: `log_space_bound`'s bound
holds, while `n + outstanding * MAXOPBLOCKS ≤ log.size - 1` does not, and call 2's tenth block makes
`log_write` panic. With a log of 40 blocks the three calls fill all 30 entries, and call 0
writing its own first block again, which would be absorbed, panics on entry. -/
theorem log_space_bound_mkfs :
    Reachable fsStep (fsInit (mkfsLog LOGSIZE)) filledState ∧
    (filledState.log.lh.n + reserved filledState.op ≤ LOGSIZE ∧
      ∀ i ws, filledState.op i = .active ws → ws.length < MAXOPBLOCKS →
        filledState.log.lh.n < LOGSIZE) ∧
    filledState.log.lh.n = 29 ∧
    filledState.log.lh.n + filledState.log.outstanding * MAXOPBLOCKS > filledState.log.size - 1 ∧
    (fsStep filledState (.write 2 129)).panicked = some "too big a transaction" ∧
    fullState.panicked = none ∧ fullState.log.lh.n = LOGSIZE ∧
    (fsStep fullState (.write 0 100)).panicked = some "too big a transaction" :=
  ⟨⟨fillEvents, rfl⟩, log_space_bound ⟨fillEvents, rfl⟩, by decide +kernel, by decide +kernel,
    by decide +kernel, by decide +kernel, by decide +kernel, by decide +kernel⟩

/-- The three calls of `fillEvents`, admitted together on the log mkfs formats, reach a state
where group commit's guarantees hold. -/
theorem group_commit_filled :
    Reachable fsStep (fsInit (mkfsLog LOGSIZE)) filledState ∧
    0 ≤ filledState.log.outstanding ∧
    (∀ i, filledState.op i = .committing →
      filledState.log.outstanding = 0 ∧ ∀ j, (filledState.op j).isActive = false) ∧
    (filledState.log.committing = true → ∀ i,
      ((fsStep filledState (.begin i)).op i).isActive = false ∧
      ∀ b, fsStep filledState (.write i b) = filledState) ∧
    filledState.panicked ≠ some "log.committing" ∧
    (∀ i ws, filledState.op i = .active ws → ∀ b ∈ ws, b ∈ entries filledState.log.lh) ∧
    (∀ event, (∀ i, event ≠ .commitDone i) →
      entries filledState.log.lh <+: entries (fsStep filledState event).log.lh) :=
  ⟨⟨fillEvents, rfl⟩, group_commit ⟨fillEvents, rfl⟩⟩

end Mkfs

end Xv6.Fs
