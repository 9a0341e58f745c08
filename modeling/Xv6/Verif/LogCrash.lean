import Xv6.Fs.Log

/-!
# Crash atomicity of the log

A crash can stop `commit()` after any of its block writes, and the recovery that `initlog` runs
at the next boot can itself be stopped after any of its writes, any number of times, before one
attempt completes. Whatever the crash points, the homes of the transaction end with all their
old contents or all their new ones, nothing outside the transaction and the log area changes,
and the header on disk is clear again; if commit completed, the new contents stay.

The proof follows the disk through three phases. Before the header write the header is clear
and no home has changed (`Before`); from the header write until the header is cleared, the
header names the transaction, the log slots hold its new contents and each home holds its old or
its new contents (`Committed`); after the clearing write every home is new (`After`). Every
write of commit and of recovery moves the disk along these phases and never out of them, and a
complete recovery ends in `Before` or `After`.
-/

namespace Xv6.Fs

open Xv6.Bytes Xv6.Crash

section Header

/-- The header block holds no transaction: its count reads 0. -/
def HeaderClear (buf : Block BSIZE) : Prop := toSigned (buf.read32 0) = 0

instance (buf : Block BSIZE) : Decidable (HeaderClear buf) := inferInstanceAs (Decidable (_ = _))

/-- The header block holds the in-memory header: the count and the first `n` block numbers. -/
def HeaderHolds (buf : Block BSIZE) (lh : LogHeader) : Prop :=
  toSigned (buf.read32 0) = lh.n ∧ ∀ i < lh.n.toNat, (buf.read32 (4 + 4 * i)).toNat = lh.block i

/-- A block number's entry of the header lies inside the block. -/
theorem entry_fits {i : Nat} (small : i < LOGSIZE) : 4 + 4 * i + 4 ≤ BSIZE := by
  unfold LOGSIZE MAXOPBLOCKS at small
  unfold BSIZE
  omega

/-- The entries that `write_head`'s loop stores: the last store to an entry is the one read. -/
theorem read32_foldl_entry (entries : List Nat) (word : Nat → UInt32)
    (small : ∀ i ∈ entries, i < LOGSIZE) (base : Block BSIZE) {j : Nat} (inRange : j < LOGSIZE) :
    (entries.foldl (fun hb i => hb.write32 (4 + 4 * i) (word i)) base).read32 (4 + 4 * j) =
      if j ∈ entries then word j else base.read32 (4 + 4 * j) := by
  induction entries generalizing base with
  | nil => simp
  | cons i entries ih =>
    rw [List.foldl_cons, ih (fun k mem => small k (List.mem_cons_of_mem _ mem))]
    by_cases later : j ∈ entries
    · simp [later]
    · by_cases same : j = i
      · subst same
        simp [Block.read32_write32_self _ _ (entry_fits inRange)]
      · have apart : 4 + 4 * j + 4 ≤ 4 + 4 * i ∨ 4 + 4 * i + 4 ≤ 4 + 4 * j := by omega
        simp [later, same, Block.read32_write32_of_apart _ _ apart]

/-- The loop over the entries leaves the count's word. -/
theorem read32_foldl_count (entries : List Nat) (word : Nat → UInt32) (base : Block BSIZE) :
    (entries.foldl (fun hb i => hb.write32 (4 + 4 * i) (word i)) base).read32 0 =
      base.read32 0 := by
  induction entries generalizing base with
  | nil => rfl
  | cons i entries ih =>
    rw [List.foldl_cons, ih, Block.read32_write32_of_apart _ _ (by omega)]

/-- `write_head`'s block holds the header it was given, when the count fits the array and the
block numbers fit an `int`'s 32 bits. -/
theorem headBlock_holds (buf : Block BSIZE) {lh : LogHeader} (low : 0 ≤ lh.n)
    (high : lh.n ≤ LOGSIZE) (small : ∀ i < lh.n.toNat, lh.block i < 2 ^ 32) :
    HeaderHolds (headBlock buf lh) lh := by
  have entries : ∀ i ∈ List.range lh.n.toNat, i < LOGSIZE := by
    intro i mem
    rw [List.mem_range] at mem
    omega
  refine ⟨?_, fun i inside => ?_⟩
  · rw [headBlock, read32_foldl_count, Block.read32_write32_self _ _ (by unfold BSIZE; omega)]
    exact toSigned_ofInt low (by unfold LOGSIZE MAXOPBLOCKS at high; omega)
  · rw [headBlock, read32_foldl_entry _ _ entries _ (by omega), if_pos (List.mem_range.mpr inside),
      UInt32.toNat_ofNat', Nat.mod_eq_of_lt (small i inside)]

/-- `write_head` of an emptied header clears the header block. -/
theorem headBlock_clear (buf : Block BSIZE) (lh : LogHeader) :
    HeaderClear (headBlock buf { lh with n := 0 }) := by
  unfold HeaderClear headBlock
  rw [read32_foldl_count, Block.read32_write32_self _ _ (by unfold BSIZE; omega)]
  rfl

/-- `read_head` of a clear header reads no blocks. -/
theorem readHead_of_clear {buf : Block BSIZE} (clear : HeaderClear buf) (lh : LogHeader) :
    (readHead buf lh).n = 0 :=
  clear

/-- `read_head` of a header block that holds a header reads back its count and its first `n`
block numbers. -/
theorem readHead_of_holds {buf : Block BSIZE} {lh : LogHeader} (holds : HeaderHolds buf lh)
    (other : LogHeader) :
    (readHead buf other).n = lh.n ∧ ∀ i < lh.n.toNat, (readHead buf other).block i = lh.block i := by
  refine ⟨holds.1, fun i inside => ?_⟩
  have counted : i < (toSigned (buf.read32 0)).toNat := by rwa [holds.1]
  simp only [readHead, if_pos counted]
  exact holds.2 i inside

end Header

section Phases

variable (log : Log) (cache : Cache) (old : Disk)

/-- The log area: the header block and the slots after it. -/
def InLogArea (b : Nat) : Prop := log.start ≤ b ∧ (b : Int) < log.start + log.size

instance (b : Nat) : Decidable (InLogArea log b) := inferInstanceAs (Decidable (_ ∧ _))

/-- A transaction that `commit()` can be called on. The count and the distinct entries are what
`log_write` keeps; the homes lie outside the log area and fit the header's 32-bit entries, and
no buffer of the log area is pinned. -/
structure Committable : Prop where
  low : 0 ≤ log.lh.n
  high : log.lh.n ≤ LOGSIZE
  room : log.lh.n < log.size
  distinct : ((List.range log.lh.n.toNat).map log.lh.block).Nodup
  away : ∀ i < log.lh.n.toNat, ¬ InLogArea log (log.lh.block i)
  small : ∀ i < log.lh.n.toNat, log.lh.block i < 2 ^ 32
  unpinned : ∀ b, InLogArea log b → cache b = none

/-- Every block that is neither a home of the transaction nor in the log area holds what it
held. -/
def Untouched (d : Disk) : Prop :=
  ∀ b, (∀ i < log.lh.n.toNat, log.lh.block i ≠ b) → ¬ InLogArea log b → d b = old b

/-- The new contents of the `i`th home: its pinned buffer. -/
abbrev newContents (i : Nat) : Block BSIZE := bread cache old (log.lh.block i)

/-- Before the commit point: header clear, homes old. -/
structure Before (d : Disk) : Prop where
  untouched : Untouched log old d
  clear : HeaderClear (d log.start)
  homes : ∀ i < log.lh.n.toNat, d (log.lh.block i) = old (log.lh.block i)

/-- Committed: the header names the transaction, the log slots hold the new contents, and each
home holds its old or its new contents. -/
structure Committed (d : Disk) : Prop where
  untouched : Untouched log old d
  header : HeaderHolds (d log.start) log.lh
  logged : ∀ i < log.lh.n.toNat, d (log.start + i + 1) = newContents log cache old i
  homes : ∀ i < log.lh.n.toNat,
    d (log.lh.block i) = old (log.lh.block i) ∨ d (log.lh.block i) = newContents log cache old i

/-- After the header is cleared: every home new. -/
structure After (d : Disk) : Prop where
  untouched : Untouched log old d
  clear : HeaderClear (d log.start)
  homes : ∀ i < log.lh.n.toNat, d (log.lh.block i) = newContents log cache old i

/-- Where a crash can leave the disk. -/
def Phase (d : Disk) : Prop := Before log old d ∨ Committed log cache old d ∨ After log cache old d

end Phases

section Writes

variable {log : Log} {cache : Cache} {old d : Disk}

theorem slot_inLogArea (tx : Committable log cache) {i : Nat} (inside : i < log.lh.n.toNat) :
    InLogArea log (log.start + i + 1) := by
  have room := tx.room
  unfold InLogArea
  omega

theorem start_inLogArea (tx : Committable log cache) : InLogArea log log.start := by
  have room := tx.room
  have low := tx.low
  unfold InLogArea
  omega

/-- A home is never the header or a slot of the log. -/
theorem home_ne_of_inLogArea (tx : Committable log cache) {i b : Nat}
    (inside : i < log.lh.n.toNat) (area : InLogArea log b) : log.lh.block i ≠ b :=
  fun same => tx.away i inside (same ▸ area)

theorem homes_injective (tx : Committable log cache) {i j : Nat} (first : i < log.lh.n.toNat)
    (second : j < log.lh.n.toNat) (same : log.lh.block i = log.lh.block j) : i = j :=
  List.inj_on_of_nodup_map tx.distinct (List.mem_range.mpr first) (List.mem_range.mpr second) same

/-- A write inside the log area leaves every block that `Untouched` speaks of. -/
theorem Untouched.update_area (untouched : Untouched log old d) {b : Nat} (area : InLogArea log b)
    (v : Block BSIZE) : Untouched log old (Function.update d b v) := by
  intro b' notHome notArea
  rw [Function.update_of_ne (by rintro rfl; exact notArea area)]
  exact untouched b' notHome notArea

/-- So does a write to a home. -/
theorem Untouched.update_home (untouched : Untouched log old d) {i : Nat}
    (inside : i < log.lh.n.toNat) (v : Block BSIZE) :
    Untouched log old (Function.update d (log.lh.block i) v) := by
  intro b' notHome notArea
  rw [Function.update_of_ne (Ne.symm (notHome i inside))]
  exact untouched b' notHome notArea

/-- A write of a log slot keeps the disk before the commit point. -/
theorem Before.update_slot (tx : Committable log cache) (before : Before log old d) {j : Nat}
    (inside : j < log.lh.n.toNat) (v : Block BSIZE) :
    Before log old (Function.update d (log.start + j + 1) v) where
  untouched := before.untouched.update_area (slot_inLogArea tx inside) v
  clear := by
    rw [Function.update_of_ne (by omega)]
    exact before.clear
  homes i home := by
    rw [Function.update_of_ne (home_ne_of_inLogArea tx home (slot_inLogArea tx inside))]
    exact before.homes i home

/-- Each write of `write_log` keeps the disk before the commit point. -/
theorem before_writeLog (tx : Committable log cache) :
    ∀ step ∈ writeLog log cache, ∀ d, Before log old d → Before log old (step.apply d) := by
  intro step mem d before
  obtain ⟨j, inside, applies⟩ := apply_of_mem_copies mem
  rw [applies]
  exact before.update_slot tx (List.mem_range.mp inside) _

/-- After `write_log`, each slot holds its block's new contents. A slot is never a home, so the
reads of the homes see the disk before write_log. -/
theorem writeLog_logged (tx : Committable log cache) {i : Nat} (inside : i < log.lh.n.toNat) :
    exec (writeLog log cache) old (log.start + i + 1) = newContents log cache old i := by
  have distinct : ((List.range log.lh.n.toNat).map fun tail => log.start + tail + 1).Nodup :=
    List.Nodup.map (fun a b same => by omega) List.nodup_range
  apply exec_copies_target distinct _ (List.mem_range.mpr inside)
  intro k home j slot store v
  rw [bread, bread, Function.update_of_ne (home_ne_of_inLogArea tx (List.mem_range.mp home)
    (slot_inLogArea tx (List.mem_range.mp slot)))]

/-- The commit point: `write_head` of the transaction's header, once every slot holds its new
contents. -/
theorem committed_writeHead (tx : Committable log cache) (before : Before log old d)
    (logged : ∀ i < log.lh.n.toNat, d (log.start + i + 1) = newContents log cache old i) :
    Committed log cache old ((writeHead log cache).apply d) where
  untouched := before.untouched.update_area (start_inLogArea tx) _
  header := by
    simp only [Step.apply, writeHead, Function.update_self]
    exact headBlock_holds _ tx.low tx.high tx.small
  logged i inside := by
    simp only [Step.apply, writeHead]
    rw [Function.update_of_ne (by omega)]
    exact logged i inside
  homes i inside := by
    simp only [Step.apply, writeHead]
    rw [Function.update_of_ne (home_ne_of_inLogArea tx inside (start_inLogArea tx))]
    exact Or.inl (before.homes i inside)

variable {reader : Cache}

/-- Each write of `install_trans`, with no buffer of the log area pinned, keeps the disk
committed: the home it writes takes the new contents from its slot. -/
theorem committed_installTrans (tx : Committable log cache)
    (unpinned : ∀ b, InLogArea log b → reader b = none) :
    ∀ step ∈ installTrans log reader, ∀ d, Committed log cache old d →
      Committed log cache old (step.apply d) := by
  intro step mem d committed
  obtain ⟨j, inRange, applies⟩ := apply_of_mem_copies mem
  have inside := List.mem_range.mp inRange
  have fromSlot : bread reader d (log.start + j + 1) = newContents log cache old j := by
    rw [bread, unpinned _ (slot_inLogArea tx inside), Option.getD_none]
    exact committed.logged j inside
  rw [applies, fromSlot]
  exact {
    untouched := committed.untouched.update_home inside _
    header := by
      rw [Function.update_of_ne (home_ne_of_inLogArea tx inside (start_inLogArea tx)).symm]
      exact committed.header
    logged := fun i slot => by
      rw [Function.update_of_ne (home_ne_of_inLogArea tx inside (slot_inLogArea tx slot)).symm]
      exact committed.logged i slot
    homes := fun i home => by
      by_cases same : i = j
      · subst same
        exact Or.inr (Function.update_self _ _ _)
      · rw [Function.update_of_ne (fun equal => same (homes_injective tx home inside equal))]
        exact committed.homes i home }

/-- After `install_trans` every home holds its new contents. A home is never a slot, so the reads of
the slots see the disk before install_trans. -/
theorem installTrans_homes (tx : Committable log cache)
    (unpinned : ∀ b, InLogArea log b → reader b = none) (committed : Committed log cache old d)
    {i : Nat} (inside : i < log.lh.n.toNat) :
    exec (installTrans log reader) d (log.lh.block i) = newContents log cache old i := by
  have distinct : ((List.range log.lh.n.toNat).map log.lh.block).Nodup := tx.distinct
  rw [installTrans, exec_copies_target distinct _ (List.mem_range.mpr inside), bread,
    unpinned _ (slot_inLogArea tx inside), Option.getD_none]
  · exact committed.logged i inside
  intro k slot j home store v
  rw [bread, bread, Function.update_of_ne (home_ne_of_inLogArea tx (List.mem_range.mp home)
    (slot_inLogArea tx (List.mem_range.mp slot))).symm]

/-- Clearing the header keeps a disk before the commit point there. -/
theorem before_clear (tx : Committable log cache) (before : Before log old d) (other : Log)
    (same : other.start = log.start) :
    Before log old ((writeHead other.cleared reader).apply d) where
  untouched := by
    simp only [Step.apply, writeHead, Log.cleared_start, same]
    exact before.untouched.update_area (start_inLogArea tx) _
  clear := by
    simp only [Step.apply, writeHead, Log.cleared_start, same, Function.update_self]
    exact headBlock_clear _ _
  homes i inside := by
    simp only [Step.apply, writeHead, Log.cleared_start, same]
    rw [Function.update_of_ne (home_ne_of_inLogArea tx inside (start_inLogArea tx))]
    exact before.homes i inside

/-- Clearing the header once every home is new ends the transaction. -/
theorem after_clear (tx : Committable log cache) (untouched : Untouched log old d)
    (homes : ∀ i < log.lh.n.toNat, d (log.lh.block i) = newContents log cache old i)
    (other : Log) (same : other.start = log.start) :
    After log cache old ((writeHead other.cleared reader).apply d) where
  untouched := by
    simp only [Step.apply, writeHead, Log.cleared_start, same]
    exact untouched.update_area (start_inLogArea tx) _
  clear := by
    simp only [Step.apply, writeHead, Log.cleared_start, same, Function.update_self]
    exact headBlock_clear _ _
  homes i inside := by
    simp only [Step.apply, writeHead, Log.cleared_start, same]
    rw [Function.update_of_ne (home_ne_of_inLogArea tx inside (start_inLogArea tx))]
    exact homes i inside

end Writes

section Commit

variable {log : Log} {cache : Cache} {old : Disk}

/-- The disk commit() starts on is before the commit point, when its header is clear. -/
theorem before_old (clear : HeaderClear (old log.start)) : Before log old old :=
  ⟨fun _ _ _ => rfl, clear, fun _ _ => rfl⟩

/-- What the stages of a commit with blocks leave: the writes to the log keep the disk before
the commit point with every slot filled, the header write commits, and the writes home keep it
committed with every home new. -/
theorem commit_stages (tx : Committable log cache) (clear : HeaderClear (old log.start)) :
    Before log old (exec (writeLog log cache) old) ∧
      (∀ i < log.lh.n.toNat,
        exec (writeLog log cache) old (log.start + i + 1) = newContents log cache old i) ∧
      Committed log cache old (exec (writeLog log cache ++ [writeHead log cache]) old) ∧
      Committed log cache old
        (exec (writeLog log cache ++ [writeHead log cache] ++ installTrans log cache) old) ∧
      ∀ i < log.lh.n.toNat,
        exec (writeLog log cache ++ [writeHead log cache] ++ installTrans log cache) old
          (log.lh.block i) = newContents log cache old i := by
  have written : Before log old (exec (writeLog log cache) old) :=
    exec_of_keeps (before_writeLog tx) (before_old clear)
  have logged : ∀ i < log.lh.n.toNat,
      exec (writeLog log cache) old (log.start + i + 1) = newContents log cache old i :=
    fun i inside => writeLog_logged tx inside
  have committed : Committed log cache old (exec (writeLog log cache ++ [writeHead log cache]) old) := by
    rw [exec_append, exec_cons, exec_nil]
    exact committed_writeHead tx written logged
  refine ⟨written, logged, committed, ?_, ?_⟩
  · rw [exec_append]
    exact exec_of_keeps (committed_installTrans tx tx.unpinned) committed
  · rw [exec_append]
    exact fun i inside => installTrans_homes tx tx.unpinned committed inside

/-- A crash at any point of commit() leaves the disk in one of the phases. The program splits at its
four stages, and each stage's prefixes stay in a phase. -/
theorem commit_phase (tx : Committable log cache) (clear : HeaderClear (old log.start))
    (count : Nat) : Phase log cache old (exec ((commit log cache).1.take count) old) := by
  unfold commit
  split
  · obtain ⟨written, logged, committed, installed, homes⟩ := commit_stages tx clear
    refine exec_take_append_of_prefixes (fun count => ?_) (fun count => ?_) count
    · refine exec_take_append_of_prefixes (fun count => ?_) (fun count => ?_) count
      · refine exec_take_append_of_prefixes (fun count => ?_) (fun count => ?_) count
        · exact Or.inl (exec_take_of_keeps (before_writeLog tx) count (before_old clear))
        · rcases exec_take_singleton (writeHead log cache) count (exec (writeLog log cache) old)
            with same | headed
          · rw [same]
            exact Or.inl written
          · rw [headed]
            exact Or.inr (Or.inl (committed_writeHead tx written logged))
      · exact Or.inr (Or.inl (exec_take_of_keeps (committed_installTrans tx tx.unpinned) count
          committed))
    · rcases exec_take_singleton (writeHead log.cleared cache) count _ with same | cleared
      · rw [same]
        exact Or.inr (Or.inl installed)
      · rw [cleared]
        exact Or.inr (Or.inr (after_clear tx installed.untouched homes log rfl))
  · exact Or.inl (by simpa using before_old clear)

/-- A commit that completes leaves every home new and the header clear. -/
theorem commit_after (tx : Committable log cache) (clear : HeaderClear (old log.start)) :
    After log cache old (exec (commit log cache).1 old) := by
  unfold commit
  split
  · obtain ⟨-, -, -, installed, homes⟩ := commit_stages tx clear
    rw [exec_append, exec_cons, exec_nil]
    exact after_clear tx installed.untouched homes log rfl
  · have empty : log.lh.n.toNat = 0 := by omega
    exact ⟨fun _ _ _ => rfl, clear, fun i inside => absurd inside (by omega)⟩

end Commit

section Recovery

variable {log : Log} {cache : Cache} {old d : Disk}

/-- `install_trans` depends on the log area's start and the first `n` entries only. -/
theorem installTrans_congr {other : Log} (start : other.start = log.start)
    (count : other.lh.n = log.lh.n)
    (blocks : ∀ i < log.lh.n.toNat, other.lh.block i = log.lh.block i) (reader : Cache) :
    installTrans other reader = installTrans log reader := by
  unfold installTrans copies
  rw [count, start]
  apply List.map_congr_left
  intro i mem
  dsimp only
  rw [blocks i (List.mem_range.mp mem)]

/-- The steps of the recovery that `initlog` runs on a disk. -/
theorem initlog_steps (logstart nlog : Nat) (d : Disk) :
    (initlog logstart nlog d).1 =
      installTrans ((bootLog logstart nlog).withDiskHead d) emptyCache ++
        [writeHead ((bootLog logstart nlog).withDiskHead d).cleared emptyCache] :=
  rfl

/-- On a clear header, recovery only clears the header again. -/
theorem initlog_of_clear (nlog : Nat) (clear : HeaderClear (d log.start)) :
    (initlog log.start nlog d).1 =
      [writeHead ((bootLog log.start nlog).withDiskHead d).cleared emptyCache] := by
  have nothing : ((bootLog log.start nlog).withDiskHead d).lh.n = 0 := readHead_of_clear clear _
  rw [initlog_steps]
  simp [installTrans, copies, nothing]

/-- On a header that holds the transaction, recovery installs it and clears the header. -/
theorem initlog_of_committed (nlog : Nat) (holds : HeaderHolds (d log.start) log.lh) :
    (initlog log.start nlog d).1 =
      installTrans log emptyCache ++
        [writeHead ((bootLog log.start nlog).withDiskHead d).cleared emptyCache] := by
  obtain ⟨count, blocks⟩ := readHead_of_holds holds (bootLog log.start nlog).lh
  rw [initlog_steps, @installTrans_congr log ((bootLog log.start nlog).withDiskHead d) rfl count blocks emptyCache]

/-- A stopped or complete recovery keeps a disk before the commit point there. -/
theorem before_recovery (tx : Committable log cache) (before : Before log old d) (nlog count : Nat) :
    Before log old (exec ((initlog log.start nlog d).1.take count) d) := by
  rw [initlog_of_clear nlog before.clear]
  rcases exec_take_singleton (writeHead _ emptyCache) count d with same | cleared
  · rw [same]
    exact before
  · rw [cleared]
    exact before_clear tx before _ rfl

/-- A stopped or complete recovery keeps a disk after the transaction there. -/
theorem after_recovery (tx : Committable log cache) (after : After log cache old d) (nlog count : Nat) :
    After log cache old (exec ((initlog log.start nlog d).1.take count) d) := by
  rw [initlog_of_clear nlog after.clear]
  rcases exec_take_singleton (writeHead _ emptyCache) count d with same | cleared
  · rw [same]
    exact after
  · rw [cleared]
    exact after_clear tx after.untouched after.homes _ rfl

/-- A recovery of a committed disk installs the transaction again from its slots: stopped, it
leaves the disk committed or after; complete, after. -/
theorem committed_recovery (tx : Committable log cache) (committed : Committed log cache old d)
    (nlog count : Nat) :
    Phase log cache old (exec ((initlog log.start nlog d).1.take count) d) ∧
      After log cache old (exec (initlog log.start nlog d).1 d) := by
  have unpinned : ∀ b, InLogArea log b → emptyCache b = none := fun _ _ => rfl
  have installed : Committed log cache old (exec (installTrans log emptyCache) d) :=
    exec_of_keeps (committed_installTrans tx unpinned) committed
  have homes : ∀ i < log.lh.n.toNat,
      exec (installTrans log emptyCache) d (log.lh.block i) = newContents log cache old i :=
    fun i inside => installTrans_homes tx unpinned committed inside
  rw [initlog_of_committed nlog committed.header]
  refine ⟨exec_take_append_of_prefixes (fun count => ?_) (fun count => ?_) count, ?_⟩
  · exact Or.inr (Or.inl (exec_take_of_keeps (committed_installTrans tx unpinned) count committed))
  · rcases exec_take_singleton (writeHead _ emptyCache) count _ with same | cleared
    · rw [same]
      exact Or.inr (Or.inl installed)
    · rw [cleared]
      exact Or.inr (Or.inr (after_clear tx installed.untouched homes _ rfl))
  · rw [exec_append, exec_cons, exec_nil]
    exact after_clear tx installed.untouched homes _ rfl

/-- Every stopped recovery keeps the disk in a phase. -/
theorem recovery_phase (tx : Committable log cache) (nlog : Nat) (d : Disk)
    (count : Nat) (phase : Phase log cache old d) :
    Phase log cache old (exec ((initlog log.start nlog d).1.take count) d) := by
  rcases phase with before | committed | after
  · exact Or.inl (before_recovery tx before nlog count)
  · exact (committed_recovery tx committed nlog count).1
  · exact Or.inr (Or.inr (after_recovery tx after nlog count))

/-- A complete recovery ends before or after the transaction. -/
theorem recovery_done (tx : Committable log cache) (nlog : Nat) (d : Disk)
    (phase : Phase log cache old d) :
    Before log old (exec (initlog log.start nlog d).1 d) ∨
      After log cache old (exec (initlog log.start nlog d).1 d) := by
  have whole : ∀ program : List (Step Nat (Block BSIZE)), program.take program.length = program :=
    fun program => List.take_length
  rcases phase with before | committed | after
  · exact Or.inl (by simpa [whole] using before_recovery tx before nlog (initlog log.start nlog d).1.length)
  · exact Or.inr (committed_recovery tx committed nlog 0).2
  · exact Or.inr (by simpa [whole] using after_recovery tx after nlog (initlog log.start nlog d).1.length)

end Recovery

/-- The disk after commit() crashed after `count` of its writes, the recovery at each later
boot crashed after each count of `crashes` in turn, and the last recovery completed. -/
def afterCrash (log : Log) (cache : Cache) (old : Disk) (count : Nat) (crashes : List Nat) : Disk :=
  recover (fun disk => (initlog log.start log.size.toNat disk).1) crashes
    (exec ((commit log cache).1.take count) old)

/-- The write-ahead log makes a transaction crash-atomic. For a transaction that commit() can be
called on, on a disk whose header is clear: wherever commit() crashes and however often the
recovery at boot crashes before one attempt completes, the homes of the transaction hold all
their old contents or all their new ones, every block outside the transaction and the log area
holds what it held, and the header is clear; a commit that completed keeps the new contents. -/
theorem commit_crash_atomic {log : Log} {cache : Cache} {old : Disk}
    (tx : Committable log cache) (clear : HeaderClear (old log.start)) (count : Nat)
    (crashes : List Nat) :
    ((∀ i < log.lh.n.toNat,
        afterCrash log cache old count crashes (log.lh.block i) = old (log.lh.block i)) ∨
      ∀ i < log.lh.n.toNat,
        afterCrash log cache old count crashes (log.lh.block i) = bread cache old (log.lh.block i)) ∧
    (∀ b, (∀ i < log.lh.n.toNat, log.lh.block i ≠ b) → ¬ InLogArea log b →
      afterCrash log cache old count crashes b = old b) ∧
    HeaderClear (afterCrash log cache old count crashes log.start) ∧
    ((commit log cache).1.length ≤ count → ∀ i < log.lh.n.toNat,
      afterCrash log cache old count crashes (log.lh.block i) = bread cache old (log.lh.block i)) := by
  have ends : Before log old (afterCrash log cache old count crashes) ∨
      After log cache old (afterCrash log cache old count crashes) := by
    unfold afterCrash
    exact @recover_of_prefixes _ _ _ _ (Phase log cache old)
      (fun d => Before log old d ∨ After log cache old d)
      (fun d count phase => recovery_phase tx log.size.toNat d count phase)
      (fun d phase => recovery_done tx log.size.toNat d phase) crashes _ (commit_phase tx clear count)
  have durable : (commit log cache).1.length ≤ count →
      After log cache old (afterCrash log cache old count crashes) := by
    intro completed
    have committed : After log cache old (exec ((commit log cache).1.take count) old) := by
      rw [List.take_of_length_le completed]
      exact commit_after tx clear
    unfold afterCrash
    exact @recover_of_prefixes _ _ _ _ (After log cache old) (After log cache old)
      (fun d count after => after_recovery tx after log.size.toNat count)
      (fun d after => by
        simpa using after_recovery tx after log.size.toNat (initlog log.start log.size.toNat d).1.length)
      crashes _ committed
  refine ⟨?_, ?_, ?_, fun completed => (durable completed).homes⟩
  · rcases ends with before | after
    · exact Or.inl before.homes
    · exact Or.inr after.homes
  · rcases ends with before | after
    · exact before.untouched
    · exact after.untouched
  · rcases ends with before | after
    · exact before.clear
    · exact after.clear

section Sample

/-- Two blocks, 40 and 41, logged in a log area of 30 blocks from block 2, both pinned. -/
def sampleLog : Log :=
  { start := 2, size := 30, outstanding := 0, committing := true
    lh := { n := 2, block := fun i => 40 + i } }

/-- The pinned buffers of the two blocks. -/
def sampleCache : Cache := fun b => if b = 40 ∨ b = 41 then some fun _ => 7 else none

/-- A disk of zero bytes, whose header is clear. -/
def zeroDisk : Disk := fun _ _ => 0

theorem sampleLog_committable : Committable sampleLog sampleCache where
  low := by decide
  high := by decide
  room := by decide
  distinct := by decide
  away := by decide
  small := by decide
  unpinned b area := by
    have inside : 2 ≤ b ∧ b < 32 := by
      unfold InLogArea sampleLog at area
      dsimp only at area
      omega
    simp only [sampleCache, ite_eq_right_iff, reduceCtorEq, imp_false]
    omega

/-- commit() of the two blocks crashes after its header write; the recovery at the next boot
crashes after one write and the one after that after none; the third completes. -/
theorem commit_crash_atomic_sample :
    Committable sampleLog sampleCache ∧ HeaderClear (zeroDisk sampleLog.start) ∧
    (((∀ i < sampleLog.lh.n.toNat, afterCrash sampleLog sampleCache zeroDisk 3 [1, 0]
          (sampleLog.lh.block i) = zeroDisk (sampleLog.lh.block i)) ∨
        ∀ i < sampleLog.lh.n.toNat, afterCrash sampleLog sampleCache zeroDisk 3 [1, 0]
          (sampleLog.lh.block i) = bread sampleCache zeroDisk (sampleLog.lh.block i)) ∧
      (∀ b, (∀ i < sampleLog.lh.n.toNat, sampleLog.lh.block i ≠ b) → ¬ InLogArea sampleLog b →
        afterCrash sampleLog sampleCache zeroDisk 3 [1, 0] b = zeroDisk b) ∧
      HeaderClear (afterCrash sampleLog sampleCache zeroDisk 3 [1, 0] sampleLog.start) ∧
      ((commit sampleLog sampleCache).1.length ≤ 3 → ∀ i < sampleLog.lh.n.toNat,
        afterCrash sampleLog sampleCache zeroDisk 3 [1, 0] (sampleLog.lh.block i) =
          bread sampleCache zeroDisk (sampleLog.lh.block i))) :=
  ⟨sampleLog_committable, by decide,
    commit_crash_atomic sampleLog_committable (by decide) 3 [1, 0]⟩

end Sample

end Xv6.Fs
