import Xv6.Lib.Bytes
import Xv6.Lib.Crash

/-!
# The write-ahead log

`log.c` keeps one transaction in memory: the header `lh`, with the count `n` and the home block
numbers of the logged blocks, whose new contents stay in the buffer cache, pinned by B_DIRTY.
`commit()` copies them into the log area, writes the header block (the commit point), installs
them at their homes and clears the header; `recover_from_log()`, at boot, reads the header from
disk and installs what it names.

The disk maps block numbers to blocks of BSIZE bytes. Each `iderw` is one atomic step of a
`Crash` program, computed from the disk as it stands when the step is issued, so a crash can
stop commit or recovery between any two block writes. The header block holds
`struct logheader`: the `int` n at byte 0 and the `int` block numbers from byte 4 on.

`begin_op`, `end_op` and `log_write` are the bookkeeping on the in-memory log under
`log.lock`: admission against LOGSIZE, the count of outstanding operations, the committing
flag, and absorption of repeated writes to one block.
-/

namespace Xv6.Fs

open Xv6.Bytes Xv6.Crash

/-- Block size. -/
def BSIZE : Nat := 512

/-- Most blocks any FS operation writes. -/
def MAXOPBLOCKS : Nat := 10

/-- Most data blocks in the on-disk log. -/
def LOGSIZE : Nat := MAXOPBLOCKS * 3

/-- The disk: a block of BSIZE bytes at every block number. -/
abbrev Disk := Nat → Block BSIZE

/-- The buffer cache as the log uses it: the contents of the buffers pinned with B_DIRTY. A
block with no pinned buffer reads as the disk holds it. -/
abbrev Cache := Nat → Option (Block BSIZE)

/-- The cache after a reboot: nothing pinned. -/
def emptyCache : Cache := fun _ => none

/-- `bread`: a pinned buffer's contents, or the block as the disk holds it. -/
def bread (cache : Cache) (disk : Disk) (blockno : Nat) : Block BSIZE :=
  (cache blockno).getD (disk blockno)

/-- `struct logheader` in memory: the count and the block numbers, of which the first `n`
are meaningful. -/
structure LogHeader where
  n : Int
  block : Nat → Nat

/-- `struct log`, without the lock and the device number of the single disk. -/
structure Log where
  start : Nat
  size : Int
  outstanding : Int
  committing : Bool
  lh : LogHeader

/-- The log with its in-memory header emptied, as `log.lh.n = 0` leaves it. -/
def Log.cleared (log : Log) : Log := { log with lh := { log.lh with n := 0 } }

@[simp] theorem Log.cleared_start (log : Log) : log.cleared.start = log.start := rfl

@[simp] theorem Log.cleared_n (log : Log) : log.cleared.lh.n = 0 := rfl

section Disk

/-- The header buffer after `write_head` has stored `n` and the first `n` block numbers into it;
the rest of the buffer is as it was read. -/
def headBlock (buf : Block BSIZE) (lh : LogHeader) : Block BSIZE :=
  (List.range lh.n.toNat).foldl (fun hb i => hb.write32 (4 + 4 * i) (UInt32.ofNat (lh.block i)))
    (buf.write32 0 (UInt32.ofInt lh.n))

/-- `read_head`: the count from the header block, and the first `n` block numbers; the other
entries of the in-memory array keep what they held. -/
def readHead (buf : Block BSIZE) (lh : LogHeader) : LogHeader :=
  let n := toSigned (buf.read32 0)
  { n := n
    block := fun i => if i < n.toNat then (buf.read32 (4 + 4 * i)).toNat else lh.block i }

/-- `write_log`: each logged block, as `bread` returns it, goes to its slot in the log. -/
def writeLog (log : Log) (cache : Cache) : List (Step Nat (Block BSIZE)) :=
  copies (List.range log.lh.n.toNat) (fun tail => log.start + tail + 1)
    fun tail disk => bread cache disk (log.lh.block tail)

/-- `write_head`: the header block with the in-memory header, one block write. -/
def writeHead (log : Log) (cache : Cache) : Step Nat (Block BSIZE) :=
  fun disk => (log.start, headBlock (bread cache disk log.start) log.lh)

/-- `install_trans`: each slot of the log goes to its block's home. -/
def installTrans (log : Log) (cache : Cache) : List (Step Nat (Block BSIZE)) :=
  copies (List.range log.lh.n.toNat) (fun tail => log.lh.block tail)
    fun tail disk => bread cache disk (log.start + tail + 1)

/-- `commit()`: the block writes in the order it issues them, and the log after them. -/
def commit (log : Log) (cache : Cache) : List (Step Nat (Block BSIZE)) × Log :=
  if log.lh.n > 0 then
    (writeLog log cache ++ [writeHead log cache] ++ installTrans log cache ++
      [writeHead log.cleared cache], log.cleared)
  else ([], log)

/-- The log after `read_head()` on the disk as it stands, with nothing cached. -/
def Log.withDiskHead (log : Log) (disk : Disk) : Log :=
  { log with lh := readHead (bread emptyCache disk log.start) log.lh }

/-- `recover_from_log()` on the disk as it stands at boot: the header is read, what it names is
installed, and the header is cleared. -/
def recoverFromLog (log : Log) (disk : Disk) : List (Step Nat (Block BSIZE)) × Log :=
  let log := log.withDiskHead disk
  (installTrans log emptyCache ++ [writeHead log.cleared emptyCache], log.cleared)

/-- The log as `initlog()` sets it up: the log area from the superblock, the rest of
`struct log` zeroed. -/
def bootLog (logstart nlog : Nat) : Log :=
  { start := logstart, size := nlog, outstanding := 0, committing := false
    lh := { n := 0, block := fun _ => 0 } }

/-- `initlog()`: recovery with the log area of the superblock. -/
def initlog (logstart nlog : Nat) (disk : Disk) : List (Step Nat (Block BSIZE)) × Log :=
  recoverFromLog (bootLog logstart nlog) disk

end Disk

section Ops

/-- One test of `begin_op`'s loop: the caller is admitted and counted, or sleeps on the log
(none) while a commit runs or the log might run out of space. -/
def beginOp (log : Log) : Option Log :=
  if log.committing then none
  else if log.lh.n + (log.outstanding + 1) * MAXOPBLOCKS > LOGSIZE then none
  else some { log with outstanding := log.outstanding + 1 }

/-- `end_op` under the lock: the count goes down, and the last operation to end sets the
committing flag and is the one to commit (true). -/
def endOp (log : Log) : Except String (Log × Bool) :=
  let log := { log with outstanding := log.outstanding - 1 }
  if log.committing then .error "log.committing"
  else if log.outstanding = 0 then .ok ({ log with committing := true }, true)
  else .ok (log, false)

/-- The end of `end_op` for the committing caller: after `commit()`, the flag is cleared. -/
def endCommit (log : Log) : Log := { log with committing := false }

/-- The index `log_write`'s loop stops at: the entry for the block, or `n`. -/
def absorbIndex (lh : LogHeader) (blockno : Nat) : Nat :=
  ((List.range lh.n.toNat).find? fun i => lh.block i = blockno).getD lh.n.toNat

/-- `log_write`: the two panics, then the block's entry is found (absorption) or appended. -/
def logWrite (log : Log) (blockno : Nat) : Except String Log :=
  if log.lh.n ≥ LOGSIZE ∨ log.lh.n ≥ log.size - 1 then .error "too big a transaction"
  else if log.outstanding < 1 then .error "log_write outside of trans"
  else
    let i := absorbIndex log.lh blockno
    .ok { log with
      lh := { n := if (i : Int) = log.lh.n then log.lh.n + 1 else log.lh.n
              block := Function.update log.lh.block i blockno } }

end Ops

end Xv6.Fs
