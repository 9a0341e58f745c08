import Xv6.Fs.Log
import Xv6.Lib.DList

/-!
# The buffer cache and the disk driver

`bio.c` keeps NBUF buffers on a circular doubly-linked list through `prev` and `next`, with
`bcache.head` as its sentinel and the most recently released buffer first. `bget` looks a block
up from the front and, when it is not cached, recycles from the back a buffer that is
unreferenced and not B_DIRTY; `brelse` moves a buffer whose count drops to 0 to the front.
`ide.c` queues requests on `idequeue`; the interrupt for the request at its head writes a
B_DIRTY buffer to disk or reads the block into a clean one, then sets B_VALID and clears
B_DIRTY. `log_write` pins a buffer in the cache by setting B_DIRTY.

Processes act on the cache one critical section at a time: `bget` under `bcache.lock`, the
acquisition of a buffer's sleep lock followed by `bread`'s B_VALID test, one test of `iderw`'s
wait loop, an interrupt, and `brelse`. A pointer is an `Option (Fin NBUF)`, with none for
`&bcache.head`; the pointers of the buffers read as none until `binit` links them. `idestart`
sends a B_DIRTY buffer's data with its write command; as the buffer's holder sleeps until the
interrupt, the model moves the data to the disk at the interrupt. The disk maps a device and
a block number to the block; `idestart` selects drive `dev & 1`, and the kernel names only
devices 0 and 1.

Three fields are ghost state, which no code reads: `mem`, the contents last written to each
block through the cache; `modified`, set when a holder changes a buffer's data and cleared by
`log_write` or `bwrite`; and `pinned`, set by `log_write` and cleared when a write of the buffer
reaches the disk.
-/

namespace Xv6.Fs

open Xv6.DList

/-- Size of disk block cache. -/
def NBUF : Nat := MAXOPBLOCKS * 3

instance : NeZero NBUF := ⟨by decide⟩

/-- Size of file system in blocks. -/
def FSSIZE : Nat := 1000

/-- A buffer, or `&bcache.head` as none. -/
abbrev BufPtr := Option (Fin NBUF)

/-- The fields of `struct buf` apart from the list pointers, the sleep lock and the queue link. -/
structure Buf (β : Type) where
  /-- B_VALID: the data has been read from disk. -/
  valid : Bool
  /-- B_DIRTY: the data needs to be written to disk. -/
  dirty : Bool
  dev : Nat
  blockno : Nat
  refcnt : Nat
  data : β

/-- The block a buffer is for. -/
def Buf.key {β : Type} (buf : Buf β) : Nat × Nat := (buf.dev, buf.blockno)

/-- Where a process stands in the cache's code. -/
inductive BufPc
  /-- Outside it. -/
  | idle
  /-- In `acquiresleep`, after `bget` counted the buffer. -/
  | acquiring (b : Fin NBUF)
  /-- In `iderw`'s wait loop. -/
  | waiting (b : Fin NBUF)
  deriving DecidableEq, Repr

/-- `bcache`, the disk queue and the disk, the log, and the processes. -/
structure BCache (ι β : Type) where
  buf : Fin NBUF → Buf β
  next : BufPtr → BufPtr
  prev : BufPtr → BufPtr
  /-- The holder of each buffer's sleep lock. -/
  locked : Fin NBUF → Option ι
  idequeue : List (Fin NBUF)
  havedisk1 : Bool
  disk : Nat × Nat → β
  log : Log
  pc : ι → BufPc
  panicked : Option String
  mem : Nat × Nat → β
  modified : Fin NBUF → Bool
  pinned : Fin NBUF → Bool

/-- What processes do to the cache. -/
inductive BufEvent (ι β : Type)
  /-- `bread`: `bget`'s critical section. -/
  | bread (p : ι) (dev blockno : Nat)
  /-- `acquiresleep` on the buffer `bget` returned, then `bread`'s B_VALID test. -/
  | acquire (p : ι)
  /-- One test of `iderw`'s wait loop. -/
  | wake (p : ι)
  | ideintr
  /-- The holder of a buffer changes its data. -/
  | modify (p : ι) (b : Fin NBUF) (data : β)
  | bwrite (p : ι) (b : Fin NBUF)
  | logWrite (p : ι) (b : Fin NBUF)
  | brelse (p : ι) (b : Fin NBUF)
  | beginOp
  | endOp
  /-- `commit()` returns to `end_op`, which clears the committing flag. -/
  | commitDone

namespace BCache

variable {ι β : Type}

/-- `panic`: the system stops. -/
@[simp] def panic (s : BCache ι β) (message : String) : BCache ι β :=
  { s with panicked := some message }

/-- The state with one buffer's fields replaced. -/
@[simp] def setBuf (s : BCache ι β) (b : Fin NBUF) (buf : Buf β) : BCache ι β :=
  { s with buf := Function.update s.buf b buf }

/-- The state with a process at a new place. -/
@[simp] def setPc [DecidableEq ι] (s : BCache ι β) (p : ι) (pc : BufPc) : BCache ι β :=
  { s with pc := Function.update s.pc p pc }

/-- One `next` pointer assigned. -/
@[simp] def setNext (s : BCache ι β) (x v : BufPtr) : BCache ι β :=
  { s with next := Function.update s.next x v }

/-- One `prev` pointer assigned. -/
@[simp] def setPrev (s : BCache ι β) (x v : BufPtr) : BCache ι β :=
  { s with prev := Function.update s.prev x v }

/-- `b->next = bcache.head.next; b->prev = &bcache.head; bcache.head.next->prev = b;
bcache.head.next = b;` -/
def pushFront (s : BCache ι β) (b : Fin NBUF) : BCache ι β :=
  let s := s.setNext (some b) (s.next none)
  let s := s.setPrev (some b) none
  let s := s.setPrev (s.next none) (some b)
  s.setNext none (some b)

/-- `b->next->prev = b->prev; b->prev->next = b->next;` -/
def unlink (s : BCache ι β) (b : Fin NBUF) : BCache ι β :=
  let s := s.setPrev (s.next (some b)) (s.prev (some b))
  s.setNext (s.prev (some b)) (s.next (some b))

@[simp] theorem pushFront_next (s : BCache ι β) (b : Fin NBUF) :
    (s.pushFront b).next =
      Function.update (Function.update s.next (some b) (s.next none)) none (some b) := by
  simp [pushFront]

@[simp] theorem pushFront_prev (s : BCache ι β) (b : Fin NBUF) :
    (s.pushFront b).prev =
      Function.update (Function.update s.prev (some b) none) (s.next none) (some b) := by
  simp [pushFront]

@[simp] theorem unlink_next (s : BCache ι β) (b : Fin NBUF) :
    (s.unlink b).next = Function.update s.next (s.prev (some b)) (s.next (some b)) := by
  simp only [unlink, setNext, setPrev]
  congr 1
  by_cases same : some b = s.next (some b) <;> simp [Function.update_apply]

@[simp] theorem unlink_prev (s : BCache ι β) (b : Fin NBUF) :
    (s.unlink b).prev = Function.update s.prev (s.next (some b)) (s.prev (some b)) := by
  simp [unlink]

/-- `bget`'s first loop: the cached buffer for the block, from the most recently used on. -/
def lookup (s : BCache ι β) (dev blockno : Nat) : Option (Fin NBUF) :=
  scan s.next (fun b => (s.buf b).dev == dev && (s.buf b).blockno == blockno) NBUF (s.next none)

/-- `bget`'s second loop: an unreferenced buffer that is not B_DIRTY, from the least recently
used on. -/
def victim (s : BCache ι β) : Option (Fin NBUF) :=
  scan s.prev (fun b => (s.buf b).refcnt == 0 && !(s.buf b).dirty) NBUF (s.prev none)

end BCache

open BCache

variable {ι β : Type} [DecidableEq ι]

/-- `binit`: the head links to itself and every buffer is pushed in front in turn. -/
def binit (s : BCache ι β) : BCache ι β :=
  (List.finRange NBUF).foldl pushFront ((s.setPrev none none).setNext none none)

/-- The cache as `binit` leaves it: static storage is zero, no process is in the cache's code,
and nothing has been written through it. -/
def bootCache (disk : Nat × Nat → β) (log : Log) (havedisk1 : Bool) (zero : β) : BCache ι β :=
  binit { buf := fun _ => { valid := false, dirty := false, dev := 0, blockno := 0, refcnt := 0,
                            data := zero }
          next := fun _ => none, prev := fun _ => none, locked := fun _ => none, idequeue := [],
          havedisk1 := havedisk1, disk := disk, log := log, pc := fun _ => .idle,
          panicked := none, mem := disk, modified := fun _ => false, pinned := fun _ => false }

/-- `bget`'s critical section for process `p`: the cached buffer is counted, or an unused one is
recycled for the block; `p` goes on to acquire it. -/
def bget (s : BCache ι β) (p : ι) (dev blockno : Nat) : BCache ι β :=
  match s.lookup dev blockno with
  | some b => (s.setBuf b { s.buf b with refcnt := (s.buf b).refcnt + 1 }).setPc p (.acquiring b)
  | none =>
    match s.victim with
    | some b =>
      (s.setBuf b { s.buf b with dev := dev, blockno := blockno, valid := false, dirty := false,
                                 refcnt := 1 }).setPc p (.acquiring b)
    | none => s.panic "bget: no buffers"

/-- `idestart`: the request at the head of the queue goes to the disk. -/
def idestart (s : BCache ι β) (b : Fin NBUF) : BCache ι β :=
  if (s.buf b).blockno ≥ FSSIZE then s.panic "incorrect blockno" else s

/-- `iderw` up to its wait loop: the request is appended to the queue and started if it is first;
the caller then sleeps. -/
def iderw (s : BCache ι β) (p : ι) (b : Fin NBUF) : BCache ι β :=
  if s.locked b ≠ some p then s.panic "iderw: buf not locked"
  else if (s.buf b).valid && !(s.buf b).dirty then s.panic "iderw: nothing to do"
  else if (s.buf b).dev ≠ 0 && !s.havedisk1 then s.panic "iderw: ide disk 1 not present"
  else
    let s := { s with idequeue := s.idequeue ++ [b] }.setPc p (.waiting b)
    if s.idequeue = [b] then idestart s b else s

/-- `acquiresleep` by a process that `bget` gave a buffer, and `bread`'s test: it sleeps while
another holds the lock; with the lock, a valid buffer is returned and any other is read. -/
def acquireStep (s : BCache ι β) (p : ι) : BCache ι β :=
  match s.pc p with
  | .acquiring b =>
    if (s.locked b).isSome then s
    else
      let s := { s with locked := Function.update s.locked b (some p) }.setPc p .idle
      if (s.buf b).valid then s else iderw s p b
  | _ => s

/-- One test of `iderw`'s loop: the request is done once the buffer is valid and not dirty. -/
def wakeStep (s : BCache ι β) (p : ι) : BCache ι β :=
  match s.pc p with
  | .waiting b => if (s.buf b).valid && !(s.buf b).dirty then s.setPc p .idle else s
  | _ => s

/-- The interrupt's work on the request at the head: a dirty buffer's data is on disk, a clean
buffer's is read; then B_VALID is set and B_DIRTY cleared. -/
def ideDone (s : BCache ι β) (b : Fin NBUF) : BCache ι β :=
  let buf := s.buf b
  let s := if buf.dirty then { s with disk := Function.update s.disk buf.key buf.data,
                                      pinned := Function.update s.pinned b false }
    else s.setBuf b { buf with data := s.disk buf.key }
  s.setBuf b { s.buf b with valid := true, dirty := false }

/-- `ideintr`: the request at the head of the queue completes, and the next one starts. -/
def ideintr (s : BCache ι β) : BCache ι β :=
  match s.idequeue with
  | [] => s
  | b :: rest =>
    let s := { ideDone s b with idequeue := rest }
    match rest with
    | [] => s
    | c :: _ => idestart s c

/-- The holder of a buffer changes its data. -/
def modifyStep (s : BCache ι β) (b : Fin NBUF) (data : β) : BCache ι β :=
  { s.setBuf b { s.buf b with data := data } with
    mem := Function.update s.mem (s.buf b).key data
    modified := Function.update s.modified b true }

/-- `bwrite`: B_DIRTY is set and the buffer written through `iderw`. -/
def bwrite (s : BCache ι β) (p : ι) (b : Fin NBUF) : BCache ι β :=
  if s.locked b ≠ some p then s.panic "bwrite"
  else iderw { s.setBuf b { s.buf b with dirty := true } with
               modified := Function.update s.modified b false } p b

/-- `log_write` of a buffer: the log records the block, and B_DIRTY pins the buffer. -/
def logWriteStep (s : BCache ι β) (b : Fin NBUF) : BCache ι β :=
  match logWrite s.log (s.buf b).blockno with
  | .error message => s.panic message
  | .ok log =>
    { s.setBuf b { s.buf b with dirty := true } with
      log := log
      modified := Function.update s.modified b false
      pinned := Function.update s.pinned b true }

/-- `brelse`: the sleep lock is released and the count goes down; a buffer no one uses moves to
the front. -/
def brelse (s : BCache ι β) (p : ι) (b : Fin NBUF) : BCache ι β :=
  if s.locked b ≠ some p then s.panic "brelse"
  else
    let s := { s with locked := Function.update s.locked b none }
    let s := s.setBuf b { s.buf b with refcnt := (s.buf b).refcnt - 1 }
    if (s.buf b).refcnt = 0 then (s.unlink b).pushFront b else s

/-- One event. A process outside the cache's code may start `bread`, `bwrite` or `brelse`, and
change, log or release only a buffer it holds; a buffer is released only after its changes
went to `log_write` or `bwrite`. After a panic nothing happens. -/
def bstep (s : BCache ι β) (event : BufEvent ι β) : BCache ι β :=
  if s.panicked.isSome then s
  else
    match event with
    | .bread p dev blockno => if s.pc p = .idle then bget s p dev blockno else s
    | .acquire p => acquireStep s p
    | .wake p => wakeStep s p
    | .ideintr => ideintr s
    | .modify p b data =>
      if s.locked b = some p ∧ s.pc p = .idle then modifyStep s b data else s
    | .bwrite p b => if s.pc p = .idle then bwrite s p b else s
    | .logWrite p b => if s.locked b = some p ∧ s.pc p = .idle then logWriteStep s b else s
    | .brelse p b => if s.pc p = .idle ∧ s.modified b = false then brelse s p b else s
    | .beginOp =>
      match beginOp s.log with
      | some log => { s with log := log }
      | none => s
    | .endOp =>
      match endOp s.log with
      | .error message => s.panic message
      | .ok (log, _) => { s with log := log }
    | .commitDone =>
      if s.log.committing then { s with log := endCommit (commit s.log emptyCache).2 } else s

end Xv6.Fs
