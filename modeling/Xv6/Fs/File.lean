import Mathlib.Data.List.TakeDrop
import Xv6.Fs.Layout

/-!
# Reads and writes through a shared file offset

`fileread` and `filewrite` of file.c on an FD_INODE `struct file`, for the processes that share
it through fork or dup. The inode is the sequence of bytes that `readi` and `writei` read and
write, which `Data.readi` and `Data.writei` give; where `bmap` puts them on the disk is the
business of the inode layer. Each `readi` and `writei` here runs under the inode's sleep lock,
together with the read and the advance of `f->off`, so it is one step. `filewrite` is a loop of
such steps, one for each chunk of at most `maxChunk` bytes, and the steps of other processes
come between them.

The unsigned wrap tests `off + n < off` of readi and writei never fire here: the offset is at
most the size, which writei keeps below MAXFILE*BSIZE, and sys_read and sys_write refuse a
negative count, so the counts are naturals.
-/

namespace Xv6.Fs

/-- `readi` on the bytes of an inode that is not a device: past the end it fails, else it
returns the bytes from `off`, at most `n` and none past the end. -/
def Data.readi (data : List UInt8) (off n : Nat) : Option (List UInt8) :=
  if off > data.length then none
  else
    let n := if off + n > data.length then data.length - off else n
    some ((data.drop off).take n)

/-- `writei` on the bytes of an inode that is not a device: it fails past the end or beyond
MAXFILE blocks, else it writes `src` at `off`, growing the file when it writes past the end. -/
def Data.writei (data src : List UInt8) (off : Nat) : Option (List UInt8) :=
  if off > data.length then none
  else if off + src.length > MAXFILE * BSIZE then none
  else some (data.take off ++ src ++ data.drop (off + src.length))

/-- The most bytes one turn of filewrite's loop writes: a transaction of MAXOPBLOCKS blocks
holds the inode, the indirect block, two bitmap blocks and two blocks of slop besides them. -/
def maxChunk : Nat := ((MAXOPBLOCKS - 1 - 1 - 2) / 2) * 512

/-- Where a process stands with the shared file. -/
inductive WriteCall
  /-- Not inside filewrite. -/
  | idle
  /-- Inside filewrite's loop with these bytes, `i` of them written. -/
  | writing (buf : List UInt8) (i : Nat)
  deriving DecidableEq, Repr

/-- One FD_INODE `struct file` shared by the processes `ι`, with its inode's bytes. -/
structure SharedFile (ι : Type) where
  readable : Bool
  writable : Bool
  /-- `f->off`. -/
  off : Nat
  /-- The inode's bytes. -/
  data : List UInt8
  calls : ι → WriteCall
  /-- What each process's last fileread or filewrite returned. -/
  returned : ι → Option Int

/-- The events of the processes that share the file. -/
inductive FileEvent (ι : Type)
  /-- A process calls filewrite with these bytes. -/
  | write (p : ι) (buf : List UInt8)
  /-- One turn of its loop: the test `i < n`, then a chunk under the inode lock. -/
  | writeChunk (p : ι)
  /-- fileread of at most `n` bytes, under the inode lock. -/
  | read (p : ι) (n : Nat)

namespace SharedFile

variable {ι : Type} [DecidableEq ι]

/-- The chunk that the next turn of filewrite's loop writes: `n1 = min(n - i, max)` bytes of the
buffer from `i`. -/
def nextChunk (buf : List UInt8) (i : Nat) : List UInt8 :=
  (buf.drop i).take (min (buf.length - i) maxChunk)

/-- Leave filewrite's loop with a return value. -/
def finishCall (s : SharedFile ι) (p : ι) (value : Int) : SharedFile ι :=
  { s with calls := Function.update s.calls p .idle,
           returned := Function.update s.returned p (some value) }

/-- One event. A process makes one call at a time; the return value `i == n ? n : -1` of
filewrite is `n` when the loop ends and `-1` when a chunk fails. -/
def fileStep (s : SharedFile ι) : FileEvent ι → SharedFile ι
  | .write p buf =>
    match s.calls p with
    | .writing _ _ => s
    | .idle =>
      if s.writable = false then { s with returned := Function.update s.returned p (some (-1)) }
      else { s with calls := Function.update s.calls p (.writing buf 0) }
  | .writeChunk p =>
    match s.calls p with
    | .idle => s
    | .writing buf i =>
      if i < buf.length then
        match Data.writei s.data (nextChunk buf i) s.off with
        | some data =>
          { s with
            data := data
            off := s.off + (nextChunk buf i).length
            calls := Function.update s.calls p (.writing buf (i + (nextChunk buf i).length)) }
        | none => s.finishCall p (-1)
      else s.finishCall p buf.length
  | .read p n =>
    if s.readable = false then { s with returned := Function.update s.returned p (some (-1)) }
    else
      match Data.readi s.data s.off n with
      | some bytes =>
        { s with off := s.off + bytes.length,
                 returned := Function.update s.returned p (some bytes.length) }
      | none => { s with returned := Function.update s.returned p (some (-1)) }

end SharedFile

end Xv6.Fs
