import Xv6.Fs.Inode

/-!
# The inode cache

`icache` of fs.c with `iget`, `idup`, `ilock`, `iunlock`, `iput` and `ialloc`, and below `iput`
the freeing of an inode's contents, `itrunc` with `bfree`. Each entry of `icache.inode[]` is a
`struct inode`: the device and inode number it is for, the count `ref` of the pointers handed
out to it, and, when `valid`, a copy of its dinode. `ilock` reads the copy out of the inode
block (`readDinode`), and `iupdate` writes it back.

As in `Fs.Inode` the disk is the file system as the buffer cache and the log show it, one for
each device. Processes work on the cache one critical section at a time: `iget` and `idup`
under `icache.lock`; `ilock`'s acquire of the entry's sleep lock with the read that follows;
each of the five stretches of `iput` between its lock operations; one turn of `ialloc`'s loop,
under the inode block's buffer lock, and its final `iget`. A sleep lock held by another leaves
the state as it is: the sleeper tests again at a later event of its own.

The rest of the file system is the environment. It hands out only pointers it holds: a process
calls `idup`, `ilock`, `iunlock` and `iput` on an entry it holds a reference to, and may give a
reference to another process, as a shared `struct file` or cwd carries it; the ghost `holds`
counts the references of each process. The holder of an entry's lock may change its fields
other than the inode number and the type, as writei, create, link and unlink do, and calls
`iupdate` before it unlocks (the rule on `iupdate` in fs.c); the ghost `dirty` marks a change
not yet written. Other code writes blocks outside the inode blocks: data, the free map and the
log. A panic stops the system.

`ip->ref` is an int that the code only increments and decrements; it is a count here.
-/

namespace Xv6.Fs

open Xv6.Bytes

/-- Maximum number of active i-nodes (param.h). -/
def NINODE : Nat := 50

instance : NeZero NINODE := ⟨by decide⟩

/-! ## Freeing an inode's blocks -/

/-- `bfree(dev, b)`: clear block `b`'s bit in the free map, `bp->data[bi/8] &= ~m`; a bit that is
already clear is a panic. -/
def bfree (sb : Superblock) (disk : Disk) (b : Nat) : Except String Disk :=
  let bitmap := disk (BBLOCK b sb)
  if !bitSet sb disk b then .error "freeing free block"
  else .ok (Function.update disk (BBLOCK b sb)
    (bitmap.writeBytes (b % BPB / 8) [bitmap.byte (b % BPB / 8) &&& ~~~bitMask (b % BPB)]))

/-- `if(addr) bfree(dev, addr)` for each block number in turn. -/
def bfreeEach (sb : Superblock) : List Nat → Disk → Except String Disk
  | [], disk => .ok disk
  | b :: rest, disk => do
    let disk ← if b ≠ 0 then bfree sb disk b else pure disk
    bfreeEach sb rest disk

/-- The direct block numbers of an inode, `ip->addrs[0..NDIRECT)`. -/
def directAddrs (ip : Inode) : List Nat :=
  (List.finRange NDIRECT).map fun i => (ip.addrs i.castSucc).toNat

/-- The entries of an indirect block, `a[0..NINDIRECT)`. -/
def indirectAddrs (a : Block BSIZE) : List Nat :=
  (List.range NINDIRECT).map fun j => (a.read32 (4 * j)).toNat

/-- `itrunc(ip)`: free the direct blocks, then the blocks the indirect block lists and the
indirect block itself, clear the addresses, set the size to 0 and write the inode. The first loop
clears `ip->addrs[i]` as it frees it; nothing in the loop reads an entry again, so the addresses
are cleared after it here. The entries of the indirect block are those of its buffer, read once
before the loop frees them. -/
def itrunc (sb : Superblock) (ip : Inode) (disk : Disk) : Except String (Inode × Disk) := do
  let disk ← bfreeEach sb (directAddrs ip) disk
  let ip := { ip with addrs := fun i => if i = indirectSlot then ip.addrs i else 0 }
  let (ip, disk) ← if indirectBlock ip ≠ 0 then do
      let disk ← bfreeEach sb (indirectAddrs (disk (indirectBlock ip))) disk
      let disk ← bfree sb disk (indirectBlock ip)
      pure ({ ip with addrs := fun _ => 0 }, disk)
    else pure (ip, disk)
  let ip := { ip with size := 0 }
  pure (ip, iupdate sb ip disk)

/-! ## The dinode in its inode block -/

/-- The dinode of inode `inum` as `ilock` copies it out of its inode block,
`dip = (struct dinode*)bp->data + inum%IPB`, field after field. -/
def readDinode (sb : Superblock) (disk : Disk) (inum : Nat) : Inode :=
  let bytes := (disk (IBLOCK inum sb)).bytes (inum % IPB * dinodeSize) dinodeSize
  let (type, bytes) := readLe16 bytes
  let (major, bytes) := readLe16 bytes
  let (minor, bytes) := readLe16 bytes
  let (nlink, bytes) := readLe16 bytes
  let (size, bytes) := readLe32 bytes
  { inum, type, major, minor, nlink, size
    addrs := fun i => (readLe32 (bytes.drop (4 * i.val))).1 }

/-- The dinode `ialloc` writes: `memset(dip, 0, sizeof(*dip)); dip->type = type;`. -/
def freshDinode (inum : Nat) (type : UInt16) : Inode :=
  { inum, type, major := 0, minor := 0, nlink := 0, size := 0, addrs := fun _ => 0 }

/-! ## The cache -/

/-- `struct inode`: the copy of the dinode with the cache's own fields; the sleep lock is the
cache's `locked`. -/
structure CachedInode extends Inode where
  dev : Nat
  ref : Nat
  valid : Bool

/-- Where a process stands in the cache's code. -/
inductive IcachePc
  /-- Outside it. -/
  | idle
  /-- In `ialloc`'s loop, about to read inode `inum`. -/
  | allocating (dev : Nat) (type : UInt16) (inum : Nat)
  /-- In `ialloc`, about to `iget` the inode it marked. -/
  | allocGet (dev inum : Nat)
  /-- In `iput`, holding the entry's lock, about to test `valid` and `nlink`. -/
  | putLocked (i : Fin NINODE)
  /-- In `iput`, which read `r == 1`: about to truncate and free the inode. -/
  | putFree (i : Fin NINODE)
  /-- In `iput`, about to release the entry's lock. -/
  | putRelease (i : Fin NINODE)
  /-- In `iput`, about to drop the count. -/
  | putDrop (i : Fin NINODE)
  deriving DecidableEq, Repr

/-- `icache`, the disks, and the processes. -/
structure Icache (ι : Type) where
  inode : Fin NINODE → CachedInode
  /-- The holder of each entry's sleep lock. -/
  locked : Fin NINODE → Option ι
  disk : Nat → Disk
  pc : ι → IcachePc
  panicked : Option String
  /-- Ghost: the references each process holds to each entry. -/
  holds : ι → Fin NINODE → Nat
  /-- Ghost: the entry's fields were changed since `iupdate` last wrote them. -/
  dirty : Fin NINODE → Bool

/-- What processes and the rest of the file system do to the cache. -/
inductive IcacheEvent (ι : Type)
  /-- `iget(dev, inum)`, as dirlookup and namex call it. -/
  | iget (p : ι) (dev inum : Nat)
  /-- A call of `ialloc(dev, type)`. -/
  | ialloc (p : ι) (dev : Nat) (type : UInt16)
  | idup (p : ι) (i : Fin NINODE)
  | ilock (p : ι) (i : Fin NINODE)
  /-- The holder of the lock changes the entry's fields. -/
  | change (p : ι) (i : Fin NINODE) (data : Inode)
  | iupdate (p : ι) (i : Fin NINODE)
  | iunlock (p : ι) (i : Fin NINODE)
  /-- A call of `iput(ip)`. -/
  | iput (p : ι) (i : Fin NINODE)
  /-- The next critical section of the `ialloc` or `iput` the process is in. -/
  | next (p : ι)
  /-- A reference handed from one process to another. -/
  | pass (p q : ι) (i : Fin NINODE)
  /-- Other file-system code writes a block on a device. -/
  | write (dev blockno : Nat) (block : Block BSIZE)

namespace Icache

variable {ι : Type} [DecidableEq ι]

/-- `panic`: the system stops. -/
@[simp] def panic (s : Icache ι) (message : String) : Icache ι :=
  { s with panicked := some message }

/-- The state with one entry's fields replaced. -/
@[simp] def setInode (s : Icache ι) (i : Fin NINODE) (e : CachedInode) : Icache ι :=
  { s with inode := Function.update s.inode i e }

/-- The state with a process at a new place. -/
@[simp] def setPc (s : Icache ι) (p : ι) (pc : IcachePc) : Icache ι :=
  { s with pc := Function.update s.pc p pc }

/-- The state with one more reference of `p` to entry `i`. -/
@[simp] def hold (s : Icache ι) (p : ι) (i : Fin NINODE) : Icache ι :=
  { s with holds := Function.update s.holds p (Function.update (s.holds p) i (s.holds p i + 1)) }

/-- The state with one reference of `p` to entry `i` less. -/
@[simp] def unhold (s : Icache ι) (p : ι) (i : Fin NINODE) : Icache ι :=
  { s with holds := Function.update s.holds p (Function.update (s.holds p) i (s.holds p i - 1)) }

/-- The state with the sleep lock of entry `i` held by `p`, or by no one. -/
@[simp] def setLocked (s : Icache ι) (i : Fin NINODE) (holder : Option ι) : Icache ι :=
  { s with locked := Function.update s.locked i holder }

/-- The state with one device's disk replaced. -/
@[simp] def setDisk (s : Icache ι) (dev : Nat) (disk : Disk) : Icache ι :=
  { s with disk := Function.update s.disk dev disk }

/-- iget's loop finding the inode: the first entry with `ref > 0` for it. -/
def cached (s : Icache ι) (dev inum : Nat) : Option (Fin NINODE) :=
  (List.finRange NINODE).find? fun i =>
    0 < (s.inode i).ref && (s.inode i).dev == dev && (s.inode i).inum == inum

/-- iget's `empty`: the first entry with `ref == 0`. -/
def empty (s : Icache ι) : Option (Fin NINODE) :=
  (List.finRange NINODE).find? fun i => (s.inode i).ref == 0

end Icache

open Icache

variable {ι : Type} [DecidableEq ι] (sb : Superblock)

/-- `iget(dev, inum)` by process `p`: the cached entry is counted, or the first unused one is
recycled for the inode, not yet read; `p` holds the reference. -/
def iget (s : Icache ι) (p : ι) (dev inum : Nat) : Icache ι :=
  match s.cached dev inum with
  | some i => (s.setInode i { s.inode i with ref := (s.inode i).ref + 1 }).hold p i
  | none =>
    match s.empty with
    | some i => (s.setInode i { s.inode i with dev, inum, ref := 1, valid := false }).hold p i
    | none => s.panic "iget: no inodes"

/-- `idup(ip)`: one more reference, held by `p`. -/
def idup (s : Icache ι) (p : ι) (i : Fin NINODE) : Icache ι :=
  (s.setInode i { s.inode i with ref := (s.inode i).ref + 1 }).hold p i

/-- `ilock(ip)` by `p`: `acquiresleep` sleeps while the lock is held; with the lock, an entry that
is not valid is read from its dinode, and one of type 0 is a panic. -/
def ilock (s : Icache ι) (p : ι) (i : Fin NINODE) : Icache ι :=
  let e := s.inode i
  if e.ref < 1 then s.panic "ilock"
  else if (s.locked i).isSome then s
  else
    let s := s.setLocked i (some p)
    if e.valid then s
    else
      let d := readDinode sb (s.disk e.dev) e.inum
      let s := s.setInode i { e with toInode := d, valid := true }
      if d.type = 0 then s.panic "ilock: no type" else s

/-- `iunlock(ip)` by `p`: a lock `p` does not hold is a panic. -/
def iunlock (s : Icache ι) (p : ι) (i : Fin NINODE) : Icache ι :=
  if s.locked i ≠ some p ∨ (s.inode i).ref < 1 then s.panic "iunlock"
  else s.setLocked i none

/-- The holder's change to an entry: new fields but the inode number and the type. -/
def change (s : Icache ι) (i : Fin NINODE) (data : Inode) : Icache ι :=
  let e := s.inode i
  { s.setInode i { e with toInode := { data with inum := e.inum, type := e.type } } with
    dirty := Function.update s.dirty i true }

/-- `iupdate(ip)` of a cached entry: its copy of the dinode goes to its inode block. -/
def writeThrough (s : Icache ι) (i : Fin NINODE) : Icache ι :=
  let e := s.inode i
  { s.setDisk e.dev (iupdate sb e.toInode (s.disk e.dev)) with
    dirty := Function.update s.dirty i false }

/-- `iput(ip)`'s `acquiresleep(&ip->lock)`: the caller sleeps while the lock is held. -/
def iput (s : Icache ι) (p : ι) (i : Fin NINODE) : Icache ι :=
  if (s.locked i).isSome then s else (s.setLocked i (some p)).setPc p (.putLocked i)

/-- The rest of `iput`, a critical section at a time. With the lock it tests `valid` and
`nlink` and, for a valid inode with no links, reads `r = ip->ref` under `icache.lock`; with
`r == 1` it truncates the inode, writes type 0 and marks the entry not valid; then it releases
the lock, and last drops the count. -/
def putStep (s : Icache ι) (p : ι) : Icache ι :=
  match s.pc p with
  | .putLocked i =>
    let e := s.inode i
    if e.valid ∧ e.nlink = 0 ∧ e.ref = 1 then s.setPc p (.putFree i) else s.setPc p (.putRelease i)
  | .putFree i =>
    let e := s.inode i
    match itrunc sb e.toInode (s.disk e.dev) with
    | .error message => s.panic message
    | .ok (ip, disk) =>
      let ip := { ip with type := 0 }
      ((s.setDisk e.dev (iupdate sb ip disk)).setInode i
        { e with toInode := ip, valid := false }).setPc p (.putRelease i)
  | .putRelease i => (s.setLocked i none).setPc p (.putDrop i)
  | .putDrop i =>
    ((s.setInode i { s.inode i with ref := (s.inode i).ref - 1 }).unhold p i).setPc p .idle
  | _ => s

/-- `ialloc`'s loop, `for(inum = 1; inum < sb.ninodes; inum++)`, a turn at a time: a dinode of
type 0 is marked allocated with the type, and then `iget` gives the caller its entry. -/
def allocStep (s : Icache ι) (p : ι) : Icache ι :=
  match s.pc p with
  | .allocating dev type inum =>
    if inum < sb.ninodes.toNat then
      if (readDinode sb (s.disk dev) inum).type = 0 then
        (s.setDisk dev (iupdate sb (freshDinode inum type) (s.disk dev))).setPc p
          (.allocGet dev inum)
      else s.setPc p (.allocating dev type (inum + 1))
    else s.panic "ialloc: no inodes"
  | .allocGet dev inum => (iget s p dev inum).setPc p .idle
  | _ => s

/-- A block of the inode area, from `sb.inodestart` up to the free map. -/
def inInodeArea (blockno : Nat) : Bool :=
  sb.inodestart.toNat ≤ blockno && blockno < sb.bmapstart.toNat

/-- One event. A process outside the cache's code may call `iget` and `ialloc`, and call `idup`,
`ilock`, `iunlock` and `iput` on an entry it holds a reference to; the holder of a lock may
change and write its entry, and unlocks it only after its changes are written; a reference is
handed over by a process that has not locked its entry; other code writes blocks outside the
inode area. After a panic nothing happens. -/
def icacheStep (s : Icache ι) (event : IcacheEvent ι) : Icache ι :=
  if s.panicked.isSome then s
  else
    match event with
    | .iget p dev inum => if s.pc p = .idle then iget s p dev inum else s
    | .ialloc p dev type => if s.pc p = .idle then s.setPc p (.allocating dev type 1) else s
    | .idup p i => if s.pc p = .idle ∧ 0 < s.holds p i then idup s p i else s
    | .ilock p i => if s.pc p = .idle ∧ 0 < s.holds p i then ilock sb s p i else s
    | .change p i data => if s.pc p = .idle ∧ s.locked i = some p then change s i data else s
    | .iupdate p i => if s.pc p = .idle ∧ s.locked i = some p then writeThrough sb s i else s
    | .iunlock p i =>
      if s.pc p = .idle ∧ 0 < s.holds p i ∧ (s.locked i = some p → s.dirty i = false) then
        iunlock s p i
      else s
    | .iput p i => if s.pc p = .idle ∧ 0 < s.holds p i then iput s p i else s
    | .next p =>
      match s.pc p with
      | .allocating .. | .allocGet .. => allocStep sb s p
      | .idle => s
      | _ => putStep sb s p
    | .pass p q i =>
      if s.pc p = .idle ∧ 0 < s.holds p i ∧ s.locked i ≠ some p then (s.unhold p i).hold q i
      else s
    | .write dev blockno block =>
      if inInodeArea sb blockno then s else s.setDisk dev (Function.update (s.disk dev) blockno block)

/-- The cache at boot: static storage is zero, so every entry is unused and not valid, no lock
is held and no process is in the cache's code. -/
def icacheBoot (disk : Nat → Disk) : Icache ι where
  inode _ := { inum := 0, type := 0, major := 0, minor := 0, nlink := 0, size := 0,
               addrs := fun _ => 0, dev := 0, ref := 0, valid := false }
  locked _ := none
  disk := disk
  pc _ := .idle
  panicked := none
  holds _ _ := 0
  dirty _ := false

end Xv6.Fs
