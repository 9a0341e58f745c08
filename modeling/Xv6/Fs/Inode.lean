import Mathlib.Data.List.FinRange
import Xv6.Fs.Layout

/-!
# Inode contents on the disk

`balloc`, `bmap`, `readi`, `writei` and `iupdate` of fs.c on one disk. The disk here is the file
system as the buffer cache and the log show it to one operation: `bread` returns a block's
latest contents, and a store into a buffer followed by `log_write` is a store into that view.

A file's block `bn` is `addrs[bn]` for the first NDIRECT blocks and entry `bn - NDIRECT` of the
indirect block `addrs[NDIRECT]` for the next NINDIRECT, where 0 stands for no block. `bmap`
allocates what is missing on the way; `blockAt` is the same lookup without allocation, and
`contents` the bytes of the file that it gives. A kernel panic is an error carrying its message.
The device branch of readi and writei hands the call to `devsw`, whose drivers are not modelled
here: it gives none.
-/

namespace Xv6.Fs

open Xv6.Bytes

/-- Directory (stat.h). -/
def T_DIR : UInt16 := 1

/-- Regular file. -/
def T_FILE : UInt16 := 2

/-- Device. -/
def T_DEV : UInt16 := 3

/-- `struct inode` as the inode layer reads and writes it: the inode number and the copy of
its dinode. -/
structure Inode where
  inum : Nat
  type : UInt16
  major : UInt16
  minor : UInt16
  nlink : UInt16
  size : UInt32
  addrs : Fin (NDIRECT + 1) → UInt32

/-- The entry of `addrs` that holds the indirect block. -/
def indirectSlot : Fin (NDIRECT + 1) := ⟨NDIRECT, Nat.lt_succ_self _⟩

/-! ## The free map -/

/-- The mask of bit `bi % 8` of a byte of the free map, `1 << (bi % 8)`. -/
def bitMask (bi : Nat) : UInt8 := 1 <<< UInt8.ofNat (bi % 8)

/-- Block `b` is in use: its bit in the free map is set. -/
def bitSet (sb : Superblock) (disk : Disk) (b : Nat) : Bool :=
  (disk (BBLOCK b sb)).byte (b % BPB / 8) &&& bitMask (b % BPB) != 0

/-- Mark block `b` in use: `bp->data[bi/8] |= m`. -/
def markBlock (sb : Superblock) (disk : Disk) (b : Nat) : Disk :=
  let bitmap := disk (BBLOCK b sb)
  Function.update disk (BBLOCK b sb)
    (bitmap.writeBytes (b % BPB / 8) [bitmap.byte (b % BPB / 8) ||| bitMask (b % BPB)])

/-- `balloc`: the first block below `sb.size` whose bit is clear, marked in use and zeroed by
`bzero`. The source's two loops visit the block numbers below `sb.size` in increasing order, a
bitmap block at a time. -/
def balloc (sb : Superblock) (disk : Disk) : Except String (UInt32 × Disk) :=
  match (List.range sb.size.toNat).find? (fun b => !bitSet sb disk b) with
  | some b => .ok (UInt32.ofNat b, Function.update (markBlock sb disk b) b fun _ => 0)
  | none => .error "balloc: out of blocks"

/-! ## bmap -/

/-- The address in an entry of `addrs`, allocated when it is 0:
`if((addr = ip->addrs[i]) == 0) ip->addrs[i] = addr = balloc(ip->dev)`. -/
def ensureAddr (sb : Superblock) (ip : Inode) (disk : Disk) (slot : Fin (NDIRECT + 1)) :
    Except String (UInt32 × Inode × Disk) :=
  if ip.addrs slot = 0 then do
    let (addr, disk) ← balloc sb disk
    pure (addr, { ip with addrs := Function.update ip.addrs slot addr }, disk)
  else pure (ip.addrs slot, ip, disk)

/-- `bmap`: the block that holds block `bn` of the file, allocating it, and the indirect block
before it, when missing. The indirect block is read before its entry's block is allocated, and
its entry stored into that copy. -/
def bmap (sb : Superblock) (ip : Inode) (disk : Disk) (bn : Nat) :
    Except String (UInt32 × Inode × Disk) :=
  if direct : bn < NDIRECT then ensureAddr sb ip disk ⟨bn, by omega⟩
  else if bn - NDIRECT < NINDIRECT then do
    let (indirect, ip, disk) ← ensureAddr sb ip disk indirectSlot
    let a := disk indirect.toNat
    let entry := a.read32 (4 * (bn - NDIRECT))
    if entry = 0 then do
      let (addr, disk) ← balloc sb disk
      pure (addr, ip, Function.update disk indirect.toNat (a.write32 (4 * (bn - NDIRECT)) addr))
    else pure (entry, ip, disk)
  else .error "bmap: out of range"

/-! ## readi and writei -/

/-- readi's loop from offset `off` with `left` bytes still to copy. Each turn copies up to the
end of the block `off` lies in; `fuel` bounds the turns, and readi gives one per byte, which is
never less than the turns. -/
def readLoop (sb : Superblock) :
    (fuel : Nat) → Inode → Disk → (off left : Nat) → Except String (List UInt8 × Inode × Disk)
  | 0, ip, disk, _, _ => .ok ([], ip, disk)
  | fuel + 1, ip, disk, off, left =>
    if left = 0 then .ok ([], ip, disk)
    else do
      let (addr, ip, disk) ← bmap sb ip disk (off / BSIZE)
      let m := min left (BSIZE - off % BSIZE)
      let chunk := (disk addr.toNat).bytes (off % BSIZE) m
      let (rest, ip, disk) ← readLoop sb fuel ip disk (off + m) (left - m)
      pure (chunk ++ rest, ip, disk)

/-- `readi`: the bytes from `off`, at most `n` and none past the size, or -1 for an offset past
the size or a count that wraps. The count returned is an int. -/
def readi (sb : Superblock) (ip : Inode) (disk : Disk) (off n : UInt32) :
    Option (Except String (Int × List UInt8 × Inode × Disk)) :=
  if ip.type = T_DEV then none
  else some <|
    if off > ip.size ∨ off + n < off then .ok (-1, [], ip, disk)
    else
      let n := if off + n > ip.size then ip.size - off else n
      (readLoop sb n.toNat ip disk off.toNat n.toNat).map fun (bytes, ip, disk) =>
        (toSigned n, bytes, ip, disk)

/-- writei's loop from offset `off` with the bytes `src` still to store; it returns the offset
it ends at. -/
def writeLoop (sb : Superblock) :
    (fuel : Nat) → Inode → Disk → (off : Nat) → List UInt8 → Except String (Inode × Disk × Nat)
  | 0, ip, disk, off, _ => .ok (ip, disk, off)
  | fuel + 1, ip, disk, off, src =>
    if src = [] then .ok (ip, disk, off)
    else do
      let (addr, ip, disk) ← bmap sb ip disk (off / BSIZE)
      let m := min src.length (BSIZE - off % BSIZE)
      let disk := Function.update disk addr.toNat
        ((disk addr.toNat).writeBytes (off % BSIZE) (src.take m))
      writeLoop sb fuel ip disk (off + m) (src.drop m)

/-- The bytes of `struct dinode` for an inode. -/
def dinodeBytes (ip : Inode) : List UInt8 :=
  le16 ip.type ++ le16 ip.major ++ le16 ip.minor ++ le16 ip.nlink ++ le32 ip.size ++
    (List.finRange (NDIRECT + 1)).flatMap fun i => le32 (ip.addrs i)

/-- `iupdate`: the inode's dinode stored into its inode block. -/
def iupdate (sb : Superblock) (ip : Inode) (disk : Disk) : Disk :=
  Function.update disk (IBLOCK ip.inum sb)
    ((disk (IBLOCK ip.inum sb)).writeBytes (ip.inum % IPB * dinodeSize) (dinodeBytes ip))

/-- `writei`: the first `n` bytes of `src` stored from `off`, growing the file, or -1 for an
offset past the size, a count that wraps or an end past MAXFILE blocks. -/
def writei (sb : Superblock) (ip : Inode) (disk : Disk) (src : List UInt8) (off n : UInt32) :
    Option (Except String (Int × Inode × Disk)) :=
  if ip.type = T_DEV then none
  else some <|
    if off > ip.size ∨ off + n < off then .ok (-1, ip, disk)
    else if (off + n).toNat > MAXFILE * BSIZE then .ok (-1, ip, disk)
    else do
      let (ip, disk, last) ← writeLoop sb n.toNat ip disk off.toNat (src.take n.toNat)
      if n > 0 ∧ last > ip.size.toNat then
        let ip := { ip with size := UInt32.ofNat last }
        pure (toSigned n, ip, iupdate sb ip disk)
      else pure (toSigned n, ip, disk)

/-! ## The file's bytes without allocation -/

/-- The indirect block, 0 for none. -/
def indirectBlock (ip : Inode) : Nat := (ip.addrs indirectSlot).toNat

/-- The block that holds block `bn` of the file, as bmap finds it when it allocates nothing;
0 for none. -/
def blockAt (ip : Inode) (disk : Disk) (bn : Nat) : Nat :=
  if direct : bn < NDIRECT then (ip.addrs ⟨bn, by omega⟩).toNat
  else if bn - NDIRECT < NINDIRECT ∧ indirectBlock ip ≠ 0 then
    ((disk (indirectBlock ip)).read32 (4 * (bn - NDIRECT))).toNat
  else 0

/-- The byte of the file at offset `o`. -/
def byteAt (ip : Inode) (disk : Disk) (o : Nat) : UInt8 :=
  (disk (blockAt ip disk (o / BSIZE))).byte (o % BSIZE)

/-- The bytes of the file, as many as its size. -/
def contents (ip : Inode) (disk : Disk) : List UInt8 :=
  (List.range ip.size.toNat).map (byteAt ip disk)

end Xv6.Fs
