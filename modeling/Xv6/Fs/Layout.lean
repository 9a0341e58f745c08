import Xv6.Fs.Log

/-!
# The on-disk format

The constants and the superblock of fs.h. A file has twelve direct block addresses in its
inode and one indirect block of `uint` addresses, so at most MAXFILE blocks. The free map holds
one bit per block, BPB to a block from `bmapstart` on, and the inode blocks hold IPB inodes of
`struct dinode` each from `inodestart` on.
-/

namespace Xv6.Fs

/-- Direct block addresses in an inode. -/
def NDIRECT : Nat := 12

/-- Block addresses in the indirect block: BSIZE / sizeof(uint). -/
def NINDIRECT : Nat := BSIZE / 4

/-- Most blocks of a file. -/
def MAXFILE : Nat := NDIRECT + NINDIRECT

/-- `struct superblock`: the layout of the disk, in blocks. -/
structure Superblock where
  size : UInt32
  nblocks : UInt32
  ninodes : UInt32
  nlog : UInt32
  logstart : UInt32
  inodestart : UInt32
  bmapstart : UInt32
  deriving DecidableEq, Repr

/-- Bitmap bits per block. -/
def BPB : Nat := BSIZE * 8

/-- The block of the free map that holds the bit of block `b`. -/
def BBLOCK (b : Nat) (sb : Superblock) : Nat := b / BPB + sb.bmapstart.toNat

/-- `sizeof(struct dinode)`: four shorts, the size and NDIRECT + 1 addresses. -/
def dinodeSize : Nat := 2 * 4 + 4 + 4 * (NDIRECT + 1)

/-- Inodes per block. -/
def IPB : Nat := BSIZE / dinodeSize

/-- The block that holds inode `i`. -/
def IBLOCK (i : Nat) (sb : Superblock) : Nat := i / IPB + sb.inodestart.toNat

end Xv6.Fs
