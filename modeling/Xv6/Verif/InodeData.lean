import Xv6.Fs.Inode
import Xv6.Fs.File

/-!
# writei and readi agree

The bytes `writei` leaves are the bytes `readi` returns, and both are the list model of the file
(`Data.writei` and `Data.readi`) on `contents`. That needs the file system around the inode to
be laid out as mkfs and the kernel keep it (`Placed`): the blocks the inode holds are distinct,
marked in use, and neither blocks of the free map nor its own inode block, and every free block
is a data block. Without that a write through one file block shows through another.

The proof follows the data: `balloc` marks one free block and zeroes it, `bmap` stores what it
allocates into the inode or its indirect block, each turn of writei's loop stores one chunk
into the block `bmap` returns, and readi's loop reads the blocks without allocating.
-/

namespace Xv6.Fs

open Xv6.Bytes

/-! ## The layout around an inode -/

section Layout

variable (sb : Superblock)

/-- A block of the free map. -/
def IsBitmapBlock (blk : Nat) : Prop := ∃ b < sb.size.toNat, BBLOCK b sb = blk

instance (blk : Nat) : Decidable (IsBitmapBlock sb blk) :=
  inferInstanceAs (Decidable (∃ b, b < sb.size.toNat ∧ BBLOCK b sb = blk))

/-- A block the inode holds: a block of the file, or its indirect block. -/
def Holds (ip : Inode) (disk : Disk) (r : Nat) : Prop :=
  r ≠ 0 ∧ ((∃ bn < MAXFILE, blockAt ip disk bn = r) ∨ indirectBlock ip = r)

/-- The disk around an inode as mkfs and the kernel lay it out. -/
structure Placed (ip : Inode) (disk : Disk) : Prop where
  /-- No two blocks of the file share a block. -/
  apart : ∀ bn < MAXFILE, ∀ bn' < MAXFILE, blockAt ip disk bn ≠ 0 →
    blockAt ip disk bn = blockAt ip disk bn' → bn = bn'
  /-- No block of the file is the indirect block. -/
  indirectApart : ∀ bn < MAXFILE, blockAt ip disk bn ≠ 0 →
    blockAt ip disk bn ≠ indirectBlock ip
  /-- Every block the inode holds lies on the disk, is marked in use, and is neither a block of
  the free map nor the inode's own inode block. -/
  held : ∀ r, Holds ip disk r → r < sb.size.toNat ∧ bitSet sb disk r = true ∧
    ¬ IsBitmapBlock sb r ∧ r ≠ IBLOCK ip.inum sb
  /-- Every free block is a data block: not block 0, which stands for none, not a block of the
  free map and not the inode block. -/
  free : ∀ b < sb.size.toNat, bitSet sb disk b = false →
    b ≠ 0 ∧ ¬ IsBitmapBlock sb b ∧ b ≠ IBLOCK ip.inum sb
  /-- The inode block is not a block of the free map. -/
  inodeBlock : ¬ IsBitmapBlock sb (IBLOCK ip.inum sb)

/-- The free blocks. -/
def freeCount (disk : Disk) : Nat :=
  (List.range sb.size.toNat).countP fun b => !bitSet sb disk b

end Layout

/-- The blocks bmap allocates for the file blocks `bns`: each missing one, and the indirect
block when it is missing and one of them needs it. -/
def blocksNeeded (ip : Inode) (disk : Disk) (bns : List Nat) : Nat :=
  bns.countP (fun bn => blockAt ip disk bn = 0) +
    if indirectBlock ip = 0 ∧ bns.any (NDIRECT ≤ ·) then 1 else 0

/-- The file blocks a write of `n` bytes at `off` goes through. -/
def writeBlocks (off n : Nat) : List Nat :=
  if n = 0 then [] else List.range' (off / BSIZE) ((off + n - 1) / BSIZE + 1 - off / BSIZE)

/-- Every byte of the file lies in a block of the file. -/
def Covered (ip : Inode) (disk : Disk) : Prop :=
  ∀ o < ip.size.toNat, blockAt ip disk (o / BSIZE) ≠ 0

instance (ip : Inode) (disk : Disk) : Decidable (Covered ip disk) :=
  inferInstanceAs (Decidable (∀ o < ip.size.toNat, blockAt ip disk (o / BSIZE) ≠ 0))

/-! ## The free map -/

section FreeMap

variable {sb : Superblock}

theorem bitSet_eq_testBit (disk : Disk) (b : Nat) :
    bitSet sb disk b = ((disk (BBLOCK b sb)).byte (b % BPB / 8)).toNat.testBit (b % BPB % 8) :=
  and_bit_ne_zero _ (Nat.mod_lt _ (by decide))

/-- Marking a block sets its bit and no other. Within one byte of one bitmap block the bit index
tells the blocks apart. -/
theorem bitSet_markBlock (disk : Disk) (b c : Nat) :
    bitSet sb (markBlock sb disk b) c = (bitSet sb disk c || decide (c = b)) := by
  have bpb : BPB = 4096 := rfl
  rw [bitSet_eq_testBit, bitSet_eq_testBit]
  unfold markBlock
  by_cases sameBlock : BBLOCK c sb = BBLOCK b sb
  · have quotient : c / BPB = b / BPB := by
      unfold BBLOCK at sameBlock
      omega
    rw [sameBlock, Function.update_self]
    by_cases sameByte : c % BPB / 8 = b % BPB / 8
    · have inBlock : b % BPB / 8 < BSIZE := by
        rw [bpb]
        unfold BSIZE
        omega
      rw [sameByte, Block.byte_writeBytes_inside _ inBlock (Nat.le_refl _) (by simp),
        Nat.sub_self, List.getD_cons_zero, bitMask, or_bit_testBit _ (Nat.mod_lt _ (by decide))]
      have sameBit : c % BPB % 8 = b % BPB % 8 ↔ c = b := by
        rw [bpb] at quotient sameByte ⊢
        omega
      simp only [sameBit]
    · have apart : c ≠ b := fun same => sameByte (same ▸ rfl)
      rw [Block.byte_writeBytes_outside _ (by simp; omega)]
      simp [apart]
  · have apart : c ≠ b := fun same => sameBlock (same ▸ rfl)
    rw [Function.update_of_ne sameBlock]
    simp [apart]

/-- What balloc can do: take a free block below the size, mark it and zero it. -/
theorem balloc_ok {disk disk' : Disk} {addr : UInt32} (ran : balloc sb disk = .ok (addr, disk')) :
    ∃ b < sb.size.toNat, bitSet sb disk b = false ∧ addr = UInt32.ofNat b ∧
      disk' = Function.update (markBlock sb disk b) b fun _ => 0 := by
  unfold balloc at ran
  split at ran
  · rename_i b found
    have clear := List.find?_some found
    have inRange := List.mem_of_find?_eq_some found
    cases ran
    exact ⟨b, List.mem_range.mp inRange, by simpa using clear, rfl, rfl⟩
  · cases ran

/-- balloc succeeds while a block is free. -/
theorem balloc_isOk {disk : Disk} (free : 0 < freeCount sb disk) :
    ∃ addr disk', balloc sb disk = .ok (addr, disk') := by
  obtain ⟨b, inRange, clear⟩ := List.countP_pos_iff.mp free
  cases found : (List.range sb.size.toNat).find? (fun b => !bitSet sb disk b) with
  | none =>
    rw [List.find?_eq_none] at found
    exact absurd clear (found b inRange)
  | some b' =>
    exact ⟨UInt32.ofNat b', Function.update (markBlock sb disk b') b' fun _ => 0,
      by simp only [balloc, found]⟩

end FreeMap

/-! ## Disks that keep the inode placed -/

section Keep

variable {sb : Superblock} {ip : Inode} {disk disk' : Disk}

theorem holds_of_blockAt {bn : Nat} (inFile : bn < MAXFILE) (mapped : blockAt ip disk bn ≠ 0) :
    Holds ip disk (blockAt ip disk bn) :=
  ⟨mapped, .inl ⟨bn, inFile, rfl⟩⟩

/-- A disk on which the file's blocks are where they were and no block went back to the free
map keeps the inode placed. -/
theorem Placed.of_blocks (placed : Placed sb ip disk) (blocks : blockAt ip disk' = blockAt ip disk)
    (kept : ∀ c < sb.size.toNat, bitSet sb disk c = true → bitSet sb disk' c = true)
    (stillFree : ∀ c < sb.size.toNat, bitSet sb disk' c = false → bitSet sb disk c = false) :
    Placed sb ip disk' := by
  have holds : ∀ r, Holds ip disk' r ↔ Holds ip disk r := fun r => by rw [Holds, Holds, blocks]
  refine ⟨?_, ?_, fun r held => ?_,
    fun c below clear => placed.free c below (stillFree c below clear), placed.inodeBlock⟩
  · rw [blocks]
    exact placed.apart
  · rw [blocks]
    exact placed.indirectApart
  · obtain ⟨inside, inUse, notBitmap, notInode⟩ := placed.held r ((holds r).mp held)
    exact ⟨inside, kept r inside inUse, notBitmap, notInode⟩

end Keep

/-! ## balloc on a placed disk -/

/-- What balloc did on a placed disk: block `b`, free before and a data block, is now marked
and zeroed, every block other than `b` and its bitmap block is as it was, and no other bit
changed. -/
structure Allocated (sb : Superblock) (ip : Inode) (disk disk' : Disk) (b : Nat) : Prop where
  inside : b < sb.size.toNat
  wasFree : bitSet sb disk b = false
  nonzero : b ≠ 0
  notBitmap : ¬ IsBitmapBlock sb b
  notInode : b ≠ IBLOCK ip.inum sb
  zeroed : disk' b = fun _ => 0
  others : ∀ c, c ≠ b → c ≠ BBLOCK b sb → disk' c = disk c
  bits : ∀ c < sb.size.toNat, bitSet sb disk' c = (bitSet sb disk c || decide (c = b))

section Allocation

variable {sb : Superblock} {ip : Inode} {disk disk' : Disk} {b : Nat}

theorem balloc_allocated (placed : Placed sb ip disk) {addr : UInt32}
    (ran : balloc sb disk = .ok (addr, disk')) :
    ∃ b, addr = UInt32.ofNat b ∧ Allocated sb ip disk disk' b := by
  obtain ⟨b, inside, clear, rfl, rfl⟩ := balloc_ok ran
  obtain ⟨nonzero, notBitmap, notInode⟩ := placed.free b inside clear
  refine ⟨b, rfl, inside, clear, nonzero, notBitmap, notInode, Function.update_self .., ?_, ?_⟩
  · intro c apart notItsBitmap
    rw [Function.update_of_ne apart, markBlock, Function.update_of_ne notItsBitmap]
  · intro c below
    have bitmap : BBLOCK c sb ≠ b := fun same => notBitmap ⟨c, below, same⟩
    rw [bitSet, Function.update_of_ne bitmap, ← bitSet, bitSet_markBlock]

/-- A block the inode holds is marked in use, so it is not the block balloc took. -/
theorem Allocated.not_holds (placed : Placed sb ip disk) (allocated : Allocated sb ip disk disk' b)
    {r : Nat} (holds : Holds ip disk r) : r ≠ b := by
  rintro rfl
  have inUse := (placed.held r holds).2.1
  rw [allocated.wasFree] at inUse
  cases inUse

theorem Allocated.freeCount_succ (allocated : Allocated sb ip disk disk' b) :
    freeCount sb disk' + 1 = freeCount sb disk := by
  have range := List.mem_range.mpr allocated.inside
  have after : freeCount sb disk' =
      ((List.range sb.size.toNat).erase b).countP fun c => !bitSet sb disk c := by
    rw [List.nodup_range.erase_eq_filter, List.countP_filter, freeCount]
    apply List.countP_congr
    intro c inRange
    rw [allocated.bits c (List.mem_range.mp inRange)]
    by_cases same : c = b <;> simp [same]
  have clear : (!bitSet sb disk b) = true := by simp [allocated.wasFree]
  rw [after, List.countP_erase, if_pos ⟨range, clear⟩, freeCount]
  have positive : 0 < (List.range sb.size.toNat).countP fun c => !bitSet sb disk c :=
    List.countP_pos_iff.mpr ⟨b, range, clear⟩
  omega

/-- The file's blocks are read through the indirect block only. -/
theorem blockAt_congr {ip : Inode} {disk disk' : Disk}
    (same : indirectBlock ip ≠ 0 → disk' (indirectBlock ip) = disk (indirectBlock ip)) :
    blockAt ip disk' = blockAt ip disk := by
  funext bn
  unfold blockAt
  split_ifs with direct indirect
  · rfl
  · rw [same indirect.2]
  · rfl

/-- balloc leaves every block the inode holds as it was. -/
theorem Allocated.data (placed : Placed sb ip disk) (allocated : Allocated sb ip disk disk' b)
    {r : Nat} (holds : Holds ip disk r) : disk' r = disk r := by
  have notBitmap := (placed.held r holds).2.2.1
  apply allocated.others r (allocated.not_holds placed holds)
  intro itsBitmap
  exact notBitmap ⟨b, allocated.inside, itsBitmap.symm⟩

theorem Allocated.blockAt (placed : Placed sb ip disk) (allocated : Allocated sb ip disk disk' b) :
    blockAt ip disk' = blockAt ip disk :=
  blockAt_congr fun present => allocated.data placed ⟨present, .inr rfl⟩

theorem Allocated.ofNat_toNat (allocated : Allocated sb ip disk disk' b) :
    (UInt32.ofNat b).toNat = b :=
  UInt32.toNat_ofNat_of_lt' (Nat.lt_trans allocated.inside (UInt32.toNat_lt_size _))

/-- An allocation the inode does not store yet keeps it placed. -/
theorem Placed.allocated (placed : Placed sb ip disk) (allocated : Allocated sb ip disk disk' b) :
    Placed sb ip disk' := by
  refine placed.of_blocks (allocated.blockAt placed) (fun c below inUse => ?_)
    (fun c below clear => ?_)
  · rw [allocated.bits c below, inUse, Bool.true_or]
  · rw [allocated.bits c below, Bool.or_eq_false_iff] at clear
    exact clear.1

end Allocation

/-! ## Stores that leave the inode's blocks alone -/

section Frame

variable {sb : Superblock} {ip : Inode} {disk : Disk} {r : Nat}

theorem blockAt_update (notIndirect : indirectBlock ip ≠ 0 → r ≠ indirectBlock ip)
    (x : Block BSIZE) : blockAt ip (Function.update disk r x) = blockAt ip disk :=
  blockAt_congr fun present => Function.update_of_ne (notIndirect present).symm _ _

theorem bitSet_update (notBitmap : ¬ IsBitmapBlock sb r) (x : Block BSIZE) {c : Nat}
    (below : c < sb.size.toNat) : bitSet sb (Function.update disk r x) c = bitSet sb disk c := by
  have apart : BBLOCK c sb ≠ r := fun same => notBitmap ⟨c, below, same⟩
  rw [bitSet, Function.update_of_ne apart, ← bitSet]

theorem freeCount_update (notBitmap : ¬ IsBitmapBlock sb r) (x : Block BSIZE) :
    freeCount sb (Function.update disk r x) = freeCount sb disk := by
  apply List.countP_congr
  intro c inRange
  rw [bitSet_update notBitmap x (List.mem_range.mp inRange)]

theorem Placed.update (placed : Placed sb ip disk)
    (notIndirect : indirectBlock ip ≠ 0 → r ≠ indirectBlock ip)
    (notBitmap : ¬ IsBitmapBlock sb r) (x : Block BSIZE) :
    Placed sb ip (Function.update disk r x) :=
  placed.of_blocks (blockAt_update notIndirect x)
    (fun _ below inUse => (bitSet_update notBitmap x below).trans inUse)
    (fun _ below clear => (bitSet_update notBitmap x below).symm.trans clear)

/-- A block of the file is a data block. -/
theorem Placed.dataBlock (placed : Placed sb ip disk) {bn : Nat} (inFile : bn < MAXFILE)
    (mapped : blockAt ip disk bn ≠ 0) :
    (indirectBlock ip ≠ 0 → blockAt ip disk bn ≠ indirectBlock ip) ∧
      ¬ IsBitmapBlock sb (blockAt ip disk bn) :=
  ⟨fun _ => placed.indirectApart bn inFile mapped,
    (placed.held _ (holds_of_blockAt inFile mapped)).2.2.1⟩

/-- The inode block is neither the indirect block nor a block of the free map. -/
theorem Placed.inodeBlockApart (placed : Placed sb ip disk) :
    (indirectBlock ip ≠ 0 → IBLOCK ip.inum sb ≠ indirectBlock ip) ∧
      ¬ IsBitmapBlock sb (IBLOCK ip.inum sb) :=
  ⟨fun present => (placed.held _ ⟨present, .inr rfl⟩).2.2.2.symm, placed.inodeBlock⟩

end Frame

/-! ## Storing a block into the inode -/

section Store

variable {sb : Superblock} {ip ip' : Inode} {disk disk₁ disk' : Disk} {b : Nat}

/-- The fields of `Placed` about the free map, for an inode that holds one freshly allocated
block more. -/
theorem Placed.held_free_of_added (placed : Placed sb ip disk)
    (allocated : Allocated sb ip disk disk₁ b) (inum : ip'.inum = ip.inum)
    (bits : ∀ c < sb.size.toNat, bitSet sb disk' c = bitSet sb disk₁ c)
    (added : ∀ r, Holds ip' disk' r → Holds ip disk r ∨ r = b) :
    (∀ r, Holds ip' disk' r → r < sb.size.toNat ∧ bitSet sb disk' r = true ∧
      ¬ IsBitmapBlock sb r ∧ r ≠ IBLOCK ip'.inum sb) ∧
    (∀ c < sb.size.toNat, bitSet sb disk' c = false →
      c ≠ 0 ∧ ¬ IsBitmapBlock sb c ∧ c ≠ IBLOCK ip'.inum sb) := by
  rw [inum]
  constructor
  · intro r holds
    rcases added r holds with old | rfl
    · obtain ⟨inside, inUse, notBitmap, notInode⟩ := placed.held r old
      refine ⟨inside, ?_, notBitmap, notInode⟩
      rw [bits r inside, allocated.bits r inside, inUse, Bool.true_or]
    · refine ⟨allocated.inside, ?_, allocated.notBitmap, allocated.notInode⟩
      rw [bits _ allocated.inside, allocated.bits _ allocated.inside]
      simp
  · intro c below clear
    rw [bits c below, allocated.bits c below, Bool.or_eq_false_iff] at clear
    exact placed.free c below clear.1

/-- A freshly allocated block stored as the missing file block `bn` keeps the inode placed. A block
the inode held before is marked in use, so it is not `b`. -/
theorem Placed.store (placed : Placed sb ip disk) (allocated : Allocated sb ip disk disk₁ b)
    {bn : Nat}
    (stored : ∀ bn', blockAt ip' disk' bn' = if bn' = bn then b else blockAt ip disk bn')
    (indirect : indirectBlock ip' = indirectBlock ip) (inum : ip'.inum = ip.inum)
    (bits : ∀ c < sb.size.toNat, bitSet sb disk' c = bitSet sb disk₁ c) :
    Placed sb ip' disk' := by
  have fresh : ∀ r, Holds ip disk r → r ≠ b := fun r holds => allocated.not_holds placed holds
  have added : ∀ r, Holds ip' disk' r → Holds ip disk r ∨ r = b := by
    rintro r ⟨nonzero, ⟨bn', inFile, found⟩ | isIndirect⟩
    · rw [stored] at found
      split_ifs at found
      · exact .inr found.symm
      · exact .inl ⟨nonzero, .inl ⟨bn', inFile, found⟩⟩
    · exact .inl ⟨nonzero, .inr (indirect ▸ isIndirect)⟩
  obtain ⟨held, free⟩ := placed.held_free_of_added allocated inum bits added
  refine ⟨fun bn₁ inFile₁ bn₂ inFile₂ nonzero same => ?_, fun bn₁ inFile₁ nonzero => ?_,
    held, free, inum ▸ placed.inodeBlock⟩
  · rw [stored, stored] at same
    rw [stored] at nonzero
    by_cases first : bn₁ = bn <;> by_cases second : bn₂ = bn
    · rw [first, second]
    · rw [if_pos first, if_neg second] at same
      have holds := holds_of_blockAt inFile₂ (same ▸ allocated.nonzero)
      exact absurd same.symm (fresh _ holds)
    · rw [if_neg first, if_pos second] at same
      rw [if_neg first] at nonzero
      exact absurd same (fresh _ (holds_of_blockAt inFile₁ nonzero))
    · rw [if_neg first, if_neg second] at same
      rw [if_neg first] at nonzero
      exact placed.apart bn₁ inFile₁ bn₂ inFile₂ nonzero same
  · rw [stored, indirect]
    rw [stored] at nonzero
    split_ifs at nonzero ⊢ with first
    · intro isIndirect
      by_cases present : indirectBlock ip = 0
      · exact allocated.nonzero (isIndirect.trans present)
      · exact fresh _ ⟨present, .inr rfl⟩ isIndirect.symm
    · exact placed.indirectApart bn₁ inFile₁ nonzero

/-- A freshly allocated block stored as the missing indirect block keeps the inode placed. -/
theorem Placed.storeIndirect (placed : Placed sb ip disk)
    (allocated : Allocated sb ip disk disk₁ b)
    (blocks : blockAt ip' disk' = blockAt ip disk) (indirect : indirectBlock ip' = b)
    (inum : ip'.inum = ip.inum)
    (bits : ∀ c < sb.size.toNat, bitSet sb disk' c = bitSet sb disk₁ c) :
    Placed sb ip' disk' := by
  have added : ∀ r, Holds ip' disk' r → Holds ip disk r ∨ r = b := by
    rintro r ⟨nonzero, inFile | isIndirect⟩
    · rw [blocks] at inFile
      exact .inl ⟨nonzero, .inl inFile⟩
    · exact .inr (indirect ▸ isIndirect).symm
  obtain ⟨held, free⟩ := placed.held_free_of_added allocated inum bits added
  refine ⟨?_, fun bn inFile nonzero => ?_, held, free, inum ▸ placed.inodeBlock⟩
  · rw [blocks]
    exact placed.apart
  · rw [blocks] at nonzero ⊢
    rw [indirect]
    exact allocated.not_holds placed (holds_of_blockAt inFile nonzero)

end Store

/-! ## Where bmap stores what it allocates -/

section Slots

variable (ip : Inode) (disk : Disk)

theorem indirectBlock_setDirect {bn : Nat} (direct : bn < NDIRECT) (a : UInt32) :
    indirectBlock
        { ip with addrs := Function.update ip.addrs ⟨bn, Nat.lt_succ_of_lt direct⟩ a } =
      indirectBlock ip := by
  have apart : indirectSlot ≠ ⟨bn, by omega⟩ := fun same => by
    have := congrArg Fin.val same
    simp only [indirectSlot] at this
    omega
  simp only [indirectBlock, Function.update_of_ne apart]

theorem blockAt_setDirect {bn : Nat} (direct : bn < NDIRECT) (a : UInt32) (bn' : Nat) :
    blockAt { ip with addrs := Function.update ip.addrs ⟨bn, Nat.lt_succ_of_lt direct⟩ a } disk
        bn' =
      if bn' = bn then a.toNat else blockAt ip disk bn' := by
  have indirect := indirectBlock_setDirect ip direct a
  unfold blockAt
  rw [indirect]
  by_cases same : bn' = bn
  · subst same
    simp [direct]
  · rw [if_neg same]
    split_ifs with direct'
    · have apart : (⟨bn', by omega⟩ : Fin (NDIRECT + 1)) ≠ ⟨bn, by omega⟩ :=
        fun h => same (congrArg Fin.val h)
      simp only [Function.update_of_ne apart]
    · rfl
    · rfl

theorem indirectBlock_setIndirect (a : UInt32) :
    indirectBlock { ip with addrs := Function.update ip.addrs indirectSlot a } = a.toNat := by
  simp only [indirectBlock, Function.update_self]

/-- A zeroed block stored as the indirect block of an inode that had none adds no block. -/
theorem blockAt_setIndirect (none : indirectBlock ip = 0) {a : UInt32}
    (zeroed : disk a.toNat = fun _ => 0) :
    blockAt { ip with addrs := Function.update ip.addrs indirectSlot a } disk =
      blockAt ip disk := by
  funext bn
  unfold blockAt
  rw [indirectBlock_setIndirect, none]
  by_cases direct : bn < NDIRECT
  · have apart :
        (⟨bn, direct.trans (Nat.lt_succ_self _)⟩ : Fin (NDIRECT + 1)) ≠ indirectSlot := fun h => by
        have := congrArg Fin.val h
        simp only [indirectSlot] at this
        omega
    rw [dif_pos direct, dif_pos direct]
    simp only [Function.update_of_ne apart]
  · have noEntry : ¬ (bn - NDIRECT < NINDIRECT ∧ (0 : Nat) ≠ 0) := fun h => h.2 rfl
    rw [dif_neg direct, dif_neg direct, if_neg noEntry]
    split_ifs
    · rw [zeroed, Block.read32_zero]
      rfl
    · rfl

/-- An entry stored into the indirect block moves the file block it stands for only. -/
theorem blockAt_setEntry {bn : Nat} (indirect : NDIRECT ≤ bn) (inFile : bn < MAXFILE)
    (present : indirectBlock ip ≠ 0) {blk : Nat} (isIndirect : indirectBlock ip = blk)
    {block : Block BSIZE} (current : disk blk = block) (a : UInt32) (bn' : Nat) :
    blockAt ip (Function.update disk blk (block.write32 (4 * (bn - NDIRECT)) a)) bn' =
      if bn' = bn then a.toNat else blockAt ip disk bn' := by
  subst isIndirect
  have fits : 4 * (bn - NDIRECT) + 4 ≤ BSIZE := by
    unfold MAXFILE NINDIRECT at inFile
    unfold BSIZE at inFile ⊢
    omega
  unfold blockAt
  simp only [Function.update_self]
  by_cases same : bn' = bn
  · subst same
    rw [dif_neg (by omega), if_pos ⟨by unfold MAXFILE at inFile; omega, present⟩, if_pos rfl,
      Block.read32_write32_self _ _ fits]
  · rw [if_neg same, current]
    split_ifs with direct' entry
    · rfl
    · rw [Block.read32_write32_of_apart _ _ (by omega)]
    · rfl

end Slots

/-! ## bmap -/

section Bmap

variable {sb : Superblock} {ip : Inode} {disk : Disk} {bn : Nat}

theorem blockAt_of_direct (direct : bn < NDIRECT) :
    blockAt ip disk bn = (ip.addrs ⟨bn, Nat.lt_succ_of_lt direct⟩).toNat := by
  unfold blockAt
  rw [dif_pos direct]

theorem blockAt_of_no_indirect (indirect : NDIRECT ≤ bn) (none : indirectBlock ip = 0) :
    blockAt ip disk bn = 0 := by
  unfold blockAt
  rw [dif_neg (by omega), if_neg (fun h => h.2 none)]

theorem blockAt_of_indirect (indirect : NDIRECT ≤ bn) (inFile : bn < MAXFILE)
    (present : indirectBlock ip ≠ 0) :
    blockAt ip disk bn = ((disk (indirectBlock ip)).read32 (4 * (bn - NDIRECT))).toNat := by
  unfold blockAt
  rw [dif_neg (by omega), if_pos ⟨by unfold MAXFILE at inFile; omega, present⟩]

theorem ensureAddr_present {slot : Fin (NDIRECT + 1)} (present : ip.addrs slot ≠ 0) :
    ensureAddr sb ip disk slot = .ok (ip.addrs slot, ip, disk) := by
  unfold ensureAddr
  rw [if_neg present]
  rfl

theorem ensureAddr_absent {slot : Fin (NDIRECT + 1)} (absent : ip.addrs slot = 0) {addr : UInt32}
    {disk' : Disk} (ran : balloc sb disk = .ok (addr, disk')) :
    ensureAddr sb ip disk slot =
      .ok (addr, { ip with addrs := Function.update ip.addrs slot addr }, disk') := by
  unfold ensureAddr
  rw [if_pos absent, ran]
  rfl

theorem bmap_direct (direct : bn < NDIRECT) :
    bmap sb ip disk bn = ensureAddr sb ip disk ⟨bn, Nat.lt_succ_of_lt direct⟩ := by
  unfold bmap
  rw [dif_pos direct]

/-- bmap past the direct blocks, once the indirect block is found or allocated: the entry's
block, or a new one stored into the entry. -/
theorem bmap_indirect (indirect : NDIRECT ≤ bn) (inFile : bn < MAXFILE) {block : UInt32}
    {ip₁ : Inode} {disk₁ : Disk}
    (ensured : ensureAddr sb ip disk indirectSlot = .ok (block, ip₁, disk₁)) :
    bmap sb ip disk bn =
      let entry := (disk₁ block.toNat).read32 (4 * (bn - NDIRECT))
      if entry = 0 then
        (balloc sb disk₁).map fun (addr, disk₂) => (addr, ip₁, Function.update disk₂ block.toNat
          ((disk₁ block.toNat).write32 (4 * (bn - NDIRECT)) addr))
      else .ok (entry, ip₁, disk₁) := by
  unfold bmap
  rw [dif_neg (by omega), if_pos (by unfold MAXFILE at inFile; omega), ensured]
  simp only [bind, Except.bind]
  split
  · cases balloc sb disk₁ <;> rfl
  · rfl

theorem blockAt_inFile (mapped : blockAt ip disk bn ≠ 0) : bn < MAXFILE := by
  unfold blockAt at mapped
  unfold MAXFILE
  split_ifs at mapped with direct entry
  · omega
  · omega
  · exact absurd rfl mapped

/-- bmap allocates nothing for a block the file has. -/
theorem bmap_of_mapped (mapped : blockAt ip disk bn ≠ 0) :
    ∃ addr : UInt32, bmap sb ip disk bn = .ok (addr, ip, disk) ∧
      addr.toNat = blockAt ip disk bn := by
  have inFile := blockAt_inFile mapped
  by_cases direct : bn < NDIRECT
  · rw [blockAt_of_direct direct] at mapped ⊢
    have present : ip.addrs ⟨bn, by omega⟩ ≠ 0 := fun zero => mapped (by rw [zero]; rfl)
    exact ⟨_, by rw [bmap_direct direct, ensureAddr_present present], rfl⟩
  · have indirect : NDIRECT ≤ bn := by omega
    have present : indirectBlock ip ≠ 0 := fun none =>
      mapped (blockAt_of_no_indirect indirect none)
    have slot : ip.addrs indirectSlot ≠ 0 := fun zero => present (by rw [indirectBlock, zero]; rfl)
    rw [blockAt_of_indirect indirect inFile present] at mapped ⊢
    have entry : (disk (indirectBlock ip)).read32 (4 * (bn - NDIRECT)) ≠ 0 := fun zero =>
      mapped (by rw [zero]; rfl)
    refine ⟨_, ?_, rfl⟩
    rw [bmap_indirect indirect inFile (ensureAddr_present slot)]
    exact if_neg entry

end Bmap

/-! ## What bmap spends -/

section Budget

variable {ip ip' : Inode} {disk disk' : Disk} {bn : Nat}

/-- The block `bn` alone needs no more blocks than `bn` and others: the indirect block counts for
`[bn]` only if `bn` is past the direct blocks, and then for `bn :: rest` too. -/
theorem blocksNeeded_singleton_le (rest : List Nat) :
    blocksNeeded ip disk [bn] ≤ blocksNeeded ip disk (bn :: rest) := by
  unfold blocksNeeded
  by_cases past : NDIRECT ≤ bn
  · simp [past, List.countP_cons]
  · simp [past, List.countP_cons]
    omega

/-- What bmap spends on block `bn`: the block when it was missing and the indirect block when it
added one; what `rest` needs afterwards is the rest of what `bn :: rest` needed. -/
theorem blocksNeeded_step {rest : List Nat} (fresh : bn ∉ rest)
    (others : ∀ bn', bn' ≠ bn → blockAt ip' disk' bn' = blockAt ip disk bn')
    (found : blockAt ip' disk' bn ≠ 0)
    (kept : indirectBlock ip ≠ 0 → indirectBlock ip' ≠ 0)
    (added : indirectBlock ip = 0 → indirectBlock ip' ≠ 0 → NDIRECT ≤ bn) :
    blocksNeeded ip' disk' rest + ((if blockAt ip disk bn = 0 then 1 else 0) +
      (if indirectBlock ip = 0 ∧ indirectBlock ip' ≠ 0 then 1 else 0)) =
      blocksNeeded ip disk (bn :: rest) := by
  have same : rest.countP (fun bn' => blockAt ip' disk' bn' = 0) =
      rest.countP (fun bn' => blockAt ip disk bn' = 0) := by
    apply List.countP_congr
    intro bn' inRest
    rw [others bn' (fun h => fresh (h ▸ inRest))]
  have direct : indirectBlock ip' = 0 → bn < NDIRECT := fun none => by
    by_contra past
    exact found (blockAt_of_no_indirect (by omega) none)
  unfold blocksNeeded
  rw [same, List.countP_cons, List.any_cons]
  by_cases before : indirectBlock ip = 0 <;> by_cases after : indirectBlock ip' = 0
  · have early : ¬ NDIRECT ≤ bn := Nat.not_le.mpr (direct after)
    simp [before, after, early]
    omega
  · have past := added before after
    simp [before, after, past]
    omega
  · exact absurd after (kept before)
  · simp [before, after]

end Budget

/-! ## What bmap does on a placed disk -/

/-- What bmap did for file block `bn` on a placed disk: the inode is still placed and has `addr`
as block `bn`, the block it had there if it had one; every other file block is where it was,
no block of the file changed, no field but `addrs` changed, and the blocks it allocated came
out of what `bn` needed. -/
structure Mapped (sb : Superblock) (ip : Inode) (disk : Disk) (bn : Nat) (addr : UInt32)
    (ip' : Inode) (disk' : Disk) : Prop where
  placed : Placed sb ip' disk'
  found : blockAt ip' disk' bn = addr.toNat
  nonzero : addr.toNat ≠ 0
  others : ∀ bn', bn' ≠ bn → blockAt ip' disk' bn' = blockAt ip disk bn'
  kept : blockAt ip disk bn ≠ 0 → addr.toNat = blockAt ip disk bn
  data : ∀ bn', blockAt ip disk bn' ≠ 0 →
    disk' (blockAt ip disk bn') = disk (blockAt ip disk bn')
  fields : { ip' with addrs := ip.addrs } = ip
  budget : ∃ used, freeCount sb disk' + used = freeCount sb disk ∧
    ∀ rest, bn ∉ rest → blocksNeeded ip' disk' rest + used = blocksNeeded ip disk (bn :: rest)

section Mapped

variable {sb : Superblock} {ip ip' : Inode} {disk disk' : Disk} {bn : Nat} {addr : UInt32}

theorem Mapped.of_mapped (placed : Placed sb ip disk) (mapped : blockAt ip disk bn ≠ 0)
    (found : addr.toNat = blockAt ip disk bn) : Mapped sb ip disk bn addr ip disk where
  placed := placed
  found := found.symm
  nonzero := found ▸ mapped
  others _ _ := rfl
  kept _ := found
  data _ _ := rfl
  fields := rfl
  budget := by
    refine ⟨0, rfl, fun rest fresh => ?_⟩
    have step := blocksNeeded_step fresh (fun _ _ => rfl) mapped id
      (fun none present => absurd none present)
    simpa [mapped] using step

/-- bmap's result when it stored a new block `b` as the missing block `bn`, and the indirect
block before it if it added one. -/
theorem Mapped.of_store {b : Nat} (placed' : Placed sb ip' disk')
    (missing : blockAt ip disk bn = 0)
    (stored : ∀ bn', blockAt ip' disk' bn' = if bn' = bn then b else blockAt ip disk bn')
    (small : addr.toNat = b) (nonzero : b ≠ 0)
    (data : ∀ bn', blockAt ip disk bn' ≠ 0 →
      disk' (blockAt ip disk bn') = disk (blockAt ip disk bn'))
    (fields : { ip' with addrs := ip.addrs } = ip)
    (kept : indirectBlock ip ≠ 0 → indirectBlock ip' ≠ 0)
    (added : indirectBlock ip = 0 → indirectBlock ip' ≠ 0 → NDIRECT ≤ bn)
    (spent : freeCount sb disk' + (1 + if indirectBlock ip = 0 ∧ indirectBlock ip' ≠ 0 then 1 else 0) =
      freeCount sb disk) :
    Mapped sb ip disk bn addr ip' disk' where
  placed := placed'
  found := by rw [stored, if_pos rfl, small]
  nonzero := small ▸ nonzero
  others bn' apart := by rw [stored, if_neg apart]
  kept mapped := absurd missing mapped
  data := data
  fields := fields
  budget := by
    refine ⟨_, spent, fun rest fresh => ?_⟩
    have step := blocksNeeded_step fresh (fun bn' apart => by rw [stored, if_neg apart])
      (by rw [stored, if_pos rfl]; exact nonzero) kept added
    rwa [if_pos missing] at step

/-- Every block the file had is where it was. -/
theorem Mapped.block (mapped : Mapped sb ip disk bn addr ip' disk') {bn' : Nat}
    (had : blockAt ip disk bn' ≠ 0) : blockAt ip' disk' bn' = blockAt ip disk bn' := by
  by_cases same : bn' = bn
  · subst same
    rw [mapped.found, mapped.kept had]
  · exact mapped.others bn' same

end Mapped

/-! ## bmap's three ways to allocate -/

section Allocate

variable {sb : Superblock} {ip : Inode} {disk : Disk} {bn : Nat}

/-- A missing direct block: a new block stored into `addrs[bn]`. -/
theorem bmap_direct_absent (placed : Placed sb ip disk) (direct : bn < NDIRECT)
    (missing : blockAt ip disk bn = 0) (room : 0 < freeCount sb disk) :
    ∃ addr ip' disk', bmap sb ip disk bn = .ok (addr, ip', disk') ∧
      Mapped sb ip disk bn addr ip' disk' := by
  obtain ⟨addr, disk₁, ran⟩ := balloc_isOk room
  obtain ⟨b, rfl, allocated⟩ := balloc_allocated placed ran
  have absent : ip.addrs ⟨bn, by omega⟩ = 0 := by
    rw [blockAt_of_direct direct] at missing
    exact word_toNat_eq_zero.mp missing
  have stored := fun bn' => (blockAt_setDirect ip disk₁ direct (UInt32.ofNat b) bn').trans
    (by rw [allocated.ofNat_toNat, allocated.blockAt placed])
  have indirect := indirectBlock_setDirect ip direct (UInt32.ofNat b)
  refine ⟨_, _, _, by rw [bmap_direct direct, ensureAddr_absent absent ran], ?_⟩
  refine Mapped.of_store (placed.store allocated stored indirect rfl fun _ _ => rfl) missing
    stored allocated.ofNat_toNat allocated.nonzero
    (fun bn' mapped => allocated.data placed (holds_of_blockAt (blockAt_inFile mapped) mapped))
    rfl (fun present => indirect ▸ present) (fun none present => absurd (indirect ▸ none) present)
    ?_
  rw [indirect, if_neg (fun h => h.2 h.1)]
  exact allocated.freeCount_succ

/-- A missing entry of a present indirect block: a new block stored into the entry. -/
theorem bmap_entry_absent (placed : Placed sb ip disk) (indirect : NDIRECT ≤ bn)
    (inFile : bn < MAXFILE) (present : indirectBlock ip ≠ 0) (missing : blockAt ip disk bn = 0)
    (room : 0 < freeCount sb disk) :
    ∃ addr ip' disk', bmap sb ip disk bn = .ok (addr, ip', disk') ∧
      Mapped sb ip disk bn addr ip' disk' := by
  have slot : ip.addrs indirectSlot ≠ 0 := fun zero => present (by rw [indirectBlock, zero]; rfl)
  have entry : (disk (indirectBlock ip)).read32 (4 * (bn - NDIRECT)) = 0 := by
    rw [blockAt_of_indirect indirect inFile present] at missing
    exact word_toNat_eq_zero.mp missing
  obtain ⟨addr, disk₁, ran⟩ := balloc_isOk room
  obtain ⟨b, rfl, allocated⟩ := balloc_allocated placed ran
  have current : disk₁ (indirectBlock ip) = disk (indirectBlock ip) :=
    allocated.data placed ⟨present, .inr rfl⟩
  have notBitmap := (placed.held _ ⟨present, .inr rfl⟩).2.2.1
  have stored : ∀ bn', blockAt ip (Function.update disk₁ (indirectBlock ip)
      ((disk (indirectBlock ip)).write32 (4 * (bn - NDIRECT)) (UInt32.ofNat b))) bn' =
      if bn' = bn then b else blockAt ip disk bn' := by
    intro bn'
    rw [blockAt_setEntry ip disk₁ indirect inFile present rfl current, allocated.ofNat_toNat,
      allocated.blockAt placed]
  refine ⟨UInt32.ofNat b, ip, Function.update disk₁ (indirectBlock ip)
    ((disk (indirectBlock ip)).write32 (4 * (bn - NDIRECT)) (UInt32.ofNat b)), ?_, ?_⟩
  · rw [bmap_indirect indirect inFile (ensureAddr_present slot)]
    show (if (disk (indirectBlock ip)).read32 (4 * (bn - NDIRECT)) = 0 then _ else _) = _
    rw [if_pos entry, ran]
    rfl
  · refine Mapped.of_store (placed.store allocated stored rfl rfl
      fun c below => bitSet_update notBitmap _ below) missing stored allocated.ofNat_toNat
      allocated.nonzero (fun bn' mapped => ?_) rfl id (fun none => absurd none present) ?_
    · have holds := holds_of_blockAt (blockAt_inFile mapped) mapped
      rw [Function.update_of_ne (placed.indirectApart bn' (blockAt_inFile mapped) mapped),
        allocated.data placed holds]
    · rw [if_neg (fun h => present h.1), freeCount_update notBitmap]
      exact allocated.freeCount_succ

/-- A missing indirect block: a new indirect block, and a new block stored into its entry. The
indirect block is allocated first, then the block for the entry. -/
theorem bmap_indirect_absent (placed : Placed sb ip disk) (indirect : NDIRECT ≤ bn)
    (inFile : bn < MAXFILE) (none : indirectBlock ip = 0) (room : 2 ≤ freeCount sb disk) :
    ∃ addr ip' disk', bmap sb ip disk bn = .ok (addr, ip', disk') ∧
      Mapped sb ip disk bn addr ip' disk' := by
  have missing : blockAt ip disk bn = 0 := blockAt_of_no_indirect indirect none
  have slot : ip.addrs indirectSlot = 0 := word_toNat_eq_zero.mp none
  obtain ⟨a₁, disk₁, ran₁⟩ := balloc_isOk (by omega : 0 < freeCount sb disk)
  obtain ⟨b₁, rfl, allocated₁⟩ := balloc_allocated placed ran₁
  have small₁ := allocated₁.ofNat_toNat
  have isIndirect := indirectBlock_setIndirect ip (UInt32.ofNat b₁)
  have zeroed : disk₁ (UInt32.ofNat b₁).toNat = fun _ => 0 := by
    rw [small₁]
    exact allocated₁.zeroed
  have blocks₁ := (blockAt_setIndirect ip disk₁ none zeroed).trans (allocated₁.blockAt placed)
  have placed₁ := placed.storeIndirect allocated₁ blocks₁ (isIndirect.trans small₁) rfl
    fun _ _ => rfl
  have present₁ : (UInt32.ofNat b₁).toNat ≠ 0 := by
    rw [small₁]
    exact allocated₁.nonzero
  have entry : (disk₁ (UInt32.ofNat b₁).toNat).read32 (4 * (bn - NDIRECT)) = 0 := by
    rw [zeroed]
    exact Block.read32_zero _
  have free₁ : 0 < freeCount sb disk₁ := by
    have := allocated₁.freeCount_succ
    omega
  obtain ⟨a₂, disk₂, ran₂⟩ := balloc_isOk free₁
  obtain ⟨b₂, rfl, allocated₂⟩ := balloc_allocated placed₁ ran₂
  have current : disk₂ (UInt32.ofNat b₁).toNat = disk₁ (UInt32.ofNat b₁).toNat :=
    allocated₂.data placed₁ ⟨isIndirect ▸ present₁, .inr isIndirect⟩
  have notBitmap : ¬ IsBitmapBlock sb (UInt32.ofNat b₁).toNat := by
    rw [small₁]
    exact allocated₁.notBitmap
  have stored₁ := blockAt_setEntry _ disk₂ indirect inFile (isIndirect ▸ present₁) isIndirect
    current (UInt32.ofNat b₂)
  rw [allocated₂.ofNat_toNat, allocated₂.blockAt placed₁] at stored₁
  have stored := fun bn' => (stored₁ bn').trans (by rw [blocks₁])
  refine ⟨_, _, _, ?_, Mapped.of_store (placed₁.store allocated₂ stored₁ rfl rfl
      fun c below => bitSet_update notBitmap _ below) missing stored allocated₂.ofNat_toNat
      allocated₂.nonzero (fun bn' mapped => ?_) rfl (fun present => absurd none present)
      (fun _ _ => indirect) ?_⟩
  · rw [bmap_indirect indirect inFile (ensureAddr_absent slot ran₁)]
    show (if (disk₁ (UInt32.ofNat b₁).toNat).read32 (4 * (bn - NDIRECT)) = 0 then _ else _) = _
    rw [if_pos entry, ran₂]
    rfl
  · have inFile' := blockAt_inFile mapped
    have holds := holds_of_blockAt inFile' mapped
    have fresh : blockAt ip disk bn' ≠ (UInt32.ofNat b₁).toNat := by
      rw [small₁]
      exact allocated₁.not_holds placed holds
    rw [Function.update_of_ne fresh,
      allocated₂.data placed₁ ⟨mapped, .inl ⟨bn', inFile', congrFun blocks₁ bn'⟩⟩,
      allocated₁.data placed holds]
  · rw [if_pos ⟨none, isIndirect ▸ present₁⟩, freeCount_update notBitmap]
    have := allocated₁.freeCount_succ
    have := allocated₂.freeCount_succ
    omega

/-- bmap on a placed disk with the free blocks block `bn` needs returns the file's block `bn`,
allocating what is missing. -/
theorem bmap_spec (placed : Placed sb ip disk) (inFile : bn < MAXFILE)
    (room : blocksNeeded ip disk [bn] ≤ freeCount sb disk) :
    ∃ addr ip' disk', bmap sb ip disk bn = .ok (addr, ip', disk') ∧
      Mapped sb ip disk bn addr ip' disk' := by
  by_cases mapped : blockAt ip disk bn ≠ 0
  · obtain ⟨addr, ran, found⟩ := bmap_of_mapped mapped
    exact ⟨addr, ip, disk, ran, Mapped.of_mapped placed mapped found⟩
  · have missing : blockAt ip disk bn = 0 := not_not.mp mapped
    have need : blocksNeeded ip disk [bn] =
        1 + if indirectBlock ip = 0 ∧ NDIRECT ≤ bn then 1 else 0 := by
      simp [blocksNeeded, missing]
    rw [need] at room
    by_cases direct : bn < NDIRECT
    · exact bmap_direct_absent placed direct missing (by omega)
    · have indirect : NDIRECT ≤ bn := by omega
      by_cases none : indirectBlock ip = 0
      · rw [if_pos ⟨none, indirect⟩] at room
        exact bmap_indirect_absent placed indirect inFile none room
      · exact bmap_entry_absent placed indirect inFile none missing (by omega)

end Allocate

/-! ## One turn of writei's loop -/

section Chunk

variable {sb : Superblock} {ip ip' : Inode} {disk disk' disk'' : Disk} {bn : Nat} {addr : UInt32}

/-- The chunk a turn of writei's loop stores from `start` into the block bmap returned lands at
the file's offsets in block `bn` from `start` on, and no byte the file had elsewhere moves. -/
theorem Mapped.write (mapped : Mapped sb ip disk bn addr ip' disk') (inFile : bn < MAXFILE)
    (start : Nat) (chunk : List UInt8)
    (wrote : disk'' = Function.update disk' addr.toNat ((disk' addr.toNat).writeBytes start chunk)) :
    Placed sb ip' disk'' ∧ blockAt ip' disk'' = blockAt ip' disk' ∧
      freeCount sb disk'' = freeCount sb disk' ∧
      (∀ o, o / BSIZE = bn → start ≤ o % BSIZE → o % BSIZE < start + chunk.length →
        byteAt ip' disk'' o = chunk.getD (o % BSIZE - start) 0) ∧
      (∀ o, blockAt ip disk (o / BSIZE) ≠ 0 →
        (o / BSIZE = bn → o % BSIZE < start ∨ start + chunk.length ≤ o % BSIZE) →
        byteAt ip' disk'' o = byteAt ip disk o) := by
  subst wrote
  have found := mapped.found
  have dataBlock := mapped.placed.dataBlock inFile (found ▸ mapped.nonzero)
  rw [found] at dataBlock
  have blocks : blockAt ip' (Function.update disk' addr.toNat
      ((disk' addr.toNat).writeBytes start chunk)) = blockAt ip' disk' :=
    blockAt_update dataBlock.1 _
  refine ⟨mapped.placed.update dataBlock.1 dataBlock.2 _, blocks, freeCount_update dataBlock.2 _,
    fun o inBlock low high => ?_, fun o had outside => ?_⟩
  · rw [byteAt, blocks, inBlock, found, Function.update_self,
      Block.byte_writeBytes_inside _ (Nat.mod_lt _ (by decide)) low high]
  · rw [byteAt, byteAt, blocks]
    by_cases inBlock : o / BSIZE = bn
    · rw [inBlock, found, Function.update_self, Block.byte_writeBytes_outside _ (outside inBlock),
        mapped.kept (inBlock ▸ had), mapped.data _ (inBlock ▸ had)]
    · have apart : blockAt ip' disk' (o / BSIZE) ≠ addr.toNat := fun same =>
        inBlock (mapped.placed.apart _ (blockAt_inFile (mapped.others _ inBlock ▸ had)) bn inFile
          (mapped.others _ inBlock ▸ had) (same.trans found.symm))
      rw [Function.update_of_ne apart, mapped.others _ inBlock, mapped.data _ had]

end Chunk

/-! ## writei's loop -/

/-- The fields other than `addrs` of `ip'` are those of `ip`. -/
theorem fields_trans {a b c : Inode} (first : { b with addrs := a.addrs } = a)
    (second : { c with addrs := b.addrs } = b) : { c with addrs := a.addrs } = a := by
  rw [← second] at first
  exact first

/-- What writei's loop did from offset `off` with the bytes `src`: the inode is still placed
with no field but `addrs` changed, every block the file had is where it was, each byte of `src`
is at its offset in a block of the file, and every byte the file had elsewhere is as it was. -/
structure Written (sb : Superblock) (ip : Inode) (disk : Disk) (off : Nat) (src : List UInt8)
    (ip' : Inode) (disk' : Disk) : Prop where
  placed : Placed sb ip' disk'
  fields : { ip' with addrs := ip.addrs } = ip
  kept : ∀ bn, blockAt ip disk bn ≠ 0 → blockAt ip' disk' bn = blockAt ip disk bn
  written : ∀ o, off ≤ o → o < off + src.length →
    blockAt ip' disk' (o / BSIZE) ≠ 0 ∧ byteAt ip' disk' o = src.getD (o - off) 0
  others : ∀ o, o < off ∨ off + src.length ≤ o → blockAt ip disk (o / BSIZE) ≠ 0 →
    byteAt ip' disk' o = byteAt ip disk o

section WriteLoop

variable {sb : Superblock} {ip : Inode} {disk : Disk} {off : Nat} {src : List UInt8}

theorem Written.nil (placed : Placed sb ip disk) : Written sb ip disk off [] ip disk where
  placed := placed
  fields := rfl
  kept _ _ := rfl
  written o low high := absurd high (by simp; omega)
  others _ _ _ := rfl

/-- A turn that stored the first `m` bytes of `src` into the block bmap returned for the block `off`
lies in, followed by a loop that wrote the rest, wrote all of `src`. An offset of this turn's chunk
lies in block `off / BSIZE`, as far into it as from `off`. -/
theorem Written.chunk {ip₁ ip' : Inode} {disk₁ disk₂ disk' : Disk} {addr : UInt32} {m : Nat}
    (mapped : Mapped sb ip disk (off / BSIZE) addr ip₁ disk₁) (inFile : off / BSIZE < MAXFILE)
    (short : m ≤ src.length) (inBlock : m ≤ BSIZE - off % BSIZE)
    (wrote : disk₂ = Function.update disk₁ addr.toNat
      ((disk₁ addr.toNat).writeBytes (off % BSIZE) (src.take m)))
    (rest : Written sb ip₁ disk₂ (off + m) (src.drop m) ip' disk') :
    Written sb ip disk off src ip' disk' := by
  have bsize : BSIZE = 512 := rfl
  obtain ⟨-, blocks₂, -, inside, outside⟩ := mapped.write inFile (off % BSIZE) (src.take m) wrote
  have takeLength : (src.take m).length = m := by
    rw [List.length_take]
    omega
  have dropLength : (src.drop m).length = src.length - m := List.length_drop
  have chunk : ∀ o, off ≤ o → o < off + m →
      o / BSIZE = off / BSIZE ∧ o % BSIZE = off % BSIZE + (o - off) := by
    intro o low high
    rw [bsize] at inBlock ⊢
    omega
  have kept₁ : ∀ bn, blockAt ip disk bn ≠ 0 → blockAt ip₁ disk₂ bn = blockAt ip disk bn :=
    fun bn had => by rw [blocks₂, mapped.block had]
  refine ⟨rest.placed, fields_trans mapped.fields rest.fields,
    fun bn had => (rest.kept bn (by rw [kept₁ bn had]; exact had)).trans (kept₁ bn had),
    fun o low high => ?_, fun o away had => ?_⟩
  · by_cases early : o < off + m
    · obtain ⟨sameBlock, offset⟩ := chunk o low early
      have blockMapped : blockAt ip₁ disk₂ (o / BSIZE) ≠ 0 := by
        rw [blocks₂, sameBlock, mapped.found]
        exact mapped.nonzero
      refine ⟨by rw [rest.kept _ blockMapped]; exact blockMapped, ?_⟩
      rw [rest.others o (.inl early) blockMapped,
        inside o sameBlock (by omega) (by rw [takeLength]; omega), offset,
        Nat.add_sub_cancel_left, List.getD_eq_getElem?_getD, List.getD_eq_getElem?_getD,
        List.getElem?_take, if_pos (by omega)]
    · obtain ⟨mappedAfter, byte⟩ := rest.written o (by omega) (by rw [dropLength]; omega)
      refine ⟨mappedAfter, ?_⟩
      rw [byte, List.getD_eq_getElem?_getD, List.getD_eq_getElem?_getD, List.getElem?_drop]
      congr 3
      omega
  · have had₂ : blockAt ip₁ disk₂ (o / BSIZE) ≠ 0 := by
      rw [kept₁ _ had]
      exact had
    rw [rest.others o (by rw [dropLength]; omega) had₂]
    refine outside o had fun sameBlock => ?_
    rw [takeLength]
    rw [bsize] at sameBlock inBlock ⊢
    omega

/-- The blocks a write goes through: the one `off` lies in, then those of the bytes after this
block's chunk. -/
theorem writeBlocks_cons {len : Nat} (positive : 0 < len) :
    writeBlocks off len = off / BSIZE ::
      writeBlocks (off + min len (BSIZE - off % BSIZE)) (len - min len (BSIZE - off % BSIZE)) := by
  have bsize : BSIZE = 512 := rfl
  unfold writeBlocks
  rw [if_neg (by omega)]
  have count : (off + len - 1) / BSIZE + 1 - off / BSIZE =
      ((off + len - 1) / BSIZE - off / BSIZE) + 1 := by
    rw [bsize]
    omega
  rw [count, List.range'_succ]
  congr 1
  split_ifs with done
  · have last : (off + len - 1) / BSIZE - off / BSIZE = 0 := by
      rw [bsize] at done ⊢
      omega
    rw [last]
    rfl
  · rw [bsize] at done ⊢
    congr 1 <;> omega

theorem not_mem_writeBlocks_rest (len : Nat) : off / BSIZE ∉
    writeBlocks (off + min len (BSIZE - off % BSIZE)) (len - min len (BSIZE - off % BSIZE)) := by
  have bsize : BSIZE = 512 := rfl
  unfold writeBlocks
  split_ifs with done
  · simp
  · rw [List.mem_range'_1]
    rw [bsize] at done ⊢
    omega

/-- writei's loop on a placed disk, with the free blocks that the blocks it writes need and a turn
for each byte, stores all of `src` and ends past it. Each turn, bmap finds or allocates the block of
`off` out of the budget, and the chunk up to the end of that block is stored. -/
theorem writeLoop_spec : ∀ (fuel : Nat) (ip : Inode) (disk : Disk) (off : Nat) (src : List UInt8),
    Placed sb ip disk → src.length ≤ fuel → off + src.length ≤ MAXFILE * BSIZE →
    blocksNeeded ip disk (writeBlocks off src.length) ≤ freeCount sb disk →
    ∃ ip' disk', writeLoop sb fuel ip disk off src = .ok (ip', disk', off + src.length) ∧
      Written sb ip disk off src ip' disk'
  | 0, ip, disk, off, src, placed, enough, _, _ => by
    obtain rfl : src = [] := List.eq_nil_of_length_eq_zero (by omega)
    exact ⟨ip, disk, rfl, Written.nil placed⟩
  | fuel + 1, ip, disk, off, [], placed, _, _, _ => ⟨ip, disk, rfl, Written.nil placed⟩
  | fuel + 1, ip, disk, off, byte :: bytes, placed, enough, fits, room => by
    have bsize : BSIZE = 512 := rfl
    have positive : 0 < (byte :: bytes).length := by simp
    rw [writeBlocks_cons positive] at room
    have inFile : off / BSIZE < MAXFILE := by
      have : MAXFILE = 140 := rfl
      rw [bsize] at fits ⊢
      rw [this] at fits ⊢
      omega
    obtain ⟨addr, ip₁, disk₁, ran, mapped⟩ :=
      bmap_spec placed inFile ((blocksNeeded_singleton_le _).trans room)
    obtain ⟨used, spent, budget⟩ := mapped.budget
    have left := budget _ (not_mem_writeBlocks_rest (byte :: bytes).length)
    set m := min (byte :: bytes).length (BSIZE - off % BSIZE) with chunkLength
    obtain ⟨placed₂, blocks₂, free₂, -, -⟩ :=
      mapped.write inFile (off % BSIZE) ((byte :: bytes).take m) rfl
    have needs₂ : ∀ bns, blocksNeeded ip₁ (Function.update disk₁ addr.toNat
        ((disk₁ addr.toNat).writeBytes (off % BSIZE) ((byte :: bytes).take m))) bns =
        blocksNeeded ip₁ disk₁ bns :=
      fun bns => by rw [blocksNeeded, blocks₂, blocksNeeded]
    have chunkSize : 0 < m := by
      rw [chunkLength, bsize]
      simp only [List.length_cons]
      omega
    obtain ⟨ip', disk', loop, rest⟩ := writeLoop_spec fuel ip₁ _ (off + m) ((byte :: bytes).drop m)
      placed₂ (by rw [List.length_drop]; omega) (by rw [List.length_drop]; omega)
      (by rw [List.length_drop, needs₂, free₂]; omega)
    refine ⟨ip', disk', ?_, Written.chunk mapped inFile (Nat.min_le_left _ _)
      (Nat.min_le_right _ _) rfl rest⟩
    rw [writeLoop, if_neg (List.cons_ne_nil _ _)]
    simp only [bind, Except.bind, ran]
    rw [loop, List.length_drop]
    congr 3
    omega

end WriteLoop

/-! ## readi's loop -/

section ReadLoop

variable {sb : Superblock} {ip : Inode} {disk : Disk}

/-- readi's loop over bytes in blocks the file has allocates nothing and returns the file's bytes,
given a turn for each byte. Each turn's chunk is the file's bytes from `off` to the end of its
block. -/
theorem readLoop_spec : ∀ (fuel off left : Nat), left ≤ fuel →
    (∀ o, off ≤ o → o < off + left → blockAt ip disk (o / BSIZE) ≠ 0) →
    readLoop sb fuel ip disk off left =
      .ok ((List.range left).map fun j => byteAt ip disk (off + j), ip, disk)
  | 0, off, left, enough, _ => by
    obtain rfl : left = 0 := by omega
    rfl
  | fuel + 1, off, 0, _, _ => rfl
  | fuel + 1, off, left + 1, enough, mapped => by
    have bsize : BSIZE = 512 := rfl
    set m := min (left + 1) (BSIZE - off % BSIZE) with chunkLength
    have chunkSize : 0 < m := by
      rw [chunkLength, bsize]
      omega
    have short : m ≤ left + 1 := Nat.min_le_left _ _
    obtain ⟨addr, ran, found⟩ : ∃ addr : UInt32, bmap sb ip disk (off / BSIZE) =
        .ok (addr, ip, disk) ∧ addr.toNat = blockAt ip disk (off / BSIZE) :=
      bmap_of_mapped (mapped off (Nat.le_refl _) (by omega))
    have rest := readLoop_spec fuel (off + m) (left + 1 - m) (by omega)
      fun o low high => mapped o (by omega) (by omega)
    have chunk : (disk addr.toNat).bytes (off % BSIZE) m =
        (List.range m).map fun j => byteAt ip disk (off + j) := by
      apply List.map_congr_left
      intro j inRange
      rw [List.mem_range] at inRange
      have sameBlock : (off + j) / BSIZE = off / BSIZE := by
        rw [bsize] at chunkLength ⊢
        omega
      have offset : (off + j) % BSIZE = off % BSIZE + j := by
        rw [bsize] at chunkLength ⊢
        omega
      rw [byteAt, sameBlock, found, offset]
    rw [readLoop, if_neg (Nat.succ_ne_zero _)]
    simp only [bind, Except.bind, ran]
    rw [← chunkLength, rest, chunk]
    obtain ⟨k, whole⟩ : ∃ k, left + 1 = m + k := ⟨left + 1 - m, by omega⟩
    rw [whole, Nat.add_sub_cancel_left, List.range_add, List.map_append, List.map_map]
    simp only [pure, Except.pure, Function.comp_def, Nat.add_assoc]

end ReadLoop

/-! ## The file's bytes -/

section Contents

variable {ip : Inode} {disk : Disk}

@[simp] theorem contents_length : (contents ip disk).length = ip.size.toNat := by
  simp [contents]

theorem contents_getElem? (o : Nat) :
    (contents ip disk)[o]? = if o < ip.size.toNat then some (byteAt ip disk o) else none := by
  unfold contents
  rw [List.getElem?_map]
  split_ifs with inside
  · rw [List.getElem?_range inside]
    rfl
  · rw [List.getElem?_eq_none (by simp; omega)]
    rfl

/-- The bytes of the file from `o` on, `k` of them, as readi's loop collects them. -/
theorem contents_window {o k : Nat} (inside : o + k ≤ ip.size.toNat) :
    (List.range k).map (fun j => byteAt ip disk (o + j)) = ((contents ip disk).drop o).take k := by
  apply List.ext_getElem?
  intro j
  rw [List.getElem?_map, List.getElem?_take, List.getElem?_drop, contents_getElem?]
  by_cases small : j < k
  · rw [List.getElem?_range small, if_pos small, if_pos (by omega)]
    rfl
  · rw [List.getElem?_eq_none (by simp; omega), if_neg small]
    rfl

/-- A store into a block the inode does not hold leaves every byte of the file that lies in a
block of the file. -/
theorem byteAt_update {r : Nat} (notHeld : ¬ Holds ip disk r) (x : Block BSIZE) {o : Nat}
    (had : blockAt ip disk (o / BSIZE) ≠ 0) :
    byteAt ip (Function.update disk r x) o = byteAt ip disk o := by
  have notIndirect : indirectBlock ip ≠ 0 → r ≠ indirectBlock ip := fun present same =>
    notHeld (same ▸ ⟨present, .inr rfl⟩)
  have apart : blockAt ip disk (o / BSIZE) ≠ r := fun same =>
    notHeld (same ▸ holds_of_blockAt (blockAt_inFile had) had)
  rw [byteAt, blockAt_update notIndirect, Function.update_of_ne apart, byteAt]

end Contents

/-- The bytes writei leaves at offset `o`: the source's inside the write, the old ones
elsewhere. -/
theorem writei_getElem? (data src : List UInt8) {off : Nat} (fits : off ≤ data.length) (o : Nat) :
    (data.take off ++ src ++ data.drop (off + src.length))[o]? =
      if o < off then data[o]? else if o < off + src.length then src[o - off]? else data[o]? := by
  have takeLength : (data.take off).length = off := by
    rw [List.length_take]
    omega
  split_ifs with before within
  · rw [List.append_assoc, List.getElem?_append_left (by omega), List.getElem?_take,
      if_pos before]
  · rw [List.getElem?_append_left (by rw [List.length_append]; omega),
      List.getElem?_append_right (by omega), takeLength]
  · rw [List.getElem?_append_right (by rw [List.length_append]; omega), List.getElem?_drop,
      List.length_append, takeLength]
    congr 1
    omega

/-! ## readi -/

section Readi

variable {sb : Superblock} {ip : Inode} {disk : Disk}

/-- readi on a file every byte of which lies in a block of the file allocates nothing, and
returns as many bytes from `o` as asked for and none past the end. -/
theorem readi_spec (notDevice : ip.type ≠ T_DEV) (covered : Covered ip disk)
    (small : ip.size.toNat < 2 ^ 31) {o k : UInt32} (within : o ≤ ip.size)
    (noWrap : o.toNat + k.toNat < 2 ^ 32) :
    readi sb ip disk o k = some (.ok (min k.toNat (ip.size.toNat - o.toNat),
      ((contents ip disk).drop o.toNat).take k.toNat, ip, disk)) := by
  have withinNat : o.toNat ≤ ip.size.toNat := UInt32.le_iff_toNat_le.mp within
  have sum : (o + k).toNat = o.toNat + k.toNat := by
    rw [UInt32.toNat_add]
    omega
  have notWrap : ¬ (o + k < o) := by
    rw [UInt32.lt_iff_toNat_lt, sum]
    omega
  have notPast : ¬ (o > ip.size) := by
    rw [gt_iff_lt, UInt32.lt_iff_toNat_lt]
    omega
  have count : (if o + k > ip.size then ip.size - o else k).toNat =
      min k.toNat (ip.size.toNat - o.toNat) := by
    split_ifs with past
    · rw [gt_iff_lt, UInt32.lt_iff_toNat_lt, sum] at past
      rw [UInt32.toNat_sub_of_le _ _ within]
      omega
    · rw [gt_iff_lt, UInt32.lt_iff_toNat_lt, sum] at past
      omega
  have fits : o.toNat + min k.toNat (ip.size.toNat - o.toNat) ≤ ip.size.toNat := by omega
  unfold readi
  rw [if_neg notDevice, if_neg (not_or.mpr ⟨notPast, notWrap⟩)]
  simp only [count]
  rw [readLoop_spec _ _ _ (Nat.le_refl _) fun p low high => covered p (by omega),
    contents_window fits]
  simp only [Except.map, Option.some.injEq, Except.ok.injEq, Prod.mk.injEq, and_true]
  constructor
  · rw [toSigned, count, if_pos (by omega)]
    omega
  · rw [List.take_eq_take_iff, List.length_drop, contents_length]
    omega

end Readi

/-! ## writei -/

section Writei

variable {sb : Superblock} {ip ip₁ : Inode} {disk disk₁ : Disk} {off : Nat} {src : List UInt8}

/-- The size is not part of the layout. -/
theorem Placed.resize (placed : Placed sb ip disk) (size : UInt32) :
    Placed sb { ip with size := size } disk :=
  ⟨placed.apart, placed.indirectApart, placed.held, placed.free, placed.inodeBlock⟩

/-- iupdate stores into the inode block, which holds no byte of the file. -/
theorem Placed.iupdate (placed : Placed sb ip disk) :
    Placed sb ip (iupdate sb ip disk) ∧ blockAt ip (iupdate sb ip disk) = blockAt ip disk ∧
      ∀ o, blockAt ip disk (o / BSIZE) ≠ 0 → byteAt ip (iupdate sb ip disk) o = byteAt ip disk o :=
  have apart := placed.inodeBlockApart
  have notHeld : ¬ Holds ip disk (IBLOCK ip.inum sb) := fun holds => (placed.held _ holds).2.2.2 rfl
  ⟨placed.update apart.1 apart.2 _, blockAt_update apart.1 _, fun _ had => byteAt_update notHeld _ had⟩

/-- The file after writei's loop and the size set to the end of the write: every byte below
its end lies in a block of the file. -/
theorem Written.covered (covered : Covered ip disk) (written : Written sb ip disk off src ip₁ disk₁)
    (fits : off ≤ ip.size.toNat) {ip' : Inode} {disk' : Disk} (blocks : blockAt ip' disk' = blockAt ip₁ disk₁)
    (size : ip'.size.toNat = max ip.size.toNat (off + src.length)) : Covered ip' disk' := by
  intro o below
  rw [blocks]
  by_cases within : off ≤ o ∧ o < off + src.length
  · exact (written.written o within.1 within.2).1
  · have had := covered o (by omega)
    rw [written.kept _ had]
    exact had

/-- ... and its bytes are `Data.writei`'s. -/
theorem Written.contents (covered : Covered ip disk) (written : Written sb ip disk off src ip₁ disk₁)
    (fits : off ≤ ip.size.toNat) {ip' : Inode} {disk' : Disk}
    (size : ip'.size.toNat = max ip.size.toNat (off + src.length))
    (bytes : ∀ o, blockAt ip₁ disk₁ (o / BSIZE) ≠ 0 → byteAt ip' disk' o = byteAt ip₁ disk₁ o) :
    contents ip' disk' =
      (contents ip disk).take off ++ src ++ (contents ip disk).drop (off + src.length) := by
  have kept : ∀ o, (o < off ∨ off + src.length ≤ o) → o < ip.size.toNat →
      byteAt ip' disk' o = byteAt ip disk o := fun o outside old => by
    have had := covered o old
    rw [bytes o (by rw [written.kept _ had]; exact had), written.others o outside had]
  apply List.ext_getElem?
  intro o
  rw [writei_getElem? _ _ (by rw [contents_length]; exact fits), contents_getElem?,
    contents_getElem?]
  by_cases before : o < off
  · rw [if_pos (by omega), if_pos before, if_pos (by omega), kept o (.inl before) (by omega)]
  · by_cases within : o < off + src.length
    · obtain ⟨mapped, byte⟩ := written.written o (by omega) within
      have inSource : o - off < src.length := by omega
      rw [if_pos (by omega), if_neg before, if_pos within, bytes o mapped, byte,
        List.getElem?_eq_getElem inSource, List.getD_eq_getElem?_getD,
        List.getElem?_eq_getElem inSource, Option.getD_some]
    · rw [if_neg before, if_neg within]
      by_cases old : o < ip.size.toNat
      · rw [if_pos (by omega), if_pos old, kept o (.inr (by omega)) old]
      · rw [if_neg (by omega), if_neg old]

/-- writei on a placed disk whose file lies in its blocks, with the free blocks its blocks need,
writes all `n` bytes without reaching bmap's panic and grows the file to the end of the write: the
file is then `Data.writei`'s, still placed and in its blocks. A write that ends past the end moves
the size there and stores the inode; one that ends inside the file stores nothing but the blocks. -/
theorem writei_spec (notDevice : ip.type ≠ T_DEV) (placed : Placed sb ip disk)
    (covered : Covered ip disk) {src : List UInt8} {off n : UInt32}
    (srcLength : src.length = n.toNat) (within : off ≤ ip.size)
    (fits : off.toNat + n.toNat ≤ MAXFILE * BSIZE)
    (room : blocksNeeded ip disk (writeBlocks off.toNat n.toNat) ≤ freeCount sb disk) :
    ∃ ip' disk', writei sb ip disk src off n = some (.ok (n.toNat, ip', disk')) ∧
      ip'.type = ip.type ∧ ip'.size.toNat = max ip.size.toNat (off.toNat + n.toNat) ∧
      Data.writei (contents ip disk) src off.toNat = some (contents ip' disk') ∧
      Placed sb ip' disk' ∧ Covered ip' disk' := by
  have maxfile : MAXFILE * BSIZE = 71680 := rfl
  have withinNat : off.toNat ≤ ip.size.toNat := UInt32.le_iff_toNat_le.mp within
  have sum : (off + n).toNat = off.toNat + n.toNat := by
    rw [UInt32.toNat_add]
    omega
  have notWrap : ¬ (off + n < off) := by
    rw [UInt32.lt_iff_toNat_lt, sum]
    omega
  have notPast : ¬ (off > ip.size) := by
    rw [gt_iff_lt, UInt32.lt_iff_toNat_lt]
    omega
  have notBeyond : ¬ ((off + n).toNat > MAXFILE * BSIZE) := by
    rw [sum]
    omega
  have signed : toSigned n = n.toNat := by
    rw [toSigned, if_pos (by omega)]
  obtain ⟨ip₁, disk₁, loop, written⟩ := writeLoop_spec n.toNat ip disk off.toNat src placed
    (by omega) (by omega) (by rw [srcLength]; exact room)
  have type₁ : ip₁.type = ip.type := by rw [← written.fields]
  have size₁ : ip₁.size = ip.size := by rw [← written.fields]
  have data : Data.writei (contents ip disk) src off.toNat = some ((contents ip disk).take
      off.toNat ++ src ++ (contents ip disk).drop (off.toNat + src.length)) := by
    rw [Data.writei, if_neg (by rw [contents_length]; omega), if_neg (by omega)]
  unfold writei
  rw [if_neg notDevice, if_neg (not_or.mpr ⟨notPast, notWrap⟩), if_neg notBeyond,
    List.take_of_length_le (by omega)]
  simp only [bind, Except.bind, loop]
  split_ifs with grow
  · have last : (UInt32.ofNat (off.toNat + src.length)).toNat = off.toNat + src.length :=
      UInt32.toNat_ofNat_of_lt' (by rw [UInt32.size]; omega)
    have size : (UInt32.ofNat (off.toNat + src.length)).toNat =
        max ip.size.toNat (off.toNat + src.length) := by
      rw [← size₁, last]
      omega
    obtain ⟨placed', blocks', bytes'⟩ :=
      (written.placed.resize (UInt32.ofNat (off.toNat + src.length))).iupdate
    refine ⟨{ ip₁ with size := UInt32.ofNat (off.toNat + src.length) },
      iupdate sb { ip₁ with size := UInt32.ofNat (off.toNat + src.length) } disk₁,
      by rw [signed]; rfl, type₁, by rw [← srcLength]; exact size, ?_, placed',
      written.covered covered withinNat blocks' size⟩
    rw [data, written.contents covered withinNat size bytes']
  · have size : ip₁.size.toNat = max ip.size.toNat (off.toNat + src.length) := by
      rw [gt_iff_lt, UInt32.lt_iff_toNat_lt, UInt32.toNat_zero, size₁] at grow
      rw [size₁]
      omega
    refine ⟨ip₁, disk₁, by rw [signed]; rfl, type₁, by rw [← srcLength]; exact size, ?_,
      written.placed, written.covered covered withinNat rfl size⟩
    rw [data, written.contents covered withinNat size fun _ _ => rfl]

end Writei

/-! ## writei and readi agree -/

/-- An inode that holds no block is placed when every free block is a data block and its inode
block is not a block of the free map. -/
theorem Placed.of_empty {sb : Superblock} {ip : Inode} {disk : Disk} (empty : ∀ i, ip.addrs i = 0)
    (free : ∀ b < sb.size.toNat, bitSet sb disk b = false →
      b ≠ 0 ∧ ¬ IsBitmapBlock sb b ∧ b ≠ IBLOCK ip.inum sb)
    (inodeBlock : ¬ IsBitmapBlock sb (IBLOCK ip.inum sb)) : Placed sb ip disk := by
  have none : indirectBlock ip = 0 := by rw [indirectBlock, empty]; rfl
  have noBlock : ∀ bn, blockAt ip disk bn = 0 := fun bn => by
    by_cases direct : bn < NDIRECT
    · rw [blockAt_of_direct direct, empty]
      rfl
    · exact blockAt_of_no_indirect (by omega) none
  have holdsNothing : ∀ r, ¬ Holds ip disk r := by
    rintro r ⟨nonzero, ⟨bn, -, found⟩ | isIndirect⟩
    · exact nonzero (found ▸ noBlock bn)
    · exact nonzero (isIndirect ▸ none)
  exact ⟨fun bn _ _ _ mapped => absurd (noBlock bn) mapped,
    fun bn _ mapped => absurd (noBlock bn) mapped, fun r holds => absurd holds (holdsNothing r),
    free, inodeBlock⟩

theorem writei_readi_agree (sb : Superblock) (ip : Inode) (disk : Disk)
    (notDevice : ip.type ≠ T_DEV) :
    (∀ (src : List UInt8) (off n : UInt32), (ip.size < off ∨ off + n < off) →
      writei sb ip disk src off n = some (.ok (-1, ip, disk)) ∧
        readi sb ip disk off n = some (.ok (-1, [], ip, disk))) ∧
    (Placed sb ip disk → ip.size.toNat ≤ MAXFILE * BSIZE → Covered ip disk →
      ∀ (src : List UInt8) (off n : UInt32), src.length = n.toNat → off ≤ ip.size →
        off.toNat + n.toNat ≤ MAXFILE * BSIZE →
        blocksNeeded ip disk (writeBlocks off.toNat n.toNat) ≤ freeCount sb disk →
        ∃ ip' disk', writei sb ip disk src off n = some (.ok (n.toNat, ip', disk')) ∧
          ip'.size.toNat = max ip.size.toNat (off.toNat + n.toNat) ∧
          Data.writei (contents ip disk) src off.toNat = some (contents ip' disk') ∧
          Placed sb ip' disk' ∧ Covered ip' disk' ∧
          ∀ o k : UInt32, o ≤ ip'.size → o.toNat + k.toNat < 2 ^ 32 →
            readi sb ip' disk' o k = some (.ok (min k.toNat (ip'.size.toNat - o.toNat),
              ((contents ip' disk').drop o.toNat).take k.toNat, ip', disk'))) := by
  refine ⟨fun src off n refused => ⟨?_, ?_⟩,
    fun placed sizeFits covered src off n srcLength within fits room => ?_⟩
  · unfold writei
    rw [if_neg notDevice, if_pos refused]
  · unfold readi
    rw [if_neg notDevice, if_pos refused]
  · have maxfile : MAXFILE * BSIZE = 71680 := rfl
    obtain ⟨ip', disk', wrote, type', size', data, placed', covered'⟩ :=
      writei_spec notDevice placed covered srcLength within fits room
    refine ⟨ip', disk', wrote, size', data, placed', covered', fun o k within' noWrap => ?_⟩
    exact readi_spec (by rw [type']; exact notDevice) covered' (by omega) within' noWrap

/-- A file system of 64 blocks, with its inodes from block 4 and its free map in block 5. -/
def freshSb : Superblock := ⟨64, 30, 8, 2, 2, 4, 5⟩

/-- An empty regular file, inode 1. -/
def freshInode : Inode := ⟨1, T_FILE, 0, 0, 1, 0, fun _ => 0⟩

/-- A disk on which blocks 0 to 49 are in use and 50 to 63 are free. -/
def freshDisk : Disk := fun blk =>
  if blk = 5 then fun j => if j.val < 6 then 0xff else if j.val = 6 then 3 else 0
  else fun _ => 0

/-- Two bytes written into the empty file read back. -/
theorem writei_readi_fresh :
    ∃ ip' disk', writei freshSb freshInode freshDisk [7, 8] 0 2 = some (.ok (2, ip', disk')) ∧
      readi freshSb ip' disk' 0 2 = some (.ok (2, [7, 8], ip', disk')) := by
  have placed : Placed freshSb freshInode freshDisk :=
    Placed.of_empty (fun _ => rfl) (by decide +kernel) (by decide +kernel)
  obtain ⟨ip', disk', wrote, size', data, -, -, read⟩ :=
    (writei_readi_agree freshSb freshInode freshDisk (by decide)).2 placed (by decide)
      (by decide) [7, 8] 0 2 rfl (by decide) (by decide) (by decide +kernel)
  have bytes : contents ip' disk' = [7, 8] := by
    rw [← Option.some.inj data]
    rfl
  refine ⟨ip', disk', wrote, ?_⟩
  rw [read 0 2 (by rw [UInt32.le_iff_toNat_le]; omega) (by decide), bytes, size']
  rfl

/-- A regular file of two blocks, both at block 50: mkfs and the kernel never build it, but it is
not a device, fits MAXFILE, and lies in blocks of the disk, and no block has to be allocated to
write it. -/
def aliasInode : Inode :=
  ⟨1, T_FILE, 0, 0, 1, 1024, fun i => if i.val < 2 then 50 else 0⟩

/-- A disk on which every block is in use. -/
def aliasDisk : Disk := fun blk =>
  if blk = 5 then fun j => if j.val < 8 then 0xff else 0 else fun _ => 0

/-- The disk after byte 7 is written at offset 0 of `aliasInode`. -/
def aliasWritten : Disk := Function.update aliasDisk 50 ((aliasDisk 50).writeBytes 0 [7])

/-- Without the layout, writei and readi disagree: the file lies in its blocks, no block has to
be allocated, and writei of one byte at offset 0 returns 1, but the byte at offset 512, which
the write does not cover and which was 0, then reads back as the byte written. -/
theorem writei_aliased_blocks :
    aliasInode.type ≠ T_DEV ∧ aliasInode.size.toNat ≤ MAXFILE * BSIZE ∧
      Covered aliasInode aliasDisk ∧
      blocksNeeded aliasInode aliasDisk (writeBlocks 0 1) ≤ freeCount freshSb aliasDisk ∧
      ¬ Placed freshSb aliasInode aliasDisk ∧
      writei freshSb aliasInode aliasDisk [7] 0 1 = some (.ok (1, aliasInode, aliasWritten)) ∧
      (∃ expected, Data.writei (contents aliasInode aliasDisk) [7] 0 = some expected ∧
        (expected.drop 512).take 1 = [0]) ∧
      readi freshSb aliasInode aliasWritten 512 1 =
        some (.ok (1, [7], aliasInode, aliasWritten)) := by
  refine ⟨by decide, by decide, by decide +kernel, by decide +kernel, fun placed => ?_, rfl,
    ⟨_, rfl, ?_⟩, rfl⟩
  · have shared := placed.apart 0 (by decide) 1 (by decide) (by decide) rfl
    cases shared
  · decide +kernel

end Xv6.Fs
