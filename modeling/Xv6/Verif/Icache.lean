import Xv6.Fs.Icache
import Xv6.Lib.Run
import Xv6.Lib.Except

/-!
# The inode cache keeps its entries apart, counted and in step with the disk

Three invariants of every run of the cache. No two entries that a pointer refers to are for
one inode (`Unique`), so the sleep lock of an entry is the only lock of its inode. The count of
an entry is the number of references the processes hold to it, and the holder of a lock holds
one (`Counted`), so no pointer is left to an entry that `iget` recycles. And a valid entry agrees
with its dinode: in its type always, and in every field once its holder has written its changes
(`Coherent`), so `ilock` may skip the read of a valid entry. The last needs the inode blocks to
lie below the free map, as mkfs lays the disk out, so that freeing a block writes no dinode.

Underneath: the dinode `iupdate` writes reads back as the inode it was written from, and leaves
every other dinode as it was; `itrunc` leaves the inode with size 0 and no blocks, and writes
only blocks of the free map and its own dinode.
-/

namespace Xv6.Fs

open Xv6.Bytes Xv6.Run Xv6.Except

/-! ## The dinode in its inode block -/

section Dinode

variable {sb : Superblock}

@[simp] theorem dinodeBytes_length (ip : Inode) : (dinodeBytes ip).length = dinodeSize := by
  simp [dinodeBytes, dinodeSize, NDIRECT]

/-- A dinode lies inside its inode block. -/
theorem dinode_fits (inum : Nat) : inum % IPB * dinodeSize + dinodeSize ≤ BSIZE := by
  have eight : IPB = 8 := rfl
  rw [eight]
  unfold dinodeSize BSIZE NDIRECT
  omega

/-- `readDinode` reads the bytes of the dinode and nothing else. -/
theorem readDinode_congr {disk disk' : Disk} {inum : Nat}
    (same : (disk' (IBLOCK inum sb)).bytes (inum % IPB * dinodeSize) dinodeSize =
      (disk (IBLOCK inum sb)).bytes (inum % IPB * dinodeSize) dinodeSize) :
    readDinode sb disk' inum = readDinode sb disk inum := by
  unfold readDinode
  rw [same]

@[simp] theorem readDinode_inum (disk : Disk) (inum : Nat) :
    (readDinode sb disk inum).inum = inum := rfl

/-- The bytes of a dinode read back as the inode they were written from. -/
theorem readDinode_bytes {disk : Disk} {ip : Inode}
    (stored : (disk (IBLOCK ip.inum sb)).bytes (ip.inum % IPB * dinodeSize) dinodeSize =
      dinodeBytes ip) :
    readDinode sb disk ip.inum = ip := by
  have addrs : ∀ i : Fin (NDIRECT + 1),
      (readLe32 (((List.finRange (NDIRECT + 1)).flatMap fun i => le32 (ip.addrs i)).drop
        (4 * i.val))).1 = ip.addrs i := by
    intro i
    rw [← List.flatMap_map, readLe32_drop_flatMap _ (by simpa using i.isLt), List.getElem_map,
      List.getElem_finRange]
    rfl
  unfold readDinode
  rw [stored]
  simp only [dinodeBytes, List.append_assoc, readLe16_le16, readLe32_le32, addrs]

/-- The dinode `iupdate` writes reads back. -/
theorem readDinode_iupdate_self (ip : Inode) (disk : Disk) :
    readDinode sb (iupdate sb ip disk) ip.inum = ip := by
  have fits : ip.inum % IPB * dinodeSize + (dinodeBytes ip).length ≤ BSIZE := by
    rw [dinodeBytes_length]
    exact dinode_fits ip.inum
  have stored := Block.bytes_writeBytes_self (disk (IBLOCK ip.inum sb)) fits
  rw [dinodeBytes_length] at stored
  apply readDinode_bytes
  rw [iupdate, Function.update_self, stored]

/-- `iupdate` leaves the dinode of every other inode: another block, or another slot of the
same block. -/
theorem readDinode_iupdate_of_ne (ip : Inode) (disk : Disk) {inum : Nat} (other : inum ≠ ip.inum) :
    readDinode sb (iupdate sb ip disk) inum = readDinode sb disk inum := by
  have eight : IPB = 8 := rfl
  have size : dinodeSize = 64 := rfl
  apply readDinode_congr
  unfold iupdate
  by_cases sameBlock : IBLOCK inum sb = IBLOCK ip.inum sb
  · have apartSlots : inum % IPB ≠ ip.inum % IPB := by
      unfold IBLOCK at sameBlock
      rw [eight] at sameBlock ⊢
      omega
    rw [sameBlock, Function.update_self]
    apply Block.bytes_writeBytes_apart
    rw [dinodeBytes_length, size]
    omega
  · rw [Function.update_of_ne sameBlock]

/-- A write to another block leaves a dinode. -/
theorem readDinode_update_of_ne {disk : Disk} {inum blk : Nat} (apart : blk ≠ IBLOCK inum sb)
    (block : Block BSIZE) :
    readDinode sb (Function.update disk blk block) inum = readDinode sb disk inum := by
  apply readDinode_congr
  rw [Function.update_of_ne apart.symm]

end Dinode

/-! ## Freeing an inode's blocks -/

section Free

variable {sb : Superblock}

/-- bfree writes only the block of the free map that holds the bit it clears. -/
theorem bfree_frame {disk disk' : Disk} {b : Nat} (freed : bfree sb disk b = .ok disk')
    {blk : Nat} (other : blk ≠ BBLOCK b sb) : disk' blk = disk blk := by
  unfold bfree at freed
  by_cases set : bitSet sb disk b = true
  · rw [if_neg (by simp [set])] at freed
    cases freed
    exact Function.update_of_ne other _ _
  · rw [if_pos (by simpa using set)] at freed
    cases freed

/-- A block below the free map is none of its blocks. -/
theorem ne_bblock_of_lt {blk : Nat} (below : blk < sb.bmapstart.toNat) (b : Nat) :
    blk ≠ BBLOCK b sb :=
  Nat.ne_of_lt (Nat.lt_of_lt_of_le below (Nat.le_add_left _ _))

/-- bfree of a list of blocks leaves every block below the free map. -/
theorem bfreeEach_below : ∀ (bs : List Nat) {disk disk' : Disk},
    bfreeEach sb bs disk = .ok disk' → ∀ {blk : Nat}, blk < sb.bmapstart.toNat → disk' blk = disk blk
  | [], disk, disk', freed, blk, _ => by
    cases freed
    rfl
  | b :: bs, disk, disk', freed, blk, below => by
    rw [bfreeEach] at freed
    by_cases present : b ≠ 0
    · rw [if_pos present] at freed
      obtain ⟨mid, first, rest⟩ := bind_eq_ok freed
      rw [bfreeEach_below bs rest below, bfree_frame first (ne_bblock_of_lt below b)]
    · rw [if_neg present] at freed
      exact bfreeEach_below bs freed below

/-- What itrunc leaves: the inode with size 0 and no blocks, written to its inode block over a
disk in which only blocks of the free map changed. -/
theorem itrunc_ok {ip ip' : Inode} {disk disk' : Disk} (ran : itrunc sb ip disk = .ok (ip', disk')) :
    ip' = { ip with size := 0, addrs := fun _ => 0 } ∧
      ∃ freed : Disk, disk' = iupdate sb ip' freed ∧
        ∀ blk < sb.bmapstart.toNat, freed blk = disk blk := by
  unfold itrunc at ran
  obtain ⟨direct, directFreed, ran⟩ := bind_eq_ok ran
  dsimp only at ran
  by_cases present : indirectBlock ip ≠ 0
  · rw [if_pos (by simpa [indirectBlock] using present)] at ran
    obtain ⟨listed, listedFreed, ran⟩ := bind_eq_ok ran
    obtain ⟨last, lastFreed, ran⟩ := bind_eq_ok ran
    simp only [pure, Except.pure, ok_bind, Except.ok.injEq, Prod.mk.injEq] at ran
    obtain ⟨rfl, rfl⟩ := ran
    refine ⟨rfl, last, rfl, fun blk below => ?_⟩
    rw [bfree_frame lastFreed (ne_bblock_of_lt below _), bfreeEach_below _ listedFreed below,
      bfreeEach_below _ directFreed below]
  · rw [if_neg (by simpa [indirectBlock] using present)] at ran
    simp only [pure, Except.pure, ok_bind, Except.ok.injEq, Prod.mk.injEq] at ran
    obtain ⟨rfl, rfl⟩ := ran
    have absent : ip.addrs indirectSlot = 0 := by
      simpa [indirectBlock, word_toNat_eq_zero] using present
    have cleared : (fun i => if i = indirectSlot then ip.addrs i else 0) =
        fun _ : Fin (NDIRECT + 1) => (0 : UInt32) := by
      funext i
      by_cases slot : i = indirectSlot
      · rw [if_pos slot, slot, absent]
      · rw [if_neg slot]
    exact ⟨by rw [cleared], direct, by rw [cleared], fun blk below => bfreeEach_below _ directFreed below⟩

end Free

/-! ## The layout of the disk -/

section Layout

variable {sb : Superblock}

/-- The inode blocks lie below the free map, as mkfs lays the disk out. -/
def InodesBelowBitmap (sb : Superblock) : Prop :=
  ∀ inum < sb.ninodes.toNat, IBLOCK inum sb < sb.bmapstart.toNat

/-- The dinode of an entry on a device after a new disk for one device. -/
theorem readDinode_update_disks (disks : Nat → Disk) (dev : Nat) (disk : Disk)
    (e : CachedInode) :
    readDinode sb (Function.update disks dev disk e.dev) e.inum =
      if e.dev = dev then readDinode sb disk e.inum else readDinode sb (disks e.dev) e.inum := by
  by_cases same : e.dev = dev
  · rw [if_pos same, same, Function.update_self]
  · rw [if_neg same, Function.update_of_ne same]

/-- A block of the inode area holds no dinode below `sb.ninodes`'s block, or is above it. -/
theorem ne_iblock_of_not_inInodeArea (layout : InodesBelowBitmap sb) {blockno inum : Nat}
    (outside : inInodeArea sb blockno = false) (inArea : inum < sb.ninodes.toNat) :
    blockno ≠ IBLOCK inum sb := by
  have below := layout inum inArea
  unfold inInodeArea at outside
  unfold IBLOCK at below ⊢
  simp only [Bool.and_eq_false_iff, decide_eq_false_iff_not, Nat.not_le, Nat.not_lt] at outside
  generalize inum / IPB = slot at below ⊢
  omega

/-- itrunc leaves the dinode of every other inode of the inode area. -/
theorem readDinode_itrunc {sb : Superblock} (layout : InodesBelowBitmap sb) {ip ip' : Inode}
    {disk disk' : Disk} (ran : itrunc sb ip disk = .ok (ip', disk')) {inum : Nat}
    (inArea : inum < sb.ninodes.toNat) (other : inum ≠ ip.inum) :
    readDinode sb disk' inum = readDinode sb disk inum := by
  obtain ⟨fields, freed, written, below⟩ := itrunc_ok ran
  have sameInum : ip'.inum = ip.inum := by rw [fields]
  rw [written, readDinode_iupdate_of_ne _ _ (sameInum ▸ other)]
  exact readDinode_congr (by rw [below _ (layout inum inArea)])

/-- The superblock mkfs writes: FSSIZE blocks, two for boot and super, LOGSIZE for the log,
NINODES / IPB + 1 inode blocks and one bitmap block (mkfs.c). -/
def mkfsSuperblock : Superblock :=
  { size := 1000, nblocks := 941, ninodes := 200, nlog := 30, logstart := 2, inodestart := 32,
    bmapstart := 58 }

/-- The inode blocks of mkfs's disk lie below its free map. -/
theorem mkfsSuperblock_layout : InodesBelowBitmap mkfsSuperblock := by
  intro inum inArea
  have eight : IPB = 8 := rfl
  unfold IBLOCK
  rw [eight]
  simp only [mkfsSuperblock] at inArea ⊢
  simp only [UInt32.reduceToNat] at inArea ⊢
  omega

end Layout

/-! ## Where a process stands -/

namespace IcachePc

/-- The entry whose `iput` the process is in. -/
def putting : IcachePc → Option (Fin NINODE)
  | .putLocked i | .putFree i | .putRelease i | .putDrop i => some i
  | _ => none

/-- The entry whose lock the process holds inside `iput`, up to its release. -/
def putLock : IcachePc → Option (Fin NINODE)
  | .putLocked i | .putFree i | .putRelease i => some i
  | _ => none

end IcachePc

namespace Icache

/-! ## References -/

section Counts

variable {ι : Type} {s : Icache ι} {p : ι} {i : Fin NINODE}

/-- An entry some pointer refers to. -/
def Live (s : Icache ι) (i : Fin NINODE) : Prop := 0 < (s.inode i).ref

section Holds

variable [DecidableEq ι]

theorem holds_hold (s : Icache ι) (p q : ι) (i j : Fin NINODE) :
    (s.hold p i).holds q j = s.holds q j + if q = p ∧ j = i then 1 else 0 := by
  by_cases hit : q = p ∧ j = i
  · obtain ⟨rfl, rfl⟩ := hit
    simp
  · by_cases qp : q = p
    · subst qp
      have ji : j ≠ i := fun same => hit ⟨rfl, same⟩
      simp [ji]
    · simp [qp]

theorem holds_le_hold (s : Icache ι) (p q : ι) (i j : Fin NINODE) :
    s.holds q j ≤ (s.hold p i).holds q j := by
  rw [holds_hold]
  omega

theorem holds_unhold (s : Icache ι) (p q : ι) (i j : Fin NINODE) :
    (s.unhold p i).holds q j = if q = p ∧ j = i then s.holds q j - 1 else s.holds q j := by
  by_cases hit : q = p ∧ j = i
  · obtain ⟨rfl, rfl⟩ := hit
    simp
  · by_cases qp : q = p
    · subst qp
      have ji : j ≠ i := fun same => hit ⟨rfl, same⟩
      simp [ji]
    · simp [qp]

end Holds

variable [Fintype ι]

/-- The count of each entry is the number of references the processes hold to it, and a process
that holds a lock, or is inside `iput`, holds a reference to the entry. -/
structure Counted (s : Icache ι) : Prop where
  ref_eq : ∀ i, (s.inode i).ref = ∑ p, s.holds p i
  holder : ∀ i p, s.locked i = some p → 0 < s.holds p i
  putting : ∀ p i, (s.pc p).putting = some i → 0 < s.holds p i
  /-- Up to its release, `iput` holds the lock of an entry with no unwritten change. -/
  putLock : ∀ p i, (s.pc p).putLock = some i → s.locked i = some p ∧ s.dirty i = false
  /-- After its release, it does not hold the lock. -/
  dropping : ∀ p i, s.pc p = .putDrop i → s.locked i ≠ some p
  /-- An entry with a change not yet written is locked. -/
  dirtyLocked : ∀ i, s.dirty i = true → (s.locked i).isSome

/-- A process's references to an entry are among the entry's count. -/
theorem Counted.holds_le (c : Counted s) (p : ι) (i : Fin NINODE) :
    s.holds p i ≤ (s.inode i).ref := by
  rw [c.ref_eq i]
  exact Finset.single_le_sum (f := fun q => s.holds q i) (fun q _ => Nat.zero_le _)
    (Finset.mem_univ p)

/-- An entry a process holds a reference to is live. -/
theorem Counted.live (c : Counted s) (held : 0 < s.holds p i) : Live s i :=
  Nat.lt_of_lt_of_le held (c.holds_le p i)

namespace Counted

theorem panic (c : Counted s) (message : String) : Counted (s.panic message) :=
  ⟨c.ref_eq, c.holder, c.putting, c.putLock, c.dropping, c.dirtyLocked⟩

theorem setDisk (c : Counted s) (dev : Nat) (disk : Disk) : Counted (s.setDisk dev disk) :=
  ⟨c.ref_eq, c.holder, c.putting, c.putLock, c.dropping, c.dirtyLocked⟩

/-- An entry replaced by one with the same count. -/
theorem setInode (c : Counted s) {e : CachedInode} (ref : e.ref = (s.inode i).ref) :
    Counted (s.setInode i e) where
  ref_eq j := by
    by_cases same : j = i
    · subst same
      simpa [ref] using c.ref_eq j
    · simpa [same] using c.ref_eq j
  holder := c.holder
  putting := c.putting
  putLock := c.putLock
  dropping := c.dropping
  dirtyLocked := c.dirtyLocked

end Counted

variable [DecidableEq ι]

/-- The references to entry `j` after `p` takes one more to entry `i`. -/
theorem sum_hold (s : Icache ι) (p : ι) (i j : Fin NINODE) :
    ∑ q, (s.hold p i).holds q j = ∑ q, s.holds q j + if j = i then 1 else 0 := by
  simp only [holds_hold, Finset.sum_add_distrib]
  by_cases same : j = i <;> simp [same]

/-- The references to entry `j` after `p` gives up one of those it holds to entry `i`. -/
theorem sum_unhold (held : 0 < s.holds p i) (j : Fin NINODE) :
    ∑ q, (s.unhold p i).holds q j + (if j = i then 1 else 0) = ∑ q, s.holds q j := by
  have pointwise : ∀ q, (s.unhold p i).holds q j + (if q = p ∧ j = i then 1 else 0) =
      s.holds q j := by
    intro q
    by_cases hit : q = p ∧ j = i
    · obtain ⟨rfl, rfl⟩ := hit
      simp only [Icache.unhold, Function.update_self, and_self, if_true]
      omega
    · by_cases qp : q = p
      · subst qp
        have ji : j ≠ i := fun same => hit ⟨rfl, same⟩
        simp [ji]
      · simp [qp]
  rw [← Finset.sum_congr rfl fun q _ => pointwise q, Finset.sum_add_distrib]
  by_cases same : j = i <;> simp [same]

namespace Counted

/-- A new reference of `p` to an entry, counted in it. -/
theorem acquire (c : Counted s) {e : CachedInode} (ref : e.ref = (s.inode i).ref + 1) :
    Counted ((s.setInode i e).hold p i) where
  ref_eq j := by
    rw [sum_hold]
    by_cases same : j = i
    · subst same
      simp [ref, c.ref_eq j]
    · simp [same, c.ref_eq j]
  holder j q locked := Nat.lt_of_lt_of_le (c.holder j q locked) (holds_le_hold _ _ _ _ _)
  putting q j inPut := Nat.lt_of_lt_of_le (c.putting q j inPut) (holds_le_hold _ _ _ _ _)
  putLock := c.putLock
  dropping := c.dropping
  dirtyLocked := c.dirtyLocked

/-- A process moved to a place whose duties it meets. -/
theorem setPc (c : Counted s) {pc : IcachePc}
    (putting : ∀ i, pc.putting = some i → 0 < s.holds p i)
    (putLock : ∀ i, pc.putLock = some i → s.locked i = some p ∧ s.dirty i = false)
    (dropping : ∀ i, pc = .putDrop i → s.locked i ≠ some p) : Counted (s.setPc p pc) where
  ref_eq := c.ref_eq
  holder := c.holder
  putting q j inPut := by
    by_cases qp : q = p
    · subst qp
      exact putting j (by simpa using inPut)
    · exact c.putting q j (by simpa [qp] using inPut)
  putLock q j inPut := by
    by_cases qp : q = p
    · subst qp
      exact putLock j (by simpa using inPut)
    · exact c.putLock q j (by simpa [qp] using inPut)
  dropping q j inDrop := by
    by_cases qp : q = p
    · subst qp
      exact dropping j (by simpa using inDrop)
    · exact c.dropping q j (by simpa [qp] using inDrop)
  dirtyLocked := c.dirtyLocked

/-- Back outside the cache's code. -/
theorem setIdle (c : Counted s) : Counted (s.setPc p .idle) :=
  c.setPc (fun _ none => by cases none) (fun _ none => by cases none) (fun _ none => by cases none)

end Counted

end Counts

/-! ## What each call does to the counts -/

section Calls

variable {ι : Type} {s : Icache ι} {p q : ι} {i : Fin NINODE} {dev inum : Nat}

theorem cached_some (found : s.cached dev inum = some i) :
    Live s i ∧ (s.inode i).dev = dev ∧ (s.inode i).inum = inum := by
  have hit := List.find?_some found
  simp only [Bool.and_eq_true, decide_eq_true_eq, beq_iff_eq] at hit
  exact ⟨hit.1.1, hit.1.2, hit.2⟩

theorem cached_none (missing : s.cached dev inum = none) (j : Fin NINODE) (live : Live s j)
    (sameDev : (s.inode j).dev = dev) : (s.inode j).inum ≠ inum := by
  intro sameInum
  have miss := List.find?_eq_none.mp missing j (List.mem_finRange j)
  simp only [sameDev, sameInum, beq_self_eq_true, Bool.and_true, decide_eq_true_eq] at miss
  exact miss live

theorem empty_some (found : s.empty = some i) : (s.inode i).ref = 0 := by
  simpa using List.find?_some found

section Locks

variable [Fintype ι]

namespace Counted

/-- The lock of a free entry taken by an idle process that holds a reference to it. -/
theorem lock (c : Counted s) (idle : s.pc p = .idle) (held : 0 < s.holds p i)
    (free : s.locked i = none) : Counted (s.setLocked i (some p)) where
  ref_eq := c.ref_eq
  holder j q locked := by
    by_cases same : j = i
    · subst same
      simp only [Icache.setLocked, Function.update_self, Option.some.injEq] at locked
      exact locked ▸ held
    · exact c.holder j q (by simpa [same] using locked)
  putting := c.putting
  putLock q j inPut := by
    have before := c.putLock q j inPut
    have apart : j ≠ i := fun same => by simp [same, free] at before
    simpa [apart] using before
  dropping q j inDrop := by
    by_cases same : j = i
    · have qp : q ≠ p := fun qp => by simp [qp, idle] at inDrop
      simp [same, Ne.symm qp]
    · simpa [same] using c.dropping q j inDrop
  dirtyLocked j dirty := by
    by_cases same : j = i
    · simp [same]
    · simpa [same] using c.dirtyLocked j dirty

/-- The lock released by its idle holder once its changes are written. -/
theorem unlock (c : Counted s) (idle : s.pc p = .idle) (holder : s.locked i = some p)
    (clean : s.dirty i = false) : Counted (s.setLocked i none) where
  ref_eq := c.ref_eq
  holder j q locked := by
    by_cases same : j = i
    · simp [same] at locked
    · exact c.holder j q (by simpa [same] using locked)
  putting := c.putting
  putLock q j inPut := by
    have before := c.putLock q j inPut
    have apart : j ≠ i := by
      rintro rfl
      have qp : q = p := by simpa [holder] using before.1.symm
      subst qp
      simp [idle, IcachePc.putLock] at inPut
    simpa [apart] using before
  dropping q j inDrop := by
    by_cases same : j = i
    · simp [same]
    · simpa [same] using c.dropping q j inDrop
  dirtyLocked j dirty := by
    by_cases same : j = i
    · subst same
      simp [clean] at dirty
    · simpa [same] using c.dirtyLocked j dirty

theorem change (c : Counted s) (idle : s.pc p = .idle) (holder : s.locked i = some p)
    (data : Inode) : Counted (Fs.change s i data) where
  ref_eq := (c.setInode (i := i) (e := { s.inode i with toInode :=
    { data with inum := (s.inode i).inum, type := (s.inode i).type } }) rfl).ref_eq
  holder := c.holder
  putting := c.putting
  putLock q j inPut := by
    have before := c.putLock q j inPut
    have apart : j ≠ i := by
      rintro rfl
      have qp : q = p := by simpa [holder] using before.1.symm
      subst qp
      simp [Fs.change, idle, IcachePc.putLock] at inPut
    simpa [Fs.change, apart] using before
  dropping := c.dropping
  dirtyLocked j dirty := by
    by_cases same : j = i
    · simp [Fs.change, same, holder]
    · exact c.dirtyLocked j (by simpa [Fs.change, same] using dirty)

theorem writeThrough (sb : Superblock) (c : Counted s) (i : Fin NINODE) :
    Counted (Fs.writeThrough sb s i) where
  ref_eq := c.ref_eq
  holder := c.holder
  putting := c.putting
  putLock q j inPut := by
    have before := c.putLock q j inPut
    by_cases same : j = i
    · simp [Fs.writeThrough, same] at before ⊢
      exact before.1
    · simpa [Fs.writeThrough, same] using before
  dropping := c.dropping
  dirtyLocked j dirty := by
    by_cases same : j = i
    · simp [Fs.writeThrough, same] at dirty
    · exact c.dirtyLocked j (by simpa [Fs.writeThrough, same] using dirty)

theorem ilock (sb : Superblock) (c : Counted s) (idle : s.pc p = .idle) (held : 0 < s.holds p i) :
    Counted (Fs.ilock sb s p i) := by
  unfold Fs.ilock
  by_cases unused : (s.inode i).ref < 1
  · rw [if_pos unused]
    exact c.panic _
  rw [if_neg unused]
  by_cases busy : (s.locked i).isSome
  · rw [if_pos busy]
    exact c
  rw [if_neg busy]
  have locked := c.lock idle held (by simpa using busy)
  dsimp only
  split_ifs
  · exact locked
  · apply Counted.panic
    exact locked.setInode rfl
  · exact locked.setInode rfl

end Counted

end Locks

variable [DecidableEq ι]

/-- What iget can do: count a live entry for the inode, recycle an unused entry for it, or
panic. -/
theorem iget_cases (s : Icache ι) (p : ι) (dev inum : Nat) :
    (∃ i, Live s i ∧ (s.inode i).dev = dev ∧ (s.inode i).inum = inum ∧
      iget s p dev inum = (s.setInode i { s.inode i with ref := (s.inode i).ref + 1 }).hold p i) ∨
    (∃ i, (s.inode i).ref = 0 ∧
      (∀ j, Live s j → (s.inode j).dev = dev → (s.inode j).inum ≠ inum) ∧
      iget s p dev inum =
        (s.setInode i { s.inode i with dev, inum, ref := 1, valid := false }).hold p i) ∨
    iget s p dev inum = s.panic "iget: no inodes" := by
  unfold iget
  cases found : s.cached dev inum with
  | some i =>
    obtain ⟨live, sameDev, sameInum⟩ := cached_some found
    exact .inl ⟨i, live, sameDev, sameInum, rfl⟩
  | none =>
    cases free : s.empty with
    | some i => exact .inr (.inl ⟨i, empty_some free, cached_none found, rfl⟩)
    | none => exact .inr (.inr rfl)

variable [Fintype ι]

namespace Counted

theorem iget (c : Counted s) (p : ι) (dev inum : Nat) : Counted (Fs.iget s p dev inum) := by
  rcases iget_cases s p dev inum with ⟨i, -, -, -, hit⟩ | ⟨i, free, -, recycled⟩ | failed
  · rw [hit]
    exact c.acquire rfl
  · rw [recycled]
    exact c.acquire (by simp [free])
  · rw [failed]
    exact c.panic _

theorem idup (c : Counted s) (p : ι) (i : Fin NINODE) : Counted (Fs.idup s p i) :=
  c.acquire rfl

theorem iunlock (c : Counted s) (idle : s.pc p = .idle) (clean : s.locked i = some p → s.dirty i = false) :
    Counted (Fs.iunlock s p i) := by
  unfold Fs.iunlock
  by_cases bad : s.locked i ≠ some p ∨ (s.inode i).ref < 1
  · rw [if_pos bad]
    exact c.panic _
  · rw [if_neg bad]
    have holder : s.locked i = some p := by
      by_contra other
      exact bad (.inl other)
    exact c.unlock idle holder (clean holder)

theorem iput (c : Counted s) (idle : s.pc p = .idle) (held : 0 < s.holds p i) :
    Counted (Fs.iput s p i) := by
  unfold Fs.iput
  by_cases busy : (s.locked i).isSome
  · rw [if_pos busy]
    exact c
  rw [if_neg busy]
  have free : s.locked i = none := by simpa using busy
  have clean : s.dirty i = false := by
    cases dirty : s.dirty i with
    | false => rfl
    | true => simpa [free] using c.dirtyLocked i dirty
  apply (c.lock idle held free).setPc
  · intro j inPut
    simp only [IcachePc.putting, Option.some.injEq] at inPut
    exact inPut ▸ held
  · intro j inPut
    simp only [IcachePc.putLock, Option.some.injEq] at inPut
    subst inPut
    simp [clean]
  · intro j wrong
    cases wrong

/-- `iput`'s release of the lock. -/
theorem release (c : Counted s) (here : s.pc p = .putRelease i) :
    Counted ((s.setLocked i none).setPc p (.putDrop i)) where
  ref_eq := c.ref_eq
  holder j q locked := by
    by_cases same : j = i
    · simp [same] at locked
    · exact c.holder j q (by simpa [same] using locked)
  putting q j inPut := by
    by_cases qp : q = p
    · subst qp
      simp only [Icache.setPc, Function.update_self, IcachePc.putting, Option.some.injEq] at inPut
      exact inPut ▸ c.putting q i (by simp [here, IcachePc.putting])
    · exact c.putting q j (by simpa [qp] using inPut)
  putLock q j inPut := by
    by_cases qp : q = p
    · subst qp
      simp [IcachePc.putLock] at inPut
    · have before := c.putLock q j (by simpa [qp] using inPut)
      have mine := c.putLock p i (by simp [here, IcachePc.putLock])
      have apart : j ≠ i := by
        rintro rfl
        simp [mine.1] at before
        exact qp before.1.symm
      simpa [apart] using before
  dropping q j inDrop := by
    by_cases same : j = i
    · simp [same]
    · by_cases qp : q = p
      · subst qp
        simp at inDrop
        exact absurd inDrop.symm same
      · simpa [same] using c.dropping q j (by simpa [qp] using inDrop)
  dirtyLocked j dirty := by
    by_cases same : j = i
    · subst same
      have mine := c.putLock p j (by simp [here, IcachePc.putLock])
      simp [mine.2] at dirty
    · simpa [same] using c.dirtyLocked j dirty

/-- `iput`'s last step: the count and the caller's reference go down together. -/
theorem drop (c : Counted s) (here : s.pc p = .putDrop i) :
    Counted (((s.setInode i { s.inode i with ref := (s.inode i).ref - 1 }).unhold p i).setPc p
      .idle) where
  ref_eq j := by
    have held := c.putting p i (by simp [here, IcachePc.putting])
    have sum := sum_unhold (s := s) held j
    show (Function.update s.inode i { s.inode i with ref := (s.inode i).ref - 1 } j).ref =
      ∑ q, (s.unhold p i).holds q j
    by_cases same : j = i
    · subst same
      rw [if_pos rfl] at sum
      rw [Function.update_self, c.ref_eq j]
      dsimp only
      omega
    · rw [if_neg same, Nat.add_zero] at sum
      rw [Function.update_of_ne same, c.ref_eq j, sum]
  holder j q locked := by
    have before := c.holder j q locked
    by_cases hit : q = p ∧ j = i
    · obtain ⟨rfl, rfl⟩ := hit
      exact absurd locked (c.dropping q j here)
    · by_cases qp : q = p
      · subst qp
        have ji : j ≠ i := fun same => hit ⟨rfl, same⟩
        simpa [ji] using before
      · simpa [qp] using before
  putting q j inPut := by
    by_cases qp : q = p
    · subst qp
      simp [IcachePc.putting] at inPut
    · have before := c.putting q j (by simpa [qp] using inPut)
      simpa [qp] using before
  putLock q j inPut := by
    by_cases qp : q = p
    · subst qp
      simp [IcachePc.putLock] at inPut
    · exact c.putLock q j (by simpa [qp] using inPut)
  dropping q j inDrop := by
    by_cases qp : q = p
    · subst qp
      simp at inDrop
    · exact c.dropping q j (by simpa [qp] using inDrop)
  dirtyLocked := c.dirtyLocked

/-- A process leaves for a place outside `iput`. -/
theorem leave (c : Counted s) {pc : IcachePc} (outside : pc.putting = none) :
    Counted (s.setPc p pc) :=
  c.setPc (fun _ inPut => by simp [outside] at inPut)
    (fun _ inPut => by cases pc <;> simp_all [IcachePc.putting, IcachePc.putLock])
    (fun _ drop => by simp [drop, IcachePc.putting] at outside)

/-- A move inside `iput` that keeps the lock. -/
theorem within (c : Counted s) (here : (s.pc p).putLock = some i) {pc : IcachePc}
    (next : pc.putLock = some i) : Counted (s.setPc p pc) := by
  have putting : (s.pc p).putting = some i := by
    cases hp : s.pc p <;> simp_all [IcachePc.putting, IcachePc.putLock]
  apply c.setPc
  · intro j inPut
    have same : j = i := by
      cases pc <;> simp_all [IcachePc.putting, IcachePc.putLock]
    exact same ▸ c.putting p i putting
  · intro j inPut
    rw [next, Option.some.injEq] at inPut
    exact inPut ▸ c.putLock p i here
  · intro j drop
    simp [drop, IcachePc.putLock] at next

theorem putStep (sb : Superblock) (c : Counted s) (p : ι) : Counted (Fs.putStep sb s p) := by
  unfold Fs.putStep
  cases here : s.pc p with
  | idle => exact c
  | allocating => exact c
  | allocGet => exact c
  | putLocked i =>
    have mine : (s.pc p).putLock = some i := by simp [here, IcachePc.putLock]
    dsimp only
    split_ifs
    · exact c.within mine rfl
    · exact c.within mine rfl
  | putFree i =>
    have mine : (s.pc p).putLock = some i := by simp [here, IcachePc.putLock]
    dsimp only
    cases itrunc sb (s.inode i).toInode (s.disk (s.inode i).dev) with
    | error message => exact c.panic _
    | ok result =>
      obtain ⟨ip, disk⟩ := result
      dsimp only
      exact ((c.setDisk _ _).setInode (by rfl)).within mine (by rfl)
  | putRelease i => exact c.release here
  | putDrop i => exact c.drop here

theorem allocStep (sb : Superblock) (c : Counted s) (p : ι) : Counted (Fs.allocStep sb s p) := by
  unfold Fs.allocStep
  cases here : s.pc p with
  | allocating dev type inum =>
    dsimp only
    split_ifs
    · exact (c.setDisk _ _).leave rfl
    · exact c.leave rfl
    · exact c.panic _
  | allocGet dev inum => exact (c.iget p dev inum).setIdle
  | idle => exact c
  | putLocked => exact c
  | putFree => exact c
  | putRelease => exact c
  | putDrop => exact c

/-- A reference handed over by an idle process that has not locked its entry. -/
theorem pass (c : Counted s) (idle : s.pc p = .idle) (held : 0 < s.holds p i)
    (notLocked : s.locked i ≠ some p) (q : ι) : Counted ((s.unhold p i).hold q i) where
  ref_eq j := by
    show (s.inode j).ref = ∑ r, ((s.unhold p i).hold q i).holds r j
    rw [sum_hold, c.ref_eq j, ← sum_unhold held j]
  holder j r locked := by
    have before := c.holder j r locked
    have kept : s.holds r j ≤ (s.unhold p i).holds r j + 1 := by
      rw [holds_unhold]
      split_ifs <;> omega
    rw [holds_hold, holds_unhold]
    by_cases hit : r = p ∧ j = i
    · obtain ⟨rfl, rfl⟩ := hit
      exact absurd locked notLocked
    · rw [if_neg hit]
      omega
  putting r j inPut := by
    have before := c.putting r j inPut
    have rp : r ≠ p := fun same => by simp [same, idle, IcachePc.putting] at inPut
    rw [holds_hold, holds_unhold, if_neg (fun hit => rp hit.1)]
    omega
  putLock := c.putLock
  dropping := c.dropping
  dirtyLocked := c.dirtyLocked

/-- Every event keeps the counts. -/
theorem step (sb : Superblock) (c : Counted s) (event : IcacheEvent ι) :
    Counted (icacheStep sb s event) := by
  unfold icacheStep
  by_cases stopped : s.panicked.isSome
  · rw [if_pos stopped]
    exact c
  rw [if_neg stopped]
  cases event <;> dsimp only
  case iget p dev inum =>
    split_ifs
    · exact c.iget p dev inum
    · exact c
  case ialloc p dev type =>
    split_ifs
    · exact c.leave rfl
    · exact c
  case idup p i =>
    split_ifs
    · exact c.idup p i
    · exact c
  case ilock p i =>
    split_ifs with guard
    · exact c.ilock sb guard.1 guard.2
    · exact c
  case change p i data =>
    split_ifs with guard
    · exact c.change guard.1 guard.2 data
    · exact c
  case iupdate p i =>
    split_ifs
    · exact c.writeThrough sb i
    · exact c
  case iunlock p i =>
    split_ifs with guard
    · exact c.iunlock guard.1 guard.2.2
    · exact c
  case iput p i =>
    split_ifs with guard
    · exact c.iput guard.1 guard.2
    · exact c
  case next p =>
    cases s.pc p with
    | allocating => exact c.allocStep sb p
    | allocGet => exact c.allocStep sb p
    | idle => exact c
    | putLocked => exact c.putStep sb p
    | putFree => exact c.putStep sb p
    | putRelease => exact c.putStep sb p
    | putDrop => exact c.putStep sb p
  case pass p q i =>
    split_ifs with guard
    · exact c.pass guard.1 guard.2.1 guard.2.2 q
    · exact c
  case write dev blockno block =>
    split_ifs
    · exact c
    · exact c.setDisk _ _

end Counted

end Calls

/-! ## Entries apart -/

section Apart

variable {ι : Type} {s s' : Icache ι} {p : ι} {i : Fin NINODE} {dev inum : Nat}

/-- No two live entries are for one inode. -/
def Unique (s : Icache ι) : Prop :=
  ∀ i j, Live s i → Live s j → (s.inode i).dev = (s.inode j).dev →
    (s.inode i).inum = (s.inode j).inum → i = j

namespace Unique

/-- Entries that keep their inodes and do not come alive stay apart. -/
theorem of_keys (u : Unique s)
    (keys : ∀ j, (s'.inode j).dev = (s.inode j).dev ∧ (s'.inode j).inum = (s.inode j).inum)
    (live : ∀ j, Live s' j → Live s j) : Unique s' := by
  intro a b la lb sameDev sameInum
  apply u a b (live a la) (live b lb)
  · rw [← (keys a).1, ← (keys b).1]
    exact sameDev
  · rw [← (keys a).2, ← (keys b).2]
    exact sameInum

/-- An entry replaced by one for the same inode, live only if it was. -/
theorem setInode (u : Unique s) {e : CachedInode} (sameDev : e.dev = (s.inode i).dev)
    (sameInum : e.inum = (s.inode i).inum) (live : 0 < e.ref → Live s i) :
    Unique (s.setInode i e) := by
  apply u.of_keys
  · intro j
    by_cases same : j = i
    · subst same
      simp [sameDev, sameInum]
    · simp [same]
  · intro j lj
    by_cases same : j = i
    · subst same
      exact live (by simpa [Live] using lj)
    · simpa [Live, same] using lj

/-- An unused entry recycled for an inode that no live entry is for. An old live entry for the new
inode would contradict `fresh`. -/
theorem recycle (u : Unique s) (free : (s.inode i).ref = 0)
    (fresh : ∀ j, Live s j → (s.inode j).dev = dev → (s.inode j).inum ≠ inum) :
    Unique (s.setInode i { s.inode i with dev, inum, ref := 1, valid := false }) := by
  have old : ∀ j, j ≠ i → Live (s.setInode i { s.inode i with dev, inum, ref := 1, valid := false }) j →
      ((s.setInode i { s.inode i with dev, inum, ref := 1, valid := false }).inode j).dev = dev →
      ((s.setInode i { s.inode i with dev, inum, ref := 1, valid := false }).inode j).inum ≠ inum := by
    intro j ji lj sameDev
    simp only [Live, Icache.setInode, Function.update_of_ne ji] at lj sameDev ⊢
    exact fresh j lj sameDev
  intro a b la lb sameDev sameInum
  by_cases ai : a = i
  · by_cases bi : b = i
    · exact ai.trans bi.symm
    · subst ai
      simp only [Icache.setInode, Function.update_self] at sameDev sameInum
      exact absurd sameInum.symm (old b bi lb sameDev.symm)
  · by_cases bi : b = i
    · subst bi
      simp only [Icache.setInode, Function.update_self] at sameDev sameInum
      exact absurd sameInum (old a ai la sameDev)
    · apply u a b
      · simpa [Live, ai] using la
      · simpa [Live, bi] using lb
      · simpa [ai, bi] using sameDev
      · simpa [ai, bi] using sameInum

theorem ilock (sb : Superblock) (u : Unique s) : Unique (Fs.ilock sb s p i) := by
  unfold Fs.ilock
  dsimp only
  split_ifs
  · exact u
  · exact u
  · exact u
  · exact u.setInode (i := i) rfl rfl fun live => live
  · exact u.setInode (i := i) rfl rfl fun live => live

end Unique

variable [DecidableEq ι]

namespace Unique

theorem iget (u : Unique s) (p : ι) (dev inum : Nat) : Unique (Fs.iget s p dev inum) := by
  rcases iget_cases s p dev inum with ⟨i, live, -, -, hit⟩ | ⟨i, free, fresh, recycled⟩ | failed
  · rw [hit]
    exact u.setInode rfl rfl fun _ => live
  · rw [recycled]
    exact u.recycle free fresh
  · rw [failed]
    exact u

theorem putStep (sb : Superblock) (u : Unique s) (p : ι) : Unique (Fs.putStep sb s p) := by
  unfold Fs.putStep
  cases s.pc p with
  | putLocked i =>
    dsimp only
    split_ifs
    · exact u
    · exact u
  | putFree i =>
    dsimp only
    cases trunc : itrunc sb (s.inode i).toInode (s.disk (s.inode i).dev) with
    | error message => exact u
    | ok result =>
      obtain ⟨ip, disk⟩ := result
      have sameInum : ip.inum = (s.inode i).inum := by
        rw [(itrunc_ok trunc).1]
      exact u.setInode (i := i) rfl sameInum fun live => live
  | putRelease i => exact u
  | putDrop i =>
    exact u.setInode (i := i) rfl rfl fun live => by
      simp only at live
      simp only [Live]
      omega
  | idle => exact u
  | allocating => exact u
  | allocGet => exact u

variable [Fintype ι]

/-- Every event keeps live entries apart, given the counts. -/
theorem step (sb : Superblock) (u : Unique s) (c : Counted s) (event : IcacheEvent ι) :
    Unique (icacheStep sb s event) := by
  unfold icacheStep
  by_cases stopped : s.panicked.isSome
  · rw [if_pos stopped]
    exact u
  rw [if_neg stopped]
  cases event <;> dsimp only
  case iget p dev inum =>
    split_ifs
    · exact u.iget p dev inum
    · exact u
  case ialloc => split_ifs <;> exact u
  case idup p i =>
    split_ifs with guard
    · exact u.setInode rfl rfl fun _ => c.live guard.2
    · exact u
  case ilock p i =>
    split_ifs
    · exact u.ilock sb
    · exact u
  case change p i data =>
    split_ifs
    · exact u.setInode (i := i) rfl rfl fun live => live
    · exact u
  case iupdate => split_ifs <;> exact u
  case iunlock p i =>
    split_ifs
    · unfold Fs.iunlock
      split_ifs <;> exact u
    · exact u
  case iput p i =>
    split_ifs
    · unfold Fs.iput
      split_ifs <;> exact u
    · exact u
  case next p =>
    cases here : s.pc p with
    | allocating dev type inum =>
      unfold Fs.allocStep
      rw [here]
      dsimp only
      split_ifs <;> exact u
    | allocGet dev inum =>
      unfold Fs.allocStep
      rw [here]
      exact u.iget p dev inum
    | idle => exact u
    | putLocked => exact u.putStep sb p
    | putFree => exact u.putStep sb p
    | putRelease => exact u.putStep sb p
    | putDrop => exact u.putStep sb p
  case pass => split_ifs <;> exact u
  case write => split_ifs <;> exact u

end Unique

end Apart

/-! ## Entries in step with their dinodes -/

section Agree

variable {ι : Type} {sb : Superblock} {s : Icache ι} {p : ι} {i : Fin NINODE}

/-- A cached inode agrees with its dinode: in its type, which is not 0, and in every field when
no change to it waits to be written. -/
def Agrees (sb : Superblock) (disks : Nat → Disk) (e : CachedInode) (dirty : Bool) : Prop :=
  e.type ≠ 0 ∧ (readDinode sb (disks e.dev) e.inum).type = e.type ∧
    (dirty = false → readDinode sb (disks e.dev) e.inum = e.toInode)

/-- While the system runs, every live and valid entry for an inode of the inode area agrees with
its dinode. -/
def Coherent (sb : Superblock) (s : Icache ι) : Prop :=
  s.panicked = none → ∀ i, Live s i → (s.inode i).valid = true →
    (s.inode i).inum < sb.ninodes.toNat → Agrees sb s.disk (s.inode i) (s.dirty i)

/-- An entry agrees on disks that read the same at its dinode. -/
theorem Agrees.of_read {disks disks' : Nat → Disk} {e : CachedInode} {dirty : Bool}
    (agrees : Agrees sb disks e dirty)
    (same : readDinode sb (disks' e.dev) e.inum = readDinode sb (disks e.dev) e.inum) :
    Agrees sb disks' e dirty := by
  obtain ⟨typed, type, clean⟩ := agrees
  refine ⟨typed, ?_, fun unchanged => ?_⟩
  · rw [same]
    exact type
  · rw [same]
    exact clean unchanged

/-- After a panic nothing is claimed. -/
theorem coherent_panic (s : Icache ι) (message : String) : Coherent sb (s.panic message) :=
  fun running => by simp at running

namespace Coherent


/-- An entry replaced by one that agrees whenever it is live and valid. -/
theorem setInode (coh : Coherent sb s) {e : CachedInode}
    (agrees : s.panicked = none → 0 < e.ref → e.valid = true → e.inum < sb.ninodes.toNat →
      Agrees sb s.disk e (s.dirty i)) :
    Coherent sb (s.setInode i e) := by
  intro running j live valid inArea
  by_cases same : j = i
  · subst same
    simp only [Live, Icache.setInode, Function.update_self] at live valid inArea ⊢
    exact agrees running live valid inArea
  · simp only [Live, Icache.setInode, Function.update_of_ne same] at live valid inArea ⊢
    exact coh running j live valid inArea

/-- An entry whose count alone changes. -/
theorem setRef (coh : Coherent sb s) (r : Nat) (live : 0 < r → Live s i) :
    Coherent sb (s.setInode i { s.inode i with ref := r }) :=
  coh.setInode fun running positive valid inArea => coh running i (live positive) valid inArea

/-- A new disk for one device that reads the same at the dinode of every live, valid entry of
the inode area. -/
theorem setDisk (coh : Coherent sb s) {dev : Nat} {disk : Disk}
    (kept : s.panicked = none → ∀ j, Live s j → (s.inode j).valid = true →
      (s.inode j).inum < sb.ninodes.toNat → (s.inode j).dev = dev →
      readDinode sb disk (s.inode j).inum = readDinode sb (s.disk dev) (s.inode j).inum) :
    Coherent sb (s.setDisk dev disk) := by
  intro running j live valid inArea
  apply (coh running j live valid inArea).of_read
  simp only [Icache.setDisk]
  rw [readDinode_update_disks]
  split_ifs with same
  · rw [kept running j live valid inArea same, same]
  · rfl

/-- An entry made not valid, with a new disk for one device that reads the same at the dinode of
every other live, valid entry of the inode area. -/
theorem invalidate (coh : Coherent sb s) {dev : Nat} {disk : Disk} {e : CachedInode}
    (invalid : e.valid = false)
    (kept : s.panicked = none → ∀ j, j ≠ i → Live s j → (s.inode j).valid = true →
      (s.inode j).inum < sb.ninodes.toNat → (s.inode j).dev = dev →
      readDinode sb disk (s.inode j).inum = readDinode sb (s.disk dev) (s.inode j).inum) :
    Coherent sb ((s.setDisk dev disk).setInode i e) := by
  intro running j live valid inArea
  by_cases same : j = i
  · subst same
    simp [invalid] at valid
  · have entry : ((s.setDisk dev disk).setInode i e).inode j = s.inode j :=
      Function.update_of_ne same _ _
    have liveJ : Live s j := by
      unfold Live at live ⊢
      rwa [entry] at live
    rw [entry] at valid inArea
    show Agrees sb (Function.update s.disk dev disk) (((s.setDisk dev disk).setInode i e).inode j)
      (s.dirty j)
    rw [entry]
    apply (coh running j liveJ valid inArea).of_read
    rw [readDinode_update_disks]
    split_ifs with sameDev
    · rw [kept running j same liveJ valid inArea sameDev, sameDev]
    · rfl

end Coherent

end Agree

section Steps

variable {ι : Type} {sb : Superblock} {s : Icache ι} {p : ι} {i : Fin NINODE}

namespace Coherent

/-- ilock reads an entry that is not valid from its dinode, and stops at one of type 0. -/
theorem ilock (coh : Coherent sb s) : Coherent sb (Fs.ilock sb s p i) := by
  unfold Fs.ilock
  dsimp only
  split_ifs with unused busy valid typed
  · exact coherent_panic _ _
  · exact coh
  · exact coh
  · exact coherent_panic _ _
  · exact Coherent.setInode coh fun _ _ _ _ => ⟨typed, rfl, fun _ => rfl⟩

/-- ialloc's mark goes to a dinode of type 0, which no live, valid entry is for. -/
theorem claim (coh : Coherent sb s) {dev inum : Nat}
    (free : (readDinode sb (s.disk dev) inum).type = 0) (type : UInt16) :
    Coherent sb (s.setDisk dev (iupdate sb (freshDinode inum type) (s.disk dev))) := by
  apply coh.setDisk
  intro running j live valid inArea sameDev
  have other : (s.inode j).inum ≠ inum := by
    intro sameInum
    obtain ⟨typed, type, -⟩ := coh running j live valid inArea
    rw [sameDev, sameInum, free] at type
    exact typed type.symm
  exact readDinode_iupdate_of_ne _ _ other

end Coherent

section Held

variable [Fintype ι]

namespace Coherent

/-- The holder's change keeps the type and is marked as not yet written. -/
theorem change (coh : Coherent sb s) (c : Counted s) (holder : s.locked i = some p)
    (data : Inode) : Coherent sb (Fs.change s i data) := by
  intro running j live valid inArea
  by_cases same : j = i
  · subst same
    simp only [Fs.change, Live, Icache.setInode, Function.update_self] at live valid inArea ⊢
    obtain ⟨typed, type, -⟩ := coh running j (c.live (c.holder j p holder)) valid inArea
    exact ⟨typed, type, fun clean => by simp at clean⟩
  · simp only [Fs.change, Live, Icache.setInode, Function.update_of_ne same] at live valid inArea ⊢
    exact coh running j live valid inArea

/-- iupdate writes the entry's copy into its own dinode, which no other live entry shares. The
entry's own dinode reads back as the entry. -/
theorem writeThrough (coh : Coherent sb s) (c : Counted s) (u : Unique s)
    (holder : s.locked i = some p) : Coherent sb (Fs.writeThrough sb s i) := by
  intro running j live valid inArea
  have liveI : Live s i := c.live (c.holder i p holder)
  change s.panicked = none at running
  change (s.inode j).valid = true at valid
  change (s.inode j).inum < sb.ninodes.toNat at inArea
  change Live s j at live
  show Agrees sb (Function.update s.disk (s.inode i).dev
    (iupdate sb (s.inode i).toInode (s.disk (s.inode i).dev))) (s.inode j)
    (Function.update s.dirty i false j)
  by_cases same : j = i
  · subst same
    have back : readDinode sb (iupdate sb (s.inode j).toInode (s.disk (s.inode j).dev))
        (s.inode j).inum = (s.inode j).toInode := readDinode_iupdate_self _ _
    refine ⟨(coh running j liveI valid inArea).1, ?_, fun _ => ?_⟩
    · rw [Function.update_self, back]
    · rw [Function.update_self, back]
  · have apart : (s.inode j).dev = (s.inode i).dev → (s.inode j).inum ≠ (s.inode i).inum :=
      fun sameDev sameInum => same (u j i live liveI sameDev sameInum)
    rw [Function.update_of_ne same]
    apply (coh running j live valid inArea).of_read
    rw [readDinode_update_disks]
    split_ifs with sameDev
    · rw [readDinode_iupdate_of_ne _ _ (apart sameDev), sameDev]
    · rfl

/-- iput's free: the entry is no longer valid, and every other dinode of the inode area stays. -/
theorem putFree (layout : InodesBelowBitmap sb) (coh : Coherent sb s) (c : Counted s)
    (u : Unique s) (here : s.pc p = .putFree i) {ip : Inode} {disk : Disk}
    (ran : itrunc sb (s.inode i).toInode (s.disk (s.inode i).dev) = .ok (ip, disk)) :
    Coherent sb ((s.setDisk (s.inode i).dev (iupdate sb { ip with type := 0 } disk)).setInode i
      { s.inode i with toInode := { ip with type := 0 }, valid := false }) := by
  have liveI : Live s i := c.live (c.putting p i (by simp [here, IcachePc.putting]))
  have sameInum : ip.inum = (s.inode i).inum := by rw [(itrunc_ok ran).1]
  apply coh.invalidate rfl
  intro _ j same live _ inArea sameDev
  have apart : (s.inode j).inum ≠ (s.inode i).inum :=
    fun sameInum' => same (u j i live liveI sameDev sameInum')
  rw [readDinode_iupdate_of_ne _ _ (by simpa [sameInum] using apart),
    readDinode_itrunc layout ran inArea apart]

end Coherent

end Held

variable [DecidableEq ι]

namespace Coherent

theorem iget (coh : Coherent sb s) (p : ι) (dev inum : Nat) :
    Coherent sb (Fs.iget s p dev inum) := by
  rcases iget_cases s p dev inum with ⟨i, live, -, -, hit⟩ | ⟨i, -, -, recycled⟩ | failed
  · rw [hit]
    exact coh.setRef _ fun _ => live
  · rw [recycled]
    exact coh.setInode fun _ _ valid _ => by simp at valid
  · rw [failed]
    exact coherent_panic _ _

theorem allocStep (coh : Coherent sb s) (p : ι) : Coherent sb (Fs.allocStep sb s p) := by
  unfold Fs.allocStep
  cases s.pc p with
  | allocating dev type inum =>
    dsimp only
    split_ifs with inArea free
    · exact coh.claim free type
    · exact coh
    · exact coherent_panic _ _
  | allocGet dev inum => exact coh.iget p dev inum
  | idle => exact coh
  | putLocked => exact coh
  | putFree => exact coh
  | putRelease => exact coh
  | putDrop => exact coh

end Coherent

variable [Fintype ι]

namespace Coherent

theorem putStep (layout : InodesBelowBitmap sb) (coh : Coherent sb s) (c : Counted s)
    (u : Unique s) (p : ι) : Coherent sb (Fs.putStep sb s p) := by
  unfold Fs.putStep
  cases here : s.pc p with
  | putLocked i =>
    dsimp only
    split_ifs
    · exact coh
    · exact coh
  | putFree i =>
    dsimp only
    cases ran : itrunc sb (s.inode i).toInode (s.disk (s.inode i).dev) with
    | error message => exact coherent_panic _ _
    | ok result =>
      obtain ⟨ip, disk⟩ := result
      exact coh.putFree layout c u here ran
  | putRelease i => exact coh
  | putDrop i =>
    exact coh.setRef _ fun positive => by
      simp only [Live]
      omega
  | idle => exact coh
  | allocating => exact coh
  | allocGet => exact coh

/-- Every event keeps the entries in step with their dinodes, given the counts, the uniqueness
of live entries and a disk laid out as mkfs lays it out. -/
theorem step (layout : InodesBelowBitmap sb) (coh : Coherent sb s) (c : Counted s)
    (u : Unique s) (event : IcacheEvent ι) : Coherent sb (icacheStep sb s event) := by
  unfold icacheStep
  by_cases stopped : s.panicked.isSome
  · rw [if_pos stopped]
    exact coh
  rw [if_neg stopped]
  cases event <;> dsimp only
  case iget p dev inum =>
    split_ifs
    · exact coh.iget p dev inum
    · exact coh
  case ialloc => split_ifs <;> exact coh
  case idup p i =>
    split_ifs with guard
    · exact coh.setRef _ fun _ => c.live guard.2
    · exact coh
  case ilock p i =>
    split_ifs
    · exact coh.ilock
    · exact coh
  case change p i data =>
    split_ifs with guard
    · exact coh.change c guard.2 data
    · exact coh
  case iupdate p i =>
    split_ifs with guard
    · exact coh.writeThrough c u guard.2
    · exact coh
  case iunlock p i =>
    split_ifs
    · unfold Fs.iunlock
      split_ifs
      · exact coherent_panic _ _
      · exact coh
    · exact coh
  case iput p i =>
    split_ifs
    · unfold Fs.iput
      split_ifs <;> exact coh
    · exact coh
  case next p =>
    cases s.pc p with
    | allocating => exact coh.allocStep p
    | allocGet => exact coh.allocStep p
    | idle => exact coh
    | putLocked => exact coh.putStep layout c u p
    | putFree => exact coh.putStep layout c u p
    | putRelease => exact coh.putStep layout c u p
    | putDrop => exact coh.putStep layout c u p
  case pass => split_ifs <;> exact coh
  case write dev blockno block =>
    split_ifs with inside
    · exact coh
    · apply coh.setDisk
      intro _ j _ _ inArea _
      exact readDinode_update_of_ne
        (ne_iblock_of_not_inInodeArea layout (by simpa using inside) inArea) block

end Coherent

end Steps

/-! ## Every run -/

/-- One process allocates a file inode on device 0, locks it, reads it and unlocks it. -/
def allocLockRun : List (IcacheEvent Unit) :=
  [.ialloc () 0 T_FILE, .next (), .next (), .ilock () 0, .iunlock () 0]

/-- The cache after that run, on a disk of zeros laid out as mkfs lays it out. -/
def allocLockState : Icache Unit :=
  run (icacheStep mkfsSuperblock) (icacheBoot fun _ _ _ => 0) allocLockRun

theorem allocLockState_reachable :
    Reachable (icacheStep mkfsSuperblock) (icacheBoot fun _ _ _ => 0) allocLockState :=
  ⟨allocLockRun, rfl⟩

section Runs

variable {ι : Type} {sb : Superblock} {disks : Nat → Disk} {s : Icache ι}

theorem boot_unique (disks : Nat → Disk) : Unique (icacheBoot disks : Icache ι) :=
  fun _ _ live => by simp [Live, icacheBoot] at live

theorem boot_coherent (disks : Nat → Disk) : Coherent sb (icacheBoot disks : Icache ι) :=
  fun _ _ live => by simp [Live, icacheBoot] at live

variable [Fintype ι]

theorem boot_counted (disks : Nat → Disk) : Counted (icacheBoot disks : Icache ι) where
  ref_eq _ := by simp [icacheBoot]
  holder _ _ locked := by simp [icacheBoot] at locked
  putting _ _ inPut := by simp [icacheBoot, IcachePc.putting] at inPut
  putLock _ _ inPut := by simp [icacheBoot, IcachePc.putLock] at inPut
  dropping _ _ inDrop := by simp [icacheBoot] at inDrop
  dirtyLocked _ dirty := by simp [icacheBoot] at dirty

variable [DecidableEq ι]

/-- The counts hold in every state a run of the cache reaches. -/
theorem counted_reachable (reached : Reachable (icacheStep sb) (icacheBoot disks) s) :
    Counted s :=
  Invariant.reachable (fun _ event c => c.step sb event) (boot_counted disks) reached

/-- So do the counts with live entries apart. -/
theorem counted_unique_reachable (reached : Reachable (icacheStep sb) (icacheBoot disks) s) :
    Counted s ∧ Unique s := by
  have kept : Invariant (icacheStep sb) fun s : Icache ι => Counted s ∧ Unique s :=
    fun _ event both => ⟨both.1.step sb event, both.2.step sb both.1 event⟩
  exact kept.reachable ⟨boot_counted disks, boot_unique disks⟩ reached

/-- No two entries that a pointer refers to are for one inode, in any run of the cache. -/
theorem entries_apart (reached : Reachable (icacheStep sb) (icacheBoot disks) s)
    (i j : Fin NINODE) (liveI : 0 < (s.inode i).ref) (liveJ : 0 < (s.inode j).ref)
    (sameDev : (s.inode i).dev = (s.inode j).dev)
    (sameInum : (s.inode i).inum = (s.inode j).inum) : i = j :=
  (counted_unique_reachable reached).2 i j liveI liveJ sameDev sameInum

theorem entries_apart_allocLock :
    0 < (allocLockState.inode 0).ref ∧ (0 : Fin NINODE) = 0 :=
  have live : 0 < (allocLockState.inode 0).ref := by decide
  ⟨live, entries_apart allocLockState_reachable 0 0 live live rfl rfl⟩

/-- In every run, the count of each entry is the number of references the processes hold to it,
and a locked entry is held by the process that locked it, so it is live and `iget` cannot
recycle it. -/
theorem refs_counted (reached : Reachable (icacheStep sb) (icacheBoot disks) s) :
    (∀ i, (s.inode i).ref = ∑ p, s.holds p i) ∧
      ∀ i p, s.locked i = some p → 0 < s.holds p i ∧ 0 < (s.inode i).ref := by
  have c := counted_reachable reached
  refine ⟨c.ref_eq, fun i p locked => ?_⟩
  have held := c.holder i p locked
  exact ⟨held, c.live held⟩

theorem refs_counted_allocLock :
    (∀ i, (allocLockState.inode i).ref = ∑ p, allocLockState.holds p i) ∧
      ∀ i p, allocLockState.locked i = some p →
        0 < allocLockState.holds p i ∧ 0 < (allocLockState.inode i).ref :=
  refs_counted allocLockState_reachable

/-- In every run on a disk laid out as mkfs lays it out, while the system runs, a live and
valid entry for an inode of the inode area that no process has locked holds exactly the
inode's dinode on the disk, as `ilock` assumes when it skips the read. -/
theorem coherent_reachable (layout : InodesBelowBitmap sb)
    (reached : Reachable (icacheStep sb) (icacheBoot disks) s) (running : s.panicked = none)
    (i : Fin NINODE) (live : 0 < (s.inode i).ref) (valid : (s.inode i).valid = true)
    (unlocked : s.locked i = none) (inArea : (s.inode i).inum < sb.ninodes.toNat) :
    readDinode sb (s.disk (s.inode i).dev) (s.inode i).inum = (s.inode i).toInode := by
  have kept : Invariant (icacheStep sb) fun s : Icache ι => Counted s ∧ Unique s :=
    fun _ event both => ⟨both.1.step sb event, both.2.step sb both.1 event⟩
  have coh : Coherent sb s :=
    reachable_of_guarded kept (fun _ event both coh => coh.step layout both.1 both.2 event)
      ⟨boot_counted disks, boot_unique disks⟩ (boot_coherent disks) reached
  have clean : s.dirty i = false := by
    cases dirty : s.dirty i with
    | false => rfl
    | true => simpa [unlocked] using (counted_reachable reached).dirtyLocked i dirty
  exact (coh running i live valid inArea).2.2 clean

theorem coherent_reachable_allocLock :
    allocLockState.panicked = none ∧ 0 < (allocLockState.inode 0).ref ∧
      (allocLockState.inode 0).valid = true ∧ allocLockState.locked 0 = none ∧
      (allocLockState.inode 0).inum < mkfsSuperblock.ninodes.toNat ∧
      readDinode mkfsSuperblock (allocLockState.disk (allocLockState.inode 0).dev)
        (allocLockState.inode 0).inum = (allocLockState.inode 0).toInode :=
  have running : allocLockState.panicked = none := by decide
  have live : 0 < (allocLockState.inode 0).ref := by decide
  have valid : (allocLockState.inode 0).valid = true := by decide
  have unlocked : allocLockState.locked 0 = none := by decide
  have inArea : (allocLockState.inode 0).inum < mkfsSuperblock.ninodes.toNat := by decide
  ⟨running, live, valid, unlocked, inArea, coherent_reachable mkfsSuperblock_layout
    allocLockState_reachable running 0 live valid unlocked inArea⟩

end Runs

end Icache

end Xv6.Fs
