import Mathlib

/-!
# Little-endian words and a byte-addressed memory

Machine words are stored least significant byte first. A reader takes a word from the front
of a byte list and returns the bytes after it, so a record is read field by field; reading
the bytes of a word, followed by any bytes, returns the word and those bytes. A memory maps
every 32-bit address to a byte; writing a list of bytes stores them at consecutive addresses,
wrapping past the top of the address space, and reading returns consecutive bytes. Writes
change only the addresses they cover, measured from their start modulo 2³².
-/

namespace Xv6.Bytes

/-- The two bytes of a 16-bit word, least significant first. -/
def le16 (word : UInt16) : List UInt8 :=
  [UInt8.ofNat word.toNat, UInt8.ofNat (word.toNat / 2 ^ 8)]

/-- The four bytes of a 32-bit word, least significant first. -/
def le32 (word : UInt32) : List UInt8 :=
  [UInt8.ofNat word.toNat, UInt8.ofNat (word.toNat / 2 ^ 8), UInt8.ofNat (word.toNat / 2 ^ 16),
    UInt8.ofNat (word.toNat / 2 ^ 24)]

/-- Read a 16-bit word from the front; an input shorter than two bytes reads as zero. -/
def readLe16 : List UInt8 → UInt16 × List UInt8
  | low :: high :: rest => (UInt16.ofNat (low.toNat + 2 ^ 8 * high.toNat), rest)
  | _ => (0, [])

/-- Read a 32-bit word from the front; an input shorter than four bytes reads as zero. -/
def readLe32 : List UInt8 → UInt32 × List UInt8
  | b0 :: b1 :: b2 :: b3 :: rest =>
    (UInt32.ofNat (b0.toNat + 2 ^ 8 * b1.toNat + 2 ^ 16 * b2.toNat + 2 ^ 24 * b3.toNat), rest)
  | _ => (0, [])

@[simp] theorem le16_length (word : UInt16) : (le16 word).length = 2 := rfl

@[simp] theorem le32_length (word : UInt32) : (le32 word).length = 4 := rfl

/-- Reading the bytes of a 16-bit word returns the word and the bytes after it. -/
@[simp] theorem readLe16_le16 (word : UInt16) (rest : List UInt8) :
    readLe16 (le16 word ++ rest) = (word, rest) := by
  have bound := word.toNat_lt
  simp only [le16, List.cons_append, List.nil_append, readLe16, Prod.mk.injEq, and_true]
  apply UInt16.toNat.inj
  simp only [UInt8.toNat_ofNat', UInt16.toNat_ofNat']
  omega

/-- Reading the bytes of a 32-bit word returns the word and the bytes after it. -/
@[simp] theorem readLe32_le32 (word : UInt32) (rest : List UInt8) :
    readLe32 (le32 word ++ rest) = (word, rest) := by
  have bound := word.toNat_lt
  simp only [le32, List.cons_append, List.nil_append, readLe32, Prod.mk.injEq, and_true]
  apply UInt32.toNat.inj
  simp only [UInt8.toNat_ofNat', UInt32.toNat_ofNat']
  omega

/-- The `k`th of a list of words, read from its bytes past the `k` words before it. -/
theorem readLe32_drop_flatMap : ∀ (words : List UInt32) {k : Nat} (inside : k < words.length),
    (readLe32 ((words.flatMap le32).drop (4 * k))).1 = words[k]
  | word :: words, 0, _ => by
    simp only [List.flatMap_cons, Nat.mul_zero, List.drop_zero, readLe32_le32,
      List.getElem_cons_zero]
  | word :: words, k + 1, inside => by
    have shift : 4 * (k + 1) = (le32 word).length + 4 * k := by
      rw [le32_length]
      omega
    rw [List.flatMap_cons, shift, ← List.drop_drop, List.drop_left,
      readLe32_drop_flatMap words (by simpa using inside), List.getElem_cons_succ]

theorem shiftLeft_bit_toNat {k : Nat} (small : k < 8) :
    ((1 : UInt8) <<< UInt8.ofNat k).toNat = 2 ^ k := by
  have fits : 2 ^ k < 256 := calc
    2 ^ k < 2 ^ 8 := Nat.pow_lt_pow_right (by decide) small
    _ = 256 := rfl
  rw [UInt8.toNat_shiftLeft]
  simp [Nat.mod_eq_of_lt small, Nat.shiftLeft_eq, Nat.mod_eq_of_lt fits]

/-- The bit test `(x & (1 << k)) != 0` on a byte reads bit `k`. -/
theorem and_bit_ne_zero (x : UInt8) {k : Nat} (small : k < 8) :
    (x &&& 1 <<< UInt8.ofNat k != 0) = x.toNat.testBit k := by
  have anded : (x &&& 1 <<< UInt8.ofNat k).toNat = x.toNat &&& 2 ^ k := by
    rw [UInt8.toNat_and, shiftLeft_bit_toNat small]
  apply Bool.eq_iff_iff.mpr
  rw [bne_iff_ne, ne_eq, ← UInt8.toNat_inj, anded, UInt8.toNat_zero]
  constructor
  · intro nonzero
    by_contra clear
    apply nonzero
    apply Nat.eq_of_testBit_eq
    intro j
    by_cases same : j = k
    · subst same
      simpa [Nat.testBit_and, Nat.testBit_two_pow] using clear
    · simp [Nat.testBit_and, Ne.symm same]
  · intro set zero
    have bit : (x.toNat &&& 2 ^ k).testBit k = true := by
      simp [Nat.testBit_and, set]
    rw [zero, Nat.zero_testBit] at bit
    cases bit

/-- Setting bit `k` of a byte, `x | (1 << k)`, sets that bit and keeps the others. -/
theorem or_bit_testBit (x : UInt8) {k : Nat} (small : k < 8) (j : Nat) :
    (x ||| 1 <<< UInt8.ofNat k).toNat.testBit j = (x.toNat.testBit j || decide (j = k)) := by
  rw [UInt8.toNat_or, shiftLeft_bit_toNat small, Nat.testBit_or, Nat.testBit_two_pow]
  simp [eq_comm]

/-- A 32-bit byte-addressed memory. -/
abbrev Memory := UInt32 → UInt8

namespace Memory

/-- Store the bytes at consecutive addresses from `start`, wrapping past the top. -/
def write (memory : Memory) (start : UInt32) (bytes : List UInt8) : Memory :=
  fun address => bytes.getD (address - start).toNat (memory address)

/-- The `count` bytes at consecutive addresses from `start`. -/
def read (memory : Memory) (start : UInt32) (count : Nat) : List UInt8 :=
  (List.range count).map fun offset => memory (start + UInt32.ofNat offset)

@[simp] theorem read_length (memory : Memory) (start : UInt32) (count : Nat) :
    (memory.read start count).length = count := by
  simp [read]

/-- The byte a write leaves at an address: its own byte there, or the old one. -/
theorem write_apply (memory : Memory) (start address : UInt32) (bytes : List UInt8) :
    memory.write start bytes address = bytes.getD (address - start).toNat (memory address) :=
  rfl

/-- A write leaves an address past its last byte, counted from its start, unchanged. -/
theorem write_apply_of_le (memory : Memory) {start address : UInt32} {bytes : List UInt8}
    (outside : bytes.length ≤ (address - start).toNat) :
    memory.write start bytes address = memory address := by
  rw [write_apply, List.getD_eq_getElem?_getD, List.getElem?_eq_none outside, Option.getD_none]

/-- The offset of the address `start + offset` from `start`. -/
theorem offset_toNat (start : UInt32) {offset : Nat} (small : offset < 2 ^ 32) :
    (start + UInt32.ofNat offset - start).toNat = offset := by
  rw [UInt32.add_comm, UInt32.add_sub_cancel, UInt32.toNat_ofNat']
  exact Nat.mod_eq_of_lt small

/-- The distance to the address `offset` bytes above `start` from the address `gap` bytes
below it. -/
theorem offset_sub (start gap : UInt32) {offset : Nat} (room : gap.toNat + offset < 2 ^ 32) :
    (start + UInt32.ofNat offset - (start - gap)).toNat = gap.toNat + offset := by
  have below := start.toNat_lt
  simp only [UInt32.toNat_sub, UInt32.toNat_add, UInt32.toNat_ofNat']
  omega

/-- Two reads that see the same byte at every address they cover are equal. -/
theorem read_congr {first second : Memory} {start : UInt32} {count : Nat}
    (same : ∀ offset < count, first (start + UInt32.ofNat offset) =
      second (start + UInt32.ofNat offset)) :
    first.read start count = second.read start count := by
  simp only [read, List.map_inj_left, List.mem_range]
  exact same

/-- Reading back what was written returns it. -/
@[simp] theorem read_write_same (memory : Memory) (start : UInt32) (bytes : List UInt8)
    (fits : bytes.length ≤ 2 ^ 32) : (memory.write start bytes).read start bytes.length = bytes := by
  apply List.ext_getElem (read_length _ _ _)
  intro offset inside _
  have small : offset < 2 ^ 32 := by
    simp only [read_length] at inside
    omega
  simp only [read, List.getElem_map, List.getElem_range, write_apply, offset_toNat start small]
  simp only [read_length] at inside
  rw [List.getD_eq_getElem?_getD, List.getElem?_eq_getElem inside, Option.getD_some]

/-- A read each of whose addresses lies past the end of a write, counted from the write's
start, sees the memory before the write. -/
theorem read_write_of_outside (memory : Memory) {start source : UInt32} {bytes : List UInt8}
    {count : Nat}
    (outside : ∀ offset < count, bytes.length ≤ (source + UInt32.ofNat offset - start).toNat) :
    (memory.write start bytes).read source count = memory.read source count :=
  read_congr fun offset inside => write_apply_of_le memory (outside offset inside)

/-- Two memories that read the same over a range read the same at any part of it. -/
theorem read_eq_of_read_eq {first second : Memory} {start source : UInt32} {count total : Nat}
    (same : first.read start total = second.read start total)
    (inside : ∀ offset < count, (source + UInt32.ofNat offset - start).toNat < total) :
    first.read source count = second.read source count := by
  apply read_congr
  intro offset small
  have within := inside offset small
  have entry := congrArg (·[(source + UInt32.ofNat offset - start).toNat]?) same
  have back : start + UInt32.ofNat (source + UInt32.ofNat offset - start).toNat =
      source + UInt32.ofNat offset := by
    rw [UInt32.ofNat_toNat, add_sub_cancel]
  simp only [read, List.getElem?_map, List.getElem?_range within, Option.map_some, back] at entry
  exact Option.some.inj entry

/-- A write that starts `gap` bytes below a read and ends at or below the read's start leaves
the read alone, for a read that does not wrap around to the write. -/
theorem read_write_of_below (memory : Memory) (start gap : UInt32) {bytes : List UInt8}
    {count : Nat} (short : bytes.length ≤ gap.toNat) (room : gap.toNat + count ≤ 2 ^ 32) :
    (memory.write (start - gap) bytes).read start count = memory.read start count :=
  read_write_of_outside memory fun offset inside => by
    rw [offset_sub start gap (by omega)]
    omega

/-- The 32-bit word stored at `start`. -/
def read32 (memory : Memory) (start : UInt32) : UInt32 :=
  (readLe32 (memory.read start 4)).1

/-- Store a 32-bit word at `start`. -/
def write32 (memory : Memory) (start word : UInt32) : Memory :=
  memory.write start (le32 word)

/-- A stored word reads back. -/
@[simp] theorem read32_write32 (memory : Memory) (start word : UInt32) :
    (memory.write32 start word).read32 start = word := by
  have stored := read_write_same memory start (le32 word) (by simp)
  simp only [le32_length] at stored
  have decoded := readLe32_le32 word []
  rw [List.append_nil] at decoded
  simp only [read32, write32, stored, decoded]

end Memory

/-- A block of `size` bytes. -/
abbrev Block (size : Nat) := Fin size → UInt8

namespace Block

variable {size : Nat}

/-- The byte at `offset`; past the end of the block, zero. -/
def byte (block : Block size) (offset : Nat) : UInt8 :=
  if inside : offset < size then block ⟨offset, inside⟩ else 0

/-- The 32-bit word at `offset`, least significant byte first. -/
def read32 (block : Block size) (offset : Nat) : UInt32 :=
  (readLe32 ((List.range 4).map fun j => block.byte (offset + j))).1

/-- Store a 32-bit word at `offset`; bytes past the end of the block are dropped. -/
def write32 (block : Block size) (offset : Nat) (word : UInt32) : Block size :=
  fun j => if offset ≤ j.val ∧ j.val < offset + 4 then (le32 word).getD (j.val - offset) 0
    else block j

theorem byte_write32_inside (block : Block size) {offset j : Nat} (word : UInt32)
    (fits : j < size) (low : offset ≤ j) (high : j < offset + 4) :
    (block.write32 offset word).byte j = (le32 word).getD (j - offset) 0 := by
  simp [byte, write32, fits, low, high]

theorem byte_write32_outside (block : Block size) {offset j : Nat} (word : UInt32)
    (outside : j < offset ∨ offset + 4 ≤ j) :
    (block.write32 offset word).byte j = block.byte j := by
  unfold byte write32
  split
  · dsimp only
    rw [if_neg (by omega)]
  · rfl

/-- A stored word reads back when it fits in the block. -/
theorem read32_write32_self (block : Block size) {offset : Nat} (word : UInt32)
    (fits : offset + 4 ≤ size) : (block.write32 offset word).read32 offset = word := by
  have bytes : (List.range 4).map (fun j => (block.write32 offset word).byte (offset + j)) =
      le32 word := by
    apply List.ext_getElem (by simp)
    intro j inRange _
    rw [List.length_map, List.length_range] at inRange
    rw [List.getElem_map, List.getElem_range,
      byte_write32_inside block word (by omega) (by omega) (by omega), Nat.add_sub_cancel_left,
      List.getD_eq_getElem?_getD, List.getElem?_eq_getElem (by simpa using inRange),
      Option.getD_some]
  have decoded := readLe32_le32 word []
  rw [List.append_nil] at decoded
  rw [read32, bytes, decoded]

/-- A stored word leaves a word that does not overlap it. -/
theorem read32_write32_of_apart (block : Block size) {offset other : Nat} (word : UInt32)
    (apart : other + 4 ≤ offset ∨ offset + 4 ≤ other) :
    (block.write32 offset word).read32 other = block.read32 other := by
  unfold read32
  congr 2
  apply List.map_congr_left
  intro j mem
  rw [List.mem_range] at mem
  exact byte_write32_outside block word (by omega)

/-- Every byte of a zeroed block, as `bzero` leaves it, is 0. -/
@[simp] theorem byte_zero (offset : Nat) : byte (fun _ => 0 : Block size) offset = 0 := by
  unfold byte
  split <;> rfl

@[simp] theorem read32_zero (offset : Nat) : read32 (fun _ => 0 : Block size) offset = 0 := by
  simp only [read32, byte_zero]
  decide

/-- The `count` bytes from `offset` on. -/
def bytes (block : Block size) (offset count : Nat) : List UInt8 :=
  (List.range count).map fun j => block.byte (offset + j)

/-- Store `bytes` from `offset` on, as memmove does; bytes past the end of the block are
dropped. -/
def writeBytes (block : Block size) (offset : Nat) (bytes : List UInt8) : Block size :=
  fun j => if offset ≤ j.val ∧ j.val < offset + bytes.length then bytes.getD (j.val - offset) 0
    else block j

@[simp] theorem bytes_length (block : Block size) (offset count : Nat) :
    (block.bytes offset count).length = count := by
  simp [bytes]

theorem byte_writeBytes_inside (block : Block size) {offset j : Nat} {bytes : List UInt8}
    (fits : j < size) (low : offset ≤ j) (high : j < offset + bytes.length) :
    (block.writeBytes offset bytes).byte j = bytes.getD (j - offset) 0 := by
  simp [byte, writeBytes, fits, low, high]

theorem byte_writeBytes_outside (block : Block size) {offset j : Nat} {bytes : List UInt8}
    (outside : j < offset ∨ offset + bytes.length ≤ j) :
    (block.writeBytes offset bytes).byte j = block.byte j := by
  unfold byte writeBytes
  split
  · dsimp only
    rw [if_neg (by omega)]
  · rfl

/-- The bytes of a block after a store from its start: the stored bytes, then the block's. -/
theorem bytes_writeBytes_zero (block : Block size) {bytes : List UInt8}
    (fits : bytes.length ≤ size) :
    (block.writeBytes 0 bytes).bytes 0 size = bytes ++ (block.bytes 0 size).drop bytes.length := by
  apply List.ext_getElem (by simp; omega)
  intro j inside _
  rw [bytes_length] at inside
  rw [List.getElem_append]
  simp only [Block.bytes, List.getElem_map, List.getElem_range, Nat.zero_add]
  split_ifs with stored
  · rw [byte_writeBytes_inside _ inside (Nat.zero_le _) (by omega), Nat.sub_zero,
      List.getD_eq_getElem?_getD, List.getElem?_eq_getElem stored, Option.getD_some]
  · rw [List.getElem_drop, List.getElem_map, List.getElem_range,
      byte_writeBytes_outside _ (.inr (by omega))]
    congr 1
    omega

/-- Stored bytes that fit in the block read back. -/
theorem bytes_writeBytes_self (block : Block size) {offset : Nat} {bytes : List UInt8}
    (fits : offset + bytes.length ≤ size) :
    (block.writeBytes offset bytes).bytes offset bytes.length = bytes := by
  apply List.ext_getElem (bytes_length _ _ _)
  intro j inside _
  rw [bytes_length] at inside
  simp only [Block.bytes, List.getElem_map, List.getElem_range]
  rw [byte_writeBytes_inside _ (by omega) (Nat.le_add_right _ _) (by omega),
    Nat.add_sub_cancel_left, List.getD_eq_getElem?_getD, List.getElem?_eq_getElem inside,
    Option.getD_some]

/-- A store leaves the bytes of a range it does not overlap. -/
theorem bytes_writeBytes_apart (block : Block size) {offset other count : Nat}
    {bytes : List UInt8} (apart : other + count ≤ offset ∨ offset + bytes.length ≤ other) :
    (block.writeBytes offset bytes).bytes other count = block.bytes other count := by
  unfold Block.bytes
  apply List.map_congr_left
  intro j mem
  rw [List.mem_range] at mem
  exact byte_writeBytes_outside block (by omega)

end Block

/-- A word is zero exactly when its value is. -/
theorem word_toNat_eq_zero {word : UInt32} : word.toNat = 0 ↔ word = 0 :=
  ⟨fun zero => UInt32.toNat_inj.mp (zero.trans UInt32.toNat_zero.symm), fun zero => zero ▸ rfl⟩

/-- The `int` that a 32-bit word holds in two's complement. -/
def toSigned (word : UInt32) : Int :=
  if word.toNat < 2 ^ 31 then word.toNat else word.toNat - 2 ^ 32

/-- A non-negative `int` below 2³¹ is stored and read back as itself. -/
theorem toSigned_ofInt {value : Int} (low : 0 ≤ value) (high : value < 2 ^ 31) :
    toSigned (UInt32.ofInt value) = value := by
  have stored : (UInt32.ofInt value).toNat = value.toNat := by
    simp only [UInt32.ofInt, UInt32.toNat_ofNat']
    omega
  rw [toSigned, stored, if_pos (by omega)]
  omega

/-- A count below 2³¹ is stored and read back as itself. -/
theorem toSigned_ofNat {count : Nat} (small : count < 2 ^ 31) :
    toSigned (UInt32.ofNat count) = count := by
  have stored : (UInt32.ofNat count).toNat = count :=
    UInt32.toNat_ofNat_of_lt' (Nat.lt_trans small (by decide))
  rw [toSigned, stored, if_pos small]

end Xv6.Bytes
