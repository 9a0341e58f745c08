import Xv6.Lib.Bytes

/-!
# The trap frame

`struct trapframe` of x86.h, field for field, and its 76-byte image in memory. The signal
runner copies a frame to the user stack with memmove and sigret copies it back, so both work
on this image, and reading the image of a frame returns the frame. While a process runs in
user mode its frame stands for the processor's registers: the next trap pushes them, and
trapret pops them. What a user program sees of a frame is its general registers, eip, esp,
eflags and the six segment selectors; oesp, trapno, err and the padding halves mean nothing
in user mode.
-/

namespace Xv6.Kernel

open Xv6.Bytes

/-- `struct trapframe`: the registers as pushed by pusha, the segment selectors and trap
number pushed by alltraps and the vector, and the part the processor pushes. -/
structure Trapframe where
  /-- Pushed by pusha. -/
  edi : UInt32
  esi : UInt32
  ebp : UInt32
  /-- The kernel stack pointer at pusha; ignored by popa. -/
  oesp : UInt32
  ebx : UInt32
  edx : UInt32
  ecx : UInt32
  eax : UInt32
  /-- Pushed by alltraps. -/
  gs : UInt16
  padding1 : UInt16
  fs : UInt16
  padding2 : UInt16
  es : UInt16
  padding3 : UInt16
  ds : UInt16
  padding4 : UInt16
  /-- Pushed by the vector. -/
  trapno : UInt32
  /-- Pushed by the processor, or as zero by the vector. -/
  err : UInt32
  eip : UInt32
  cs : UInt16
  padding5 : UInt16
  eflags : UInt32
  /-- Pushed only when the trap crosses from user to kernel mode. -/
  esp : UInt32
  ss : UInt16
  padding6 : UInt16
  deriving DecidableEq, Repr, Inhabited

/-- `DPL_USER`: the privilege level of user segments. -/
def dplUser : UInt16 := 3

/-- `T_SYSCALL`: the system call vector. -/
def tSyscall : UInt32 := 64

/-- `T_IRQ0 + IRQ_TIMER`: the timer interrupt vector. -/
def tIrqTimer : UInt32 := 32

namespace Trapframe

/-- `sizeof(struct trapframe)`. -/
def size : Nat := 76

/-- The frame's bytes in memory order. -/
def bytes (tf : Trapframe) : List UInt8 :=
  le32 tf.edi ++ le32 tf.esi ++ le32 tf.ebp ++ le32 tf.oesp ++ le32 tf.ebx ++ le32 tf.edx ++
    le32 tf.ecx ++ le32 tf.eax ++ le16 tf.gs ++ le16 tf.padding1 ++ le16 tf.fs ++
    le16 tf.padding2 ++ le16 tf.es ++ le16 tf.padding3 ++ le16 tf.ds ++ le16 tf.padding4 ++
    le32 tf.trapno ++ le32 tf.err ++ le32 tf.eip ++ le16 tf.cs ++ le16 tf.padding5 ++
    le32 tf.eflags ++ le32 tf.esp ++ le16 tf.ss ++ le16 tf.padding6

/-- The frame a 76-byte image holds, read field by field. -/
def ofBytes (image : List UInt8) : Trapframe :=
  let (edi, image) := readLe32 image
  let (esi, image) := readLe32 image
  let (ebp, image) := readLe32 image
  let (oesp, image) := readLe32 image
  let (ebx, image) := readLe32 image
  let (edx, image) := readLe32 image
  let (ecx, image) := readLe32 image
  let (eax, image) := readLe32 image
  let (gs, image) := readLe16 image
  let (padding1, image) := readLe16 image
  let (fs, image) := readLe16 image
  let (padding2, image) := readLe16 image
  let (es, image) := readLe16 image
  let (padding3, image) := readLe16 image
  let (ds, image) := readLe16 image
  let (padding4, image) := readLe16 image
  let (trapno, image) := readLe32 image
  let (err, image) := readLe32 image
  let (eip, image) := readLe32 image
  let (cs, image) := readLe16 image
  let (padding5, image) := readLe16 image
  let (eflags, image) := readLe32 image
  let (esp, image) := readLe32 image
  let (ss, image) := readLe16 image
  let (padding6, _) := readLe16 image
  { edi, esi, ebp, oesp, ebx, edx, ecx, eax, gs, padding1, fs, padding2, es, padding3, ds,
    padding4, trapno, err, eip, cs, padding5, eflags, esp, ss, padding6 }

/-- The image of a frame has the size of the structure. -/
@[simp] theorem bytes_length (tf : Trapframe) : tf.bytes.length = size := by
  unfold bytes
  simp only [List.length_append, le32_length, le16_length, size]

/-- Reading the image of a frame returns the frame. -/
@[simp] theorem ofBytes_bytes (tf : Trapframe) : ofBytes tf.bytes = tf := by
  have image : tf.bytes = tf.bytes ++ [] := (List.append_nil _).symm
  rw [image]
  unfold bytes
  simp only [List.append_assoc]
  unfold ofBytes
  simp only [readLe32_le32, readLe16_le16]

/-- The registers a user program sees. -/
structure UserRegisters where
  eax : UInt32
  ebx : UInt32
  ecx : UInt32
  edx : UInt32
  esi : UInt32
  edi : UInt32
  ebp : UInt32
  eip : UInt32
  esp : UInt32
  eflags : UInt32
  cs : UInt16
  ss : UInt16
  ds : UInt16
  es : UInt16
  fs : UInt16
  gs : UInt16
  deriving DecidableEq, Repr

/-- The registers iret and popal load from the frame. -/
def registers (tf : Trapframe) : UserRegisters :=
  { eax := tf.eax, ebx := tf.ebx, ecx := tf.ecx, edx := tf.edx, esi := tf.esi, edi := tf.edi,
    ebp := tf.ebp, eip := tf.eip, esp := tf.esp, eflags := tf.eflags, cs := tf.cs, ss := tf.ss,
    ds := tf.ds, es := tf.es, fs := tf.fs, gs := tf.gs }

/-- The frame a trap from user mode pushes: the user registers, the vector's number, and the
zero error code that the vectors without a processor error code push. -/
def entry (user : Trapframe) (trapno : UInt32) : Trapframe :=
  { user with trapno := trapno, err := 0 }

@[simp] theorem entry_registers (user : Trapframe) (trapno : UInt32) :
    (entry user trapno).registers = user.registers := rfl

@[simp] theorem entry_cs (user : Trapframe) (trapno : UInt32) :
    (entry user trapno).cs = user.cs := rfl

@[simp] theorem entry_eax (user : Trapframe) (trapno : UInt32) :
    (entry user trapno).eax = user.eax := rfl

@[simp] theorem entry_trapno (user : Trapframe) (trapno : UInt32) :
    (entry user trapno).trapno = trapno := rfl

end Trapframe

end Xv6.Kernel
