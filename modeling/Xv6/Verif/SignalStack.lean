import Xv6.Verif.SignalReturn
import Xv6.Mem.Vm

/-!
# The user stack pointer in the signal code

`sig_handler_runner` builds a user handler's frame with four raw stores below `tf->esp`, the
stack pointer the user left, and `sigret` reloads the trap frame from the pointer the runner
saved. Neither looks at the pointer: the frame lands in the 91 bytes below whatever esp the
user chose, below the process size or above KERNBASE as it may be, and `sigret` takes every
register from the bytes it finds there, segment selectors and eflags included.
-/

namespace Xv6.Kernel

open Xv6.Bytes Xv6.Mem

/-- A write leaves an address alone that lies, from some base, past a window holding the
write. -/
theorem Memory.write_apply_past (memory : Memory) {start bottom address : UInt32}
    {bytes : List UInt8} {size : Nat} (at' : (start - bottom).toNat + bytes.length ≤ size)
    (past : size ≤ (address - bottom).toNat) : memory.write start bytes address = memory address := by
  apply Memory.write_apply_of_le
  have apart : address - start = (address - bottom) - (start - bottom) :=
    (sub_sub_sub_cancel_right address start bottom).symm
  have ordered : start - bottom ≤ address - bottom := by
    rw [UInt32.le_iff_toNat_le]
    omega
  rw [apart, UInt32.toNat_sub_of_le _ _ ordered]
  omega

/-- The frame of a user handler: the handler enters with esp `handlerFrameSize` bytes below the
user's, every byte the runner changes lies in the frame between them, and the saved trap frame sits
at its top. Nothing compares esp with the process size, the page table or KERNBASE. Each of the four
stores starts at a known distance above the handler's esp. -/
theorem deliver_frame_window (p : Proc) (i : Fin 32) :
    (deliver p i).tf.esp = p.tf.esp - UInt32.ofNat handlerFrameSize ∧
    (∀ address, (deliver p i).memory address ≠ p.memory address →
      (address - (deliver p i).tf.esp).toNat < handlerFrameSize) ∧
    (deliver p i).memory.read (backupAddress p) Trapframe.size = (savedFrame p).bytes := by
  have entry : (deliver p i).tf.esp = p.tf.esp - UInt32.ofNat handlerFrameSize := by
    rw [deliver_esp, stubAddress, backupAddress, sub_sub, sub_sub]
    rfl
  refine ⟨entry, fun address changed => ?_, deliver_saved p i⟩
  by_contra outside
  have past : handlerFrameSize ≤ (address - (deliver p i).tf.esp).toNat := Nat.le_of_not_lt outside
  have bottom : (deliver p i).tf.esp = stubAddress p - 8 := deliver_esp p i
  have atReturn : (stubAddress p - 8 - (stubAddress p - 8)).toNat = 0 := by simp
  have atSignum : (stubAddress p - 4 - (stubAddress p - 8)).toNat = 4 := by
    rw [sub_sub_sub_cancel_left]
    rfl
  have atStub : (stubAddress p - (stubAddress p - 8)).toNat = 8 := by
    rw [sub_sub_cancel]
    rfl
  have atSaved : (backupAddress p - (stubAddress p - 8)).toNat = 15 := by
    rw [stubAddress, sub_sub, sub_sub_cancel]
    rfl
  have size : handlerFrameSize = 91 := rfl
  apply changed
  rw [deliver_memory]
  unfold Memory.write32
  rw [bottom] at past
  rw [Memory.write_apply_past _ (by rw [atReturn]; simp; omega) past,
    Memory.write_apply_past _ (by rw [atSignum]; simp; omega) past,
    Memory.write_apply_past _ (by rw [atStub]; simp [implicitSigretCode]; omega) past,
    Memory.write_apply_past _ (by rw [atSaved]; simp [Trapframe.size]; omega) past]

/-- A process whose user code left esp 32 KB above KERNBASE, in the kernel's mapping of the
first megabyte of physical memory, before a system call, with a user handler at 0x800 for the
pending signal 10. -/
def kernelStackProc : Proc :=
  { Proc.empty with
    sz := 4096
    state := .running
    tf := { initcodeFrame with esp := 0x80008000 }
    pendingSignals := sigBit 10
    signalHandlers := fun i => if i.val = 10 then 0x800 else sigDfl }

/-- At its return to user mode the runner writes the saved trap frame into kernel memory, past
the process size. The whole frame, from the handler's esp up to the user's, lies in the first
line of `kmap`, which every page table maps writable for the kernel, so the stores go through. -/
theorem sigHandlerRunner_writes_kernel :
    (sigHandlerRunner kernelStackProc).memory.read (backupAddress kernelStackProc) Trapframe.size =
        (savedFrame kernelStackProc).bytes ∧
      KERNBASE ≤ (backupAddress kernelStackProc).toNat ∧
      kernelStackProc.sz.toNat ≤ (backupAddress kernelStackProc).toNat ∧
      ∀ data, ∃ line ∈ kmap data, line.perm.writable = true ∧
        line.virt ≤ (sigHandlerRunner kernelStackProc).tf.esp.toNat ∧
        kernelStackProc.tf.esp.toNat ≤ line.virt + (line.physEnd - line.physStart) := by
  have handled : action kernelStackProc 10 = .handle := by decide +kernel
  have runs : sigHandlerRunner kernelStackProc = deliver (clearPending kernelStackProc 10) 10 := by
    rw [@sigHandlerRunner_of_single kernelStackProc 10 (by decide) rfl, handled]
    rfl
  have window := deliver_frame_window (clearPending kernelStackProc 10) 10
  refine ⟨?_, by decide +kernel, by decide +kernel, fun data => ⟨_, List.mem_cons_self, rfl, ?_, ?_⟩⟩
  · rw [runs]
    exact window.2.2
  · rw [runs, window.1]
    decide +kernel
  · decide +kernel

/-- `sigret` reloads whatever trap frame the bytes at the saved pointer hold, with esp stepped
over it: its selectors and eflags come from memory, unchecked, and so does the pointer. -/
theorem sigret_loads (p : Proc) {frame : Trapframe}
    (holds : p.memory.read p.userTrapFramBackup Trapframe.size = frame.bytes) :
    (sigret p).tf = { frame with esp := frame.esp + UInt32.ofNat Trapframe.size } ∧
      (sigret p).memory = p.memory ∧ (sigret p).userTrapFramBackup = p.userTrapFramBackup := by
  refine ⟨?_, rfl, rfl⟩
  unfold sigret
  rw [holds, Trapframe.ofBytes_bytes]

/-- A frame with the kernel code selector and eflags with IOPL 3 and interrupts off, as a
handler can leave it over the saved copy on its own stack. -/
def ringZeroFrame : Trapframe := { initcodeFrame with cs := 8, eflags := 0x3000 }

/-- A process running a handler whose saved frame, at 0x800 on its stack inside its 4096 bytes,
the handler has overwritten with that frame. -/
def ringZeroProc : Proc :=
  { Proc.empty with
    sz := 4096
    state := .running
    tf := initcodeFrame
    userTrapFramBackup := 0x800
    memory := Memory.write (fun _ => 0) 0x800 ringZeroFrame.bytes }

/-- `sigret` reads the frame the handler left inside the process and leaves ring 0's code
selector, IOPL 3 and interrupts off for the return. -/
theorem sigret_ring_zero :
    ringZeroProc.memory.read ringZeroProc.userTrapFramBackup Trapframe.size = ringZeroFrame.bytes ∧
      ringZeroProc.userTrapFramBackup.toNat + Trapframe.size ≤ ringZeroProc.sz.toNat ∧
      (sigret ringZeroProc).tf.cs &&& 3 = 0 ∧ (sigret ringZeroProc).tf.eflags = 0x3000 := by
  have holds : ringZeroProc.memory.read ringZeroProc.userTrapFramBackup Trapframe.size =
      ringZeroFrame.bytes := by
    have whole := Memory.read_write_same (fun _ => 0) 0x800 ringZeroFrame.bytes
      (by simp [Trapframe.size])
    rwa [Trapframe.bytes_length] at whole
  have loaded := (sigret_loads ringZeroProc holds).1
  refine ⟨holds, by decide +kernel, ?_, ?_⟩
  · rw [loaded]
    rfl
  · rw [loaded]
    rfl

end Xv6.Kernel
