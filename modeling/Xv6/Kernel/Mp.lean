import Xv6.Lib.Bytes
import Xv6.Mem.Kalloc

/-!
# The MP configuration table

`mpinit` of mp.c with the search below it: `sum`, `mpsearch1`, `mpsearch` and `mpconfig`. They
read physical memory, a byte at each address, through `P2V`: `kvmalloc` has mapped physical
memory up to PHYSTOP at KERNBASE, so `P2V(a)` reads the byte at `a` when `a` lies below PHYSTOP,
and a `uint` address above it is not mapped there. `p-1024` in `mpsearch` is such an address
when the BIOS data area gives no base memory size: `P2V` then wraps to 0x7FFFFC00, below
KERNBASE, and the first read faults. mpinit runs before `tvinit` and `idtinit`, so there is no
interrupt table and the fault resets the machine; the model's outcome is the error "page fault".
A range is read as a whole: one that runs out of the map part way faults at its start, where the
kernel would fault at its first unmapped byte, unless a comparison had failed before it. The
ranges `mpsearch` reads lie wholly inside the map or wholly outside it.

mpinit walks the entries after the table's header. An entry of a known type moves the walk on
by its size; an entry of any other type sets `ismp` to 0 and `break`s, which leaves the
`switch` and not the `for`, so the walk does not move. The loop is given `fuel` rounds, and a
loop that has not ended when they run out is `none`. The `imcrp` branch after the loop writes
I/O ports only, and is left out.
-/

namespace Xv6.Kernel

open Xv6.Bytes

/-- `NCPU`, the most CPUs the kernel keeps. -/
def NCPU : Nat := 8

/-- The entry types of a configuration table. -/
def MPPROC : UInt8 := 0x00
def MPBUS : UInt8 := 0x01
def MPIOAPIC : UInt8 := 0x02
def MPIOINTR : UInt8 := 0x03
def MPLINTR : UInt8 := 0x04

/-- `sizeof(struct mp)`, the floating pointer. -/
def mpSize : Nat := 16

/-- `sizeof(struct mpconf)`, the configuration table's header. -/
def mpconfSize : Nat := 44

/-- `sizeof(struct mpproc)`. -/
def mpprocSize : Nat := 20

/-- `sizeof(struct mpioapic)`. -/
def mpioapicSize : Nat := 8

/-- `"_MP_"` and `"PCMP"`. -/
def mpSignature : List UInt8 := [95, 77, 80, 95]
def pcmpSignature : List UInt8 := [80, 67, 77, 80]

/-- The `n` bytes from `a`. -/
def bytesAt (mem : Nat → UInt8) (a n : Nat) : List UInt8 :=
  (List.range n).map fun i => mem (a + i)

/-- `sum(addr, len)`: the bytes added up, returned as a uchar, which keeps the sum modulo 256. -/
def sum (mem : Nat → UInt8) (addr len : Nat) : UInt8 :=
  (bytesAt mem addr len).foldl (· + ·) 0

/-- Whether `P2V` maps the `len` bytes from physical `a`: they end by PHYSTOP. -/
def directMapped (a len : Nat) : Bool := decide (a + len ≤ Mem.PHYSTOP)

/-- The outcome of a read outside the map at boot. -/
def pageFault : String := "page fault"

/-- `mpsearch1(a, len)`: the first place `a + 16k` below `a + len` that holds `"_MP_"` and
whose 16 bytes sum to 0. -/
def mpsearch1 (mem : Nat → UInt8) (a len : Nat) : Except String (Option Nat) :=
  if !directMapped a len then .error pageFault
  else
    .ok (((List.range ((len + mpSize - 1) / mpSize)).map fun k => a + k * mpSize).find? fun p =>
      bytesAt mem p 4 == mpSignature && sum mem p mpSize == 0)

/-- `mpsearch()`: the EBDA's first kilobyte when the BIOS data area gives its segment, else the
last kilobyte of base memory; then the BIOS ROM. -/
def mpsearch (mem : Nat → UInt8) : Except String (Option Nat) :=
  let bda := 0x400
  let ebda := ((mem (bda + 0x0F)).toNat * 2 ^ 8 + (mem (bda + 0x0E)).toNat) * 2 ^ 4
  let first :=
    if ebda ≠ 0 then mpsearch1 mem ebda 1024
    else
      let base := ((mem (bda + 0x14)).toNat * 2 ^ 8 + (mem (bda + 0x13)).toNat) * 1024
      mpsearch1 mem ((base + 2 ^ 32 - 1024) % 2 ^ 32) 1024
  match first with
  | .error message => .error message
  | .ok (some mp) => .ok (some mp)
  | .ok none => mpsearch1 mem 0xF0000 0x10000

/-- `mp->physaddr`, the configuration table's address. -/
def physaddr (mem : Nat → UInt8) (mp : Nat) : Nat := (readLe32 (bytesAt mem (mp + 4) 4)).1.toNat

/-- `conf->length`, the table's length with its header. -/
def confLength (mem : Nat → UInt8) (conf : Nat) : Nat :=
  (readLe16 (bytesAt mem (conf + 4) 2)).1.toNat

/-- `conf->version`. -/
def confVersion (mem : Nat → UInt8) (conf : Nat) : UInt8 := mem (conf + 6)

/-- `conf->lapicaddr`, the local APIC's address. -/
def lapicaddr (mem : Nat → UInt8) (conf : Nat) : Nat :=
  (readLe32 (bytesAt mem (conf + 36) 4)).1.toNat

/-- `mpconfig(&mp)`: the floating pointer and the configuration table, when the pointer gives a
table whose signature, version and checksum pass. `P2V(mp->physaddr)` is read first for the
signature, then to its version byte, then over the table's length. -/
def mpconfig (mem : Nat → UInt8) : Except String (Option (Nat × Nat)) :=
  match mpsearch mem with
  | .error message => .error message
  | .ok none => .ok none
  | .ok (some mp) =>
    if physaddr mem mp = 0 then .ok none
    else
      let conf := physaddr mem mp
      if !directMapped conf 4 then .error pageFault
      else if bytesAt mem conf 4 ≠ pcmpSignature then .ok none
      else if !directMapped conf 7 then .error pageFault
      else if confVersion mem conf ≠ 1 ∧ confVersion mem conf ≠ 4 then .ok none
      else if !directMapped conf (confLength mem conf) then .error pageFault
      else if sum mem conf (confLength mem conf) ≠ 0 then .ok none
      else .ok (some (mp, conf))

/-- What mpinit sets: `lapic`, `ncpu`, the `apicid` of each slot of `cpus`, and `ioapicid`. -/
structure MpGlobals where
  lapic : Nat
  ncpu : Nat
  apicid : Nat → UInt8
  ioapicid : UInt8

/-- The globals at boot, zero as the kernel's bss is. -/
def MpGlobals.boot : MpGlobals := ⟨0, 0, fun _ => 0, 0⟩

/-- The variables of mpinit's entry loop. -/
structure Scan where
  p : Nat
  ismp : Bool
  globals : MpGlobals

/-- One round of the loop: the `switch` on the entry's type byte. The `default` case, `ismp = 0;
break;`, leaves the switch with `p` where it is. -/
def mpinitStep (mem : Nat → UInt8) (s : Scan) : Scan :=
  let t := mem s.p
  if t = MPPROC then
    let m := s.globals
    let m := if m.ncpu < NCPU then
        { m with apicid := Function.update m.apicid m.ncpu (mem (s.p + 1)), ncpu := m.ncpu + 1 }
      else m
    { s with globals := m, p := s.p + mpprocSize }
  else if t = MPIOAPIC then
    { s with globals := { s.globals with ioapicid := mem (s.p + 1) }, p := s.p + mpioapicSize }
  else if t = MPBUS ∨ t = MPIOINTR ∨ t = MPLINTR then { s with p := s.p + 8 }
  else { s with ismp := false }

/-- `for(; p < e; )` over the entries, with at most `fuel` rounds. -/
def mpinitLoop (mem : Nat → UInt8) (e : Nat) : (fuel : Nat) → Scan → Option Scan
  | 0, _ => none
  | fuel + 1, s => if s.p < e then mpinitLoop mem e fuel (mpinitStep mem s) else some s

/-- `e`, the end of the table at `conf`. -/
def tableEnd (mem : Nat → UInt8) (conf : Nat) : Nat := conf + confLength mem conf

/-- Where the loop starts: `p` after the header, `ismp` 1, the globals as at boot with `lapic`
set from the table. -/
def mpinitStart (mem : Nat → UInt8) (conf : Nat) : Scan :=
  ⟨conf + mpconfSize, true, { MpGlobals.boot with lapic := lapicaddr mem conf }⟩

/-- `mpinit()` at boot: the machine it describes, a panic or a fault, or none while its loop
runs. -/
def mpinit (mem : Nat → UInt8) (fuel : Nat) : Option (Except String MpGlobals) :=
  match mpconfig mem with
  | .error message => some (.error message)
  | .ok none => some (.error "Expect to run on an SMP")
  | .ok (some (_, conf)) =>
    match mpinitLoop mem (tableEnd mem conf) fuel (mpinitStart mem conf) with
    | none => none
    | some s =>
      if !s.ismp then some (.error "Didn't find a suitable machine") else some (.ok s.globals)

end Xv6.Kernel
