import Xv6.Kernel.Proc

/-!
# System call numbers and arguments

The numbers of syscall.h, the table lookup that `syscall()` makes with the number in eax, and
the argument fetchers of syscall.c. Arguments sit on the user stack above the return address
the library stub pushed; every fetch is checked against the process size and fails rather
than read past it. The unsigned comparisons of the source are comparisons of 32-bit words,
so an address near the top of the address space wraps exactly as it does in C.
-/

namespace Xv6.Kernel

open Xv6.Bytes

/-- The system calls of the `syscalls[]` table. -/
inductive Syscall
  | fork | exit | wait | pipe | read | kill | exec | fstat | chdir | dup | getpid | sbrk
  | sleep | uptime | «open» | write | mknod | unlink | link | mkdir | close | sigprocmask
  | sigaction | sigret
  deriving DecidableEq, Repr

namespace Syscall

/-- The table in number order: entry `k` is `SYS_` number `k + 1`. -/
def table : List Syscall :=
  [fork, exit, wait, pipe, read, kill, exec, fstat, chdir, dup, getpid, sbrk, sleep, uptime,
    «open», write, mknod, unlink, link, mkdir, close, sigprocmask, sigaction, sigret]

end Syscall

/-- `SYS_sigret`. -/
def sysSigret : UInt32 := 24

/-- The lookup `syscall()` makes: `num > 0 && num < NELEM(syscalls) && syscalls[num]`, with
`num` the signed value of eax. -/
def syscallOf (eax : UInt32) : Option Syscall :=
  let num := eax.toInt32.toInt
  if 0 < num ∧ num < 25 then Syscall.table[num.toNat - 1]? else none

/-- The number of sigret names sigret. -/
theorem syscallOf_sysSigret : syscallOf sysSigret = some .sigret := by decide

/-- `fetchint`: the word at `addr`, if all four of its bytes lie below `sz`. -/
def fetchint (p : Proc) (addr : UInt32) : Option UInt32 :=
  if addr ≥ p.sz ∨ addr + 4 > p.sz then none else some (p.memory.read32 addr)

/-- fetchstr's loop, `for(s = *pp; s < ep; s++) if(*s == 0) return s - *pp;`, at `s` with `len`
bytes of the string behind it; `fuel` counts the addresses left below `ep`. -/
def fetchstrLoop (memory : Memory) (ep : UInt32) : (fuel : Nat) → (s : UInt32) → (len : Nat) →
    Option Nat
  | 0, _, _ => none
  | fuel + 1, s, len =>
    if s < ep then
      if memory s = 0 then some len else fetchstrLoop memory ep fuel (s + 1) (len + 1)
    else none

/-- `fetchstr`: the length of the string at `addr`, if its NUL lies below `sz`. -/
def fetchstr (p : Proc) (addr : UInt32) : Option Nat :=
  if addr ≥ p.sz then none else fetchstrLoop p.memory p.sz (p.sz - addr).toNat addr 0

/-- `argint`: the `n`th word argument, above the return address at the user esp. -/
def argint (p : Proc) (n : Nat) : Option UInt32 :=
  fetchint p (p.tf.esp + 4 + 4 * UInt32.ofNat n)

/-- `argptr`: the `n`th argument as a pointer to `size` bytes that lie below `sz`. -/
def argptr (p : Proc) (n : Nat) (size : Int32) : Option UInt32 := do
  let i ← argint p n
  if size < 0 ∨ i ≥ p.sz ∨ i + size.toUInt32 > p.sz then none else some i

/-- `argstr`: the `n`th argument as a pointer to a string below `sz`, with the string's
length. -/
def argstr (p : Proc) (n : Nat) : Option (UInt32 × Nat) := do
  let addr ← argint p n
  let len ← fetchstr p addr
  pure (addr, len)

end Xv6.Kernel
