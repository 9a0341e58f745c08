import Xv6.Mem.Kalloc

/-!
# Page tables

vm.c's two-level page tables and the functions that build, grow, shrink, copy and free a
process's user memory, with `growproc` of proc.c on top. A page directory is a page of 1024
entries; a present entry holds a page-table page of 1024 PTEs; a present PTE maps a physical
page with its write and user bits. The code changes a page table in place, so a function of the
model returns the table as it leaves it, also when it fails; a panic is an error. Addresses are
uint values, below 2^32: where the code's uint arithmetic can wrap (`sz + n` in `growproc`, a
size in `setupkvm`) it is taken modulo 2^32, and the loops below, whose bounds are at most
KERNBASE, run as the code runs them.

The contents of pages are not modelled: `memset`, `memmove` and `loaduvm`'s reads fill pages,
but nothing here reads them. The kernel half of a directory is set up by `setupkvm` from `kmap`,
with `data`, the start of the kernel's data, as a parameter.
-/

namespace Xv6.Mem

def NPDENTRIES : Nat := 1024
def NPTENTRIES : Nat := 1024

instance : NeZero NPDENTRIES := ⟨by decide⟩
instance : NeZero NPTENTRIES := ⟨by decide⟩

/-- `PDX(va)`: the directory index of an address. -/
def PDX (va : Nat) : Fin NPDENTRIES := Fin.ofNat NPDENTRIES (va / 2 ^ 22)

/-- `PTX(va)`: the page-table index of an address. -/
def PTX (va : Nat) : Fin NPTENTRIES := Fin.ofNat NPTENTRIES (va / PGSIZE)

/-- The permission bits a PTE carries: `PTE_W` and `PTE_U`. -/
structure Perm where
  writable : Bool
  user : Bool
  deriving DecidableEq, Repr

/-- A present PTE: the physical page and the permission bits. -/
structure Pte where
  addr : Nat
  perm : Perm
  deriving DecidableEq, Repr

/-- A page-table page: where it is, and its PTEs; `none` is an entry without `PTE_P`. -/
structure PageTab where
  page : Nat
  entries : Fin NPTENTRIES → Option Pte

/-- A page directory: where it is, and its present entries. -/
structure PageDir where
  page : Nat
  tables : Fin NPDENTRIES → Option PageTab

namespace PageDir

/-- The PTE that maps `va`, if its page table is present and the PTE is. -/
def entry (pd : PageDir) (va : Nat) : Option Pte :=
  match pd.tables (PDX va) with
  | some table => table.entries (PTX va)
  | none => none

/-- `*pte = x` for the PTE of `va`, in a present page table. -/
def setEntry (pd : PageDir) (va : Nat) (x : Option Pte) : PageDir :=
  match pd.tables (PDX va) with
  | some table =>
    let table := { table with entries := Function.update table.entries (PTX va) x }
    { pd with tables := Function.update pd.tables (PDX va) (some table) }
  | none => pd

end PageDir

section Layout

variable (kernEnd : Nat)

/-- `walkpgdir(pgdir, va, alloc)`: the directory with the page table of `va` present, or none
(the code's 0) when it is absent and `alloc` is false or `kalloc` fails. -/
def walkpgdir (pd : PageDir) (free : FreeList) (va : Nat) (alloc : Bool) :
    Option (PageDir × FreeList) :=
  match pd.tables (PDX va) with
  | some _ => some (pd, free)
  | none =>
    if !alloc then none
    else
      match kalloc free with
      | none => none
      | some (page, free) =>
        let table : PageTab := { page := page, entries := fun _ => none }
        some ({ pd with tables := Function.update pd.tables (PDX va) (some table) }, free)

/-- `mappages`'s loop over the pages to map, each with its physical page: the directory, the
free list, and whether every page was mapped (0) or `walkpgdir` failed (-1). -/
def mapLoop (pd : PageDir) (free : FreeList) (perm : Perm) :
    List (Nat × Nat) → Except String (PageDir × FreeList × Bool)
  | [] => .ok (pd, free, true)
  | (a, pa) :: rest =>
    match walkpgdir pd free a true with
    | none => .ok (pd, free, false)
    | some (pd, free) =>
      if (pd.entry a).isSome then .error "remap"
      else mapLoop (pd.setEntry a (some { addr := pa, perm := perm })) free perm rest

/-- The rounds of `mappages`'s `for(;;)` loop from `a`, each to map `a` to `pa`: the loop stops
after the round at `last`, and `a += PGSIZE; pa += PGSIZE` are uint arithmetic. `fuel` bounds
the rounds. -/
def mapRounds (last : Nat) : (fuel a pa : Nat) → List (Nat × Nat)
  | 0, _, _ => []
  | fuel + 1, a, pa =>
    (a, pa) ::
      if a = last then [] else mapRounds last fuel ((a + PGSIZE) % 2 ^ 32) ((pa + PGSIZE) % 2 ^ 32)

/-- `mappages(pgdir, va, size, pa, perm)`: the rounds from `PGROUNDDOWN(va)` up to
`PGROUNDDOWN(va + size - 1)`, both in uint arithmetic. Both are page addresses below 2^32, so
the loop meets `last` within a round per page of the address space, which is its fuel. -/
def mappages (pd : PageDir) (free : FreeList) (va size pa : Nat) (perm : Perm) :
    Except String (PageDir × FreeList × Bool) :=
  let a := PGROUNDDOWN va
  let last := PGROUNDDOWN ((va + size + 2 ^ 32 - 1) % 2 ^ 32)
  mapLoop pd free perm (mapRounds last (NPDENTRIES * NPTENTRIES) a pa)

/-- `deallocuvm`'s loop from `a` up to `oldsz`. A missing page table is skipped whole: the code
sets `a` to `PGADDR(PDX(a) + 1, 0, 0) - PGSIZE` before the loop's `a += PGSIZE`. Each round moves
`a` on, so `oldsz` rounds are always enough, and the call below gives that many. -/
def deallocLoop (oldsz : Nat) (pd : PageDir) (free : FreeList) :
    (fuel : Nat) → (a : Nat) → Except String (PageDir × FreeList)
  | 0, _ => .ok (pd, free)
  | fuel + 1, a =>
    if a < oldsz then
      match pd.tables (PDX a) with
      | none => deallocLoop oldsz pd free fuel ((a / 2 ^ 22 + 1) * 2 ^ 22)
      | some _ =>
        match pd.entry a with
        | some pte =>
          if pte.addr = 0 then .error "kfree"
          else
            match kfree kernEnd free pte.addr with
            | .error message => .error message
            | .ok free => deallocLoop oldsz (pd.setEntry a none) free fuel (a + PGSIZE)
        | none => deallocLoop oldsz pd free fuel (a + PGSIZE)
    else .ok (pd, free)

/-- `deallocuvm(pgdir, oldsz, newsz)`: the directory, the free list and the size it returns. -/
def deallocuvm (pd : PageDir) (free : FreeList) (oldsz newsz : Nat) :
    Except String (PageDir × FreeList × Nat) :=
  if newsz ≥ oldsz then .ok (pd, free, oldsz)
  else
    match deallocLoop kernEnd oldsz pd free oldsz (PGROUNDUP newsz) with
    | .error message => .error message
    | .ok (pd, free) => .ok (pd, free, newsz)

/-- The page addresses `a, a + PGSIZE, ...` below `bound`: the rounds of a loop
`for(; a < bound; a += PGSIZE)`. -/
def pageAddrs (a bound : Nat) : List Nat :=
  (List.range ((bound - a + PGSIZE - 1) / PGSIZE)).map fun k => a + k * PGSIZE

/-- `allocuvm`'s loop over the pages to add; on a failure it undoes what it added with
`deallocuvm(pgdir, newsz, oldsz)` and returns 0. -/
def allocLoop (oldsz newsz : Nat) (pd : PageDir) (free : FreeList) :
    List Nat → Except String (PageDir × FreeList × Nat)
  | [] => .ok (pd, free, newsz)
  | a :: rest =>
    match kalloc free with
    | none =>
      match deallocuvm kernEnd pd free newsz oldsz with
      | .error message => .error message
      | .ok (pd, free, _) => .ok (pd, free, 0)
    | some (mem, free) =>
      match mappages pd free a PGSIZE mem { writable := true, user := true } with
      | .error message => .error message
      | .ok (pd, free, true) => allocLoop oldsz newsz pd free rest
      | .ok (pd, free, false) =>
        match deallocuvm kernEnd pd free newsz oldsz with
        | .error message => .error message
        | .ok (pd, free, _) =>
          match kfree kernEnd free mem with
          | .error message => .error message
          | .ok free => .ok (pd, free, 0)

/-- `allocuvm(pgdir, oldsz, newsz)`: the directory, the free list and the size it returns,
0 on an error. -/
def allocuvm (pd : PageDir) (free : FreeList) (oldsz newsz : Nat) :
    Except String (PageDir × FreeList × Nat) :=
  if newsz ≥ KERNBASE then .ok (pd, free, 0)
  else if newsz < oldsz then .ok (pd, free, oldsz)
  else allocLoop kernEnd oldsz newsz pd free (pageAddrs (PGROUNDUP oldsz) newsz)

/-- The loop of `freevm` over the directory's entries: each page-table page goes back. -/
def freeTables (pd : PageDir) : FreeList → List (Fin NPDENTRIES) → Except String FreeList
  | free, [] => .ok free
  | free, i :: rest =>
    match pd.tables i with
    | some table =>
      match kfree kernEnd free table.page with
      | .error message => .error message
      | .ok free => freeTables pd free rest
    | none => freeTables pd free rest

/-- `freevm(pgdir)`: every user page, every page-table page and the directory's page. -/
def freevm (pd : PageDir) (free : FreeList) : Except String FreeList :=
  match deallocuvm kernEnd pd free KERNBASE 0 with
  | .error message => .error message
  | .ok (pd, free, _) =>
    match freeTables kernEnd pd free (List.finRange NPDENTRIES) with
    | .error message => .error message
    | .ok free => kfree kernEnd free pd.page

/-- One line of `kmap`. -/
structure Kmap where
  virt : Nat
  physStart : Nat
  physEnd : Nat
  perm : Perm

/-- The kernel's mappings, present in every page table; `data` is where the kernel's data
starts. -/
def kmap (data : Nat) : List Kmap :=
  [{ virt := KERNBASE, physStart := 0, physEnd := EXTMEM, perm := ⟨true, false⟩ },
   { virt := KERNLINK, physStart := V2P KERNLINK, physEnd := V2P data, perm := ⟨false, false⟩ },
   { virt := data, physStart := V2P data, physEnd := PHYSTOP, perm := ⟨true, false⟩ },
   { virt := DEVSPACE, physStart := DEVSPACE, physEnd := 0, perm := ⟨true, false⟩ }]

/-- `setupkvm`'s loop over `kmap`; a failed `mappages` frees the directory with `freevm`. The size
is `k->phys_end - k->phys_start`, in uint arithmetic. -/
def kmapLoop (pd : PageDir) (free : FreeList) :
    List Kmap → Except String (Option PageDir × FreeList)
  | [] => .ok (some pd, free)
  | k :: rest =>
    match mappages pd free k.virt ((k.physEnd + 2 ^ 32 - k.physStart) % 2 ^ 32) k.physStart
        k.perm with
    | .error message => .error message
    | .ok (pd, free, true) => kmapLoop pd free rest
    | .ok (pd, free, false) =>
      match freevm kernEnd pd free with
      | .error message => .error message
      | .ok free => .ok (none, free)

/-- `setupkvm()`: a new directory with the kernel's mappings, or none (0). The test
`P2V(PHYSTOP) > DEVSPACE` is false for this PHYSTOP, so its panic is left out. -/
def setupkvm (data : Nat) (free : FreeList) : Except String (Option PageDir × FreeList) :=
  match kalloc free with
  | none => .ok (none, free)
  | some (page, free) => kmapLoop kernEnd { page := page, tables := fun _ => none } free (kmap data)

/-- `copyuvm`'s loop over the parent's pages: each is copied into a new page mapped with the
same bits in the child's directory `child`. -/
def copyLoop (parent : PageDir) (child : PageDir) (free : FreeList) :
    List Nat → Except String (PageDir × FreeList × Bool)
  | [] => .ok (child, free, true)
  | i :: rest =>
    match parent.tables (PDX i) with
    | none => .error "copyuvm: pte should exist"
    | some _ =>
      match parent.entry i with
      | none => .error "copyuvm: page not present"
      | some pte =>
        match kalloc free with
        | none => .ok (child, free, false)
        | some (mem, free) =>
          match mappages child free i PGSIZE mem pte.perm with
          | .error message => .error message
          | .ok (child, free, true) => copyLoop parent child free rest
          | .ok (child, free, false) =>
            match kfree kernEnd free mem with
            | .error message => .error message
            | .ok free => .ok (child, free, false)

/-- `copyuvm(pgdir, sz)`: a copy of the first `sz` bytes of user memory in a new directory, or
none (0), after freeing what it built with `freevm`. -/
def copyuvm (data : Nat) (pd : PageDir) (free : FreeList) (sz : Nat) :
    Except String (Option PageDir × FreeList) :=
  match setupkvm kernEnd data free with
  | .error message => .error message
  | .ok (none, free) => .ok (none, free)
  | .ok (some child, free) =>
    match copyLoop kernEnd pd child free (pageAddrs 0 sz) with
    | .error message => .error message
    | .ok (child, free, true) => .ok (some child, free)
    | .ok (child, free, false) =>
      match freevm kernEnd child free with
      | .error message => .error message
      | .ok free => .ok (none, free)

/-- `clearpteu(pgdir, uva)`: the page stays present, without `PTE_U`. -/
def clearpteu (pd : PageDir) (uva : Nat) : Except String PageDir :=
  match pd.tables (PDX uva) with
  | none => .error "clearpteu"
  | some _ =>
    match pd.entry uva with
    | some pte => .ok (pd.setEntry uva (some { pte with perm := { pte.perm with user := false } }))
    | none => .ok (pd.setEntry uva none)

/-! ## From proc.c -/

/-- What `growproc` and its callers keep of a process: its directory and its size. -/
structure Space where
  pgdir : PageDir
  sz : Nat

/-- `growproc(n)` of the process with user memory `space`: the memory, the free list and the
value it returns. `sz + n` is uint arithmetic. -/
def growproc (space : Space) (free : FreeList) (n : Int32) : Except String (Space × FreeList × Int) :=
  let target := (((space.sz : Int) + n.toInt) % 2 ^ 32).toNat
  if n.toInt > 0 then
    match allocuvm kernEnd space.pgdir free space.sz target with
    | .error message => .error message
    | .ok (pd, free, 0) => .ok ({ space with pgdir := pd }, free, -1)
    | .ok (pd, free, sz) => .ok ({ pgdir := pd, sz := sz }, free, 0)
  else if n.toInt < 0 then
    match deallocuvm kernEnd space.pgdir free space.sz target with
    | .error message => .error message
    | .ok (pd, free, 0) => .ok ({ space with pgdir := pd }, free, -1)
    | .ok (pd, free, sz) => .ok ({ pgdir := pd, sz := sz }, free, 0)
  else .ok (space, free, 0)

end Layout

end Xv6.Mem
