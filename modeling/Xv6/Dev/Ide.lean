import Mathlib.Data.Fintype.Card
import Xv6.Fs.Bio
import Xv6.Lib.Chain

/-!
# The IDE disk driver

`ide.c` keeps its requests on `idequeue`, a list linked through the buffers' `qnext` fields, and
the disk works on the request at its head. `iderw` appends a buffer its caller holds, walking a
pointer to a link until it reaches the null one at the tail, starts the disk when the buffer is
first, and sleeps until the buffer is valid and not dirty. The interrupt for the request at the
head reads the sector into a buffer that is not dirty, unless the disk reports an error, sets
B_VALID, clears B_DIRTY, wakes the sleepers and starts the disk on the next request.

The disk is a controller that carries out one command at a time (`busy`): `idestart` gives it
the drive `dev & 1` and the sector, with the data for a write when the buffer is B_DIRTY, and
the disk raises the interrupt when it is done. `ok` is what `idewait(1)` then reads in the
status register. `sleep` and `wakeup` are one test of `iderw`'s wait loop at a time, in any
order. Each buffer's sleep lock is held by a process, which changes its buffer only while it is
outside the driver, as `bget`, a writer and `bwrite` do. A buffer pointer handed to `idestart`
is never null here, and BSIZE / SECTOR_SIZE is 1, so the driver's two `"idestart"` panics do
not arise. `Fs.Bio` models the same queue as a list inside the buffer cache; here the queue is
its links. Two ghost fields, which no code reads, record the buffers appended to the queue and
those whose request completed, in order.
-/

namespace Xv6.Dev

open Xv6.SList
open Xv6.Fs (BSIZE FSSIZE)

/-- The size of a disk sector. -/
def SECTOR_SIZE : Nat := 512

/-- The fields of `struct buf` that the driver reads or writes. -/
structure IdeBuf (κ δ : Type) where
  /-- B_VALID: the data has been read from disk. -/
  valid : Bool
  /-- B_DIRTY: the data needs to be written to disk. -/
  dirty : Bool
  dev : Nat
  blockno : Nat
  qnext : Option κ
  data : δ

/-- `(b->flags & (B_VALID|B_DIRTY)) == B_VALID`: the buffer holds its block. -/
def IdeBuf.synced {κ δ : Type} (buf : IdeBuf κ δ) : Bool := buf.valid && !buf.dirty

/-- A command on the disk: the drive and the sector, and the data that goes with a write. -/
structure DiskCmd (δ : Type) where
  drive : Nat
  sector : Nat
  write : Option δ

/-- The sector a command is for, on its drive. -/
def DiskCmd.key {δ : Type} (cmd : DiskCmd δ) : Nat × Nat := (cmd.drive, cmd.sector)

/-- Where a process stands in the driver. -/
inductive IdePc (κ : Type)
  /-- Outside it. -/
  | idle
  /-- In `iderw`'s wait loop for a buffer. -/
  | waiting (b : κ)
  deriving DecidableEq, Repr

/-- The buffers, their sleep locks, the queue, the disk and the processes. -/
structure Ide (ι κ δ : Type) where
  buf : κ → IdeBuf κ δ
  /-- The holder of each buffer's sleep lock. -/
  holder : κ → Option ι
  idequeue : Option κ
  havedisk1 : Bool
  /-- The sectors of each drive. -/
  disk : Nat × Nat → δ
  /-- The command the disk is carrying out. -/
  busy : Option (DiskCmd δ)
  pc : ι → IdePc κ
  panicked : Option String
  /-- Ghost: the buffers appended to the queue, in order. -/
  arrived : List κ
  /-- Ghost: the buffers whose request completed, in order. -/
  completed : List κ

/-- What the processes and the disk do. -/
inductive IdeEvent (ι κ δ : Type)
  /-- `acquiresleep` on a buffer's lock. -/
  | acquire (p : ι) (b : κ)
  /-- `releasesleep`. -/
  | release (p : ι) (b : κ)
  /-- The holder of a buffer sets its flags, its block and its data. -/
  | fill (p : ι) (b : κ) (valid dirty : Bool) (dev blockno : Nat) (data : δ)
  | iderw (p : ι) (b : κ)
  /-- One test of `iderw`'s wait loop. -/
  | wake (p : ι)
  /-- The disk finishes its command and interrupts; `ok` is what `idewait(1)` returns. -/
  | interrupt (ok : Bool)

/-- A place that holds a link of the queue: `idequeue`, or a buffer's `qnext`. -/
inductive Link (κ : Type)
  | head
  | qnext (b : κ)
  deriving DecidableEq

/-- Different buffers have different `qnext` fields. -/
theorem Link.qnext_injective {κ : Type} : Function.Injective (@Link.qnext κ) :=
  fun _ _ same => by cases same; rfl

namespace Ide

variable {ι κ δ : Type} [DecidableEq κ]

/-- `panic`: the system stops. -/
@[simp] def panic (s : Ide ι κ δ) (message : String) : Ide ι κ δ :=
  { s with panicked := some message }

/-- The state with one buffer's fields replaced. -/
@[simp] def setBuf (s : Ide ι κ δ) (b : κ) (buf : IdeBuf κ δ) : Ide ι κ δ :=
  { s with buf := Function.update s.buf b buf }

/-- The state with a process at a new place. -/
@[simp] def setPc [DecidableEq ι] (s : Ide ι κ δ) (p : ι) (pc : IdePc κ) : Ide ι κ δ :=
  { s with pc := Function.update s.pc p pc }

/-- `*pp`. -/
def read (s : Ide ι κ δ) : Link κ → Option κ
  | .head => s.idequeue
  | .qnext b => (s.buf b).qnext

/-- `*pp = v`. -/
def write (s : Ide ι κ δ) : Link κ → Option κ → Ide ι κ δ
  | .head, v => { s with idequeue := v }
  | .qnext b, v => s.setBuf b { s.buf b with qnext := v }

omit [DecidableEq κ] in
@[simp] theorem read_head (s : Ide ι κ δ) : s.read .head = s.idequeue := rfl

omit [DecidableEq κ] in
@[simp] theorem read_qnext (s : Ide ι κ δ) (b : κ) : s.read (.qnext b) = (s.buf b).qnext := rfl

/-- A write changes the one link it writes. -/
theorem read_write (s : Ide ι κ δ) (pp : Link κ) (v : Option κ) :
    (s.write pp v).read = Function.update s.read pp v := by
  funext x
  cases pp with
  | head => cases x <;> simp [write, read]
  | qnext b =>
    cases x with
    | head => simp [write, read]
    | qnext c =>
      by_cases same : c = b
      · subst same
        simp [write, read]
      · simp [write, read, same]

/-- Changing a buffer's other fields changes no link. -/
theorem read_setBuf (s : Ide ι κ δ) (b : κ) {buf : IdeBuf κ δ}
    (same : buf.qnext = (s.buf b).qnext) : (s.setBuf b buf).read = s.read := by
  funext x
  cases x with
  | head => rfl
  | qnext c =>
    by_cases at_b : c = b
    · subst at_b
      simpa using same
    · simp [at_b]

/-- What a write leaves of a buffer: all but its link. -/
theorem write_buf (s : Ide ι κ δ) (pp : Link κ) (v : Option κ) (b : κ) :
    ∃ next, (s.write pp v).buf b = { s.buf b with qnext := next } := by
  cases pp with
  | head => exact ⟨(s.buf b).qnext, rfl⟩
  | qnext c =>
    by_cases at_c : b = c
    · subst at_c
      exact ⟨v, by simp [write]⟩
    · exact ⟨(s.buf b).qnext, by simp [write, at_c]⟩

/-- A write leaves a buffer's flags as they were. -/
@[simp] theorem write_synced (s : Ide ι κ δ) (pp : Link κ) (v : Option κ) (b : κ) :
    ((s.write pp v).buf b).synced = (s.buf b).synced := by
  obtain ⟨next, changed⟩ := s.write_buf pp v b
  rw [changed]
  rfl

@[simp] theorem write_holder (s : Ide ι κ δ) (pp : Link κ) (v : Option κ) :
    (s.write pp v).holder = s.holder := by
  cases pp <;> rfl

@[simp] theorem write_pc (s : Ide ι κ δ) (pp : Link κ) (v : Option κ) :
    (s.write pp v).pc = s.pc := by
  cases pp <;> rfl

@[simp] theorem write_busy (s : Ide ι κ δ) (pp : Link κ) (v : Option κ) :
    (s.write pp v).busy = s.busy := by
  cases pp <;> rfl

@[simp] theorem write_panicked (s : Ide ι κ δ) (pp : Link κ) (v : Option κ) :
    (s.write pp v).panicked = s.panicked := by
  cases pp <;> rfl

@[simp] theorem write_arrived (s : Ide ι κ δ) (pp : Link κ) (v : Option κ) :
    (s.write pp v).arrived = s.arrived := by
  cases pp <;> rfl

@[simp] theorem write_completed (s : Ide ι κ δ) (pp : Link κ) (v : Option κ) :
    (s.write pp v).completed = s.completed := by
  cases pp <;> rfl

end Ide

open Ide

variable {ι κ δ : Type}

/-- The command `idestart` gives the disk for a buffer: drive `dev & 1`, sector
`blockno * sector_per_block`, and a write of the data when the buffer is B_DIRTY. -/
def command (buf : IdeBuf κ δ) : DiskCmd δ :=
  { drive := buf.dev % 2, sector := buf.blockno * (BSIZE / SECTOR_SIZE),
    write := if buf.dirty then some buf.data else none }

/-- `idestart(b)`: the disk starts on the buffer's command. -/
def idestart (s : Ide ι κ δ) (b : κ) : Ide ι κ δ :=
  if (s.buf b).blockno ≥ FSSIZE then s.panic "incorrect blockno"
  else { s with busy := some (command (s.buf b)) }

/-- `idestart` changes the disk's command only, or stops the system. -/
theorem idestart_cases (s : Ide ι κ δ) (b : κ) :
    idestart s b = s.panic "incorrect blockno" ∨
      idestart s b = { s with busy := some (command (s.buf b)) } := by
  unfold idestart
  split_ifs
  · exact .inl rfl
  · exact .inr rfl

@[simp] theorem idestart_buf (s : Ide ι κ δ) (b : κ) : (idestart s b).buf = s.buf := by
  rcases idestart_cases s b with started | started <;> simp [started]

@[simp] theorem idestart_disk (s : Ide ι κ δ) (b : κ) : (idestart s b).disk = s.disk := by
  rcases idestart_cases s b with started | started <;> simp [started]

@[simp] theorem idestart_completed (s : Ide ι κ δ) (b : κ) :
    (idestart s b).completed = s.completed := by
  rcases idestart_cases s b with started | started <;> simp [started]

variable [DecidableEq κ]

/-- A write leaves a buffer's command as it was. -/
@[simp] theorem command_write (s : Ide ι κ δ) (pp : Link κ) (v : Option κ) (b : κ) :
    command ((s.write pp v).buf b) = command (s.buf b) := by
  obtain ⟨next, changed⟩ := s.write_buf pp v b
  rw [changed]
  rfl

/-- `if(idequeue != 0) idestart(idequeue);`: start disk on next buf in queue. -/
def startNext (s : Ide ι κ δ) : Ide ι κ δ :=
  match s.idequeue with
  | none => s
  | some c => idestart s c

omit [DecidableEq κ] in
@[simp] theorem startNext_buf (s : Ide ι κ δ) : (startNext s).buf = s.buf := by
  unfold startNext
  split <;> simp

omit [DecidableEq κ] in
@[simp] theorem startNext_disk (s : Ide ι κ δ) : (startNext s).disk = s.disk := by
  unfold startNext
  split <;> simp

omit [DecidableEq κ] in
@[simp] theorem startNext_completed (s : Ide ι κ δ) : (startNext s).completed = s.completed := by
  unfold startNext
  split <;> simp

/-- `ideintr()` once the disk has carried out its command, with `sector` the data a read leaves in
the controller: the head leaves the queue, a buffer that is not dirty gets the data unless
`idewait(1)` failed, the buffer is valid and clean, and the disk starts on the next one. The waiters
see the buffer valid at the next test of their loop. -/
def ideintr (s : Ide ι κ δ) (ok : Bool) (sector : δ) : Ide ι κ δ :=
  match s.idequeue with
  | none => s
  | some b =>
    let s := { s with idequeue := (s.buf b).qnext }
    let s := if !(s.buf b).dirty && ok then s.setBuf b { s.buf b with data := sector } else s
    let s := { s.setBuf b { s.buf b with valid := true, dirty := false } with
               completed := s.completed ++ [b] }
    startNext s

/-- The disk after it has carried out a command: a write stores its data in the sector. -/
def carryOut (disk : Nat × Nat → δ) (cmd : DiskCmd δ) : Nat × Nat → δ :=
  match cmd.write with
  | some data => Function.update disk cmd.key data
  | none => disk

/-- The disk carries out its command and raises the interrupt, a read leaving the sector in
the controller; with no command it raises none. -/
def interrupt (s : Ide ι κ δ) (ok : Bool) : Ide ι κ δ :=
  match s.busy with
  | none => s
  | some cmd =>
    ideintr { s with busy := none, disk := carryOut s.disk cmd } ok (carryOut s.disk cmd cmd.key)

variable [DecidableEq ι]

/-- `iderw(b)` by process `p` up to its wait loop. The walk to the tail of the queue gets one test
more than there are buffers, which is enough in every reachable state (`Verif.IdeQueue`); the wait
loop's first test fails, as the request is not done. Past the checks, `b` is appended to `idequeue`,
and the disk is started when `b` is then the head. -/
def iderw [Fintype κ] (s : Ide ι κ δ) (p : ι) (b : κ) : Ide ι κ δ :=
  if s.holder b ≠ some p then s.panic "iderw: buf not locked"
  else if (s.buf b).synced then s.panic "iderw: nothing to do"
  else if (s.buf b).dev ≠ 0 && !s.havedisk1 then s.panic "iderw: ide disk 1 not present"
  else
    let cleared := s.write (.qnext b) none
    match walk cleared.read .qnext (Fintype.card κ + 1) .head with
    | none => s
    | some pp =>
      let queued := { cleared.write pp (some b) with arrived := s.arrived ++ [b] }.setPc p
        (.waiting b)
      if queued.idequeue = some b then idestart queued b else queued

/-- One test of `iderw`'s wait loop: it returns once the buffer is valid and not dirty. -/
def wake (s : Ide ι κ δ) (p : ι) : Ide ι κ δ :=
  match s.pc p with
  | .waiting b => if (s.buf b).synced then s.setPc p .idle else s
  | .idle => s

/-- One event. A process outside the driver takes a free lock, and releases or changes only a
buffer it holds; after a panic nothing happens. -/
def ideStep [Fintype κ] (s : Ide ι κ δ) (event : IdeEvent ι κ δ) : Ide ι κ δ :=
  if s.panicked.isSome then s
  else
    match event with
    | .acquire p b =>
      if s.pc p = .idle ∧ s.holder b = none then
        { s with holder := Function.update s.holder b (some p) }
      else s
    | .release p b =>
      if s.pc p = .idle ∧ s.holder b = some p then
        { s with holder := Function.update s.holder b none }
      else s
    | .fill p b valid dirty dev blockno data =>
      if s.pc p = .idle ∧ s.holder b = some p then
        s.setBuf b { valid := valid, dirty := dirty, dev := dev, blockno := blockno,
                     qnext := (s.buf b).qnext, data := data }
      else s
    | .iderw p b => if s.pc p = .idle then iderw s p b else s
    | .wake p => wake s p
    | .interrupt ok => interrupt s ok

/-- The driver after `ideinit`: static storage is zero, no request and no command, and every
lock free. -/
def ideBoot (disk : Nat × Nat → δ) (havedisk1 : Bool) (zero : δ) : Ide ι κ δ :=
  { buf := fun _ => { valid := false, dirty := false, dev := 0, blockno := 0, qnext := none,
                      data := zero }
    holder := fun _ => none, idequeue := none, havedisk1 := havedisk1, disk := disk,
    busy := none, pc := fun _ => .idle, panicked := none, arrived := [], completed := [] }

end Xv6.Dev
