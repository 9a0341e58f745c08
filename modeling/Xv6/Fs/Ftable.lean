import Xv6.Fs.Inode
import Xv6.Ipc.Pipe

/-!
# The file table and the descriptors

`ftable` of file.c with `filealloc`, `filedup` and `fileclose`, the descriptor table
`proc->ofile` of each process with sysfile.c's `argfd` and `fdalloc`, and the calls that change
them: `sys_open`, `sys_dup`, `sys_close`, `sys_pipe` with pipe.c's `pipealloc` and `pipeclose`,
`sys_chdir`, and the file parts of proc.c's `fork` and `exit`. A pipe lives in the page kalloc
gave it, named here by the page's address, until `pipeclose` of its second end frees it.

Each call runs as one step, with two exceptions. `fileclose` releases `ftable.lock` before it
calls `pipeclose` or `iput` on its copy `ff` of a file whose last reference went, so other
processes run between the two; the process then stands at `closing`. And `exit` closes its
descriptors one turn of its loop at a time. The rest of a call touches what no other process can
reach: its own descriptor table, which only its own process reads, and a file it has just
allocated and not yet published. `sys_close` clears the descriptor before it calls `fileclose`,
and `exit` after `fileclose` has returned, so a process in `exit` still names the file it is
closing while it stands at `closing`; the failure paths of `sys_open` and `sys_pipe` run
`fileclose` on their own fresh files to its end.

The inode layer is the environment: `sys_open` and `sys_chdir` start once `namei` or `create` has
returned the inode, locked and with a reference, and its type. The ghost `irefs` counts the
references to each inode this layer has taken from `iget` and `idup` and not given back with
`iput`. `f->off`, the return value of `fork` and the `initproc` test of `exit` are left out.
-/

namespace Xv6.Fs

/-- Open files per process (param.h). -/
def NOFILE : Nat := 16

/-- Open files per system (param.h). -/
def NFILE : Nat := 100

instance : NeZero NOFILE := ⟨by decide⟩

instance : NeZero NFILE := ⟨by decide⟩

/-- The mode bits of `open` (fcntl.h). -/
def O_RDONLY : UInt32 := 0x000

def O_WRONLY : UInt32 := 0x001

def O_RDWR : UInt32 := 0x002

def O_CREATE : UInt32 := 0x200

/-- `enum { FD_NONE, FD_PIPE, FD_INODE }`. -/
inductive FdType
  | none
  | pipe
  | inode
  deriving DecidableEq, Repr

/-- `struct file` without `off`: `pipe` and `ip` name the pipe's page and the inode. -/
structure File where
  type : FdType
  ref : Nat
  readable : Bool
  writable : Bool
  pipe : Nat
  ip : Nat
  deriving DecidableEq, Repr

/-- Where a process stands. -/
inductive FdPc
  /-- No process in the slot. -/
  | unused
  /-- Running, outside the calls of this layer. -/
  | idle
  /-- In `fileclose` after the last reference to `ff` went, about to call `pipeclose` or `iput`;
  then back in `exit`'s loop at descriptor `fd`, or out of `sys_close`. -/
  | closing (ff : File) (exitAt : Option (Fin NOFILE))
  /-- In `exit`'s loop, about to look at descriptor `fd`. -/
  | exiting (fd : Nat)
  | zombie
  deriving DecidableEq, Repr

/-- The file table, the processes' descriptors and working directories, and the pipes. -/
structure FdSys (ι : Type) where
  file : Fin NFILE → File
  ofile : ι → Fin NOFILE → Option (Fin NFILE)
  cwd : ι → Option Nat
  /-- The pipe in each page, if one lives there. -/
  pipes : Nat → Option Ipc.Pipe
  pc : ι → FdPc
  /-- What each process's last call returned. -/
  ret : ι → Option Int
  panicked : Option String
  /-- Ghost: the references to each inode this layer holds. -/
  irefs : Nat → Nat

/-- What the processes do. -/
inductive FdEvent (ι : Type)
  /-- `sys_open` with mode `omode`, once `namei` or `create` gave inode `ip` of type `type`. -/
  | sysOpen (p : ι) (omode : UInt32) (ip : Nat) (type : UInt16)
  | sysDup (p : ι) (fd : Int)
  | sysClose (p : ι) (fd : Int)
  /-- `sys_pipe`, with the page kalloc returns, if any. -/
  | sysPipe (p : ι) (page : Option Nat)
  /-- `sys_chdir`, once `namei` gave inode `ip` of type `type`. -/
  | sysChdir (p : ι) (ip : Nat) (type : UInt16)
  /-- `fork` by `p`, once `allocproc` gave the slot `q`. -/
  | fork (p q : ι)
  | exit (p : ι)
  /-- The next step of the `fileclose` or the `exit` the process is in. -/
  | next (p : ι)
  /-- `wait` frees the zombie `q`. -/
  | wait (q : ι)

namespace FdSys

variable {ι : Type} [DecidableEq ι]

/-- `panic`: the system stops. -/
@[simp] def panic (s : FdSys ι) (message : String) : FdSys ι := { s with panicked := some message }

@[simp] def setFile (s : FdSys ι) (f : Fin NFILE) (e : File) : FdSys ι :=
  { s with file := Function.update s.file f e }

@[simp] def setOfile (s : FdSys ι) (p : ι) (fd : Fin NOFILE) (x : Option (Fin NFILE)) : FdSys ι :=
  { s with ofile := Function.update s.ofile p (Function.update (s.ofile p) fd x) }

@[simp] def setCwd (s : FdSys ι) (p : ι) (x : Option Nat) : FdSys ι :=
  { s with cwd := Function.update s.cwd p x }

@[simp] def setPipe (s : FdSys ι) (page : Nat) (x : Option Ipc.Pipe) : FdSys ι :=
  { s with pipes := Function.update s.pipes page x }

@[simp] def setPc (s : FdSys ι) (p : ι) (pc : FdPc) : FdSys ι :=
  { s with pc := Function.update s.pc p pc }

/-- The call of `p` returns `value`. -/
@[simp] def finish (s : FdSys ι) (p : ι) (value : Int) : FdSys ι :=
  { s with pc := Function.update s.pc p .idle, ret := Function.update s.ret p (some value) }

/-- `iget` or `idup`: one more reference to inode `ip`. -/
@[simp] def iget (s : FdSys ι) (ip : Nat) : FdSys ι :=
  { s with irefs := Function.update s.irefs ip (s.irefs ip + 1) }

/-- `iput`: one reference to inode `ip` less. -/
@[simp] def iput (s : FdSys ι) (ip : Nat) : FdSys ι :=
  { s with irefs := Function.update s.irefs ip (s.irefs ip - 1) }

end FdSys

open FdSys

variable {ι : Type} [DecidableEq ι]

/-- `argfd`: a descriptor of `p` that is in range and open, with its file. -/
def argfd (s : FdSys ι) (p : ι) (fd : Int) : Option (Fin NOFILE × Fin NFILE) :=
  if h : fd < 0 ∨ fd ≥ NOFILE then none
  else
    let fd : Fin NOFILE := ⟨fd.toNat, by omega⟩
    (s.ofile p fd).map fun f => (fd, f)

/-- `fdalloc`'s loop: the lowest free descriptor of `p`. -/
def freeFd (s : FdSys ι) (p : ι) : Option (Fin NOFILE) :=
  (List.finRange NOFILE).find? fun fd => s.ofile p fd = none

/-- `fdalloc(f)`: the lowest free descriptor of `p`, now referring to `f`. -/
def fdalloc (s : FdSys ι) (p : ι) (f : Fin NFILE) : Option (Fin NOFILE × FdSys ι) :=
  (freeFd s p).map fun fd => (fd, s.setOfile p fd (some f))

/-- `filealloc`: the first file with `ref == 0`, now with `ref = 1`. -/
def filealloc (s : FdSys ι) : Option (Fin NFILE × FdSys ι) :=
  ((List.finRange NFILE).find? fun f => (s.file f).ref = 0).map fun f =>
    (f, s.setFile f { s.file f with ref := 1 })

/-- `filedup(f)`. -/
def filedup (s : FdSys ι) (f : Fin NFILE) : FdSys ι :=
  let e := s.file f
  if e.ref < 1 then s.panic "filedup" else s.setFile f { e with ref := e.ref + 1 }

/-- `fileclose(f)` up to `release(&ftable.lock)`: the copy `ff` of the file when its last
reference went. -/
def fileclose (s : FdSys ι) (f : Fin NFILE) : FdSys ι × Option File :=
  let e := s.file f
  if e.ref < 1 then (s.panic "fileclose", none)
  else if e.ref - 1 > 0 then (s.setFile f { e with ref := e.ref - 1 }, none)
  else (s.setFile f { e with ref := 0, type := .none }, some { e with ref := 0 })

/-- `pipeclose(p, writable)` on the pipe in page `page`: the end closes, and a pipe with both ends
closed is freed. The page holds a pipe whenever an end of it is open, so the last case is not
reached. -/
def pipeclosePage (s : FdSys ι) (page : Nat) (writable : Bool) : FdSys ι :=
  match s.pipes page with
  | some pi =>
    let pi := Ipc.pipeclose pi writable
    s.setPipe page (if pi.readopen = false ∧ pi.writeopen = false then none else some pi)
  | none => s

/-- The rest of `fileclose` on its copy `ff`. -/
def closeTail (s : FdSys ι) (ff : File) : FdSys ι :=
  match ff.type with
  | .pipe => pipeclosePage s ff.pipe ff.writable
  | .inode => s.iput ff.ip
  | .none => s

/-- `fileclose(f)` to its end, on a file no other process can reach. -/
def filecloseNow (s : FdSys ι) (f : Fin NFILE) : FdSys ι :=
  match fileclose s f with
  | (s, some ff) => closeTail s ff
  | (s, none) => s

/-- `curproc->ofile[fd] = 0` in `exit`'s loop once `fileclose` has returned, and on to the next
descriptor. -/
def exitClosed (s : FdSys ι) (p : ι) (fd : Fin NOFILE) : FdSys ι :=
  (s.setOfile p fd none).setPc p (.exiting (fd.val + 1))

/-- The end of a `fileclose` of descriptor `fd` by `p`: on to `closing` when the last reference
went, else back in `exit`'s loop or out of `sys_close`. -/
def afterClose (p : ι) (exitAt : Option (Fin NOFILE)) : FdSys ι × Option File → FdSys ι
  | (s, some ff) => s.setPc p (.closing ff exitAt)
  | (s, none) =>
    match exitAt with
    | some fd => exitClosed s p fd
    | none => s.finish p 0

/-- `sys_open` by `p` with the inode `ip` of type `type` that `namei` or `create` returned. The
`iget` stands for the reference that namei or create hands over. -/
def sysOpen (s : FdSys ι) (p : ι) (omode : UInt32) (ip : Nat) (type : UInt16) : FdSys ι :=
  let s := s.iget ip
  if omode &&& O_CREATE = 0 ∧ type = T_DIR ∧ omode ≠ O_RDONLY then (s.iput ip).finish p (-1)
  else
    match filealloc s with
    | none => (s.iput ip).finish p (-1)
    | some (f, s) =>
      match fdalloc s p f with
      | none => ((filecloseNow s f).iput ip).finish p (-1)
      | some (fd, s) =>
        (s.setFile f
          { s.file f with
            type := .inode, ip := ip, readable := omode &&& O_WRONLY = 0
            writable := omode &&& O_WRONLY ≠ 0 ∨ omode &&& O_RDWR ≠ 0 }).finish p fd.val

/-- `sys_dup` by `p`. -/
def sysDup (s : FdSys ι) (p : ι) (fd : Int) : FdSys ι :=
  match argfd s p fd with
  | none => s.finish p (-1)
  | some (_, f) =>
    match fdalloc s p f with
    | none => s.finish p (-1)
    | some (fd, s) => (filedup s f).finish p fd.val

/-- `sys_close` by `p`: the descriptor is cleared, then the file closed. -/
def sysClose (s : FdSys ι) (p : ι) (fd : Int) : FdSys ι :=
  match argfd s p fd with
  | none => s.finish p (-1)
  | some (fd, f) => afterClose p none (fileclose (s.setOfile p fd none) f)

/-- pipe.c's `pipealloc` with kalloc's `page`: the two files and the pipe they share, or the
state after the failure path closed what it had allocated. The page holds the ones `kfree`
fills a page with. -/
def pipealloc (s : FdSys ι) (page : Option Nat) : FdSys ι × Option (Fin NFILE × Fin NFILE) :=
  match filealloc s with
  | none => (s, none)
  | some (f0, s) =>
    match filealloc s with
    | none => (filecloseNow s f0, none)
    | some (f1, s) =>
      match page with
      | none => (filecloseNow (filecloseNow s f0) f1, none)
      | some page =>
        let s := s.setPipe page (some (Ipc.pipealloc fun _ => 1))
        let s := s.setFile f0
          { s.file f0 with type := .pipe, readable := true, writable := false, pipe := page }
        let s := s.setFile f1
          { s.file f1 with type := .pipe, readable := false, writable := true, pipe := page }
        (s, some (f0, f1))

/-- `sys_pipe` by `p`. -/
def sysPipe (s : FdSys ι) (p : ι) (page : Option Nat) : FdSys ι :=
  match pipealloc s page with
  | (s, none) => s.finish p (-1)
  | (s, some (rf, wf)) =>
    match fdalloc s p rf with
    | none => (filecloseNow (filecloseNow s rf) wf).finish p (-1)
    | some (fd0, s) =>
      match fdalloc s p wf with
      | none => (filecloseNow (filecloseNow (s.setOfile p fd0 none) rf) wf).finish p (-1)
      | some (_, s) => s.finish p 0

/-- `sys_chdir` by `p` with the inode `ip` of type `type` that `namei` returned. A running process
has a working directory, so the case without one is not reached. -/
def sysChdir (s : FdSys ι) (p : ι) (ip : Nat) (type : UInt16) : FdSys ι :=
  let s := s.iget ip
  if type ≠ T_DIR then (s.iput ip).finish p (-1)
  else
    let s :=
      match s.cwd p with
      | some old => s.iput old
      | none => s
    (s.setCwd p (some ip)).finish p 0

/-- One turn of `fork`'s loop: `np->ofile[i] = filedup(curproc->ofile[i])` for an open one. -/
def forkFile (p q : ι) (s : FdSys ι) (i : Fin NOFILE) : FdSys ι :=
  match s.ofile p i with
  | some f => (filedup s f).setOfile q i (some f)
  | none => s

/-- The file part of `fork` by `p` into the slot `q`: the descriptors, then
`np->cwd = idup(curproc->cwd)`; then `q` runs. -/
def fork (s : FdSys ι) (p q : ι) : FdSys ι :=
  let s := (List.finRange NOFILE).foldl (forkFile p q) s
  let s :=
    match s.cwd p with
    | some c => (s.iget c).setCwd q (some c)
    | none => s.setCwd q none
  s.setPc q .idle

/-- The next step of `p`: the rest of its `fileclose`, or a turn of `exit`'s loop, which closes
each open descriptor, clears it, and then gives up the working directory. -/
def next (s : FdSys ι) (p : ι) : FdSys ι :=
  match s.pc p with
  | .closing ff exitAt =>
    let s := closeTail s ff
    match exitAt with
    | some fd => exitClosed s p fd
    | none => s.finish p 0
  | .exiting fd =>
    if h : fd < NOFILE then
      match s.ofile p ⟨fd, h⟩ with
      | none => s.setPc p (.exiting (fd + 1))
      | some f => afterClose p (some ⟨fd, h⟩) (fileclose s f)
    else
      let s :=
        match s.cwd p with
        | some c => s.iput c
        | none => s
      (s.setCwd p none).setPc p .zombie
  | _ => s

/-- One event. A process starts a call only when it is in none; `sys_pipe`'s page is one in
which no pipe lives. After a panic nothing happens. -/
def fdStep (s : FdSys ι) (event : FdEvent ι) : FdSys ι :=
  if s.panicked.isSome then s
  else
    match event with
    | .sysOpen p omode ip type => if s.pc p = .idle then sysOpen s p omode ip type else s
    | .sysDup p fd => if s.pc p = .idle then sysDup s p fd else s
    | .sysClose p fd => if s.pc p = .idle then sysClose s p fd else s
    | .sysPipe p page =>
      if s.pc p = .idle ∧ (page.all fun page => (s.pipes page).isNone) = true then
        sysPipe s p page
      else s
    | .sysChdir p ip type => if s.pc p = .idle then sysChdir s p ip type else s
    | .fork p q => if s.pc p = .idle ∧ s.pc q = .unused then fork s p q else s
    | .exit p => if s.pc p = .idle then s.setPc p (.exiting 0) else s
    | .next p => next s p
    | .wait q => if s.pc q = .zombie then s.setPc q .unused else s

/-- The system at boot: the file table is zero, no pipe lives, and the first process runs with
the root directory `root` as its working directory, which `userinit` took from `namei("/")`. -/
def fdBoot (init : ι) (root : Nat) : FdSys ι where
  file _ := { type := .none, ref := 0, readable := false, writable := false, pipe := 0, ip := 0 }
  ofile _ _ := none
  cwd p := if p = init then some root else none
  pipes _ := none
  pc p := if p = init then .idle else .unused
  ret _ := none
  panicked := none
  irefs ip := if ip = root then 1 else 0

end Xv6.Fs
