import Xv6.Fs.Ftable
import Xv6.Lib.Count
import Xv6.Lib.Run

/-!
# Every reference to a file is a descriptor

In every run of the file layer the count `f->ref` of each file is the number of descriptors
that refer to it and hold a reference, a file that none refers to is free (`FD_NONE`), and a
process that is not running, or the part of an exiting process's table that `exit` has passed,
holds no descriptor. So `filedup` and `fileclose` never panic, `filealloc` hands out only a file
nobody uses, and `fork`'s child starts with no descriptor of its own.

Every descriptor holds a reference but one: `exit` clears `ofile[fd]` only after `fileclose`
returns, so while an exiting process stands in the rest of that `fileclose` its descriptor still
names a file whose reference is gone, and which `filealloc` may already have handed out again.
Inside a call the count runs ahead of the descriptors by a slack that the call's last step
settles: the reference of a file `filealloc` gave or `filedup` added that no descriptor carries
yet, or the reference of a descriptor just cleared that `fileclose` has not yet dropped.
-/

namespace Xv6.Fs

open Xv6.Run

/-- Where a process inside a call stands: running it, or in the `fileclose` of `sys_close`. -/
def FdPc.inCall : FdPc → Bool
  | .idle | .closing _ none => true
  | _ => false

/-- The descriptors `exit` has cleared. -/
def FdPc.cleared : FdPc → Nat
  | .exiting fd => fd
  | .closing _ (some fd) => fd.val
  | _ => 0

/-- The descriptor whose file `exit` is closing. -/
def FdPc.closingFd : FdPc → Option (Fin NOFILE)
  | .closing _ exitAt => exitAt
  | _ => none

/-- No process in the slot. -/
def FdPc.stopped : FdPc → Bool
  | .unused | .zombie => true
  | _ => false

namespace FdSys

section Calls

variable {ι : Type} {s s' : FdSys ι} {p : ι} {f : Fin NFILE}

theorem argfd_some {fd : Int} {i : Fin NOFILE} (found : argfd s p fd = some (i, f)) :
    s.ofile p i = some f := by
  unfold argfd at found
  split at found
  · cases found
  · obtain ⟨g, hit, same⟩ := Option.map_eq_some_iff.mp found
    simp only [Prod.mk.injEq] at same
    obtain ⟨rfl, rfl⟩ := same
    exact hit

/-- `fdalloc`'s loop finds the lowest free descriptor. -/
theorem freeFd_some {fd : Fin NOFILE} (found : freeFd s p = some fd) :
    s.ofile p fd = none ∧ ∀ j : Fin NOFILE, j < fd → s.ofile p j ≠ none := by
  obtain ⟨free, i, inside, at_i, before⟩ := List.find?_eq_some_iff_getElem.mp found
  refine ⟨by simpa using free, fun j below => ?_⟩
  have index : i = fd.val := by
    rw [← at_i, List.getElem_finRange]
    rfl
  have lower := before j.val (by rw [index]; exact below)
  simpa using lower

theorem filealloc_some (found : filealloc s = some (f, s')) :
    (s.file f).ref = 0 ∧ s' = s.setFile f { s.file f with ref := 1 } := by
  obtain ⟨g, hit, same⟩ := Option.map_eq_some_iff.mp found
  simp only [Prod.mk.injEq] at same
  obtain ⟨rfl, rfl⟩ := same
  exact ⟨by simpa using List.find?_some hit, rfl⟩

theorem filedup_of_pos (held : 0 < (s.file f).ref) :
    filedup s f = s.setFile f { s.file f with ref := (s.file f).ref + 1 } := by
  unfold filedup
  rw [if_neg (by omega)]

/-- `fileclose` of a file with another reference left. -/
theorem fileclose_of_lt (more : 1 < (s.file f).ref) :
    fileclose s f = (s.setFile f { s.file f with ref := (s.file f).ref - 1 }, none) := by
  unfold fileclose
  rw [if_neg (by omega), if_pos (by omega)]

/-- `fileclose` of the last reference frees the file and hands over its copy. -/
theorem fileclose_last (last : (s.file f).ref = 1) :
    fileclose s f = (s.setFile f { s.file f with ref := 0, type := .none },
      some { s.file f with ref := 0 }) := by
  unfold fileclose
  rw [if_neg (by omega), if_neg (by omega)]

/-- The rest of `fileclose` touches neither the file table nor the descriptors. -/
theorem closeTail_frame (ff : File) :
    (closeTail s ff).file = s.file ∧ (closeTail s ff).ofile = s.ofile ∧
      (closeTail s ff).panicked = s.panicked ∧ (closeTail s ff).pc = s.pc := by
  unfold closeTail
  split
  · unfold pipeclosePage
    split <;> exact ⟨rfl, rfl, rfl, rfl⟩
  · exact ⟨rfl, rfl, rfl, rfl⟩
  · exact ⟨rfl, rfl, rfl, rfl⟩


theorem filedup_frame :
    (filedup s f).ofile = s.ofile ∧ (filedup s f).pc = s.pc := by
  unfold filedup
  dsimp only
  split <;> exact ⟨rfl, rfl⟩

theorem fileclose_frame :
    (fileclose s f).1.ofile = s.ofile ∧ (fileclose s f).1.pc = s.pc := by
  unfold fileclose
  dsimp only
  split
  · exact ⟨rfl, rfl⟩
  · split <;> exact ⟨rfl, rfl⟩


theorem filecloseNow_frame :
    (filecloseNow s f).ofile = s.ofile ∧ (filecloseNow s f).pc = s.pc := by
  unfold filecloseNow
  split
  · next r ff same =>
    have closed := fileclose_frame (s := s) (f := f)
    rw [same] at closed
    obtain ⟨-, ofile, -, pc⟩ := closeTail_frame (s := r) ff
    exact ⟨ofile.trans closed.1, pc.trans closed.2⟩
  · next r same =>
    have closed := fileclose_frame (s := s) (f := f)
    rw [same] at closed
    exact closed

/-- `pipealloc` touches neither the descriptors nor the places. -/
theorem pipealloc_frame (page : Option Nat) :
    (pipealloc s page).1.ofile = s.ofile ∧ (pipealloc s page).1.pc = s.pc := by
  unfold pipealloc
  split
  · exact ⟨rfl, rfl⟩
  · next f₀ s₁ alloc₀ =>
    obtain ⟨-, rfl⟩ := filealloc_some alloc₀
    split
    · exact filecloseNow_frame
    · next f₁ s₂ alloc₁ =>
      obtain ⟨-, rfl⟩ := filealloc_some alloc₁
      split
      · obtain ⟨ofile, pc⟩ := filecloseNow_frame (s := filecloseNow _ f₀) (f := f₁)
        exact ⟨ofile.trans filecloseNow_frame.1, pc.trans filecloseNow_frame.2⟩
      · exact ⟨rfl, rfl⟩

variable [DecidableEq ι]

theorem fdalloc_some {fd : Fin NOFILE} (found : fdalloc s p f = some (fd, s')) :
    freeFd s p = some fd ∧ s' = s.setOfile p fd (some f) := by
  obtain ⟨g, hit, same⟩ := Option.map_eq_some_iff.mp found
  simp only [Prod.mk.injEq] at same
  obtain ⟨rfl, rfl⟩ := same
  exact ⟨hit, rfl⟩

/-- `filedup` touches only the file table. -/
theorem filedup_setOfile (fd : Fin NOFILE) (x : Option (Fin NFILE)) :
    filedup (s.setOfile p fd x) f = (filedup s f).setOfile p fd x := by
  unfold filedup
  by_cases low : (s.file f).ref < 1 <;> simp [low]

/-- So does `fileclose` up to the release of the lock. -/
theorem fileclose_setOfile (fd : Fin NOFILE) (x : Option (Fin NFILE)) :
    fileclose (s.setOfile p fd x) f = ((fileclose s f).1.setOfile p fd x, (fileclose s f).2) := by
  unfold fileclose
  by_cases low : (s.file f).ref < 1
  · simp [low]
  · by_cases more : (s.file f).ref - 1 > 0 <;> simp [low, more]

theorem forkFile_pc {q : ι} (i : Fin NOFILE) : (forkFile p q s i).pc = s.pc := by
  unfold forkFile
  split
  · exact filedup_frame.2
  · rfl

theorem forkFiles_pc {q : ι} :
    ∀ (l : List (Fin NOFILE)) (s : FdSys ι), (l.foldl (forkFile p q) s).pc = s.pc
  | [], _ => rfl
  | i :: rest, s => by
    rw [List.foldl_cons, forkFiles_pc rest, forkFile_pc]

theorem forkFile_ofile_of_ne {q : ι} {i j : Fin NOFILE} (apart : j ≠ i) :
    (forkFile p q s i).ofile q j = s.ofile q j := by
  unfold forkFile
  split
  · simp only [FdSys.setOfile, Function.update_self, Function.update_of_ne apart, filedup_frame.1]
  · rfl

end Calls

section Live

variable {ι : Type} {s : FdSys ι} {p : ι} {fd : Fin NOFILE}

/-- The descriptors of `p` that hold a reference: all but the one `exit` is closing. -/
def liveFd (s : FdSys ι) (p : ι) (fd : Fin NOFILE) : Option (Fin NFILE) :=
  if (s.pc p).closingFd = some fd then none else s.ofile p fd

theorem liveFd_of_calm (calm : (s.pc p).closingFd = none) (fd : Fin NOFILE) :
    liveFd s p fd = s.ofile p fd := by
  simp [liveFd, calm]

variable [DecidableEq ι]

/-- A new place with the same descriptor being closed keeps the live descriptors. -/
theorem liveFd_setPc {pc : FdPc} (same : pc.closingFd = (s.pc p).closingFd) :
    liveFd (s.setPc p pc) = liveFd s := by
  funext q j
  by_cases here : q = p
  · subst here
    simp [liveFd, same]
  · simp [liveFd, Function.update_of_ne here]

/-- A descriptor of a process that closes none of its own changes its live table there. -/
theorem liveFd_setOfile (calm : (s.pc p).closingFd = none) (x : Option (Fin NFILE)) :
    liveFd (s.setOfile p fd x) = Function.update (liveFd s) p (Function.update (liveFd s p) fd x) := by
  funext q j
  by_cases here : q = p
  · subst here
    by_cases at_fd : j = fd
    · subst at_fd
      simp [liveFd, calm]
    · simp [liveFd, calm, Function.update_of_ne at_fd]
  · simp [liveFd, Function.update_of_ne here]

/-- Standing at `closing` for a descriptor counts it out as clearing it would. -/
theorem liveFd_closing (calm : (s.pc p).closingFd = none) (ff : File) :
    liveFd (s.setPc p (.closing ff (some fd))) = liveFd (s.setOfile p fd none) := by
  have closing : (FdPc.closing ff (some fd)).closingFd = some fd := rfl
  funext q j
  by_cases here : q = p
  · subst here
    by_cases at_fd : j = fd
    · subst at_fd
      simp [liveFd, closing]
    · simp [liveFd, closing, calm, Function.update_of_ne at_fd, Ne.symm at_fd]
  · simp [liveFd, Function.update_of_ne here]

/-- Clearing the descriptor being closed, and moving on, keeps the live descriptors. -/
theorem liveFd_exitClosed (closing : (s.pc p).closingFd = some fd) :
    liveFd (exitClosed s p fd) = liveFd s := by
  have moved : (FdPc.exiting (fd.val + 1)).closingFd = none := rfl
  funext q j
  by_cases here : q = p
  · subst here
    by_cases at_fd : j = fd
    · subst at_fd
      simp [liveFd, exitClosed, moved, closing]
    · simp [liveFd, exitClosed, moved, closing, Function.update_of_ne at_fd, Ne.symm at_fd]
  · simp [liveFd, exitClosed, Function.update_of_ne here]

end Live

section Books

variable {ι : Type} [Fintype ι]

/-- The descriptors of one table that refer to file `f`. -/
def fdsTo (f : Fin NFILE) (table : Fin NOFILE → Option (Fin NFILE)) : Nat :=
  ∑ fd, if table fd = some f then 1 else 0

/-- The descriptors that refer to file `f` and hold a reference. -/
def descriptors (s : FdSys ι) (f : Fin NFILE) : Nat :=
  ∑ p, fdsTo f (liveFd s p)

theorem fdsTo_update (f : Fin NFILE) (table : Fin NOFILE → Option (Fin NFILE)) (fd : Fin NOFILE)
    (x : Option (Fin NFILE)) :
    fdsTo f (Function.update table fd x) + (if table fd = some f then 1 else 0) =
      fdsTo f table + if x = some f then 1 else 0 :=
  sum_comp_update (fun o => if o = some f then 1 else 0) table fd x

/-- The books with slack: `extra f` references of file `f` that no descriptor carries. -/
structure Books (s : FdSys ι) (extra : Fin NFILE → Nat) : Prop where
  running : s.panicked = none
  ref_eq : ∀ f, (s.file f).ref = descriptors s f + extra f
  freed : ∀ f, (s.file f).ref = 0 → (s.file f).type = .none

variable {s s' : FdSys ι} {x : Fin NFILE → Nat} {f : Fin NFILE}

/-- The books read only the file table, the live descriptors and the panic. -/
theorem Books.congr (b : Books s x) (running : s'.panicked = s.panicked) (file : s'.file = s.file)
    (live : liveFd s' = liveFd s) : Books s' x := by
  have same : ∀ g, descriptors s' g = descriptors s g := fun g => by
    unfold descriptors
    rw [live]
  refine ⟨running ▸ b.running, fun g => ?_, fun g free => ?_⟩
  · rw [file, same]
    exact b.ref_eq g
  · rw [file] at free ⊢
    exact b.freed g free

/-- A file some live descriptor refers to is open. -/
theorem Books.pos_of_descriptor {p : ι} {fd : Fin NOFILE} (b : Books s x)
    (open_ : liveFd s p fd = some f) : 0 < (s.file f).ref := by
  have one : 1 ≤ fdsTo f (liveFd s p) := by
    unfold fdsTo
    calc 1 = (if liveFd s p fd = some f then 1 else 0) := by rw [if_pos open_]
      _ ≤ ∑ fd, if liveFd s p fd = some f then 1 else 0 :=
        Finset.single_le_sum (f := fun fd => if liveFd s p fd = some f then 1 else 0)
          (fun _ _ => Nat.zero_le _) (Finset.mem_univ fd)
  have all : fdsTo f (liveFd s p) ≤ descriptors s f :=
    Finset.single_le_sum (f := fun q => fdsTo f (liveFd s q)) (fun _ _ => Nat.zero_le _)
      (Finset.mem_univ p)
  rw [b.ref_eq f]
  omega

/-- A file with slack is open. -/
theorem Books.pos_of_extra (b : Books s (x + Pi.single f 1)) : 0 < (s.file f).ref := by
  have counted := b.ref_eq f
  simp only [Pi.add_apply, Pi.single_eq_same] at counted
  omega

/-- A change of one file whose count is its descriptors and its new slack, with the slack of
the other files as it was. -/
theorem Books.setFile_of (b : Books s x) {x' : Fin NFILE → Nat} {e : File}
    (ref : e.ref = descriptors s f + x' f) (free : e.ref = 0 → e.type = .none)
    (elsewhere : ∀ g, g ≠ f → x' g = x g) : Books (s.setFile f e) x' := by
  refine ⟨b.running, fun g => ?_, fun g => ?_⟩
  · by_cases same : g = f
    · subst same
      simp only [FdSys.setFile, Function.update_self]
      exact ref
    · simp only [FdSys.setFile, Function.update_of_ne same]
      rw [elsewhere g same]
      exact b.ref_eq g
  · by_cases same : g = f
    · subst same
      simp only [FdSys.setFile, Function.update_self]
      exact free
    · simp only [FdSys.setFile, Function.update_of_ne same]
      exact b.freed g

/-- A change of one file that keeps its count and leaves a free file free. -/
theorem Books.refile (b : Books s x) {e : File} (ref : e.ref = (s.file f).ref)
    (free : e.ref = 0 → e.type = .none) : Books (s.setFile f e) x :=
  b.setFile_of (ref.trans (b.ref_eq f)) free fun _ _ => rfl

/-- One more reference of a file, not yet carried by a descriptor. -/
theorem Books.addRef (b : Books s x) {e : File} (ref : e.ref = (s.file f).ref + 1) :
    Books (s.setFile f e) (x + Pi.single f 1) := by
  have counted := b.ref_eq f
  refine b.setFile_of ?_ (fun zero => by omega) fun g other => ?_
  · simp only [Pi.add_apply, Pi.single_eq_same]
    omega
  · simp [other]

/-- One reference of a file less, where it had one more than its descriptors. -/
theorem Books.dropRef (b : Books s (x + Pi.single f 1)) {e : File}
    (ref : e.ref + 1 = (s.file f).ref) (free : e.ref = 0 → e.type = .none) :
    Books (s.setFile f e) x := by
  have counted := b.ref_eq f
  simp only [Pi.add_apply, Pi.single_eq_same] at counted
  refine b.setFile_of (by omega) free fun g other => ?_
  simp [other]

/-- `filealloc`'s file has a reference that no descriptor carries yet. -/
theorem Books.filealloc (b : Books s x) (alloc : filealloc s = some (f, s')) :
    Books s' (x + Pi.single f 1) := by
  obtain ⟨free, rfl⟩ := filealloc_some alloc
  exact b.addRef (by rw [free])

/-- So does `filedup`'s. -/
theorem Books.filedup (b : Books s x) (held : 0 < (s.file f).ref) :
    Books (Fs.filedup s f) (x + Pi.single f 1) := by
  rw [filedup_of_pos held]
  exact b.addRef rfl

/-- `fileclose` drops a reference of the slack, and does not panic. -/
theorem Books.fileclose (b : Books s (x + Pi.single f 1)) : Books (Fs.fileclose s f).1 x := by
  have held := b.pos_of_extra
  by_cases last : (s.file f).ref = 1
  · rw [fileclose_last last]
    exact b.dropRef (by rw [last]) fun _ => rfl
  · rw [fileclose_of_lt (by omega)]
    exact b.dropRef (by dsimp only; omega) fun zero => by dsimp only at zero; omega

theorem Books.closeTail (b : Books s x) (ff : File) : Books (Fs.closeTail s ff) x := by
  obtain ⟨file, ofile, running, pc⟩ := closeTail_frame (s := s) ff
  exact b.congr running file (by unfold liveFd; rw [ofile, pc])

theorem Books.filecloseNow (b : Books s (x + Pi.single f 1)) : Books (Fs.filecloseNow s f) x := by
  have closed := b.fileclose
  unfold Fs.filecloseNow
  split
  · next r ff same =>
    rw [same] at closed
    exact closed.closeTail ff
  · next r same =>
    rw [same] at closed
    exact closed

/-- `pipealloc` with its failure path undone keeps the books. -/
theorem Books.pipealloc_none (b : Books s 0) {page : Option Nat}
    (failed : Fs.pipealloc s page = (s', none)) : Books s' 0 := by
  unfold Fs.pipealloc at failed
  split at failed
  · cases failed
    exact b
  · next f₀ s₁ alloc₀ =>
    have first := b.filealloc alloc₀
    split at failed
    · cases failed
      exact first.filecloseNow
    · next f₁ s₂ alloc₁ =>
      have both := first.filealloc alloc₁
      rw [add_right_comm] at both
      split at failed
      · cases failed
        exact both.filecloseNow.filecloseNow
      · cases failed

/-- `pipealloc`'s two files each have a reference that no descriptor carries yet. -/
theorem Books.pipealloc_some (b : Books s 0) {page : Option Nat} {rf wf : Fin NFILE}
    (made : Fs.pipealloc s page = (s', some (rf, wf))) :
    Books s' (Pi.single rf 1 + Pi.single wf 1) ∧ rf ≠ wf := by
  unfold Fs.pipealloc at made
  split at made
  · cases made
  · next f₀ s₁ alloc₀ =>
    have first := b.filealloc alloc₀
    split at made
    · cases made
    · next f₁ s₂ alloc₁ =>
      have both := first.filealloc alloc₁
      have apart : f₀ ≠ f₁ := by
        intro same
        obtain ⟨free, -⟩ := filealloc_some alloc₁
        obtain ⟨-, rfl⟩ := filealloc_some alloc₀
        rw [← same] at free
        simp at free
      split at made
      · cases made
      · next page =>
        simp only [Prod.mk.injEq, Option.some.injEq] at made
        obtain ⟨rfl, rfl, rfl⟩ := made
        rw [zero_add] at both
        refine ⟨?_, apart⟩
        have piped : Books (s₂.setPipe page (some (Ipc.pipealloc fun _ => 1)))
            (Pi.single f₀ 1 + Pi.single f₁ 1) := both.congr rfl rfl rfl
        have pipedRead : Books (s₂.setPipe page (some (Ipc.pipealloc fun _ => 1)))
            (Pi.single f₁ 1 + Pi.single f₀ 1) := by rw [add_comm]; exact piped
        have read : Books ((s₂.setPipe page (some (Ipc.pipealloc fun _ => 1))).setFile f₀
            { (s₂.setPipe page (some (Ipc.pipealloc fun _ => 1))).file f₀ with
              type := .pipe, readable := true, writable := false, pipe := page })
            (Pi.single f₀ 1 + Pi.single f₁ 1) :=
          piped.refile rfl fun zero => absurd zero (Nat.pos_iff_ne_zero.mp pipedRead.pos_of_extra)
        exact read.refile rfl fun zero => absurd zero (Nat.pos_iff_ne_zero.mp read.pos_of_extra)

variable [DecidableEq ι] {p : ι} {fd : Fin NOFILE}

theorem descriptors_setOfile (calm : (s.pc p).closingFd = none) (fd : Fin NOFILE)
    (x : Option (Fin NFILE)) (f : Fin NFILE) :
    descriptors (s.setOfile p fd x) f + (if s.ofile p fd = some f then 1 else 0) =
      descriptors s f + (if x = some f then 1 else 0) := by
  have inner := fdsTo_update f (liveFd s p) fd x
  have outer := sum_comp_update (fdsTo f) (liveFd s) p (Function.update (liveFd s p) fd x)
  rw [liveFd_of_calm calm] at inner
  simp only [descriptors, liveFd_setOfile calm]
  omega

theorem Books.finish (b : Books s x) (p : ι) (v : Int) (calm : (s.pc p).closingFd = none) :
    Books (s.finish p v) x :=
  b.congr rfl rfl (liveFd_setPc (s := s) (show FdPc.closingFd .idle = _ from calm.symm))

theorem Books.setPc (b : Books s x) (p : ι) (pc : FdPc)
    (same : pc.closingFd = (s.pc p).closingFd) : Books (s.setPc p pc) x :=
  b.congr rfl rfl (liveFd_setPc same)

theorem Books.setCwd (b : Books s x) (p : ι) (c : Option Nat) : Books (s.setCwd p c) x :=
  b.congr rfl rfl rfl

/-- A free descriptor takes over a reference of the slack. -/
theorem Books.attach (b : Books s (x + Pi.single f 1)) (calm : (s.pc p).closingFd = none)
    (free : s.ofile p fd = none) : Books (s.setOfile p fd (some f)) x := by
  refine ⟨b.running, fun g => ?_, b.freed⟩
  have moved := descriptors_setOfile calm fd (some f) g
  have counted := b.ref_eq g
  rw [free] at moved
  simp only [Pi.add_apply, Pi.single_apply] at counted
  simp only [Option.some.injEq, reduceCtorEq, if_false, Nat.add_zero] at moved
  show (s.file g).ref = _
  by_cases same : g = f
  · subst same
    simp only [if_true] at moved counted
    omega
  · simp only [if_neg (Ne.symm same), if_neg same] at moved counted
    omega

/-- A cleared descriptor leaves its reference in the slack. -/
theorem Books.detach (b : Books s x) (calm : (s.pc p).closingFd = none)
    (open_ : s.ofile p fd = some f) : Books (s.setOfile p fd none) (x + Pi.single f 1) := by
  refine ⟨b.running, fun g => ?_, b.freed⟩
  have moved := descriptors_setOfile calm fd none g
  have counted := b.ref_eq g
  rw [open_] at moved
  simp only [Option.some.injEq, reduceCtorEq, if_false, Nat.add_zero] at moved
  simp only [Pi.add_apply, Pi.single_apply]
  show (s.file g).ref = _
  by_cases same : g = f
  · subst same
    simp only [if_true] at moved ⊢
    omega
  · simp only [if_neg (Ne.symm same), if_neg same] at moved ⊢
    omega

end Books

/-! ## Each call keeps the books -/

section Keep

variable {ι : Type} [Fintype ι] [DecidableEq ι] {s s' : FdSys ι} {p q : ι}

/-- The end of the `fileclose` of `sys_close`, by a process that closes no descriptor of its
own. -/
theorem Books.afterClose_call {r : FdSys ι × Option File} (b : Books r.1 0)
    (calm : (r.1.pc p).closingFd = none) : Books (afterClose p none r) 0 := by
  obtain ⟨r, closed⟩ := r
  cases closed with
  | some ff => exact b.setPc p _ calm.symm
  | none => exact b.finish p 0 calm

/-- A turn of `exit`'s loop at an open descriptor `i`: `fileclose` drops its reference, and the
descriptor is cleared at once, or counted out while the process stands at `closing`. -/
theorem Books.exitClose (b : Books s 0) {fd : Nat} (here : s.pc p = .exiting fd) {i : Fin NOFILE}
    {f : Fin NFILE} (open_ : s.ofile p i = some f) :
    Books (afterClose p (some i) (Fs.fileclose s f)) 0 := by
  have calm : (s.pc p).closingFd = none := by rw [here]; rfl
  have detached := b.detach calm open_
  have closed := detached.fileclose
  rw [fileclose_setOfile] at closed
  have frame := fileclose_frame (s := s) (f := f)
  generalize Fs.fileclose s f = r at closed frame ⊢
  obtain ⟨r, last⟩ := r
  have rCalm : (r.pc p).closingFd = none := by rw [frame.2]; exact calm
  cases last with
  | some ff => exact closed.congr rfl rfl (liveFd_closing rCalm ff)
  | none =>
    refine closed.setPc p _ ?_
    rw [show (r.setOfile p i none).pc p = r.pc p from rfl, rCalm]
    rfl

theorem Books.sysOpen (b : Books s 0) (idle : s.pc p = .idle) (omode : UInt32) (ip : Nat)
    (type : UInt16) : Books (sysOpen s p omode ip type) 0 := by
  have calm : (s.pc p).closingFd = none := by rw [idle]; rfl
  have got : Books (s.iget ip) 0 := b.congr rfl rfl rfl
  unfold Fs.sysOpen
  dsimp only
  split
  · refine Books.finish ?_ p (-1) calm
    exact got.congr rfl rfl rfl
  · split
    · refine Books.finish ?_ p (-1) calm
      exact got.congr rfl rfl rfl
    · next f s₁ alloc =>
      have allocated := got.filealloc alloc
      obtain ⟨-, rfl⟩ := filealloc_some alloc
      split
      · refine Books.finish ?_ p (-1) ?_
        · exact allocated.filecloseNow.congr rfl rfl rfl
        · rw [show ((Fs.filecloseNow _ f).iput ip).pc = (Fs.filecloseNow _ f).pc from rfl,
            filecloseNow_frame.2]
          exact calm
      · next fd s₂ found =>
        obtain ⟨free, rfl⟩ := fdalloc_some found
        have published := allocated.attach calm (freeFd_some free).1
        have slot : liveFd (((s.iget ip).setFile f { (s.iget ip).file f with ref := 1 }).setOfile
            p fd (some f)) p fd = some f := by
          simp [liveFd, calm]
        have held := published.pos_of_descriptor slot
        refine Books.finish ?_ p _ calm
        exact published.refile rfl fun zero => absurd zero (Nat.pos_iff_ne_zero.mp held)

theorem Books.sysDup (b : Books s 0) (idle : s.pc p = .idle) (fd : Int) :
    Books (sysDup s p fd) 0 := by
  have calm : (s.pc p).closingFd = none := by rw [idle]; rfl
  unfold Fs.sysDup
  split
  · exact b.finish p (-1) calm
  · next fd₀ f found =>
    split
    · exact b.finish p (-1) calm
    · next fd s₁ alloc =>
      obtain ⟨free, rfl⟩ := fdalloc_some alloc
      have held := b.pos_of_descriptor (by rw [liveFd_of_calm calm]; exact argfd_some found)
      rw [filedup_setOfile]
      have dup := b.filedup held
      have dupCalm : ((Fs.filedup s f).pc p).closingFd = none := by
        rw [filedup_frame.2]
        exact calm
      have attached := dup.attach dupCalm
        (by rw [filedup_frame.1]; exact (freeFd_some free).1)
      exact attached.finish p _ dupCalm

theorem Books.sysClose (b : Books s 0) (idle : s.pc p = .idle) (fd : Int) :
    Books (sysClose s p fd) 0 := by
  have calm : (s.pc p).closingFd = none := by rw [idle]; rfl
  unfold Fs.sysClose
  split
  · exact b.finish p (-1) calm
  · next fd f found =>
    refine ((b.detach calm (argfd_some found)).fileclose).afterClose_call ?_
    rw [fileclose_frame.2]
    exact calm

theorem Books.sysChdir (b : Books s 0) (idle : s.pc p = .idle) (ip : Nat) (type : UInt16) :
    Books (sysChdir s p ip type) 0 := by
  have calm : (s.pc p).closingFd = none := by rw [idle]; rfl
  unfold Fs.sysChdir
  dsimp only
  split
  · refine Books.finish ?_ p (-1) calm
    exact b.congr rfl rfl rfl
  · split <;>
    · refine Books.finish ?_ p 0 calm
      exact b.congr rfl rfl rfl

theorem Books.sysPipe (b : Books s 0) (idle : s.pc p = .idle) (page : Option Nat) :
    Books (sysPipe s p page) 0 := by
  have calm : (s.pc p).closingFd = none := by rw [idle]; rfl
  have made := pipealloc_frame (s := s) page
  unfold Fs.sysPipe
  split
  · next s₁ failed =>
    rw [failed] at made
    exact (b.pipealloc_none failed).finish p (-1) (by rw [made.2]; exact calm)
  · next s₁ rf wf done =>
    rw [done] at made
    have madeCalm : (s₁.pc p).closingFd = none := by rw [made.2]; exact calm
    obtain ⟨both, apart⟩ := b.pipealloc_some done
    rw [add_comm] at both
    split
    · have one := both.filecloseNow
      rw [← zero_add (Pi.single wf 1)] at one
      refine one.filecloseNow.finish p (-1) ?_
      rw [filecloseNow_frame.2, filecloseNow_frame.2]
      exact madeCalm
    · next fd₀ s₂ found₀ =>
      obtain ⟨free₀, rfl⟩ := fdalloc_some found₀
      have reader := both.attach madeCalm (freeFd_some free₀).1
      split
      · have undone := reader.detach madeCalm
          (show (s₁.setOfile p fd₀ (some rf)).ofile p fd₀ = some rf by simp)
        have one := undone.filecloseNow
        rw [← zero_add (Pi.single wf 1)] at one
        refine one.filecloseNow.finish p (-1) ?_
        rw [filecloseNow_frame.2, filecloseNow_frame.2]
        exact madeCalm
      · next fd₁ s₃ found₁ =>
        obtain ⟨free₁, rfl⟩ := fdalloc_some found₁
        rw [← zero_add (Pi.single wf 1)] at reader
        exact (reader.attach madeCalm (freeFd_some free₁).1).finish p 0 madeCalm

/-- One turn of `fork`'s loop: the child's descriptor and the reference `filedup` added. -/
theorem Books.forkFile (b : Books s 0) (calm : (s.pc p).closingFd = none)
    (childCalm : (s.pc q).closingFd = none) (i : Fin NOFILE) (empty : s.ofile q i = none) :
    Books (Fs.forkFile p q s i) 0 := by
  unfold Fs.forkFile
  split
  · next f open_ =>
    have dup := b.filedup (b.pos_of_descriptor (by rw [liveFd_of_calm calm]; exact open_))
    exact dup.attach (by rw [filedup_frame.2]; exact childCalm)
      (by rw [filedup_frame.1]; exact empty)
  · exact b

/-- `fork`'s loop over the descriptors, while the child's are free. -/
theorem Books.forkFiles (calm : (s.pc p).closingFd = none) (childCalm : (s.pc q).closingFd = none) :
    ∀ (l : List (Fin NOFILE)) {t : FdSys ι}, t.pc = s.pc → l.Nodup →
      (∀ i ∈ l, t.ofile q i = none) → Books t 0 → Books (l.foldl (Fs.forkFile p q) t) 0
  | [], _, _, _, _, b => b
  | i :: rest, t, pc, nodup, empty, b => by
    obtain ⟨fresh, nodup⟩ := List.nodup_cons.mp nodup
    rw [List.foldl_cons]
    refine Books.forkFiles calm childCalm rest (by rw [forkFile_pc]; exact pc) nodup
      (fun j mem => ?_)
      (b.forkFile (by rw [pc]; exact calm) (by rw [pc]; exact childCalm) i
        (empty i List.mem_cons_self))
    have apart : j ≠ i := fun same => fresh (same ▸ mem)
    rw [forkFile_ofile_of_ne apart]
    exact empty j (List.mem_cons_of_mem i mem)

theorem Books.fork (b : Books s 0) (idle : s.pc p = .idle) (unused : s.pc q = .unused)
    (empty : ∀ i, s.ofile q i = none) : Books (Fs.fork s p q) 0 := by
  have copied := Books.forkFiles (p := p) (q := q) (by rw [idle]; rfl) (by rw [unused]; rfl)
    (List.finRange NOFILE) rfl (List.nodup_finRange NOFILE) (fun i _ => empty i) b
  have pc := forkFiles_pc (p := p) (q := q) (List.finRange NOFILE) s
  unfold Fs.fork
  dsimp only
  split <;>
  · refine Books.setPc ?_ q _ (by simp [pc, unused, FdPc.closingFd])
    exact copied.congr rfl rfl rfl

theorem Books.next (b : Books s 0) : Books (Fs.next s p) 0 := by
  unfold Fs.next
  split
  · next ff exitAt here =>
    have tail := b.closeTail ff
    have pc := (closeTail_frame (s := s) ff).2.2.2
    dsimp only
    split
    · next i =>
      exact tail.congr rfl rfl (liveFd_exitClosed (by rw [pc, here]; rfl))
    · exact tail.finish p 0 (by rw [pc, here]; rfl)
  · next fd here =>
    split
    · next inside =>
      split
      · exact b.setPc p _ (by rw [here]; rfl)
      · next f open_ => exact b.exitClose here open_
    · dsimp only
      split <;>
      · refine Books.setPc ?_ p _ (by simp [here, FdPc.closingFd])
        exact b.congr rfl rfl rfl
  · exact b

end Keep

/-! ## A call touches only its own process -/

section Local

variable {ι : Type} {s s₁ : FdSys ι} {p : ι}

/-- `s₁` is `s` after part of a call of `p`: the other processes' tables and places are as they
were, and `p` is inside the call. -/
def Within (p : ι) (s s₁ : FdSys ι) : Prop :=
  (∀ q, q ≠ p → s₁.ofile q = s.ofile q ∧ s₁.pc q = s.pc q) ∧ (s₁.pc p).inCall = true

theorem Within.start (idle : s.pc p = .idle) : Within p s s :=
  ⟨fun _ _ => ⟨rfl, rfl⟩, by rw [idle]; rfl⟩

/-- A step that leaves every table and place as it was. -/
theorem Within.frame (w : Within p s s₁) {s₂ : FdSys ι} (ofile : s₂.ofile = s₁.ofile)
    (pc : s₂.pc = s₁.pc) : Within p s s₂ :=
  ⟨fun q other => by rw [ofile, pc]; exact w.1 q other, by rw [pc]; exact w.2⟩

theorem Within.filedup (w : Within p s s₁) (f : Fin NFILE) : Within p s (Fs.filedup s₁ f) :=
  w.frame filedup_frame.1 filedup_frame.2

theorem Within.fileclose (w : Within p s s₁) (f : Fin NFILE) : Within p s (Fs.fileclose s₁ f).1 :=
  w.frame fileclose_frame.1 fileclose_frame.2

theorem Within.filecloseNow (w : Within p s s₁) (f : Fin NFILE) :
    Within p s (Fs.filecloseNow s₁ f) :=
  w.frame filecloseNow_frame.1 filecloseNow_frame.2

theorem Within.filealloc (w : Within p s s₁) {f : Fin NFILE} {s₂ : FdSys ι}
    (alloc : Fs.filealloc s₁ = some (f, s₂)) : Within p s s₂ := by
  obtain ⟨-, rfl⟩ := filealloc_some alloc
  exact w.frame rfl rfl

theorem Within.pipealloc (w : Within p s s₁) (page : Option Nat) :
    Within p s (Fs.pipealloc s₁ page).1 :=
  w.frame (pipealloc_frame page).1 (pipealloc_frame page).2

variable [DecidableEq ι]

theorem Within.setOfile (w : Within p s s₁) (fd : Fin NOFILE) (x : Option (Fin NFILE)) :
    Within p s (s₁.setOfile p fd x) :=
  ⟨fun q other => by
    simp only [FdSys.setOfile, Function.update_of_ne other]
    exact w.1 q other, w.2⟩

theorem Within.finish (w : Within p s s₁) (v : Int) : Within p s (s₁.finish p v) :=
  ⟨fun q other => by
    simp only [FdSys.finish, Function.update_of_ne other]
    exact w.1 q other, by simp [FdPc.inCall]⟩

theorem Within.afterClose (w : Within p s s₁) {r : FdSys ι × Option File} (first : r.1 = s₁) :
    Within p s (Fs.afterClose p none r) := by
  obtain ⟨r, closed⟩ := r
  dsimp only at first
  subst first
  cases closed with
  | some ff =>
    exact ⟨fun q other => by
      simp only [FdSys.setPc, Function.update_of_ne other, Fs.afterClose]
      exact w.1 q other, by simp [Fs.afterClose, FdPc.inCall]⟩
  | none => exact w.finish 0

theorem Within.sysOpen (w : Within p s s₁) (omode : UInt32) (ip : Nat) (type : UInt16) :
    Within p s (Fs.sysOpen s₁ p omode ip type) := by
  have got : Within p s (s₁.iget ip) := w.frame rfl rfl
  unfold Fs.sysOpen
  dsimp only
  split
  · exact (got.frame rfl rfl).finish (-1)
  · split
    · exact (got.frame rfl rfl).finish (-1)
    · next f s₂ alloc =>
      have allocated := got.filealloc alloc
      split
      · exact ((allocated.filecloseNow f).frame rfl rfl).finish (-1)
      · next fd s₃ found =>
        obtain ⟨-, rfl⟩ := fdalloc_some found
        exact ((allocated.setOfile fd (some f)).frame rfl rfl).finish fd.val

theorem Within.sysDup (w : Within p s s₁) (fd : Int) : Within p s (Fs.sysDup s₁ p fd) := by
  unfold Fs.sysDup
  split
  · exact w.finish (-1)
  · split
    · exact w.finish (-1)
    · next fd s₂ alloc =>
      obtain ⟨-, rfl⟩ := fdalloc_some alloc
      exact ((w.setOfile fd _).filedup _).finish fd.val

theorem Within.sysClose (w : Within p s s₁) (fd : Int) : Within p s (Fs.sysClose s₁ p fd) := by
  unfold Fs.sysClose
  split
  · exact w.finish (-1)
  · next fd f _ => exact (((w.setOfile fd none).fileclose f)).afterClose rfl

theorem Within.sysChdir (w : Within p s s₁) (ip : Nat) (type : UInt16) :
    Within p s (Fs.sysChdir s₁ p ip type) := by
  unfold Fs.sysChdir
  dsimp only
  split
  · exact (w.frame rfl rfl).finish (-1)
  · split <;> exact (w.frame rfl rfl).finish 0

theorem Within.sysPipe (w : Within p s s₁) (page : Option Nat) :
    Within p s (Fs.sysPipe s₁ p page) := by
  have made := w.pipealloc page
  unfold Fs.sysPipe
  split
  · next s₂ failed =>
    rw [failed] at made
    exact made.finish (-1)
  · next s₂ rf wf done =>
    rw [done] at made
    split
    · exact ((made.filecloseNow rf).filecloseNow wf).finish (-1)
    · next fd₀ s₃ found₀ =>
      obtain ⟨-, rfl⟩ := fdalloc_some found₀
      have reader := made.setOfile fd₀ (some rf)
      split
      · exact (((reader.setOfile fd₀ none).filecloseNow rf).filecloseNow wf).finish (-1)
      · next fd₁ s₄ found₁ =>
        obtain ⟨-, rfl⟩ := fdalloc_some found₁
        exact (reader.setOfile fd₁ (some wf)).finish 0

end Local

/-! ## What `sys_dup` returns -/

section Dup

variable {ι : Type} [DecidableEq ι] {s : FdSys ι} {p : ι}

/-- `sys_dup` of an open descriptor `i` returns the lowest free descriptor `j`, every lower one
being in use, and after it `i` and `j` refer to the same file. -/
theorem sysDup_of_free {fd : Int} {i : Fin NOFILE} {f : Fin NFILE} (found : argfd s p fd = some (i, f))
    {j : Fin NOFILE} (free : freeFd s p = some j) :
    (sysDup s p fd).ret p = some ((j : Nat) : Int) ∧ (sysDup s p fd).ofile p j = some f ∧
      (sysDup s p fd).ofile p i = some f ∧ s.ofile p j = none ∧
      ∀ k : Fin NOFILE, k < j → s.ofile p k ≠ none := by
  obtain ⟨empty, lower⟩ := freeFd_some free
  have open_ := argfd_some found
  have apart : i ≠ j := fun same => by rw [same, empty] at open_; cases open_
  have alloc : fdalloc s p f = some (j, s.setOfile p j (some f)) := by
    unfold fdalloc
    rw [free]
    rfl
  have table := filedup_frame (s := s.setOfile p j (some f)) (f := f)
  unfold Fs.sysDup
  rw [found]
  dsimp only
  rw [alloc]
  dsimp only
  simp only [FdSys.finish, Function.update_self, table.1]
  refine ⟨trivial, ?_, ?_, empty, lower⟩
  · simp
  · simp [Function.update_of_ne apart, open_]

end Dup

/-! ## Every run -/

section Runs

variable {ι : Type} [DecidableEq ι] {s s₁ : FdSys ι} {p q : ι}

/-- A slot with no process, and the part of an exiting table that `exit` has passed, hold no
descriptor. -/
structure Quiet (s : FdSys ι) : Prop where
  stopped : ∀ p, (s.pc p).stopped = true → ∀ fd, s.ofile p fd = none
  cleared : ∀ p (fd : Fin NOFILE), fd.val < (s.pc p).cleared → s.ofile p fd = none

theorem FdPc.inCall_quiet {pc : FdPc} (inside : pc.inCall = true) :
    pc.stopped = false ∧ pc.cleared = 0 := by
  cases pc with
  | closing ff exitAt =>
    cases exitAt with
    | none => exact ⟨rfl, rfl⟩
    | some fd => cases inside
  | idle => exact ⟨rfl, rfl⟩
  | _ => cases inside

/-- A step of one process keeps the others' tables and places, and leaves its own table quiet
for where it now stands. -/
theorem Quiet.move (quiet : Quiet s) (p : ι)
    (others : ∀ q, q ≠ p → s₁.ofile q = s.ofile q ∧ s₁.pc q = s.pc q)
    (stopped : (s₁.pc p).stopped = true → ∀ fd, s₁.ofile p fd = none)
    (cleared : ∀ fd : Fin NOFILE, fd.val < (s₁.pc p).cleared → s₁.ofile p fd = none) :
    Quiet s₁ := by
  refine ⟨fun q stop fd => ?_, fun q fd below => ?_⟩
  · by_cases same : q = p
    · subst same
      exact stopped stop fd
    · obtain ⟨ofile, pc⟩ := others q same
      rw [pc] at stop
      rw [ofile]
      exact quiet.stopped q stop fd
  · by_cases same : q = p
    · subst same
      exact cleared fd below
    · obtain ⟨ofile, pc⟩ := others q same
      rw [pc] at below
      rw [ofile]
      exact quiet.cleared q fd below

/-- A state that differs from a quiet one only in the tables and places of processes that are
neither stopped nor part way through `exit` is quiet. -/
theorem Quiet.of_frame (quiet : Quiet s) (r : ι)
    (others : ∀ q, q ≠ r → s₁.ofile q = s.ofile q ∧ s₁.pc q = s.pc q)
    (own : (s₁.pc r).stopped = false ∧ (s₁.pc r).cleared = 0) : Quiet s₁ := by
  refine quiet.move r others (fun stop => ?_) (fun fd below => ?_)
  · rw [own.1] at stop
    cases stop
  · rw [own.2] at below
    exact absurd below (Nat.not_lt_zero _)

theorem Quiet.within (quiet : Quiet s) (w : Within p s s₁) : Quiet s₁ :=
  quiet.of_frame p w.1 (FdPc.inCall_quiet w.2)

theorem forkFile_frame {r : ι} (other : r ≠ q) (i : Fin NOFILE) :
    (forkFile p q s i).ofile r = s.ofile r ∧ (forkFile p q s i).pc = s.pc := by
  unfold forkFile
  split
  · next f _ =>
    obtain ⟨ofile, pc⟩ := filedup_frame (s := s) (f := f)
    simp only [FdSys.setOfile, Function.update_of_ne other]
    exact ⟨congrFun ofile r, pc⟩
  · exact ⟨rfl, rfl⟩

theorem forkFiles_frame {r : ι} (other : r ≠ q) :
    ∀ (l : List (Fin NOFILE)) (s : FdSys ι),
      (l.foldl (forkFile p q) s).ofile r = s.ofile r ∧ (l.foldl (forkFile p q) s).pc = s.pc
  | [], _ => ⟨rfl, rfl⟩
  | i :: rest, s => by
    obtain ⟨ofile, pc⟩ := forkFiles_frame other rest (forkFile p q s i)
    obtain ⟨ofile₁, pc₁⟩ := forkFile_frame (p := p) (s := s) other i
    rw [List.foldl_cons]
    exact ⟨ofile.trans ofile₁, pc.trans pc₁⟩

/-- `fork` changes no table but the child's, and the child runs. -/
theorem fork_frame (p q : ι) :
    (∀ r, r ≠ q → (fork s p q).ofile r = s.ofile r ∧ (fork s p q).pc r = s.pc r) ∧
      (fork s p q).pc q = .idle := by
  unfold fork
  dsimp only
  constructor
  · intro r other
    obtain ⟨ofile, pc⟩ := forkFiles_frame (p := p) other (List.finRange NOFILE) s
    split <;>
    · simp only [FdSys.setPc, FdSys.setCwd, FdSys.iget, Function.update_of_ne other]
      exact ⟨ofile, by rw [pc]⟩
  · split <;> simp

omit [DecidableEq ι] in
/-- Quietness reads the descriptors and the places only. -/
theorem Quiet.of_tables (quiet : Quiet s) (ofile : s₁.ofile = s.ofile) (pc : s₁.pc = s.pc) :
    Quiet s₁ :=
  ⟨fun q stop fd => by rw [pc] at stop; rw [ofile]; exact quiet.stopped q stop fd,
    fun q fd below => by rw [pc] at below; rw [ofile]; exact quiet.cleared q fd below⟩

/-- The rest of a close in `exit`'s loop at `fd`, with the descriptors below it clear. -/
theorem Quiet.closing (quiet : Quiet s) {fd : Fin NOFILE}
    (below : ∀ j : Fin NOFILE, j.val < fd.val → s.ofile p j = none) (ff : File) :
    Quiet (s.setPc p (.closing ff (some fd))) := by
  refine quiet.move p (fun q other => ?_) (fun stop => by simp [FdPc.stopped] at stop)
    (fun j lower => ?_)
  · simp [Function.update_of_ne other]
  · simp only [FdSys.setPc, Function.update_self, FdPc.cleared] at lower
    exact below j lower

/-- `ofile[fd] = 0` in `exit`'s loop, with the descriptors below `fd` clear. -/
theorem Quiet.exitClosed (quiet : Quiet s) {fd : Fin NOFILE}
    (below : ∀ j : Fin NOFILE, j.val < fd.val → s.ofile p j = none) :
    Quiet (exitClosed s p fd) := by
  refine quiet.move p (fun q other => ?_) (fun stop => by simp [Fs.exitClosed, FdPc.stopped] at stop)
    (fun j lower => ?_)
  · simp [Fs.exitClosed, Function.update_of_ne other]
  · simp only [Fs.exitClosed, FdSys.setPc, Function.update_self, FdPc.cleared] at lower
    by_cases last : j = fd
    · subst last
      simp [Fs.exitClosed]
    · have lower' : j.val < fd.val := by
        have apart : j.val ≠ fd.val := fun same => last (Fin.ext same)
        omega
      simp [Fs.exitClosed, Function.update_of_ne last, below j lower']

theorem Quiet.next (quiet : Quiet s) (p : ι) : Quiet (Fs.next s p) := by
  unfold Fs.next
  split
  · next ff exitAt here =>
    obtain ⟨-, ofile, -, pc⟩ := closeTail_frame (s := s) ff
    have tail := quiet.of_tables ofile pc
    dsimp only
    split
    · next fd =>
      refine tail.exitClosed fun j below => ?_
      rw [ofile]
      exact quiet.cleared p j (by rw [here]; exact below)
    · apply quiet.of_frame p
      · intro q other
        simp only [FdSys.finish, Function.update_of_ne other]
        exact ⟨by rw [ofile], by rw [pc]⟩
      · simp [FdPc.stopped, FdPc.cleared]
  · next fd here =>
    split
    · next inside =>
      split
      · next free =>
        refine quiet.move p (fun q other => ?_) (fun stop => by simp [FdPc.stopped] at stop)
          (fun j below => ?_)
        · simp [Function.update_of_ne other]
        · simp only [FdSys.setPc, Function.update_self, FdPc.cleared] at below
          by_cases last : j.val = fd
          · have same : j = ⟨fd, inside⟩ := Fin.ext last
            rw [same]
            exact free
          · exact quiet.cleared p j (by rw [here]; simp only [FdPc.cleared]; omega)
      · next f open_ =>
        have frame := fileclose_frame (s := s) (f := f)
        generalize fileclose s f = r at frame ⊢
        obtain ⟨r, last⟩ := r
        have closed := quiet.of_tables frame.1 frame.2
        have below : ∀ j : Fin NOFILE, j.val < fd → r.ofile p j = none := fun j lower => by
          rw [frame.1]
          exact quiet.cleared p j (by rw [here]; exact lower)
        cases last with
        | some ff => exact closed.closing below ff
        | none => exact closed.exitClosed below
    · next outside =>
      dsimp only
      have clear : ∀ j, s.ofile p j = none := fun j =>
        quiet.cleared p j (by rw [here]; simp only [FdPc.cleared]; omega)
      split <;>
      · refine quiet.move p (fun q other => ?_) (fun _ j => clear j)
          (fun j below => by simp [FdPc.cleared] at below)
        simp [Function.update_of_ne other]
  · exact quiet

variable [Fintype ι]

/-- What every run of the file layer keeps. -/
structure Tracked (s : FdSys ι) : Prop where
  books : Books s 0
  quiet : Quiet s

/-- Every step keeps the books and the empty tables of `Quiet`. For `fork`, the slot that
allocproc found holds no descriptor, so the child's table starts empty. -/
theorem Tracked.step (t : Tracked s) (event : FdEvent ι) : Tracked (fdStep s event) := by
  unfold fdStep
  split
  · exact t
  · cases event with
    | sysOpen p omode ip type =>
      dsimp only
      split
      · next idle =>
        exact ⟨t.books.sysOpen idle omode ip type,
          t.quiet.within ((Within.start idle).sysOpen omode ip type)⟩
      · exact t
    | sysDup p fd =>
      dsimp only
      split
      · next idle =>
        exact ⟨t.books.sysDup idle fd, t.quiet.within ((Within.start idle).sysDup fd)⟩
      · exact t
    | sysClose p fd =>
      dsimp only
      split
      · next idle =>
        exact ⟨t.books.sysClose idle fd, t.quiet.within ((Within.start idle).sysClose fd)⟩
      · exact t
    | sysPipe p page =>
      dsimp only
      split
      · next guard =>
        exact ⟨t.books.sysPipe guard.1 page, t.quiet.within ((Within.start guard.1).sysPipe page)⟩
      · exact t
    | sysChdir p ip type =>
      dsimp only
      split
      · next idle =>
        exact ⟨t.books.sysChdir idle ip type,
          t.quiet.within ((Within.start idle).sysChdir ip type)⟩
      · exact t
    | fork p q =>
      dsimp only
      split
      · next guard =>
        have empty : ∀ i, s.ofile q i = none := t.quiet.stopped q (by rw [guard.2]; rfl)
        obtain ⟨others, child⟩ := fork_frame (s := s) p q
        exact ⟨t.books.fork guard.1 guard.2 empty,
          t.quiet.of_frame q others (by rw [child]; exact ⟨rfl, rfl⟩)⟩
      · exact t
    | exit p =>
      dsimp only
      split
      · next idle =>
        refine ⟨t.books.setPc p _ (by rw [idle]; rfl), t.quiet.move p (fun q other => ?_)
          (fun stop => by simp [FdPc.stopped] at stop) (fun j below => ?_)⟩
        · simp [Function.update_of_ne other]
        · simp [FdPc.cleared] at below
      · exact t
    | next p => exact ⟨t.books.next, t.quiet.next p⟩
    | wait q =>
      dsimp only
      split
      · next zombie =>
        refine ⟨t.books.setPc q _ (by rw [zombie]; rfl), t.quiet.move q (fun r other => ?_)
          (fun _ fd => t.quiet.stopped q (by rw [zombie]; rfl) fd) (fun j below => ?_)⟩
        · simp [Function.update_of_ne other]
        · simp [FdPc.cleared] at below
      · exact t

theorem boot_tracked (init : ι) (root : Nat) : Tracked (fdBoot init root : FdSys ι) where
  books :=
    { running := rfl
      ref_eq := fun f => by
        have empty : ∀ p fd, liveFd (fdBoot init root : FdSys ι) p fd = none := fun p fd => by
          unfold liveFd
          split <;> rfl
        have unheld : descriptors (fdBoot init root : FdSys ι) f = 0 := by
          simp [descriptors, fdsTo, empty]
        rw [unheld]
        rfl
      freed := fun f _ => rfl }
  quiet :=
    { stopped := fun _ _ _ => rfl
      cleared := fun _ _ _ => rfl }

theorem tracked_reachable {init : ι} {root : Nat} (reached : Reachable fdStep (fdBoot init root) s) :
    Tracked s :=
  Invariant.reachable (fun _ event t => t.step event) (boot_tracked init root) reached

/-- In every run of the file layer nothing panics, the count of each file is the number of
descriptors that refer to it, leaving out the one an exiting process is closing, a file with no
reference is `FD_NONE`, and a slot with no running process holds no descriptor. -/
theorem file_refs_counted {init : ι} {root : Nat}
    (reached : Reachable fdStep (fdBoot init root) s) :
    s.panicked = none ∧
      (∀ f, (s.file f).ref = descriptors s f ∧ ((s.file f).ref = 0 → (s.file f).type = .none)) ∧
      ∀ p, (s.pc p).stopped = true → ∀ fd, s.ofile p fd = none := by
  have t := tracked_reachable reached
  refine ⟨t.books.running, fun f => ⟨?_, t.books.freed f⟩, t.quiet.stopped⟩
  have counted := t.books.ref_eq f
  rw [Pi.zero_apply, Nat.add_zero] at counted
  exact counted

/-- `sys_dup` of an open descriptor `i` in any run: it does not panic, the file had a reference,
which it gains one more of, and the call returns the lowest free descriptor `j`, every lower one
being in use, with `i` and `j` then referring to the same file. -/
theorem sysDup_lowest {init : ι} {root : Nat} (reached : Reachable fdStep (fdBoot init root) s)
    (idle : s.pc p = .idle) {fd : Int} {i : Fin NOFILE} {f : Fin NFILE}
    (found : argfd s p fd = some (i, f)) {j : Fin NOFILE} (free : freeFd s p = some j) :
    let s' := fdStep s (.sysDup p fd)
    s'.panicked = none ∧ 0 < (s.file f).ref ∧ (s'.file f).ref = (s.file f).ref + 1 ∧
      s'.ret p = some ((j : Nat) : Int) ∧ s'.ofile p j = some f ∧ s'.ofile p i = some f ∧
      s.ofile p j = none ∧ ∀ k : Fin NOFILE, k < j → s.ofile p k ≠ none := by
  intro s'
  have t := tracked_reachable reached
  have calm : (s.pc p).closingFd = none := by rw [idle]; rfl
  have held := t.books.pos_of_descriptor (by rw [liveFd_of_calm calm]; exact argfd_some found)
  have stepped : s' = sysDup s p fd := by simp [s', fdStep, t.books.running, idle]
  have after : (sysDup s p fd).file f = { s.file f with ref := (s.file f).ref + 1 } ∧
      (sysDup s p fd).panicked = none := by
    have alloc : fdalloc s p f = some (j, s.setOfile p j (some f)) := by
      unfold fdalloc
      rw [free]
      rfl
    unfold Fs.sysDup
    rw [found]
    dsimp only
    rw [alloc]
    dsimp only
    rw [filedup_setOfile, filedup_of_pos held]
    simp [t.books.running]
  rw [stepped]
  exact ⟨after.2, held, by rw [after.1], sysDup_of_free found free⟩

end Runs

/-- A process opens a pipe, duplicates its read end, forks, and the child exits. -/
def pipeForkRun : List (FdEvent Bool) :=
  [.sysPipe false (some 4096), .sysDup false 0, .fork false true, .sysClose false 0, .exit true,
    .next true, .next true, .next true]

/-- One process that opened inode 5 read and write. -/
def openedState : FdSys Bool :=
  run fdStep (fdBoot false 1) [.sysOpen false O_RDWR 5 T_FILE]

theorem sysDup_lowest_opened :
    openedState.pc false = .idle ∧ argfd openedState false 0 = some (0, 0) ∧
      freeFd openedState false = some 1 ∧
      let s' := fdStep openedState (.sysDup false 0)
      s'.panicked = none ∧ 0 < (openedState.file 0).ref ∧
        (s'.file 0).ref = (openedState.file 0).ref + 1 ∧ s'.ret false = some 1 ∧
        s'.ofile false 1 = some 0 ∧ s'.ofile false 0 = some 0 ∧ openedState.ofile false 1 = none ∧
        ∀ k : Fin NOFILE, k < 1 → openedState.ofile false k ≠ none :=
  have idle : openedState.pc false = .idle := by decide
  have found : argfd openedState false 0 = some (0, 0) := by decide
  have free : freeFd openedState false = some 1 := by decide
  ⟨idle, found, free, sysDup_lowest ⟨_, rfl⟩ idle found free⟩

theorem file_refs_counted_pipeFork :
    let s := run fdStep (fdBoot false 1) pipeForkRun
    s.panicked = none ∧
      (∀ f, (s.file f).ref = descriptors s f ∧ ((s.file f).ref = 0 → (s.file f).type = .none)) ∧
      ∀ p, (s.pc p).stopped = true → ∀ fd, s.ofile p fd = none :=
  file_refs_counted ⟨pipeForkRun, rfl⟩

end FdSys

end Xv6.Fs
