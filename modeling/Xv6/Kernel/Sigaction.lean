import Xv6.Kernel.Signal

/-!
# sigaction over every signal number

`sigaction` tests its signal number against SIGKILL and SIGSTOP only, and `sys_sigaction`
passes the user's int through, so `signal_handlers[signum]` may lie outside the array. On i386
every field of struct proc is one word, and the array sits between `pending_signals` and
`signal_mask` below it and `user_trap_fram_backup`, `freeze` and `old_signal_mask` above it
(proc.h:53-61): signal numbers -2 to 34 name these words. Further out the index reaches the
other fields of struct proc and the other slots of `ptable.proc`, 68 words apart, or kernel
memory beyond the table.

`sigactionAt` is the source function on every int over the words of the caller's own slot, and
agrees with the kernel step's `sigaction` inside [0, 31]. `tableWord` places any index in the
table: the kernel step's stray `sigaction` stores through it into the words the model holds.
-/

namespace Xv6.Kernel

open Xv6.Bytes

/-- The words of struct proc from `pending_signals` to `old_signal_mask`. -/
inductive SignalWord
  | pendingSignals
  | signalMask
  | handler (i : Fin 32)
  | userTrapFramBackup
  | freeze
  | oldSignalMask
  deriving DecidableEq, Repr

/-- The word that `signal_handlers[index]` names, when it is one of the signal words: the array
starts two words after `pending_signals`. -/
def signalWord (index : Int) : Option SignalWord :=
  if index = -2 then some .pendingSignals
  else if index = -1 then some .signalMask
  else if inside : 0 ≤ index ∧ index < 32 then some (.handler ⟨index.toNat, by omega⟩)
  else if index = 32 then some .userTrapFramBackup
  else if index = 33 then some .freeze
  else if index = 34 then some .oldSignalMask
  else none

theorem signalWord_eq_none_iff (index : Int) :
    signalWord index = none ↔ index < -2 ∨ 34 < index := by
  unfold signalWord
  split_ifs <;> simp <;> omega

theorem signalWord_handler (i : Fin 32) : signalWord i.val = some (.handler i) := by
  have inside : 0 ≤ (i.val : Int) ∧ (i.val : Int) < 32 := by omega
  unfold signalWord
  rw [if_neg (by omega), if_neg (by omega), dif_pos inside]
  rfl

namespace Proc

/-- The value of a signal word, where the model holds it as a word. It holds `freeze`, an int
that only its truth decides, as a flag, and not `old_signal_mask` at all. -/
def readSignalWord (p : Proc) : SignalWord → Option UInt32
  | .pendingSignals => some p.pendingSignals
  | .signalMask => some p.signalMask
  | .handler i => some (p.signalHandlers i)
  | .userTrapFramBackup => some p.userTrapFramBackup
  | .freeze => none
  | .oldSignalMask => none

/-- A store into a signal word. Nothing reads `old_signal_mask`. -/
def writeSignalWord (p : Proc) (word : SignalWord) (value : UInt32) : Proc :=
  match word with
  | .pendingSignals => { p with pendingSignals := value }
  | .signalMask => { p with signalMask := value }
  | .handler i => { p with signalHandlers := Function.update p.signalHandlers i value }
  | .userTrapFramBackup => { p with userTrapFramBackup := value }
  | .freeze => { p with freeze := value != 0 }
  | .oldSignalMask => p

/-- A store into a signal word changes no field outside the signal words. -/
theorem writeSignalWord_unmoved (p : Proc) (word : SignalWord) (value : UInt32) :
    Unmoved p (p.writeSignalWord word value) := by
  cases word <;> exact ⟨rfl, rfl, rfl, rfl, rfl, rfl⟩

@[simp] theorem writeSignalWord_tf (p : Proc) (word : SignalWord) (value : UInt32) :
    (p.writeSignalWord word value).tf = p.tf := by
  cases word <;> rfl

@[simp] theorem writeSignalWord_killed (p : Proc) (word : SignalWord) (value : UInt32) :
    (p.writeSignalWord word value).killed = p.killed := by
  cases word <;> rfl

end Proc

/-- The words of struct proc that the model holds as fields and that a store of a word can set:
the size, the pid, the kill flag and the signal words. The others are pointers, the open files,
the name and the state, whose numbers the model does not hold. -/
inductive ProcWord
  | sz
  | pid
  | killed
  | signal (word : SignalWord)
  deriving DecidableEq, Repr

/-- The length of struct proc in words: ten fields, 16 for `ofile`, `cwd`, 4 for `name`, the two
signal sets, 32 handlers, `user_trap_fram_backup`, `freeze` and `old_signal_mask`. -/
def procWords : Nat := 68

/-- The word at `index` of struct proc, where the model holds it; `signal_handlers` starts at
word 33. -/
def procWord (index : Nat) : Option ProcWord :=
  if index = 0 then some .sz
  else if index = 4 then some .pid
  else if index = 9 then some .killed
  else (signalWord ((index : Int) - 33)).map .signal

/-- The index of `signal_handlers[signum]` of the process in slot `cur` among the words of
`ptable.proc`. -/
def handlerIndex (cur : Nat) (signum : Int) : Int := procWords * cur + 33 + signum

/-- The slot and the word a word index of `ptable.proc` names, where it lies in the `NPROC`
slots and the model holds it. -/
def tableWord (index : Int) : Option (Nat × ProcWord) :=
  if 0 ≤ index ∧ index < procWords * nproc then
    (procWord (index.toNat % procWords)).map fun word => (index.toNat / procWords, word)
  else none

/-- The signal words of a slot of the table are the ones `sigactionAt` follows. -/
theorem tableWord_handlerIndex {cur : Nat} (inside : cur < nproc) {signum : Int}
    {word : SignalWord} (named : signalWord signum = some word) :
    tableWord (handlerIndex cur signum) = some (cur, .signal word) := by
  have range : -2 ≤ signum ∧ signum ≤ 34 := by
    have held := (signalWord_eq_none_iff signum).not.mp (by simp [named])
    omega
  have size : nproc = 64 := rfl
  have offset : (handlerIndex cur signum).toNat % procWords = (33 + signum).toNat := by
    unfold handlerIndex procWords
    omega
  have slot : (handlerIndex cur signum).toNat / procWords = cur := by
    unfold handlerIndex procWords
    omega
  have word_at : procWord (33 + signum).toNat = some (.signal word) := by
    unfold procWord
    rw [if_neg (by omega), if_neg (by omega), if_neg (by omega)]
    have back : ((33 + signum).toNat : Int) - 33 = signum := by omega
    rw [back, named]
    rfl
  unfold tableWord
  rw [if_pos (by unfold handlerIndex procWords; omega), offset, word_at, slot]
  rfl

example : tableWord (handlerIndex 0 44) = some (1, .killed) := by decide

example : tableWord (handlerIndex 1 (-35)) = some (0, .signal .freeze) := by decide

namespace Proc

/-- The value of a word, where the model holds it as a word; the kill flag is held as a flag. -/
def readWord (p : Proc) : ProcWord → Option UInt32
  | .sz => some p.sz
  | .pid => some (UInt32.ofInt p.pid)
  | .killed => none
  | .signal word => p.readSignalWord word

/-- A store of a word into the field it lands in; the kill flag becomes its truth value. -/
def writeWord (p : Proc) : ProcWord → UInt32 → Proc
  | .sz, value => { p with sz := value }
  | .pid, value => { p with pid := value.toInt32.toInt }
  | .killed, value => { p with killed := value != 0 }
  | .signal word, value => p.writeSignalWord word value

end Proc

/-- The first half of `sigaction`: the old handler and mask written to `*oldact` when it is not
null. A signal word the model does not hold cannot be read. -/
def oldactMemory (p : Proc) (word : SignalWord) (oldact : UInt32) : Option Memory :=
  if oldact ≠ 0 then
    (p.readSignalWord word).map fun old => p.memory.write oldact (sigactionBytes old p.signalMask)
  else some p.memory

/-- The second half: the handler read from `*act` stored into the word, then the mask. -/
def storeDisposition (p : Proc) (word : SignalWord) (memory : Memory) (act : UInt32) : Proc :=
  { ({ p with memory := memory } : Proc).writeSignalWord word (memory.read32 act) with
    signalMask := memory.read32 (act + 4) }

/-- `sigaction` as the source has it, for every int signal number; none where the store or the
read of the old handler leaves the words the model follows. -/
def sigactionAt (p : Proc) (signum : Int) (act oldact : UInt32) : Option (Proc × Int) :=
  if signum = sigkill ∨ signum = sigstop then some (p, -1)
  else
    (signalWord signum).bind fun word =>
      (oldactMemory p word oldact).map fun memory => (storeDisposition p word memory act, 0)

section Sigaction

variable {p : Proc} {signum : Int} {act oldact : UInt32}

theorem sigactionAt_refused (refused : signum = sigkill ∨ signum = sigstop) :
    sigactionAt p signum act oldact = some (p, -1) := by
  unfold sigactionAt
  rw [if_pos refused]

/-- What an accepted signal number can do: store into the word it names and return 0. -/
theorem sigactionAt_accepted {result : Proc × Int}
    (accepted : ¬ (signum = sigkill ∨ signum = sigstop))
    (ran : sigactionAt p signum act oldact = some result) :
    ∃ word memory, signalWord signum = some word ∧ oldactMemory p word oldact = some memory ∧
      result = (storeDisposition p word memory act, 0) := by
  unfold sigactionAt at ran
  rw [if_neg accepted] at ran
  obtain ⟨word, named, stored⟩ := Option.bind_eq_some_iff.mp ran
  obtain ⟨memory, written, rfl⟩ := Option.map_eq_some_iff.mp stored
  exact ⟨word, memory, named, written, rfl⟩

theorem oldactMemory_isSome {word : SignalWord}
    (readable : oldact = 0 ∨ (p.readSignalWord word).isSome) :
    (oldactMemory p word oldact).isSome := by
  unfold oldactMemory
  split
  · rename_i notNull
    rcases readable with null | held
    · exact absurd null notNull
    · simpa using held
  · rfl

/-- An accepted signal number among the signal words runs whenever the old handler it reports
can be read. -/
theorem sigactionAt_isSome {word : SignalWord}
    (accepted : ¬ (signum = sigkill ∨ signum = sigstop)) (named : signalWord signum = some word)
    (readable : oldact = 0 ∨ (p.readSignalWord word).isSome) :
    (sigactionAt p signum act oldact).isSome := by
  obtain ⟨memory, written⟩ := Option.isSome_iff_exists.mp (oldactMemory_isSome readable)
  unfold sigactionAt
  rw [if_neg accepted, named]
  simp [written]

/-- Inside the handler array `sigactionAt` is the `sigaction` the kernel step runs. -/
theorem sigactionAt_handler (i : Fin 32) (act oldact : UInt32) :
    sigactionAt p i.val act oldact = some (sigaction p i act oldact) := by
  unfold sigactionAt sigaction
  have sameTest : ((i.val : Int) = sigkill ∨ (i.val : Int) = sigstop) ↔
      (i.val = sigkill ∨ i.val = sigstop) := by
    simp only [Int.natCast_inj]
  by_cases refused : i.val = sigkill ∨ i.val = sigstop
  · rw [if_pos (sameTest.mpr refused), if_pos refused]
  · rw [if_neg (mt sameTest.mp refused), if_neg refused, signalWord_handler]
    simp only [Option.bind_some, oldactMemory, Proc.readSignalWord]
    split <;> rfl

end Sigaction

end Xv6.Kernel
