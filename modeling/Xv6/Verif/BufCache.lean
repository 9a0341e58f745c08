import Xv6.Fs.Bio
import Xv6.Lib.Run
import Xv6.Lib.Count

/-!
# Coherence of the buffer cache

For any number of processes and any interleaving of the cache's critical sections, the disk
interrupts and the log's bookkeeping, an invariant ties the buffers together. The pointers link
the head and the NBUF buffers into one circle, whose order is the list `order`; each buffer that
is referenced or valid is the first in that order for its block, so no two such buffers share a
block and `bget`'s lookup finds the one there is. Each reference count counts the processes in
`acquiresleep` for the buffer and its holder; a process in `iderw` holds its buffer, which is
queued until the interrupt completes it. A valid buffer holds the contents last written to its
block; a valid buffer that is neither dirty nor changed since its last write holds what the
disk holds; and a block no valid buffer holds is on disk as it was last written. A buffer that
`log_write` pinned stays B_DIRTY, and so cannot be recycled, until a write of it reaches the
disk.

That write need not be commit's: B_DIRTY is also `iderw`'s request to write, and the interrupt
that completes a `bwrite` of a pinned buffer clears it. A buffer whose block is in the log's
header can then be recycled before any commit; its contents are on disk, so reads stay
coherent.
-/

namespace Xv6.Fs

open Xv6.DList Xv6.Run BCache

variable {ι β : Type} [Fintype ι] [DecidableEq ι] {s : BCache ι β}

/-- `bget`'s lookup test for a block. -/
def forBlock (s : BCache ι β) (k : Nat × Nat) (b : Fin NBUF) : Bool :=
  (s.buf b).dev == k.1 && (s.buf b).blockno == k.2

/-- `bget`'s recycling test. -/
def reusable (s : BCache ι β) (b : Fin NBUF) : Bool :=
  (s.buf b).refcnt == 0 && !(s.buf b).dirty

omit [Fintype ι] [DecidableEq ι] in
theorem forBlock_eq_true {k : Nat × Nat} {b : Fin NBUF} :
    forBlock s k b = true ↔ (s.buf b).key = k := by
  obtain ⟨dev, blockno⟩ := k
  simp [forBlock, Buf.key]

omit [Fintype ι] [DecidableEq ι] in
theorem reusable_eq_true {b : Fin NBUF} :
    reusable s b = true ↔ (s.buf b).refcnt = 0 ∧ (s.buf b).dirty = false := by
  simp [reusable]

/-- Referenced or valid: a buffer that answers for its block. -/
def Live (s : BCache ι β) (b : Fin NBUF) : Prop := 0 < (s.buf b).refcnt ∨ (s.buf b).valid = true

/-- The processes in `acquiresleep` for a buffer. -/
def acquirers (s : BCache ι β) (b : Fin NBUF) : Nat :=
  ∑ p, if s.pc p = .acquiring b then 1 else 0

/-- The processes a reference count counts: those in `acquiresleep` for it, and its holder. -/
def users (s : BCache ι β) (b : Fin NBUF) : Nat :=
  acquirers s b + if (s.locked b).isSome then 1 else 0

/-- `iderw`'s test that a request is done: valid and not dirty. -/
def Done (s : BCache ι β) (b : Fin NBUF) : Prop :=
  (s.buf b).valid = true ∧ (s.buf b).dirty = false

/-- The pointers link `order`, every buffer is in it, and each buffer that answers for its block
is the first for that block. -/
structure Ordered (s : BCache ι β) (order : List (Fin NBUF)) : Prop where
  links : Links order s.next s.prev
  complete : ∀ b, b ∈ order
  first : ∀ c, Live s c → order.find? (forBlock s (s.buf c).key) = some c

/-- Reference counts, sleep locks and the disk queue. -/
structure Counted (s : BCache ι β) : Prop where
  refcnt : ∀ b, (s.buf b).refcnt = users s b
  waiting : ∀ p b, s.pc p = .waiting b →
    s.locked b = some p ∧ s.modified b = false ∧ (b ∈ s.idequeue ∨ Done s b)
  nodup : s.idequeue.Nodup
  queued : ∀ b ∈ s.idequeue, (∃ p, s.locked b = some p ∧ s.pc p = .waiting b) ∧ ¬Done s b

/-- Contents of the buffers, the disk and the blocks as last written. -/
structure Coherent (s : BCache ι β) : Prop where
  dirtyValid : ∀ b, (s.buf b).dirty = true → (s.buf b).valid = true
  pinnedDirty : ∀ b, s.pinned b = true → (s.buf b).dirty = true
  modifiedHeld : ∀ b, s.modified b = true → (s.locked b).isSome = true
  dataMem : ∀ b, (s.buf b).valid = true → (s.buf b).data = s.mem (s.buf b).key
  clean : ∀ b, (s.buf b).valid = true → (s.buf b).dirty = false → s.modified b = false →
    s.disk (s.buf b).key = (s.buf b).data
  uncached : ∀ k, (∀ b, (s.buf b).valid = true → (s.buf b).key ≠ k) → s.disk k = s.mem k

/-- The invariant of the cache. A held buffer is valid unless its holder waits for it to be read:
`bread` returns only after the read. -/
structure CacheInv (s : BCache ι β) : Prop where
  ordered : ∃ order, Ordered s order
  counted : Counted s
  coherent : Coherent s
  heldValid : s.panicked = none →
    ∀ b p, s.locked b = some p → s.pc p ≠ .waiting b → (s.buf b).valid = true

section Basic

omit [Fintype ι] [DecidableEq ι] in
theorem live_of_valid {b : Fin NBUF} (valid : (s.buf b).valid = true) : Live s b := Or.inr valid

omit [DecidableEq ι] in
/-- A buffer with a holder is referenced. -/
theorem Counted.live_of_locked (cnt : Counted s) {b : Fin NBUF} {p : ι}
    (held : s.locked b = some p) : Live s b := by
  left
  rw [cnt.refcnt, users, held]
  simp

omit [DecidableEq ι] in
/-- An unreferenced buffer has no holder and no process acquiring it. -/
theorem Counted.free_of_refcnt (cnt : Counted s) {b : Fin NBUF} (zero : (s.buf b).refcnt = 0) :
    s.locked b = none ∧ ∀ p, s.pc p ≠ .acquiring b := by
  rw [cnt.refcnt, users, acquirers] at zero
  have noLock : s.locked b = none := by
    cases locked : s.locked b with
    | none => rfl
    | some q => simp [locked] at zero
  refine ⟨noLock, fun p acquiring => ?_⟩
  have term := (Finset.sum_eq_zero_iff.mp (Nat.eq_zero_of_add_eq_zero_right zero)) p
    (Finset.mem_univ p)
  simp [acquiring] at term

omit [DecidableEq ι] in
/-- A buffer with no holder is not queued. -/
theorem Counted.not_queued_of_free (cnt : Counted s) {b : Fin NBUF} (free : s.locked b = none) :
    b ∉ s.idequeue := fun queued => by
  obtain ⟨⟨p, held, -⟩, -⟩ := cnt.queued b queued
  rw [free] at held
  cases held

omit [DecidableEq ι] in
/-- A buffer whose holder runs is not queued. -/
theorem Counted.not_queued_of_idle (cnt : Counted s) {b : Fin NBUF} {p : ι}
    (held : s.locked b = some p) (idle : s.pc p = .idle) : b ∉ s.idequeue := fun queued => by
  obtain ⟨⟨q, held', waiting⟩, -⟩ := cnt.queued b queued
  rw [held] at held'
  cases held'
  rw [idle] at waiting
  cases waiting

omit [DecidableEq ι] in
/-- No process waits on a buffer whose holder runs, or that has no holder. -/
theorem Counted.no_waiter (cnt : Counted s) {b : Fin NBUF}
    (free : ∀ p, s.locked b = some p → s.pc p = .idle) (q : ι) : s.pc q ≠ .waiting b :=
  fun waiting => by
    have held := (cnt.waiting q b waiting).1
    rw [free q held] at waiting
    cases waiting

omit [Fintype ι] [DecidableEq ι] in
/-- The list of the buffers holds NBUF of them at most. -/
theorem Ordered.length_le {order : List (Fin NBUF)} (ord : Ordered s order) :
    order.length ≤ NBUF := by
  simpa using ord.links.nodup.length_le_card

omit [Fintype ι] [DecidableEq ι] in
/-- `bget`'s first loop finds the first buffer of the list for the block. -/
theorem Ordered.lookup {order : List (Fin NBUF)} (ord : Ordered s order) (dev blockno : Nat) :
    s.lookup dev blockno = order.find? (forBlock s (dev, blockno)) := by
  rw [BCache.lookup, ord.links.next_eq]
  exact scan_eq_find ord.links.nodup ord.length_le

omit [Fintype ι] [DecidableEq ι] in
/-- `bget`'s second loop finds the last reusable buffer of the list. -/
theorem Ordered.victim {order : List (Fin NBUF)} (ord : Ordered s order) :
    s.victim = order.reverse.find? (reusable s) := by
  rw [BCache.victim, ord.links.prev_eq]
  exact scan_eq_find (List.nodup_reverse.mpr ord.links.nodup) (by simpa using ord.length_le)

omit [Fintype ι] [DecidableEq ι] in
/-- No two buffers that answer for their blocks are for the same block. -/
theorem Ordered.distinct {order : List (Fin NBUF)} (ord : Ordered s order) {b c : Fin NBUF}
    (liveB : Live s b) (liveC : Live s c) (same : (s.buf b).key = (s.buf c).key) : b = c := by
  have firstB := ord.first b liveB
  rw [same, ord.first c liveC] at firstB
  exact (Option.some.inj firstB).symm

end Basic

section Frame

variable {s' : BCache ι β}

/-- Two states whose buffers differ at most in their reference counts. -/
def SameBlocks (s' s : BCache ι β) : Prop :=
  ∀ c, (s'.buf c).valid = (s.buf c).valid ∧ (s'.buf c).dirty = (s.buf c).dirty ∧
    (s'.buf c).key = (s.buf c).key ∧ (s'.buf c).data = (s.buf c).data

omit [Fintype ι] [DecidableEq ι] in
theorem SameBlocks.refl (s : BCache ι β) : SameBlocks s s := fun _ => ⟨rfl, rfl, rfl, rfl⟩

omit [Fintype ι] [DecidableEq ι] in
/-- A new reference count leaves the blocks. -/
theorem sameBlocks_refcnt (b : Fin NBUF) (n : Nat) :
    SameBlocks (s.setBuf b { s.buf b with refcnt := n }) s := fun c => by
  by_cases same : c = b
  · subst same
    simp [Buf.key]
  · simp [Function.update_of_ne same]

/-- Two states whose buffers are for the same blocks. -/
def SameKeys (s' s : BCache ι β) : Prop := ∀ c, (s'.buf c).key = (s.buf c).key

omit [Fintype ι] [DecidableEq ι] in
theorem SameBlocks.sameKeys (blocks : SameBlocks s' s) : SameKeys s' s := fun c => (blocks c).2.2.1

omit [Fintype ι] [DecidableEq ι] in
theorem SameKeys.forBlock_eq (keys : SameKeys s' s) : forBlock s' = forBlock s := by
  funext k c
  have key := keys c
  simp only [Buf.key, Prod.mk.injEq] at key
  simp only [forBlock, key.1, key.2]

omit [Fintype ι] [DecidableEq ι] in
/-- The contents are a matter of the blocks, the holders, the disk and the ghost state. -/
theorem Coherent.frame (coh : Coherent s) (blocks : SameBlocks s' s) (disk : s'.disk = s.disk)
    (mem : s'.mem = s.mem) (modified : s'.modified = s.modified) (pinned : s'.pinned = s.pinned)
    (held : ∀ c, s.modified c = true → (s'.locked c).isSome = true) : Coherent s' where
  dirtyValid c dirty := by
    rw [(blocks c).1]
    exact coh.dirtyValid c ((blocks c).2.1 ▸ dirty)
  pinnedDirty c pin := by
    rw [(blocks c).2.1]
    exact coh.pinnedDirty c (pinned ▸ pin)
  modifiedHeld c mod := held c (modified ▸ mod)
  dataMem c valid := by
    rw [(blocks c).2.2.2, (blocks c).2.2.1, mem]
    exact coh.dataMem c ((blocks c).1 ▸ valid)
  clean c valid notDirty notModified := by
    rw [(blocks c).2.2.2, (blocks c).2.2.1, disk]
    exact coh.clean c ((blocks c).1 ▸ valid) ((blocks c).2.1 ▸ notDirty) (modified ▸ notModified)
  uncached k none := by
    rw [disk, mem]
    exact coh.uncached k fun c valid => (blocks c).2.2.1 ▸ none c ((blocks c).1.symm ▸ valid)

omit [Fintype ι] [DecidableEq ι] in
/-- The order is a matter of the pointers, the blocks, and which buffers answer for them. -/
theorem Ordered.frame {order : List (Fin NBUF)} (ord : Ordered s order) (keys : SameKeys s' s)
    (next : s'.next = s.next) (prev : s'.prev = s.prev) (live : ∀ c, Live s' c → Live s c) :
    Ordered s' order where
  links := next ▸ prev ▸ ord.links
  complete := ord.complete
  first c liveC := by
    rw [keys.forBlock_eq, keys c]
    exact ord.first c (live c liveC)

omit [DecidableEq ι] in
/-- A panic stops the cache as it stands. -/
theorem CacheInv.of_panic (ordered : ∃ order, Ordered s order) (counted : Counted s)
    (coherent : Coherent s) (message : String) : CacheInv (s.panic message) where
  ordered := by
    obtain ⟨order, ord⟩ := ordered
    exact ⟨order, ord.links, ord.complete, ord.first⟩
  counted := ⟨counted.refcnt, counted.waiting, counted.nodup, counted.queued⟩
  coherent := ⟨coherent.dirtyValid, coherent.pinnedDirty, coherent.modifiedHeld,
    coherent.dataMem, coherent.clean, coherent.uncached⟩
  heldValid running := by simp at running

omit [DecidableEq ι] in
theorem CacheInv.panic (inv : CacheInv s) (message : String) : CacheInv (s.panic message) :=
  CacheInv.of_panic inv.ordered inv.counted inv.coherent message

omit [DecidableEq ι] in
/-- The log's bookkeeping leaves the cache. -/
theorem CacheInv.withLog (inv : CacheInv s) (log : Log) : CacheInv { s with log := log } where
  ordered := by
    obtain ⟨order, ord⟩ := inv.ordered
    exact ⟨order, ord.links, ord.complete, ord.first⟩
  counted := ⟨inv.counted.refcnt, inv.counted.waiting, inv.counted.nodup, inv.counted.queued⟩
  coherent := ⟨inv.coherent.dirtyValid, inv.coherent.pinnedDirty, inv.coherent.modifiedHeld,
    inv.coherent.dataMem, inv.coherent.clean, inv.coherent.uncached⟩
  heldValid := inv.heldValid

omit [DecidableEq ι] in
/-- `idestart` starts the request or panics. -/
theorem CacheInv.of_idestart (inv : CacheInv s) (b : Fin NBUF) : CacheInv (idestart s b) := by
  unfold idestart
  split
  · exact inv.panic _
  · exact inv

/-- Moving a process changes the count of those acquiring a buffer by its old and new places. -/
theorem acquirers_setPc (p : ι) (pc : BufPc) (b : Fin NBUF) :
    acquirers (s.setPc p pc) b + (if s.pc p = .acquiring b then 1 else 0) =
      acquirers s b + if pc = .acquiring b then 1 else 0 :=
  sum_comp_update (fun q : BufPc => if q = .acquiring b then 1 else 0) s.pc p pc

/-- Moving a process between two places where it acquires no buffer leaves the counts. -/
theorem acquirers_setPc_of_not_acquiring {p : ι} {pc : BufPc}
    (before : ∀ c, s.pc p ≠ .acquiring c) (after : ∀ c, pc ≠ .acquiring c) (b : Fin NBUF) :
    acquirers (s.setPc p pc) b = acquirers s b := by
  have moved := acquirers_setPc (s := s) p pc b
  simpa [before b, after b] using moved

end Frame

section Bget

variable {p : ι} {dev blockno : Nat} {b : Fin NBUF}

omit [Fintype ι] [DecidableEq ι] in
/-- The buffer `bget`'s lookup returns is for the block. -/
theorem key_of_lookup (found : s.lookup dev blockno = some b) : (s.buf b).key = (dev, blockno) :=
  forBlock_eq_true.mp (test_of_scan found)

omit [Fintype ι] [DecidableEq ι] in
/-- The buffer `bget` recycles is unreferenced and not dirty. -/
theorem reusable_of_victim (chosen : s.victim = some b) :
    (s.buf b).refcnt = 0 ∧ (s.buf b).dirty = false :=
  reusable_eq_true.mp (test_of_scan chosen)

/-- Handing a buffer to an idle process counts one more acquirer for it and no other. -/
theorem acquirers_claim (idle : s.pc p = .idle) (x : Buf β) (c : Fin NBUF) :
    acquirers ((s.setBuf b x).setPc p (.acquiring b)) c = acquirers s c + if b = c then 1 else 0 := by
  have moved : acquirers ((s.setBuf b x).setPc p (.acquiring b)) c +
      (if s.pc p = .acquiring c then 1 else 0) =
        acquirers s c + if BufPc.acquiring b = .acquiring c then 1 else 0 :=
    acquirers_setPc (s := s.setBuf b x) p _ c
  simpa [idle] using moved

omit [Fintype ι] in
/-- A process waiting after a buffer is handed to another one waited before. -/
theorem waiting_of_claim (x : Buf β) {q : ι} {c : Fin NBUF}
    (waiting : ((s.setBuf b x).setPc p (.acquiring b)).pc q = .waiting c) :
    q ≠ p ∧ s.pc q = .waiting c := by
  have other : q ≠ p := fun same => by simp [same] at waiting
  exact ⟨other, by simpa [Function.update_of_ne other] using waiting⟩

omit [Fintype ι] in
/-- A process that waited before still waits after a buffer is handed to an idle one. -/
theorem claim_waiting (idle : s.pc p = .idle) (x : Buf β) {q : ι} {c : Fin NBUF}
    (waiting : s.pc q = .waiting c) : ((s.setBuf b x).setPc p (.acquiring b)).pc q = .waiting c := by
  have other : q ≠ p := fun same => by rw [same, idle] at waiting; cases waiting
  simpa [Function.update_of_ne other] using waiting

omit [Fintype ι] in
/-- A process not waiting on `c` after a buffer is handed to an idle one was not waiting on it
before. -/
theorem not_waiting_of_claim (idle : s.pc p = .idle) (x : Buf β) {q : ι} {c : Fin NBUF}
    (after : ((s.setBuf b x).setPc p (.acquiring b)).pc q ≠ .waiting c) : s.pc q ≠ .waiting c :=
  fun waiting => after (claim_waiting idle x waiting)

/-- `bget` on a cached block counts one more reference to its buffer. -/
theorem inv_bget_hit (inv : CacheInv s) (idle : s.pc p = .idle)
    (found : s.lookup dev blockno = some b) :
    CacheInv ((s.setBuf b { s.buf b with refcnt := (s.buf b).refcnt + 1 }).setPc p
      (.acquiring b)) := by
  obtain ⟨order, ord⟩ := inv.ordered
  have cnt := inv.counted
  set x : Buf β := { s.buf b with refcnt := (s.buf b).refcnt + 1 } with hx
  have blocks : SameBlocks ((s.setBuf b x).setPc p (.acquiring b)) s := sameBlocks_refcnt b _
  have bufOther : ∀ c, c ≠ b → ((s.setBuf b x).setPc p (.acquiring b)).buf c = s.buf c :=
    fun c other => by simp [Function.update_of_ne other]
  refine ⟨⟨order, ord.links, ord.complete, fun c live => ?_⟩, ⟨fun c => ?_, fun q c waiting => ?_,
    cnt.nodup, fun c queued => ?_⟩, inv.coherent.frame blocks rfl rfl rfl rfl
    inv.coherent.modifiedHeld, fun running c q held after => ?_⟩
  · rw [blocks.sameKeys.forBlock_eq, (blocks c).2.2.1]
    by_cases same : c = b
    · subst same
      rw [key_of_lookup found, ← ord.lookup]
      exact found
    · exact ord.first c (by rwa [Live, bufOther c same] at live)
  · have old := cnt.refcnt c
    simp only [users, acquirers_claim idle x] at old ⊢
    by_cases same : c = b
    · subst same
      simp [hx, old]
      omega
    · rw [bufOther c same, if_neg (Ne.symm same), old]
      rfl
  · obtain ⟨held, unmodified, progress⟩ := cnt.waiting q c (waiting_of_claim x waiting).2
    refine ⟨held, unmodified, progress.imp id fun done => ?_⟩
    exact ⟨(blocks c).1 ▸ done.1, (blocks c).2.1 ▸ done.2⟩
  · obtain ⟨⟨q, held, waiting⟩, notDone⟩ := cnt.queued c queued
    refine ⟨⟨q, held, claim_waiting idle x waiting⟩, fun done => notDone ?_⟩
    exact ⟨(blocks c).1 ▸ done.1, (blocks c).2.1 ▸ done.2⟩
  · rw [(blocks c).1]
    exact inv.heldValid running c q held (not_waiting_of_claim idle x after)

/-- The buffer `bget` recycles for a block, as it stands after. -/
abbrev recycled (s : BCache ι β) (b : Fin NBUF) (dev blockno : Nat) : Buf β :=
  { s.buf b with dev := dev, blockno := blockno, valid := false, dirty := false, refcnt := 1 }

omit [Fintype ι] in
/-- A buffer recycled for a block that no buffer is for is the only one for it, and every other
buffer that answers for its block stays the first for it. -/
theorem Ordered.recycle {order : List (Fin NBUF)} (ord : Ordered s order)
    (missed : s.lookup dev blockno = none) (pc : BufPc) :
    Ordered ((s.setBuf b (recycled s b dev blockno)).setPc p pc) order := by
  have absent : ∀ c, (s.buf c).key ≠ (dev, blockno) := fun c same => by
    rw [ord.lookup, List.find?_eq_none] at missed
    exact absurd (forBlock_eq_true.mpr same) (by simpa using missed c (ord.complete c))
  have bufOther : ∀ c, c ≠ b → ((s.setBuf b (recycled s b dev blockno)).setPc p pc).buf c =
      s.buf c := fun c other => by simp [Function.update_of_ne other]
  have bufSelf : ((s.setBuf b (recycled s b dev blockno)).setPc p pc).buf b =
      recycled s b dev blockno := by simp
  refine ⟨ord.links, ord.complete, fun c live => ?_⟩
  by_cases same : c = b
  · subst same
    rw [bufSelf]
    refine find?_of_unique (ord.complete c) (forBlock_eq_true.mpr (by rw [bufSelf]))
      fun x _ hit => ?_
    by_contra other
    rw [forBlock_eq_true, bufOther x other] at hit
    exact absent x hit
  · rw [bufOther c same]
    rw [Live, bufOther c same] at live
    refine find?_of_imp (ord.first c live) (fun x hit => ?_)
      (forBlock_eq_true.mpr (by rw [bufOther c same]))
    by_cases atB : x = b
    · subst atB
      rw [forBlock_eq_true, bufSelf] at hit
      exact absurd hit.symm (absent c)
    · rwa [forBlock_eq_true, bufOther x atB, ← forBlock_eq_true] at hit

omit [Fintype ι] in
/-- Recycling an unreferenced clean buffer that no one holds keeps the contents: the buffer is not
valid after, and the block it held before is on disk as last written. -/
theorem Coherent.recycle (coh : Coherent s) (free : s.locked b = none)
    (notDirty : (s.buf b).dirty = false) (pc : BufPc) :
    Coherent ((s.setBuf b (recycled s b dev blockno)).setPc p pc) := by
  have unmodified : s.modified b = false := by
    cases mod : s.modified b with
    | false => rfl
    | true => simpa [free] using coh.modifiedHeld b mod
  have unpinned : s.pinned b = false := by
    cases pin : s.pinned b with
    | false => rfl
    | true => simpa [notDirty] using coh.pinnedDirty b pin
  have bufOther : ∀ c, c ≠ b → ((s.setBuf b (recycled s b dev blockno)).setPc p pc).buf c =
      s.buf c := fun c other => by simp [Function.update_of_ne other]
  refine ⟨fun c dirty => ?_, fun c pin => ?_, fun c mod => ?_, fun c valid => ?_,
    fun c valid clean notModified => ?_, fun k none => ?_⟩
  · by_cases same : c = b
    · subst same
      simp at dirty
    · rw [bufOther c same] at dirty ⊢
      exact coh.dirtyValid c dirty
  · by_cases same : c = b
    · subst same
      simp [unpinned] at pin
    · rw [bufOther c same]
      exact coh.pinnedDirty c pin
  · by_cases same : c = b
    · subst same
      simp [unmodified] at mod
    · exact coh.modifiedHeld c mod
  · by_cases same : c = b
    · subst same
      simp at valid
    · rw [bufOther c same] at valid ⊢
      exact coh.dataMem c valid
  · by_cases same : c = b
    · subst same
      simp at valid
    · rw [bufOther c same] at valid clean ⊢
      exact coh.clean c valid clean notModified
  · by_cases held : (s.buf b).valid = true ∧ (s.buf b).key = k
    · obtain ⟨valid, rfl⟩ := held
      show s.disk (s.buf b).key = s.mem (s.buf b).key
      rw [coh.clean b valid notDirty unmodified, coh.dataMem b valid]
    · refine coh.uncached k fun c valid => ?_
      by_cases same : c = b
      · subst same
        exact fun key => held ⟨valid, key⟩
      · have other := none c
        rw [bufOther c same] at other
        exact other valid

/-- `bget` on a block that is not cached recycles an unreferenced clean buffer for it. -/
theorem inv_bget_recycle (inv : CacheInv s) (idle : s.pc p = .idle)
    (missed : s.lookup dev blockno = none) (chosen : s.victim = some b) :
    CacheInv ((s.setBuf b
      { s.buf b with dev := dev, blockno := blockno, valid := false, dirty := false,
                     refcnt := 1 }).setPc p (.acquiring b)) := by
  obtain ⟨order, ord⟩ := inv.ordered
  have cnt := inv.counted
  have reuse := reusable_of_victim chosen
  have free := cnt.free_of_refcnt reuse.1
  have notQueued := cnt.not_queued_of_free free.1
  have noWaiter : ∀ q, s.pc q ≠ .waiting b := cnt.no_waiter (fun q held => by
    rw [free.1] at held; cases held)
  have bufOther : ∀ c, c ≠ b →
      ((s.setBuf b (recycled s b dev blockno)).setPc p (.acquiring b)).buf c = s.buf c :=
    fun c other => by simp [Function.update_of_ne other]
  refine ⟨⟨order, ord.recycle missed _⟩, ⟨fun c => ?_, fun q c waiting => ?_, cnt.nodup,
    fun c queued => ?_⟩, inv.coherent.recycle free.1 reuse.2 _, fun running c q held after => ?_⟩
  · have old := cnt.refcnt c
    simp only [users, acquirers_claim idle] at old ⊢
    by_cases same : c = b
    · subst same
      have noAcquirer : acquirers s c = 0 := by
        rw [reuse.1] at old
        omega
      simp [noAcquirer, free.1]
    · rw [bufOther c same, if_neg (Ne.symm same), old]
      rfl
  · have before := (waiting_of_claim _ waiting).2
    have notB : c ≠ b := fun same => noWaiter q (same ▸ before)
    obtain ⟨held, unmod, progress⟩ := cnt.waiting q c before
    exact ⟨held, unmod, by simpa [Done, Function.update_of_ne notB] using progress⟩
  · have notB : c ≠ b := fun same => notQueued (same ▸ queued)
    obtain ⟨⟨q, held, waiting⟩, notDone⟩ := cnt.queued c queued
    exact ⟨⟨q, held, claim_waiting idle _ waiting⟩,
      by simpa [Done, Function.update_of_ne notB] using notDone⟩
  · have notB : c ≠ b := fun same => by rw [same] at held; simp [free.1] at held
    rw [bufOther c notB]
    exact inv.heldValid running c q held (not_waiting_of_claim idle _ after)

end Bget

section Request

variable {p : ι} {b : Fin NBUF}

/-- `bget` leaves the state as it is, recycles or counts a buffer, or panics. -/
theorem inv_bget (inv : CacheInv s) (idle : s.pc p = .idle) (dev blockno : Nat) :
    CacheInv (bget s p dev blockno) := by
  unfold bget
  cases found : s.lookup dev blockno with
  | some b => exact inv_bget_hit inv idle found
  | none =>
    cases chosen : s.victim with
    | some b => exact inv_bget_recycle inv idle found chosen
    | none => exact inv.panic _

/-- `iderw` on a buffer its running caller holds and that has something to do: the request is
queued and the caller sleeps on it, or the kernel panics. The holder's other buffers must be
valid; this one need not be. -/
theorem inv_iderw_of {t : BCache ι β} {order : List (Fin NBUF)} (ord : Ordered t order)
    (cnt : Counted t) (coh : Coherent t)
    (others : t.panicked = none → ∀ c q, t.locked c = some q → t.pc q ≠ .waiting c → c ≠ b →
      (t.buf c).valid = true)
    (held : t.locked b = some p) (idle : t.pc p = .idle) (notQueued : b ∉ t.idequeue)
    (notDone : ¬Done t b) (unmodified : t.modified b = false) : CacheInv (iderw t p b) := by
  set u := { t with idequeue := t.idequeue ++ [b] }.setPc p (.waiting b) with hu
  have pcOther : ∀ q, q ≠ p → u.pc q = t.pc q := fun q other => by
    simp [hu, Function.update_of_ne other]
  have pcSelf : u.pc p = .waiting b := by simp [hu]
  have enqueued : CacheInv u := by
    refine ⟨⟨order, ord.frame (fun _ => rfl) rfl rfl fun _ => id⟩, ⟨fun c => ?_,
      fun q c waiting => ?_, ?_, fun c queued => ?_⟩,
      coh.frame (SameBlocks.refl t) rfl rfl rfl rfl coh.modifiedHeld,
      fun running c q heldC notWaiting => ?_⟩
    · have moved : acquirers u c = acquirers t c :=
        acquirers_setPc_of_not_acquiring (s := { t with idequeue := t.idequeue ++ [b] })
          (by simp [idle]) (fun _ => BufPc.noConfusion) c
      show (t.buf c).refcnt = acquirers u c + _
      rw [moved, cnt.refcnt c]
      rfl
    · by_cases same : q = p
      · subst same
        rw [pcSelf] at waiting
        cases waiting
        exact ⟨held, unmodified, Or.inl (List.mem_append_right _ (List.mem_singleton_self b))⟩
      · rw [pcOther q same] at waiting
        obtain ⟨heldC, unmod, progress⟩ := cnt.waiting q c waiting
        exact ⟨heldC, unmod, progress.imp (List.mem_append_left _) id⟩
    · refine List.nodup_append.mpr ⟨cnt.nodup, List.nodup_singleton b, fun x mem y single => ?_⟩
      rw [List.mem_singleton.mp single]
      exact fun same => notQueued (same ▸ mem)
    · rcases List.mem_append.mp queued with old | single
      · obtain ⟨⟨q, heldC, waiting⟩, stillQueued⟩ := cnt.queued c old
        have other : q ≠ p := fun same => by rw [same, idle] at waiting; cases waiting
        exact ⟨⟨q, heldC, by rw [pcOther q other]; exact waiting⟩, stillQueued⟩
      · rw [List.mem_singleton.mp single]
        exact ⟨⟨p, held, pcSelf⟩, notDone⟩
    · by_cases same : q = p
      · subst same
        have notB : c ≠ b := fun atB => notWaiting (by rw [pcSelf, atB])
        exact others running c q heldC (by rw [idle]; exact BufPc.noConfusion) notB
      · have notB : c ≠ b := fun atB => by
          rw [atB] at heldC
          exact same (Option.some.inj (heldC.symm.trans held))
        exact others running c q heldC (by rwa [pcOther q same] at notWaiting) notB
  unfold iderw
  rw [if_neg (not_not.mpr held), if_neg (by simpa [Done] using notDone)]
  split
  · exact CacheInv.of_panic ⟨order, ord⟩ cnt coh _
  · dsimp only
    split
    · exact enqueued.of_idestart b
    · exact enqueued

/-- `acquiresleep`: the caller sleeps while the buffer is held; once it holds the buffer, `bread`
returns a valid one and reads any other. The caller's other buffers were valid while it slept on the
lock. -/
theorem inv_acquire (inv : CacheInv s) (p : ι) : CacheInv (acquireStep s p) := by
  unfold acquireStep
  cases pc : s.pc p with
  | idle => exact inv
  | waiting b => exact inv
  | acquiring b =>
    dsimp only
    by_cases busy : (s.locked b).isSome = true
    · rw [if_pos busy]
      exact inv
    rw [if_neg busy]
    have free : s.locked b = none := Option.not_isSome_iff_eq_none.mp busy
    obtain ⟨order, ord⟩ := inv.ordered
    have cnt := inv.counted
    have coh := inv.coherent
    set t := { s with locked := Function.update s.locked b (some p) }.setPc p .idle with ht
    have pcOther : ∀ q, q ≠ p → t.pc q = s.pc q := fun q other => by
      simp [ht, Function.update_of_ne other]
    have pcSelf : t.pc p = .idle := by simp [ht]
    have lockedOther : ∀ c, c ≠ b → t.locked c = s.locked c := fun c other => by
      simp [ht, Function.update_of_ne other]
    have lockedSelf : t.locked b = some p := by simp [ht]
    have notQueued := cnt.not_queued_of_free free
    have unmodified : s.modified b = false := by
      cases mod : s.modified b with
      | false => rfl
      | true => simpa [free] using coh.modifiedHeld b mod
    have ordT : Ordered t order := ord.frame (fun _ => rfl) rfl rfl fun _ => id
    have cohT : Coherent t := coh.frame (SameBlocks.refl s) rfl rfl rfl rfl fun c mod => by
      by_cases same : c = b
      · rw [same, lockedSelf]
        rfl
      · rw [lockedOther c same]
        exact coh.modifiedHeld c mod
    have cntT : Counted t := by
      refine ⟨fun c => ?_, fun q c waiting => ?_, cnt.nodup, fun c queued => ?_⟩
      · have moved : acquirers t c + (if s.pc p = .acquiring c then 1 else 0) =
            acquirers s c + if BufPc.idle = .acquiring c then 1 else 0 :=
          acquirers_setPc (s := { s with locked := Function.update s.locked b (some p) }) p _ c
        simp only [pc, BufPc.acquiring.injEq, reduceCtorEq, if_false, add_zero] at moved
        show (s.buf c).refcnt = acquirers t c + _
        rw [cnt.refcnt c, users, ← moved]
        by_cases same : c = b
        · subst same
          simp [lockedSelf, free]
        · simp [lockedOther c same, Ne.symm same]
      · have other : q ≠ p := fun same => by rw [same, pcSelf] at waiting; cases waiting
        rw [pcOther q other] at waiting
        obtain ⟨heldC, unmod, progress⟩ := cnt.waiting q c waiting
        have notB : c ≠ b := fun same => by rw [same, free] at heldC; cases heldC
        exact ⟨by rw [lockedOther c notB]; exact heldC, unmod, progress⟩
      · obtain ⟨⟨q, heldC, waiting⟩, notDone⟩ := cnt.queued c queued
        have notB : c ≠ b := fun same => notQueued (same ▸ queued)
        have other : q ≠ p := fun same => by rw [same, pc] at waiting; cases waiting
        exact ⟨⟨q, by rw [lockedOther c notB]; exact heldC, by rw [pcOther q other]; exact waiting⟩,
          notDone⟩
    have others : t.panicked = none → ∀ c q, t.locked c = some q → t.pc q ≠ .waiting c → c ≠ b →
        (t.buf c).valid = true := fun running c q heldC notWaiting notB => by
      rw [lockedOther c notB] at heldC
      by_cases same : q = p
      · subst same
        exact inv.heldValid running c q heldC (by rw [pc]; exact BufPc.noConfusion)
      · exact inv.heldValid running c q heldC (by rwa [pcOther q same] at notWaiting)
    by_cases valid : (t.buf b).valid = true
    · rw [if_pos valid]
      refine ⟨⟨order, ordT⟩, cntT, cohT, fun running c q heldC notWaiting => ?_⟩
      by_cases same : c = b
      · rw [same]
        exact valid
      · exact others running c q heldC notWaiting same
    · rw [if_neg valid]
      exact inv_iderw_of ordT cntT cohT others lockedSelf pcSelf notQueued
        (fun done => valid done.1) unmodified

end Request

section Disk

variable {p : ι} {b : Fin NBUF}

/-- A test of `iderw`'s loop returns once the request is done. -/
theorem inv_wake (inv : CacheInv s) (p : ι) : CacheInv (wakeStep s p) := by
  unfold wakeStep
  cases pc : s.pc p with
  | idle => exact inv
  | acquiring b => exact inv
  | waiting b =>
    dsimp only
    by_cases finished : ((s.buf b).valid && !(s.buf b).dirty) = true
    swap
    · rw [if_neg finished]
      exact inv
    rw [if_pos finished]
    have done : Done s b := by simpa [Done] using finished
    obtain ⟨order, ord⟩ := inv.ordered
    have cnt := inv.counted
    have notQueued : b ∉ s.idequeue := fun queued => (cnt.queued b queued).2 done
    have pcOther : ∀ q, q ≠ p → (s.setPc p .idle).pc q = s.pc q := fun q other => by
      simp [Function.update_of_ne other]
    refine ⟨⟨order, ord.frame (fun _ => rfl) rfl rfl fun _ => id⟩, ⟨fun c => ?_,
      fun q c waiting => ?_, cnt.nodup, fun c queued => ?_⟩,
      inv.coherent.frame (SameBlocks.refl s) rfl rfl rfl rfl inv.coherent.modifiedHeld,
      fun running c q held notWaiting => ?_⟩
    · have moved : acquirers (s.setPc p .idle) c = acquirers s c :=
        acquirers_setPc_of_not_acquiring (by simp [pc]) (fun _ => BufPc.noConfusion) c
      show (s.buf c).refcnt = acquirers _ c + _
      rw [moved, cnt.refcnt c]
      rfl
    · have other : q ≠ p := fun same => by simp [same] at waiting
      rw [pcOther q other] at waiting
      exact cnt.waiting q c waiting
    · obtain ⟨⟨q, held, waiting⟩, notDone⟩ := cnt.queued c queued
      have other : q ≠ p := fun same => by
        rw [same, pc] at waiting
        cases waiting
        exact notQueued queued
      exact ⟨⟨q, held, by rw [pcOther q other]; exact waiting⟩, notDone⟩
    · by_cases same : q = p
      · subst same
        by_cases atB : c = b
        · rw [atB]
          exact done.1
        · exact inv.heldValid running c q held (by rw [pc]; simpa using Ne.symm atB)
      · exact inv.heldValid running c q held (by rwa [pcOther q same] at notWaiting)

omit [DecidableEq ι] in
/-- The interrupt for the request at the head of the queue, as a specification: the buffer is valid
and clean and holds `data`, which is the block as last written, now also on disk; its pin is gone;
the queue moves on. A valid buffer other than `b` is for another block, which the interrupt leaves
on disk. -/
theorem inv_complete (inv : CacheInv s) {rest : List (Fin NBUF)} (queue : s.idequeue = b :: rest)
    {t : BCache ι β} {data : β}
    (bufSelf : t.buf b = { s.buf b with valid := true, dirty := false, data := data })
    (bufOther : ∀ c, c ≠ b → t.buf c = s.buf c) (written : data = s.mem (s.buf b).key)
    (diskSelf : t.disk (s.buf b).key = data)
    (diskOther : ∀ k, k ≠ (s.buf b).key → t.disk k = s.disk k)
    (pinnedSelf : t.pinned b = false) (pinnedOther : ∀ c, c ≠ b → t.pinned c = s.pinned c)
    (next : t.next = s.next) (prev : t.prev = s.prev) (locked : t.locked = s.locked)
    (pcs : t.pc = s.pc) (mem : t.mem = s.mem) (modified : t.modified = s.modified)
    (panicked : t.panicked = s.panicked) (queue' : t.idequeue = rest) : CacheInv t := by
  obtain ⟨order, ord⟩ := inv.ordered
  have cnt := inv.counted
  have coh := inv.coherent
  have headQueued : b ∈ s.idequeue := queue ▸ List.mem_cons_self
  obtain ⟨⟨q, held, -⟩, -⟩ := cnt.queued b headQueued
  have liveB : Live s b := cnt.live_of_locked held
  have keys : SameKeys t s := fun c => by
    by_cases same : c = b
    · rw [same, bufSelf]
      rfl
    · rw [bufOther c same]
  have restNodup : rest.Nodup := (List.nodup_cons.mp (queue ▸ cnt.nodup)).2
  have notInRest : b ∉ rest := (List.nodup_cons.mp (queue ▸ cnt.nodup)).1
  have otherKey : ∀ c, c ≠ b → (s.buf c).valid = true → (s.buf c).key ≠ (s.buf b).key :=
    fun c other valid same => other (ord.distinct (live_of_valid valid) liveB same)
  have doneB : Done t b := by simp [Done, bufSelf]
  have doneOther : ∀ c, c ≠ b → (Done t c ↔ Done s c) := fun c other => by
    simp [Done, bufOther c other]
  refine ⟨⟨order, ord.frame keys next prev fun c live => ?_⟩, ⟨fun c => ?_, fun q c waiting => ?_,
    queue' ▸ restNodup, fun c queued => ?_⟩, ⟨fun c dirty => ?_, fun c pin => ?_,
    fun c mod => ?_, fun c valid => ?_, fun c valid notDirty notModified => ?_, fun k none => ?_⟩,
    fun running c q heldC notWaiting => ?_⟩
  · by_cases same : c = b
    · rw [same]
      exact liveB
    · rwa [Live, bufOther c same] at live
  · have users_eq : users t c = users s c := by simp [users, acquirers, pcs, locked]
    rw [users_eq, ← cnt.refcnt c]
    by_cases same : c = b
    · rw [same, bufSelf]
    · rw [bufOther c same]
  · rw [pcs] at waiting
    obtain ⟨heldC, unmod, progress⟩ := cnt.waiting q c waiting
    refine ⟨locked ▸ heldC, modified ▸ unmod, ?_⟩
    by_cases same : c = b
    · rw [same]
      exact Or.inr doneB
    · rw [queue', doneOther c same]
      rw [queue] at progress
      exact progress.imp (fun mem => (List.mem_cons.mp mem).resolve_left same) id
  · rw [queue'] at queued
    have other : c ≠ b := fun same => notInRest (same ▸ queued)
    obtain ⟨⟨q', heldC, waiting⟩, notDone⟩ := cnt.queued c (queue ▸ List.mem_cons_of_mem _ queued)
    exact ⟨⟨q', locked ▸ heldC, pcs ▸ waiting⟩, by rwa [doneOther c other]⟩
  · by_cases same : c = b
    · rw [same, bufSelf] at dirty
      cases dirty
    · rw [bufOther c same] at dirty ⊢
      exact coh.dirtyValid c dirty
  · by_cases same : c = b
    · rw [same, pinnedSelf] at pin
      cases pin
    · rw [pinnedOther c same] at pin
      rw [bufOther c same]
      exact coh.pinnedDirty c pin
  · rw [locked]
    exact coh.modifiedHeld c (modified ▸ mod)
  · rw [mem, keys c]
    by_cases same : c = b
    · rw [same, bufSelf]
      exact written
    · rw [bufOther c same] at valid ⊢
      exact coh.dataMem c valid
  · rw [keys c]
    by_cases same : c = b
    · rw [same, diskSelf, bufSelf]
    · rw [bufOther c same] at valid notDirty ⊢
      rw [diskOther _ (otherKey c same valid)]
      exact coh.clean c valid notDirty (modified ▸ notModified)
  · have notB : (s.buf b).key ≠ k := by
      have := none b (by rw [bufSelf])
      rwa [keys b] at this
    rw [diskOther k (Ne.symm notB), mem]
    refine coh.uncached k fun c valid => ?_
    by_cases same : c = b
    · rw [same]
      exact notB
    · have := none c (by rwa [bufOther c same])
      rwa [bufOther c same] at this
  · by_cases same : c = b
    · rw [same, bufSelf]
    · rw [bufOther c same]
      exact inv.heldValid (panicked ▸ running) c q (locked ▸ heldC) (pcs ▸ notWaiting)

omit [DecidableEq ι] in
/-- The interrupt's work on the head of the queue keeps the invariant, as a write of a dirty buffer
or a read into a clean one. A write takes the data to the disk; a read takes the block from the
disk, where no valid buffer holds it. -/
theorem inv_ideDone (inv : CacheInv s) {rest : List (Fin NBUF)} (queue : s.idequeue = b :: rest) :
    CacheInv { ideDone s b with idequeue := rest } := by
  have cnt := inv.counted
  have coh := inv.coherent
  obtain ⟨order, ord⟩ := inv.ordered
  obtain ⟨⟨q, held, -⟩, notDone⟩ := cnt.queued b (queue ▸ List.mem_cons_self)
  unfold ideDone
  by_cases dirty : (s.buf b).dirty = true
  · simp only [dirty, if_true]
    exact inv_complete inv queue
      (show _ = { s.buf b with valid := true, dirty := false, data := (s.buf b).data } by simp)
      (fun c other => by simp [Function.update_of_ne other])
      (coh.dataMem b (coh.dirtyValid b dirty)) (by simp)
      (fun k other => by simp [Function.update_of_ne other]) (by simp)
      (fun c other => by simp [Function.update_of_ne other]) rfl rfl rfl rfl rfl rfl rfl rfl
  · have clean : (s.buf b).dirty = false := by simpa using dirty
    have invalid : (s.buf b).valid = false := by simpa [Done, clean] using notDone
    have onDisk : s.disk (s.buf b).key = s.mem (s.buf b).key := by
      refine coh.uncached _ fun c valid same => ?_
      have atB := ord.distinct (live_of_valid valid) (cnt.live_of_locked held) same
      rw [atB, invalid] at valid
      cases valid
    have unpinned : s.pinned b = false := by
      cases pin : s.pinned b with
      | false => rfl
      | true => simpa [clean] using coh.pinnedDirty b pin
    simp only [clean, Bool.false_eq_true, if_false]
    exact inv_complete inv queue
      (show _ = { s.buf b with valid := true, dirty := false, data := s.disk (s.buf b).key } by
        simp)
      (fun c other => by simp [Function.update_of_ne other]) onDisk (by simp)
      (fun _ _ => rfl) unpinned (fun _ _ => rfl) rfl rfl rfl rfl rfl rfl rfl rfl

omit [DecidableEq ι] in
/-- `ideintr`: the request at the head completes and the next one starts. -/
theorem inv_ideintr (inv : CacheInv s) : CacheInv (ideintr s) := by
  unfold ideintr
  cases queue : s.idequeue with
  | nil => exact inv
  | cons b rest =>
    have completed := inv_ideDone inv queue
    cases rest with
    | nil => exact completed
    | cons c rest => exact completed.of_idestart c

end Disk

section Holder

variable {p : ι} {b : Fin NBUF}

omit [DecidableEq ι] in
/-- A buffer its running holder uses is valid, unqueued and waited on by no one. -/
theorem CacheInv.held (inv : CacheInv s) (running : s.panicked = none)
    (held : s.locked b = some p) (idle : s.pc p = .idle) :
    (s.buf b).valid = true ∧ b ∉ s.idequeue ∧ ∀ q, s.pc q ≠ .waiting b :=
  ⟨inv.heldValid running b p held (by rw [idle]; exact BufPc.noConfusion),
    inv.counted.not_queued_of_idle held idle,
    inv.counted.no_waiter fun q heldQ => by rw [held] at heldQ; cases heldQ; exact idle⟩

omit [DecidableEq ι] in
/-- Setting B_DIRTY on a buffer its running holder uses, as `bwrite` and `log_write` do, with
the change recorded and the pin set or kept. -/
theorem inv_markDirty (inv : CacheInv s) (running : s.panicked = none)
    (held : s.locked b = some p) (idle : s.pc p = .idle) (log : Log) (pinned : Fin NBUF → Bool)
    (pins : ∀ c, pinned c = true → c = b ∨ s.pinned c = true) :
    CacheInv { s.setBuf b { s.buf b with dirty := true } with
      log := log, modified := Function.update s.modified b false, pinned := pinned } := by
  obtain ⟨valid, notQueued, noWaiter⟩ := inv.held running held idle
  obtain ⟨order, ord⟩ := inv.ordered
  have cnt := inv.counted
  have coh := inv.coherent
  set t := { s.setBuf b { s.buf b with dirty := true } with
      log := log, modified := Function.update s.modified b false, pinned := pinned } with ht
  have bufOther : ∀ c, c ≠ b → t.buf c = s.buf c := fun c other => by
    simp [ht, Function.update_of_ne other]
  have bufSelf : t.buf b = { s.buf b with dirty := true } := by simp [ht]
  have modifiedOther : ∀ c, c ≠ b → t.modified c = s.modified c := fun c other => by
    simp [ht, Function.update_of_ne other]
  have keys : SameKeys t s := fun c => by
    by_cases same : c = b
    · rw [same, bufSelf]
      rfl
    · rw [bufOther c same]
  have sameValid : ∀ c, (t.buf c).valid = (s.buf c).valid := fun c => by
    by_cases same : c = b
    · rw [same, bufSelf]
    · rw [bufOther c same]
  refine ⟨⟨order, ord.frame keys rfl rfl fun c live => ?_⟩, ⟨fun c => ?_, fun q c waiting => ?_,
    cnt.nodup, fun c queued => ?_⟩, ⟨fun c dirty => ?_, fun c pin => ?_, fun c mod => ?_,
    fun c validC => ?_, fun c validC notDirty notModified => ?_, fun k none => ?_⟩,
    fun running' c q heldC notWaiting => ?_⟩
  · by_cases same : c = b
    · rw [same]
      exact live_of_valid valid
    · rwa [Live, bufOther c same] at live
  · show (t.buf c).refcnt = users s c
    rw [← cnt.refcnt c]
    by_cases same : c = b
    · rw [same, bufSelf]
    · rw [bufOther c same]
  · have notB : c ≠ b := fun same => noWaiter q (same ▸ waiting)
    obtain ⟨heldC, unmod, progress⟩ := cnt.waiting q c waiting
    refine ⟨heldC, by rw [modifiedOther c notB]; exact unmod, ?_⟩
    have sameQueue : t.idequeue = s.idequeue := rfl
    simpa [Done, bufOther c notB, sameQueue] using progress
  · have notB : c ≠ b := fun same => notQueued (same ▸ queued)
    obtain ⟨witness, notDone⟩ := cnt.queued c queued
    exact ⟨witness, by simpa [Done, bufOther c notB] using notDone⟩
  · rw [sameValid]
    by_cases same : c = b
    · rw [same]
      exact valid
    · rw [bufOther c same] at dirty
      exact coh.dirtyValid c dirty
  · rcases pins c pin with atB | old
    · rw [atB, bufSelf]
    · by_cases same : c = b
      · rw [same, bufSelf]
      · rw [bufOther c same]
        exact coh.pinnedDirty c old
  · by_cases same : c = b
    · rw [same] at mod
      simp [ht] at mod
    · rw [modifiedOther c same] at mod
      exact coh.modifiedHeld c mod
  · rw [keys c]
    by_cases same : c = b
    · rw [same, bufSelf]
      exact coh.dataMem b valid
    · rw [bufOther c same] at validC ⊢
      exact coh.dataMem c validC
  · by_cases same : c = b
    · rw [same, bufSelf] at notDirty
      cases notDirty
    · rw [bufOther c same] at validC notDirty ⊢
      exact coh.clean c validC notDirty (by rwa [modifiedOther c same] at notModified)
  · refine coh.uncached k fun c validC => ?_
    have := none c (by rwa [sameValid])
    rwa [keys c] at this
  · rw [sameValid]
    exact inv.heldValid running' c q heldC notWaiting

/-- `bwrite`: a buffer its caller holds is marked dirty and queued for the disk; one it does
not hold is a panic. -/
theorem inv_bwrite (inv : CacheInv s) (running : s.panicked = none) (idle : s.pc p = .idle)
    (b : Fin NBUF) : CacheInv (bwrite s p b) := by
  unfold bwrite
  split
  · exact inv.panic _
  · rename_i holds
    have held : s.locked b = some p := not_not.mp holds
    have marked := inv_markDirty inv running held idle s.log s.pinned fun c pin => Or.inr pin
    obtain ⟨order, ord⟩ := marked.ordered
    have notQueued := (inv.held running held idle).2.1
    exact inv_iderw_of ord marked.counted marked.coherent
      (fun running' c q heldC notWaiting _ => marked.heldValid running' c q heldC notWaiting)
      held idle notQueued (fun done => by simp [Done] at done) (by simp)

omit [DecidableEq ι] in
/-- `log_write` on a buffer its caller holds pins it, or panics. -/
theorem inv_logWriteStep (inv : CacheInv s) (running : s.panicked = none)
    (held : s.locked b = some p) (idle : s.pc p = .idle) : CacheInv (logWriteStep s b) := by
  unfold logWriteStep
  split
  · exact inv.panic _
  · exact inv_markDirty inv running held idle _ _ fun c pin => by
      by_cases same : c = b
      · exact Or.inl same
      · exact Or.inr (by simpa [Function.update_of_ne same] using pin)

omit [DecidableEq ι] in
/-- The holder of a buffer changes its data: the block's contents as last written change with
it. -/
theorem inv_modify (inv : CacheInv s) (running : s.panicked = none) (held : s.locked b = some p)
    (idle : s.pc p = .idle) (data : β) : CacheInv (modifyStep s b data) := by
  obtain ⟨valid, notQueued, noWaiter⟩ := inv.held running held idle
  obtain ⟨order, ord⟩ := inv.ordered
  have cnt := inv.counted
  have coh := inv.coherent
  set t := modifyStep s b data with ht
  have bufOther : ∀ c, c ≠ b → t.buf c = s.buf c := fun c other => by
    simp [ht, modifyStep, Function.update_of_ne other]
  have bufSelf : t.buf b = { s.buf b with data := data } := by simp [ht, modifyStep]
  have blocksExceptData : ∀ c, (t.buf c).valid = (s.buf c).valid ∧ (t.buf c).dirty =
      (s.buf c).dirty ∧ (t.buf c).key = (s.buf c).key ∧ (t.buf c).refcnt = (s.buf c).refcnt :=
    fun c => by
      by_cases same : c = b
      · rw [same, bufSelf]
        exact ⟨rfl, rfl, rfl, rfl⟩
      · rw [bufOther c same]
        exact ⟨rfl, rfl, rfl, rfl⟩
  have memEq : t.mem = Function.update s.mem (s.buf b).key data := by simp [ht, modifyStep]
  have modifiedOther : ∀ c, c ≠ b → t.modified c = s.modified c := fun c other => by
    simp [ht, modifyStep, Function.update_of_ne other]
  have otherKey : ∀ c, c ≠ b → (s.buf c).valid = true → (s.buf c).key ≠ (s.buf b).key :=
    fun c other validC same => other (ord.distinct (live_of_valid validC) (live_of_valid valid) same)
  have doneSame : ∀ c, Done t c ↔ Done s c := fun c => by
    simp [Done, (blocksExceptData c).1, (blocksExceptData c).2.1]
  refine ⟨⟨order, ord.frame (fun c => (blocksExceptData c).2.2.1) rfl rfl fun c live => ?_⟩,
    ⟨fun c => ?_, fun q c waiting => ?_, cnt.nodup, fun c queued => ?_⟩,
    ⟨fun c dirty => ?_, fun c pin => ?_, fun c mod => ?_, fun c validC => ?_,
      fun c validC notDirty notModified => ?_, fun k none => ?_⟩,
    fun running' c q heldC notWaiting => ?_⟩
  · rwa [Live, (blocksExceptData c).1, (blocksExceptData c).2.2.2] at live
  · rw [(blocksExceptData c).2.2.2, cnt.refcnt c]
    rfl
  · have notB : c ≠ b := fun same => noWaiter q (same ▸ waiting)
    obtain ⟨heldC, unmod, progress⟩ := cnt.waiting q c waiting
    exact ⟨heldC, by rw [modifiedOther c notB]; exact unmod, by rwa [doneSame]⟩
  · obtain ⟨witness, notDone⟩ := cnt.queued c queued
    exact ⟨witness, by rwa [doneSame]⟩
  · rw [(blocksExceptData c).1]
    exact coh.dirtyValid c ((blocksExceptData c).2.1 ▸ dirty)
  · rw [(blocksExceptData c).2.1]
    exact coh.pinnedDirty c pin
  · by_cases same : c = b
    · show (s.locked c).isSome = true
      rw [same, held]
      rfl
    · rw [modifiedOther c same] at mod
      exact coh.modifiedHeld c mod
  · rw [memEq, (blocksExceptData c).2.2.1]
    by_cases same : c = b
    · rw [same, bufSelf, Function.update_self]
    · rw [(blocksExceptData c).1] at validC
      rw [bufOther c same, Function.update_of_ne (otherKey c same validC)]
      exact coh.dataMem c validC
  · by_cases same : c = b
    · rw [same] at notModified
      simp [ht, modifyStep] at notModified
    · rw [bufOther c same] at validC notDirty ⊢
      exact coh.clean c validC notDirty (by rwa [modifiedOther c same] at notModified)
  · have notB : (s.buf b).key ≠ k := by
      have := none b (by rw [(blocksExceptData b).1]; exact valid)
      rwa [(blocksExceptData b).2.2.1] at this
    rw [memEq, Function.update_of_ne (Ne.symm notB)]
    refine coh.uncached k fun c validC => ?_
    have := none c (by rwa [(blocksExceptData c).1])
    rwa [(blocksExceptData c).2.2.1] at this
  · rw [(blocksExceptData c).1]
    exact inv.heldValid running' c q heldC notWaiting

end Holder

section Release

variable {p : ι} {b : Fin NBUF}

omit [Fintype ι] [DecidableEq ι] in
/-- `brelse`'s relinking puts a buffer that answers for its block in front of the list. -/
theorem Ordered.moveFront {order : List (Fin NBUF)} (ord : Ordered s order) (liveB : Live s b) :
    Ordered ((s.unlink b).pushFront b) (b :: order.erase b) where
  links := by
    obtain ⟨nextOff, prevOff⟩ := links_unlink ord.links (ord.complete b)
    rw [pushFront_next, pushFront_prev, unlink_next, unlink_prev]
    exact links_push (ord.links.nodup.erase b) ord.links.nodup.not_mem_erase nextOff prevOff
  complete c := by
    by_cases same : c = b
    · rw [same]
      exact List.mem_cons_self
    · exact List.mem_cons_of_mem _ ((List.mem_erase_of_ne same).mpr (ord.complete c))
  first c live := by
    change Live s c at live
    change List.find? (forBlock s (s.buf c).key) (b :: order.erase b) = some c
    rw [List.find?_cons]
    cases hit : forBlock s (s.buf c).key b with
    | true => rw [ord.distinct liveB live (forBlock_eq_true.mp hit)]
    | false => rw [find?_erase_of_not hit, ord.first c live]

omit [DecidableEq ι] in
/-- Relinking changes the pointers only. -/
theorem CacheInv.moveFront (inv : CacheInv s) {order : List (Fin NBUF)} (ord : Ordered s order)
    (liveB : Live s b) : CacheInv ((s.unlink b).pushFront b) :=
  ⟨⟨_, ord.moveFront liveB⟩, ⟨inv.counted.refcnt, inv.counted.waiting, inv.counted.nodup,
    inv.counted.queued⟩, ⟨inv.coherent.dirtyValid, inv.coherent.pinnedDirty,
    inv.coherent.modifiedHeld, inv.coherent.dataMem, inv.coherent.clean, inv.coherent.uncached⟩,
    inv.heldValid⟩

/-- `brelse` of a buffer its running caller holds, with no change left unwritten: the lock is
released, the count goes down, and an unused buffer moves to the front. -/
theorem inv_brelse (inv : CacheInv s) (running : s.panicked = none) (idle : s.pc p = .idle)
    (unmodified : s.modified b = false) : CacheInv (brelse s p b) := by
  unfold brelse
  split
  · exact inv.panic _
  rename_i holds
  have held : s.locked b = some p := not_not.mp holds
  obtain ⟨valid, notQueued, noWaiter⟩ := inv.held running held idle
  obtain ⟨order, ord⟩ := inv.ordered
  have cnt := inv.counted
  have coh := inv.coherent
  set t := ({ s with locked := Function.update s.locked b none } : BCache ι β).setBuf b
    { s.buf b with refcnt := (s.buf b).refcnt - 1 } with ht
  have bufOther : ∀ c, c ≠ b → t.buf c = s.buf c := fun c other => by
    simp [ht, Function.update_of_ne other]
  have bufSelf : t.buf b = { s.buf b with refcnt := (s.buf b).refcnt - 1 } := by simp [ht]
  have lockedOther : ∀ c, c ≠ b → t.locked c = s.locked c := fun c other => by
    simp [ht, Function.update_of_ne other]
  have lockedSelf : t.locked b = none := by simp [ht]
  have blocks : SameBlocks t s := sameBlocks_refcnt (s := { s with locked := _ }) b _
  have liveT : Live t b := by
    right
    rw [bufSelf]
    exact valid
  have invT : CacheInv t := by
    refine ⟨⟨order, ord.frame blocks.sameKeys rfl rfl fun c live => ?_⟩, ⟨fun c => ?_,
      fun q c waiting => ?_, cnt.nodup, fun c queued => ?_⟩,
      coh.frame blocks rfl rfl rfl rfl fun c mod => ?_, fun running' c q heldC notWaiting => ?_⟩
    · by_cases same : c = b
      · rw [same]
        exact live_of_valid valid
      · rwa [Live, bufOther c same] at live
    · have old := cnt.refcnt c
      simp only [users] at old ⊢
      have sameAcquirers : acquirers t c = acquirers s c := rfl
      rw [sameAcquirers]
      by_cases same : c = b
      · rw [same, bufSelf, lockedSelf]
        rw [same, held] at old
        simp only [Option.isSome_some, if_true] at old
        simp only [Option.isSome_none, Bool.false_eq_true, if_false]
        omega
      · rw [bufOther c same, lockedOther c same, old]
    · have notB : c ≠ b := fun same => noWaiter q (same ▸ waiting)
      obtain ⟨heldC, unmod, progress⟩ := cnt.waiting q c waiting
      refine ⟨by rw [lockedOther c notB]; exact heldC, unmod, ?_⟩
      have sameQueue : t.idequeue = s.idequeue := rfl
      simpa [Done, bufOther c notB, sameQueue] using progress
    · have notB : c ≠ b := fun same => notQueued (same ▸ queued)
      obtain ⟨⟨q, heldC, waiting⟩, notDone⟩ := cnt.queued c queued
      exact ⟨⟨q, by rw [lockedOther c notB]; exact heldC, waiting⟩,
        by simpa [Done, bufOther c notB] using notDone⟩
    · have notB : c ≠ b := fun same => by rw [same, unmodified] at mod; cases mod
      rw [lockedOther c notB]
      exact coh.modifiedHeld c mod
    · have notB : c ≠ b := fun same => by rw [same, lockedSelf] at heldC; cases heldC
      rw [lockedOther c notB] at heldC
      rw [bufOther c notB]
      exact inv.heldValid running' c q heldC notWaiting
  obtain ⟨orderT, ordT⟩ := invT.ordered
  dsimp only
  rw [← ht]
  split
  · exact invT.moveFront ordT liveT
  · exact invT

end Release

section Boot

omit [Fintype ι] [DecidableEq ι] in
/-- `binit`'s loop pushes the buffers in front one by one: they end up linked in reverse. -/
theorem links_foldl_pushFront (buffers : List (Fin NBUF)) (t : BCache ι β)
    {order : List (Fin NBUF)} (links : Links order t.next t.prev)
    (nodup : (buffers.reverse ++ order).Nodup) :
    Links (buffers.reverse ++ order) (buffers.foldl pushFront t).next
      (buffers.foldl pushFront t).prev := by
  induction buffers generalizing t order with
  | nil => simpa using links
  | cons b rest ih =>
    have reordered : (b :: rest).reverse ++ order = rest.reverse ++ b :: order := by simp
    rw [reordered] at nodup ⊢
    have fresh : b ∉ order := (List.nodup_cons.mp (List.nodup_append.mp nodup).2.1).1
    have pushed : Links (b :: order) (t.pushFront b).next (t.pushFront b).prev := by
      rw [pushFront_next, pushFront_prev]
      exact links_push links.nodup fresh (fun x _ => by rw [links.next_eq])
        (fun x _ => by rw [links.prev_eq])
    exact ih (t.pushFront b) pushed nodup

omit [Fintype ι] [DecidableEq ι] in
/-- `binit`'s loop assigns pointers only. -/
theorem foldl_pushFront_eq (buffers : List (Fin NBUF)) (t : BCache ι β) :
    buffers.foldl pushFront t =
      { t with next := (buffers.foldl pushFront t).next,
               prev := (buffers.foldl pushFront t).prev } := by
  induction buffers generalizing t with
  | nil => rfl
  | cons b rest ih =>
    rw [List.foldl_cons, ih (t.pushFront b)]
    rfl

omit [DecidableEq ι] in
/-- `binit` on zeroed storage leaves the list of all buffers, none referenced or valid, and the
disk as every block was last written. -/
theorem inv_binit (t : BCache ι β)
    (unused : ∀ c, (t.buf c).refcnt = 0 ∧ (t.buf c).valid = false ∧ (t.buf c).dirty = false)
    (unlinked : ∀ c, t.next (some c) = none ∧ t.prev (some c) = none)
    (free : ∀ c, t.locked c = none) (idle : ∀ q, t.pc q = .idle) (queue : t.idequeue = [])
    (unmodified : ∀ c, t.modified c = false) (unpinned : ∀ c, t.pinned c = false)
    (written : t.disk = t.mem) : CacheInv (binit t) := by
  unfold binit
  rw [foldl_pushFront_eq]
  have empty : Links [] ((t.setPrev none none).setNext none none).next
      ((t.setPrev none none).setNext none none).prev := by
    refine ⟨List.nodup_nil, ?_, ?_⟩ <;>
    · funext x
      cases x <;> simp [succ, unlinked]
  have linked := links_foldl_pushFront (List.finRange NBUF) _ empty
    (by simpa using List.nodup_finRange NBUF)
  rw [List.append_nil] at linked
  refine ⟨⟨_, linked, fun c => by simp, fun c live => ?_⟩, ⟨fun c => ?_, fun q c waiting => ?_,
    by simp [queue], fun c queued => ?_⟩, ⟨fun c dirty => ?_, fun c pin => ?_, fun c mod => ?_,
    fun c valid => ?_, fun c valid => ?_, fun k _ => by simp [written]⟩, fun _ c q held => ?_⟩
  · simp [Live, unused c] at live
  · simp [users, acquirers, unused c, idle, free]
  · simp [idle] at waiting
  · simp [queue] at queued
  · simp [unused c] at dirty
  · simp [unpinned] at pin
  · simp [unmodified] at mod
  · simp [unused c] at valid
  · simp [unused c] at valid
  · simp [free] at held

omit [DecidableEq ι] in
/-- The cache as the kernel boots it. -/
theorem inv_bootCache (disk : Nat × Nat → β) (log : Log) (havedisk1 : Bool) (zero : β) :
    CacheInv (bootCache (ι := ι) disk log havedisk1 zero) :=
  inv_binit _ (fun _ => ⟨rfl, rfl, rfl⟩) (fun _ => ⟨rfl, rfl⟩) (fun _ => rfl) (fun _ => rfl) rfl
    (fun _ => rfl) (fun _ => rfl) rfl

end Boot

section Reachable

/-- Every event keeps the invariant. -/
theorem inv_bstep (inv : CacheInv s) (event : BufEvent ι β) : CacheInv (bstep s event) := by
  unfold bstep
  by_cases halted : s.panicked.isSome = true
  · rw [if_pos halted]
    exact inv
  rw [if_neg halted]
  have running : s.panicked = none := Option.not_isSome_iff_eq_none.mp halted
  cases event with
  | bread p dev blockno =>
    dsimp only
    split
    · exact inv_bget inv ‹_› dev blockno
    · exact inv
  | acquire p => exact inv_acquire inv p
  | wake p => exact inv_wake inv p
  | ideintr => exact inv_ideintr inv
  | modify p b data =>
    dsimp only
    split
    · rename_i guard
      exact inv_modify inv running guard.1 guard.2 data
    · exact inv
  | bwrite p b =>
    dsimp only
    split
    · exact inv_bwrite inv running ‹_› b
    · exact inv
  | logWrite p b =>
    dsimp only
    split
    · rename_i guard
      exact inv_logWriteStep inv running guard.1 guard.2
    · exact inv
  | brelse p b =>
    dsimp only
    split
    · rename_i guard
      exact inv_brelse inv running guard.1 (by simpa using guard.2)
    · exact inv
  | beginOp =>
    dsimp only
    split
    · exact inv.withLog _
    · exact inv
  | endOp =>
    dsimp only
    split
    · exact inv.panic _
    · exact inv.withLog _
  | commitDone =>
    dsimp only
    split
    · exact inv.withLog _
    · exact inv

/-- The invariant holds in every state reachable from `binit`. -/
theorem cacheInv_reachable {disk : Nat × Nat → β} {log : Log} {havedisk1 : Bool} {zero : β}
    (reached : Reachable bstep (bootCache disk log havedisk1 zero) s) : CacheInv s :=
  @Invariant.reachable _ _ bstep CacheInv (fun _ event inv => inv_bstep inv event) _
    (inv_bootCache disk log havedisk1 zero) s reached

end Reachable

section Keys

variable {p : ι} {b : Fin NBUF}

omit [Fintype ι] [DecidableEq ι] in
theorem idestart_buf (b : Fin NBUF) : (idestart s b).buf = s.buf := by
  unfold idestart
  split <;> rfl

omit [Fintype ι] in
theorem iderw_buf : (iderw s p b).buf = s.buf := by
  unfold iderw
  split
  · rfl
  split
  · rfl
  split
  · rfl
  dsimp only
  split
  · exact idestart_buf b
  · rfl

omit [Fintype ι] in
theorem acquireStep_buf : (acquireStep s p).buf = s.buf := by
  unfold acquireStep
  split
  · dsimp only
    split
    · rfl
    split
    · rfl
    · exact iderw_buf
  · rfl

omit [Fintype ι] in
theorem wakeStep_buf : (wakeStep s p).buf = s.buf := by
  unfold wakeStep
  split
  · split <;> rfl
  · rfl

omit [Fintype ι] [DecidableEq ι] in
/-- The interrupt changes the flags and the data of buffers, not their blocks. -/
theorem ideintr_key (c : Fin NBUF) : ((ideintr s).buf c).key = (s.buf c).key := by
  have done : ∀ b, ((ideDone s b).buf c).key = (s.buf c).key := fun b => by
    unfold ideDone
    dsimp only
    by_cases same : c = b
    · subst same
      split <;> simp [Buf.key]
    · split <;> simp [Function.update_of_ne same]
  unfold ideintr
  split
  · rfl
  · dsimp only
    split
    · exact done _
    · rw [idestart_buf]
      exact done _

omit [Fintype ι] in
/-- Only `bget`'s recycling gives a buffer another block, and it takes an unreferenced one: a
referenced buffer keeps its block. -/
theorem bstep_key (event : BufEvent ι β) (referenced : 0 < (s.buf b).refcnt) :
    ((bstep s event).buf b).key = (s.buf b).key := by
  unfold bstep
  split
  · rfl
  have refOnly : ∀ (c : Fin NBUF) (n : Nat),
      ((s.setBuf c { s.buf c with refcnt := n }).buf b).key = (s.buf b).key := fun c n => by
    by_cases same : b = c
    · subst same
      simp [Buf.key]
    · simp [Function.update_of_ne same]
  cases event with
  | bread q dev blockno =>
    dsimp only
    split
    · unfold bget
      split
      · exact refOnly _ _
      · split
        · rename_i c chosen
          have notB : b ≠ c := fun same => by
            rw [same, (reusable_of_victim chosen).1] at referenced
            cases referenced
          simp [Function.update_of_ne notB]
        · rfl
    · rfl
  | acquire q => rw [acquireStep_buf]
  | wake q => rw [wakeStep_buf]
  | ideintr => exact ideintr_key b
  | modify q c data =>
    dsimp only
    split
    · by_cases same : b = c
      · subst same
        simp [modifyStep, Buf.key]
      · simp [modifyStep, Function.update_of_ne same]
    · rfl
  | bwrite q c =>
    dsimp only
    split
    · unfold bwrite
      split
      · rfl
      · rw [iderw_buf]
        by_cases same : b = c
        · subst same
          simp [Buf.key]
        · simp [Function.update_of_ne same]
    · rfl
  | logWrite q c =>
    dsimp only
    split
    · unfold logWriteStep
      split
      · rfl
      · by_cases same : b = c
        · subst same
          simp [Buf.key]
        · simp [Function.update_of_ne same]
    · rfl
  | brelse q c =>
    dsimp only
    split
    · unfold brelse
      split
      · rfl
      · dsimp only
        split
        · exact refOnly c _
        · exact refOnly c _
    · rfl
  | beginOp =>
    dsimp only
    split <;> rfl
  | endOp =>
    dsimp only
    split <;> rfl
  | commitDone =>
    dsimp only
    split <;> rfl

omit [Fintype ι] in
/-- `bread`'s critical section in `bget` gives its caller a buffer for the block it asked for,
unless it panics. -/
theorem bread_key {dev blockno : Nat} (idle : s.pc p = .idle)
    (ok : (bstep s (.bread p dev blockno)).panicked = none) :
    ∃ b, (bstep s (.bread p dev blockno)).pc p = .acquiring b ∧
      ((bstep s (.bread p dev blockno)).buf b).key = (dev, blockno) := by
  by_cases halted : s.panicked.isSome = true
  · simp [bstep, halted] at ok
    rw [ok] at halted
    cases halted
  simp only [bstep, halted, Bool.false_eq_true, if_false, idle, if_true] at ok ⊢
  unfold bget at ok ⊢
  cases found : s.lookup dev blockno with
  | some b =>
    refine ⟨b, by simp, ?_⟩
    simp only [setPc, setBuf, Function.update_self]
    exact key_of_lookup found
  | none =>
    cases chosen : s.victim with
    | some b => exact ⟨b, by simp, by simp [Buf.key]⟩
    | none => simp [found, chosen] at ok

end Keys

section Coherence

/-- The buffer cache stays coherent. In every state reachable from `binit`, for any number of
processes and any interleaving of `bread`, `bwrite`, `brelse`, `log_write`, the log's
bookkeeping and disk interrupts, where a buffer is released only after its changes went to
`log_write` or `bwrite`:
the head and the NBUF buffers form one circular doubly-linked list through `next` and `prev`;
no two buffers that are referenced or valid are for the same block; a buffer `log_write` pinned
is B_DIRTY, so `bget` does not recycle it, until a write of it reaches the disk;
`bget` gives its caller a buffer for the block it asked for, and a referenced buffer keeps its
block; a buffer held by a process that does not wait for it to be read is valid and holds the
contents last written to its block; and a block no valid buffer holds is on disk as last
written. So `bread` returns the contents last written through the cache, or those on disk if
there were none since the block was read. -/
theorem buffer_cache_coherent {disk : Nat × Nat → β} {log : Log} {havedisk1 : Bool} {zero : β}
    (reached : Reachable bstep (bootCache disk log havedisk1 zero) s) :
    (∃ order : List (Fin NBUF), Links order s.next s.prev ∧ ∀ b, b ∈ order) ∧
    (∀ b c, Live s b → Live s c → (s.buf b).key = (s.buf c).key → b = c) ∧
    (∀ b, s.pinned b = true → (s.buf b).dirty = true ∧ s.victim ≠ some b) ∧
    (∀ p dev blockno, s.pc p = .idle → (bstep s (.bread p dev blockno)).panicked = none →
      ∃ b, (bstep s (.bread p dev blockno)).pc p = .acquiring b ∧
        ((bstep s (.bread p dev blockno)).buf b).key = (dev, blockno)) ∧
    (∀ event b, 0 < (s.buf b).refcnt → ((bstep s event).buf b).key = (s.buf b).key) ∧
    (s.panicked = none → ∀ p b, s.locked b = some p → s.pc p ≠ .waiting b →
      (s.buf b).valid = true ∧ (s.buf b).data = s.mem (s.buf b).key) ∧
    (∀ k, (∀ b, (s.buf b).valid = true → (s.buf b).key ≠ k) → s.disk k = s.mem k) := by
  have inv := cacheInv_reachable reached
  obtain ⟨order, ord⟩ := inv.ordered
  refine ⟨⟨order, ord.links, ord.complete⟩, fun b c => ord.distinct, fun b pin => ?_,
    fun p dev blockno idle ok => bread_key idle ok, fun event b referenced => bstep_key event referenced,
    fun running p b held notWaiting => ?_, inv.coherent.uncached⟩
  · have dirty := inv.coherent.pinnedDirty b pin
    refine ⟨dirty, fun chosen => ?_⟩
    rw [(reusable_of_victim chosen).2] at dirty
    cases dirty
  · have valid := inv.heldValid running b p held notWaiting
    exact ⟨valid, inv.coherent.dataMem b valid⟩

end Coherence

section Scenario

/-- The log as `initlog` leaves it on the image mkfs builds, before any FS system call. -/
def pinLog : Log :=
  { start := 2, size := LOGSIZE, outstanding := 0, committing := false
    lh := { n := 0, block := fun _ => 0 } }

/-- The cache at boot, with 31 processes, both disks present and zeros on disk. -/
def pinBoot : BCache (Fin 31) Nat := bootCache (fun _ => 0) pinLog true 0

/-- Process 0 opens a transaction, reads block 5 of device 1, changes it and logs it, releases
it; then it reads the block again and writes it with `bwrite`. -/
def pinTrace : List (BufEvent (Fin 31) Nat) :=
  [.beginOp, .bread 0 1 5, .acquire 0, .ideintr, .wake 0, .modify 0 0 7, .logWrite 0 0,
    .brelse 0 0, .bread 0 1 5, .acquire 0, .bwrite 0 0, .ideintr, .wake 0, .brelse 0 0]

/-- Processes 1 to 30 each start `bread` of a block of their own. -/
def fillTrace : List (BufEvent (Fin 31) Nat) :=
  (List.finRange 30).map fun i => .bread i.succ 1 (100 + i.val)

/-- The state right after process 0's `log_write` of block 5. -/
def pinnedState : BCache (Fin 31) Nat := run bstep pinBoot (pinTrace.take 7)

/-- The state after the other processes' `bread`s. -/
def recycledState : BCache (Fin 31) Nat := run bstep pinBoot (pinTrace ++ fillTrace)

/-- The coherence facts in the state where buffer 0 holds block 5 pinned. -/
theorem buffer_cache_coherent_pinned :
    Reachable bstep pinBoot pinnedState ∧
    (∃ order : List (Fin NBUF), Links order pinnedState.next pinnedState.prev ∧ ∀ b, b ∈ order) ∧
    (∀ b c, Live pinnedState b → Live pinnedState c →
      (pinnedState.buf b).key = (pinnedState.buf c).key → b = c) ∧
    (∀ b, pinnedState.pinned b = true →
      (pinnedState.buf b).dirty = true ∧ pinnedState.victim ≠ some b) ∧
    (∀ p dev blockno, pinnedState.pc p = .idle →
      (bstep pinnedState (.bread p dev blockno)).panicked = none →
      ∃ b, (bstep pinnedState (.bread p dev blockno)).pc p = .acquiring b ∧
        ((bstep pinnedState (.bread p dev blockno)).buf b).key = (dev, blockno)) ∧
    (∀ event b, 0 < (pinnedState.buf b).refcnt →
      ((bstep pinnedState event).buf b).key = (pinnedState.buf b).key) ∧
    (pinnedState.panicked = none → ∀ p b, pinnedState.locked b = some p →
      pinnedState.pc p ≠ .waiting b →
      (pinnedState.buf b).valid = true ∧ (pinnedState.buf b).data = pinnedState.mem (pinnedState.buf b).key) ∧
    (∀ k, (∀ b, (pinnedState.buf b).valid = true → (pinnedState.buf b).key ≠ k) →
      pinnedState.disk k = pinnedState.mem k) :=
  ⟨⟨_, rfl⟩, buffer_cache_coherent ⟨_, rfl⟩⟩

/-- A logged buffer recycled before any commit. Process 0's `log_write` pins buffer 0, which
holds block 5; its `bwrite` of the same buffer then reaches the disk, and the interrupt clears
B_DIRTY. With no commit started, the header still names block 5, yet when thirty other
processes start `bread`s of other blocks, the last one recycles buffer 0. -/
theorem logged_buffer_recycled :
    pinnedState.pinned 0 = true ∧ (pinnedState.buf 0).key = (1, 5) ∧
    (run bstep pinBoot pinTrace).pinned 0 = false ∧
    ((run bstep pinBoot pinTrace).buf 0).dirty = false ∧
    recycledState.panicked = none ∧ (recycledState.buf 0).key = (1, 129) ∧
    recycledState.log.lh.n = 1 ∧ recycledState.log.lh.block 0 = 5 ∧
    recycledState.log.committing = false := by
  decide +kernel

end Scenario

end Xv6.Fs
