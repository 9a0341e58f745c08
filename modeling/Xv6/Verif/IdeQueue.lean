import Xv6.Dev.Ide
import Xv6.Lib.Run

/-!
# The IDE queue is a FIFO

In every state the driver reaches from `ideinit`, under any interleaving of processes that
take, fill, queue and release their own buffers with the disk's interrupts, the links from
`idequeue` run through a finite list of distinct buffers to a null `qnext`; that list is the
buffers appended so far less the completed ones, in arrival order; every buffer on it is held by
a process waiting in `iderw` for it and is not done; and unless the system has stopped the disk
is carrying out the command of the head. So the walk to the tail always ends, the interrupt
completes the head, and a process leaves `iderw` only when every request for its buffer has
completed.
-/

namespace Xv6.Dev

open Xv6.SList Xv6.Run Ide

variable {ι κ δ : Type}

/-- The queue is `queue`: the links from `idequeue` run through it to a null one; with the
completed requests before it, it is the arrivals; each of its buffers is held by a process
waiting for it, and is not done; and a waiting process holds its buffer, which is queued or
done, and has arrived. -/
structure QueueInv (s : Ide ι κ δ) (queue : List κ) : Prop where
  chain : Chain s.read .qnext .head queue
  fifo : s.completed ++ queue = s.arrived
  waiting : ∀ b ∈ queue, ∃ p, s.holder b = some p ∧ s.pc p = .waiting b
  pending : ∀ b ∈ queue, (s.buf b).synced = false
  waiter : ∀ p b, s.pc p = .waiting b →
    s.holder b = some p ∧ (b ∈ queue ∨ (s.buf b).synced = true)
  requested : ∀ p b, s.pc p = .waiting b → b ∈ s.arrived

/-- And, until a panic, the disk carries out the command of the request at the head. -/
structure IdeInv (s : Ide ι κ δ) (queue : List κ) : Prop extends QueueInv s queue where
  busy : s.panicked = none → s.busy = queue.head?.map fun b => command (s.buf b)

section Frame

variable {s t : Ide ι κ δ} {queue : List κ}

/-- The queue is read from the links, the ghost lists, the locks, the processes and the
buffers' flags only. -/
theorem QueueInv.frame (inv : QueueInv s queue) (read : t.read = s.read)
    (completed : t.completed = s.completed) (arrived : t.arrived = s.arrived)
    (holder : t.holder = s.holder) (pc : t.pc = s.pc)
    (synced : ∀ b, (t.buf b).synced = (s.buf b).synced) : QueueInv t queue where
  chain := read ▸ inv.chain
  fifo := by rw [completed, arrived]; exact inv.fifo
  waiting b mem := by rw [holder, pc]; exact inv.waiting b mem
  pending b mem := by rw [synced]; exact inv.pending b mem
  waiter p b waits := by
    rw [holder, synced]
    exact inv.waiter p b (pc ▸ waits)
  requested p b waits := arrived ▸ inv.requested p b (pc ▸ waits)

/-- A panic keeps the queue, and stops the disk's part of the invariant from mattering. -/
theorem QueueInv.panic (inv : QueueInv s queue) (message : String) :
    IdeInv (s.panic message) queue :=
  ⟨inv.frame rfl rfl rfl rfl rfl fun _ => rfl, fun stopped => by simp at stopped⟩

/-- `idestart` on the head of the queue starts the disk on it. -/
theorem QueueInv.idestart (inv : QueueInv s queue) {b : κ} (head : queue.head? = some b) :
    IdeInv (idestart s b) queue := by
  rcases idestart_cases s b with started | started <;> rw [started]
  · exact inv.panic _
  · exact ⟨inv.frame rfl rfl rfl rfl rfl fun _ => rfl, fun _ => by simp [head]⟩

/-- A buffer its holder holds while outside the driver is not queued. -/
theorem QueueInv.not_mem (inv : QueueInv s queue) {p : ι} {b : κ} (held : s.holder b = some p)
    (idle : s.pc p = .idle) : b ∉ queue := fun mem => by
  obtain ⟨q, heldBy, waits⟩ := inv.waiting b mem
  cases heldBy.symm.trans held
  rw [idle] at waits
  cases waits

end Frame

/-! ## What each event keeps -/

section Events

variable [DecidableEq κ] [DecidableEq ι] {s : Ide ι κ δ} {queue : List κ} {p : ι} {b : κ}

omit [DecidableEq ι] in
/-- `acquiresleep` of a free lock. The buffers the invariant speaks of are held, so they are not
`b`. -/
theorem inv_acquire (inv : IdeInv s queue) (free : s.holder b = none) :
    IdeInv { s with holder := Function.update s.holder b (some p) } queue := by
  have other : ∀ {c q}, s.holder c = some q → c ≠ b := fun held same => by
    rw [same, free] at held
    cases held
  refine ⟨⟨inv.chain, inv.fifo, fun c mem => ?_, inv.pending, fun q c waits => ?_,
    inv.requested⟩, inv.busy⟩
  · obtain ⟨q, held, waits⟩ := inv.waiting c mem
    exact ⟨q, (Function.update_of_ne (other held) _ _).trans held, waits⟩
  · obtain ⟨held, state⟩ := inv.waiter q c waits
    exact ⟨(Function.update_of_ne (other held) _ _).trans held, state⟩

omit [DecidableEq ι] in
/-- `releasesleep` by the holder, outside the driver. A buffer held by a waiting process is not `b`,
whose holder is idle. -/
theorem inv_release (inv : IdeInv s queue) (held : s.holder b = some p) (idle : s.pc p = .idle) :
    IdeInv { s with holder := Function.update s.holder b none } queue := by
  have other : ∀ {c q}, s.holder c = some q → s.pc q = .waiting c → c ≠ b :=
    fun held' waits same => by
    subst same
    cases held'.symm.trans held
    rw [idle] at waits
    cases waits
  refine ⟨⟨inv.chain, inv.fifo, fun c mem => ?_, inv.pending, fun q c waits => ?_,
    inv.requested⟩, inv.busy⟩
  · obtain ⟨q, held', waits⟩ := inv.waiting c mem
    exact ⟨q, (Function.update_of_ne (other held' waits) _ _).trans held', waits⟩
  · obtain ⟨held', state⟩ := inv.waiter q c waits
    exact ⟨(Function.update_of_ne (other held' waits) _ _).trans held', state⟩

omit [DecidableEq ι] in
/-- The holder, outside the driver, changes its buffer's fields other than the link. -/
theorem inv_fill (inv : IdeInv s queue) (held : s.holder b = some p) (idle : s.pc p = .idle)
    {buf : IdeBuf κ δ} (same : buf.qnext = (s.buf b).qnext) : IdeInv (s.setBuf b buf) queue := by
  have fresh := inv.not_mem held idle
  have unwaited : ∀ {q c}, s.pc q = .waiting c → c ≠ b := fun waits same' => by
    subst same'
    cases (inv.waiter _ _ waits).1.symm.trans held
    rw [idle] at waits
    cases waits
  have unchanged : ∀ {c}, c ≠ b → (s.setBuf b buf).buf c = s.buf c :=
    fun other => Function.update_of_ne other _ _
  refine ⟨⟨(read_setBuf s b same).symm ▸ inv.chain, inv.fifo, inv.waiting,
    fun c mem => ?_, fun q c waits => ?_, inv.requested⟩, fun running => ?_⟩
  · rw [unchanged (fun same' => fresh (same' ▸ mem))]
    exact inv.pending c mem
  · rw [unchanged (unwaited waits)]
    exact inv.waiter q c waits
  · have running' : s.panicked = none := running
    refine (inv.busy running').trans ?_
    cases queue with
    | nil => rfl
    | cons c rest =>
      have other : c ≠ b := fun same' => fresh (same' ▸ List.mem_cons_self)
      simp [Function.update_of_ne other]

omit [DecidableEq κ] in
/-- A test of the wait loop: a process leaves it only for a buffer that is done, which is not
queued. -/
theorem inv_wake (inv : IdeInv s queue) : IdeInv (wake s p) queue := by
  unfold wake
  split
  · rename_i c waits
    split_ifs with done
    · have leaves : ∀ {q x}, s.pc q = .waiting x → x ∈ queue → q ≠ p := fun waits' mem same => by
        subst same
        rw [waits] at waits'
        cases waits'
        rw [inv.pending _ mem] at done
        cases done
      have stays : ∀ {q x}, (s.setPc p .idle).pc q = .waiting x → s.pc q = .waiting x :=
        fun {q x} waits' => by
          have other : q ≠ p := fun same => by
            subst same
            simp at waits'
          simpa [Function.update_of_ne other] using waits'
      refine ⟨⟨inv.chain, inv.fifo, fun x mem => ?_, inv.pending,
        fun q x waits' => inv.waiter q x (stays waits'),
        fun q x waits' => inv.requested q x (stays waits')⟩, inv.busy⟩
      obtain ⟨q, held, waits'⟩ := inv.waiting x mem
      exact ⟨q, held, by simpa [Function.update_of_ne (leaves waits' mem)] using waits'⟩
    · exact inv
  · exact inv

end Events

/-! ## `iderw` -/

section Iderw

variable [DecidableEq κ] [DecidableEq ι] [Fintype κ] {s : Ide ι κ δ} {queue : List κ} {p : ι}
  {b : κ}

omit [DecidableEq ι] [Fintype κ] in
/-- With `b->qnext = 0`, the queue still runs from `idequeue`, since `b` is not on it. -/
theorem chain_cleared (inv : QueueInv s queue) (fresh : b ∉ queue) :
    Chain (s.write (.qnext b) none).read .qnext .head queue := by
  rw [read_write]
  refine inv.chain.congr (Function.update_of_ne (by simp) _ _) fun a mem => ?_
  have other : Link.qnext a ≠ Link.qnext b := fun same => fresh (Link.qnext_injective same ▸ mem)
  exact Function.update_of_ne other _ _

omit [DecidableEq ι] in
/-- The walk from `&idequeue` ends at the null link of the last queued buffer: there are no
more queued buffers than buffers. -/
theorem walk_cleared (inv : QueueInv s queue) (fresh : b ∉ queue) :
    walk (s.write (.qnext b) none).read .qnext (Fintype.card κ + 1) .head =
      some (tail .qnext .head queue) := by
  have chain := chain_cleared inv fresh
  exact chain.walk_eq (Nat.lt_succ_of_le chain.nodup.length_le_card)

omit [Fintype κ] in
/-- The state after `*pp = b` and the wait loop's first test: `b` is appended. -/
theorem queueInv_appended (inv : QueueInv s queue) (held : s.holder b = some p)
    (idle : s.pc p = .idle) (todo : (s.buf b).synced = false) :
    QueueInv ({ (s.write (.qnext b) none).write (tail .qnext .head queue) (some b) with
                arrived := s.arrived ++ [b] }.setPc p (.waiting b)) (queue ++ [b]) := by
  have fresh := inv.not_mem held idle
  have notP : ∀ {q x}, s.pc q = .waiting x → q ≠ p := fun waits same => by
    subst same
    rw [idle] at waits
    cases waits
  refine ⟨?_, ?_, fun x mem => ?_, fun x mem => ?_, fun q x waits => ?_, fun q x waits => ?_⟩
  · have appended := inv.chain.append fresh Link.qnext_injective fun a => by simp
    change Chain ((s.write (.qnext b) none).write (tail .qnext .head queue) (some b)).read
      .qnext .head (queue ++ [b])
    rw [read_write, read_write]
    exact appended
  · simp [← List.append_assoc, inv.fifo]
  · rcases List.mem_append.mp mem with queued | last
    · obtain ⟨q, heldBy, waits⟩ := inv.waiting x queued
      exact ⟨q, by simpa using heldBy, by simp [Function.update_of_ne (notP waits), waits]⟩
    · rw [List.mem_singleton.mp last]
      exact ⟨p, by simpa using held, by simp⟩
  · rcases List.mem_append.mp mem with queued | last
    · simpa using inv.pending x queued
    · rw [List.mem_singleton.mp last]
      simpa using todo
  · by_cases same : q = p
    · subst same
      simp only [setPc, Function.update_self, IdePc.waiting.injEq] at waits
      subst waits
      exact ⟨by simpa using held, .inl (List.mem_append_right _ List.mem_cons_self)⟩
    · have waits' : s.pc q = .waiting x := by simpa [Function.update_of_ne same] using waits
      obtain ⟨heldBy, state⟩ := inv.waiter q x waits'
      refine ⟨by simpa using heldBy, ?_⟩
      rcases state with queued | done
      · exact .inl (List.mem_append_left _ queued)
      · exact .inr (by simpa using done)
  · by_cases same : q = p
    · subst same
      simp only [setPc, Function.update_self, IdePc.waiting.injEq] at waits
      subst waits
      simp
    · have waits' : s.pc q = .waiting x := by simpa [Function.update_of_ne same] using waits
      simp [inv.requested q x waits']

/-- `iderw` by a process outside the driver: it panics on one of its checks, or appends the
buffer at the tail of the queue, starts the disk on it when the queue was empty, and leaves its
caller waiting for it. The walk to the tail finds the null link, as `walk_cleared` shows, and
the queue's first buffer is `idequeue`. -/
theorem inv_iderw (inv : IdeInv s queue) (idle : s.pc p = .idle) :
    (∃ message, iderw s p b = s.panic message) ∨
      (IdeInv (iderw s p b) (queue ++ [b]) ∧ (iderw s p b).pc p = .waiting b) := by
  unfold iderw
  split_ifs with notHeld todo absent
  · exact .inl ⟨_, rfl⟩
  · exact .inl ⟨_, rfl⟩
  · exact .inl ⟨_, rfl⟩
  · have held : s.holder b = some p := of_not_not notHeld
    have pending : (s.buf b).synced = false := by simpa using todo
    have appended := queueInv_appended inv.toQueueInv held idle pending
    dsimp only
    rw [walk_cleared inv.toQueueInv (inv.not_mem held idle)]
    dsimp only
    have first := appended.chain.deref_start
    rw [read_head] at first
    refine .inr ?_
    split_ifs with started
    · refine ⟨appended.idestart (first.symm.trans started), ?_⟩
      rcases idestart_cases _ b with stopped | busy
      · rw [stopped]
        simp
      · rw [busy]
        simp
    · refine ⟨⟨appended, fun running => ?_⟩, by simp⟩
      cases queue with
      | nil => exact absurd first started
      | cons c rest =>
        have running' : s.panicked = none := by simpa using running
        simp [inv.busy running']

end Iderw

/-! ## The interrupt -/

section Interrupt

variable [DecidableEq κ] {s : Ide ι κ δ} {queue rest : List κ} {b : κ}

/-- What `ideintr` leaves of a request at the head before it starts the next one. -/
def ideDone (s : Ide ι κ δ) (b : κ) (ok : Bool) (sector : δ) : Ide ι κ δ :=
  { s with idequeue := (s.buf b).qnext
           buf := Function.update s.buf b
             { s.buf b with valid := true, dirty := false,
                            data := if !(s.buf b).dirty && ok then sector else (s.buf b).data }
           completed := s.completed ++ [b] }

/-- `ideintr` for the request at the head: it completes, and the disk starts on the next. -/
theorem ideintr_of_head (head : s.idequeue = some b) (ok : Bool) (sector : δ) :
    ideintr s ok sector = startNext (ideDone s b ok sector) := by
  unfold ideintr
  rw [head]
  dsimp only
  congr 1
  unfold ideDone
  split_ifs <;> simp [Function.update_idem]

omit [DecidableEq κ] in
/-- With the disk idle, starting the next request starts it on the head of the queue. -/
theorem QueueInv.startNext (inv : QueueInv s queue) (idle : s.busy = none) :
    IdeInv (startNext s) queue := by
  have head := inv.chain.deref_start
  rw [read_head] at head
  unfold Dev.startNext
  rw [head]
  cases queue with
  | nil => exact ⟨inv, fun _ => idle⟩
  | cons c rest => exact inv.idestart rfl

/-- Completing the head leaves the rest of the queue. -/
theorem queueInv_ideDone (inv : QueueInv s (b :: rest)) (ok : Bool) (sector : δ) :
    QueueInv (ideDone s b ok sector) rest := by
  have nodup := inv.chain.nodup
  have fresh : b ∉ rest := (List.nodup_cons.mp nodup).1
  have unchanged : ∀ {c}, c ≠ b → (ideDone s b ok sector).buf c = s.buf c :=
    fun other => Function.update_of_ne other _ _
  refine ⟨?_, ?_, fun c mem => inv.waiting c (List.mem_cons_of_mem _ mem), fun c mem => ?_,
    fun q c waits => ?_, inv.requested⟩
  · cases inv.chain with
    | cons _ restChain =>
      refine restChain.restart rfl fun a mem => ?_
      have other : a ≠ b := fun same => fresh (same ▸ mem)
      simp [ideDone, Function.update_of_ne other]
  · simpa [ideDone] using inv.fifo
  · rw [unchanged fun same => fresh (same ▸ mem)]
    exact inv.pending c (List.mem_cons_of_mem _ mem)
  · obtain ⟨held, state⟩ := inv.waiter q c waits
    refine ⟨held, ?_⟩
    by_cases same : c = b
    · subst same
      exact .inr (by simp [ideDone, IdeBuf.synced])
    · rw [unchanged same]
      rcases state with queued | done
      · exact .inl ((List.mem_cons.mp queued).resolve_left same)
      · exact .inr done

/-- `ideintr` once the disk is idle: the head completes, and the disk starts on the next one. -/
theorem inv_ideintr (inv : QueueInv s (b :: rest)) (idle : s.busy = none) (ok : Bool)
    (sector : δ) : IdeInv (ideintr s ok sector) rest := by
  rw [ideintr_of_head (by simpa using inv.chain.deref_start)]
  exact (queueInv_ideDone inv ok sector).startNext idle

/-- The interrupt, until a panic: the disk has finished the head's command, which completes,
and it starts on the next one. -/
theorem inv_interrupt (inv : IdeInv s queue) (running : s.panicked = none) (ok : Bool) :
    ∃ queue', IdeInv (interrupt s ok) queue' := by
  unfold interrupt
  cases busy : s.busy with
  | none => exact ⟨queue, inv⟩
  | some cmd =>
    have heads : queue.head?.map (fun b => command (s.buf b)) = some cmd :=
      (inv.busy running).symm.trans busy
    cases queue with
    | nil => cases heads
    | cons b rest =>
      have keep : QueueInv { s with busy := none, disk := carryOut s.disk cmd } (b :: rest) :=
        inv.frame rfl rfl rfl rfl rfl fun _ => rfl
      exact ⟨rest, inv_ideintr keep rfl ok _⟩

end Interrupt

/-! ## Every run -/

section Run

variable [DecidableEq κ] [DecidableEq ι] [Fintype κ] {s : Ide ι κ δ} {queue : List κ}

/-- Every event keeps the invariant, with the queue it leaves. -/
theorem inv_ideStep (inv : IdeInv s queue) (event : IdeEvent ι κ δ) :
    ∃ queue', IdeInv (ideStep s event) queue' := by
  unfold ideStep
  split_ifs with stopped
  · exact ⟨queue, inv⟩
  · have running : s.panicked = none := Option.not_isSome_iff_eq_none.mp stopped
    cases event with
    | acquire p b =>
      dsimp only
      split_ifs with allowed
      · exact ⟨queue, inv_acquire inv allowed.2⟩
      · exact ⟨queue, inv⟩
    | release p b =>
      dsimp only
      split_ifs with allowed
      · exact ⟨queue, inv_release inv allowed.2 allowed.1⟩
      · exact ⟨queue, inv⟩
    | fill p b valid dirty dev blockno data =>
      dsimp only
      split_ifs with allowed
      · exact ⟨queue, inv_fill inv allowed.2 allowed.1 rfl⟩
      · exact ⟨queue, inv⟩
    | iderw p b =>
      dsimp only
      split_ifs with idle
      · rcases inv_iderw (b := b) inv idle with ⟨message, stopped⟩ | ⟨appended, _⟩
        · exact ⟨queue, stopped ▸ inv.toQueueInv.panic message⟩
        · exact ⟨_, appended⟩
      · exact ⟨queue, inv⟩
    | wake p => exact ⟨queue, inv_wake inv⟩
    | interrupt ok => exact inv_interrupt inv running ok

omit [DecidableEq κ] [DecidableEq ι] [Fintype κ] in
/-- After `ideinit` nothing is queued. -/
theorem inv_ideBoot (disk : Nat × Nat → δ) (havedisk1 : Bool) (zero : δ) :
    IdeInv (ideBoot (ι := ι) (κ := κ) disk havedisk1 zero) [] where
  chain := .nil rfl
  fifo := rfl
  waiting _ mem := absurd mem List.not_mem_nil
  pending _ mem := absurd mem List.not_mem_nil
  waiter _ _ waits := by cases waits
  requested _ _ waits := by cases waits
  busy _ := rfl

/-- The invariant holds in every state reachable from `ideinit`. -/
theorem ideInv_reachable {disk : Nat × Nat → δ} {havedisk1 : Bool} {zero : δ}
    (reached : Reachable ideStep (ideBoot disk havedisk1 zero) s) : ∃ queue, IdeInv s queue := by
  have kept : Invariant ideStep fun t : Ide ι κ δ => ∃ queue, IdeInv t queue :=
    fun _ event ⟨_, inv⟩ => inv_ideStep inv event
  exact kept.reachable ⟨[], inv_ideBoot disk havedisk1 zero⟩ reached

omit [DecidableEq ι] [Fintype κ] in
/-- The interrupt for the head completes it: valid and clean, read from the disk when it was not
dirty and the disk reported no error, and for a dirty buffer its data on the disk. A write stores
the data, and a read leaves the disk as it was. -/
theorem interrupt_completes {b : κ} {rest : List κ} (inv : IdeInv s (b :: rest))
    (running : s.panicked = none) (ok : Bool) :
    (interrupt s ok).completed = s.completed ++ [b] ∧
      (interrupt s ok).buf b =
        { s.buf b with
          valid := true
          dirty := false
          data := if !(s.buf b).dirty && ok then s.disk (command (s.buf b)).key
            else (s.buf b).data } ∧
      ((s.buf b).dirty = true → (interrupt s ok).disk (command (s.buf b)).key = (s.buf b).data) := by
  have busy : s.busy = some (command (s.buf b)) := by simpa using inv.busy running
  have head : s.idequeue = some b := by simpa using inv.chain.deref_start
  unfold interrupt
  rw [busy]
  dsimp only
  rw [ideintr_of_head (s := { s with busy := none, disk := carryOut s.disk (command (s.buf b)) })
    head]
  cases dirty : (s.buf b).dirty <;> simp [ideDone, carryOut, command, dirty]

/-- A process leaves `iderw`'s wait loop only when its buffer is done and every request for it
has completed. -/
theorem wake_returns {p : ι} {b : κ} (inv : IdeInv s queue) (waits : s.pc p = .waiting b)
    (returns : (ideStep s (.wake p)).pc p = .idle) :
    (s.buf b).synced = true ∧ b ∈ s.completed ∧ s.arrived.count b = s.completed.count b := by
  have done : (s.buf b).synced = true := by
    have stepped : ideStep s (.wake p) = s ∨ ideStep s (.wake p) = wake s p := by
      unfold ideStep
      split_ifs <;> simp
    rcases stepped with same | woke
    · rw [same, waits] at returns
      cases returns
    · rw [woke] at returns
      unfold wake at returns
      rw [waits] at returns
      dsimp only at returns
      split_ifs at returns with synced
      · exact synced
      · rw [waits] at returns
        cases returns
  have absent : b ∉ queue := fun mem => by
    rw [inv.pending b mem] at done
    cases done
  have counts : s.arrived.count b = s.completed.count b := by
    rw [← inv.fifo, List.count_append, List.count_eq_zero_of_not_mem absent, Nat.add_zero]
  have arrived : 0 < s.arrived.count b := List.count_pos_iff.mpr (inv.requested p b waits)
  exact ⟨done, List.count_pos_iff.mp (counts ▸ arrived), counts⟩

/-- The IDE queue is a FIFO. In every state reached from `ideinit` under any interleaving of
processes with their own buffers and the disk's interrupts: the links from `idequeue` run
through a finite list of distinct buffers to a null one, which the walk in `iderw` reaches;
the completed requests followed by that list are the arrivals, in order; the disk is carrying
out the head's command until a panic; each queued buffer is held by a process waiting for it and
is not done; the next interrupt completes the head, valid and clean, with the sector read only
into a buffer that was not dirty and a dirty buffer's data written; an `iderw` that does not
panic appends its buffer at the tail and leaves its caller in the wait loop for it; and a
process leaves that loop only when its buffer is done and every request for it has
completed. -/
theorem ide_queue_fifo {disk : Nat × Nat → δ} {havedisk1 : Bool} {zero : δ}
    (reached : Reachable ideStep (ideBoot disk havedisk1 zero) s) :
    ∃ queue : List κ,
      (Chain s.read .qnext .head queue ∧ queue.Nodup ∧
        walk s.read .qnext (Fintype.card κ + 1) .head = some (tail .qnext .head queue)) ∧
      s.completed ++ queue = s.arrived ∧
      (s.panicked = none → s.busy = queue.head?.map fun b => command (s.buf b)) ∧
      (∀ b ∈ queue, (s.buf b).synced = false ∧ ∃ p, s.holder b = some p ∧ s.pc p = .waiting b) ∧
      (s.panicked = none → ∀ ok b rest, queue = b :: rest →
        (ideStep s (.interrupt ok)).completed = s.completed ++ [b] ∧
        (ideStep s (.interrupt ok)).buf b =
          { s.buf b with
            valid := true
            dirty := false
            data := if !(s.buf b).dirty && ok then s.disk (command (s.buf b)).key
              else (s.buf b).data } ∧
        ((s.buf b).dirty = true →
          (ideStep s (.interrupt ok)).disk (command (s.buf b)).key = (s.buf b).data)) ∧
      (s.panicked = none → ∀ p b, s.pc p = .idle → (ideStep s (.iderw p b)).panicked = none →
        Chain (ideStep s (.iderw p b)).read .qnext .head (queue ++ [b]) ∧
          (ideStep s (.iderw p b)).pc p = .waiting b) ∧
      (∀ p b, s.pc p = .waiting b → (ideStep s (.wake p)).pc p = .idle →
        (s.buf b).synced = true ∧ b ∈ s.completed ∧ s.arrived.count b = s.completed.count b) := by
  obtain ⟨queue, inv⟩ := ideInv_reachable reached
  have nodup := inv.chain.nodup
  refine ⟨queue, ⟨inv.chain, nodup, inv.chain.walk_eq (Nat.lt_succ_of_le nodup.length_le_card)⟩,
    inv.fifo, inv.busy, fun b mem => ⟨inv.pending b mem, inv.waiting b mem⟩,
    fun running ok b rest split => ?_, fun running p b idle calm => ?_,
    fun p b waits returns => wake_returns inv waits returns⟩
  · have stepped : ideStep s (.interrupt ok) = interrupt s ok := by
      unfold ideStep
      rw [running]
      rfl
    subst split
    rw [stepped]
    exact interrupt_completes inv running ok
  · have stepped : ideStep s (.iderw p b) = iderw s p b := by
      unfold ideStep
      rw [running]
      simp [idle]
    rw [stepped] at calm ⊢
    rcases inv_iderw inv idle with ⟨message, stopped⟩ | ⟨appended, waits⟩
    · rw [stopped] at calm
      cases calm
    · exact ⟨appended.chain, waits⟩

end Run

/-- Two processes, `false` and `true`, each queue the buffer of their name: a read of block 5 and a write of block 6;
the first completes. -/
def twoRequests : Ide Bool Bool Nat :=
  run ideStep (ideBoot (fun _ => 0) false 0)
    [.acquire false false, .fill false false false false 0 5 0, .acquire true true,
     .fill true true false true 0 6 42, .iderw false false, .iderw true true, .interrupt true]

theorem ide_queue_fifo_twoRequests :
    Reachable ideStep (ideBoot (fun _ => 0) false 0) twoRequests ∧
    ∃ queue : List Bool,
      (Chain twoRequests.read .qnext .head queue ∧ queue.Nodup ∧
        walk twoRequests.read .qnext (Fintype.card Bool + 1) .head =
          some (tail .qnext .head queue)) ∧
      twoRequests.completed ++ queue = twoRequests.arrived ∧
      (twoRequests.panicked = none →
        twoRequests.busy = queue.head?.map fun b => command (twoRequests.buf b)) ∧
      (∀ b ∈ queue, (twoRequests.buf b).synced = false ∧
        ∃ p, twoRequests.holder b = some p ∧ twoRequests.pc p = .waiting b) ∧
      (twoRequests.panicked = none → ∀ ok b rest, queue = b :: rest →
        (ideStep twoRequests (.interrupt ok)).completed = twoRequests.completed ++ [b] ∧
        (ideStep twoRequests (.interrupt ok)).buf b =
          { twoRequests.buf b with
            valid := true
            dirty := false
            data := if !(twoRequests.buf b).dirty && ok then
                twoRequests.disk (command (twoRequests.buf b)).key
              else (twoRequests.buf b).data } ∧
        ((twoRequests.buf b).dirty = true →
          (ideStep twoRequests (.interrupt ok)).disk (command (twoRequests.buf b)).key =
            (twoRequests.buf b).data)) ∧
      (twoRequests.panicked = none → ∀ p b, twoRequests.pc p = .idle →
        (ideStep twoRequests (.iderw p b)).panicked = none →
        Chain (ideStep twoRequests (.iderw p b)).read .qnext .head (queue ++ [b]) ∧
          (ideStep twoRequests (.iderw p b)).pc p = .waiting b) ∧
      (∀ p b, twoRequests.pc p = .waiting b → (ideStep twoRequests (.wake p)).pc p = .idle →
        (twoRequests.buf b).synced = true ∧ b ∈ twoRequests.completed ∧
          twoRequests.arrived.count b = twoRequests.completed.count b) :=
  ⟨⟨_, rfl⟩, ide_queue_fifo ⟨_, rfl⟩⟩

/-- The read completed first; the write is on the disk after its own interrupt. -/
example : twoRequests.completed = [false] ∧
    (run ideStep twoRequests [.interrupt true]).disk (0, 6) = 42 := by
  decide

end Xv6.Dev
