import Xv6.Fs.File
import Xv6.Lib.Run

/-!
# Writers sharing a file offset

Processes that share one FD_INODE file through fork or dup read and write it at one offset.
Each chunk of a filewrite takes the inode lock, writes at the offset it finds there and moves
the offset past what it wrote before it lets go; a read moves the offset past what it read. So
the offset only grows, and every chunk lies past the chunks before it: the chunks of a run lie
in disjoint ranges, in the order they ran, and each is still intact at the end. When the
offset starts at the end of the file it stays there, and the file ends as its first bytes
followed by every chunk in order.
-/

namespace Xv6.Fs

open Xv6.Run SharedFile

/-- A chunk that one turn of filewrite's loop wrote: its writer, where, and what. -/
structure Chunk (ι : Type) where
  writer : ι
  off : Nat
  bytes : List UInt8
  deriving DecidableEq, Repr

/-! ## The bytes of a file under writei -/

section Data

variable {data src : List UInt8} {off : Nat}

/-- The bytes of a window that lies inside a prefix are the prefix's. -/
theorem window_take (data : List UInt8) {k a b : Nat} (inside : a + b ≤ k) :
    ((data.take k).drop a).take b = (data.drop a).take b := by
  rw [List.drop_take, List.take_take]
  congr 1
  omega

theorem writei_some {data' : List UInt8} (wrote : Data.writei data src off = some data') :
    off ≤ data.length ∧ data' = data.take off ++ src ++ data.drop (off + src.length) := by
  unfold Data.writei at wrote
  split at wrote
  · cases wrote
  · split at wrote
    · cases wrote
    · cases wrote
      exact ⟨by omega, rfl⟩

/-- What writei leaves before the offset is what was there. -/
theorem take_writei (fits : off ≤ data.length) :
    (data.take off ++ src ++ data.drop (off + src.length)).take off = data.take off := by
  rw [List.append_assoc, List.take_left' (by simp; omega)]

/-- writei leaves its source at the offset. -/
theorem window_writei (fits : off ≤ data.length) :
    ((data.take off ++ src ++ data.drop (off + src.length)).drop off).take src.length = src := by
  rw [List.append_assoc, List.drop_left' (by simp; omega), List.take_left' rfl]

theorem length_writei (fits : off ≤ data.length) :
    off + src.length ≤ (data.take off ++ src ++ data.drop (off + src.length)).length := by
  simp only [List.length_append, List.length_take, List.length_drop]
  omega

/-- A window before the offset is as it was. -/
theorem window_writei_below (fits : off ≤ data.length) {a b : Nat} (below : a + b ≤ off) :
    ((data.take off ++ src ++ data.drop (off + src.length)).drop a).take b =
      (data.drop a).take b := by
  rw [← window_take _ below, take_writei fits, window_take _ below]

/-- A write at the end appends. -/
theorem writei_at_end (atEnd : off = data.length) :
    data.take off ++ src ++ data.drop (off + src.length) = data ++ src := by
  rw [List.take_of_length_le (by omega), List.drop_eq_nil_of_le (by omega), List.append_nil]

/-- readi returns no more than the bytes past the offset, and none at the end. -/
theorem readi_some {n : Nat} {bytes : List UInt8} (read : Data.readi data off n = some bytes) :
    off + bytes.length ≤ data.length ∧ (off = data.length → bytes = []) := by
  unfold Data.readi at read
  split at read
  · cases read
  · cases read
    simp only [List.length_take, List.length_drop]
    refine ⟨by omega, fun atEnd => ?_⟩
    rw [atEnd, List.drop_length, List.take_nil]

end Data

/-! ## One step -/

namespace SharedFile

variable {ι : Type} [DecidableEq ι]

/-- The chunk an event writes: one turn of filewrite's loop whose writei succeeds. -/
def appliedChunk (s : SharedFile ι) : FileEvent ι → List (Chunk ι)
  | .writeChunk p =>
    match s.calls p with
    | .writing buf i =>
      if i < buf.length ∧ (Data.writei s.data (nextChunk buf i) s.off).isSome then
        [⟨p, s.off, nextChunk buf i⟩]
      else []
    | .idle => []
  | _ => []

/-- What a step that writes nothing does to the file: its bytes stay, and the offset may move
forward over bytes the file has, but not from its end. -/
structure Moved (s s' : SharedFile ι) : Prop where
  data : s'.data = s.data
  grows : s.off ≤ s'.off
  fits : s.off ≤ s.data.length → s'.off ≤ s'.data.length
  atEnd : s.off = s.data.length → s'.off = s.off

omit [DecidableEq ι] in
/-- A step that leaves the offset and the bytes as they are. -/
theorem Moved.of_eq {s s' : SharedFile ι} (data : s'.data = s.data) (off : s'.off = s.off) :
    Moved s s' :=
  ⟨data, off ▸ Nat.le_refl _, fun fits => by rw [off, data]; exact fits, fun _ => off⟩

/-- A chunk that is applied is written at the offset, which then moves past it. -/
theorem fileStep_of_applied {s : SharedFile ι} {p : ι} {c : Chunk ι}
    (applied : appliedChunk s (.writeChunk p) = [c]) :
    c.off = s.off ∧ Data.writei s.data c.bytes s.off = some (fileStep s (.writeChunk p)).data ∧
      (fileStep s (.writeChunk p)).off = s.off + c.bytes.length := by
  cases calling : s.calls p with
  | idle => simp [appliedChunk, calling] at applied
  | writing buf i =>
    simp only [appliedChunk, calling] at applied
    split at applied
    · rename_i ran
      obtain ⟨inside, wrote⟩ := ran
      obtain ⟨data, wrote⟩ := Option.isSome_iff_exists.mp wrote
      cases applied
      simp [fileStep, calling, inside, wrote]
    · cases applied

/-- Every other step writes nothing. -/
theorem moved_of_not_applied {s : SharedFile ι} {event : FileEvent ι}
    (none : appliedChunk s event = []) : Moved s (fileStep s event) := by
  cases event with
  | write p buf =>
    cases calling : s.calls p with
    | writing buf' i => simp only [fileStep, calling]; exact Moved.of_eq rfl rfl
    | idle =>
      simp only [fileStep, calling]
      split
      · exact Moved.of_eq rfl rfl
      · exact Moved.of_eq rfl rfl
  | writeChunk p =>
    cases calling : s.calls p with
    | idle => simp only [fileStep, calling]; exact Moved.of_eq rfl rfl
    | writing buf i =>
      simp only [appliedChunk, calling] at none
      simp only [fileStep, calling]
      split
      · rename_i inside
        cases wrote : Data.writei s.data (nextChunk buf i) s.off with
        | some data =>
          rw [if_pos ⟨inside, by simp [wrote]⟩] at none
          cases none
        | none => exact Moved.of_eq rfl rfl
      · exact Moved.of_eq rfl rfl
  | read p n =>
    simp only [fileStep]
    split
    · exact Moved.of_eq rfl rfl
    · cases read : Data.readi s.data s.off n with
      | some bytes =>
        obtain ⟨fits, empty⟩ := readi_some read
        refine ⟨rfl, Nat.le_add_right _ _, fun _ => fits, fun atEnd => ?_⟩
        simp [empty atEnd]
      | none => exact Moved.of_eq rfl rfl

omit [DecidableEq ι] in
/-- A step writes at most one chunk. -/
theorem appliedChunk_cases (s : SharedFile ι) (event : FileEvent ι) :
    appliedChunk s event = [] ∨ ∃ p c, event = .writeChunk p ∧ appliedChunk s event = [c] := by
  cases event with
  | write p buf => exact .inl rfl
  | read p n => exact .inl rfl
  | writeChunk p =>
    cases calling : s.calls p with
    | idle => exact .inl (by simp [appliedChunk, calling])
    | writing buf i =>
      by_cases ran : i < buf.length ∧ (Data.writei s.data (nextChunk buf i) s.off).isSome
      · exact .inr ⟨p, ⟨p, s.off, nextChunk buf i⟩, rfl,
          by simp only [appliedChunk, calling, if_pos ran]⟩
      · exact .inl (by simp only [appliedChunk, calling, if_neg ran])

end SharedFile

/-! ## Runs -/

section Runs

variable {ι : Type} [DecidableEq ι]

/-- Where the chunks written so far lie: in order past the offset the run started from, below
the current offset, each intact. -/
structure Laid (start s : SharedFile ι) (chunks : List (Chunk ι)) : Prop where
  fits : s.off ≤ s.data.length
  advanced : start.off ≤ s.off
  ordered : chunks.Pairwise fun a b => a.off + a.bytes.length ≤ b.off
  after : ∀ c ∈ chunks, start.off ≤ c.off
  below : ∀ c ∈ chunks, c.off + c.bytes.length ≤ s.off
  intact : ∀ c ∈ chunks, (s.data.drop c.off).take c.bytes.length = c.bytes

omit [DecidableEq ι] in
theorem Laid.moved {start s s' : SharedFile ι} {chunks : List (Chunk ι)} (laid : Laid start s chunks)
    (moved : SharedFile.Moved s s') : Laid start s' chunks where
  fits := moved.fits laid.fits
  advanced := Nat.le_trans laid.advanced moved.grows
  ordered := laid.ordered
  after := laid.after
  below c mem := Nat.le_trans (laid.below c mem) moved.grows
  intact c mem := by
    rw [moved.data]
    exact laid.intact c mem

omit [DecidableEq ι] in
/-- A chunk written at the offset lies past every chunk before it. -/
theorem Laid.write {start s s' : SharedFile ι} {chunks : List (Chunk ι)} {c : Chunk ι}
    (laid : Laid start s chunks) (at' : c.off = s.off)
    (wrote : Data.writei s.data c.bytes s.off = some s'.data)
    (advanced : s'.off = s.off + c.bytes.length) : Laid start s' (chunks ++ [c]) := by
  obtain ⟨-, written⟩ := writei_some wrote
  have fits := laid.fits
  refine ⟨?_, ?_, ?_, ?_, ?_, ?_⟩
  · rw [advanced, written]
    exact length_writei fits
  · rw [advanced]
    exact Nat.le_trans laid.advanced (Nat.le_add_right _ _)
  · refine List.pairwise_append.mpr ⟨laid.ordered, List.pairwise_singleton _ _, ?_⟩
    intro a old b new
    rw [List.mem_singleton.mp new, at']
    exact laid.below a old
  · intro a mem
    rcases List.mem_append.mp mem with old | new
    · exact laid.after a old
    · rw [List.mem_singleton.mp new, at']
      exact laid.advanced
  · intro a mem
    rw [advanced]
    rcases List.mem_append.mp mem with old | new
    · exact Nat.le_trans (laid.below a old) (Nat.le_add_right _ _)
    · rw [List.mem_singleton.mp new, at']
  · intro a mem
    rw [written]
    rcases List.mem_append.mp mem with old | new
    · rw [window_writei_below fits (laid.below a old)]
      exact laid.intact a old
    · rw [List.mem_singleton.mp new, at']
      exact window_writei fits

theorem Laid.step {start s : SharedFile ι} {chunks : List (Chunk ι)} (laid : Laid start s chunks)
    (event : FileEvent ι) :
    Laid start (fileStep s event) (chunks ++ appliedChunk s event) := by
  rcases appliedChunk_cases s event with none | ⟨p, c, rfl, applied⟩
  · rw [none, List.append_nil]
    exact laid.moved (moved_of_not_applied none)
  · obtain ⟨at', wrote, advanced⟩ := fileStep_of_applied applied
    rw [applied]
    exact laid.write at' wrote advanced

/-- With the offset at the end of the file, the file is its first bytes and the chunks. -/
structure Appended (start s : SharedFile ι) (chunks : List (Chunk ι)) : Prop where
  atEnd : s.off = s.data.length
  data : s.data = start.data ++ (chunks.map Chunk.bytes).flatten

theorem Appended.step {start s : SharedFile ι} {chunks : List (Chunk ι)}
    (appended : Appended start s chunks) (event : FileEvent ι) :
    Appended start (fileStep s event) (chunks ++ appliedChunk s event) := by
  rcases appliedChunk_cases s event with none | ⟨p, c, rfl, applied⟩
  · have moved := moved_of_not_applied none
    rw [none, List.append_nil]
    refine ⟨?_, ?_⟩
    · rw [moved.atEnd appended.atEnd, moved.data]
      exact appended.atEnd
    · rw [moved.data]
      exact appended.data
  · obtain ⟨-, wrote, advanced⟩ := fileStep_of_applied applied
    obtain ⟨-, written⟩ := writei_some wrote
    have appendedNow : (fileStep s (.writeChunk p)).data = s.data ++ c.bytes := by
      rw [written, writei_at_end appended.atEnd]
    rw [applied]
    refine ⟨?_, ?_⟩
    · rw [advanced, appendedNow, List.length_append, appended.atEnd]
    · rw [appendedNow, appended.data]
      simp

end Runs

open SharedFile in
/-- Any interleaving of fileread and filewrite on one shared FD_INODE file. Each chunk is
written at the offset it finds, which then moves past it. The chunks of the run lie at or past
the offset the run started from, each past the one before it and below the final offset, and
each is intact in the final file. When the run starts at the end of the file, the file ends as
its first bytes followed by the chunks in order, and its size grows by their lengths. -/
theorem shared_offset {ι : Type} [DecidableEq ι] (start : SharedFile ι)
    (fits : start.off ≤ start.data.length) (events : List (FileEvent ι)) :
    let final := run fileStep start events
    let chunks := eventTrace fileStep appliedChunk start events
    (∀ (s : SharedFile ι) p c, appliedChunk s (.writeChunk p) = [c] → c.off = s.off ∧
        (fileStep s (.writeChunk p)).off = s.off + c.bytes.length ∧
        ((fileStep s (.writeChunk p)).data.drop c.off).take c.bytes.length = c.bytes) ∧
    chunks.Pairwise (fun a b => a.off + a.bytes.length ≤ b.off) ∧
    (∀ c ∈ chunks, start.off ≤ c.off ∧ c.off + c.bytes.length ≤ final.off ∧
        (final.data.drop c.off).take c.bytes.length = c.bytes) ∧
    (start.off = start.data.length →
        final.data = start.data ++ (chunks.map Chunk.bytes).flatten ∧
        final.data.length = start.data.length + (chunks.map fun c => c.bytes.length).sum) := by
  intro final chunks
  have laid : Laid start final chunks := by
    have initial : Laid start start [] :=
      ⟨fits, Nat.le_refl _, List.Pairwise.nil, nofun, nofun, nofun⟩
    simpa using eventTrace_invariant (fun s shown event laid => laid.step event) initial events
  refine ⟨fun s p c applied => ?_, laid.ordered,
    fun c mem => ⟨laid.after c mem, laid.below c mem, laid.intact c mem⟩, fun atEnd => ?_⟩
  · obtain ⟨at', wrote, advanced⟩ := fileStep_of_applied applied
    obtain ⟨fitsThere, written⟩ := writei_some wrote
    refine ⟨at', advanced, ?_⟩
    rw [written, at']
    exact window_writei fitsThere
  · have appended : Appended start final chunks := by
      have initial : Appended start start [] := ⟨atEnd, by simp⟩
      simpa using eventTrace_invariant (fun s shown event appended => appended.step event)
        initial events
    refine ⟨appended.data, ?_⟩
    rw [appended.data, List.length_append, List.length_flatten, List.map_map]
    rfl

/-- sharedfd's two processes on a new file: the child writes ten 'c's and the parent ten 'p's,
one chunk each, the child's first. -/
def sharedfdStart : SharedFile Nat where
  readable := true
  writable := true
  off := 0
  data := []
  calls := fun _ => .idle
  returned := fun _ => none

def sharedfdEvents : List (FileEvent Nat) :=
  [.write 0 (List.replicate 10 99), .write 1 (List.replicate 10 112), .writeChunk 0,
    .writeChunk 1, .writeChunk 0, .writeChunk 1]

theorem shared_offset_sharedfd :
    sharedfdStart.off ≤ sharedfdStart.data.length ∧
      (run SharedFile.fileStep sharedfdStart sharedfdEvents).data =
        List.replicate 10 99 ++ List.replicate 10 112 := by
  refine ⟨Nat.zero_le _, ?_⟩
  have appended := ((shared_offset sharedfdStart (Nat.zero_le _) sharedfdEvents).2.2.2 rfl).1
  rw [appended]
  decide

end Xv6.Fs
