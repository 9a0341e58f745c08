import Xv6.Kernel.Mp

/-!
# mpinit's entry loop

The entries of a configuration table, as mpinit reads them, are a walk from the first byte
after the header: each entry of a known type starts before the table's end and the next one
starts after it (`Walk`). A walk either runs past the end, over entries all of known types, or
meets an entry of an unknown type before the end (`Stuck`); one of the two happens for every
table, whatever its bytes and its length.

Over a walk that runs past the end, mpinit's loop ends after a round per entry, records the
apicids of the first NCPU processor entries in `cpus[0 .. ncpu)`, and keeps the last I/O APIC
entry's `apicno`. At an entry of an unknown type the loop sets `ismp` to 0 and stays where it
is: it never ends, and the panic after it, "Didn't find a suitable machine", is never reached.
-/

namespace Xv6.Kernel

/-- An entry, as the `switch` of mpinit reads its type byte. -/
inductive Entry
  | proc (apicid : UInt8)
  | ioapic (apicno : UInt8)
  | other
  | unknown
  deriving DecidableEq

/-- The entry at `p`. -/
def entryAt (mem : Nat → UInt8) (p : Nat) : Entry :=
  if mem p = MPPROC then .proc (mem (p + 1))
  else if mem p = MPIOAPIC then .ioapic (mem (p + 1))
  else if mem p = MPBUS ∨ mem p = MPIOINTR ∨ mem p = MPLINTR then .other
  else .unknown

/-- How far an entry moves the loop. -/
def Entry.size : Entry → Nat
  | .proc _ => mpprocSize
  | .ioapic _ => mpioapicSize
  | .other => 8
  | .unknown => 0

/-- The entries from `p` to `q`: each starts before the end `e` and has a known type. -/
inductive Walk (mem : Nat → UInt8) (e : Nat) : Nat → List Entry → Nat → Prop
  | stop {p : Nat} : Walk mem e p [] p
  | next {p q : Nat} {l : List Entry} : p < e → entryAt mem p ≠ .unknown →
      Walk mem e (p + (entryAt mem p).size) l q → Walk mem e p (entryAt mem p :: l) q

/-- The walk from `p` meets an entry of an unknown type before the end. -/
def Stuck (mem : Nat → UInt8) (e p : Nat) : Prop :=
  ∃ l q, Walk mem e p l q ∧ q < e ∧ entryAt mem q = .unknown

/-- The walk from `p` runs past the end over the entries `l`. -/
def Ends (mem : Nat → UInt8) (e p : Nat) (l : List Entry) : Prop :=
  ∃ q, Walk mem e p l q ∧ e ≤ q

/-- The apicids of the processor entries, in table order. -/
def procs (l : List Entry) : List UInt8 :=
  l.filterMap fun | .proc a => some a | _ => none

/-- The apicnos of the I/O APIC entries, in table order. -/
def ioapics (l : List Entry) : List UInt8 :=
  l.filterMap fun | .ioapic a => some a | _ => none

/-- The apicids in `cpus[0 .. ncpu)`. -/
def MpGlobals.recorded (m : MpGlobals) : List UInt8 := (List.range m.ncpu).map m.apicid

/-- What the loop has done over the entries `l`, from `s` to `s'`: it recorded their processors
while slots were left and kept their last I/O APIC, and changed nothing else it reads. -/
structure Read (l : List Entry) (s s' : Scan) : Prop where
  ismp : s'.ismp = s.ismp
  lapic : s'.globals.lapic = s.globals.lapic
  bounded : s'.globals.ncpu ≤ NCPU
  recorded : s'.globals.recorded = (s.globals.recorded ++ procs l).take NCPU
  ioapicid : s'.globals.ioapicid = (ioapics l).getLast?.getD s.globals.ioapicid

theorem MpGlobals.recorded_length (m : MpGlobals) : m.recorded.length = m.ncpu := by
  simp [MpGlobals.recorded]

theorem Entry.size_pos {x : Entry} (known : x ≠ .unknown) : 0 < x.size := by
  cases x with
  | proc _ => show 0 < mpprocSize; decide
  | ioapic _ => show 0 < mpioapicSize; decide
  | other => decide
  | unknown => exact absurd rfl known

@[simp] theorem procs_proc (a : UInt8) : procs [.proc a] = [a] := rfl
@[simp] theorem procs_ioapic (a : UInt8) : procs [.ioapic a] = [] := rfl
@[simp] theorem procs_other : procs [.other] = [] := rfl
@[simp] theorem ioapics_proc (a : UInt8) : ioapics [.proc a] = [] := rfl
@[simp] theorem ioapics_ioapic (a : UInt8) : ioapics [.ioapic a] = [a] := rfl
@[simp] theorem ioapics_other : ioapics [.other] = [] := rfl

/-- Cutting a list to `n` before appending more changes nothing that a second cut keeps. -/
theorem take_take_append {α : Type} (n : Nat) (a b : List α) :
    ((a.take n) ++ b).take n = (a ++ b).take n := by
  rw [List.take_append, List.take_append, List.take_take, Nat.min_self, List.length_take]
  by_cases short : a.length ≤ n
  · rw [Nat.min_eq_right short]
  · rw [Nat.min_eq_left (by omega), Nat.sub_self, Nat.sub_eq_zero_of_le (by omega)]

section Loop

variable {mem : Nat → UInt8} {e : Nat}

theorem Read.refl {s : Scan} (bounded : s.globals.ncpu ≤ NCPU) : Read [] s s where
  ismp := rfl
  lapic := rfl
  bounded := bounded
  recorded := by
    rw [procs, List.filterMap_nil, List.append_nil,
      List.take_of_length_le (by rw [MpGlobals.recorded_length]; exact bounded)]
  ioapicid := rfl

theorem Read.trans {l l' : List Entry} {s s' s'' : Scan} (first : Read l s s')
    (second : Read l' s' s'') : Read (l ++ l') s s'' where
  ismp := second.ismp.trans first.ismp
  lapic := second.lapic.trans first.lapic
  bounded := second.bounded
  recorded := by
    rw [second.recorded, first.recorded, take_take_append, procs, procs, procs,
      List.filterMap_append, List.append_assoc]
  ioapicid := by
    rw [second.ioapicid, first.ioapicid, ioapics, ioapics, ioapics, List.filterMap_append,
      List.getLast?_append]
    cases (List.filterMap _ l').getLast? <;> rfl

/-- An entry of an unknown type leaves the loop where it is, with `ismp` cleared. -/
theorem mpinitStep_unknown {s : Scan} (unknown : entryAt mem s.p = .unknown) :
    mpinitStep mem s = { s with ismp := false } := by
  unfold entryAt at unknown
  dsimp only [mpinitStep]
  split_ifs at unknown ⊢
  rfl

/-- An entry that adds no processor leaves what the loop has recorded as it was. -/
theorem recorded_take_of_none {s : Scan} (bounded : s.globals.ncpu ≤ NCPU) :
    (s.globals.recorded ++ []).take NCPU = s.globals.recorded := by
  rw [List.append_nil, List.take_of_length_le (by rw [MpGlobals.recorded_length]; exact bounded)]

/-- One round over an entry of a known type: the loop moves past it and reads it. A processor entry
fills a slot while one is left, and an I/O APIC entry's apicno is kept. -/
theorem mpinitStep_known {s : Scan} (known : entryAt mem s.p ≠ .unknown)
    (bounded : s.globals.ncpu ≤ NCPU) :
    (mpinitStep mem s).p = s.p + (entryAt mem s.p).size ∧
      Read [entryAt mem s.p] s (mpinitStep mem s) := by
  unfold entryAt at known ⊢
  dsimp only [mpinitStep]
  by_cases proc : mem s.p = MPPROC
  · rw [if_pos proc, if_pos proc]
    refine ⟨rfl, ?_⟩
    by_cases room : s.globals.ncpu < NCPU
    · rw [if_pos room]
      refine ⟨rfl, rfl, room, ?_, rfl⟩
      have count : (s.globals.recorded ++ [mem (s.p + 1)]).length ≤ NCPU := by
        rw [List.length_append, MpGlobals.recorded_length]
        exact room
      rw [procs_proc, List.take_of_length_le count]
      simp only [MpGlobals.recorded, List.range_succ, List.map_append, List.map_cons, List.map_nil,
        Function.update_self]
      congr 1
      apply List.map_congr_left
      intro i below
      exact Function.update_of_ne (Nat.ne_of_lt (List.mem_range.mp below)) _ _
    · rw [if_neg room]
      have full : s.globals.recorded.length = NCPU := by
        rw [MpGlobals.recorded_length]
        omega
      refine ⟨rfl, rfl, bounded, ?_, rfl⟩
      rw [procs_proc, List.take_append_of_le_length full.ge, List.take_of_length_le full.le]
  · rw [if_neg proc, if_neg proc]
    by_cases ioapic : mem s.p = MPIOAPIC
    · rw [if_pos ioapic, if_pos ioapic]
      exact ⟨rfl, rfl, rfl, bounded, by rw [procs_ioapic]; exact (recorded_take_of_none bounded).symm,
        rfl⟩
    · rw [if_neg ioapic, if_neg ioapic]
      by_cases other : mem s.p = MPBUS ∨ mem s.p = MPIOINTR ∨ mem s.p = MPLINTR
      · rw [if_pos other, if_pos other]
        exact ⟨rfl, rfl, rfl, bounded, by rw [procs_other]; exact (recorded_take_of_none bounded).symm,
          rfl⟩
      · rw [if_neg proc, if_neg ioapic, if_neg other] at known
        exact absurd rfl known

/-- Over a walk, the loop takes a round per entry and arrives where the walk ends, having read
its entries; with fewer rounds it runs out. -/
theorem mpinitLoop_walk {p q : Nat} {l : List Entry} (walk : Walk mem e p l q) :
    ∀ s : Scan, s.p = p → s.globals.ncpu ≤ NCPU → ∃ s', s'.p = q ∧ Read l s s' ∧
      ∀ fuel, mpinitLoop mem e fuel s =
        if l.length ≤ fuel then mpinitLoop mem e (fuel - l.length) s' else none := by
  induction walk with
  | stop =>
    intro s _ bounded
    exact ⟨s, by assumption, Read.refl bounded, fun fuel => by simp⟩
  | @next p q l inside known _ ih =>
    intro s at_p bounded
    subst at_p
    obtain ⟨moved, read⟩ := mpinitStep_known known bounded
    obtain ⟨s', at_q, rest, loop⟩ := ih (mpinitStep mem s) moved read.bounded
    refine ⟨s', at_q, read.trans rest, fun fuel => ?_⟩
    cases fuel with
    | zero => rfl
    | succ fuel =>
      rw [mpinitLoop, if_pos inside, loop fuel]
      simp only [List.length_cons, Nat.add_le_add_iff_right, Nat.add_sub_add_right]

/-- At an entry of an unknown type before the end, the loop never ends. -/
theorem mpinitLoop_stuck : ∀ (fuel : Nat) (s : Scan), s.p < e → entryAt mem s.p = .unknown →
    mpinitLoop mem e fuel s = none
  | 0, _, _, _ => rfl
  | fuel + 1, s, inside, unknown => by
    rw [mpinitLoop, if_pos inside, mpinitStep_unknown unknown]
    exact mpinitLoop_stuck fuel _ inside unknown

/-- Every table's walk runs past the end or meets an entry of an unknown type before it. -/
theorem walk_ends_or_stuck (mem : Nat → UInt8) (e p : Nat) :
    (∃ l, Ends mem e p l) ∨ Stuck mem e p := by
  by_cases inside : p < e
  · by_cases unknown : entryAt mem p = .unknown
    · exact .inr ⟨[], p, .stop, inside, unknown⟩
    · have positive := Entry.size_pos unknown
      rcases walk_ends_or_stuck mem e (p + (entryAt mem p).size) with
        ⟨l, q, walk, past⟩ | ⟨l, q, walk, before, stuck⟩
      · exact .inl ⟨_, q, .next inside unknown walk, past⟩
      · exact .inr ⟨_, q, .next inside unknown walk, before, stuck⟩
  · exact .inl ⟨[], p, .stop, by omega⟩
termination_by e - p

end Loop

/-- mpinit on a table mpconfig accepts, whatever its entries and its length: the table's walk
runs past its end or is stuck. When it runs past the end, mpinit ends after a round per entry,
with the apicids of the first NCPU processor entries in `cpus[0 .. ncpu)`, the last I/O APIC
entry's apicno in `ioapicid` and the table's `lapicaddr`. When it is stuck at an entry of an
unknown type, mpinit never returns: it neither ends nor panics. -/
theorem mpinit_entry_loop {mem : Nat → UInt8} {mp conf : Nat}
    (found : mpconfig mem = .ok (some (mp, conf))) :
    ((∃ l, Ends mem (tableEnd mem conf) (conf + mpconfSize) l) ∨
      Stuck mem (tableEnd mem conf) (conf + mpconfSize)) ∧
    (∀ l, Ends mem (tableEnd mem conf) (conf + mpconfSize) l → ∀ fuel, l.length < fuel →
      ∃ m, mpinit mem fuel = some (.ok m) ∧ m.recorded = (procs l).take NCPU ∧
        m.ioapicid = (ioapics l).getLast?.getD 0 ∧ m.lapic = lapicaddr mem conf) ∧
    (Stuck mem (tableEnd mem conf) (conf + mpconfSize) → ∀ fuel, mpinit mem fuel = none) := by
  have bounded : (mpinitStart mem conf).globals.ncpu ≤ NCPU := Nat.zero_le _
  refine ⟨walk_ends_or_stuck mem _ _, fun l ⟨q, walk, past⟩ fuel enough => ?_,
    fun ⟨l, q, walk, before, unknown⟩ fuel => ?_⟩
  · obtain ⟨s', at_q, read, loop⟩ := mpinitLoop_walk walk (mpinitStart mem conf) rfl bounded
    obtain ⟨rounds, more⟩ : ∃ k, fuel - l.length = k + 1 := ⟨fuel - l.length - 1, by omega⟩
    have ended : mpinitLoop mem (tableEnd mem conf) fuel (mpinitStart mem conf) = some s' := by
      rw [loop, if_pos (by omega), more, mpinitLoop, if_neg (by omega)]
    refine ⟨s'.globals, ?_, by rw [read.recorded]; rfl, read.ioapicid, read.lapic⟩
    rw [mpinit, found]
    dsimp only
    rw [ended]
    dsimp only
    rw [read.ismp]
    rfl
  · obtain ⟨s', at_q, -, loop⟩ := mpinitLoop_walk walk (mpinitStart mem conf) rfl bounded
    have never : mpinitLoop mem (tableEnd mem conf) fuel (mpinitStart mem conf) = none := by
      rw [loop]
      split_ifs
      · exact mpinitLoop_stuck _ s' (at_q ▸ before) (at_q ▸ unknown)
      · rfl
    rw [mpinit, found]
    dsimp only
    rw [never]

/-- A floating pointer in the EBDA at 0x9FC00 for a table at 0x9FD00 of one entry, of type 5,
which no case of the switch names; both checksums pass. -/
def brokenTable : Nat → UInt8 := fun a =>
  if 0x9FC00 ≤ a ∧ a < 0x9FC10 then
    ([95, 77, 80, 95, 0x00, 0xFD, 0x09, 0x00, 1, 4, 154, 0, 0, 0, 0, 0] : List UInt8).getD
      (a - 0x9FC00) 0
  else if 0x9FD00 ≤ a ∧ a < 0x9FD34 then
    (([80, 67, 77, 80, 52, 0, 4, 180] : List UInt8) ++ List.replicate 26 0 ++ [1, 0, 0, 0, 0xE0, 0xFE] ++
      [0, 0, 0, 0, 5, 0, 0, 0, 0, 0, 0, 0]).getD (a - 0x9FD00) 0
  else if a = 0x40E then 0xC0
  else if a = 0x40F then 0x9F
  else 0

theorem mpinit_entry_loop_brokenTable :
    mpconfig brokenTable = .ok (some (0x9FC00, 0x9FD00)) ∧ ∀ fuel, mpinit brokenTable fuel = none :=
  ⟨by decide, (mpinit_entry_loop
    (show mpconfig brokenTable = .ok (some (0x9FC00, 0x9FD00)) by decide)).2.2
      ⟨[], _, .stop, by decide, by decide⟩⟩

/-- With neither the EBDA segment nor the base memory size in the BIOS data area, `p-1024`
wraps, and mpinit's first read through `P2V` of it faults, whatever the rest of memory holds. -/
theorem mpinit_faults_without_bda {mem : Nat → UInt8} (noEbda : mem 0x40E = 0 ∧ mem 0x40F = 0)
    (noBase : mem 0x413 = 0 ∧ mem 0x414 = 0) (fuel : Nat) :
    mpinit mem fuel = some (.error pageFault) := by
  have searched : mpsearch mem = .error pageFault := by
    have wrapped : directMapped 0xFFFFFC00 1024 = false := by decide
    simp [mpsearch, noEbda, noBase, mpsearch1, wrapped]
  simp [mpinit, mpconfig, searched]

/-- A BIOS data area of zeros, as a machine with none gives. -/
example : mpinit (fun _ => 0) 1 = some (.error pageFault) :=
  mpinit_faults_without_bda ⟨rfl, rfl⟩ ⟨rfl, rfl⟩ 1

end Xv6.Kernel
