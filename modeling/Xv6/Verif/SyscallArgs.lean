import Xv6.Kernel.Syscall
import Xv6.Mem.Kalloc

/-!
# The argument fetchers stay below the process size

fetchint, fetchstr and argptr check user addresses against `sz` with unsigned 32-bit
comparisons, and argptr adds a signed size to an unsigned pointer. Every process keeps its size
below KERNBASE = 2³¹, and then none of these sums wraps: fetchint succeeds exactly when the
word's four bytes lie below `sz`, fetchstr exactly when a NUL lies between the address and `sz`
and it returns the offset of the first one, and argptr exactly when the size is not negative and
the whole block lies below `sz`. fetchstr needs no bound: its loop stops at `sz`.
-/

namespace Xv6.Kernel

open Xv6.Bytes

/-- An address plus a number that stays below 2³² is their sum. -/
theorem toNat_add_ofNat {addr : UInt32} {j : Nat} (below : addr.toNat + j < 2 ^ 32) :
    (addr + UInt32.ofNat j).toNat = addr.toNat + j := by
  rw [UInt32.toNat_add, UInt32.toNat_ofNat', Nat.mod_eq_of_lt (by omega : j < 2 ^ 32),
    Nat.mod_eq_of_lt below]

/-- A size that is not negative is stored as itself. -/
theorem toNat_toUInt32_of_nonneg {size : Int32} (nonneg : 0 ≤ size.toInt) :
    (size.toUInt32.toNat : Int) = size.toInt := by
  have bits := BitVec.toInt_eq_toNat_cond size.toBitVec
  rw [Int32.toInt_toBitVec] at bits
  have bounded := size.toBitVec.isLt
  rw [← UInt32.toNat_toBitVec, Int32.toBitVec_toUInt32]
  split at bits <;> omega

section Loop

variable (memory : Memory) (ep : UInt32)

/-- The count the loop carries is added to what it returns. -/
theorem fetchstrLoop_len : ∀ (fuel : Nat) (s : UInt32) (len : Nat),
    fetchstrLoop memory ep fuel s len = (fetchstrLoop memory ep fuel s 0).map (· + len)
  | 0, _, _ => rfl
  | fuel + 1, s, len => by
    simp only [fetchstrLoop]
    split_ifs
    · simp
    · rw [fetchstrLoop_len fuel (s + 1) (len + 1), fetchstrLoop_len fuel (s + 1) 1,
        Option.map_map]
      congr 1
      funext k
      simp only [Function.comp]
      omega
    · rfl

/-- Over the `fuel` addresses from `s` up to `ep`, none of which wraps, the loop returns the
offset of the first 0 byte. -/
theorem fetchstrLoop_eq_some : ∀ (fuel : Nat) (s : UInt32), s.toNat + fuel = ep.toNat →
    ∀ k, fetchstrLoop memory ep fuel s 0 = some k ↔
      k < fuel ∧ memory (s + UInt32.ofNat k) = 0 ∧ ∀ j < k, memory (s + UInt32.ofNat j) ≠ 0
  | 0, s, _, k => by simp [fetchstrLoop]
  | fuel + 1, s, fits, k => by
    have bounded := ep.toNat_lt
    have below : s < ep := by rw [UInt32.lt_iff_toNat_lt]; omega
    have next : (s + 1).toNat + fuel = ep.toNat := by
      rw [UInt32.toNat_add, UInt32.toNat_one, Nat.mod_eq_of_lt (by omega)]
      omega
    have shift : ∀ j : Nat, s + 1 + UInt32.ofNat j = s + UInt32.ofNat (j + 1) := by
      intro j
      rw [UInt32.ofNat_add, UInt32.ofNat_one]
      ac_rfl
    rw [fetchstrLoop, if_pos below]
    by_cases zero : memory s = 0
    · rw [if_pos zero]
      constructor
      · rintro ⟨⟩
        exact ⟨by omega, by simpa using zero, fun j less => absurd less (Nat.not_lt_zero j)⟩
      · rintro ⟨_, _, before⟩
        cases k with
        | zero => rfl
        | succ k => exact absurd zero (by simpa using before 0 (by omega))
    · rw [if_neg zero, fetchstrLoop_len]
      cases k with
      | zero =>
        refine iff_of_false ?_ fun ⟨_, here, _⟩ => zero (by simpa using here)
        simp
      | succ k =>
        have inner := fetchstrLoop_eq_some fuel (s + 1) next k
        simp only [Option.map_eq_some_iff, Nat.add_right_cancel_iff, exists_eq_right, inner,
          shift]
        constructor
        · rintro ⟨less, found, before⟩
          refine ⟨by omega, found, fun j lessJ => ?_⟩
          cases j with
          | zero => simpa using zero
          | succ j => exact before j (by omega)
        · rintro ⟨less, found, before⟩
          exact ⟨by omega, found, fun j lessJ => before (j + 1) (by omega)⟩

end Loop

section Fetch

variable (p : Proc)

/-- fetchstr returns `k` exactly when the first NUL from `addr` is `k` bytes on and below
`sz`. -/
theorem fetchstr_eq_some (addr : UInt32) (k : Nat) :
    fetchstr p addr = some k ↔ addr.toNat + k < p.sz.toNat ∧
      p.memory (addr + UInt32.ofNat k) = 0 ∧ ∀ j < k, p.memory (addr + UInt32.ofNat j) ≠ 0 := by
  unfold fetchstr
  split_ifs with past
  · rw [ge_iff_le, UInt32.le_iff_toNat_le] at past
    exact iff_of_false (by simp) fun ⟨below, _⟩ => by omega
  · have before : addr.toNat ≤ p.sz.toNat := by
      rw [ge_iff_le, UInt32.le_iff_toNat_le] at past
      omega
    have left : (p.sz - addr).toNat = p.sz.toNat - addr.toNat :=
      UInt32.toNat_sub_of_le _ _ (by rw [UInt32.le_iff_toNat_le]; exact before)
    rw [left, fetchstrLoop_eq_some p.memory p.sz _ addr (by omega)]
    constructor
    · rintro ⟨less, found, earlier⟩
      exact ⟨by omega, found, earlier⟩
    · rintro ⟨less, found, earlier⟩
      exact ⟨by omega, found, earlier⟩

/-- fetchstr succeeds exactly when some byte from `addr` up to `sz` is a NUL. The first NUL is the
one fetchstr returns. -/
theorem fetchstr_isSome (addr : UInt32) :
    (fetchstr p addr).isSome ↔ ∃ j, addr.toNat + j < p.sz.toNat ∧
      p.memory (addr + UInt32.ofNat j) = 0 := by
  constructor
  · intro found
    obtain ⟨k, fetched⟩ := Option.isSome_iff_exists.mp found
    obtain ⟨below, zero, -⟩ := (fetchstr_eq_some p addr k).mp fetched
    exact ⟨k, below, zero⟩
  · intro some_nul
    classical
    have first := Nat.find_spec some_nul
    have fetched := (fetchstr_eq_some p addr (Nat.find some_nul)).mpr
      ⟨first.1, first.2, fun j less zero =>
        Nat.find_min some_nul less ⟨by have := first.1; omega, zero⟩⟩
    rw [fetched]
    rfl

variable {p} (small : p.sz.toNat < Mem.KERNBASE)
include small

/-- fetchint succeeds exactly when the word's four bytes lie below `sz`. -/
theorem fetchint_isSome (addr : UInt32) :
    (fetchint p addr).isSome ↔ addr.toNat + 4 ≤ p.sz.toNat := by
  have kernbase : Mem.KERNBASE = 2 ^ 31 := rfl
  unfold fetchint
  split_ifs with bad
  · refine iff_of_false (by simp) fun fits => ?_
    rcases bad with past | wraps
    · rw [ge_iff_le, UInt32.le_iff_toNat_le] at past
      omega
    · rw [gt_iff_lt, UInt32.lt_iff_toNat_lt, UInt32.toNat_add] at wraps
      simp only [UInt32.reduceToNat] at wraps
      omega
  · refine iff_of_true rfl ?_
    simp only [not_or, ge_iff_le, gt_iff_lt, not_le, not_lt, UInt32.lt_iff_toNat_lt,
      UInt32.le_iff_toNat_le, UInt32.toNat_add, UInt32.reduceToNat] at bad
    omega

/-- The word fetchint returns is read from four addresses below `sz`, none of them wrapped. -/
theorem fetchint_reads (addr w : UInt32) (fetched : fetchint p addr = some w) :
    w = p.memory.read32 addr ∧ ∀ k < 4,
      (addr + UInt32.ofNat k).toNat = addr.toNat + k ∧ addr.toNat + k < p.sz.toNat := by
  have fits := (fetchint_isSome small addr).mp (by rw [fetched]; rfl)
  have kernbase : Mem.KERNBASE = 2 ^ 31 := rfl
  unfold fetchint at fetched
  split_ifs at fetched
  exact ⟨(Option.some.inj fetched).symm, fun k less =>
    ⟨toNat_add_ofNat (by omega), by omega⟩⟩

/-- argptr returns the fetched pointer exactly when the size is not negative and the whole
block lies below `sz`. -/
theorem argptr_eq_some (n : Nat) (size : Int32) (i : UInt32) :
    argptr p n size = some i ↔ argint p n = some i ∧ 0 ≤ size.toInt ∧
      i.toNat < p.sz.toNat ∧ i.toNat + size.toInt ≤ p.sz.toNat := by
  have kernbase : Mem.KERNBASE = 2 ^ 31 := rfl
  have sizeBound := Int32.toInt_lt size
  unfold argptr
  cases argint p n with
  | none => simp
  | some w =>
    simp only [Option.bind_eq_bind, Option.bind_some, Option.some.injEq]
    split_ifs with bad
    · refine iff_of_false (by simp) ?_
      rintro ⟨rfl, nonneg, below, fits⟩
      have stored := toNat_toUInt32_of_nonneg nonneg
      rcases bad with negative | past | wraps
      · rw [Int32.lt_iff_toInt_lt] at negative
        simp at negative
        omega
      · rw [ge_iff_le, UInt32.le_iff_toNat_le] at past
        omega
      · rw [gt_iff_lt, UInt32.lt_iff_toNat_lt, UInt32.toNat_add] at wraps
        have small' : w.toNat + size.toUInt32.toNat < 2 ^ 32 := by omega
        rw [Nat.mod_eq_of_lt small'] at wraps
        omega
    · simp only [not_or, ge_iff_le, gt_iff_lt, not_le, not_lt, UInt32.lt_iff_toNat_lt,
        UInt32.le_iff_toNat_le, UInt32.toNat_add, Int32.lt_iff_toInt_lt,
        Int32.toInt_zero] at bad
      obtain ⟨nonneg, below, fits⟩ := bad
      have stored := toNat_toUInt32_of_nonneg nonneg
      have small' : w.toNat + size.toUInt32.toNat < 2 ^ 32 := by omega
      rw [Nat.mod_eq_of_lt small'] at fits
      constructor
      · intro same
        obtain rfl := Option.some.inj same
        exact ⟨rfl, nonneg, by omega, by omega⟩
      · rintro ⟨rfl, -⟩
        rfl

end Fetch

/-- For a process below KERNBASE, what the fetchers accept: a word whose four bytes lie below
`sz`, read from those bytes without wrapping; a string whose NUL lies below `sz`, with the
offset of the first NUL; and a pointer to a block of a size that is not negative lying below
`sz`. -/
theorem fetchers_stay_below_sz (p : Proc) (small : p.sz.toNat < Mem.KERNBASE) :
    (∀ addr, (fetchint p addr).isSome ↔ addr.toNat + 4 ≤ p.sz.toNat) ∧
    (∀ addr w, fetchint p addr = some w → w = p.memory.read32 addr ∧
      ∀ k < 4, (addr + UInt32.ofNat k).toNat = addr.toNat + k ∧ addr.toNat + k < p.sz.toNat) ∧
    (∀ addr k, fetchstr p addr = some k ↔ addr.toNat + k < p.sz.toNat ∧
      p.memory (addr + UInt32.ofNat k) = 0 ∧ ∀ j < k, p.memory (addr + UInt32.ofNat j) ≠ 0) ∧
    (∀ addr, (fetchstr p addr).isSome ↔ ∃ j, addr.toNat + j < p.sz.toNat ∧
      p.memory (addr + UInt32.ofNat j) = 0) ∧
    (∀ n size i, argptr p n size = some i ↔ argint p n = some i ∧ 0 ≤ size.toInt ∧
      i.toNat < p.sz.toNat ∧ i.toNat + size.toInt ≤ p.sz.toNat) :=
  ⟨fetchint_isSome small, fetchint_reads small, fetchstr_eq_some p, fetchstr_isSome p,
    argptr_eq_some small⟩

/-- A process of eight bytes whose byte 5 is the only NUL. -/
def argProc : Proc := { Proc.empty with sz := 8, memory := fun a => if a = 5 then 0 else 65 }

/-- In it the word at 4 can be fetched, and the string at 2 is three bytes long. -/
theorem fetchers_small_process : (fetchint argProc 4).isSome ∧ fetchstr argProc 2 = some 3 :=
  ⟨((fetchers_stay_below_sz argProc (by decide)).1 4).mpr (by decide),
    ((fetchers_stay_below_sz argProc (by decide)).2.2.1 2 3).mpr
      ⟨by decide, by decide, by decide⟩⟩

end Xv6.Kernel
