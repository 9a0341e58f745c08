import Xv6.Mem.Copyout

/-!
# What copyout copies, and the PTE it reads at address 0

`copyout` copies in pieces, one for each page of the user range: the first from `va` to the end
of its page, the others from the start of a page, the last up to the end of the range. Each
piece goes to the page `uva2ka` gives, and the call returns 0 exactly when uva2ka gives the
page of every byte of the range. Where every page table on the way is present, that is every
page of the range being present with PTE_U. Where one is absent, uva2ka reads the word at
address 0 in its place: the result depends on that word, and a word with PTE_P and PTE_U sends
the bytes to the page it names.
-/

namespace Xv6.Mem

open Xv6.Copy Xv6.Kernel

/-- What uva2ka makes of a PTE: its page, when it is present with PTE_U. -/
def userAddr : Option Pte → Option Nat
  | none => none
  | some pte => if pte.perm.user then some pte.addr else none

theorem userAddr_isSome {x : Option Pte} :
    (userAddr x).isSome ↔ ∃ pte, x = some pte ∧ pte.perm.user = true := by
  cases x with
  | none => simp [userAddr]
  | some pte => by_cases user : pte.perm.user <;> simp [userAddr, user]

theorem uva2ka_of_present {pd : PageDir} {table : PageTab} {a : Nat} (atZero : Option Pte)
    (present : pd.tables (PDX a) = some table) : uva2ka pd atZero a = userAddr (pd.entry a) := by
  simp only [uva2ka, walkpgdir, present]
  cases pd.entry a with
  | none => rfl
  | some pte => by_cases user : pte.perm.user <;> simp [userAddr, user]

theorem uva2ka_of_absent {pd : PageDir} {a : Nat} (atZero : Option Pte)
    (absent : pd.tables (PDX a) = none) : uva2ka pd atZero a = userAddr atZero := by
  simp only [uva2ka, walkpgdir, absent, Bool.not_false, ↓reduceIte]
  cases atZero with
  | none => rfl
  | some pte => by_cases user : pte.perm.user <;> simp [userAddr, user]

/-! ## Pages -/

theorem PDX_PGROUNDDOWN (a : Nat) : PDX (PGROUNDDOWN a) = PDX a := by
  simp only [PDX, PGROUNDDOWN, PGSIZE, NPDENTRIES, Fin.ext_iff, Fin.ofNat]
  omega

theorem PTX_PGROUNDDOWN (a : Nat) : PTX (PGROUNDDOWN a) = PTX a := by
  simp only [PTX, PGROUNDDOWN, PGSIZE, NPTENTRIES, Fin.ext_iff, Fin.ofNat]
  omega

theorem PageDir.entry_PGROUNDDOWN (pd : PageDir) (a : Nat) :
    pd.entry (PGROUNDDOWN a) = pd.entry a := by
  rw [PageDir.entry, PageDir.entry, PDX_PGROUNDDOWN, PTX_PGROUNDDOWN]

theorem sub_PGROUNDDOWN (va : Nat) : va - PGROUNDDOWN va = va % PGSIZE := by
  unfold PGROUNDDOWN
  have := Nat.div_add_mod va PGSIZE
  rw [Nat.mul_comm] at this
  omega

/-- The length of one of copyout's pieces from `va`, with `len` bytes left: to the end of the
page, or to the end of the range when that comes first. -/
structure Piece (va len n : Nat) : Prop where
  pos : 0 < n
  le : n ≤ len
  within : n ≤ PGSIZE - va % PGSIZE
  whole : n < len → n = PGSIZE - va % PGSIZE

section Piece

variable {va len n : Nat} (piece : Piece va len n)
include piece

/-- The bytes of the first piece lie in the page of `va`. -/
theorem Piece.page (uint : va < 2 ^ 32) {i : Nat} (inside : i < n) :
    PGROUNDDOWN ((va + i) % 2 ^ 32) = PGROUNDDOWN va := by
  have within := piece.within
  unfold PGROUNDDOWN PGSIZE at *
  omega

theorem Piece.offset {i : Nat} (inside : i < n) : (va + i) % 2 ^ 32 % PGSIZE = va % PGSIZE + i := by
  have within := piece.within
  unfold PGSIZE at *
  omega

/-- The bytes after the first piece are those of a copy from the next page. -/
theorem Piece.rest {j : Nat} (later : j < len - n) :
    (va + (n + j)) % 2 ^ 32 = ((PGROUNDDOWN va + PGSIZE) % 2 ^ 32 + j) % 2 ^ 32 := by
  have whole := piece.whole (by omega)
  unfold PGROUNDDOWN PGSIZE at *
  omega

end Piece

theorem copyout_zero (pd : PageDir) (atZero : Option Pte) (mem : Nat → UInt8) (va buf : Nat) :
    copyout pd atZero mem va buf 0 = (mem, 0) := by
  rw [copyout, if_pos rfl]

/-- One round of copyout's loop: a piece into the page uva2ka gives for `va`, and the rest of
the range from the next page. -/
theorem copyout_step (pd : PageDir) (atZero : Option Pte) (mem : Nat → UInt8) (va buf : Nat)
    {len : Nat} (more : len ≠ 0) :
    ∃ n, Piece va len n ∧ copyout pd atZero mem va buf len =
      match uva2ka pd atZero (PGROUNDDOWN va) with
      | none => (mem, -1)
      | some pa0 =>
        copyout pd atZero (memmove mem (pa0 + va % PGSIZE) buf n)
          ((PGROUNDDOWN va + PGSIZE) % 2 ^ 32) (buf + n) (len - n) := by
  have offset : va % PGSIZE < PGSIZE := Nat.mod_lt _ (by decide)
  refine ⟨if PGSIZE - va % PGSIZE > len then len else PGSIZE - va % PGSIZE, ?_, ?_⟩
  · split <;> exact ⟨by omega, by omega, by omega, by omega⟩
  · rw [copyout, if_neg more]
    dsimp only
    cases uva2ka pd atZero (PGROUNDDOWN va) with
    | none => rfl
    | some pa0 => simp only [sub_PGROUNDDOWN]

/-! ## Which copies succeed -/

/-- uva2ka gives the page of every byte of the `len` bytes from the user address `va`. -/
def Resolves (pd : PageDir) (atZero : Option Pte) (va len : Nat) : Prop :=
  ∀ i < len, (uva2ka pd atZero (PGROUNDDOWN ((va + i) % 2 ^ 32))).isSome

instance (pd : PageDir) (atZero : Option Pte) (va len : Nat) :
    Decidable (Resolves pd atZero va len) :=
  inferInstanceAs (Decidable (∀ i < len, _))

theorem Resolves.zero (pd : PageDir) (atZero : Option Pte) (va : Nat) : Resolves pd atZero va 0 :=
  fun _ past => absurd past (Nat.not_lt_zero _)

/-- A range resolves when its first page does and the rest of it, from the next page, does. -/
theorem Piece.resolves {pd : PageDir} {atZero : Option Pte} {va len n : Nat}
    (piece : Piece va len n) (uint : va < 2 ^ 32) :
    Resolves pd atZero va len ↔
      (uva2ka pd atZero (PGROUNDDOWN va)).isSome ∧
        Resolves pd atZero ((PGROUNDDOWN va + PGSIZE) % 2 ^ 32) (len - n) := by
  constructor
  · intro resolves
    refine ⟨?_, fun j later => ?_⟩
    · have first := resolves 0 (by have := piece.pos; have := piece.le; omega)
      rwa [piece.page uint piece.pos] at first
    · have byte := resolves (n + j) (by omega)
      rwa [piece.rest later] at byte
  · rintro ⟨first, rest⟩ i inside
    by_cases early : i < n
    · rwa [piece.page uint early]
    · obtain ⟨j, rfl⟩ : ∃ j, i = n + j := ⟨i - n, by omega⟩
      rw [piece.rest (by omega)]
      exact rest j (by omega)

/-- copyout returns 0 exactly when uva2ka gives every page of the range, and -1 otherwise. The
induction is on the bytes left, which each round makes fewer. -/
theorem copyout_ret (pd : PageDir) (atZero : Option Pte) (mem : Nat → UInt8) {va : Nat}
    (buf len : Nat) (uint : va < 2 ^ 32) :
    (copyout pd atZero mem va buf len).2 = if Resolves pd atZero va len then 0 else -1 := by
  induction len using Nat.strong_induction_on generalizing mem va buf with
  | _ len ih =>
    by_cases done : len = 0
    · subst done
      rw [copyout_zero, if_pos (Resolves.zero pd atZero va)]
    · obtain ⟨n, piece, step⟩ := copyout_step pd atZero mem va buf done
      have fewer : len - n < len := by have := piece.pos; omega
      rw [step]
      cases found : uva2ka pd atZero (PGROUNDDOWN va) with
      | none => simp [piece.resolves uint, found]
      | some pa0 =>
        rw [ih (len - n) fewer _ _ (Nat.mod_lt _ (by decide))]
        simp [piece.resolves uint, found]

/-- Where every page table of the range is present, a range resolves exactly when each of its
pages is present with PTE_U. -/
theorem resolves_iff_present {pd : PageDir} {atZero : Option Pte} {va len : Nat}
    (tables : ∀ i < len, (pd.tables (PDX ((va + i) % 2 ^ 32))).isSome) :
    Resolves pd atZero va len ↔
      ∀ i < len, ∃ pte, pd.entry ((va + i) % 2 ^ 32) = some pte ∧ pte.perm.user = true := by
  refine forall₂_congr fun i inside => ?_
  obtain ⟨table, present⟩ := Option.isSome_iff_exists.mp (tables i inside)
  rw [uva2ka_of_present atZero
      (show pd.tables (PDX (PGROUNDDOWN ((va + i) % 2 ^ 32))) = some table by rwa [PDX_PGROUNDDOWN]),
    PageDir.entry_PGROUNDDOWN, userAddr_isSome]

/-! ## What a copy writes -/

/-- Where copyout puts the byte `i` of its source: at the user address `va + i`, in the page
uva2ka gives for it (read only where it gives one). -/
def userByte (pd : PageDir) (atZero : Option Pte) (va i : Nat) : Nat :=
  (uva2ka pd atZero (PGROUNDDOWN ((va + i) % 2 ^ 32))).getD 0 + (va + i) % 2 ^ 32 % PGSIZE

/-- No two bytes of the range land on one byte of memory. -/
def Distinct (pd : PageDir) (atZero : Option Pte) (va len : Nat) : Prop :=
  ∀ i < len, ∀ j < len, userByte pd atZero va i = userByte pd atZero va j → i = j

/-- No byte of the range lands on a byte of the source. -/
def Apart (pd : PageDir) (atZero : Option Pte) (va buf len : Nat) : Prop :=
  ∀ i < len, ∀ j < len, userByte pd atZero va i ≠ buf + j

section Piece

variable {pd : PageDir} {atZero : Option Pte} {va len n : Nat} (piece : Piece va len n)
include piece

theorem Piece.userByte_first (uint : va < 2 ^ 32) {pa0 : Nat}
    (found : uva2ka pd atZero (PGROUNDDOWN va) = some pa0) {i : Nat} (inside : i < n) :
    userByte pd atZero va i = pa0 + va % PGSIZE + i := by
  rw [userByte, piece.page uint inside, found, piece.offset inside, Option.getD_some,
    Nat.add_assoc]

theorem Piece.userByte_rest {j : Nat} (later : j < len - n) :
    userByte pd atZero va (n + j) = userByte pd atZero ((PGROUNDDOWN va + PGSIZE) % 2 ^ 32) j := by
  rw [userByte, userByte, piece.rest later]

theorem Piece.distinct_rest (distinct : Distinct pd atZero va len) :
    Distinct pd atZero ((PGROUNDDOWN va + PGSIZE) % 2 ^ 32) (len - n) := by
  intro i early j later same
  rw [← piece.userByte_rest early, ← piece.userByte_rest later] at same
  have := distinct (n + i) (by omega) (n + j) (by omega) same
  omega

theorem Piece.apart_rest {buf : Nat} (apart : Apart pd atZero va buf len) :
    Apart pd atZero ((PGROUNDDOWN va + PGSIZE) % 2 ^ 32) (buf + n) (len - n) := by
  intro i early j later
  rw [← piece.userByte_rest early, Nat.add_assoc]
  exact apart (n + i) (by omega) (n + j) (by omega)

/-- One piece and then the rest: the first piece is a `memmove` into the page uva2ka gives. The
first piece writes none of the rest's bytes and reads none of them. -/
theorem Piece.scattered (uint : va < 2 ^ 32) {mem mem₂ : Nat → UInt8} {buf pa0 : Nat}
    (found : uva2ka pd atZero (PGROUNDDOWN va) = some pa0)
    (distinct : Distinct pd atZero va len) (apart : Apart pd atZero va buf len)
    (rest : Scattered (memmove mem (pa0 + va % PGSIZE) buf n) mem₂
      (userByte pd atZero ((PGROUNDDOWN va + PGSIZE) % 2 ^ 32)) (buf + n) (len - n)) :
    Scattered mem mem₂ (userByte pd atZero va) buf len := by
  have within := piece.le
  have first : Scattered mem (memmove mem (pa0 + va % PGSIZE) buf n)
      (userByte pd atZero va) buf n := by
    rw [memmove_eq_moved]
    exact (Scattered.of_moved mem _ buf n).congr fun i inside =>
      (piece.userByte_first uint found inside).symm
  have second := rest.congr fun j later => (piece.userByte_rest later).symm
  have whole := first.append second
    (fun i early j later same => by
      have := distinct (n + j) (by omega) i (by omega) same
      omega)
    (fun i early j later => by
      rw [Nat.add_assoc]
      exact apart i (by omega) (n + j) (by omega))
  rwa [Nat.add_sub_cancel' within] at whole

end Piece

/-- A copy whose pages all resolve, onto bytes that are distinct and apart from the source,
leaves each byte of the source at its place and every other byte as it was. -/
theorem copyout_scattered (pd : PageDir) (atZero : Option Pte) (mem : Nat → UInt8) {va : Nat}
    (buf len : Nat) (uint : va < 2 ^ 32) (resolves : Resolves pd atZero va len)
    (distinct : Distinct pd atZero va len) (apart : Apart pd atZero va buf len) :
    Scattered mem (copyout pd atZero mem va buf len).1 (userByte pd atZero va) buf len := by
  induction len using Nat.strong_induction_on generalizing mem va buf with
  | _ len ih =>
    by_cases done : len = 0
    · subst done
      rw [copyout_zero]
      exact Scattered.zero mem _ buf
    · obtain ⟨n, piece, step⟩ := copyout_step pd atZero mem va buf done
      obtain ⟨first, rest⟩ := (piece.resolves uint).mp resolves
      obtain ⟨pa0, found⟩ := Option.isSome_iff_exists.mp first
      rw [step, found]
      have fewer : len - n < len := by have := piece.pos; omega
      exact piece.scattered uint found distinct apart
        (ih (len - n) fewer _ _ (Nat.mod_lt _ (by decide)) rest
          (piece.distinct_rest distinct) (piece.apart_rest apart))

/-! ## The word at address 0 -/

/-- A copy within one page whose page table is absent goes to the page named by the word at
address 0, when that word has PTE_P and PTE_U, and returns 0. -/
theorem copyout_of_absent {pd : PageDir} {pte : Pte} {mem : Nat → UInt8} {va buf len : Nat}
    (absent : pd.tables (PDX va) = none) (more : 0 < len) (within : len ≤ PGSIZE - va % PGSIZE)
    (user : pte.perm.user = true) :
    copyout pd (some pte) mem va buf len = (memmove mem (pte.addr + va % PGSIZE) buf len, 0) := by
  have found : uva2ka pd (some pte) (PGROUNDDOWN va) = some pte.addr := by
    rw [uva2ka_of_absent _ (by rwa [PDX_PGROUNDDOWN]), userAddr, if_pos user]
  obtain ⟨n, piece, step⟩ := copyout_step pd (some pte) mem va buf
    (show len ≠ 0 by omega)
  have whole : n = len := by
    have := piece.le
    have := piece.within
    by_contra short
    have := piece.whole (by omega)
    omega
  rw [step, found]
  dsimp only
  rw [whole, Nat.sub_self, copyout_zero]

/-- copyout over any directory and any range. It returns 0 exactly when uva2ka gives the page
of every byte of the range, and -1 otherwise; where the page tables of the range are present,
that is every page being present with PTE_U, and the bytes are then copied. Where the page
table of `va` is absent, uva2ka reads the word at address 0 as the PTE, and a word with PTE_P
and PTE_U takes the copy to the page it names, with 0 returned. -/
theorem copyout_reads_null_pte (pd : PageDir) (atZero : Option Pte) (mem : Nat → UInt8)
    {va : Nat} (p len : Nat) (uint : va < 2 ^ 32) :
    (copyout pd atZero mem va p len).2 = (if Resolves pd atZero va len then 0 else -1) ∧
    ((∀ i < len, (pd.tables (PDX ((va + i) % 2 ^ 32))).isSome) →
      (Resolves pd atZero va len ↔
        ∀ i < len, ∃ pte, pd.entry ((va + i) % 2 ^ 32) = some pte ∧ pte.perm.user = true)) ∧
    (Resolves pd atZero va len → Distinct pd atZero va len → Apart pd atZero va p len →
      Scattered mem (copyout pd atZero mem va p len).1 (userByte pd atZero va) p len) ∧
    (pd.tables (PDX va) = none → 0 < len → len ≤ PGSIZE - va % PGSIZE →
      ∀ pte, atZero = some pte → pte.perm.user = true →
        copyout pd atZero mem va p len = (memmove mem (pte.addr + va % PGSIZE) p len, 0)) := by
  refine ⟨copyout_ret pd atZero mem p len uint, resolves_iff_present,
    copyout_scattered pd atZero mem p len uint, fun absent more within pte word user => ?_⟩
  rw [word]
  exact copyout_of_absent absent more within user

/-- A directory with no page tables. -/
def emptyDir : PageDir := ⟨0, fun _ => none⟩

theorem copyout_reads_null_pte_emptyDir :
    (∀ a, emptyDir.entry a = none) ∧
      copyout emptyDir (some ⟨0x1000, ⟨true, true⟩⟩) (fun _ => 0) 0 0x2000 1 =
        (memmove (fun _ => 0) 0x1000 0x2000 1, 0) :=
  ⟨fun _ => rfl, (copyout_reads_null_pte emptyDir (some ⟨0x1000, ⟨true, true⟩⟩) (fun _ => 0)
    0x2000 1 (by decide)).2.2.2 rfl (by decide) (by decide) _ rfl rfl⟩

end Xv6.Mem
