import Mathlib.Data.List.Perm.Basic
import Xv6.Lib.Count
import Xv6.Mem.Vm

/-!
# What the page-table functions do

The facts about vm.c that the proofs about user memory are made of: which PTE an address
selects, what `setEntry` and `walkpgdir` change, the page-address lists the loops run over, and
one spec per loop. `deallocuvm` clears every user PTE from `PGROUNDUP(newsz)` up to `oldsz` and
pushes the pages they mapped onto the free list in address order, across the tables it skips;
`mappages` of one page either fails in `walkpgdir`, panics on a present PTE, or sets it. Pages
that the loops hand to `kfree` must pass its check, so the specs ask that of the pages they
free.
-/

namespace Xv6.Mem

/-- A user page: page-aligned and below KERNBASE. -/
def UserPage (va : Nat) : Prop := va % PGSIZE = 0 ∧ va < KERNBASE

theorem UserPage.lt {va : Nat} (user : UserPage va) : va < 2 ^ 32 := by
  unfold UserPage KERNBASE at user
  omega

/-! ## Indices -/

theorem PDX_eq_iff {va va' : Nat} (below : va < 2 ^ 32) (below' : va' < 2 ^ 32) :
    PDX va = PDX va' ↔ va / 2 ^ 22 = va' / 2 ^ 22 := by
  simp only [PDX, Fin.ext_iff, Fin.ofNat, NPDENTRIES]
  omega

/-- Two addresses select the same PTE exactly when they lie in the same page. -/
theorem index_eq_iff {va va' : Nat} (below : va < 2 ^ 32) (below' : va' < 2 ^ 32) :
    (PDX va = PDX va' ∧ PTX va = PTX va') ↔ va / PGSIZE = va' / PGSIZE := by
  simp only [PDX, PTX, Fin.ext_iff, Fin.ofNat, NPDENTRIES, NPTENTRIES, PGSIZE]
  omega

theorem UserPage.index_eq_iff {va va' : Nat} (user : UserPage va) (user' : UserPage va') :
    (PDX va = PDX va' ∧ PTX va = PTX va') ↔ va = va' := by
  rw [Xv6.Mem.index_eq_iff user.lt user'.lt]
  unfold UserPage PGSIZE at *
  omega

/-! ## Rounding -/

theorem PGROUNDUP_eq {sz : Nat} (small : sz < KERNBASE) :
    PGROUNDUP sz = (sz + PGSIZE - 1) / PGSIZE * PGSIZE := by
  unfold PGROUNDUP KERNBASE PGSIZE at *
  rw [Nat.mod_eq_of_lt (by omega)]

theorem PGROUNDUP_bounds {sz : Nat} (small : sz < KERNBASE) :
    PGROUNDUP sz % PGSIZE = 0 ∧ sz ≤ PGROUNDUP sz ∧ PGROUNDUP sz ≤ KERNBASE := by
  rw [PGROUNDUP_eq small]
  unfold KERNBASE PGSIZE at *
  omega

theorem PGROUNDUP_aligned (sz : Nat) : PGROUNDUP sz % PGSIZE = 0 := by
  unfold PGROUNDUP PGSIZE
  omega

/-- Below a rounded-up size lie the pages below the size. -/
theorem lt_PGROUNDUP_iff {sz va : Nat} (small : sz < KERNBASE) (aligned : va % PGSIZE = 0) :
    va < PGROUNDUP sz ↔ va < sz := by
  rw [PGROUNDUP_eq small]
  unfold PGSIZE at *
  omega

/-! ## The pages a loop visits -/

theorem pageAddrs_of_le {a bound : Nat} (past : bound ≤ a) : pageAddrs a bound = [] := by
  have none : (bound - a + PGSIZE - 1) / PGSIZE = 0 := by
    unfold PGSIZE
    omega
  simp [pageAddrs, none]

theorem pageAddrs_cons {a bound : Nat} (more : a < bound) :
    pageAddrs a bound = a :: pageAddrs (a + PGSIZE) bound := by
  have count : (bound - a + PGSIZE - 1) / PGSIZE =
      (bound - (a + PGSIZE) + PGSIZE - 1) / PGSIZE + 1 := by
    unfold PGSIZE
    omega
  simp only [pageAddrs, count, List.range_succ_eq_map, List.map_cons, List.map_map]
  congr 1
  apply List.map_congr_left
  intro k _
  simp only [Function.comp_apply]
  rw [Nat.succ_mul]
  omega

theorem mem_pageAddrs {a bound va : Nat} (aligned : a % PGSIZE = 0) :
    va ∈ pageAddrs a bound ↔ a ≤ va ∧ va < bound ∧ va % PGSIZE = 0 := by
  simp only [pageAddrs, List.mem_map, List.mem_range]
  unfold PGSIZE at *
  constructor
  · rintro ⟨k, lt, rfl⟩
    omega
  · rintro ⟨low, high, on_page⟩
    exact ⟨(va - a) / 4096, by omega, by omega⟩

/-- Pages of a range that a function sends to `none` can be skipped. -/
theorem filterMap_pageAddrs_skip {β : Type} (g : Nat → Option β) (bound : Nat) :
    ∀ (k a : Nat), a % PGSIZE = 0 →
      (∀ va, va % PGSIZE = 0 → a ≤ va → va < a + k * PGSIZE → g va = none) →
      (pageAddrs a bound).filterMap g = (pageAddrs (a + k * PGSIZE) bound).filterMap g := by
  intro k
  induction k with
  | zero => simp
  | succ k ih =>
    intro a aligned skipped
    by_cases more : a < bound
    · have first : g a = none := skipped a aligned (Nat.le_refl a) (by unfold PGSIZE; omega)
      have shift : a + PGSIZE + k * PGSIZE = a + (k + 1) * PGSIZE := by
        rw [Nat.succ_mul]
        omega
      have aligned' : (a + PGSIZE) % PGSIZE = 0 := by
        unfold PGSIZE at *
        omega
      rw [pageAddrs_cons more, List.filterMap_cons_none first,
        ih (a + PGSIZE) aligned' (fun va on_page low high =>
          skipped va on_page (by omega) (by omega)), shift]
    · rw [pageAddrs_of_le (by omega), pageAddrs_of_le (by omega)]

/-! ## PTEs -/

namespace PageDir

/-- The page of each page-table page: a directory's shape, without its PTEs. -/
def tablePage (pd : PageDir) (i : Fin NPDENTRIES) : Option Nat := (pd.tables i).map PageTab.page

theorem entry_of_absent {pd : PageDir} {va : Nat} (absent : pd.tables (PDX va) = none) :
    pd.entry va = none := by
  simp [entry, absent]

@[simp] theorem setEntry_page (pd : PageDir) (va : Nat) (x : Option Pte) :
    (pd.setEntry va x).page = pd.page := by
  unfold setEntry
  split <;> rfl

@[simp] theorem tablePage_setEntry (pd : PageDir) (va : Nat) (x : Option Pte) :
    (pd.setEntry va x).tablePage = pd.tablePage := by
  funext i
  unfold setEntry tablePage
  split
  · rename_i table present
    by_cases same : i = PDX va
    · subst same
      simp [present]
    · simp [Function.update_of_ne same]
  · rfl

/-- Setting the PTE of an address below 2^32 changes the PTE of its page only. -/
theorem entry_setEntry_of_lt {pd : PageDir} {va va' : Nat} (below : va < 2 ^ 32)
    (below' : va' < 2 ^ 32) (present : (pd.tables (PDX va)).isSome) (x : Option Pte) :
    (pd.setEntry va x).entry va' = if va' / PGSIZE = va / PGSIZE then x else pd.entry va' := by
  obtain ⟨table, at_va⟩ := Option.isSome_iff_exists.mp present
  by_cases same : va' / PGSIZE = va / PGSIZE
  · obtain ⟨pdx, ptx⟩ := (index_eq_iff below' below).mpr same
    simp [setEntry, entry, at_va, same, pdx, ptx]
  · have apart := (index_eq_iff below' below).not.mpr same
    simp only [setEntry, entry, at_va, same, if_false]
    by_cases same_table : PDX va' = PDX va
    · have other : PTX va' ≠ PTX va := fun eq => apart ⟨same_table, eq⟩
      simp [same_table, at_va, Function.update_of_ne other]
    · simp [Function.update_of_ne same_table]

/-- Setting the PTE of a user page changes that page's PTE only. -/
theorem entry_setEntry {pd : PageDir} {va va' : Nat} (user : UserPage va) (user' : UserPage va')
    (present : (pd.tables (PDX va)).isSome) (x : Option Pte) :
    (pd.setEntry va x).entry va' = if va' = va then x else pd.entry va' := by
  rw [entry_setEntry_of_lt user.lt user'.lt present]
  by_cases same : va' = va
  · rw [if_pos (congrArg (· / PGSIZE) same), if_pos same]
  · have apart : va' / PGSIZE ≠ va / PGSIZE := by
      unfold UserPage PGSIZE at *
      omega
    rw [if_neg apart, if_neg same]

end PageDir

/-! ## `walkpgdir` -/

section Layout

variable {kernEnd : Nat}

/-- What `walkpgdir` can do: find the page table present, or take the first free page for a new,
empty one. Only an allocating walk with a free page makes a new table. -/
theorem walkpgdir_cases {pd pd' : PageDir} {free free' : FreeList} {va : Nat} {alloc : Bool}
    (walked : walkpgdir pd free va alloc = some (pd', free')) :
    (pd' = pd ∧ free' = free ∧ (pd.tables (PDX va)).isSome) ∨
      (pd.tables (PDX va) = none ∧ ∃ t, free = t :: free' ∧
        pd' = { pd with tables := Function.update pd.tables (PDX va) (some ⟨t, fun _ => none⟩) }) := by
  unfold walkpgdir at walked
  cases table : pd.tables (PDX va) with
  | some found =>
    simp only [table, Option.some.injEq, Prod.mk.injEq] at walked
    exact .inl ⟨walked.1.symm, walked.2.symm, rfl⟩
  | none =>
    cases alloc <;> cases free <;> simp [table, kalloc] at walked
    obtain ⟨rfl, rfl⟩ := walked
    exact .inr ⟨rfl, _, rfl, rfl⟩

theorem walkpgdir_present {pd pd' : PageDir} {free free' : FreeList} {va : Nat} {alloc : Bool}
    (walked : walkpgdir pd free va alloc = some (pd', free')) : (pd'.tables (PDX va)).isSome := by
  rcases walkpgdir_cases walked with ⟨rfl, -, present⟩ | ⟨-, t, -, rfl⟩
  · exact present
  · simp

/-- A new page table has no PTE present, so no address's PTE changes. -/
theorem walkpgdir_entry {pd pd' : PageDir} {free free' : FreeList} {va : Nat} {alloc : Bool}
    (walked : walkpgdir pd free va alloc = some (pd', free')) (va' : Nat) :
    pd'.entry va' = pd.entry va' := by
  rcases walkpgdir_cases walked with ⟨rfl, -, -⟩ | ⟨absent, t, -, rfl⟩
  · rfl
  · by_cases same : PDX va' = PDX va
    · simp [PageDir.entry, same, absent]
    · simp [PageDir.entry, Function.update_of_ne same]

theorem walkpgdir_page {pd pd' : PageDir} {free free' : FreeList} {va : Nat} {alloc : Bool}
    (walked : walkpgdir pd free va alloc = some (pd', free')) : pd'.page = pd.page := by
  rcases walkpgdir_cases walked with ⟨rfl, -, -⟩ | ⟨-, t, -, rfl⟩ <;> rfl

/-- What `walkpgdir` does to the directory's shape: nothing, or one new table at `PDX(va)` on the
first free page. -/
theorem walkpgdir_tablePage {pd pd' : PageDir} {free free' : FreeList} {va : Nat} {alloc : Bool}
    (walked : walkpgdir pd free va alloc = some (pd', free')) :
    (pd'.tablePage = pd.tablePage ∧ free' = free) ∨
      (∃ t, free = t :: free' ∧ pd.tablePage (PDX va) = none ∧ pd'.tablePage (PDX va) = some t ∧
        ∀ i, i ≠ PDX va → pd'.tablePage i = pd.tablePage i) := by
  rcases walkpgdir_cases walked with ⟨rfl, rfl, -⟩ | ⟨absent, t, rfl, rfl⟩
  · exact .inl ⟨rfl, rfl⟩
  · refine .inr ⟨t, rfl, by simp [PageDir.tablePage, absent], by simp [PageDir.tablePage], ?_⟩
    intro i other
    simp [PageDir.tablePage, Function.update_of_ne other]

/-! ## Page-table pages a directory gained -/

/-- The page-table pages `pd'` has at indices where `pd` has none. -/
def PageDir.newTables (pd pd' : PageDir) : List Nat :=
  (List.finRange NPDENTRIES).filterMap fun i =>
    if pd.tablePage i = none then pd'.tablePage i else none

@[simp] theorem PageDir.newTables_self (pd : PageDir) : pd.newTables pd = [] := by
  simp only [newTables, List.filterMap_eq_nil_iff]
  intro i _
  split_ifs with absent
  · exact absent
  · rfl

theorem PageDir.newTables_congr {pd pd' pd'' : PageDir} (same : pd'.tablePage = pd''.tablePage) :
    pd.newTables pd' = pd.newTables pd'' := by
  rw [newTables, newTables, same]

/-- One more table, at an index `pd0` has none, is one more new table. -/
theorem PageDir.newTables_add {pd0 pd pd' : PageDir} {i : Fin NPDENTRIES} {t : Nat}
    (absent0 : pd0.tablePage i = none) (absent : pd.tablePage i = none)
    (now : pd'.tablePage i = some t) (others : ∀ j, j ≠ i → pd'.tablePage j = pd.tablePage j) :
    (pd0.newTables pd').Perm (t :: pd0.newTables pd) :=
  filterMap_perm_of_update (by simp [absent0, absent]) (by simp [absent0, now])
    (List.nodup_finRange _) (List.mem_finRange i) fun j _ other => by simp only [others j other]

/-! ## `mappages` -/

/-- The round at `last` is the loop's last. -/
theorem mapRounds_last (last fuel pa : Nat) : mapRounds last (fuel + 1) last pa = [(last, pa)] := by
  rw [mapRounds, if_pos rfl]

/-- From a page address `n` pages below `last`, with more fuel than that, the loop's rounds are
the `n + 1` pages up to `last`, mapped to the pages from `pa` on. -/
theorem mapRounds_eq {last : Nat} (below : last < 2 ^ 32) :
    ∀ (n a pa fuel : Nat), a + n * PGSIZE = last → pa < 2 ^ 32 → n < fuel →
      mapRounds last fuel a pa =
        (List.range (n + 1)).map fun k => (a + k * PGSIZE, (pa + k * PGSIZE) % 2 ^ 32) := by
  intro n
  induction n with
  | zero =>
    intro a pa fuel at_last phys enough
    obtain ⟨fuel, rfl⟩ : ∃ f, fuel = f + 1 := ⟨fuel - 1, by omega⟩
    rw [Nat.zero_mul, Nat.add_zero] at at_last
    subst at_last
    rw [mapRounds_last, List.range_one, List.map_cons, List.map_nil, Nat.zero_mul, Nat.add_zero,
      Nat.add_zero, Nat.mod_eq_of_lt phys]
  | succ n ih =>
    intro a pa fuel at_last phys enough
    obtain ⟨fuel, rfl⟩ : ∃ f, fuel = f + 1 := ⟨fuel - 1, by omega⟩
    have before : a + PGSIZE ≤ last := by
      rw [← at_last, Nat.succ_mul]
      unfold PGSIZE
      omega
    have next : (a + PGSIZE) % 2 ^ 32 = a + PGSIZE := Nat.mod_eq_of_lt (by omega)
    rw [mapRounds, if_neg (by unfold PGSIZE at before; omega), next,
      ih (a + PGSIZE) _ fuel (by rw [← at_last, Nat.succ_mul]; omega) (Nat.mod_lt _ (by decide))
        (by omega),
      List.range_succ_eq_map (n := n + 1), List.map_cons, List.map_map]
    refine congrArg₂ List.cons ?_ ?_
    · rw [Nat.zero_mul, Nat.add_zero, Nat.add_zero, Nat.mod_eq_of_lt phys]
    · apply List.map_congr_left
      intro k _
      simp only [Function.comp_apply, Nat.succ_mul, Nat.mod_add_mod]
      unfold PGSIZE
      exact Prod.ext (by omega) (by dsimp only; rw [Nat.add_assoc, Nat.add_comm 4096])

/-- The pages mappages is to map: from `PGROUNDDOWN(va)` up to `PGROUNDDOWN(va + size - 1)`, to
the pages from `pa` on. -/
def mapPages (va size pa : Nat) : List (Nat × Nat) :=
  (List.range ((PGROUNDDOWN (va + size - 1) - PGROUNDDOWN va) / PGSIZE + 1)).map fun k =>
    (PGROUNDDOWN va + k * PGSIZE, (pa + k * PGSIZE) % 2 ^ 32)

/-- A range that ends at the top of the address space or below it: mappages's loop meets its
last page, and its rounds are the range's pages. -/
theorem mappages_eq {va size pa : Nat} (pd : PageDir) (free : FreeList) (perm : Perm)
    (positive : 0 < size) (fits : va + size ≤ 2 ^ 32) (phys : pa < 2 ^ 32) :
    mappages pd free va size pa perm = mapLoop pd free perm (mapPages va size pa) := by
  have wrapped : (va + size + 2 ^ 32 - 1) % 2 ^ 32 = va + size - 1 := by
    rw [show va + size + 2 ^ 32 - 1 = (va + size - 1) + 2 ^ 32 by omega, Nat.add_mod_right,
      Nat.mod_eq_of_lt (by omega)]
  have first : PGROUNDDOWN va % PGSIZE = 0 := by unfold PGROUNDDOWN; exact Nat.mul_mod_left _ _
  have last : PGROUNDDOWN va ≤ PGROUNDDOWN (va + size - 1) ∧
      PGROUNDDOWN (va + size - 1) < 2 ^ 32 ∧ PGROUNDDOWN (va + size - 1) % PGSIZE = 0 := by
    unfold PGROUNDDOWN PGSIZE
    omega
  have apart : PGROUNDDOWN va + (PGROUNDDOWN (va + size - 1) - PGROUNDDOWN va) / PGSIZE * PGSIZE =
      PGROUNDDOWN (va + size - 1) := by
    unfold PGSIZE at *
    omega
  dsimp only [mappages]
  rw [wrapped, mapRounds_eq last.2.1 _ _ pa _ apart phys (by unfold PGSIZE NPDENTRIES NPTENTRIES; omega)]
  rfl

/-- `mappages` of one page at a page-aligned user address maps that page alone. -/
theorem mappages_page {pd : PageDir} {free : FreeList} {a pa : Nat} (perm : Perm)
    (user : UserPage a) :
    mappages pd free a PGSIZE pa perm = mapLoop pd free perm [(a, pa)] := by
  have aligned := user.1
  have low := user.2
  unfold PGSIZE at aligned
  unfold KERNBASE at low
  have down : PGROUNDDOWN a = a := by unfold PGROUNDDOWN PGSIZE; omega
  have last : PGROUNDDOWN ((a + PGSIZE + 2 ^ 32 - 1) % 2 ^ 32) = a := by
    unfold PGROUNDDOWN PGSIZE
    rw [show a + 4096 + 2 ^ 32 - 1 = a + 4095 + 2 ^ 32 by omega, Nat.add_mod_right,
      Nat.mod_eq_of_lt (by omega)]
    omega
  dsimp only [mappages]
  rw [down, last, show NPDENTRIES * NPTENTRIES = NPDENTRIES * NPTENTRIES - 1 + 1 from rfl,
    mapRounds_last]

theorem mapLoop_one (pd : PageDir) (free : FreeList) (perm : Perm) (a pa : Nat) :
    mapLoop pd free perm [(a, pa)] =
      match walkpgdir pd free a true with
      | none => .ok (pd, free, false)
      | some (pd, free) =>
        if (pd.entry a).isSome then .error "remap"
        else .ok (pd.setEntry a (some { addr := pa, perm := perm }), free, true) := by
  rw [mapLoop]
  rcases walkpgdir pd free a true with _ | ⟨pd, free⟩
  · rfl
  · dsimp only
    split <;> rfl

/-- An allocating walk fails only when no page is free. -/
theorem walkpgdir_none {pd : PageDir} {free : FreeList} {va : Nat}
    (failed : walkpgdir pd free va true = none) : free = [] := by
  unfold walkpgdir at failed
  cases table : pd.tables (PDX va) with
  | some _ => simp [table] at failed
  | none => cases free <;> simp [table, kalloc] at failed ⊢

section MapLoop

variable {perm : Perm} {l : List (Nat × Nat)}

/-- A loop that maps every round sets each round's PTE and no other page's, when the rounds'
pages are different pages below 2^32. -/
theorem mapLoop_ok {pd pd' : PageDir} {free free' : FreeList} (below : ∀ p ∈ l, p.1 < 2 ^ 32)
    (distinct : (l.map fun p => p.1 / PGSIZE).Nodup)
    (mapped : mapLoop pd free perm l = .ok (pd', free', true)) :
    (∀ p ∈ l, pd'.entry p.1 = some ⟨p.2, perm⟩) ∧
      ∀ va < 2 ^ 32, (∀ p ∈ l, va / PGSIZE ≠ p.1 / PGSIZE) → pd'.entry va = pd.entry va := by
  induction l generalizing pd free with
  | nil =>
    rw [mapLoop] at mapped
    cases mapped
    exact ⟨nofun, fun _ _ _ => rfl⟩
  | cons round rest ih =>
    obtain ⟨a, pa⟩ := round
    rw [List.map_cons, List.nodup_cons] at distinct
    have belowA : a < 2 ^ 32 := below (a, pa) List.mem_cons_self
    have apart : ∀ p ∈ rest, a / PGSIZE ≠ p.1 / PGSIZE :=
      fun p mem same => distinct.1 (List.mem_map.mpr ⟨p, mem, same.symm⟩)
    rw [mapLoop] at mapped
    cases walk : walkpgdir pd free a true with
    | none => rw [walk] at mapped; cases mapped
    | some step =>
      obtain ⟨pd1, free1⟩ := step
      rw [walk] at mapped
      dsimp only at mapped
      split_ifs at mapped
      have present := walkpgdir_present walk
      obtain ⟨restMapped, restOthers⟩ :=
        ih (fun p mem => below p (List.mem_cons_of_mem _ mem)) distinct.2 mapped
      refine ⟨fun p mem => ?_, fun va below' others => ?_⟩
      · rcases List.mem_cons.mp mem with rfl | inRest
        · rw [restOthers a belowA apart, PageDir.entry_setEntry_of_lt belowA belowA present,
            if_pos rfl]
        · exact restMapped p inRest
      · have notA : va / PGSIZE ≠ a / PGSIZE := others (a, pa) List.mem_cons_self
        rw [restOthers va below' fun p mem => others p (List.mem_cons_of_mem _ mem),
          PageDir.entry_setEntry_of_lt belowA below' present, if_neg notA, walkpgdir_entry walk]

/-- A loop that stops without a panic and without mapping every round found no free page. -/
theorem mapLoop_failed {pd pd' : PageDir} {free free' : FreeList}
    (failed : mapLoop pd free perm l = .ok (pd', free', false)) : free' = [] := by
  induction l generalizing pd free with
  | nil =>
    rw [mapLoop] at failed
    cases failed
  | cons round rest ih =>
    obtain ⟨a, pa⟩ := round
    rw [mapLoop] at failed
    cases walk : walkpgdir pd free a true with
    | none =>
      rw [walk] at failed
      cases failed
      exact walkpgdir_none walk
    | some step =>
      obtain ⟨pd1, free1⟩ := step
      rw [walk] at failed
      dsimp only at failed
      split_ifs at failed
      exact ih failed

/-- A loop panics only on a round whose PTE was present before it started. -/
theorem mapLoop_error {pd : PageDir} {free : FreeList} {e : String}
    (below : ∀ p ∈ l, p.1 < 2 ^ 32) (distinct : (l.map fun p => p.1 / PGSIZE).Nodup)
    (failed : mapLoop pd free perm l = .error e) : e = "remap" ∧ ∃ p ∈ l, (pd.entry p.1).isSome := by
  induction l generalizing pd free with
  | nil =>
    rw [mapLoop] at failed
    cases failed
  | cons round rest ih =>
    obtain ⟨a, pa⟩ := round
    rw [List.map_cons, List.nodup_cons] at distinct
    have belowA : a < 2 ^ 32 := below (a, pa) List.mem_cons_self
    rw [mapLoop] at failed
    cases walk : walkpgdir pd free a true with
    | none => rw [walk] at failed; cases failed
    | some step =>
      obtain ⟨pd1, free1⟩ := step
      rw [walk] at failed
      dsimp only at failed
      split_ifs at failed with taken
      · cases failed
        exact ⟨rfl, (a, pa), List.mem_cons_self, by rw [← walkpgdir_entry walk]; exact taken⟩
      · obtain ⟨remap, p, mem, present⟩ :=
          ih (fun p mem => below p (List.mem_cons_of_mem _ mem)) distinct.2 failed
        have apart : p.1 / PGSIZE ≠ a / PGSIZE :=
          fun same => distinct.1 (List.mem_map.mpr ⟨p, mem, same⟩)
        refine ⟨remap, p, List.mem_cons_of_mem _ mem, ?_⟩
        rw [PageDir.entry_setEntry_of_lt belowA (below p (List.mem_cons_of_mem _ mem))
          (walkpgdir_present walk), if_neg apart, walkpgdir_entry walk] at present
        exact present

end MapLoop

/-- The pages of a range that ends by the top of the address space lie below it. -/
theorem mapPages_below {va size pa : Nat} (positive : 0 < size) (fits : va + size ≤ 2 ^ 32) :
    ∀ p ∈ mapPages va size pa, p.1 < 2 ^ 32 := by
  intro p mem
  obtain ⟨k, inside, rfl⟩ := List.mem_map.mp mem
  have := List.mem_range.mp inside
  unfold PGROUNDDOWN PGSIZE at *
  dsimp only
  omega

/-- The pages of a range are different pages. -/
theorem mapPages_nodup (va size pa : Nat) :
    ((mapPages va size pa).map fun p => p.1 / PGSIZE).Nodup := by
  rw [mapPages, List.map_map]
  apply List.Nodup.map _ List.nodup_range
  intro j k same
  simp only [Function.comp_apply, PGROUNDDOWN, PGSIZE] at same
  omega

/-! ## `deallocuvm` -/

/-- The pages a directory maps at the given addresses, in their order. -/
def PageDir.mappedPages (pd : PageDir) (addrs : List Nat) : List Nat :=
  addrs.filterMap fun va => (pd.entry va).map Pte.addr

theorem pageAddrs_nodup (a bound : Nat) : (pageAddrs a bound).Nodup := by
  apply List.Nodup.map _ List.nodup_range
  intro j k same
  simp only [PGSIZE] at same
  omega

theorem PageDir.mem_mappedPages {pd : PageDir} {addrs : List Nat} {pa : Nat} :
    pa ∈ pd.mappedPages addrs ↔ ∃ va ∈ addrs, ∃ pte, pd.entry va = some pte ∧ pte.addr = pa := by
  simp [mappedPages, Option.map_eq_some_iff]

theorem PageDir.mappedPages_eq_nil {pd : PageDir} {addrs : List Nat}
    (unmapped : ∀ va, va ∈ addrs → pd.entry va = none) : pd.mappedPages addrs = [] := by
  simp only [mappedPages, List.filterMap_eq_nil_iff]
  intro va mem
  rw [unmapped va mem]
  rfl

/-- A directory that maps one more address, and the others as before, maps one more page. -/
theorem PageDir.mappedPages_perm {pd pd' : PageDir} {addrs : List Nat} {a : Nat} {pte : Pte}
    (nodup : addrs.Nodup) (mem : a ∈ addrs) (was : pd.entry a = none)
    (now : pd'.entry a = some pte) (others : ∀ va, va ∈ addrs → va ≠ a → pd'.entry va = pd.entry va) :
    (pd'.mappedPages addrs).Perm (pte.addr :: pd.mappedPages addrs) :=
  filterMap_perm_of_update (by simp [was]) (by simp [now]) nodup mem
    fun va mem' other => by simp only [others va mem' other]

/-- `pd'` is `pd` with the user PTEs from `a` up to `hi` cleared and nothing else changed. -/
structure Cleared (a hi : Nat) (pd pd' : PageDir) : Prop where
  entry : ∀ va, UserPage va → pd'.entry va = if a ≤ va ∧ va < hi then none else pd.entry va
  tables : pd'.tablePage = pd.tablePage
  page : pd'.page = pd.page

theorem Cleared.of_le {a hi : Nat} (pd : PageDir) (past : hi ≤ a) : Cleared a hi pd pd where
  entry va _ := by rw [if_neg (by omega)]
  tables := rfl
  page := rfl

/-- Addresses that map nothing need no clearing. -/
theorem Cleared.skip {a b hi : Nat} {pd pd' : PageDir} (before : a ≤ b)
    (unmapped : ∀ va, va % PGSIZE = 0 → a ≤ va → va < b → pd.entry va = none)
    (cleared : Cleared b hi pd pd') : Cleared a hi pd pd' where
  entry va user := by
    rw [cleared.entry va user]
    by_cases between : a ≤ va ∧ va < b
    · rw [unmapped va user.1 between.1 between.2]
      split_ifs <;> rfl
    · by_cases low : a ≤ va
      · simp only [show b ≤ va by omega, low, true_and]
      · simp only [low, false_and, if_false, show ¬b ≤ va by omega]
  tables := cleared.tables
  page := cleared.page

/-- Clearing the PTE of `a` and then the ones after it clears them all. -/
theorem Cleared.clear {a hi : Nat} {pd pd' : PageDir} (user : UserPage a) (more : a < hi)
    (present : (pd.tables (PDX a)).isSome)
    (cleared : Cleared (a + PGSIZE) hi (pd.setEntry a none) pd') : Cleared a hi pd pd' where
  entry va user' := by
    rw [cleared.entry va user', PageDir.entry_setEntry user user' present]
    by_cases same : va = a
    · subst same
      simp [more]
    · have next : a ≤ va ↔ a + PGSIZE ≤ va := by
        unfold UserPage at user user'
        unfold PGSIZE at *
        omega
      simp only [same, if_false, next]
  tables := by rw [cleared.tables, PageDir.tablePage_setEntry]
  page := by rw [cleared.page, PageDir.setEntry_page]

theorem mappedPages_skip {a hi k : Nat} {pd : PageDir} (aligned : a % PGSIZE = 0)
    (unmapped : ∀ va, va % PGSIZE = 0 → a ≤ va → va < a + k * PGSIZE → pd.entry va = none) :
    pd.mappedPages (pageAddrs a hi) = pd.mappedPages (pageAddrs (a + k * PGSIZE) hi) := by
  apply filterMap_pageAddrs_skip _ _ k a aligned
  intro va on_page low high
  rw [unmapped va on_page low high]
  rfl

/-- Clearing the PTE of `a` changes nothing the loop reads after it. -/
theorem mappedPages_setEntry {a hi : Nat} {pd : PageDir} (user : UserPage a)
    (bound : hi ≤ KERNBASE) (present : (pd.tables (PDX a)).isSome) :
    (pd.setEntry a none).mappedPages (pageAddrs (a + PGSIZE) hi) =
      pd.mappedPages (pageAddrs (a + PGSIZE) hi) := by
  apply List.filterMap_congr
  intro va mem
  have aligned : (a + PGSIZE) % PGSIZE = 0 := by
    have := user.1
    unfold PGSIZE at *
    omega
  obtain ⟨low, high, on_page⟩ := (mem_pageAddrs aligned).mp mem
  have other : ¬va = a := by
    unfold PGSIZE at low
    omega
  rw [PageDir.entry_setEntry user ⟨on_page, by omega⟩ present, if_neg other]

/-- The pages of a directory's PTEs from `a` up to `hi` pass `kfree`'s check. -/
def FreesCleanly (kernEnd a hi : Nat) (pd : PageDir) : Prop :=
  ∀ va pte, UserPage va → a ≤ va → va < hi → pd.entry va = some pte → Allocatable kernEnd pte.addr

theorem FreesCleanly.mono {a b hi hi' : Nat} {pd : PageDir} (before : a ≤ b) (below : hi' ≤ hi)
    (clean : FreesCleanly kernEnd a hi pd) : FreesCleanly kernEnd b hi' pd :=
  fun va pte user low high => clean va pte user (by omega) (by omega)

theorem FreesCleanly.setEntry {a hi : Nat} {pd : PageDir} (user : UserPage a)
    (present : (pd.tables (PDX a)).isSome) (clean : FreesCleanly kernEnd a hi pd) :
    FreesCleanly kernEnd (a + PGSIZE) hi (pd.setEntry a none) := by
  intro va pte user' low high at_va
  have other : ¬va = a := by
    unfold PGSIZE at low
    omega
  rw [PageDir.entry_setEntry user user' present, if_neg other] at at_va
  exact clean va pte user' (by omega) high at_va

/-- The addresses from a user address up to the next table's first one share its page table. -/
theorem next_table {a : Nat} (user : UserPage a) :
    ∃ k, (a / 2 ^ 22 + 1) * 2 ^ 22 = a + (k + 1) * PGSIZE ∧
      ∀ va, a ≤ va → va < a + (k + 1) * PGSIZE → PDX va = PDX a := by
  have aligned := user.1
  have below := user.lt
  unfold PGSIZE at *
  refine ⟨((a / 2 ^ 22 + 1) * 2 ^ 22 - a) / 4096 - 1, by omega, fun va low high => ?_⟩
  rw [PDX_eq_iff (by omega) below]
  omega

/-- A loop that returns, with a round for each page, met only PTEs whose pages `kfree` takes. The
induction is on the fuel, along the rounds of the loop as in `deallocLoop_spec`. -/
theorem deallocLoop_clean {hi : Nat} (bound : hi ≤ KERNBASE) :
    ∀ (fuel a : Nat) (pd : PageDir) (free : FreeList) (r : PageDir × FreeList),
      a % PGSIZE = 0 → hi - a ≤ fuel → deallocLoop kernEnd hi pd free fuel a = .ok r →
      FreesCleanly kernEnd a hi pd := by
  intro fuel
  induction fuel with
  | zero =>
    intro a pd free r _ enough _ va pte _ low high' _
    omega
  | succ fuel ih =>
    intro a pd free r aligned enough returned
    by_cases more : a < hi
    · have user : UserPage a := ⟨aligned, by omega⟩
      rw [deallocLoop, if_pos more] at returned
      cases table : pd.tables (PDX a) with
      | none =>
        rw [table] at returned
        obtain ⟨k, next_eq, same_table⟩ := next_table user
        rw [next_eq] at returned
        have rest := ih _ pd free r (by have := user.1; unfold PGSIZE at *; omega)
          (by unfold PGSIZE at *; omega) returned
        intro va pte user' low high' at_va
        by_cases before : va < a + (k + 1) * PGSIZE
        · rw [PageDir.entry_of_absent (by rw [same_table va low before, table])] at at_va
          cases at_va
        · exact rest va pte user' (by omega) high' at_va
      | some found =>
        rw [table] at returned
        dsimp only at returned
        cases at_a : pd.entry a with
        | none =>
          rw [at_a] at returned
          have rest := ih _ pd free r (by unfold PGSIZE at *; omega)
            (by unfold PGSIZE at *; omega) returned
          intro va pte user' low high' at_va
          by_cases same : va = a
          · rw [same, at_a] at at_va
            cases at_va
          · exact rest va pte user' (by unfold UserPage PGSIZE at *; omega) high' at_va
        | some pte =>
          rw [at_a] at returned
          dsimp only at returned
          by_cases zero : pte.addr = 0
          · rw [if_pos zero] at returned
            cases returned
          rw [if_neg zero] at returned
          cases freed : kfree kernEnd free pte.addr with
          | error message =>
            rw [freed] at returned
            cases returned
          | ok free' =>
            rw [freed] at returned
            have accepted : Allocatable kernEnd pte.addr := by
              unfold kfree at freed
              split_ifs at freed with ok
              exact ok
            have present : (pd.tables (PDX a)).isSome := by simp [table]
            have rest := ih _ (pd.setEntry a none) free' r (by unfold PGSIZE at *; omega)
              (by unfold PGSIZE at *; omega) returned
            intro va pte' user' low high' at_va
            by_cases same : va = a
            · subst same
              rw [at_a] at at_va
              cases at_va
              exact accepted
            · apply rest va pte' user' (by unfold UserPage PGSIZE at *; omega) high'
              rw [PageDir.entry_setEntry user user' present, if_neg same]
              exact at_va
    · intro va pte _ low high' _
      omega

variable (high : KERNBASE < kernEnd)
include high

theorem Allocatable.ne_zero {pa : Nat} (ok : Allocatable kernEnd pa) : pa ≠ 0 := by
  unfold Allocatable at ok
  omega

/-- `deallocuvm`'s loop from a page-aligned `a` to `hi`, with fuel at least the distance: every user
PTE in between is cleared, and the pages they mapped go to the free list in address order, when
every such page passes `kfree`'s check. The induction is on the fuel: each round moves `a` on by a
page, or, past a missing table, to the next page table. -/
theorem deallocLoop_spec {hi : Nat} (bound : hi ≤ KERNBASE) :
    ∀ (fuel a : Nat) (pd : PageDir) (free : FreeList), a % PGSIZE = 0 → hi - a ≤ fuel →
      FreesCleanly kernEnd a hi pd →
      ∃ pd', deallocLoop kernEnd hi pd free fuel a =
          .ok (pd', (pd.mappedPages (pageAddrs a hi)).reverse ++ free) ∧ Cleared a hi pd pd' := by
  intro fuel
  induction fuel with
  | zero =>
    intro a pd free aligned enough _
    refine ⟨pd, ?_, Cleared.of_le pd (by omega)⟩
    simp [deallocLoop, PageDir.mappedPages, pageAddrs_of_le (show hi ≤ a by omega)]
  | succ fuel ih =>
    intro a pd free aligned enough clean
    by_cases more : a < hi
    · have user : UserPage a := ⟨aligned, by omega⟩
      rw [deallocLoop, if_pos more]
      cases table : pd.tables (PDX a) with
      | none =>
        obtain ⟨k, next_eq, same_table⟩ := next_table user
        have unmapped : ∀ va, va % PGSIZE = 0 → a ≤ va → va < a + (k + 1) * PGSIZE →
            pd.entry va = none :=
          fun va _ low high' => PageDir.entry_of_absent (by rw [same_table va low high', table])
        obtain ⟨pd', run, cleared⟩ := ih (a + (k + 1) * PGSIZE) pd free
          (by have := user.1; unfold PGSIZE at *; omega) (by unfold PGSIZE at *; omega)
          (FreesCleanly.mono (by omega) (Nat.le_refl hi) clean)
        refine ⟨pd', ?_, cleared.skip (by omega) unmapped⟩
        rw [next_eq, run, mappedPages_skip aligned unmapped]
      | some found =>
        have present : (pd.tables (PDX a)).isSome := by simp [table]
        dsimp only
        cases at_a : pd.entry a with
        | none =>
          have unmapped : ∀ va, va % PGSIZE = 0 → a ≤ va → va < a + 1 * PGSIZE →
              pd.entry va = none := by
            intro va on_page low high'
            rw [show va = a by unfold PGSIZE at *; omega, at_a]
          obtain ⟨pd', run, cleared⟩ := ih (a + 1 * PGSIZE) pd free
            (by unfold PGSIZE at *; omega) (by unfold PGSIZE at *; omega) (FreesCleanly.mono (by omega) (Nat.le_refl hi) clean)
          refine ⟨pd', ?_, cleared.skip (by omega) unmapped⟩
          rw [mappedPages_skip aligned unmapped, ← run, Nat.one_mul]
        | some pte =>
          have ok := clean a pte user (Nat.le_refl a) more at_a
          have freed : kfree kernEnd free pte.addr = .ok (pte.addr :: free) := by
            simp [kfree, ok]
          simp only [if_neg (ok.ne_zero high), freed]
          obtain ⟨pd', run, cleared⟩ := ih (a + PGSIZE) (pd.setEntry a none) (pte.addr :: free)
            (by unfold PGSIZE at *; omega) (by unfold PGSIZE at *; omega)
            (clean.setEntry user present)
          refine ⟨pd', ?_, cleared.clear user more present⟩
          rw [run, mappedPages_setEntry user bound present, pageAddrs_cons more]
          simp [PageDir.mappedPages, at_a]
    · rw [deallocLoop, if_neg more]
      refine ⟨pd, ?_, Cleared.of_le pd (by omega)⟩
      simp [PageDir.mappedPages, pageAddrs_of_le (show hi ≤ a by omega)]

/-- `deallocuvm` shrinking `oldsz` to `newsz`: the user PTEs from `PGROUNDUP(newsz)` up to
`oldsz` are cleared, the pages they mapped are freed in address order, and it returns `newsz`. -/
theorem deallocuvm_spec {pd : PageDir} {free : FreeList} {oldsz newsz : Nat}
    (bound : oldsz ≤ KERNBASE) (shrinks : newsz < oldsz)
    (clean : FreesCleanly kernEnd (PGROUNDUP newsz) oldsz pd) :
    ∃ pd', deallocuvm kernEnd pd free oldsz newsz =
        .ok (pd', (pd.mappedPages (pageAddrs (PGROUNDUP newsz) oldsz)).reverse ++ free, newsz) ∧
      Cleared (PGROUNDUP newsz) oldsz pd pd' := by
  obtain ⟨pd', run, cleared⟩ := deallocLoop_spec high bound oldsz (PGROUNDUP newsz) pd free
    (PGROUNDUP_aligned newsz) (by omega) clean
  refine ⟨pd', ?_, cleared⟩
  rw [deallocuvm, if_neg (by omega), run]

/-- mappages and deallocuvm within their callers' bounds. For a range of `size > 0` bytes from
`va` that ends by the top of the address space, mappages's loop meets the range's last page, so
it runs over exactly the range's pages, the `k`-th to be mapped to `pa + k * PGSIZE`; when it
maps them all, each of their PTEs is present with `perm` and no other page's PTE changed; when it
stops without a panic, no page was free for a page table; and it panics only on a PTE that was
present. deallocuvm with `oldsz ≤ KERNBASE` returns `oldsz` and changes nothing for a larger
`newsz`; for a smaller one it returns exactly when the pages of the PTEs from `PGROUNDUP(newsz)`
up to `oldsz` are ones kfree takes, and then it frees those pages in address order and clears
their PTEs, stepping over absent page tables. -/
theorem mappages_deallocuvm_spec (pd : PageDir) (free : FreeList) {va size pa : Nat}
    (perm : Perm) (positive : 0 < size) (fits : va + size ≤ 2 ^ 32) (phys : pa < 2 ^ 32)
    {oldsz : Nat} (newsz : Nat) (bound : oldsz ≤ KERNBASE) :
    (mappages pd free va size pa perm = mapLoop pd free perm (mapPages va size pa) ∧
      (∀ pd' free', mappages pd free va size pa perm = .ok (pd', free', true) →
        (∀ p ∈ mapPages va size pa, pd'.entry p.1 = some ⟨p.2, perm⟩) ∧
        ∀ va' < 2 ^ 32, (∀ p ∈ mapPages va size pa, va' / PGSIZE ≠ p.1 / PGSIZE) →
          pd'.entry va' = pd.entry va') ∧
      (∀ pd' free', mappages pd free va size pa perm = .ok (pd', free', false) → free' = []) ∧
      (∀ e, mappages pd free va size pa perm = .error e →
        e = "remap" ∧ ∃ p ∈ mapPages va size pa, (pd.entry p.1).isSome)) ∧
    (oldsz ≤ newsz → deallocuvm kernEnd pd free oldsz newsz = .ok (pd, free, oldsz)) ∧
    (newsz < oldsz →
      ((∃ r, deallocuvm kernEnd pd free oldsz newsz = .ok r) ↔
        FreesCleanly kernEnd (PGROUNDUP newsz) oldsz pd) ∧
      (FreesCleanly kernEnd (PGROUNDUP newsz) oldsz pd →
        ∃ pd', deallocuvm kernEnd pd free oldsz newsz =
          .ok (pd', (pd.mappedPages (pageAddrs (PGROUNDUP newsz) oldsz)).reverse ++ free, newsz) ∧
          Cleared (PGROUNDUP newsz) oldsz pd pd')) := by
  have rounds := mappages_eq pd free perm positive fits phys
  have below : ∀ p ∈ mapPages va size pa, p.1 < 2 ^ 32 := mapPages_below positive fits
  have distinct := mapPages_nodup va size pa
  refine ⟨⟨rounds, fun pd' free' mapped => mapLoop_ok below distinct (rounds.symm.trans mapped),
    fun pd' free' failed => mapLoop_failed (rounds.symm.trans failed),
    fun e failed => mapLoop_error below distinct (rounds.symm.trans failed)⟩,
    fun larger => by rw [deallocuvm, if_pos larger],
    fun shrinks => ⟨⟨fun ⟨r, returned⟩ => ?_, fun clean => ?_⟩,
      fun clean => deallocuvm_spec high bound shrinks clean⟩⟩
  · rw [deallocuvm, if_neg (by omega)] at returned
    cases loop : deallocLoop kernEnd oldsz pd free oldsz (PGROUNDUP newsz) with
    | error message =>
      rw [loop] at returned
      cases returned
    | ok result =>
      exact deallocLoop_clean bound oldsz _ pd free result (PGROUNDUP_aligned newsz) (by omega) loop
  · obtain ⟨pd', returned, -⟩ := deallocuvm_spec high bound shrinks clean
    exact ⟨_, returned⟩

omit high in
/-- The DEVSPACE line of kmap: the range from DEVSPACE to the top of the address space, whose
size `phys_end - phys_start` wraps, maps its pages one for one. -/
theorem mappages_deallocuvm_spec_devspace :
    KERNBASE < KERNBASE + 0x400000 ∧
      mappages ⟨0, fun _ => none⟩ [] DEVSPACE (2 ^ 32 - DEVSPACE) DEVSPACE ⟨true, false⟩ =
        mapLoop ⟨0, fun _ => none⟩ [] ⟨true, false⟩ (mapPages DEVSPACE (2 ^ 32 - DEVSPACE) DEVSPACE) :=
  ⟨by decide, (mappages_deallocuvm_spec (show KERNBASE < KERNBASE + 0x400000 by decide)
    ⟨0, fun _ => none⟩ [] ⟨true, false⟩ (by decide) (by decide) (by decide) 0
    (show 0 ≤ KERNBASE by decide)).1.1⟩

end Layout

end Xv6.Mem
