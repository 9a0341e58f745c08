import Xv6.Verif.PageTable

/-!
# `growproc` and the size of a process

What `sbrk(n)` does to a process whose user memory is as its size says: the user pages present
exactly below `PGROUNDUP(sz)`, every one of them and every free page fit for `kfree`. Growing
maps a fresh page at each new user page, or, when `kalloc` runs dry, clears what it mapped and
gives the pages back; only the page-table pages it took stay with the directory. Shrinking
clears the pages from `PGROUNDUP(sz + n)` on and frees them in address order.

`growproc` tells the two outcomes apart by the size `allocuvm` and `deallocuvm` return, 0 meaning
failure. A shrink to size 0 returns 0 after it has freed every user page, so `growproc` reports
-1 and keeps the old `sz` over an empty address space; and `sz + n` below 0 wraps, in uint
arithmetic, to a size above `sz`, which `deallocuvm` returns unchanged, so `growproc` reports 0
and changes nothing.
-/

namespace Xv6.Mem

/-- A process's memory as its size promises: `sz` below KERNBASE and the user pages present
exactly below `PGROUNDUP(sz)`. -/
structure Space.Fits (space : Space) : Prop where
  small : space.sz < KERNBASE
  mapped : ∀ va, UserPage va → ((space.pgdir.entry va).isSome ↔ va < PGROUNDUP space.sz)

/-- Every page a process maps, and every free page, passes `kfree`'s check. -/
structure Space.Sound (kernEnd : Nat) (space : Space) (free : FreeList) : Prop where
  mapped : FreesCleanly kernEnd 0 KERNBASE space.pgdir
  free : ∀ pa, pa ∈ free → Allocatable kernEnd pa

/-- On a page, below `PGROUNDUP(sz)` is below `sz`. -/
theorem Space.Fits.present_iff {space : Space} (fits : space.Fits) {va : Nat} (user : UserPage va) :
    (space.pgdir.entry va).isSome ↔ va < space.sz := by
  rw [fits.mapped va user, lt_PGROUNDUP_iff fits.small user.1]

theorem Space.Fits.unmapped {space : Space} (fits : space.Fits) {va : Nat} (user : UserPage va)
    (above : space.sz ≤ va) : space.pgdir.entry va = none := by
  have absent := (fits.present_iff user).not.mpr (by omega)
  simpa using absent

/-! ## `allocuvm` -/

/-- `allocuvm`'s loop, up to `a`: each user page from `lo` up to `a` has a fresh page with
`PTE_W | PTE_U`, nothing else of `pd0`'s PTEs has changed, and the pages taken from `free0` are
the new page tables and the pages mapped in the range `[lo, hi)` the loop runs over. -/
structure Grown (lo a hi : Nat) (pd0 : PageDir) (free0 : FreeList) (pd : PageDir)
    (free : FreeList) : Prop where
  outside : ∀ va, UserPage va → ¬(lo ≤ va ∧ va < a) → pd.entry va = pd0.entry va
  inside : ∀ va, UserPage va → lo ≤ va → va < a →
    ∃ pa, pd.entry va = some { addr := pa, perm := { writable := true, user := true } }
  tables : ∀ i t, pd0.tablePage i = some t → pd.tablePage i = some t
  pages : (free ++ pd0.newTables pd ++ pd.mappedPages (pageAddrs lo hi)).Perm free0
  page : pd.page = pd0.page

/-- The user PTEs of `pd0` are back, and the free list lacks only the page-table pages the
directory gained. -/
structure Restored (pd0 : PageDir) (free0 : FreeList) (pd : PageDir) (free : FreeList) : Prop where
  entry : ∀ va, UserPage va → pd.entry va = pd0.entry va
  tables : ∀ i t, pd0.tablePage i = some t → pd.tablePage i = some t
  pages : (free ++ pd0.newTables pd).Perm free0
  page : pd.page = pd0.page

section Layout

variable {kernEnd : Nat}

theorem Grown.start {lo hi : Nat} {pd0 : PageDir} (free0 : FreeList) (aligned : lo % PGSIZE = 0)
    (bound : hi ≤ KERNBASE)
    (unmapped : ∀ va, UserPage va → lo ≤ va → va < hi → pd0.entry va = none) :
    Grown lo lo hi pd0 free0 pd0 free0 where
  outside _ _ _ := rfl
  inside va _ low high := absurd high (by omega)
  tables _ _ present := present
  pages := by
    have none_mapped : pd0.mappedPages (pageAddrs lo hi) = [] := by
      apply PageDir.mappedPages_eq_nil
      intro va mem
      obtain ⟨low, high, on_page⟩ := (mem_pageAddrs aligned).mp mem
      exact unmapped va ⟨on_page, by omega⟩ low high
    rw [PageDir.newTables_self, none_mapped, List.append_nil, List.append_nil]
  page := rfl

/-- Every page the loop holds, free or mapped in its range, came from `free0`. -/
theorem Grown.mem_free0 {lo a hi : Nat} {pd0 pd : PageDir} {free0 free : FreeList}
    (grown : Grown lo a hi pd0 free0 pd free) {pa : Nat}
    (held : pa ∈ free ∨ pa ∈ pd.mappedPages (pageAddrs lo hi)) : pa ∈ free0 := by
  apply grown.pages.subset
  rcases held with held | held
  · exact List.mem_append_left _ (List.mem_append_left _ held)
  · exact List.mem_append_right _ held

/-- The pages the loop mapped pass `kfree`'s check, as the pages of `free0` do. -/
theorem Grown.clean {lo a hi : Nat} {pd0 pd : PageDir} {free0 free : FreeList}
    (grown : Grown lo a hi pd0 free0 pd free) (aligned : lo % PGSIZE = 0)
    (allocatable : ∀ pa, pa ∈ free0 → Allocatable kernEnd pa) : FreesCleanly kernEnd lo hi pd := by
  intro va pte user low high at_va
  apply allocatable
  apply grown.mem_free0 (.inr _)
  exact PageDir.mem_mappedPages.mpr
    ⟨va, (mem_pageAddrs aligned).mpr ⟨low, high, user.1⟩, pte, at_va, rfl⟩

/-- One round of the loop that maps its page. The new directory differs from `pd` at the PTE of `a`
only; the page of `a` moves from the free list to the range, after a new page table at `PDX(a)` when
one was needed. -/
theorem Grown.map {lo a hi mem : Nat} {pd0 pd pd1 : PageDir} {free0 free free1 : FreeList}
    (grown : Grown lo a hi pd0 free0 pd (mem :: free))
    (walk : walkpgdir pd free a true = some (pd1, free1)) (user : UserPage a) (low : lo ≤ a)
    (more : a < hi) (aligned : lo % PGSIZE = 0) (bound : hi ≤ KERNBASE)
    (fresh : pd.entry a = none) :
    Grown lo (a + PGSIZE) hi pd0 free0
      (pd1.setEntry a (some { addr := mem, perm := { writable := true, user := true } })) free1 := by
  have present := walkpgdir_present walk
  have others : ∀ va, UserPage va → va ≠ a →
      (pd1.setEntry a (some { addr := mem, perm := { writable := true, user := true } })).entry va =
        pd.entry va := by
    intro va user' other
    rw [PageDir.entry_setEntry user user' present, if_neg other, walkpgdir_entry walk]
  have kept : ∀ i t, pd0.tablePage i = some t → pd1.tablePage i = some t := by
    intro i t at_i
    rcases walkpgdir_tablePage walk with ⟨same, -⟩ | ⟨t', -, absent, -, untouched⟩
    · rw [same]
      exact grown.tables i t at_i
    · have other : i ≠ PDX a := by
        rintro rfl
        have := grown.tables _ t at_i
        rw [absent] at this
        cases this
      rw [untouched i other]
      exact grown.tables i t at_i
  have mapped := PageDir.mappedPages_perm (pageAddrs_nodup lo hi)
    ((mem_pageAddrs aligned).mpr ⟨low, more, user.1⟩) fresh
    (by rw [PageDir.entry_setEntry user user present, if_pos rfl])
    (fun va mem' other => by
      obtain ⟨-, high, on_page⟩ := (mem_pageAddrs aligned).mp mem'
      exact others va ⟨on_page, by omega⟩ other)
  refine ⟨fun va user' outside => ?_, fun va user' low' high' => ?_, ?_, ?_, ?_⟩
  · have other : va ≠ a := by
      rintro rfl
      exact outside ⟨low, by unfold PGSIZE; omega⟩
    rw [others va user' other]
    exact grown.outside va user' fun inside => outside ⟨inside.1, by omega⟩
  · by_cases same : va = a
    · subst same
      exact ⟨mem, by rw [PageDir.entry_setEntry user user present, if_pos rfl]⟩
    · rw [others va user' same]
      have below : va < a := by
        unfold UserPage at user user'
        unfold PGSIZE at *
        omega
      exact grown.inside va user' low' below
  · intro i t at_i
    rw [PageDir.tablePage_setEntry]
    exact kept i t at_i
  · rw [PageDir.newTables_congr (PageDir.tablePage_setEntry _ _ _)]
    rcases walkpgdir_tablePage walk with ⟨same, rfl⟩ | ⟨t, rfl, absent, now, untouched⟩
    · rw [PageDir.newTables_congr same]
      refine List.Perm.trans ?_ grown.pages
      calc List.Perm (free1 ++ pd0.newTables pd ++ _)
            (free1 ++ pd0.newTables pd ++ mem :: pd.mappedPages (pageAddrs lo hi)) :=
            mapped.append_left _
        List.Perm _ (mem :: (free1 ++ pd0.newTables pd ++ pd.mappedPages (pageAddrs lo hi))) :=
            List.perm_middle
    · have absent0 : pd0.tablePage (PDX a) = none := by
        cases at_a : pd0.tablePage (PDX a) with
        | none => rfl
        | some t0 =>
          have := grown.tables _ t0 at_a
          rw [absent] at this
          cases this
      have tables := PageDir.newTables_add absent0 absent now untouched
      refine List.Perm.trans ?_ grown.pages
      calc List.Perm (free1 ++ pd0.newTables pd1 ++ _)
            (free1 ++ t :: pd0.newTables pd ++ mem :: pd.mappedPages (pageAddrs lo hi)) :=
            (tables.append_left _).append mapped
        List.Perm _ (mem :: (free1 ++ t :: pd0.newTables pd ++ pd.mappedPages (pageAddrs lo hi))) :=
            List.perm_middle
        List.Perm _ (mem :: t :: (free1 ++ pd0.newTables pd ++ pd.mappedPages (pageAddrs lo hi))) := by
            apply List.Perm.cons
            simpa only [List.append_assoc, List.cons_append] using List.perm_middle
  · rw [PageDir.setEntry_page, walkpgdir_page walk, grown.page]

variable (high : KERNBASE < kernEnd)
include high

/-- On a failure the loop calls `deallocuvm(pgdir, newsz, oldsz)`: it clears the range and gives
back every page mapped in it, onto whatever free list it is handed. -/
theorem Grown.undo {oldsz a hi : Nat} {pd0 pd : PageDir} {free0 free : FreeList}
    (grown : Grown (PGROUNDUP oldsz) a hi pd0 free0 pd free) (bound : hi ≤ KERNBASE)
    (grows : oldsz < hi) (within : a ≤ hi)
    (unmapped : ∀ va, UserPage va → PGROUNDUP oldsz ≤ va → va < hi → pd0.entry va = none)
    (allocatable : ∀ pa, pa ∈ free0 → Allocatable kernEnd pa) (any : FreeList) :
    ∃ pd', deallocuvm kernEnd pd any hi oldsz =
        .ok (pd', (pd.mappedPages (pageAddrs (PGROUNDUP oldsz) hi)).reverse ++ any, oldsz) ∧
      (∀ va, UserPage va → pd'.entry va = pd0.entry va) ∧ pd'.tablePage = pd.tablePage ∧
      pd'.page = pd.page := by
  obtain ⟨pd', run, cleared⟩ := deallocuvm_spec high bound grows
    (grown.clean (PGROUNDUP_aligned oldsz) allocatable)
  refine ⟨pd', run, fun va user => ?_, cleared.tables, cleared.page⟩
  rw [cleared.entry va user]
  split_ifs with inside
  · exact (unmapped va user inside.1 inside.2).symm
  · exact grown.outside va user fun below => inside ⟨below.1, by omega⟩

/-- `allocuvm`'s loop over the pages from `a` on, from a state the loop reaches: it maps every page
up to `PGROUNDUP(newsz)` and returns `newsz`, or it gives back what it mapped and returns 0. It
never panics: the pages it maps are absent, and the pages it frees came from the free list. The
induction is on the pages left, each round mapping one of them; when kalloc fails, for the page or
for a page table, the pages mapped so far go back in reverse order. -/
theorem allocLoop_spec {oldsz newsz : Nat} {pd0 : PageDir} {free0 : FreeList}
    (small : newsz < KERNBASE) (grows : oldsz ≤ newsz)
    (unmapped : ∀ va, UserPage va → PGROUNDUP oldsz ≤ va → va < newsz → pd0.entry va = none)
    (allocatable : ∀ pa, pa ∈ free0 → Allocatable kernEnd pa) :
    ∀ (l : List Nat) (a : Nat) (pd : PageDir) (free : FreeList), l = pageAddrs a newsz →
      a % PGSIZE = 0 → PGROUNDUP oldsz ≤ a → a ≤ PGROUNDUP newsz →
      Grown (PGROUNDUP oldsz) a newsz pd0 free0 pd free →
      (∃ pd' free', allocLoop kernEnd oldsz newsz pd free l = .ok (pd', free', newsz) ∧
          Grown (PGROUNDUP oldsz) (PGROUNDUP newsz) newsz pd0 free0 pd' free') ∨
        (∃ pd' free', allocLoop kernEnd oldsz newsz pd free l = .ok (pd', free', 0) ∧
          Restored pd0 free0 pd' free') := by
  have rounded := PGROUNDUP_eq small
  have aligned_lo := PGROUNDUP_aligned oldsz
  intro l
  induction l with
  | nil =>
    intro a pd free listed aligned low within grown
    have past : newsz ≤ a := by
      by_contra more
      rw [pageAddrs_cons (by omega)] at listed
      cases listed
    have last : a = PGROUNDUP newsz := by
      unfold PGSIZE at *
      omega
    subst last
    exact .inl ⟨pd, free, rfl, grown⟩
  | cons a' rest ih =>
    intro a pd free listed aligned low within grown
    have more : a < newsz := by
      by_contra past
      rw [pageAddrs_of_le (by omega)] at listed
      cases listed
    rw [pageAddrs_cons more, List.cons.injEq] at listed
    obtain ⟨head, tail⟩ := listed
    subst a'
    have user : UserPage a := ⟨aligned, by omega⟩
    have fresh : pd.entry a = none := by
      rw [grown.outside a user (by omega), unmapped a user low more]
    have room : a + PGSIZE ≤ PGROUNDUP newsz := by
      unfold PGSIZE at *
      omega
    have up := (PGROUNDUP_bounds (show oldsz < KERNBASE by omega)).2.1
    have undo := grown.undo high small.le (by omega) more.le unmapped allocatable
    cases free with
    | nil =>
      obtain ⟨pd', undone, entries, tables, page⟩ := undo []
      refine .inr ⟨pd', (pd.mappedPages (pageAddrs (PGROUNDUP oldsz) newsz)).reverse ++ [],
        by simp only [allocLoop, kalloc, undone], entries, ?_, ?_, ?_⟩
      · intro i t at_i
        rw [tables]
        exact grown.tables i t at_i
      · rw [PageDir.newTables_congr tables]
        refine List.Perm.trans ?_ grown.pages
        calc List.Perm ((pd.mappedPages (pageAddrs (PGROUNDUP oldsz) newsz)).reverse ++ [] ++
              pd0.newTables pd)
              (pd.mappedPages (pageAddrs (PGROUNDUP oldsz) newsz) ++ pd0.newTables pd) := by
              rw [List.append_nil]
              exact (List.reverse_perm _).append_right _
          List.Perm _ ([] ++ pd0.newTables pd ++ pd.mappedPages (pageAddrs (PGROUNDUP oldsz) newsz)) := by
              rw [List.nil_append]
              exact List.perm_append_comm
      · rw [page, grown.page]
    | cons mem free =>
      have mapping := @mappages_page pd free a mem { writable := true, user := true } user
      cases walk : walkpgdir pd free a true with
      | none =>
        have freed : kfree kernEnd ((pd.mappedPages (pageAddrs (PGROUNDUP oldsz) newsz)).reverse ++
            free) mem = .ok (mem :: ((pd.mappedPages (pageAddrs (PGROUNDUP oldsz) newsz)).reverse ++
              free)) := by
          have ok := allocatable mem (grown.mem_free0 (.inl List.mem_cons_self))
          simp [kfree, ok]
        obtain ⟨pd', undone, entries, tables, page⟩ := undo free
        refine .inr ⟨pd', mem :: ((pd.mappedPages (pageAddrs (PGROUNDUP oldsz) newsz)).reverse ++
          free), ?_, entries, ?_, ?_, ?_⟩
        · simp only [allocLoop, kalloc, mapping, mapLoop_one, walk, undone, freed]
        · intro i t at_i
          rw [tables]
          exact grown.tables i t at_i
        · rw [PageDir.newTables_congr tables]
          refine List.Perm.trans ?_ grown.pages
          have swapped := ((List.reverse_perm (pd.mappedPages (pageAddrs (PGROUNDUP oldsz) newsz))).append_right
            (free ++ pd0.newTables pd)).trans List.perm_append_comm
          simpa only [List.cons_append, List.append_assoc] using swapped.cons mem
        · rw [page, grown.page]
      | some walked =>
        obtain ⟨pd1, free1⟩ := walked
        have fresh1 : pd1.entry a = none := by rw [walkpgdir_entry walk, fresh]
        have step : allocLoop kernEnd oldsz newsz pd (mem :: free) (a :: rest) =
            allocLoop kernEnd oldsz newsz
              (pd1.setEntry a (some { addr := mem, perm := { writable := true, user := true } }))
              free1 rest := by
          simp only [allocLoop, kalloc, mapping, mapLoop_one, walk, fresh1, Option.isSome_none,
            Bool.false_eq_true, if_false]
        rw [step]
        exact ih (a + PGSIZE) _ free1 tail (by unfold PGSIZE at *; omega) (by omega) room
          (grown.map walk user low more aligned_lo small.le fresh)

omit high in
/-- After the whole loop the memory is as the new size promises. -/
theorem Grown.fits {space : Space} {newsz : Nat} {pd : PageDir} {free0 free : FreeList}
    (grown : Grown (PGROUNDUP space.sz) (PGROUNDUP newsz) newsz space.pgdir free0 pd free)
    (fits : space.Fits) (small : newsz < KERNBASE) (grows : space.sz ≤ newsz) :
    Space.Fits { pgdir := pd, sz := newsz } where
  small := small
  mapped va user := by
    show (pd.entry va).isSome ↔ va < PGROUNDUP newsz
    have mono : PGROUNDUP space.sz ≤ PGROUNDUP newsz := by
      rw [PGROUNDUP_eq fits.small, PGROUNDUP_eq small]
      unfold PGSIZE
      omega
    by_cases inside : PGROUNDUP space.sz ≤ va ∧ va < PGROUNDUP newsz
    · obtain ⟨pa, at_va⟩ := grown.inside va user inside.1 inside.2
      simp [at_va, inside.2]
    · rw [grown.outside va user inside, fits.mapped va user]
      omega

omit high in
theorem Grown.sound {space : Space} {newsz : Nat} {pd : PageDir} {free0 free : FreeList}
    (grown : Grown (PGROUNDUP space.sz) (PGROUNDUP newsz) newsz space.pgdir free0 pd free)
    (sound : space.Sound kernEnd free0) (small : newsz < KERNBASE) :
    Space.Sound kernEnd { pgdir := pd, sz := newsz } free where
  mapped va pte user low high at_va := by
    by_cases inside : PGROUNDUP space.sz ≤ va ∧ va < newsz
    · exact grown.clean (PGROUNDUP_aligned _) sound.free va pte user inside.1 inside.2 at_va
    · have outside : ¬(PGROUNDUP space.sz ≤ va ∧ va < PGROUNDUP newsz) := by
        rw [lt_PGROUNDUP_iff small user.1]
        exact inside
      rw [grown.outside va user outside] at at_va
      exact sound.mapped va pte user low high at_va
  free pa mem := sound.free pa (grown.mem_free0 (.inl mem))

omit high in
theorem Restored.fits {space : Space} {pd : PageDir} {free0 free : FreeList}
    (restored : Restored space.pgdir free0 pd free) (fits : space.Fits) :
    Space.Fits { space with pgdir := pd } where
  small := fits.small
  mapped va user := by
    show (pd.entry va).isSome ↔ va < PGROUNDUP space.sz
    rw [restored.entry va user]
    exact fits.mapped va user

omit high in
theorem Restored.sound {space : Space} {pd : PageDir} {free0 free : FreeList}
    (restored : Restored space.pgdir free0 pd free) (sound : space.Sound kernEnd free0) :
    Space.Sound kernEnd { space with pgdir := pd } free where
  mapped va pte user low high at_va := by
    rw [show pd.entry va = space.pgdir.entry va from restored.entry va user] at at_va
    exact sound.mapped va pte user low high at_va
  free pa mem := sound.free pa (restored.pages.subset (List.mem_append_left _ mem))

/-- `allocuvm` from a process's size to a larger one below KERNBASE: every new user page is
mapped and it returns the new size, or the old memory is back and it returns 0. -/
theorem allocuvm_spec {space : Space} {free : FreeList} {newsz : Nat} (fits : space.Fits)
    (sound : space.Sound kernEnd free) (small : newsz < KERNBASE) (grows : space.sz ≤ newsz) :
    (∃ pd free', allocuvm kernEnd space.pgdir free space.sz newsz = .ok (pd, free', newsz) ∧
        Grown (PGROUNDUP space.sz) (PGROUNDUP newsz) newsz space.pgdir free pd free') ∨
      (∃ pd free', allocuvm kernEnd space.pgdir free space.sz newsz = .ok (pd, free', 0) ∧
        Restored space.pgdir free pd free') := by
  have up := (PGROUNDUP_bounds fits.small).2.1
  have unmapped : ∀ va, UserPage va → PGROUNDUP space.sz ≤ va → va < newsz →
      space.pgdir.entry va = none :=
    fun va user low _ => fits.unmapped user (by omega)
  have mono : PGROUNDUP space.sz ≤ PGROUNDUP newsz := by
    rw [PGROUNDUP_eq fits.small, PGROUNDUP_eq small]
    unfold PGSIZE
    omega
  rw [allocuvm, if_neg (by omega), if_neg (by omega)]
  exact allocLoop_spec high small grows unmapped sound.free _ _ _ _ rfl (PGROUNDUP_aligned _)
    (Nat.le_refl _) mono (Grown.start free (PGROUNDUP_aligned _) small.le unmapped)

/-! ## Shrinking -/

/-- `deallocuvm` from a process's size to a smaller one: the memory is as the smaller size
promises, and the pages from `PGROUNDUP(newsz)` on are freed in address order. -/
theorem deallocuvm_fits {space : Space} {free : FreeList} {newsz : Nat} (fits : space.Fits)
    (sound : space.Sound kernEnd free) (shrinks : newsz < space.sz) :
    ∃ pd, deallocuvm kernEnd space.pgdir free space.sz newsz =
        .ok (pd, (space.pgdir.mappedPages (pageAddrs (PGROUNDUP newsz) space.sz)).reverse ++ free,
          newsz) ∧
      Space.Fits { pgdir := pd, sz := newsz } ∧
      Space.Sound kernEnd { pgdir := pd, sz := newsz }
        ((space.pgdir.mappedPages (pageAddrs (PGROUNDUP newsz) space.sz)).reverse ++ free) := by
  have small : newsz < KERNBASE := by have := fits.small; omega
  obtain ⟨pd, run, cleared⟩ := deallocuvm_spec high fits.small.le shrinks
    (FreesCleanly.mono (Nat.zero_le _) fits.small.le sound.mapped)
  refine ⟨pd, run, ⟨small, fun va user => ?_⟩, ⟨fun va pte user low high at_va => ?_, ?_⟩⟩
  · show (pd.entry va).isSome ↔ va < PGROUNDUP newsz
    rw [cleared.entry va user, lt_PGROUNDUP_iff small user.1]
    have rounded := lt_PGROUNDUP_iff small user.1
    split_ifs with inside
    · simp only [Option.isSome_none, Bool.false_eq_true, false_iff, not_lt]
      have above := rounded.not.mp (by omega)
      omega
    · rw [fits.present_iff user]
      constructor
      · intro below
        exact rounded.mp (by omega)
      · intro below
        omega
  · rw [cleared.entry va user] at at_va
    split_ifs at at_va
    exact sound.mapped va pte user low high at_va
  · intro pa mem
    rcases List.mem_append.mp mem with freed | old
    · obtain ⟨va, listed, pte, at_va, rfl⟩ := PageDir.mem_mappedPages.mp (List.mem_reverse.mp freed)
      obtain ⟨-, high, on_page⟩ := (mem_pageAddrs (PGROUNDUP_aligned newsz)).mp listed
      exact sound.mapped va pte ⟨on_page, by have := fits.small; omega⟩ (Nat.zero_le _)
        (by have := fits.small; omega) at_va
    · exact sound.free pa old

/-! ## `growproc` -/

omit high in
/-- Where `sz + n` is not negative, uint arithmetic computes it. -/
theorem growproc_target (sz : Nat) (n : Int32) (small : sz < KERNBASE)
    (nonneg : 0 ≤ (sz : Int) + n.toInt) :
    (((sz : Int) + n.toInt) % 2 ^ 32).toNat = ((sz : Int) + n.toInt).toNat := by
  have := Int32.toInt_lt n
  unfold KERNBASE at small
  omega

omit high in
/-- Below 0, `sz + n` wraps to a size at or above KERNBASE. -/
theorem growproc_target_wraps (sz : Nat) (n : Int32) (small : sz < KERNBASE)
    (negative : (sz : Int) + n.toInt < 0) : KERNBASE ≤ (((sz : Int) + n.toInt) % 2 ^ 32).toNat := by
  have := Int32.le_toInt n
  unfold KERNBASE at *
  omega

theorem growproc_grows {space : Space} {free : FreeList} {n : Int32} (fits : space.Fits)
    (sound : space.Sound kernEnd free) (pos : 0 < n.toInt)
    (below : (space.sz : Int) + n.toInt < KERNBASE) :
    (∃ pd free', growproc kernEnd space free n =
          .ok ({ pgdir := pd, sz := ((space.sz : Int) + n.toInt).toNat }, free', 0) ∧
        Space.Fits { pgdir := pd, sz := ((space.sz : Int) + n.toInt).toNat } ∧
        Space.Sound kernEnd { pgdir := pd, sz := ((space.sz : Int) + n.toInt).toNat } free') ∨
      (∃ pd free', growproc kernEnd space free n = .ok ({ space with pgdir := pd }, free', -1) ∧
        Restored space.pgdir free pd free') := by
  have target := growproc_target space.sz n fits.small (by omega)
  obtain ⟨k, size⟩ : ∃ k, ((space.sz : Int) + n.toInt).toNat = k + 1 :=
    ⟨((space.sz : Int) + n.toInt).toNat - 1, by omega⟩
  rcases allocuvm_spec high fits sound (show ((space.sz : Int) + n.toInt).toNat < KERNBASE by omega)
      (by omega) with ⟨pd, free', alloc, grown⟩ | ⟨pd, free', alloc, restored⟩
  · refine .inl ⟨pd, free', ?_, grown.fits fits (by omega) (by omega), grown.sound sound (by omega)⟩
    unfold growproc
    rw [if_pos pos, target, alloc, size]
    rfl
  · refine .inr ⟨pd, free', ?_, restored⟩
    unfold growproc
    rw [if_pos pos, target, alloc]
    rfl

omit high in
theorem growproc_too_big {space : Space} {free : FreeList} {n : Int32} (fits : space.Fits)
    (pos : 0 < n.toInt) (big : KERNBASE ≤ (space.sz : Int) + n.toInt) :
    growproc kernEnd space free n = .ok (space, free, -1) := by
  have target := growproc_target space.sz n fits.small (by omega)
  unfold growproc
  rw [if_pos pos, target, allocuvm, if_pos (by omega)]
  rfl

omit high in
theorem growproc_zero {space : Space} {free : FreeList} {n : Int32} (zero : n.toInt = 0) :
    growproc kernEnd space free n = .ok (space, free, 0) := by
  unfold growproc
  rw [if_neg (by omega), if_neg (by omega)]

theorem growproc_shrinks {space : Space} {free : FreeList} {n : Int32} (fits : space.Fits)
    (sound : space.Sound kernEnd free) (negative : n.toInt < 0)
    (pos : 0 < (space.sz : Int) + n.toInt) :
    ∃ pd, growproc kernEnd space free n =
        .ok ({ pgdir := pd, sz := ((space.sz : Int) + n.toInt).toNat },
          (space.pgdir.mappedPages
            (pageAddrs (PGROUNDUP ((space.sz : Int) + n.toInt).toNat) space.sz)).reverse ++ free, 0) ∧
      Space.Fits { pgdir := pd, sz := ((space.sz : Int) + n.toInt).toNat } ∧
      Space.Sound kernEnd { pgdir := pd, sz := ((space.sz : Int) + n.toInt).toNat }
        ((space.pgdir.mappedPages
          (pageAddrs (PGROUNDUP ((space.sz : Int) + n.toInt).toNat) space.sz)).reverse ++ free) := by
  have target := growproc_target space.sz n fits.small (by omega)
  obtain ⟨k, size⟩ : ∃ k, ((space.sz : Int) + n.toInt).toNat = k + 1 :=
    ⟨((space.sz : Int) + n.toInt).toNat - 1, by omega⟩
  obtain ⟨pd, dealloc, fits', sound'⟩ := deallocuvm_fits high fits sound
    (show ((space.sz : Int) + n.toInt).toNat < space.sz by omega)
  refine ⟨pd, ?_, fits', sound'⟩
  unfold growproc
  rw [if_neg (by omega), if_pos negative, target, dealloc, size]
  rfl

omit high in
theorem PGROUNDUP_zero : PGROUNDUP 0 = 0 := by
  unfold PGROUNDUP PGSIZE
  omega

/-- Shrinking to size 0 frees every user page and clears its PTE, but `deallocuvm` returns the
0 that `growproc` takes for failure. -/
theorem growproc_shrinks_to_zero {space : Space} {free : FreeList} {n : Int32} (fits : space.Fits)
    (sound : space.Sound kernEnd free) (negative : n.toInt < 0)
    (zero : (space.sz : Int) + n.toInt = 0) :
    ∃ pd, growproc kernEnd space free n =
        .ok ({ space with pgdir := pd },
          (space.pgdir.mappedPages (pageAddrs 0 space.sz)).reverse ++ free, -1) ∧
      ∀ va, UserPage va → pd.entry va = none := by
  have target := growproc_target space.sz n fits.small (by omega)
  have size : ((space.sz : Int) + n.toInt).toNat = 0 := by omega
  obtain ⟨pd, dealloc, fits', -⟩ := deallocuvm_fits high fits sound
    (show 0 < space.sz by omega)
  refine ⟨pd, ?_, fun va user => ?_⟩
  · unfold growproc
    rw [if_neg (by omega), if_pos negative, target, size, dealloc, PGROUNDUP_zero]
    rfl
  · have absent := (fits'.mapped va user).not.mpr (by rw [PGROUNDUP_zero]; omega)
    simpa using absent

omit high in
/-- Below 0, `sz + n` wraps above the size and `deallocuvm` returns the size unchanged, which
`growproc` takes for success unless it is 0. -/
theorem growproc_wraps {space : Space} {free : FreeList} {n : Int32} (fits : space.Fits)
    (negative : (space.sz : Int) + n.toInt < 0) :
    growproc kernEnd space free n = .ok (space, free, if space.sz = 0 then -1 else 0) := by
  have wraps := growproc_target_wraps space.sz n fits.small negative
  have small := fits.small
  unfold growproc
  rw [if_neg (by omega), if_pos (by omega), deallocuvm, if_pos (by omega)]
  obtain ⟨pgdir, sz⟩ := space
  cases sz <;> rfl

/-- `growproc(n)` of a process whose memory is as its size says, for every `n`. -/
theorem growproc_spec {space : Space} {free : FreeList} (fits : space.Fits)
    (sound : space.Sound kernEnd free) (n : Int32) :
    (0 < n.toInt → (space.sz : Int) + n.toInt < KERNBASE →
      (∃ pd free', growproc kernEnd space free n =
            .ok ({ pgdir := pd, sz := ((space.sz : Int) + n.toInt).toNat }, free', 0) ∧
          Space.Fits { pgdir := pd, sz := ((space.sz : Int) + n.toInt).toNat } ∧
          Space.Sound kernEnd { pgdir := pd, sz := ((space.sz : Int) + n.toInt).toNat } free') ∨
        (∃ pd free', growproc kernEnd space free n = .ok ({ space with pgdir := pd }, free', -1) ∧
          Restored space.pgdir free pd free')) ∧
    (0 < n.toInt → KERNBASE ≤ (space.sz : Int) + n.toInt →
      growproc kernEnd space free n = .ok (space, free, -1)) ∧
    (n.toInt = 0 → growproc kernEnd space free n = .ok (space, free, 0)) ∧
    (n.toInt < 0 → 0 < (space.sz : Int) + n.toInt →
      ∃ pd, growproc kernEnd space free n =
          .ok ({ pgdir := pd, sz := ((space.sz : Int) + n.toInt).toNat },
            (space.pgdir.mappedPages
              (pageAddrs (PGROUNDUP ((space.sz : Int) + n.toInt).toNat) space.sz)).reverse ++ free,
            0) ∧
        Space.Fits { pgdir := pd, sz := ((space.sz : Int) + n.toInt).toNat } ∧
        Space.Sound kernEnd { pgdir := pd, sz := ((space.sz : Int) + n.toInt).toNat }
          ((space.pgdir.mappedPages
            (pageAddrs (PGROUNDUP ((space.sz : Int) + n.toInt).toNat) space.sz)).reverse ++ free)) ∧
    (n.toInt < 0 → (space.sz : Int) + n.toInt = 0 →
      ∃ pd, growproc kernEnd space free n =
          .ok ({ space with pgdir := pd },
            (space.pgdir.mappedPages (pageAddrs 0 space.sz)).reverse ++ free, -1) ∧
        ∀ va, UserPage va → pd.entry va = none) ∧
    ((space.sz : Int) + n.toInt < 0 →
      growproc kernEnd space free n = .ok (space, free, if space.sz = 0 then -1 else 0)) :=
  ⟨growproc_grows high fits sound, growproc_too_big fits, growproc_zero,
    growproc_shrinks high fits sound, growproc_shrinks_to_zero high fits sound, growproc_wraps fits⟩

end Layout

/-! ## One page -/

/-- The page table of `onePage`: user address 0 on physical page 0x300000. -/
def onePageTable : PageTab where
  page := 0x301000
  entries j := if j = 0 then some { addr := 0x300000, perm := { writable := true, user := true } }
    else none

/-- A process of one page, with its page table on 0x301000 and its directory on 0x302000. -/
def onePage : Space where
  pgdir := { page := 0x302000, tables := fun i => if i = 0 then some onePageTable else none }
  sz := PGSIZE

theorem onePage_entry {va : Nat} (user : UserPage va) :
    onePage.pgdir.entry va =
      if va = 0 then some { addr := 0x300000, perm := { writable := true, user := true } }
      else none := by
  have zero : UserPage 0 := ⟨rfl, by decide⟩
  have index := user.index_eq_iff zero
  have pdx : PDX 0 = 0 := rfl
  have ptx : PTX 0 = 0 := rfl
  rw [pdx, ptx] at index
  by_cases at_zero : va = 0
  · subst at_zero
    rfl
  · have apart := index.not.mpr at_zero
    rw [if_neg at_zero]
    by_cases same_table : PDX va = 0
    · have other : PTX va ≠ 0 := fun eq => apart ⟨same_table, eq⟩
      simp [onePage, PageDir.entry, same_table, onePageTable, other]
    · simp [onePage, PageDir.entry, same_table]

theorem onePage_fits : onePage.Fits where
  small := by decide
  mapped va user := by
    have aligned := user.1
    have rounded : PGROUNDUP onePage.sz = PGSIZE := rfl
    rw [onePage_entry user, rounded]
    unfold PGSIZE at *
    by_cases at_zero : va = 0
    · simp [at_zero]
    · simp only [at_zero, if_false, Option.isSome_none, Bool.false_eq_true, false_iff, not_lt]
      omega

theorem onePage_sound : onePage.Sound (KERNLINK + 0x100000) [] where
  mapped va pte user _ _ at_va := by
    rw [onePage_entry user] at at_va
    split_ifs at at_va
    cases at_va
    decide
  free _ mem := absurd mem List.not_mem_nil

/-- `sbrk(-4096)` of the one-page process: page 0 is freed and unmapped, yet `growproc` returns
-1 and the size stays 4096. -/
theorem growproc_spec_onePage :
    ∃ pd, growproc (KERNLINK + 0x100000) onePage [] (-4096) =
        .ok ({ onePage with pgdir := pd }, [0x300000], -1) ∧
      ∀ va, UserPage va → pd.entry va = none := by
  obtain ⟨pd, run, unmapped⟩ :=
    (growproc_spec (by decide) onePage_fits onePage_sound (-4096)).2.2.2.2.1 (by decide) (by decide)
  have freed : (onePage.pgdir.mappedPages (pageAddrs 0 onePage.sz)).reverse ++ [] = [0x300000] := by
    decide
  exact ⟨pd, freed ▸ run, unmapped⟩

end Xv6.Mem
