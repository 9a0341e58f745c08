import Xv6.Verif.Umalloc

/-!
# malloc on the headers

malloc's loop walks the free list from the block after `freep` round to `freep`. It hands out
the first block of at least `nunits` units it meets, whole or from its tail
(`Wf.take_exact`, `Wf.take_split`); a lap that meets none ends at `freep` with morecore, which
frees a block of at least `nunits` units past the break, so that the next lap ends with one
handed out (`Wf.mallocLoop_spec`). sbrk is taken as `Grows` says, which holds of the increments
morecore passes when `nunits < 2^28`.
-/

namespace Xv6.User

/-- What morecore needs of sbrk: an increment that is not negative moves the break up by it,
staying below 2^32, or the call fails. -/
def Grows (sbrk : Nat → Int → Option Nat) : Prop :=
  ∀ brk n brk', 0 ≤ n → sbrk brk n = some brk' → (brk' : Int) = brk + n ∧ brk' < 2 ^ 32

/-- Below 2^28 units, the bytes morecore asks for are a positive int. -/
theorem sbrkArg_of_lt {nu : Nat} (small : nu < 2 ^ 28) : sbrkArg nu = ((nu * HEADER : Nat) : Int) := by
  have fits : nu * HEADER < 2 ^ 31 := by
    unfold HEADER
    omega
  unfold sbrkArg
  dsimp only
  rw [Nat.mod_eq_of_lt (Nat.lt_trans fits (by decide)), if_pos fits]

/-! ## The rounds of malloc's loop -/

section Loop

variable (sbrk : Nat → Int → Option Nat) {N : Nat} (h : Heap) (prevp p fuel : Nat)

/-- A block too small that is not `freep`: the loop goes on to the next. -/
theorem mallocLoop_pass (small : (h.hdr p).size < N) (other : p ≠ h.freep) :
    mallocLoop sbrk N (fuel + 1) h prevp p = mallocLoop sbrk N fuel h p (h.hdr p).ptr := by
  rw [mallocLoop, if_neg (Nat.not_le.mpr small), if_neg other]

/-- A block of exactly `N` units is unlinked from the list and handed out. -/
theorem mallocLoop_exact (exact : (h.hdr p).size = N) :
    mallocLoop sbrk N (fuel + 1) h prevp p =
      some ({ h.setPtr prevp (h.hdr p).ptr with freep := prevp }, plus p 1) := by
  rw [mallocLoop, if_pos (Nat.le_of_eq exact.symm), if_pos exact]

/-- A larger block hands out its last `N` units and keeps the rest. -/
theorem mallocLoop_split (large : N < (h.hdr p).size) :
    mallocLoop sbrk N (fuel + 1) h prevp p =
      some ({ (h.setSize p ((h.hdr p).size - N)).setSize (plus p ((h.hdr p).size - N)) N with
        freep := prevp }, plus (plus p ((h.hdr p).size - N)) 1) := by
  rw [mallocLoop, if_pos (Nat.le_of_lt large), if_neg (Nat.ne_of_gt large)]
  dsimp only
  rw [Heap.setSize_hdr_self]

/-- At `freep`, too small, when morecore fails: malloc returns 0. -/
theorem mallocLoop_fail {h' : Heap} (small : (h.hdr p).size < N) (here : p = h.freep)
    (fail : morecore sbrk h N fuel = some (h', 0)) :
    mallocLoop sbrk N (fuel + 1) h prevp p = some (h', 0) := by
  rw [mallocLoop, if_neg (Nat.not_le.mpr small), if_pos here, fail]
  rfl

/-- At `freep`, too small, when morecore returns a block: the loop goes on from there. -/
theorem mallocLoop_more {h' : Heap} {q : Nat} (small : (h.hdr p).size < N) (here : p = h.freep)
    (more : morecore sbrk h N fuel = some (h', q)) (nonnull : q ≠ 0) :
    mallocLoop sbrk N (fuel + 1) h prevp p = mallocLoop sbrk N fuel h' q (h'.hdr q).ptr := by
  obtain ⟨q, rfl⟩ := Nat.exists_eq_succ_of_ne_zero nonnull
  rw [mallocLoop, if_neg (Nat.not_le.mpr small), if_pos here, more]
  rfl

/-- Along addresses each too small and none of them `freep`, the loop goes on a round for each,
`prevp` following one behind. -/
theorem mallocLoop_walk {y : Nat} : ∀ {prev : Nat} {xs : List Nat},
    (xs ++ [y]).IsChain (fun a c => (h.hdr a).ptr = c) →
    (∀ x ∈ xs, (h.hdr x).size < N ∧ x ≠ h.freep) → ∀ fuel,
    mallocLoop sbrk N (xs.length + fuel) h prev (xs.headD y) =
      mallocLoop sbrk N fuel h ((prev :: xs).getLast (List.cons_ne_nil _ _)) y
  | _, [], _, _, fuel => by rw [List.length_nil, Nat.zero_add]; rfl
  | prev, x :: xs, chain, small, fuel => by
    have next : (h.hdr x).ptr = xs.headD y := by
      rw [List.cons_append, List.isChain_cons] at chain
      exact chain.1 _ (by cases xs <;> rfl)
    obtain ⟨tooSmall, other⟩ := small x List.mem_cons_self
    rw [List.length_cons, Nat.add_right_comm, List.headD_cons,
      mallocLoop_pass sbrk h prev x _ tooSmall other, next,
      mallocLoop_walk chain.tail (fun z m => small z (List.mem_cons_of_mem x m)) fuel,
      List.getLast_cons_cons]

end Loop

/-! ## Taking a block -/

/-- In a list the headers hold, with no address twice, the block a header points at, if it is
not the wrap back to `close`, is the one after it. -/
theorem Holds.pred {h : Heap} {close : Nat} {a c : Block} (apart : c.addr ≠ close)
    (link : (h.hdr a.addr).ptr = c.addr) :
    ∀ {l : List Block}, Holds h close l → (l.map Block.addr).Nodup → a ∈ l → c ∈ l →
      ∃ pre post, l = pre ++ a :: c :: post
  | b :: l, ⟨header, rest⟩, distinct, ma, mc => by
    rw [List.map_cons, List.nodup_cons] at distinct
    by_cases first : a = b
    · subst first
      cases l with
      | nil =>
        rw [header] at link
        exact absurd link.symm apart
      | cons d post =>
        rw [header, linkTo_cons] at link
        have same : c = d := by
          rcases List.mem_cons.mp mc with rfl | mc
          · exact absurd (List.mem_map_of_mem (f := Block.addr) List.mem_cons_self)
              (link ▸ distinct.1)
          · rcases List.mem_cons.mp mc with rfl | mc
            · rfl
            · rw [List.map_cons, List.nodup_cons] at distinct
              exact absurd (List.mem_map_of_mem (f := Block.addr) mc) (link ▸ distinct.2.1)
        subst same
        exact ⟨[], post, rfl⟩
    · have later := (List.mem_cons.mp ma).resolve_left first
      have mc' : c ∈ l := by
        rcases List.mem_cons.mp mc with rfl | mc
        · exfalso
          rcases rest.ptr_mem later with into | wrap
          · exact distinct.1 (link ▸ into)
          · exact apart (link ▸ wrap)
        · exact mc
      obtain ⟨pre, post, split⟩ := Holds.pred apart link rest distinct.2 later mc'
      exact ⟨b :: pre, post, by rw [split]; rfl⟩

section Wf

variable {base start : Nat} {h : Heap} {free live : List Block}

/-- Every block of the heap, free or handed out, starts below the break. -/
theorem Wf.addr_lt_brk (wf : Wf base start h free live) {a : Block} (mem : a ∈ free ∨ a ∈ live) :
    a.addr < h.brk := by
  rcases mem with mem | mem
  · rcases wf.sound.heap a mem with rfl | inHeap
    · have := wf.sound.below
      have := wf.grown
      unfold HEADER at *
      show base < h.brk
      omega
    · exact Nat.lt_of_lt_of_le (Block.lt_stop inHeap.2.1) inHeap.2.2
  · have inHeap := wf.sound.given a mem
    exact Nat.lt_of_lt_of_le (Block.lt_stop inHeap.2.1) inHeap.2.2

/-- Free blocks start above 0, `base` too. -/
theorem Wf.addr_pos (wf : Wf base start h free live) {a : Block} (mem : a ∈ free) : 0 < a.addr := by
  rcases wf.sound.heap a mem with rfl | inHeap
  · exact wf.nonnull
  · have := wf.sound.below
    have := inHeap.1
    unfold HEADER at *
    omega

/-- `freep` is never null once the list is started. -/
theorem Wf.freep_pos (wf : Wf base start h free live) : 0 < h.freep := by
  obtain ⟨a, mem, same⟩ := List.mem_map.mp wf.freep
  rw [← same]
  exact wf.addr_pos mem

/-- morecore's block: with the break moved up by `nu` headers and the header at the old break
giving size `nu`, the block from the old break is a block handed out. -/
theorem Wf.grow (wf : Wf base start h free live) {nu : Nat} (positive : 0 < nu)
    (top : h.brk + nu * HEADER < 2 ^ 32) :
    Wf base start (({ h with brk := h.brk + nu * HEADER } : Heap).setSize h.brk nu) free
      (⟨h.brk, nu⟩ :: live) := by
  have frame : ∀ a, a ∈ free ∨ a ∈ live →
      (({ h with brk := h.brk + nu * HEADER } : Heap).setSize h.brk nu).hdr a.addr = h.hdr a.addr :=
    fun a mem => Heap.setSize_hdr_of_ne _ _ _ (Nat.ne_of_lt (wf.addr_lt_brk mem))
  refine ⟨wf.sound.grow wf.grown positive top, wf.holds.congr fun a mem => frame a (.inl mem), ?_,
    wf.freep, Nat.le_trans wf.grown (Nat.le_add_right _ _), wf.nonnull⟩
  intro b mem
  rcases List.mem_cons.mp mem with rfl | mem
  · rw [Heap.setSize_hdr_self]
  · rw [frame b (.inr mem)]
    exact wf.sized b mem

/-- morecore, with sbrk as `Grows` says and a round of free's search for each free block, fails
and leaves the heap as it was, or frees a block of at least `nu` units from the old break into
the list and returns `freep`. -/
theorem Wf.morecore_spec {sbrk : Nat → Int → Option Nat} (grows : Grows sbrk)
    (wf : Wf base start h free live) {nu fuel : Nat} (small : nu < 2 ^ 28)
    (enough : free.length ≤ fuel) :
    morecore sbrk h nu fuel = some (h, 0) ∨
      ∃ h' free', morecore sbrk h nu fuel = some (h', h'.freep) ∧ Wf base start h' free' live ∧
        ∃ c ∈ free', nu ≤ c.size := by
  unfold morecore
  dsimp only
  have bigger : nu ≤ (if nu < 4096 then 4096 else nu) := by split <;> omega
  have fits : (if nu < 4096 then 4096 else nu) < 2 ^ 28 := by split <;> omega
  have positive : 0 < (if nu < 4096 then 4096 else nu) := by split <;> omega
  generalize (if nu < 4096 then 4096 else nu) = nu' at bigger fits positive ⊢
  rw [sbrkArg_of_lt fits]
  cases answer : sbrk h.brk ((nu' * HEADER : Nat) : Int) with
  | none => exact .inl rfl
  | some brk =>
    obtain ⟨moved, top⟩ := grows h.brk _ brk (Int.natCast_nonneg _) answer
    have moved : brk = h.brk + nu' * HEADER := by omega
    subst moved
    have grown := wf.grow positive top
    obtain ⟨h', freed, -, wf'⟩ := grown.free_release List.mem_cons_self enough
    rw [List.erase_cons_head] at wf'
    obtain ⟨c, mem, large⟩ := exists_release_ge ⟨h.brk, nu'⟩ free
    refine .inr ⟨h', _, ?_, wf', c, mem, Nat.le_trans bigger large⟩
    dsimp only
    rw [freed]

/-- Taking a free block `c` whole, the block `P` before it now pointing where `c` did, hands
`c` out keeping the invariant, with `freep` at `P`. -/
theorem Wf.take_exact (wf : Wf base start h free live) {pre post : List Block} {P c : Block}
    (split : free = pre ++ P :: c :: post) (positive : 0 < c.size) :
    Wf base start { h.setPtr P.addr (h.hdr c.addr).ptr with freep := P.addr } (pre ++ P :: post)
      (c :: live) := by
  have mc : c ∈ free := by simp [split]
  have mP : P ∈ free := by simp [split]
  obtain ⟨preBelow, cAbove, afterC⟩ := wf.sound.order_pair split
  obtain ⟨preHolds, pHeader, cHeader, postHolds⟩ :=
    (holds_append h base pre (P :: c :: post)).mp (split ▸ wf.holds)
  have erased : free.erase c = pre ++ P :: post := by
    have notPre : c ∉ pre := fun m => Nat.lt_asymm (preBelow c m) cAbove
    rw [split, List.erase_append_right _ notPre,
      List.erase_cons_tail (by rw [beq_iff_eq]; exact fun same => Nat.ne_of_lt cAbove (same ▸ rfl)),
      List.erase_cons_head]
  have frame : ∀ a : Block, a.addr ≠ P.addr →
      (h.setPtr P.addr (h.hdr c.addr).ptr).hdr a.addr = h.hdr a.addr :=
    fun a other => Heap.setPtr_hdr_of_ne _ _ _ other
  refine ⟨erased ▸ wf.sound.take mc positive, ?_, ?_, ?_, wf.grown, wf.nonnull⟩
  · refine (holds_append _ base pre (P :: post)).mpr
      ⟨preHolds.congr fun a m => frame a (Nat.ne_of_lt (preBelow a m)), ?_,
        postHolds.congr fun a m => frame a (Nat.ne_of_gt (Nat.lt_trans cAbove (afterC a m)))⟩
    rw [linkTo_cons] at pHeader
    show (h.setPtr P.addr (h.hdr c.addr).ptr).hdr P.addr = _
    rw [Heap.setPtr_hdr_self, cHeader, pHeader]
  · intro y m
    rcases List.mem_cons.mp m with rfl | m
    · show ((h.setPtr P.addr (h.hdr y.addr).ptr).hdr y.addr).size = y.size
      rw [frame y (Nat.ne_of_gt cAbove), cHeader]
    · show ((h.setPtr P.addr (h.hdr c.addr).ptr).hdr y.addr).size = y.size
      rw [frame y (wf.sound.live_addr_ne mP m)]
      exact wf.sized y m
  · show P.addr ∈ (pre ++ P :: post).map Block.addr
    simp

/-- Splitting a free block `c`, its size cut by `n` and a header of size `n` written where the
cut starts, hands out the last `n` units keeping the invariant, with `freep` at `P`. -/
theorem Wf.take_split (wf : Wf base start h free live) {pre post : List Block} {P c : Block}
    {n : Nat} (split : free = pre ++ P :: c :: post) (positive : 0 < n) (large : n < c.size) :
    Wf base start
      { (h.setSize c.addr (c.size - n)).setSize (c.tail n).addr n with freep := P.addr }
      (free.map fun a => if a = c then c.shrink n else a) (c.tail n :: live) := by
  have mc : c ∈ free := by simp [split]
  have mP : P ∈ free := by simp [split]
  obtain ⟨preBelow, cAbove, afterC⟩ := wf.sound.order_pair split
  have inside := Block.tail_inside positive large
  obtain ⟨preHolds, pHeader, cHeader, postHolds⟩ :=
    (holds_append h base pre (P :: c :: post)).mp (split ▸ wf.holds)
  have mapped : free.map (fun a => if a = c then c.shrink n else a) =
      pre ++ P :: c.shrink n :: post := by
    have keep : ∀ l : List Block, (∀ a ∈ l, a.addr ≠ c.addr) →
        l.map (fun a => if a = c then c.shrink n else a) = l := fun l other => by
      rw [List.map_congr_left (g := fun a => a)
        fun a m => if_neg fun same => other a m (congrArg Block.addr same), List.map_id']
    rw [split, List.map_append, List.map_cons, List.map_cons, if_pos rfl,
      if_neg fun same => Nat.ne_of_lt cAbove (congrArg Block.addr same),
      keep pre fun a m => Nat.ne_of_lt (Nat.lt_trans (preBelow a m) cAbove),
      keep post fun a m => Nat.ne_of_gt (afterC a m)]
  have frame : ∀ a : Block, a.addr ≠ c.addr → a.addr ≠ (c.tail n).addr →
      ((h.setSize c.addr (c.size - n)).setSize (c.tail n).addr n).hdr a.addr = h.hdr a.addr :=
    fun a other other' => by
      rw [Heap.setSize_hdr_of_ne _ _ _ other', Heap.setSize_hdr_of_ne _ _ _ other]
  have offTail : ∀ a ∈ free, a ≠ c → a.addr ≠ (c.tail n).addr := fun a m other =>
    (wf.sound.free_apart m mc other).addr_ne inside
  have preFree : ∀ a ∈ pre, a ∈ free := fun a m => by simp [split, m]
  have postFree : ∀ a ∈ post, a ∈ free := fun a m => by simp [split, m]
  refine ⟨wf.sound.split mc positive large, ?_, ?_, ?_, wf.grown, wf.nonnull⟩
  · rw [mapped]
    refine (holds_append _ base pre (P :: c.shrink n :: post)).mpr
      ⟨preHolds.congr fun a m => ?_, ?_, ?_, postHolds.congr fun a m => ?_⟩
    · have below := preBelow a m
      exact frame a (Nat.ne_of_lt (Nat.lt_trans below cAbove))
        (offTail a (preFree a m) fun same => Nat.lt_irrefl _ (same ▸ Nat.lt_trans below cAbove))
    · show ((h.setSize c.addr (c.size - n)).setSize (c.tail n).addr n).hdr P.addr = _
      rw [frame P (Nat.ne_of_lt cAbove) (offTail P mP fun same => Nat.ne_of_lt cAbove (same ▸ rfl)),
        pHeader]
      rfl
    · show ((h.setSize c.addr (c.size - n)).setSize (c.tail n).addr n).hdr (c.shrink n).addr = _
      rw [Block.shrink_addr, Heap.setSize_hdr_of_ne _ _ _ (Nat.ne_of_lt inside.1),
        Heap.setSize_hdr_self, cHeader]
      rfl
    · have above := afterC a m
      exact frame a (Nat.ne_of_gt above)
        (offTail a (postFree a m) fun same => Nat.lt_irrefl _ (same ▸ above))
  · intro y m
    rcases List.mem_cons.mp m with rfl | m
    · show (((h.setSize c.addr (c.size - n)).setSize (c.tail n).addr n).hdr (c.tail n).addr).size = n
      rw [Heap.setSize_hdr_self]
    · show (((h.setSize c.addr (c.size - n)).setSize (c.tail n).addr n).hdr y.addr).size = y.size
      rw [frame y (wf.sound.live_addr_ne mc m)
        ((wf.sound.apart c mc y m).symm.addr_ne inside)]
      exact wf.sized y m
  · show P.addr ∈ _
    rw [mapped]
    simp

/-- What malloc hands out: a pointer just past the header of a new block of `N` units, the heap
keeping the invariant with that block handed out too. -/
def Taken (base start N : Nat) (live : List Block) (h : Heap) (q : Nat) : Prop :=
  ∃ free c, q = plus c.addr 1 ∧ c.size = N ∧ Wf base start h free (c :: live)

/-- The round at a free block of at least `N` units, reached from the block before it, hands it
out, whole or from its tail. -/
theorem Wf.mallocLoop_take (wf : Wf base start h free live) (sbrk : Nat → Int → Option Nat)
    {N fuel : Nat} {pre post : List Block} {P c : Block} (split : free = pre ++ P :: c :: post)
    (positive : 0 < N) (large : N ≤ c.size) :
    ∃ h' q, mallocLoop sbrk N (fuel + 1) h P.addr c.addr = some (h', q) ∧
      Taken base start N live h' q := by
  have mc : c ∈ free := by simp [split]
  have size := wf.holds.size c mc
  rcases Nat.eq_or_lt_of_le large with exact | larger
  · rw [mallocLoop_exact sbrk h P.addr c.addr fuel (size.trans exact.symm)]
    exact ⟨_, _, rfl, _, c, rfl, exact.symm, wf.take_exact split (exact ▸ positive)⟩
  · have fits : c.addr + (c.size - N) * HEADER < 2 ^ 32 := by
      have stop := Nat.lt_of_le_of_lt (wf.sound.stop_le wf.grown (.inl mc)) wf.sound.top
      have := Nat.mul_le_mul_right HEADER (Nat.sub_le c.size N)
      unfold Block.stop at stop
      omega
    rw [mallocLoop_split sbrk h P.addr c.addr fuel (by rw [size]; exact larger), size,
      plus_of_lt fits]
    exact ⟨_, _, rfl, _, c.tail N, rfl, rfl, wf.take_split split positive larger⟩

/-- From `freep` the headers lead through every free block once, and back to `freep`. -/
theorem Wf.lap (wf : Wf base start h free live) :
    ∃ xs : List Nat, (h.freep :: (xs ++ [h.freep])).IsChain (fun a c => (h.hdr a).ptr = c) ∧
      (xs ++ [h.freep]).Perm (free.map Block.addr) := by
  obtain ⟨u, v, split⟩ := List.append_of_mem wf.freep
  have links := wf.holds.links
  rw [split, List.append_assoc, List.cons_append] at links
  have first : (u ++ [h.freep]).head? = some base := by
    have := congrArg (Option.map Block.addr) wf.sound.first
    rw [← List.head?_map, split] at this
    cases u <;> exact this
  have upTo : (u ++ [h.freep]).IsChain fun a c => (h.hdr a).ptr = c := by
    obtain ⟨toU, -, join⟩ := List.isChain_append.mp links
    exact List.IsChain.append toU (List.isChain_singleton _) fun a ma c mc => by
      cases mc
      exact join a ma h.freep rfl
  have after := List.IsChain.infix links (List.suffix_append u _).isInfix
  rw [← List.cons_append, List.isChain_append] at after
  obtain ⟨toLast, -, wrap⟩ := after
  refine ⟨v ++ u, ?_, ?_⟩
  · rw [List.append_assoc, ← List.cons_append]
    exact List.IsChain.append toLast upTo fun a ma c mc => by
      rw [first, Option.mem_def, Option.some.injEq] at mc
      exact mc ▸ wrap a ma base rfl
  · rw [split, List.append_assoc]
    exact (List.perm_append_comm.trans (by rw [List.append_assoc]; rfl))

/-- A lap that meets a free block of at least `N` units, given a round for each free block, hands
out the first it meets. The lap walks up to `c0`, the first address with a block large enough, one
round for each address before it; `freep` closes the lap after `c0`, so it is none of those
addresses. -/
theorem Wf.lap_take (wf : Wf base start h free live) (sbrk : Nat → Int → Option Nat) {N : Nat}
    (positive : 0 < N) (big : ∃ c ∈ free, N ≤ c.size) {fuel : Nat} (enough : free.length ≤ fuel) :
    ∃ h' q, mallocLoop sbrk N fuel h h.freep (h.hdr h.freep).ptr = some (h', q) ∧
      Taken base start N live h' q := by
  obtain ⟨xs, chain, perm⟩ := wf.lap
  have inFree : ∀ x ∈ xs ++ [h.freep], x ∈ free.map Block.addr := fun x m => perm.mem_iff.mp m
  obtain ⟨c, mc, large⟩ := big
  cases found : (xs ++ [h.freep]).find? fun x => decide (N ≤ (h.hdr x).size) with
  | none =>
    have := List.find?_eq_none.mp found c.addr (perm.mem_iff.mpr (List.mem_map_of_mem mc))
    rw [wf.holds.size c mc, decide_eq_true_eq] at this
    exact absurd large this
  | some c0 =>
    obtain ⟨isLarge, before, after, lap, small⟩ := List.find?_eq_some_iff_append.mp found
    rw [decide_eq_true_eq] at isLarge
    have distinct := perm.nodup_iff.mpr wf.sound.addr_nodup
    rw [lap] at distinct chain
    have notFreep : ∀ x ∈ before, x ≠ h.freep := by
      have last : h.freep ∈ c0 :: after := by
        have := congrArg List.getLast? lap
        rw [List.getLast?_concat, List.getLast?_append_of_ne_nil _ (List.cons_ne_nil _ _)] at this
        exact List.mem_of_getLast? this.symm
      exact fun x m same => (List.nodup_append.mp distinct).2.2 x m h.freep last same
    rw [← List.cons_append, List.isChain_append] at chain
    obtain ⟨toBefore, fromC0, link⟩ := chain
    have walk : (before ++ [c0]).IsChain fun a c => (h.hdr a).ptr = c :=
      List.IsChain.append toBefore.tail (List.isChain_singleton c0) fun a ma c mc => by
        cases mc
        exact link a (by rw [List.getLast?_cons, ma]; rfl) c0 rfl
    have next : (h.hdr h.freep).ptr = before.headD c0 := by
      cases before with
      | nil => exact link h.freep rfl c0 rfl
      | cons b rest =>
        rw [List.isChain_cons] at toBefore
        exact toBefore.1 b rfl
    have prevMem := List.getLast_mem (List.cons_ne_nil h.freep before)
    obtain ⟨P, mP, pAddr⟩ := List.mem_map.mp (by
      rcases List.mem_cons.mp prevMem with same | m
      · rw [same]
        exact wf.freep
      · exact inFree _ (lap ▸ List.mem_append_left _ m) :
        (h.freep :: before).getLast (List.cons_ne_nil _ _) ∈ free.map Block.addr)
    obtain ⟨c', mc', cAddr⟩ := List.mem_map.mp (inFree c0 (lap ▸ by simp))
    have pLink : (h.hdr P.addr).ptr = c'.addr := by
      rw [pAddr, cAddr]
      exact link _ (List.getLast?_eq_some_getLast (List.cons_ne_nil _ _)) c0 rfl
    have cLarge : N ≤ c'.size := by
      rw [← wf.holds.size c' mc', cAddr]
      exact isLarge
    have notBase : c'.addr ≠ base := by
      rcases wf.sound.heap c' mc' with same | inHeap
      · rw [same] at cLarge
        exact absurd cLarge (Nat.not_le.mpr positive)
      · have := wf.sound.below
        have := inHeap.1
        unfold HEADER at *
        omega
    obtain ⟨pre, post, split⟩ := Holds.pred notBase pLink wf.holds wf.sound.addr_nodup mP mc'
    have length : (before ++ c0 :: after).length = free.length := by
      rw [← lap, perm.length_eq, List.length_map]
    obtain ⟨f, rfl⟩ : ∃ f, fuel = before.length + (f + 1) :=
      ⟨fuel - before.length - 1, by rw [List.length_append, List.length_cons] at length; omega⟩
    rw [next, mallocLoop_walk sbrk h walk (fun x m => ⟨Nat.not_le.mp fun le => by
      have := small x m
      rw [decide_eq_true le] at this
      exact absurd this (by decide), notFreep x m⟩) (f + 1), ← pAddr, ← cAddr]
    exact wf.mallocLoop_take sbrk split positive cLarge

/-- A lap that meets no free block of `N` units goes round to `freep`, a round for each free
block before it. -/
theorem Wf.lap_more (wf : Wf base start h free live) (sbrk : Nat → Int → Option Nat) {N : Nat}
    (small : ∀ c ∈ free, c.size < N) (fuel : Nat) :
    ∃ prev, mallocLoop sbrk N (free.length + fuel) h h.freep (h.hdr h.freep).ptr =
      mallocLoop sbrk N (fuel + 1) h prev h.freep := by
  obtain ⟨xs, chain, perm⟩ := wf.lap
  have distinct := perm.nodup_iff.mpr wf.sound.addr_nodup
  have smallAt : ∀ x ∈ free.map Block.addr, (h.hdr x).size < N := fun _ m => by
    obtain ⟨c, mc, rfl⟩ := List.mem_map.mp m
    rw [wf.holds.size c mc]
    exact small c mc
  have length : xs.length + 1 = free.length := by
    have := perm.length_eq
    rw [List.length_append, List.length_map, List.length_singleton] at this
    exact this
  have next : (h.hdr h.freep).ptr = xs.headD h.freep := by
    rw [List.isChain_cons] at chain
    exact chain.1 _ (by cases xs <;> rfl)
  refine ⟨(h.freep :: xs).getLast (List.cons_ne_nil _ _), ?_⟩
  rw [← length, Nat.add_assoc, Nat.add_comm 1 fuel, next]
  exact mallocLoop_walk sbrk h chain.tail (fun x m =>
    ⟨smallAt x (perm.mem_iff.mp (List.mem_append_left _ m)),
      fun same => (List.nodup_append.mp distinct).2.2 x m h.freep List.mem_cons_self same⟩)
    (fuel + 1)

/-- malloc's loop from `freep`, with sbrk as `Grows` says, `N` positive and below 2^28 and at least
2^31 rounds: it returns 0 with the heap as it was, or hands out a block of `N` units. When no free
block is large enough, a lap round to `freep` ends in morecore there, and the next lap meets the
block morecore freed. -/
theorem Wf.mallocLoop_spec {sbrk : Nat → Int → Option Nat} (grows : Grows sbrk)
    (wf : Wf base start h free live) {N : Nat} (positive : 0 < N) (small : N < 2 ^ 28)
    {fuel : Nat} (enough : 2 ^ 31 ≤ fuel) :
    ∃ h' q, mallocLoop sbrk N fuel h h.freep (h.hdr h.freep).ptr = some (h', q) ∧
      ((q = 0 ∧ h' = h) ∨ Taken base start N live h' q) := by
  have length := wf.sound.length_le
  by_cases big : ∃ c ∈ free, N ≤ c.size
  · obtain ⟨h', q, loop, taken⟩ :=
      wf.lap_take sbrk positive big (show free.length ≤ fuel by omega)
    exact ⟨h', q, loop, .inr taken⟩
  · have tooSmall : ∀ c ∈ free, c.size < N := fun c m => Nat.not_le.mp fun le => big ⟨c, m, le⟩
    have freepSmall : (h.hdr h.freep).size < N := by
      obtain ⟨c, mc, same⟩ := List.mem_map.mp wf.freep
      rw [← same, wf.holds.size c mc]
      exact tooSmall c mc
    obtain ⟨f, rfl⟩ : ∃ f, fuel = free.length + f := ⟨fuel - free.length, by omega⟩
    obtain ⟨prev, loop⟩ := wf.lap_more sbrk tooSmall f
    rw [loop]
    rcases wf.morecore_spec grows small (show free.length ≤ f by omega) with
      fail | ⟨h₂, free₂, more, wf₂, big₂⟩
    · rw [mallocLoop_fail sbrk h prev h.freep f freepSmall rfl fail]
      exact ⟨h, 0, rfl, .inl ⟨rfl, rfl⟩⟩
    · rw [mallocLoop_more sbrk h prev h.freep f freepSmall rfl more (Nat.ne_of_gt wf₂.freep_pos)]
      have length₂ := wf₂.sound.length_le
      obtain ⟨h', q, loop, taken⟩ :=
        wf₂.lap_take sbrk positive big₂ (show free₂.length ≤ f by omega)
      exact ⟨h', q, loop, .inr taken⟩

end Wf

end Xv6.User
