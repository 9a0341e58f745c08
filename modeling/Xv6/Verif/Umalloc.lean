import Xv6.Verif.FreeList

/-!
# free on the headers

The list of blocks the headers of a heap hold (`Holds`): each block's header has its size and
the address of the next free block, the last one's the address of `base`. `Wf` is `Sound` for
the list the headers hold, with the headers of the blocks handed out giving their sizes and
`freep` at a free block.

free's search stops at the last free block below the block freed, from wherever `freep` is,
within as many rounds as there are free blocks (`Wf.freeSearch_eq`). Its two joins then write
the headers of the list `release` gives, so that free refines `release` (`Wf.free_release`).
-/

namespace Xv6.User

namespace Heap

variable (h : Heap) (p v : Nat)

@[simp] theorem setPtr_hdr_self : (h.setPtr p v).hdr p = ⟨v, (h.hdr p).size⟩ :=
  Function.update_self ..

@[simp] theorem setSize_hdr_self : (h.setSize p v).hdr p = ⟨(h.hdr p).ptr, v⟩ :=
  Function.update_self ..

theorem setPtr_hdr_of_ne {a : Nat} (other : a ≠ p) : (h.setPtr p v).hdr a = h.hdr a :=
  Function.update_of_ne other ..

theorem setSize_hdr_of_ne {a : Nat} (other : a ≠ p) : (h.setSize p v).hdr a = h.hdr a :=
  Function.update_of_ne other ..

@[simp] theorem setPtr_brk : (h.setPtr p v).brk = h.brk := rfl

@[simp] theorem setSize_brk : (h.setSize p v).brk = h.brk := rfl

end Heap

/-- `p + n` moves `n` headers up when that stays below 2^32. -/
theorem plus_of_lt {p n : Nat} (fits : p + n * HEADER < 2 ^ 32) : plus p n = p + n * HEADER :=
  Nat.mod_eq_of_lt fits

/-- `(Header*)ap - 1` for `ap = bp + 1`. -/
theorem header_of_plus {bp : Nat} (fits : bp + 1 * HEADER < 2 ^ 32) :
    (plus bp 1 + 2 ^ 32 - HEADER) % 2 ^ 32 = bp := by
  rw [plus_of_lt fits]
  unfold HEADER at *
  omega

/-! ## The list the headers hold -/

/-- The address the header before the blocks `l` points at: the first of them, or `close`. -/
def linkTo (close : Nat) (l : List Block) : Nat := (l.map Block.addr).headD close

@[simp] theorem linkTo_nil (close : Nat) : linkTo close [] = close := rfl

@[simp] theorem linkTo_cons (close : Nat) (b : Block) (l : List Block) :
    linkTo close (b :: l) = b.addr := rfl

theorem linkTo_append (close : Nat) (l₁ l₂ : List Block) :
    linkTo close (l₁ ++ l₂) = linkTo (linkTo close l₂) l₁ := by
  cases l₁ <;> rfl

/-- The headers hold the list of blocks `l`: each block's header has its size and points at
the next block, the last block's at `close`. -/
def Holds (h : Heap) (close : Nat) : List Block → Prop
  | [] => True
  | b :: l => h.hdr b.addr = ⟨linkTo close l, b.size⟩ ∧ Holds h close l

section Holds

variable {h h' : Heap} {close : Nat}

theorem holds_append (h : Heap) (close : Nat) :
    ∀ (l₁ l₂ : List Block), Holds h close (l₁ ++ l₂) ↔ Holds h (linkTo close l₂) l₁ ∧ Holds h close l₂
  | [], l₂ => by rw [List.nil_append, Holds, true_and]
  | b :: l₁, l₂ => by
    rw [List.cons_append, Holds, Holds, holds_append h close l₁ l₂, linkTo_append, and_assoc]

/-- The list is held by any heap whose headers at its blocks are the same. -/
theorem Holds.congr : ∀ {l : List Block}, Holds h close l →
    (∀ b ∈ l, h'.hdr b.addr = h.hdr b.addr) → Holds h' close l
  | [], _, _ => trivial
  | b :: _, ⟨header, rest⟩, same =>
    ⟨(same b List.mem_cons_self).trans header,
      rest.congr fun c m => same c (List.mem_cons_of_mem b m)⟩

theorem Holds.size : ∀ {l : List Block}, Holds h close l → ∀ b ∈ l, (h.hdr b.addr).size = b.size
  | [], _, _, m => absurd m List.not_mem_nil
  | c :: _, ⟨header, rest⟩, b, m => by
    rcases List.mem_cons.mp m with rfl | m
    · rw [header]
    · exact rest.size b m

/-- A header of the list points at a block of the list, or at `close`. -/
theorem Holds.ptr_mem : ∀ {l : List Block}, Holds h close l → ∀ {a : Block}, a ∈ l →
    (h.hdr a.addr).ptr ∈ l.map Block.addr ∨ (h.hdr a.addr).ptr = close
  | [], _, _, m => absurd m List.not_mem_nil
  | c :: l, ⟨header, rest⟩, a, m => by
    rcases List.mem_cons.mp m with rfl | m
    · rw [header]
      cases l with
      | nil => exact .inr rfl
      | cons d _ => exact .inl (List.mem_cons_of_mem _ List.mem_cons_self)
    · exact (rest.ptr_mem m).imp_left (List.mem_cons_of_mem _)

theorem linkTo_head (close : Nat) (l : List Block) :
    (l.map Block.addr ++ [close]).head? = some (linkTo close l) := by
  cases l <;> rfl

/-- Along the blocks of the list, then to `close`, each address is followed by the one its
header points at. -/
theorem Holds.links : ∀ {l : List Block}, Holds h close l →
    (l.map Block.addr ++ [close]).IsChain fun a c => (h.hdr a).ptr = c
  | [], _ => List.isChain_singleton close
  | b :: l, ⟨header, rest⟩ => by
    rw [List.map_cons, List.cons_append, List.isChain_cons]
    refine ⟨fun c first => ?_, rest.links⟩
    rw [linkTo_head close l, Option.mem_def, Option.some.injEq] at first
    rw [header, first]

end Holds

/-- The allocator's heap as it keeps it: the headers hold a sound free list, those of the
blocks handed out give their sizes, and `freep` is at a free block. `start` is the first
address sbrk gave, `base` the address of the static `base`. -/
structure Wf (base start : Nat) (h : Heap) (free live : List Block) : Prop where
  sound : Sound base start h.brk free live
  holds : Holds h base free
  sized : ∀ b ∈ live, (h.hdr b.addr).size = b.size
  freep : h.freep ∈ free.map Block.addr
  grown : start ≤ h.brk
  nonnull : 0 < base

/-! ## free's search -/

/-- free's loop goes on from `a` to `c`: `c` is `a`'s next, and neither of its tests holds at
`a`. -/
def Passes (h : Heap) (bp a c : Nat) : Prop :=
  (h.hdr a).ptr = c ∧ ¬(bp > a ∧ bp < c) ∧ ¬(a ≥ c ∧ (bp > a ∨ bp < c))

/-- free's loop stops at `p`. -/
def Stops (h : Heap) (bp p : Nat) : Prop :=
  (bp > p ∧ bp < (h.hdr p).ptr) ∨ (p ≥ (h.hdr p).ptr ∧ (bp > p ∨ bp < (h.hdr p).ptr))

section Search

variable {h : Heap} {bp : Nat}

/-- The loop goes on past a block below `bp` whose next is higher, and below `bp` too. -/
theorem passes_of_below {a c : Nat} (link : (h.hdr a).ptr = c) (up : a < c) (below : c < bp) :
    Passes h bp a c :=
  ⟨link, by omega, by omega⟩

/-- The loop goes on past a block above `bp` whose next is higher, or is below `bp`. -/
theorem passes_of_above {a c : Nat} (link : (h.hdr a).ptr = c) (above : bp < a)
    (order : a < c ∨ c < bp) : Passes h bp a c :=
  ⟨link, by omega, by omega⟩

theorem freeSearch_of_passes {a c : Nat} (passes : Passes h bp a c) (fuel : Nat) :
    freeSearch h bp (fuel + 1) a = freeSearch h bp fuel c := by
  obtain ⟨link, first, second⟩ := passes
  rw [freeSearch, link, if_neg first, if_neg second]

theorem freeSearch_of_stops {p : Nat} (stops : Stops h bp p) (fuel : Nat) :
    freeSearch h bp (fuel + 1) p = some p := by
  rw [freeSearch]
  by_cases first : bp > p ∧ bp < (h.hdr p).ptr
  · rw [if_pos first]
  · rw [if_neg first, if_pos (stops.resolve_left first)]

/-- Along a run of addresses where the loop goes on, to one where it stops, the loop stops
there from any of them, given a round for each address it passes. -/
theorem freeSearch_reaches {y : Nat} (stops : Stops h bp y) :
    ∀ {l : List Nat}, (l ++ [y]).IsChain (Passes h bp) →
      ∀ x ∈ l ++ [y], ∀ fuel, l.length < fuel → freeSearch h bp fuel x = some y
  | [], _, x, m, fuel, enough => by
    rw [List.nil_append, List.mem_singleton] at m
    obtain ⟨fuel, rfl⟩ : ∃ f, fuel = f + 1 := ⟨fuel - 1, by simp at enough; omega⟩
    rw [m, freeSearch_of_stops stops]
  | z :: l, chain, x, m, fuel, enough => by
    rw [List.cons_append] at chain m
    rw [List.length_cons] at enough
    rcases List.mem_cons.mp m with rfl | later
    · obtain ⟨c, first⟩ : ∃ c, (l ++ [y]).head? = some c :=
        Option.ne_none_iff_exists'.mp (by simp)
      obtain ⟨fuel, rfl⟩ : ∃ f, fuel = f + 1 := ⟨fuel - 1, by omega⟩
      rw [List.isChain_cons] at chain
      rw [freeSearch_of_passes (chain.1 c first)]
      exact freeSearch_reaches stops chain.2 c (List.mem_of_mem_head? first) fuel (by omega)
    · exact freeSearch_reaches stops chain.tail x later fuel (by omega)

end Search

/-! ## free's joins -/

/-- free's first join: `bp` takes over the block after `p` when it ends where that block
starts, and points at it otherwise. -/
def joinUpper (h : Heap) (bp p : Nat) : Heap :=
  if plus bp (h.hdr bp).size = (h.hdr p).ptr then
    let h := h.setSize bp (((h.hdr bp).size + (h.hdr (h.hdr p).ptr).size) % 2 ^ 32)
    h.setPtr bp (h.hdr (h.hdr p).ptr).ptr
  else h.setPtr bp (h.hdr p).ptr

/-- free's second join: `p` takes over `bp` when it ends where `bp` starts, and points at it
otherwise. -/
def joinLower (h : Heap) (bp p : Nat) : Heap :=
  if plus p (h.hdr p).size = bp then
    let h := h.setSize p (((h.hdr p).size + (h.hdr bp).size) % 2 ^ 32)
    h.setPtr p (h.hdr bp).ptr
  else h.setPtr p bp

/-- free is its search, then the two joins, with `freep` left where the search stopped. -/
theorem free_eq (h : Heap) (ap fuel : Nat) :
    free h ap fuel = (freeSearch h ((ap + 2 ^ 32 - HEADER) % 2 ^ 32) fuel h.freep).map fun p =>
      { joinLower (joinUpper h ((ap + 2 ^ 32 - HEADER) % 2 ^ 32) p)
          ((ap + 2 ^ 32 - HEADER) % 2 ^ 32) p with freep := p } := by
  unfold free
  dsimp only
  cases freeSearch h ((ap + 2 ^ 32 - HEADER) % 2 ^ 32) fuel h.freep <;> rfl

section Joins

variable (h : Heap) (bp p : Nat)

@[simp] theorem joinUpper_brk : (joinUpper h bp p).brk = h.brk := by
  unfold joinUpper
  split <;> rfl

@[simp] theorem joinLower_brk : (joinLower h bp p).brk = h.brk := by
  unfold joinLower
  split <;> rfl

theorem joinUpper_frame {a : Nat} (other : a ≠ bp) : (joinUpper h bp p).hdr a = h.hdr a := by
  unfold joinUpper
  split
  · rw [Heap.setPtr_hdr_of_ne _ _ _ other, Heap.setSize_hdr_of_ne _ _ _ other]
  · rw [Heap.setPtr_hdr_of_ne _ _ _ other]

theorem joinLower_frame {a : Nat} (other : a ≠ p) : (joinLower h bp p).hdr a = h.hdr a := by
  unfold joinLower
  split
  · rw [Heap.setPtr_hdr_of_ne _ _ _ other, Heap.setSize_hdr_of_ne _ _ _ other]
  · rw [Heap.setPtr_hdr_of_ne _ _ _ other]

/-- When `bp` ends where the block after `p` starts, it takes that block's size and next. -/
theorem joinUpper_of_touch (other : p ≠ bp) (next : (h.hdr p).ptr ≠ bp)
    (touch : plus bp (h.hdr bp).size = (h.hdr p).ptr) :
    (joinUpper h bp p).hdr bp =
      ⟨(h.hdr (h.hdr p).ptr).ptr, ((h.hdr bp).size + (h.hdr (h.hdr p).ptr).size) % 2 ^ 32⟩ := by
  rw [joinUpper, if_pos touch]
  dsimp only
  rw [Heap.setPtr_hdr_self, Heap.setSize_hdr_self, Heap.setSize_hdr_of_ne _ _ _ other,
    Heap.setSize_hdr_of_ne _ _ _ next]

theorem joinUpper_of_apart (apart : plus bp (h.hdr bp).size ≠ (h.hdr p).ptr) :
    (joinUpper h bp p).hdr bp = ⟨(h.hdr p).ptr, (h.hdr bp).size⟩ := by
  rw [joinUpper, if_neg apart, Heap.setPtr_hdr_self]

/-- When `p` ends where `bp` starts, it takes `bp`'s size and next. -/
theorem joinLower_of_touch (other : bp ≠ p) (touch : plus p (h.hdr p).size = bp) :
    (joinLower h bp p).hdr p = ⟨(h.hdr bp).ptr, ((h.hdr p).size + (h.hdr bp).size) % 2 ^ 32⟩ := by
  rw [joinLower, if_pos touch]
  dsimp only
  rw [Heap.setPtr_hdr_self, Heap.setSize_hdr_self, Heap.setSize_hdr_of_ne _ _ _ other]

theorem joinLower_of_apart (apart : plus p (h.hdr p).size ≠ bp) :
    (joinLower h bp p).hdr p = ⟨bp, (h.hdr p).size⟩ := by
  rw [joinLower, if_neg apart, Heap.setPtr_hdr_self]

end Joins

/-- Sizes of blocks that end below 2^32 add without wrapping. -/
theorem size_add_mod {a c : Block} (adjacent : a.stop = c.addr) (fits : c.stop < 2 ^ 32) :
    (a.size + c.size) % 2 ^ 32 = a.size + c.size := by
  have := Block.join_stop adjacent
  unfold Block.stop Block.join HEADER at *
  dsimp only at this
  omega

/-- free's first join writes the header of `b` for the list `joinNext b post`, where `post` are
the free blocks after `p`. -/
theorem holds_joinUpper {h : Heap} {base : Nat} {b p : Block} {post : List Block}
    (holds : Holds h base (p :: post)) (size : (h.hdr b.addr).size = b.size)
    (other : p.addr ≠ b.addr) (after : ∀ a ∈ post, b.addr < a.addr)
    (fits : ∀ a ∈ b :: post, a.stop < 2 ^ 32) (wraps : b.stop ≠ base) :
    Holds (joinUpper h b.addr p.addr) base (joinNext b post) := by
  obtain ⟨header, rest⟩ := holds
  have stop : plus b.addr (h.hdr b.addr).size = b.stop := by
    rw [size]
    exact plus_of_lt (fits b List.mem_cons_self)
  have frame : ∀ a ∈ post, (joinUpper h b.addr p.addr).hdr a.addr = h.hdr a.addr := fun a m =>
    joinUpper_frame h _ _ (Nat.ne_of_gt (after a m))
  cases post with
  | nil =>
    have apart : plus b.addr (h.hdr b.addr).size ≠ (h.hdr p.addr).ptr := by
      rw [stop, header]
      exact wraps
    refine ⟨?_, trivial⟩
    rw [joinUpper_of_apart h _ _ apart, header, size]
  | cons n more =>
    obtain ⟨nHeader, moreHolds⟩ := rest
    have moreFrame : ∀ a ∈ more, (joinUpper h b.addr p.addr).hdr a.addr = h.hdr a.addr :=
      fun a m => frame a (List.mem_cons_of_mem n m)
    rw [joinNext]
    by_cases adjacent : b.stop = n.addr
    · have touch : plus b.addr (h.hdr b.addr).size = (h.hdr p.addr).ptr := by
        rw [stop, header]
        exact adjacent
      have next : (h.hdr p.addr).ptr ≠ b.addr := by
        rw [header]
        exact Nat.ne_of_gt (after n List.mem_cons_self)
      rw [if_pos adjacent]
      refine ⟨?_, moreHolds.congr moreFrame⟩
      rw [Block.join_addr, joinUpper_of_touch h _ _ other next touch, header, size]
      dsimp only [linkTo_cons]
      rw [nHeader, size_add_mod adjacent (fits n (by simp))]
      rfl
    · have apart : plus b.addr (h.hdr b.addr).size ≠ (h.hdr p.addr).ptr := by
        rw [stop, header]
        exact adjacent
      rw [if_neg adjacent]
      refine ⟨?_, (show Holds h base (n :: more) from ⟨nHeader, moreHolds⟩).congr frame⟩
      rw [joinUpper_of_apart h _ _ apart, header, size]

/-- free's second join writes the header of `p` for the list `joinPrev p l`, where `l` starts
at the block freed. -/
theorem holds_joinLower {h : Heap} {base bp : Nat} {p : Block} {l : List Block}
    (holds : Holds h base l) (first : ∀ c ∈ l.head?, c.addr = bp) (nonempty : l ≠ [])
    (size : (h.hdr p.addr).size = p.size) (after : ∀ a ∈ l, p.addr < a.addr)
    (fits : ∀ a ∈ p :: l, a.stop < 2 ^ 32) :
    Holds (joinLower h bp p.addr) base (joinPrev p l) := by
  obtain ⟨c, rest, rfl⟩ := List.exists_cons_of_ne_nil nonempty
  obtain rfl := first c rfl
  obtain ⟨cHeader, restHolds⟩ := holds
  have stop : plus p.addr (h.hdr p.addr).size = p.stop := by
    rw [size]
    exact plus_of_lt (fits p List.mem_cons_self)
  have frame : ∀ a ∈ c :: rest, (joinLower h c.addr p.addr).hdr a.addr = h.hdr a.addr :=
    fun a m => joinLower_frame h _ _ (Nat.ne_of_gt (after a m))
  have other : c.addr ≠ p.addr := Nat.ne_of_gt (after c List.mem_cons_self)
  rw [joinPrev]
  by_cases adjacent : p.stop = c.addr
  · have touch : plus p.addr (h.hdr p.addr).size = c.addr := by
      rw [stop]
      exact adjacent
    rw [if_pos adjacent]
    refine ⟨?_, restHolds.congr fun a m => frame a (List.mem_cons_of_mem c m)⟩
    rw [Block.join_addr, joinLower_of_touch h _ _ other touch, cHeader, size]
    dsimp only
    rw [size_add_mod adjacent (fits c (by simp))]
    rfl
  · have apart : plus p.addr (h.hdr p.addr).size ≠ c.addr := by
      rw [stop]
      exact adjacent
    rw [if_neg adjacent]
    refine ⟨?_, (show Holds h base (c :: rest) from ⟨cHeader, restHolds⟩).congr frame⟩
    rw [joinLower_of_apart h _ _ apart, size]
    rfl

/-- Two chains along one list are one chain of both relations. -/
theorem isChain_and {α : Type} {R S : α → α → Prop} {l : List α} (first : l.IsChain R)
    (second : l.IsChain S) : l.IsChain fun a c => R a c ∧ S a c :=
  (List.isChain_isInfix l).imp fun _ _ pair => by
    have one := List.IsChain.infix first pair
    have two := List.IsChain.infix second pair
    exact ⟨List.isChain_pair.mp one, List.isChain_pair.mp two⟩

section Wf

variable {base start : Nat} {h : Heap} {free live : List Block}

/-- free's search for a block `bp` that lies after `p`, the last free block below it, stops at `p`:
from `freep` the loop goes up to `p`, or up to the last free block, back to `base` and up to `p`.
`base` comes first, below `bp`, and the loop stops at `p`, whose next is above `bp` or is `base`
where the list wraps. -/
theorem Wf.freeSearch_eq {pre post : List Block} {p : Block} {bp fuel : Nat}
    (wf : Wf base start h (pre ++ p :: post) live) (low : ∀ a ∈ pre ++ [p], a.addr < bp)
    (high : ∀ a ∈ post, bp < a.addr) (enough : (pre ++ p :: post).length ≤ fuel) :
    freeSearch h bp fuel h.freep = some p.addr := by
  have shape : (pre ++ p :: post).map Block.addr =
      (pre ++ [p]).map Block.addr ++ post.map Block.addr := by simp
  have links := wf.holds.links
  have order : ((pre ++ p :: post).map Block.addr).IsChain (· < ·) :=
    (List.isChain_map _).mpr (wf.sound.sorted.imp fun a _ below =>
      Nat.lt_of_le_of_lt (Block.le_stop a) below)
  rw [shape] at links order
  have lowAddr : ∀ a ∈ (pre ++ [p]).map Block.addr, a < bp := fun _ m => by
    obtain ⟨a, ma, rfl⟩ := List.mem_map.mp m
    exact low a ma
  have highAddr : ∀ a ∈ post.map Block.addr, bp < a := fun _ m => by
    obtain ⟨a, ma, rfl⟩ := List.mem_map.mp m
    exact high a ma
  have first : ((pre ++ [p]).map Block.addr).head? = some base := by
    have := congrArg (Option.map Block.addr) wf.sound.first
    cases pre <;> exact this
  have baseLow : base < bp := lowAddr base (List.mem_of_mem_head? first)
  have lowPasses : ((pre ++ [p]).map Block.addr).IsChain (Passes h bp) := by
    have lowOrder := List.IsChain.infix order (List.prefix_append _ _).isInfix
    have up : ((pre ++ [p]).map Block.addr).IsChain fun a c => a < c ∧ c < bp :=
      lowOrder.imp_of_mem_imp fun _ c _ mc lt => ⟨lt, lowAddr c mc⟩
    have link := List.IsChain.infix links
      ((List.prefix_append _ _).trans (List.prefix_append _ _)).isInfix
    exact (isChain_and link up).imp fun _ _ ⟨link, up, below⟩ => passes_of_below link up below
  have highPasses : (post.map Block.addr ++ [base]).IsChain (Passes h bp) := by
    have highOrder := List.IsChain.infix order (List.suffix_append _ _).isInfix
    have up : (post.map Block.addr ++ [base]).IsChain fun a c => bp < a ∧ (a < c ∨ c < bp) :=
      List.IsChain.append
        (highOrder.imp_of_mem_imp fun a _ ma _ lt => ⟨highAddr a ma, .inl lt⟩)
        (List.isChain_singleton base)
        fun a ma c mc => by
          cases mc
          exact ⟨highAddr a (List.mem_of_mem_getLast? ma), .inr baseLow⟩
    rw [List.append_assoc] at links
    have link := List.IsChain.infix links (List.suffix_append _ _).isInfix
    exact (isChain_and link up).imp fun _ _ ⟨link, above, order⟩ => passes_of_above link above order
  have stops : Stops h bp p.addr := by
    have header := (((holds_append h base pre (p :: post)).mp wf.holds).2).1
    have pLow := low p (by simp)
    unfold Stops
    rw [header]
    cases post with
    | nil =>
      have pAbove : base ≤ p.addr := by
        rcases wf.sound.heap p (by simp) with rfl | pHeap
        · exact Nat.le_refl _
        · have := wf.sound.below
          have := pHeap.1
          omega
      exact .inr ⟨pAbove, .inl pLow⟩
    | cons n _ => exact .inl ⟨pLow, high n List.mem_cons_self⟩
  have mem := wf.freep
  rw [shape, List.mem_append] at mem
  rw [List.length_append, List.length_cons] at enough
  rcases mem with below | above
  · rw [List.map_append, List.map_singleton] at lowPasses below
    exact freeSearch_reaches stops lowPasses _ below fuel (by rw [List.length_map]; omega)
  · obtain ⟨highChain, -, wrap⟩ := List.isChain_append.mp highPasses
    have chain := List.IsChain.append highChain lowPasses fun a ma c mc => by
      rw [first, Option.mem_def, Option.some.injEq] at mc
      exact mc ▸ wrap a ma base rfl
    rw [List.map_append, List.map_singleton, ← List.append_assoc] at chain
    exact freeSearch_reaches stops chain _ (by simp [above]) fuel
      (by rw [List.length_append, List.length_map, List.length_map]; omega)

theorem linkTo_joinPrev (close : Nat) (p : Block) : ∀ l : List Block,
    linkTo close (joinPrev p l) = p.addr
  | [] => rfl
  | c :: rest => by
    rw [joinPrev]
    split <;> rfl

theorem linkTo_mem (close : Nat) : ∀ {l : List Block}, l ≠ [] → linkTo close l ∈ l.map Block.addr
  | _ :: _, _ => List.mem_cons_self

/-- free of a block handed out, given a round for each free block, writes the headers of the list
`release` gives and leaves `freep` at a block of it: free refines `release`. The first join joins
the block freed to the one after it, the second joins `p` to what the first left, and every other
header is as it was. -/
theorem Wf.free_release (wf : Wf base start h free live) {b : Block} (given : b ∈ live) {fuel : Nat}
    (enough : free.length ≤ fuel) :
    ∃ h', User.free h (plus b.addr 1) fuel = some h' ∧ h'.brk = h.brk ∧
      Wf base start h' (release b free) (live.erase b) := by
  have sound := wf.sound.release given
  obtain ⟨pre, p, post, rfl, low, high⟩ := wf.sound.exists_place given
  have fits : ∀ a, a ∈ pre ++ p :: post ∨ a ∈ live → a.stop < 2 ^ 32 := fun a m =>
    Nat.lt_of_le_of_lt (wf.sound.stop_le wf.grown m) wf.sound.top
  obtain ⟨bStart, bSize, -⟩ := wf.sound.given b given
  have bFits : b.addr + 1 * HEADER < 2 ^ 32 := by
    have := fits b (.inr given)
    unfold Block.stop at this
    have : 1 * HEADER ≤ b.size * HEADER := Nat.mul_le_mul_right _ bSize
    omega
  have pMem : p ∈ pre ++ p :: post := by simp
  have pLow : p.addr < b.addr := low p (by simp)
  rw [free_eq, header_of_plus bFits, wf.freeSearch_eq low high enough, Option.map_some]
  have brk : (joinLower (joinUpper h b.addr p.addr) b.addr p.addr).brk = h.brk := by
    rw [joinLower_brk, joinUpper_brk]
  refine ⟨_, rfl, brk, ?_⟩
  obtain ⟨preHolds, pHolds⟩ := (holds_append h base pre (p :: post)).mp wf.holds
  have upper := holds_joinUpper pHolds (wf.sized b given) (Nat.ne_of_lt pLow) high
    (fun a m => fits a (by
      rcases List.mem_cons.mp m with rfl | m
      · exact .inr given
      · exact .inl (by simp [m])))
    (by
      have := Block.lt_stop bSize
      have := wf.sound.below
      unfold HEADER at this
      omega)
  have lower := holds_joinLower upper (joinNext_head b post) (joinNext_ne_nil b post)
    (by rw [joinUpper_frame h _ _ (Nat.ne_of_lt pLow)]; exact pHolds.1 ▸ rfl)
    (joinNext_closed (Q := fun a => p.addr < a.addr) (fun _ _ below _ _ => below) pLow
      fun a m => Nat.lt_trans pLow (high a m))
    (fun a m => by
      rcases List.mem_cons.mp m with rfl | m
      · exact fits a (.inl pMem)
      · exact joinNext_closed (Q := fun a => a.stop < 2 ^ 32)
          (fun _ _ _ fits adjacent => by rw [Block.join_stop adjacent]; exact fits)
          (fits b (.inr given)) (fun a m => fits a (.inl (by simp [m]))) a m)
  have frame : ∀ a, a ≠ b.addr → a ≠ p.addr →
      (joinLower (joinUpper h b.addr p.addr) b.addr p.addr).hdr a = h.hdr a := fun a ne ne' => by
    rw [joinLower_frame _ _ _ ne', joinUpper_frame _ _ _ ne]
  have place : release b (pre ++ p :: post) = pre ++ joinPrev p (joinNext b post) :=
    release_place (fun a m => Nat.not_lt.mpr (Nat.le_of_lt (high a (List.mem_of_mem_head? m)))) low
  refine ⟨brk ▸ sound, ?_, ?_, ?_, brk ▸ wf.grown, wf.nonnull⟩
  · rw [place]
    refine (holds_append _ base pre _).mpr ⟨?_, lower.congr fun _ _ => rfl⟩
    rw [linkTo_joinPrev]
    have below := (List.pairwise_append.mp wf.sound.free_pairwise).2.2
    refine preHolds.congr fun a m => frame a.addr (Nat.ne_of_lt (low a (by simp [m]))) ?_
    exact Nat.ne_of_lt (Nat.lt_of_le_of_lt (Block.le_stop a) (below a m p List.mem_cons_self))
  · intro y m
    obtain ⟨other, m⟩ := wf.sound.nodup.mem_erase_iff.mp m
    rw [frame _ (wf.sound.live_addr_ne_live given m other) (wf.sound.live_addr_ne pMem m)]
    exact wf.sized y m
  · rw [place, List.map_append]
    exact List.mem_append_right _ (linkTo_joinPrev base p _ ▸ linkTo_mem base (joinPrev_ne_nil p _))

end Wf

end Xv6.User
