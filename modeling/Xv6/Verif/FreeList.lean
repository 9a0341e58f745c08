import Xv6.User.Umalloc

/-!
# The free list, as a list of blocks

What the allocator's free list is for, apart from the headers that hold it: a list of blocks
in address order, each ending before the next starts with a gap between them, the first being
`base`, of size 0, below the heap. The blocks handed out lie in the heap too, apart from one
another and from the free ones. `release` is what free does to the list: the block goes in at
its place in address order and is joined to the blocks on either side that it touches, first
the one after it, then the one before.

Releasing a block handed out keeps all of this (`Sound.release`).
-/

namespace Xv6.User

/-- A block: the address of its header and its size in units. -/
structure Block where
  addr : Nat
  size : Nat
  deriving DecidableEq, Repr

/-- The address just past a block. -/
def Block.stop (b : Block) : Nat := b.addr + b.size * HEADER

/-- Two blocks share no byte. -/
def Block.Apart (a b : Block) : Prop := a.stop ≤ b.addr ∨ b.stop ≤ a.addr

/-- `a` ends before `b` starts, and does not touch it. -/
def Block.Below (a b : Block) : Prop := a.stop < b.addr

/-- The block from `a` through `b`, when `b` starts where `a` ends. -/
def Block.join (a b : Block) : Block := ⟨a.addr, a.size + b.size⟩

namespace Block

theorem Apart.symm {a b : Block} (apart : Apart a b) : Apart b a := Or.symm apart

@[simp] theorem join_addr (a b : Block) : (join a b).addr = a.addr := rfl

theorem lt_stop {a : Block} (positive : 0 < a.size) : a.addr < a.stop := by
  unfold stop HEADER
  omega

/-- A block apart from one of positive size that starts after it ends before it. -/
theorem Apart.stop_le {a b : Block} (apart : Apart a b) (positive : 0 < b.size)
    (before : a.addr < b.addr) : a.stop ≤ b.addr := by
  have := lt_stop positive
  unfold Apart at apart
  omega

theorem le_stop (a : Block) : a.addr ≤ a.stop := Nat.le_add_right _ _

theorem Below.trans {a b c : Block} (ab : Below a b) (bc : Below b c) : Below a c :=
  Nat.lt_trans ab (Nat.lt_of_le_of_lt (le_stop b) bc)

instance : Std.Symm Apart := ⟨fun _ _ apart => apart.symm⟩

instance : Trans Below Below Below := ⟨Below.trans⟩

theorem Below.ne {a b : Block} (below : Below a b) : a ≠ b := fun same => by
  subst same
  exact absurd below (Nat.not_lt.mpr (le_stop a))

theorem Below.apart {a b : Block} (below : Below a b) : Apart a b := Or.inl (Nat.le_of_lt below)

/-- `x` lies within `c`. -/
def Within (x c : Block) : Prop := c.addr ≤ x.addr ∧ x.stop ≤ c.stop

/-- A block apart from `c` is apart from every block within `c`. -/
theorem Apart.within {a c x : Block} (apart : Apart a c) (within : Within x c) : Apart a x := by
  unfold Apart at *
  obtain ⟨start, stop⟩ := within
  omega

theorem join_stop {a b : Block} (adjacent : a.stop = b.addr) : (join a b).stop = b.stop := by
  unfold join stop at *
  rw [Nat.add_mul, ← Nat.add_assoc, adjacent]

/-- A block of positive size apart from two blocks that touch is apart from the two joined. -/
theorem Apart.join {x a b : Block} (positive : 0 < x.size) (adjacent : a.stop = b.addr)
    (left : Apart x a) (right : Apart x b) : Apart x (a.join b) := by
  unfold Apart at *
  rw [join_stop adjacent, join_addr]
  unfold stop HEADER at *
  omega

end Block

/-- What malloc leaves free of a block it splits: all but the last `n` units. -/
def Block.shrink (n : Nat) (c : Block) : Block := ⟨c.addr, c.size - n⟩

/-- The last `n` units of `c`, which malloc hands out when it splits `c`. -/
def Block.tail (n : Nat) (c : Block) : Block := ⟨c.addr + (c.size - n) * HEADER, n⟩

namespace Block

@[simp] theorem shrink_addr (n : Nat) (c : Block) : (c.shrink n).addr = c.addr := rfl

theorem shrink_within (n : Nat) (c : Block) : Within (c.shrink n) c := by
  refine ⟨Nat.le_refl _, ?_⟩
  unfold shrink stop
  exact Nat.add_le_add_left (Nat.mul_le_mul_right _ (Nat.sub_le _ _)) _

theorem tail_stop {n : Nat} {c : Block} (le : n ≤ c.size) : (c.tail n).stop = c.stop := by
  unfold tail stop
  rw [Nat.add_assoc, ← Nat.add_mul, Nat.sub_add_cancel le]

theorem tail_within {n : Nat} {c : Block} (le : n ≤ c.size) : Within (c.tail n) c :=
  ⟨Nat.le_add_right _ _, Nat.le_of_eq (tail_stop le)⟩

/-- The two parts of a split block touch. -/
theorem shrink_stop (n : Nat) (c : Block) : (c.shrink n).stop = (c.tail n).addr := rfl

/-- Split off a block with units on both sides, the tail starts strictly inside the block. -/
theorem tail_inside {n : Nat} {c : Block} (positive : 0 < n) (large : n < c.size) :
    c.addr < (c.tail n).addr ∧ (c.tail n).addr < c.stop := by
  have whole := tail_stop (Nat.le_of_lt large)
  unfold tail stop HEADER at *
  dsimp only at whole ⊢
  omega

/-- A block apart from `c` starts at no address strictly inside `c`. -/
theorem Apart.addr_ne {a c : Block} {x : Nat} (apart : Apart a c)
    (inside : c.addr < x ∧ x < c.stop) : a.addr ≠ x := by
  have := le_stop a
  unfold Apart at apart
  omega

end Block

/-- `b` joined to the first block after it, when it touches it. -/
def joinNext (b : Block) : List Block → List Block
  | [] => [b]
  | n :: rest => if b.stop = n.addr then b.join n :: rest else b :: n :: rest

/-- `p` joined to the first block of `l`, when it touches it. -/
def joinPrev (p : Block) : List Block → List Block
  | [] => [p]
  | c :: rest => if p.stop = c.addr then p.join c :: rest else p :: c :: rest

/-- free on the list: `b` goes in after the last block below it, joined to the blocks it
touches. -/
def release (b : Block) : List Block → List Block
  | [] => [b]
  | p :: rest =>
    match rest with
    | q :: _ => if q.addr < b.addr then p :: release b rest else joinPrev p (joinNext b rest)
    | [] => joinPrev p (joinNext b [])

section Closed

variable {b : Block} {Q : Block → Prop} (joins : ∀ x y, Q x → Q y → x.stop = y.addr → Q (x.join y))
include joins

theorem joinNext_closed (here : Q b) :
    ∀ {l : List Block}, (∀ a ∈ l, Q a) → ∀ c ∈ joinNext b l, Q c
  | [], _, c, mem => by
    rw [joinNext, List.mem_singleton] at mem
    exact mem ▸ here
  | n :: rest, all, c, mem => by
    rw [joinNext] at mem
    split at mem
    · rcases List.mem_cons.mp mem with rfl | later
      · exact joins _ _ here (all n List.mem_cons_self) ‹_›
      · exact all c (List.mem_cons_of_mem n later)
    · rcases List.mem_cons.mp mem with rfl | later
      · exact here
      · exact all c later

theorem joinPrev_closed {p : Block} (first : Q p) :
    ∀ {l : List Block}, (∀ a ∈ l, Q a) → ∀ c ∈ joinPrev p l, Q c
  | [], _, c, mem => by
    rw [joinPrev, List.mem_singleton] at mem
    exact mem ▸ first
  | d :: rest, all, c, mem => by
    rw [joinPrev] at mem
    split at mem
    · rcases List.mem_cons.mp mem with rfl | later
      · exact joins _ _ first (all d List.mem_cons_self) ‹_›
      · exact all c (List.mem_cons_of_mem d later)
    · rcases List.mem_cons.mp mem with rfl | later
      · exact first
      · exact all c later

/-- Every block of a released list is a block of the list, the released block, or blocks of
these joined where they touch: it has each property they all have that joins keep. -/
theorem release_closed (here : Q b) : ∀ {l : List Block}, (∀ a ∈ l, Q a) → ∀ c ∈ release b l, Q c
  | [], _, c, mem => by
    rw [release, List.mem_singleton] at mem
    exact mem ▸ here
  | p :: rest, all, c, mem => by
    have first := all p List.mem_cons_self
    have others : ∀ a ∈ rest, Q a := fun a mem => all a (List.mem_cons_of_mem p mem)
    cases rest with
    | nil => exact joinPrev_closed joins first (joinNext_closed joins here others) c mem
    | cons q more =>
      rw [release] at mem
      split at mem
      · rcases List.mem_cons.mp mem with rfl | later
        · exact first
        · exact release_closed here others c later
      · exact joinPrev_closed joins first (joinNext_closed joins here others) c mem

end Closed

/-! ## Address order -/

theorem isChain_joinNext {b : Block} :
    ∀ {l : List Block}, l.IsChain Block.Below → (∀ n ∈ l.head?, b.stop ≤ n.addr) →
      (joinNext b l).IsChain Block.Below
  | [], _, _ => List.isChain_singleton b
  | n :: rest, chain, before => by
    have touch := before n rfl
    rw [joinNext]
    split
    · rename_i adjacent
      rw [List.isChain_cons] at chain ⊢
      refine ⟨fun c first => ?_, chain.2⟩
      unfold Block.Below
      rw [Block.join_stop adjacent]
      exact chain.1 c first
    · rename_i apart
      exact chain.cons fun c first => by
        cases first
        unfold Block.Below
        omega

theorem isChain_joinPrev {p : Block} :
    ∀ {l : List Block}, l.IsChain Block.Below → (∀ c ∈ l.head?, p.stop ≤ c.addr) →
      (joinPrev p l).IsChain Block.Below
  | [], _, _ => List.isChain_singleton p
  | c :: rest, chain, before => by
    have touch := before c rfl
    rw [joinPrev]
    split
    · rename_i adjacent
      rw [List.isChain_cons] at chain ⊢
      refine ⟨fun d first => ?_, chain.2⟩
      unfold Block.Below
      rw [Block.join_stop adjacent]
      exact chain.1 d first
    · rename_i apart
      exact chain.cons fun d first => by
        cases first
        unfold Block.Below
        omega

theorem joinNext_head (b : Block) : ∀ (l : List Block), ∀ c ∈ (joinNext b l).head?, c.addr = b.addr
  | [], c, first => by cases first; rfl
  | n :: rest, c, first => by
    rw [joinNext] at first
    split at first <;> cases first <;> rfl

theorem joinPrev_head (p : Block) : ∀ (l : List Block), ∀ c ∈ (joinPrev p l).head?, c.addr = p.addr
  | [], c, first => by cases first; rfl
  | d :: rest, c, first => by
    rw [joinPrev] at first
    split at first <;> cases first <;> rfl

theorem joinNext_ne_nil (b : Block) : ∀ l : List Block, joinNext b l ≠ []
  | [] => List.cons_ne_nil b []
  | n :: rest => by
    rw [joinNext]
    split <;> exact List.cons_ne_nil _ _

theorem joinPrev_ne_nil (p : Block) : ∀ l : List Block, joinPrev p l ≠ []
  | [] => List.cons_ne_nil p []
  | c :: rest => by
    rw [joinPrev]
    split <;> exact List.cons_ne_nil _ _

theorem exists_joinNext_ge (b : Block) :
    ∀ l : List Block, ∃ c ∈ (joinNext b l).head?, b.size ≤ c.size
  | [] => ⟨b, rfl, Nat.le_refl _⟩
  | n :: rest => by
    rw [joinNext]
    split
    · exact ⟨b.join n, rfl, Nat.le_add_right _ _⟩
    · exact ⟨b, rfl, Nat.le_refl _⟩

theorem exists_joinPrev_ge {k : Nat} (p : Block) :
    ∀ {l : List Block}, (∃ c ∈ l.head?, k ≤ c.size) → ∃ c ∈ joinPrev p l, k ≤ c.size
  | [], ⟨_, first, _⟩ => by cases first
  | c :: rest, ⟨d, first, large⟩ => by
    cases first
    rw [joinPrev]
    split
    · exact ⟨p.join c, List.mem_cons_self, Nat.le_trans large (Nat.le_add_left _ _)⟩
    · exact ⟨c, List.mem_cons_of_mem p List.mem_cons_self, large⟩

/-- The block released lies in a block of the released list at least as large. -/
theorem exists_release_ge (b : Block) : ∀ l : List Block, ∃ c ∈ release b l, b.size ≤ c.size
  | [] => ⟨b, List.mem_singleton_self b, Nat.le_refl _⟩
  | p :: rest => by
    cases rest with
    | nil =>
      rw [release]
      exact exists_joinPrev_ge p (exists_joinNext_ge b [])
    | cons q more =>
      rw [release]
      split
      · obtain ⟨c, m, large⟩ := exists_release_ge b (q :: more)
        exact ⟨c, List.mem_cons_of_mem p m, large⟩
      · exact exists_joinPrev_ge p (exists_joinNext_ge b _)

/-- A released list starts at the address the list did. -/
theorem release_head (b p : Block) :
    ∀ (rest : List Block), ∀ c ∈ (release b (p :: rest)).head?, c.addr = p.addr
  | [], c, first => by
    rw [release] at first
    exact joinPrev_head p _ c first
  | q :: more, c, first => by
    rw [release] at first
    split at first
    · cases first
      rfl
    · exact joinPrev_head p _ c first

/-- Released after a block that ends before it, a block leaves that first block as it was. -/
theorem release_head_of_below {b p : Block} (gap : p.stop < b.addr) (rest : List Block) :
    (release b (p :: rest)).head? = some p := by
  have keep : ∀ l : List Block, (∀ c ∈ l.head?, c.addr = b.addr) → (joinPrev p l).head? = some p
    | [], _ => rfl
    | c :: _, first => by
      rw [joinPrev, if_neg (by rw [first c rfl]; omega)]
      rfl
  cases rest with
  | nil =>
    rw [release]
    exact keep _ (joinNext_head b [])
  | cons q more =>
    rw [release]
    split
    · rfl
    · exact keep _ (joinNext_head b _)

/-- A block apart from every block of an address-ordered list, and after its first, goes in
keeping the order. -/
theorem isChain_release {b : Block} (positive : 0 < b.size) :
    ∀ {p : Block} {rest : List Block}, (p :: rest).IsChain Block.Below → p.addr < b.addr →
      (∀ a ∈ p :: rest, Block.Apart a b) → (∀ a ∈ rest, 0 < a.size) →
      (release b (p :: rest)).IsChain Block.Below
  | p, [], _, before, apart, _ => by
    have gap := (apart p List.mem_cons_self).stop_le positive before
    rw [release]
    exact isChain_joinPrev (List.isChain_singleton b) fun c first => by cases first; exact gap
  | p, q :: more, chain, before, apart, sizes => by
    rw [release]
    split
    · rename_i below
      have rest := isChain_release positive chain.tail below
        (fun a mem => apart a (List.mem_cons_of_mem p mem))
        (fun a mem => sizes a (List.mem_cons_of_mem q mem))
      rw [List.isChain_cons_cons] at chain
      exact rest.cons fun c first => by
        unfold Block.Below
        rw [release_head b q more c first]
        exact chain.1
    · rename_i above
      have gap := (apart p List.mem_cons_self).stop_le positive before
      have after := ((apart q (List.mem_cons_of_mem p List.mem_cons_self)).symm).stop_le
        (sizes q List.mem_cons_self) (by
          have := (apart q (List.mem_cons_of_mem p List.mem_cons_self))
          have := Block.lt_stop positive
          have := Block.lt_stop (sizes q List.mem_cons_self)
          unfold Block.Apart at *
          omega)
      refine isChain_joinPrev (isChain_joinNext chain.tail fun n first => ?_) fun c first => ?_
      · cases first
        exact after
      · rw [joinNext_head b _ c first]
        exact gap

/-- In a list in address order, the blocks below an address that no block starts at come first: the
list is those, the last of them `p`, and the blocks above. The blocks from `y` on start at or above
`y`, which starts above `k`. -/
theorem exists_place {k : Nat} : ∀ {x : Block} {l : List Block}, (x :: l).IsChain Block.Below →
    x.addr < k → (∀ a ∈ l, a.addr ≠ k) →
    ∃ pre p post, x :: l = pre ++ p :: post ∧ (∀ a ∈ pre ++ [p], a.addr < k) ∧
      ∀ a ∈ post, k < a.addr
  | x, [], _, below, _ => ⟨[], x, [], rfl, fun a m => by cases List.mem_singleton.mp m; exact below,
      fun _ m => absurd m List.not_mem_nil⟩
  | x, y :: l, chain, below, other => by
    by_cases lower : y.addr < k
    · obtain ⟨pre, p, post, split, low, high⟩ :=
        exists_place chain.tail lower fun a m => other a (List.mem_cons_of_mem y m)
      refine ⟨x :: pre, p, post, by rw [split]; rfl, fun a m => ?_, high⟩
      rcases List.mem_cons.mp m with rfl | m
      · exact below
      · exact low a m
    · refine ⟨[], x, y :: l, rfl, fun a m => by cases List.mem_singleton.mp m; exact below, ?_⟩
      have above : ∀ a ∈ y :: l, y.addr ≤ a.addr := fun a m => by
        rcases List.mem_cons.mp m with rfl | m
        · exact Nat.le_refl _
        · exact Nat.le_of_lt (Nat.lt_of_le_of_lt (Block.le_stop y)
            (List.IsChain.rel_cons (R := Block.Below) chain.tail m))
      intro a m
      have := above a m
      have := other a m
      omega

/-- With the blocks below `b` first, `release` puts `b` after the last of them. -/
theorem release_place {b p : Block} {post : List Block}
    (above : ∀ a ∈ post.head?, ¬a.addr < b.addr) :
    ∀ {pre : List Block}, (∀ a ∈ pre ++ [p], a.addr < b.addr) →
      release b (pre ++ p :: post) = pre ++ joinPrev p (joinNext b post)
  | [], _ => by
    cases post with
    | nil => rw [List.nil_append, release, List.nil_append]
    | cons q more => rw [List.nil_append, release, if_neg (above q rfl), List.nil_append]
  | x :: pre, low => by
    obtain ⟨q, more, split, lower⟩ : ∃ q more, pre ++ p :: post = q :: more ∧ q.addr < b.addr := by
      cases pre with
      | nil => exact ⟨p, post, rfl, low p (by simp)⟩
      | cons y pre => exact ⟨y, pre ++ p :: post, rfl, low y (by simp)⟩
    rw [List.cons_append, split, release, if_pos lower, ← split,
      release_place above fun a m => low a (List.mem_cons_of_mem x m), List.cons_append]

/-! ## The invariant -/

/-- A block of the heap `[start, brk)`, of positive size. -/
def InHeap (start brk : Nat) (b : Block) : Prop := start ≤ b.addr ∧ 0 < b.size ∧ b.stop ≤ brk

/-- The free list `free` and the blocks handed out, `live`, as the allocator keeps them: the
free blocks in address order with gaps between them, `base` first, the others and the blocks
handed out in the heap, and no two blocks sharing a byte. -/
structure Sound (base start brk : Nat) (free live : List Block) : Prop where
  first : free.head? = some ⟨base, 0⟩
  sorted : free.IsChain Block.Below
  below : base + HEADER ≤ start
  top : brk < 2 ^ 32
  heap : ∀ b ∈ free, b = ⟨base, 0⟩ ∨ InHeap start brk b
  given : ∀ b ∈ live, InHeap start brk b
  apart : ∀ a ∈ free, ∀ b ∈ live, Block.Apart a b
  distinct : live.Pairwise Block.Apart

section Sound

variable {base start brk : Nat} {free live : List Block}

theorem Sound.cons (sound : Sound base start brk free live) :
    ∃ rest, free = ⟨base, 0⟩ :: rest := by
  cases free with
  | nil => cases sound.first
  | cons p rest =>
    obtain rfl : p = ⟨base, 0⟩ := Option.some.inj sound.first
    exact ⟨rest, rfl⟩

/-- No block handed out is handed out twice. -/
theorem Sound.nodup (sound : Sound base start brk free live) : live.Nodup :=
  sound.distinct.imp_of_mem fun {a b} mem _ apart same => by
    subst same
    have := Block.lt_stop (sound.given a mem).2.1
    unfold Block.Apart at apart
    omega

/-- Joined where they touch, blocks of the heap and `base` stay blocks of the heap or `base`. -/
theorem InHeap.join_closed (below : base + HEADER ≤ start) (x y : Block)
    (hx : x = ⟨base, 0⟩ ∨ InHeap start brk x) (hy : y = ⟨base, 0⟩ ∨ InHeap start brk y)
    (adjacent : x.stop = y.addr) : x.join y = ⟨base, 0⟩ ∨ InHeap start brk (x.join y) := by
  unfold InHeap at *
  rcases hx with rfl | ⟨xStart, xSize, xStop⟩ <;> rcases hy with rfl | ⟨yStart, ySize, yStop⟩
  · exact .inl rfl
  · exfalso
    simp only [Block.stop, HEADER] at adjacent below
    omega
  · exfalso
    have := Block.lt_stop xSize
    simp only [Block.stop, HEADER] at adjacent below this
    omega
  · refine .inr ⟨xStart, by simp only [Block.join]; omega, ?_⟩
    rw [Block.join_stop adjacent]
    exact yStop

/-- After `base`, the free blocks are blocks of the heap: `base` comes only first. -/
theorem Sound.inHeap {rest : List Block} (sound : Sound base start brk (⟨base, 0⟩ :: rest) live) :
    ∀ a ∈ rest, InHeap start brk a := fun a mem => by
  rcases sound.heap a (List.mem_cons_of_mem _ mem) with rfl | inHeap
  · exact absurd (List.IsChain.rel_cons (R := Block.Below) sound.sorted mem) (by
      unfold Block.Below Block.stop
      omega)
  · exact inHeap

/-- Releasing a block handed out keeps the invariant, with the block no longer handed out. -/
theorem Sound.release {b : Block} (sound : Sound base start brk free live) (given : b ∈ live) :
    Sound base start brk (release b free) (live.erase b) := by
  obtain ⟨rest, rfl⟩ := sound.cons
  obtain ⟨bStart, bSize, bStop⟩ := sound.given b given
  have above : base < b.addr := by
    have := sound.below
    unfold HEADER at this
    omega
  have gap : (⟨base, 0⟩ : Block).stop < b.addr := by
    show base + 0 * HEADER < b.addr
    rw [Nat.zero_mul, Nat.add_zero]
    exact above
  have others : ∀ y ∈ live.erase b, y ∈ live ∧ Block.Apart b y := fun y mem => by
    obtain ⟨other, mem⟩ := (sound.nodup.mem_erase_iff).mp mem
    exact ⟨mem, sound.distinct.forall given mem (Ne.symm other)⟩
  refine ⟨release_head_of_below gap rest, ?_, sound.below, sound.top, ?_, ?_, ?_, ?_⟩
  · exact isChain_release bSize sound.sorted above (fun a mem => sound.apart a mem b given)
      fun a mem => (sound.inHeap a mem).2.1
  · exact release_closed (InHeap.join_closed sound.below) (.inr ⟨bStart, bSize, bStop⟩)
      sound.heap
  · exact fun y mem => sound.given y (List.mem_of_mem_erase mem)
  · intro a mem y mem'
    obtain ⟨live', apart⟩ := others y mem'
    have positive := (sound.given y live').2.1
    refine release_closed (Q := fun a => Block.Apart a y)
      (fun x z hx hz adjacent => (Block.Apart.join positive adjacent hx.symm hz.symm).symm)
      apart (fun a mem => sound.apart a mem y live') a mem
  · exact sound.distinct.sublist (List.erase_sublist)

theorem InHeap.mono {b : Block} {brk' : Nat} (inHeap : InHeap start brk b) (le : brk ≤ brk') :
    InHeap start brk' b :=
  ⟨inHeap.1, inHeap.2.1, Nat.le_trans inHeap.2.2 le⟩

theorem Sound.free_pairwise (sound : Sound base start brk free live) :
    free.Pairwise Block.Below :=
  List.isChain_iff_pairwise.mp sound.sorted

/-- Around a free block, the free blocks before it start below it and those after it above. -/
theorem Sound.order_split (sound : Sound base start brk free live) {pre post : List Block}
    {p : Block} (split : free = pre ++ p :: post) :
    (∀ a ∈ pre, a.addr < p.addr) ∧ ∀ a ∈ post, p.addr < a.addr := by
  have pairwise := sound.free_pairwise
  rw [split, List.pairwise_append, List.pairwise_cons] at pairwise
  refine ⟨fun a m => ?_, fun a m => ?_⟩
  · exact Nat.lt_of_le_of_lt (Block.le_stop a) (pairwise.2.2 a m p List.mem_cons_self)
  · exact Nat.lt_of_le_of_lt (Block.le_stop p) (pairwise.2.1.1 a m)

/-- Around two neighbours `p` and `c` of the free list: the blocks before `p` lie below it, `c`
above it, and the blocks after `c` above `c`. -/
theorem Sound.order_pair (sound : Sound base start brk free live) {pre post : List Block}
    {p c : Block} (split : free = pre ++ p :: c :: post) :
    (∀ a ∈ pre, a.addr < p.addr) ∧ p.addr < c.addr ∧ ∀ a ∈ post, c.addr < a.addr := by
  obtain ⟨preBelow, afterP⟩ := sound.order_split split
  obtain ⟨-, afterC⟩ := sound.order_split (show free = (pre ++ [p]) ++ c :: post by simp [split])
  exact ⟨preBelow, afterP c List.mem_cons_self, afterC⟩

/-- No two free blocks start at one address. -/
theorem Sound.addr_nodup (sound : Sound base start brk free live) : (free.map Block.addr).Nodup :=
  List.pairwise_map.mpr (sound.free_pairwise.imp fun {a _} below =>
    Nat.ne_of_lt (Nat.lt_of_le_of_lt (Block.le_stop a) below))

/-- Two free blocks are apart. -/
theorem Sound.free_apart (sound : Sound base start brk free live) {a c : Block} (ma : a ∈ free)
    (mc : c ∈ free) (other : a ≠ c) : Block.Apart a c :=
  (sound.free_pairwise.imp Block.Below.apart).forall ma mc other

theorem Sound.free_nodup (sound : Sound base start brk free live) : free.Nodup :=
  sound.free_pairwise.imp Block.Below.ne

/-- A free block of positive size is a block of the heap. -/
theorem Sound.inHeap_of_pos (sound : Sound base start brk free live) {c : Block} (mem : c ∈ free)
    (positive : 0 < c.size) : InHeap start brk c := by
  rcases sound.heap c mem with rfl | inHeap
  · exact absurd positive (Nat.lt_irrefl 0)
  · exact inHeap

/-- Blocks of positive size in address order, apart, within `[lo, hi)`, take up a header each at
least. -/
theorem length_mul_le {hi : Nat} : ∀ {l : List Block} {lo : Nat}, l.IsChain Block.Below →
    (∀ a ∈ l, InHeap lo hi a) → l.length * HEADER ≤ hi - lo
  | [], _, _, _ => Nat.zero_le _
  | a :: l, lo, chain, inHeap => by
    obtain ⟨aStart, aSize, aStop⟩ := inHeap a List.mem_cons_self
    have rest : l.length * HEADER ≤ hi - a.stop :=
      length_mul_le chain.tail fun c m =>
        ⟨Nat.le_of_lt (List.IsChain.rel_cons (R := Block.Below) chain m),
          (inHeap c (List.mem_cons_of_mem a m)).2⟩
    have header : a.addr + HEADER ≤ a.stop := by
      have := Nat.mul_le_mul_right HEADER aSize
      unfold Block.stop
      omega
    rw [List.length_cons, Nat.add_mul, Nat.one_mul]
    omega

/-- There are at most 2^29 free blocks: `base`, then blocks of a header at least below 2^32. -/
theorem Sound.length_le (sound : Sound base start brk free live) : free.length ≤ 2 ^ 29 := by
  obtain ⟨rest, rfl⟩ := sound.cons
  have := length_mul_le (l := rest) sound.sorted.tail sound.inHeap
  have := sound.top
  rw [List.length_cons]
  unfold HEADER at *
  omega

/-- Every block ends by the break, `base` too. -/
theorem Sound.stop_le (sound : Sound base start brk free live) (grown : start ≤ brk) {a : Block}
    (mem : a ∈ free ∨ a ∈ live) : a.stop ≤ brk := by
  rcases mem with mem | mem
  · rcases sound.heap a mem with rfl | inHeap
    · have := sound.below
      simp only [Block.stop, HEADER] at this ⊢
      omega
    · exact inHeap.2.2
  · exact (sound.given a mem).2.2

/-- Where free puts a block handed out: after the last free block below it. A block of the heap
apart from `b` does not start where `b` does. -/
theorem Sound.exists_place (sound : Sound base start brk free live) {b : Block} (given : b ∈ live) :
    ∃ pre p post, free = pre ++ p :: post ∧ (∀ a ∈ pre ++ [p], a.addr < b.addr) ∧
      ∀ a ∈ post, b.addr < a.addr := by
  obtain ⟨rest, rfl⟩ := sound.cons
  obtain ⟨bStart, bSize, -⟩ := sound.given b given
  have bPositive := Block.lt_stop bSize
  have above : base < b.addr := by
    have := sound.below
    unfold HEADER at this
    omega
  refine exists_place sound.sorted above ?_
  intro a m same
  have aPositive := Block.lt_stop (sound.inHeap a m).2.1
  have apart := sound.apart a (List.mem_cons_of_mem _ m) b given
  unfold Block.Apart at apart
  omega

/-- A block handed out starts at no free block. -/
theorem Sound.live_addr_ne (sound : Sound base start brk free live) {a y : Block} (ma : a ∈ free)
    (my : y ∈ live) : y.addr ≠ a.addr := by
  obtain ⟨yStart, ySize, -⟩ := sound.given y my
  have yPositive := Block.lt_stop ySize
  rcases sound.heap a ma with rfl | aHeap
  · have := sound.below
    unfold HEADER at this
    show y.addr ≠ base
    omega
  · have aPositive := Block.lt_stop aHeap.2.1
    have apart := sound.apart a ma y my
    unfold Block.Apart at apart
    omega

/-- Two blocks handed out start at different addresses. -/
theorem Sound.live_addr_ne_live (sound : Sound base start brk free live) {b y : Block}
    (mb : b ∈ live) (my : y ∈ live) (other : y ≠ b) : y.addr ≠ b.addr := by
  have yPositive := Block.lt_stop (sound.given y my).2.1
  have bPositive := Block.lt_stop (sound.given b mb).2.1
  have apart := sound.distinct.forall my mb other
  unfold Block.Apart at apart
  omega

/-- Taking a free block whole and handing it out keeps the invariant. -/
theorem Sound.take (sound : Sound base start brk free live) {c : Block} (mem : c ∈ free)
    (positive : 0 < c.size) : Sound base start brk (free.erase c) (c :: live) := by
  obtain ⟨rest, rfl⟩ := sound.cons
  have other : (⟨base, 0⟩ : Block) ≠ c := fun same => by
    rw [← same] at positive
    exact Nat.lt_irrefl 0 positive
  have kept : ∀ a ∈ (⟨base, 0⟩ :: rest).erase c, a ∈ ⟨base, 0⟩ :: rest ∧ a ≠ c := fun a m => by
    obtain ⟨ne, m⟩ := sound.free_nodup.mem_erase_iff.mp m
    exact ⟨m, ne⟩
  refine ⟨?_, sound.sorted.sublist List.erase_sublist, sound.below, sound.top,
    fun a m => sound.heap a (kept a m).1, ?_, ?_, ?_⟩
  · rw [List.erase_cons_tail (by rw [beq_iff_eq]; exact other)]
    rfl
  · intro b m
    rcases List.mem_cons.mp m with rfl | m
    · exact sound.inHeap_of_pos mem positive
    · exact sound.given b m
  · intro a ma b mb
    rcases List.mem_cons.mp mb with rfl | mb
    · exact sound.free_apart (kept a ma).1 mem (kept a ma).2
    · exact sound.apart a (kept a ma).1 b mb
  · exact List.Pairwise.cons (fun b mb => sound.apart c mem b mb) sound.distinct

/-- Splitting a free block, handing out its last `n` units and leaving the rest free, keeps the
invariant. Each block of the new list lies within the old one it replaces. -/
theorem Sound.split (sound : Sound base start brk free live) {c : Block} {n : Nat} (mem : c ∈ free)
    (positive : 0 < n) (lt : n < c.size) :
    Sound base start brk (free.map fun a => if a = c then c.shrink n else a) (c.tail n :: live) := by
  obtain ⟨rest, rfl⟩ := sound.cons
  have other : (⟨base, 0⟩ : Block) ≠ c := fun same => by
    rw [← same] at lt
    exact Nat.not_lt_zero n lt
  have within : ∀ a : Block, Block.Within (if a = c then c.shrink n else a) a := fun a => by
    by_cases same : a = c
    · rw [if_pos same, same]
      exact Block.shrink_within n c
    · rw [if_neg same]
      exact ⟨Nat.le_refl _, Nat.le_refl _⟩
  have cHeap := sound.inHeap_of_pos mem (Nat.lt_trans positive lt)
  have tail := Block.tail_within (Nat.le_of_lt lt)
  refine ⟨?_, ?_, sound.below, sound.top, ?_, ?_, ?_, ?_⟩
  · rw [List.map_cons, if_neg other]
    rfl
  · refine (List.isChain_map _).mpr (sound.sorted.imp fun a b below => ?_)
    have := within a
    have := within b
    unfold Block.Below Block.Within at *
    omega
  · intro a' m'
    obtain ⟨a, m, rfl⟩ := List.mem_map.mp m'
    by_cases same : a = c
    · rw [if_pos same]
      refine .inr ⟨cHeap.1, Nat.sub_pos_of_lt lt, ?_⟩
      exact Nat.le_trans (Block.shrink_within n c).2 cHeap.2.2
    · rw [if_neg same]
      exact sound.heap a m
  · intro b m
    rcases List.mem_cons.mp m with rfl | m
    · exact ⟨Nat.le_trans cHeap.1 tail.1, positive, by rw [Block.tail_stop (Nat.le_of_lt lt)]; exact cHeap.2.2⟩
    · exact sound.given b m
  · intro a' ma' b mb
    obtain ⟨a, ma, rfl⟩ := List.mem_map.mp ma'
    rcases List.mem_cons.mp mb with rfl | mb
    · by_cases same : a = c
      · rw [if_pos same]
        exact Or.inl (Nat.le_of_eq (Block.shrink_stop n c))
      · rw [if_neg same]
        exact (sound.free_apart ma mem same).within tail
    · exact ((sound.apart a ma b mb).symm.within (within a)).symm
  · exact List.Pairwise.cons (fun b mb => ((sound.apart c mem b mb).symm.within tail).symm)
      sound.distinct

/-- A block just past the break, the break moved to its end, is handed out keeping the
invariant: morecore's block before it frees it. -/
theorem Sound.grow (sound : Sound base start brk free live) (grown : start ≤ brk) {nu : Nat}
    (positive : 0 < nu) (top : brk + nu * HEADER < 2 ^ 32) :
    Sound base start (brk + nu * HEADER) free (⟨brk, nu⟩ :: live) := by
  have raised : brk ≤ brk + nu * HEADER := Nat.le_add_right _ _
  refine ⟨sound.first, sound.sorted, sound.below, top, ?_, ?_, ?_, ?_⟩
  · intro a m
    exact (sound.heap a m).imp_right fun inHeap => inHeap.mono raised
  · intro b m
    rcases List.mem_cons.mp m with rfl | m
    · exact ⟨grown, positive, Nat.le_refl _⟩
    · exact (sound.given b m).mono raised
  · intro a ma b mb
    rcases List.mem_cons.mp mb with rfl | mb
    · exact Or.inl (sound.stop_le grown (.inl ma))
    · exact sound.apart a ma b mb
  · exact List.Pairwise.cons (fun b mb => Or.inr (sound.stop_le grown (.inr mb))) sound.distinct

end Sound

end Xv6.User
