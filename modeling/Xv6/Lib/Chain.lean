import Mathlib

/-!
# Singly-linked lists kept in pointer cells

A singly-linked list lives in cells that each hold a node or null: a head cell, and the `next`
field of every node. `deref` reads a cell and `field a` is the cell of node `a`'s link. The list
a cell starts is the nodes met by following the links up to a null one (`Chain`); being a
finite list, it never meets a node twice.

The rules here are the ones a queue kept this way needs: the list a cell starts is unique; it is
read again from another cell, or after other cells changed, as long as the first cell and the
links of its nodes read the same; the loop `for(pp = &head; *pp; pp = &(*pp)->next);` stops at
the null cell after the last node once it has more turns than the list has nodes; a node
written into that cell, with a null link of its own, is appended.
-/

namespace Xv6.SList

variable {κ ℓ : Type}

/-- The nodes the cell `pp` starts, in order, up to the first null link. -/
inductive Chain (deref : ℓ → Option κ) (field : κ → ℓ) : ℓ → List κ → Prop
  | nil {pp : ℓ} : deref pp = none → Chain deref field pp []
  | cons {pp : ℓ} {a : κ} {rest : List κ} :
      deref pp = some a → Chain deref field (field a) rest → Chain deref field pp (a :: rest)

/-- The cell that holds the null link at the end of the list `pp` starts. -/
def tail (field : κ → ℓ) (pp : ℓ) : List κ → ℓ
  | [] => pp
  | a :: rest => tail field (field a) rest

/-- `for(; *pp; pp = &(*pp)->next);` with at most `fuel` tests: the cell where it stops. -/
def walk (deref : ℓ → Option κ) (field : κ → ℓ) : Nat → ℓ → Option ℓ
  | 0, _ => none
  | fuel + 1, pp =>
    match deref pp with
    | none => some pp
    | some a => walk deref field fuel (field a)

variable {deref deref' : ℓ → Option κ} {field : κ → ℓ}

/-- A cell starts one list only. -/
theorem Chain.unique {pp : ℓ} {l l' : List κ} (first : Chain deref field pp l)
    (second : Chain deref field pp l') : l = l' := by
  induction first generalizing l' with
  | nil null =>
    cases second with
    | nil _ => rfl
    | cons found _ => rw [null] at found; cases found
  | cons found _ ih =>
    cases second with
    | nil null => rw [found] at null; cases null
    | cons found' rest' =>
      cases found.symm.trans found'
      rw [ih rest']

/-- The first cell holds the first node, or null for the empty list. -/
theorem Chain.deref_start {pp : ℓ} {l : List κ} (chain : Chain deref field pp l) :
    deref pp = l.head? := by
  cases chain with
  | nil null => exact null
  | cons found _ => exact found

/-- A list is read again from a cell that holds what its first cell holds, under any `deref'`
that reads the links of its nodes as `deref` does. -/
theorem Chain.restart {q pp : ℓ} {l : List κ} (chain : Chain deref field q l)
    (start : deref' pp = deref q) (agree : ∀ a ∈ l, deref' (field a) = deref (field a)) :
    Chain deref' field pp l := by
  induction chain generalizing pp with
  | nil null => exact .nil (start.trans null)
  | cons found _ ih =>
    exact .cons (start.trans found)
      (ih (agree _ List.mem_cons_self) fun b mem => agree b (List.mem_cons_of_mem _ mem))

/-- Cells off the list do not change it. -/
theorem Chain.congr {pp : ℓ} {l : List κ} (chain : Chain deref field pp l)
    (start : deref' pp = deref pp) (agree : ∀ a ∈ l, deref' (field a) = deref (field a)) :
    Chain deref' field pp l :=
  chain.restart start agree

/-- The link of a node on the list starts the rest of the list after it. -/
theorem Chain.suffix {pp : ℓ} {a : κ} {post : List κ} :
    ∀ {pre : List κ}, Chain deref field pp (pre ++ a :: post) → Chain deref field (field a) post
  | [], chain => by
    cases chain with
    | cons _ rest => exact rest
  | _ :: _, chain => by
    cases chain with
    | cons _ rest => exact Chain.suffix rest

/-- The list a cell starts has no node twice: a node met again would start the same list from
its link twice, once with fewer nodes. -/
theorem Chain.nodup {pp : ℓ} {l : List κ} (chain : Chain deref field pp l) : l.Nodup := by
  induction chain with
  | nil _ => exact List.nodup_nil
  | @cons pp a rest _ restChain ih =>
    refine List.nodup_cons.mpr ⟨fun mem => ?_, ih⟩
    obtain ⟨pre, post, split⟩ := List.append_of_mem mem
    have again : post = rest := (split ▸ restChain).suffix.unique restChain
    have lengths := congrArg List.length split
    rw [← again, List.length_append, List.length_cons] at lengths
    omega

/-- The cell at the end holds null. -/
theorem Chain.deref_tail {pp : ℓ} {l : List κ} (chain : Chain deref field pp l) :
    deref (tail field pp l) = none := by
  induction chain with
  | nil null => exact null
  | cons _ _ ih => exact ih

/-- The cell at the end is the first cell or the link of a node on the list. -/
theorem tail_mem (field : κ → ℓ) (pp : ℓ) :
    ∀ l : List κ, tail field pp l = pp ∨ ∃ a ∈ l, tail field pp l = field a
  | [] => .inl rfl
  | a :: rest => by
    rcases tail_mem field (field a) rest with first | ⟨b, mem, at_b⟩
    · exact .inr ⟨a, List.mem_cons_self, first⟩
    · exact .inr ⟨b, List.mem_cons_of_mem _ mem, at_b⟩

/-- With more tests than the list has nodes, the loop stops at the cell at the end. -/
theorem Chain.walk_eq {pp : ℓ} {l : List κ} (chain : Chain deref field pp l) :
    ∀ {fuel : Nat}, l.length < fuel → walk deref field fuel pp = some (tail field pp l) := by
  induction chain with
  | nil null =>
    intro fuel enough
    cases fuel with
    | zero => cases enough
    | succ fuel =>
      rw [walk, null]
      rfl
  | cons found _ ih =>
    intro fuel enough
    cases fuel with
    | zero => cases enough
    | succ fuel =>
      rw [walk, found]
      exact ih (Nat.lt_of_succ_lt_succ enough)

/-- A list grows by a node written into the cell at its end, when `deref'` reads the cells of
the list that hold a node as `deref` does and the new node's link holds null. -/
theorem Chain.snoc {pp : ℓ} {l : List κ} {c : κ} (chain : Chain deref field pp l)
    (agreeStart : deref pp ≠ none → deref' pp = deref pp)
    (agreeLinks : ∀ a ∈ l, deref (field a) ≠ none → deref' (field a) = deref (field a))
    (linked : deref' (tail field pp l) = some c) (last : deref' (field c) = none) :
    Chain deref' field pp (l ++ [c]) := by
  induction chain with
  | nil _ => exact .cons linked (.nil last)
  | cons found _ ih =>
    have start := agreeStart (by rw [found]; exact Option.some_ne_none _)
    exact .cons (start.trans found) (ih (agreeLinks _ List.mem_cons_self)
      (fun b mem => agreeLinks b (List.mem_cons_of_mem _ mem)) linked)

/-- `b->next = 0; *pp = b;` at the end of the list: a node off the list is appended, when the head
cell is no node's link and different nodes have different links. A cell holding a node is not the
end of the list, which holds null. -/
theorem Chain.append [DecidableEq ℓ] {pp : ℓ} {l : List κ} {c : κ}
    (chain : Chain deref field pp l) (fresh : c ∉ l) (injective : Function.Injective field)
    (notLink : ∀ a, field a ≠ pp) :
    Chain (Function.update (Function.update deref (field c) none) (tail field pp l) (some c))
      field pp (l ++ [c]) := by
  have notTail : ∀ x, deref x ≠ none → x ≠ tail field pp l :=
    fun x held same => held (same ▸ chain.deref_tail)
  have apart : field c ≠ tail field pp l := by
    rcases tail_mem field pp l with first | ⟨b, mem, at_b⟩
    · rw [first]
      exact notLink c
    · rw [at_b]
      exact fun same => fresh (injective same ▸ mem)
  refine chain.snoc (fun held => ?_) (fun a mem held => ?_) (Function.update_self ..) ?_
  · rw [Function.update_of_ne (notTail _ held), Function.update_of_ne (notLink c).symm]
  · have other : field a ≠ field c := fun same => fresh (injective same ▸ mem)
    rw [Function.update_of_ne (notTail _ held), Function.update_of_ne other]
  · rw [Function.update_of_ne apart, Function.update_self]

end Xv6.SList
