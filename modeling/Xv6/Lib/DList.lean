import Mathlib

/-!
# Circular doubly-linked lists with a sentinel

Nodes carry `next` and `prev` pointers, and a sentinel node closes the circle; a pointer is an
`Option α`, with `none` for the sentinel. The pointers are read against a list, the order of the
nodes from the sentinel's `next` on: `next` is the successor in the list, `prev` the successor in
the reversed list, and the sentinel stands before the first node and after the last.

The rules here are the ones a list manipulated through its pointers needs: pushing a node in
front of the first, unlinking a node, that `prev` inverts `next`, and that a loop following the
pointers from the sentinel visits the nodes in list order.
-/

namespace Xv6.DList

variable {α : Type} [DecidableEq α]

/-- The node after `a` in `order`; none when `a` is last or not in the list. -/
def after : List α → α → Option α
  | [], _ => none
  | x :: rest, a => if x = a then rest.head? else after rest a

/-- The successor of a node in the circle of `order` and the sentinel. -/
def succ (order : List α) : Option α → Option α
  | none => order.head?
  | some a => after order a

/-- The pointers link the nodes of `order`, in order, into one circle with the sentinel. -/
structure Links (order : List α) (next prev : Option α → Option α) : Prop where
  nodup : order.Nodup
  next_eq : next = succ order
  prev_eq : prev = succ order.reverse

@[simp] theorem after_nil (a : α) : after [] a = none := rfl

theorem after_cons (x a : α) (rest : List α) :
    after (x :: rest) a = if x = a then rest.head? else after rest a := rfl

@[simp] theorem succ_none (order : List α) : succ order none = order.head? := rfl

@[simp] theorem succ_some (order : List α) (a : α) : succ order (some a) = after order a := rfl

/-- A node's successor is in the list. -/
theorem mem_of_after {order : List α} {a b : α} (found : after order a = some b) : b ∈ order := by
  induction order with
  | nil => cases found
  | cons x rest ih =>
    rw [after_cons] at found
    split at found
    · exact List.mem_cons_of_mem _ (List.mem_of_mem_head? found)
    · exact List.mem_cons_of_mem _ (ih found)

/-- A node outside the list has no successor in it. -/
theorem after_of_not_mem {order : List α} {a : α} (absent : a ∉ order) : after order a = none := by
  induction order with
  | nil => rfl
  | cons x rest ih =>
    have notX : x ≠ a := by
      rintro rfl
      exact absent List.mem_cons_self
    rw [after_cons, if_neg notX, ih (fun mem => absent (List.mem_cons_of_mem _ mem))]

/-- Nodes before `a` do not change its successor. -/
theorem after_append_of_not_mem {pre : List α} (suffix : List α) {a : α} (absent : a ∉ pre) :
    after (pre ++ suffix) a = after suffix a := by
  induction pre with
  | nil => rfl
  | cons x rest ih =>
    have notX : x ≠ a := by
      rintro rfl
      exact absent List.mem_cons_self
    rw [List.cons_append, after_cons, if_neg notX, ih (fun mem => absent (List.mem_cons_of_mem _ mem))]

/-- The successor of a node is the first node after it. -/
theorem after_append_cons {pre : List α} (rest : List α) {a : α} (absent : a ∉ pre) :
    after (pre ++ a :: rest) a = rest.head? := by
  rw [after_append_of_not_mem _ absent, after_cons, if_pos rfl]

/-- Within a prefix without repetitions, the successor is the prefix's own, except after its
last node, where the suffix begins. -/
theorem after_append_of_mem {pre : List α} (suffix : List α) {a : α} (nodup : pre.Nodup)
    (mem : a ∈ pre) :
    after (pre ++ suffix) a = if pre.getLast? = some a then suffix.head? else after pre a := by
  induction pre with
  | nil => cases mem
  | cons x rest ih =>
    rw [List.nodup_cons] at nodup
    rw [List.cons_append, after_cons, after_cons]
    by_cases first : x = a
    · subst first
      have notLast : (x :: rest).getLast? = some x ↔ rest = [] := by
        cases rest with
        | nil => simp
        | cons y ys =>
          simp only [List.getLast?_cons_cons, reduceCtorEq, iff_false]
          intro last
          exact nodup.1 (List.mem_of_getLast? last)
      by_cases empty : rest = []
      · subst empty
        simp
      · rw [if_pos rfl, if_pos rfl, if_neg (fun last => empty (notLast.mp last))]
        cases rest with
        | nil => exact absurd rfl empty
        | cons y ys => rfl
    · have later : a ∈ rest := (List.mem_cons.mp mem).resolve_left (Ne.symm first)
      have lastSame : (x :: rest).getLast? = rest.getLast? := by
        cases rest with
        | nil => cases later
        | cons y ys => rfl
      rw [if_neg first, if_neg first, ih nodup.2 later, lastSame]

/-- In a list without repetitions, `c` is followed by `a` exactly when `c` is the last node
before `a`. -/
theorem after_eq_some_iff {pre rest : List α} {a : α} (nodup : (pre ++ a :: rest).Nodup) (c : α) :
    after (pre ++ a :: rest) c = some a ↔ pre.getLast? = some c := by
  have parts := List.nodup_append.mp nodup
  have notPre : a ∉ pre := fun mem => parts.2.2 a mem a List.mem_cons_self rfl
  have notRest : a ∉ rest := (List.nodup_cons.mp parts.2.1).1
  by_cases early : c ∈ pre
  · rw [after_append_of_mem _ parts.1 early]
    by_cases last : pre.getLast? = some c
    · simp [last]
    · rw [if_neg last]
      exact ⟨fun found => absurd (mem_of_after found) notPre,
        fun found => absurd found last⟩
  · rw [after_append_of_not_mem _ early, after_cons]
    constructor
    · intro found
      split at found
      · exact absurd (List.mem_of_mem_head? found) notRest
      · exact absurd (mem_of_after found) notRest
    · intro last
      exact absurd (List.mem_of_getLast? last) early

section Push

/-- Pushing `b` in front: `b->next = head.next; head.next = b`. -/
theorem succ_cons {order : List α} {b : α} (fresh : b ∉ order) :
    succ (b :: order) =
      Function.update (Function.update (succ order) (some b) order.head?) none (some b) := by
  funext x
  cases x with
  | none => simp
  | some c =>
    by_cases same : c = b
    · subst same
      simp [after_cons]
    · simp [after_cons, Ne.symm same, same]

/-- Pushing `b` behind the last node: the node that was last, or the sentinel, is followed by
`b`, and `b` by the sentinel. -/
theorem succ_concat {order : List α} {b : α} (nodup : order.Nodup) (fresh : b ∉ order) :
    succ (order ++ [b]) =
      Function.update (Function.update (succ order) (some b) none) order.getLast? (some b) := by
  funext x
  cases x with
  | none =>
    cases order with
    | nil => simp
    | cons y ys =>
      have notNone : (y :: ys).getLast? ≠ none := by simp
      rw [Function.update_of_ne (Ne.symm notNone), Function.update_of_ne (by simp)]
      rfl
  | some c =>
    by_cases mem : c ∈ order
    · have notB : c ≠ b := fun same => fresh (same ▸ mem)
      rw [succ_some, after_append_of_mem _ nodup mem]
      by_cases last : order.getLast? = some c
      · rw [if_pos last, ← last, Function.update_self]
        rfl
      · rw [if_neg last, Function.update_of_ne (Ne.symm last),
          Function.update_of_ne (by simpa using notB)]
        rfl
    · have notLast : order.getLast? ≠ some c := fun last => mem (List.mem_of_getLast? last)
      rw [succ_some, after_append_of_not_mem _ mem, Function.update_of_ne (Ne.symm notLast)]
      by_cases same : c = b
      · subst same
        simp [after_cons]
      · simp [after_cons, Ne.symm same, same, after_of_not_mem mem]

/-- Pushing a node in front through its pointers, as `binit` and `brelse` do it:
`b->next = head.next; b->prev = head; head.next->prev = b; head.next = b`. Where the pointers
link `order` except at `b`'s own, they then link `b :: order`. -/
theorem links_push {order : List α} {next prev : Option α → Option α} {b : α}
    (nodup : order.Nodup) (fresh : b ∉ order)
    (nextOff : ∀ x, x ≠ some b → next x = succ order x)
    (prevOff : ∀ x, x ≠ some b → prev x = succ order.reverse x) :
    Links (b :: order)
      (Function.update (Function.update next (some b) (next none)) none (some b))
      (Function.update (Function.update prev (some b) none) (next none) (some b)) where
  nodup := List.nodup_cons.mpr ⟨fresh, nodup⟩
  next_eq := by
    rw [succ_cons fresh, nextOff none (by simp)]
    funext x
    by_cases atB : x = some b
    · subst atB
      simp
    · by_cases atHead : x = none
      · subst atHead
        simp
      · rw [Function.update_of_ne atHead, Function.update_of_ne atB, Function.update_of_ne atHead,
          Function.update_of_ne atB, nextOff x atB]
  prev_eq := by
    have reversed : (b :: order).reverse = order.reverse ++ [b] := List.reverse_cons
    rw [reversed, succ_concat (List.nodup_reverse.mpr nodup) (by simpa using fresh),
      nextOff none (by simp), succ_none, ← List.getLast?_reverse]
    funext x
    by_cases atFirst : x = order.reverse.getLast?
    · subst atFirst
      simp
    · rw [Function.update_of_ne atFirst, Function.update_of_ne atFirst]
      by_cases atB : x = some b
      · subst atB
        simp
      · rw [Function.update_of_ne atB, Function.update_of_ne atB, prevOff x atB]

end Push

section Unlink

/-- `prev` inverts `next`: the node before `a` is the one whose successor is `a`. -/
theorem succ_reverse_eq_iff {order : List α} {a : α} (nodup : order.Nodup) (mem : a ∈ order)
    (x : Option α) : succ order.reverse (some a) = x ↔ succ order x = some a := by
  obtain ⟨pre, rest, rfl⟩ := List.append_of_mem mem
  have parts := List.nodup_append.mp nodup
  have notRest : a ∉ rest.reverse := by
    simpa using (List.nodup_cons.mp parts.2.1).1
  have before : succ (pre ++ a :: rest).reverse (some a) = pre.getLast? := by
    rw [List.reverse_append, List.reverse_cons, List.append_assoc, List.singleton_append, succ_some,
      after_append_cons _ notRest, List.head?_reverse]
  rw [before]
  cases x with
  | none =>
    cases pre with
    | nil => simp
    | cons y ys =>
      have notY : y ≠ a := parts.2.2 y List.mem_cons_self a List.mem_cons_self
      simp [notY]
  | some c =>
    rw [succ_some, after_eq_some_iff nodup c]

/-- Unlinking `a` leaves each other node's successor, except that the node before `a` is
followed by the node after it. -/
theorem succ_erase {order : List α} {a : α} (nodup : order.Nodup) (mem : a ∈ order)
    {x : Option α} (other : x ≠ some a) :
    succ (order.erase a) x = if succ order x = some a then succ order (some a) else succ order x := by
  obtain ⟨pre, rest, rfl⟩ := List.append_of_mem mem
  have parts := List.nodup_append.mp nodup
  have notPre : a ∉ pre := fun mem => parts.2.2 a mem a List.mem_cons_self rfl
  have notRest : a ∉ rest := (List.nodup_cons.mp parts.2.1).1
  have erased : (pre ++ a :: rest).erase a = pre ++ rest := by
    rw [List.erase_append_right _ notPre, List.erase_cons_head]
  rw [erased, succ_some, after_append_cons _ notPre]
  cases x with
  | none =>
    cases pre with
    | nil => simp
    | cons y ys =>
      have notY : y ≠ a := fun same => notPre (same ▸ List.mem_cons_self)
      simp [notY]
  | some c =>
    have notA : c ≠ a := by
      rintro rfl
      exact other rfl
    have followed : succ (pre ++ a :: rest) (some c) = some a ↔ pre.getLast? = some c :=
      after_eq_some_iff nodup c
    by_cases last : pre.getLast? = some c
    · have early : c ∈ pre := List.mem_of_getLast? last
      rw [if_pos (followed.mpr last), succ_some, after_append_of_mem _ parts.1 early, if_pos last]
    · rw [if_neg (fun found => last (followed.mp found)), succ_some, succ_some]
      by_cases early : c ∈ pre
      · rw [after_append_of_mem _ parts.1 early, after_append_of_mem _ parts.1 early, if_neg last,
          if_neg last]
      · rw [after_append_of_not_mem _ early, after_append_of_not_mem _ early, after_cons,
          if_neg (Ne.symm notA)]

/-- The reversed order of a list without repetitions, with a node unlinked. -/
theorem reverse_erase {order : List α} (nodup : order.Nodup) (a : α) :
    (order.erase a).reverse = order.reverse.erase a := by
  rw [nodup.erase_eq_filter, (List.nodup_reverse.mpr nodup).erase_eq_filter, List.filter_reverse]

/-- Unlinking `a` through its pointers, as `brelse` does it:
`b->next->prev = b->prev; b->prev->next = b->next`. The pointers then link the list without
`a`, except at `a`'s own. -/
theorem links_unlink {order : List α} {next prev : Option α → Option α} {a : α}
    (links : Links order next prev) (mem : a ∈ order) :
    (∀ x, x ≠ some a →
      Function.update next (prev (some a)) (next (some a)) x = succ (order.erase a) x) ∧
    (∀ x, x ≠ some a →
      Function.update prev (next (some a)) (prev (some a)) x = succ (order.erase a).reverse x) := by
  have revNodup := List.nodup_reverse.mpr links.nodup
  have revMem : a ∈ order.reverse := List.mem_reverse.mpr mem
  constructor
  · intro x other
    rw [succ_erase links.nodup mem other, links.next_eq, links.prev_eq]
    by_cases atBefore : x = succ order.reverse (some a)
    · rw [atBefore, Function.update_self,
        if_pos ((succ_reverse_eq_iff links.nodup mem _).mp rfl)]
    · rw [Function.update_of_ne atBefore,
        if_neg (fun found => atBefore ((succ_reverse_eq_iff links.nodup mem x).mpr found).symm)]
  · intro x other
    have inverse := succ_reverse_eq_iff revNodup revMem x
    rw [List.reverse_reverse] at inverse
    rw [reverse_erase links.nodup, succ_erase revNodup revMem other, links.next_eq,
      links.prev_eq]
    by_cases atAfter : x = succ order (some a)
    · subst atAfter
      rw [Function.update_self, if_pos (inverse.mp rfl)]
    · rw [Function.update_of_ne atAfter, if_neg (fun found => atAfter (inverse.mpr found).symm)]

end Unlink

section Scan

/-- The loop `for (b = start; b != head; b = step(b)) if (test(b)) return b;`, run over at
most `fuel` nodes. -/
def scan (step : Option α → Option α) (test : α → Bool) : Nat → Option α → Option α
  | 0, _ => none
  | _ + 1, none => none
  | fuel + 1, some b => if test b then some b else scan step test fuel (step (some b))

/-- Following the successors from a node visits the rest of the list in order. -/
theorem scan_suffix {test : α → Bool} {pre rest : List α} (nodup : (pre ++ rest).Nodup)
    {fuel : Nat} (enough : rest.length ≤ fuel) :
    scan (succ (pre ++ rest)) test fuel rest.head? = rest.find? test := by
  induction rest generalizing pre fuel with
  | nil =>
    cases fuel <;> rfl
  | cons b rest ih =>
    obtain ⟨fuel, rfl⟩ : ∃ f, fuel = f + 1 := ⟨fuel - 1, by simp at enough; omega⟩
    have notPre : b ∉ pre := fun mem =>
      (List.nodup_append.mp nodup).2.2 b mem b List.mem_cons_self rfl
    have moved : pre ++ b :: rest = (pre ++ [b]) ++ rest := by simp
    simp only [List.head?_cons, scan, List.find?_cons]
    cases test b with
    | true => rfl
    | false =>
      simp only [Bool.false_eq_true, if_false, succ_some, after_append_cons _ notPre]
      rw [moved] at nodup ⊢
      exact ih nodup (by simp at enough; omega)

/-- The loop from the sentinel's successor finds the first node of the list that passes the
test, with fuel for the whole list. -/
theorem scan_eq_find {order : List α} {test : α → Bool} (nodup : order.Nodup) {fuel : Nat}
    (enough : order.length ≤ fuel) :
    scan (succ order) test fuel (succ order none) = order.find? test :=
  @scan_suffix α _ test [] order nodup fuel enough

omit [DecidableEq α] in
/-- The loop returns only a node that passes the test. -/
theorem test_of_scan {step : Option α → Option α} {test : α → Bool} {fuel : Nat}
    {start : Option α} {b : α} (found : scan step test fuel start = some b) : test b = true := by
  induction fuel generalizing start with
  | zero => cases found
  | succ fuel ih =>
    cases start with
    | none => cases found
    | some c =>
      simp only [scan] at found
      split at found
      · cases found
        assumption
      · exact ih found

/-- Unlinking a node that fails the test does not change the first node that passes it. -/
theorem find?_erase_of_not {order : List α} {test : α → Bool} {b : α} (miss : test b = false) :
    (order.erase b).find? test = order.find? test := by
  induction order with
  | nil => rfl
  | cons x rest ih =>
    rw [List.erase_cons]
    by_cases same : x = b
    · subst same
      simp [miss]
    · simp [same, List.find?_cons, ih]

omit [DecidableEq α] in
/-- The only node that passes the test is the first. -/
theorem find?_of_unique {order : List α} {test : α → Bool} {b : α} (mem : b ∈ order)
    (hit : test b = true) (unique : ∀ x ∈ order, test x = true → x = b) :
    order.find? test = some b := by
  induction order with
  | nil => cases mem
  | cons x rest ih =>
    rw [List.find?_cons]
    cases passes : test x with
    | true => rw [unique x List.mem_cons_self passes]
    | false =>
      have other : x ≠ b := fun same => by rw [same, hit] at passes; cases passes
      exact ih ((List.mem_cons.mp mem).resolve_left (Ne.symm other))
        (fun y inside => unique y (List.mem_cons_of_mem _ inside))

omit [DecidableEq α] in
/-- The first node that passes a test is the first that passes a stricter test it passes. -/
theorem find?_of_imp {order : List α} {test test' : α → Bool} {c : α}
    (found : order.find? test = some c) (stricter : ∀ x, test' x = true → test x = true)
    (hit : test' c = true) : order.find? test' = some c := by
  induction order with
  | nil => cases found
  | cons x rest ih =>
    rw [List.find?_cons] at found ⊢
    cases passes : test x with
    | true =>
      rw [passes] at found
      cases found
      rw [hit]
    | false =>
      rw [passes] at found
      have missed : test' x = false := by
        cases h : test' x with
        | false => rfl
        | true => rw [stricter x h] at passes; cases passes
      rw [missed]
      exact ih found

end Scan

end Xv6.DList
