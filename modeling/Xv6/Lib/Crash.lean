import Mathlib

/-!
# Atomic writes, crashes and recovery

A store holds a value at every address. A program is a list of steps; each step reads the store
as it stands and writes one address, atomically. A crash stops a program after any prefix of its
steps. A recovery procedure chooses its steps from the store it starts on, and may itself crash
and be rerun any number of times before one attempt completes.

The rules here are the ones the crash proofs use: a program runs as the fold of its steps; a run
of two programs splits at a crash point; an address that no step writes keeps its value; a
program that copies values into distinct addresses from addresses it does not write leaves each
copy in place; and a recovery whose every prefix keeps a property, and whose complete run
establishes a goal from it, establishes the goal after any number of crashed attempts.
-/

namespace Xv6.Crash

variable {α β : Type} [DecidableEq α]

/-- One atomic write, computed from the store as it stands: the address and its new value. -/
abbrev Step (α β : Type) := (α → β) → α × β

/-- The store after a step. -/
def Step.apply (step : Step α β) (store : α → β) : α → β :=
  Function.update store (step store).1 (step store).2

/-- The store after the steps of a program, in order. -/
def exec (program : List (Step α β)) (store : α → β) : α → β :=
  program.foldl (fun store step => step.apply store) store

@[simp] theorem exec_nil (store : α → β) : exec [] store = store := rfl

@[simp] theorem exec_cons (step : Step α β) (program : List (Step α β)) (store : α → β) :
    exec (step :: program) store = exec program (step.apply store) := rfl

theorem exec_append (first second : List (Step α β)) (store : α → β) :
    exec (first ++ second) store = exec second (exec first store) :=
  List.foldl_append

/-- A crash inside two programs run one after the other: the steps of the first up to the crash
point, then those of the second that the crash point reaches. -/
theorem exec_take_append (first second : List (Step α β)) (count : Nat) (store : α → β) :
    exec ((first ++ second).take count) store =
      exec (second.take (count - first.length)) (exec (first.take count) store) := by
  rw [List.take_append, exec_append]

/-- A crash within the first of two programs. -/
theorem exec_take_append_of_le {first : List (Step α β)} (second : List (Step α β)) {count : Nat}
    (within : count ≤ first.length) (store : α → β) :
    exec ((first ++ second).take count) store = exec (first.take count) store := by
  rw [List.take_append_of_le_length within]

/-- A crash within the second of two programs, after the whole first. -/
theorem exec_take_append_of_ge {first : List (Step α β)} (second : List (Step α β)) {count : Nat}
    (past : first.length ≤ count) (store : α → β) :
    exec ((first ++ second).take count) store =
      exec (second.take (count - first.length)) (exec first store) := by
  rw [exec_take_append, List.take_of_length_le past]

/-- A property that holds after every prefix of two programs, the second one run from where
the whole first one ends, holds after every prefix of both run one after the other. -/
theorem exec_take_append_of_prefixes {holds : (α → β) → Prop} {first second : List (Step α β)}
    {store : α → β} (early : ∀ count, holds (exec (first.take count) store))
    (late : ∀ count, holds (exec (second.take count) (exec first store))) (count : Nat) :
    holds (exec ((first ++ second).take count) store) := by
  by_cases within : count ≤ first.length
  · rw [exec_take_append_of_le second within]
    exact early count
  · rw [exec_take_append_of_ge second (Nat.le_of_not_le within)]
    exact late _

/-- A crash in a one-step program leaves the store as it was or as the step leaves it. -/
theorem exec_take_singleton (step : Step α β) (count : Nat) (store : α → β) :
    exec ([step].take count) store = store ∨ exec ([step].take count) store = step.apply store := by
  cases count with
  | zero => exact Or.inl rfl
  | succ count =>
    rw [List.take_succ_cons, List.take_nil]
    exact Or.inr rfl

/-- A step that writes another address leaves this one. -/
theorem Step.apply_of_ne {step : Step α β} {store : α → β} {address : α}
    (other : (step store).1 ≠ address) : step.apply store address = store address :=
  Function.update_of_ne (Ne.symm other) _ _

/-- An address that no step of the program writes keeps its value. -/
theorem exec_of_unwritten {program : List (Step α β)} {address : α}
    (unwritten : ∀ step ∈ program, ∀ store, (step store).1 ≠ address) (store : α → β) :
    exec program store address = store address := by
  induction program generalizing store with
  | nil => rfl
  | cons step program ih =>
    rw [exec_cons, ih (fun step' mem => unwritten step' (List.mem_cons_of_mem _ mem)),
      Step.apply_of_ne (unwritten step List.mem_cons_self store)]

/-- A property that every step of a program keeps holds after every prefix of it. -/
theorem exec_take_of_keeps {holds : (α → β) → Prop} {program : List (Step α β)}
    (keeps : ∀ step ∈ program, ∀ store, holds store → holds (step.apply store))
    (count : Nat) {store : α → β} (start : holds store) :
    holds (exec (program.take count) store) := by
  induction program generalizing count store with
  | nil => simpa using start
  | cons step program ih =>
    cases count with
    | zero => exact start
    | succ count =>
      rw [List.take_succ_cons, exec_cons]
      exact ih (fun step' mem => keeps step' (List.mem_cons_of_mem _ mem)) count
        (keeps step List.mem_cons_self store start)

/-- A property that every step of a program keeps holds after the program. -/
theorem exec_of_keeps {holds : (α → β) → Prop} {program : List (Step α β)}
    (keeps : ∀ step ∈ program, ∀ store, holds store → holds (step.apply store))
    {store : α → β} (start : holds store) : holds (exec program store) := by
  simpa using exec_take_of_keeps keeps program.length start

section Copy

variable {ι : Type}

/-- The program that writes `value i` to `target i` for each index in turn. -/
def copies (indices : List ι) (target : ι → α) (value : ι → (α → β) → β) : List (Step α β) :=
  indices.map fun i store => (target i, value i store)

omit [DecidableEq α] in
@[simp] theorem copies_length (indices : List ι) (target : ι → α) (value : ι → (α → β) → β) :
    (copies indices target value).length = indices.length :=
  List.length_map _

/-- Each step of a copy writes one target with its value. -/
theorem apply_of_mem_copies {indices : List ι} {target : ι → α} {value : ι → (α → β) → β}
    {step : Step α β} (mem : step ∈ copies indices target value) :
    ∃ i ∈ indices, ∀ store, step.apply store = Function.update store (target i) (value i store) := by
  obtain ⟨i, inside, rfl⟩ := List.mem_map.mp mem
  exact ⟨i, inside, fun _ => rfl⟩

/-- An address outside the targets keeps its value. -/
theorem exec_copies_of_not_mem {indices : List ι} {target : ι → α} {value : ι → (α → β) → β}
    {address : α} (outside : ∀ i ∈ indices, target i ≠ address) (store : α → β) :
    exec (copies indices target value) store address = store address := by
  apply exec_of_unwritten
  intro step mem _
  obtain ⟨i, inside, rfl⟩ := List.mem_map.mp mem
  exact outside i inside

/-- With distinct targets, and values read from addresses that no step writes, each target holds its
value as read from the store before the program. The first step writes the target, and no later step
writes it again. -/
theorem exec_copies_target {indices : List ι} {target : ι → α} {value : ι → (α → β) → β}
    (distinct : (indices.map target).Nodup)
    (unread : ∀ i ∈ indices, ∀ j ∈ indices, ∀ store v,
      value i (Function.update store (target j) v) = value i store)
    {i : ι} (inside : i ∈ indices) (store : α → β) :
    exec (copies indices target value) store (target i) = value i store := by
  induction indices generalizing store with
  | nil => cases inside
  | cons j indices ih =>
    rw [List.map_cons, List.nodup_cons] at distinct
    have unreadRest : ∀ i ∈ indices, ∀ j ∈ indices, ∀ store v,
        value i (Function.update store (target j) v) = value i store :=
      fun i mem j mem' => unread i (List.mem_cons_of_mem _ mem) j (List.mem_cons_of_mem _ mem')
    simp only [copies, List.map_cons, exec_cons]
    rcases List.mem_cons.mp inside with rfl | later
    · have untouched : ∀ k ∈ indices, target k ≠ target i := fun k mem same =>
        distinct.1 (same ▸ List.mem_map_of_mem mem)
      rw [← copies, exec_copies_of_not_mem untouched]
      exact Function.update_self _ _ _
    · rw [← copies, ih distinct.2 unreadRest later]
      exact unread i inside j List.mem_cons_self store _

end Copy

section Recovery

/-- Recovery with crashes: an attempt for each crash point, stopped after that many steps, then
one complete attempt. Each attempt chooses its steps from the store it starts on. -/
def recover (procedure : (α → β) → List (Step α β)) : List Nat → (α → β) → α → β
  | [], store => exec (procedure store) store
  | count :: crashes, store => recover procedure crashes (exec ((procedure store).take count) store)

/-- A recovery whose every stopped attempt keeps a property, and whose complete attempt turns it
into a goal, reaches the goal however often it crashes first. -/
theorem recover_of_prefixes {procedure : (α → β) → List (Step α β)}
    {holds goal : (α → β) → Prop}
    (stopped : ∀ store count, holds store → holds (exec ((procedure store).take count) store))
    (completes : ∀ store, holds store → goal (exec (procedure store) store))
    (crashes : List Nat) {store : α → β} (start : holds store) :
    goal (recover procedure crashes store) := by
  induction crashes generalizing store with
  | nil => exact completes store start
  | cons count crashes ih => exact ih (stopped store count start)

end Recovery

end Xv6.Crash
