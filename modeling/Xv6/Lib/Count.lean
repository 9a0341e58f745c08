import Mathlib

/-!
# Counting over a finite set of agents

A count over all agents of a system, such as the processes in one place of the code, is a sum
over a finite index set of a weight of each agent's state. When one agent moves, the count
changes by the weights of its old and new states only, and a list collected over all agents
gains or loses only that agent's value.
-/

namespace Xv6

section Counting

variable {ι α : Type} [Fintype ι] [DecidableEq ι]

/-- Moving one index to a new value changes a sum over all indices by the old and new terms. -/
theorem sum_comp_update (g : α → Nat) (f : ι → α) (i : ι) (v : α) :
    ∑ j, g (Function.update f i v j) + g (f i) = ∑ j, g (f j) + g v := by
  have split : ∀ h : ι → Nat, ∑ j, h j = h i + ∑ j ∈ Finset.univ.erase i, h j :=
    fun h => (Finset.add_sum_erase _ _ (Finset.mem_univ i)).symm
  have rest : ∑ j ∈ Finset.univ.erase i, g (Function.update f i v j) =
      ∑ j ∈ Finset.univ.erase i, g (f j) :=
    Finset.sum_congr rfl fun j mem => by rw [Function.update_of_ne (Finset.ne_of_mem_erase mem)]
  rw [split, split fun j => g (f j), rest, Function.update_self]
  omega

end Counting

/-- Collecting the values of a function over distinct indices: where one index gains a value it
did not have, and the others keep theirs, the collection gains that value. -/
theorem filterMap_perm_of_update {ι β : Type} {g g' : ι → Option β} {i : ι} {t : β}
    (was : g i = none) (now : g' i = some t) :
    ∀ {l : List ι}, l.Nodup → i ∈ l → (∀ j, j ∈ l → j ≠ i → g' j = g j) →
      (l.filterMap g').Perm (t :: l.filterMap g)
  | j :: rest, nodup, mem, others => by
    obtain ⟨fresh, nodup⟩ := List.nodup_cons.mp nodup
    have others_rest : ∀ k, k ∈ rest → k ≠ i → g' k = g k :=
      fun k mem' => others k (List.mem_cons_of_mem j mem')
    by_cases same : j = i
    · subst same
      have rest_same : rest.filterMap g' = rest.filterMap g :=
        List.filterMap_congr fun k mem' => others_rest k mem' fun eq => fresh (eq ▸ mem')
      rw [List.filterMap_cons_some now, List.filterMap_cons_none was, rest_same]
    · have ih := filterMap_perm_of_update was now nodup
        ((List.mem_cons.mp mem).resolve_left (Ne.symm same)) others_rest
      rw [List.filterMap_cons, List.filterMap_cons, others j List.mem_cons_self same]
      cases g j with
      | none => exact ih
      | some b => exact (ih.cons b).trans (List.Perm.swap t b _)

end Xv6
