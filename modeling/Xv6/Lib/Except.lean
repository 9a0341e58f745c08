/-!
# Binds in Except

A computation in `Except` that returned a value ran its first part to a value and went on from
it, and one that starts from a value or an error goes on with it or stops. These rules take a
`do` block apart one bind at a time, so that a proof about a function built of binds follows
its steps without unfolding the monad.
-/

namespace Xv6.Except

variable {ε α β : Type}

/-- A bind that returned a value ran its first part to a value and went on from it. -/
theorem bind_eq_ok {first : Except ε α} {next : α → Except ε β} {b : β}
    (returned : first >>= next = .ok b) : ∃ a, first = .ok a ∧ next a = .ok b := by
  cases first with
  | error e => cases returned
  | ok a => exact ⟨a, rfl, returned⟩

@[simp] theorem ok_bind (a : α) (next : α → Except ε β) :
    (Except.ok a >>= next) = next a := rfl

@[simp] theorem error_bind (e : ε) (next : α → Except ε β) :
    (Except.error e >>= next) = .error e := rfl

end Xv6.Except
