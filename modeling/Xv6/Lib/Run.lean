import Mathlib

/-!
# Runs of a step function

A system is a step function from a state and an event to the next state. An event that the
current state does not allow leaves the state as it is, so every list of events is a run.
The rules here are the ones every invariant and every temporal fact of the development is
proved with: a predicate that every step keeps holds after every run, a predicate kept under a
second, already established invariant holds of every reachable state, and a relation between
two systems that every event keeps holds after the same events. What a run shows, step by step,
is its trace, read from the states around each step or from each state and its event; a
property of a state and the trace so far that every step keeps holds of every run and its whole
trace.
-/

namespace Xv6.Run

variable {σ α : Type}

/-- The state after the events, in order. -/
def run (step : σ → α → σ) (start : σ) (events : List α) : σ :=
  events.foldl step start

@[simp] theorem run_nil (step : σ → α → σ) (start : σ) : run step start [] = start := rfl

@[simp] theorem run_cons (step : σ → α → σ) (start : σ) (event : α) (events : List α) :
    run step start (event :: events) = run step (step start event) events := rfl

/-- A run of two parts is the second part run from where the first ends. -/
theorem run_append (step : σ → α → σ) (start : σ) (first second : List α) :
    run step start (first ++ second) = run step (run step start first) second :=
  List.foldl_append

/-- A run ending in one more event is that event after the run. -/
theorem run_concat (step : σ → α → σ) (start : σ) (events : List α) (event : α) :
    run step start (events ++ [event]) = step (run step start events) event := by
  rw [run_append]
  rfl

/-- A predicate that every step keeps. -/
def Invariant (step : σ → α → σ) (holds : σ → Prop) : Prop :=
  ∀ state event, holds state → holds (step state event)

/-- A predicate every step keeps holds after every run from a state where it holds. -/
theorem Invariant.run {step : σ → α → σ} {holds : σ → Prop} (kept : Invariant step holds)
    {start : σ} (initial : holds start) (events : List α) : holds (run step start events) := by
  induction events generalizing start with
  | nil => exact initial
  | cons event events ih => exact ih (kept start event initial)

/-- Two kept predicates are kept together. -/
theorem Invariant.and {step : σ → α → σ} {first second : σ → Prop}
    (keepsFirst : Invariant step first) (keepsSecond : Invariant step second) :
    Invariant step fun state => first state ∧ second state :=
  fun state event both => ⟨keepsFirst state event both.1, keepsSecond state event both.2⟩

/-- States some run from the start reaches. -/
def Reachable (step : σ → α → σ) (start state : σ) : Prop :=
  ∃ events, run step start events = state

/-- The start is reachable. -/
theorem Reachable.refl (step : σ → α → σ) (start : σ) : Reachable step start start :=
  ⟨[], rfl⟩

/-- One more event keeps a state reachable. -/
theorem Reachable.step {step : σ → α → σ} {start state : σ} (reached : Reachable step start state)
    (event : α) : Reachable step start (step state event) := by
  obtain ⟨events, rfl⟩ := reached
  exact ⟨events ++ [event], run_concat step start events event⟩

/-- A run from a reachable state ends in a reachable state. -/
theorem Reachable.run {step : σ → α → σ} {start state : σ} (reached : Reachable step start state)
    (events : List α) : Reachable step start (Run.run step state events) := by
  obtain ⟨first, rfl⟩ := reached
  exact ⟨first ++ events, run_append step start first events⟩

/-- A kept predicate that holds at the start holds in every reachable state. -/
theorem Invariant.reachable {step : σ → α → σ} {holds : σ → Prop} (kept : Invariant step holds)
    {start : σ} (initial : holds start) {state : σ} (reached : Reachable step start state) :
    holds state := by
  obtain ⟨events, rfl⟩ := reached
  exact kept.run initial events

/-- A predicate kept by every step from a state where a second invariant also holds is an
invariant of every reachable state. -/
theorem reachable_of_guarded {step : σ → α → σ} {guard holds : σ → Prop}
    (keepsGuard : Invariant step guard)
    (kept : ∀ state event, guard state → holds state → holds (step state event))
    {start : σ} (guardStart : guard start) (initial : holds start) {state : σ}
    (reached : Reachable step start state) : holds state := by
  have together : Invariant step fun state => guard state ∧ holds state :=
    fun state event both => ⟨keepsGuard state event both.1, kept state event both.1 both.2⟩
  exact (together.reachable ⟨guardStart, initial⟩ reached).2

/-- A relation between the states of two systems that each event keeps, one system's step
against the other's, holds between their states after the same events: the second system
simulates the first. -/
theorem run_simulation {τ : Type} {step : σ → α → σ} {spec : τ → α → τ}
    {related : σ → τ → Prop}
    (kept : ∀ state abstract event, related state abstract →
      related (step state event) (spec abstract event))
    {start : σ} {abstractStart : τ} (initial : related start abstractStart) (events : List α) :
    related (run step start events) (run spec abstractStart events) := by
  induction events generalizing start abstractStart with
  | nil => exact initial
  | cons event events ih => exact ih (kept start abstractStart event initial)

/-- What a run shows: what each step shows, from its state before and after, in order. -/
def trace {β : Type} (step : σ → α → σ) (observe : σ → σ → List β) : σ → List α → List β
  | _, [] => []
  | state, event :: events =>
    observe state (step state event) ++ trace step observe (step state event) events

/-- What a run shows when each step shows something of its state and its event, in order. -/
def eventTrace {β : Type} (step : σ → α → σ) (observe : σ → α → List β) : σ → List α → List β
  | _, [] => []
  | state, event :: events =>
    observe state event ++ eventTrace step observe (step state event) events

/-- A property of a state and of what the run has shown so far, kept by every step, holds
after every run together with its whole trace. -/
theorem eventTrace_invariant {β : Type} {step : σ → α → σ} {observe : σ → α → List β}
    {holds : σ → List β → Prop}
    (kept : ∀ state shown event, holds state shown →
      holds (step state event) (shown ++ observe state event))
    {start : σ} {shown : List β} (initial : holds start shown) (events : List α) :
    holds (run step start events) (shown ++ eventTrace step observe start events) := by
  induction events generalizing start shown with
  | nil => simpa [eventTrace] using initial
  | cons event events ih =>
    have next := ih (kept start shown event initial)
    simpa [eventTrace, List.append_assoc] using next

end Xv6.Run
