import Mathlib.Logic.Basic

/-!
# Runs whose steps are guarded

A transition system has initial states and labelled steps.  A run may be
restricted by a guard on each step, which sees the state before it.  This file
gives the states that such runs reach, and the rule that proves an invariant of
all of them.
-/

namespace GuardedRuns

variable {State Label : Type}

/-- The states that a run reaches when each of its steps meets the guard. -/
inductive Reached (start : State → Prop) (step : Label → State → State → Prop)
    (guard : Label → State → Prop) : State → Prop
  | initial {state : State} (begins : start state) :
      Reached start step guard state
  | next {state state' : State} (label : Label)
      (before : Reached start step guard state) (allowed : guard label state)
      (moves : step label state state') : Reached start step guard state'

variable {start : State → Prop} {step : Label → State → State → Prop}
  {guard guard' : Label → State → Prop}

/-- What holds at the start and is preserved by every guarded step holds
throughout. -/
theorem Reached.invariant {invariant : State → Prop} {state : State}
    (reached : Reached start step guard state)
    (initially : ∀ state, start state → invariant state)
    (preserved : ∀ label state state', invariant state → guard label state →
      step label state state' → invariant state') : invariant state := by
  induction reached with
  | initial begins => exact initially _ begins
  | next label _ allowed moves ih => exact preserved _ _ _ ih allowed moves

/-- A weaker guard allows more runs. -/
theorem Reached.mono {state : State}
    (reached : Reached start step guard state)
    (weaker : ∀ label state, guard label state → guard' label state) :
    Reached start step guard' state := by
  induction reached with
  | initial begins => exact .initial begins
  | next label _ allowed moves ih => exact .next label ih (weaker _ _ allowed) moves

end GuardedRuns
