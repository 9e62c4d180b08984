import TreeStore.Library.GuardedRuns

/-!
# Runs with their labels

A run together with the labels of its steps, the last one in front, and the
rule of simulation: a function that does to an abstract state what a step does
to the state tells what any run has done.
-/

namespace GuardedRuns

variable {State Label Abstract : Type}

/-- The states that a run with these labels may reach. -/
inductive Traced (start : State → Prop) (step : Label → State → State → Prop)
    (guard : Label → State → Prop) : List Label → State → Prop
  | initial {state : State} (begins : start state) :
      Traced start step guard [] state
  | next {labels : List Label} {state state' : State} (label : Label)
      (before : Traced start step guard labels state)
      (allowed : guard label state) (moves : step label state state') :
      Traced start step guard (label :: labels) state'

variable {start : State → Prop} {step : Label → State → State → Prop}
  {guard : Label → State → Prop} {labels : List Label} {state : State}

/-- The abstract state after some labels, the last one in front. -/
def after (apply : Label → Abstract → Abstract) (initial : Abstract)
    (labels : List Label) : Abstract :=
  labels.foldr apply initial

/-- If the abstract state follows every step, it follows every run. -/
theorem Traced.simulates {relates : State → Abstract → Prop}
    {apply : Label → Abstract → Abstract} {initial : Abstract}
    (traced : Traced start step guard labels state)
    (initially : ∀ state, start state → relates state initial)
    (preserved : ∀ label state state' abstract, relates state abstract →
      guard label state → step label state state' →
        relates state' (apply label abstract)) :
    relates state (after apply initial labels) := by
  induction traced with
  | initial begins => exact initially _ begins
  | next label _ allowed moves ih =>
      exact preserved label _ _ _ ih allowed moves

end GuardedRuns
