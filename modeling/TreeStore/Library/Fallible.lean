import Mathlib.Tactic

/-!
# Programs that may fail

A program changes a state and ends with a result or without one; the state stays
when it fails.  What is left of its input never grows, which the type of the
programs says, and so a loop ends whose rounds each use some of the input up.
-/

/-- Programs over `σ` with results in `α`; `size` measures what is left. -/
structure Fallible {σ : Type} (size : σ → Nat) (α : Type) where
  run : σ → Option α × σ
  shrinks : ∀ state, size (run state).2 ≤ size state

namespace Fallible

variable {σ α β γ : Type} {size : σ → Nat}

@[ext]
theorem ext {first second : Fallible size α}
    (same : ∀ state, first.run state = second.run state) : first = second := by
  cases first
  cases second
  congr
  exact funext same

/-- The rest of a sequence, if there is a result to go on with. -/
def continueWith (next : α → Fallible size β) :
    Option α × σ → Option β × σ
  | (some result, state) => (next result).run state
  | (none, state) => (none, state)

theorem size_continueWith_le (next : α → Fallible size β)
    (outcome : Option α × σ) :
    size (continueWith next outcome).2 ≤ size outcome.2 := by
  rcases outcome with ⟨result, state⟩
  cases result with
  | none => exact le_refl _
  | some result => exact (next result).shrinks state

instance : Monad (Fallible size) where
  pure result := ⟨fun state => (some result, state), fun _ => le_refl _⟩
  bind program next :=
    ⟨fun state => continueWith next (program.run state), fun state =>
      (size_continueWith_le next _).trans (program.shrinks state)⟩

@[simp]
theorem run_pure (result : α) (state : σ) :
    (pure result : Fallible size α).run state = (some result, state) :=
  rfl

theorem run_bind (program : Fallible size α) (next : α → Fallible size β)
    (state : σ) :
    (program >>= next).run state = continueWith next (program.run state) :=
  rfl

theorem run_bind_some {program : Fallible size α} {state state' : σ}
    {result : α} (ran : program.run state = (some result, state'))
    (next : α → Fallible size β) :
    (program >>= next).run state = (next result).run state' := by
  rw [run_bind, ran]
  rfl

theorem run_bind_none {program : Fallible size α} {state state' : σ}
    (ran : program.run state = (none, state'))
    (next : α → Fallible size β) :
    (program >>= next).run state = (none, state') := by
  rw [run_bind, ran]
  rfl

/-- A sequence has a result only where both parts have one. -/
theorem bind_eq_some {program : Fallible size α} {next : α → Fallible size β}
    {state state' : σ} {result : β}
    (ran : (program >>= next).run state = (some result, state')) :
    ∃ first middle, program.run state = (some first, middle) ∧
      (next first).run middle = (some result, state') := by
  cases before : program.run state with
  | mk outcome middle =>
      rw [run_bind, before] at ran
      cases outcome with
      | none => cases ran
      | some first => exact ⟨first, middle, rfl, ran⟩

theorem size_le_of_run {program : Fallible size α} {state state' : σ}
    {outcome : Option α} (ran : program.run state = (outcome, state')) :
    size state' ≤ size state := by
  have shrinks := program.shrinks state
  rwa [ran] at shrinks

/-- A result is only had for some of the input. -/
def Consumes (program : Fallible size α) : Prop :=
  ∀ state state' result, program.run state = (some result, state') →
    size state' < size state

theorem Consumes.bind {program : Fallible size α}
    (consumes : program.Consumes) (next : α → Fallible size β) :
    (program >>= next).Consumes := by
  intro state state' result ran
  obtain ⟨first, middle, before, rest⟩ := bind_eq_some ran
  exact (size_le_of_run rest).trans_lt (consumes state middle first before)

section Loop

/-- Each round of a loop either ends it, with `Sum.inr`, or uses input up. -/
def Progresses (round : β → Fallible size (β ⊕ γ)) : Prop :=
  ∀ before state after state',
    (round before).run state = (some (Sum.inl after), state') →
      size state' < size state

theorem Consumes.progresses {round : β → Fallible size (β ⊕ γ)}
    (consumes : ∀ before, (round before).Consumes) : Progresses round :=
  fun before state after state' ran =>
    consumes before state state' (Sum.inl after) ran

variable {round : β → Fallible size (β ⊕ γ)}

/-- The outcome of a loop, and that it used no more than the input. -/
def runLoop (progresses : Progresses round) (before : β) (state : σ) :
    { outcome : Option γ × σ // size outcome.2 ≤ size state } :=
  match ran : (round before).run state with
  | (none, state') => ⟨(none, state'), size_le_of_run ran⟩
  | (some (.inr result), state') => ⟨(some result, state'), size_le_of_run ran⟩
  | (some (.inl after), state') =>
      have less := progresses before state after state' ran
      let rest := runLoop progresses after state'
      ⟨rest.1, rest.2.trans less.le⟩
termination_by size state

/-- The loop `while (1)` over its rounds. -/
def loop (progresses : Progresses round) (before : β) : Fallible size γ where
  run state := (runLoop progresses before state).1
  shrinks state := (runLoop progresses before state).2

variable (progresses : Progresses round) {before : β} {state state' : σ}

theorem run_loop_none (ran : (round before).run state = (none, state')) :
    (loop progresses before).run state = (none, state') := by
  unfold loop
  dsimp only
  rw [runLoop]
  split
  · next other => rw [ran] at other; cases other; rfl
  · next other => rw [ran] at other; cases other
  · next other => rw [ran] at other; cases other

theorem run_loop_inr {result : γ}
    (ran : (round before).run state = (some (Sum.inr result), state')) :
    (loop progresses before).run state = (some result, state') := by
  unfold loop
  dsimp only
  rw [runLoop]
  split
  · next other => rw [ran] at other; cases other
  · next other => rw [ran] at other; cases other; rfl
  · next other => rw [ran] at other; cases other

theorem run_loop_inl {after : β}
    (ran : (round before).run state = (some (Sum.inl after), state')) :
    (loop progresses before).run state =
      (loop progresses after).run state' := by
  unfold loop
  dsimp only
  rw [runLoop]
  split
  · next other => rw [ran] at other; cases other
  · next other => rw [ran] at other; cases other
  · next other => rw [ran] at other; cases other; rfl

/-- The first round of a loop that ends with a result. -/
theorem loop_eq_some {result : γ}
    (ran : (loop progresses before).run state = (some result, state')) :
    (round before).run state = (some (Sum.inr result), state') ∨
      ∃ after middle,
        (round before).run state = (some (Sum.inl after), middle) ∧
        (loop progresses after).run middle = (some result, state') := by
  cases first : (round before).run state with
  | mk outcome middle =>
      cases outcome with
      | none =>
          rw [run_loop_none progresses first] at ran
          cases ran
      | some outcome =>
          cases outcome with
          | inl after =>
              rw [run_loop_inl progresses first] at ran
              exact Or.inr ⟨after, middle, rfl, ran⟩
          | inr other =>
              rw [run_loop_inr progresses first] at ran
              cases ran
              exact Or.inl rfl

/-- A relation between where a loop starts and how it ends: it holds where a
round ends the loop, and otherwise follows from the rest of the loop. -/
theorem loop_induction {motive : β → σ → γ → σ → Prop} {result : γ}
    (ended : ∀ before state result state',
      (round before).run state = (some (Sum.inr result), state') →
        motive before state result state')
    (goes : ∀ before state after middle result state',
      (round before).run state = (some (Sum.inl after), middle) →
        motive after middle result state' →
          motive before state result state')
    (ran : (loop progresses before).run state = (some result, state')) :
    motive before state result state' := by
  induction count : size state using Nat.strong_induction_on
    generalizing before state with
  | _ count ih =>
      subst count
      rcases loop_eq_some progresses ran with last | ⟨after, middle, first, rest⟩
      · exact ended before state result state' last
      · exact goes before state after middle result state' first
          (ih _ (progresses before state after middle first) rest rfl)

/-- What holds before the loop and is preserved by every round that goes on
holds before the round that ends it. -/
theorem loop_invariant {invariant : β → σ → Prop} {result : γ}
    (preserved : ∀ before state after state', invariant before state →
      (round before).run state = (some (Sum.inl after), state') →
        invariant after state')
    (holds : invariant before state)
    (ran : (loop progresses before).run state = (some result, state')) :
    ∃ final middle, invariant final middle ∧
      (round final).run middle = (some (Sum.inr result), state') := by
  revert holds
  apply @loop_induction _ _ _ _ _ progresses before state state'
    (fun before state result state' => invariant before state →
      ∃ final middle, invariant final middle ∧
        (round final).run middle = (some (Sum.inr result), state')) result _ _
    ran
  · intro before state result state' last holds
    exact ⟨before, state, holds, last⟩
  · intro before state after middle result state' first rest holds
    exact rest (preserved before state after middle holds first)

end Loop

end Fallible
