import Mathlib.Tactic

/-!
# Weakest preconditions for stateful programs that can fault

A program over a state `σ` that either faults or returns a result is a value
of `StateT σ (Except ε) α`.  This file fixes the total-correctness weakest
precondition of such a program, the rules that compute it along the monad
operations, and the invariant rules for loops over a range of indices.
-/

namespace ProgramLogic

variable {σ ε α β : Type}

/-- Running `program` from `state` returns without fault, and the result and
the final state satisfy `post`. -/
def wp (program : StateT σ (Except ε) α) (post : α → σ → Prop)
    (state : σ) : Prop :=
  ∃ result final, program.run state = .ok (result, final) ∧
    post result final

section Rules

variable {post post' : α → σ → Prop} {state : σ}

theorem wp_mono {program : StateT σ (Except ε) α}
    (holds : wp program post state)
    (weaker : ∀ result final, post result final → post' result final) :
    wp program post' state := by
  obtain ⟨result, final, runs, satisfied⟩ := holds
  exact ⟨result, final, runs, weaker result final satisfied⟩

@[simp]
theorem wp_pure (result : α) :
    wp (pure result : StateT σ (Except ε) α) post state ↔
      post result state := by
  constructor
  · rintro ⟨result', final, runs, satisfied⟩
    cases runs
    exact satisfied
  · intro satisfied
    exact ⟨result, state, rfl, satisfied⟩

@[simp]
theorem wp_bind {program : StateT σ (Except ε) β}
    {next : β → StateT σ (Except ε) α} :
    wp (program >>= next) post state ↔
      wp program (fun result middle => wp (next result) post middle) state := by
  simp only [wp, StateT.run_bind]
  cases ran : program.run state with
  | error fault => simp [bind, Except.bind]
  | ok outcome =>
      obtain ⟨result, middle⟩ := outcome
      simp [bind, Except.bind]

/-- The sequencing rule in the form a proof uses it: first the callee's
specification, then the rest of the program. -/
theorem wp_bind_of {program : StateT σ (Except ε) β}
    {next : β → StateT σ (Except ε) α} {between : β → σ → Prop}
    (first : wp program between state)
    (rest : ∀ result middle, between result middle →
      wp (next result) post middle) :
    wp (program >>= next) post state :=
  wp_bind.mpr (wp_mono first rest)

@[simp]
theorem wp_map {program : StateT σ (Except ε) β} {function : β → α} :
    wp (function <$> program) post state ↔
      wp program (fun result final => post (function result) final) state := by
  rw [← bind_pure_comp, wp_bind]
  simp

@[simp]
theorem wp_throw (fault : ε) :
    ¬ wp (throw fault : StateT σ (Except ε) α) post state := by
  rintro ⟨result, final, runs, -⟩
  cases runs

@[simp]
theorem wp_get {post : σ → σ → Prop} :
    wp (get : StateT σ (Except ε) σ) post state ↔ post state state := by
  constructor
  · rintro ⟨result, final, runs, satisfied⟩
    cases runs
    exact satisfied
  · intro satisfied
    exact ⟨state, state, rfl, satisfied⟩

@[simp]
theorem wp_modify {post : PUnit → σ → Prop} (update : σ → σ) :
    wp (modify update : StateT σ (Except ε) PUnit) post state ↔
      post ⟨⟩ (update state) := by
  constructor
  · rintro ⟨result, final, runs, satisfied⟩
    cases runs
    exact satisfied
  · intro satisfied
    exact ⟨⟨⟩, update state, rfl, satisfied⟩

@[simp]
theorem wp_modifyGet (update : σ → α × σ) :
    wp (modifyGet update : StateT σ (Except ε) α) post state ↔
      post (update state).1 (update state).2 := by
  have runs : (modifyGet update : StateT σ (Except ε) α).run state =
      .ok (update state) := rfl
  simp [wp, runs, Prod.ext_iff]

theorem wp_ite {condition : Prop} [Decidable condition]
    {first second : StateT σ (Except ε) α}
    (holds : condition → wp first post state)
    (fails : ¬ condition → wp second post state) :
    wp (if condition then first else second) post state := by
  by_cases decided : condition
  · rw [if_pos decided]
    exact holds decided
  · rw [if_neg decided]
    exact fails decided

/-- Programs are deterministic: two satisfied postconditions hold of the same
outcome. -/
theorem wp_and {program : StateT σ (Except ε) α}
    (first : wp program post state) (second : wp program post' state) :
    wp program (fun result final =>
      post result final ∧ post' result final) state := by
  obtain ⟨result, final, runs, satisfied⟩ := first
  obtain ⟨result', final', runs', satisfied'⟩ := second
  rw [runs] at runs'
  cases runs'
  exact ⟨result, final, runs, satisfied, satisfied'⟩

/-- After a first part whose run is known, the rest runs. -/
theorem run_bind_of {program : StateT σ (Except ε) β}
    {next : β → StateT σ (Except ε) α} {between : β} {middle : σ}
    (ran : program.run state = .ok (between, middle)) :
    (program >>= next).run state = (next between).run middle := by
  rw [StateT.run_bind, ran]
  rfl

/-- A sequence that returns has run its first part. -/
theorem exists_of_run_bind {program : StateT σ (Except ε) β}
    {next : β → StateT σ (Except ε) α} {result : α} {final : σ}
    (runs : (program >>= next).run state = .ok (result, final)) :
    ∃ between middle, program.run state = .ok (between, middle) ∧
      (next between).run middle = .ok (result, final) := by
  rw [StateT.run_bind] at runs
  cases ran : program.run state with
  | error fault =>
      rw [ran] at runs
      cases runs
  | ok outcome =>
      obtain ⟨between, middle⟩ := outcome
      rw [ran] at runs
      exact ⟨between, middle, rfl, runs⟩

/-- A postcondition that a known outcome decides. -/
theorem wp_iff_of {program : StateT σ (Except ε) α} {decided : Prop}
    (known : wp program post state)
    (decides : ∀ result final, post result final →
      (post' result final ↔ decided)) : wp program post' state ↔ decided := by
  constructor
  · intro holds
    obtain ⟨result, final, -, first, second⟩ := wp_and known holds
    exact (decides result final first).mp second
  · intro holds
    exact wp_mono known fun result final first =>
      (decides result final first).mpr holds

/-- The first part of a sequence has an outcome from which the rest goes on. -/
theorem wp_bind_elim {program : StateT σ (Except ε) β}
    {next : β → StateT σ (Except ε) α} {between : β → σ → Prop}
    (holds : wp (program >>= next) post state)
    (first : wp program between state) :
    ∃ result middle, between result middle ∧
      wp (next result) post middle := by
  obtain ⟨result, middle, -, rest, known⟩ := wp_and (wp_bind.mp holds) first
  exact ⟨result, middle, known, rest⟩

/-- What holds of the outcome of a run that is known. -/
theorem wp_of_run {program : StateT σ (Except ε) α} {result : α} {final : σ}
    (holds : wp program post state)
    (runs : program.run state = .ok (result, final)) : post result final := by
  obtain ⟨result', final', runs', satisfied⟩ := holds
  rw [runs] at runs'
  cases runs'
  exact satisfied

theorem wp_iff_of_run {program : StateT σ (Except ε) α} {result : α}
    {final : σ} (runs : program.run state = .ok (result, final)) :
    wp program post state ↔ post result final :=
  ⟨fun holds => wp_of_run holds runs, fun holds => ⟨result, final, runs, holds⟩⟩

end Rules

section Faults

/-- Running `program` from `state` ends in a result that satisfies `post`, or in
a fault that satisfies `faulty`. -/
def ends (program : StateT σ (Except ε) α) (post : α → σ → Prop)
    (faulty : ε → Prop) (state : σ) : Prop :=
  wp program post state ∨
    ∃ fault, program.run state = .error fault ∧ faulty fault

variable {post post' : α → σ → Prop} {faulty faulty' : ε → Prop} {state : σ}

theorem ends_of_wp {program : StateT σ (Except ε) α}
    (holds : wp program post state) : ends program post faulty state :=
  Or.inl holds

theorem ends_of_run {program : StateT σ (Except ε) α} {result : α} {final : σ}
    (holds : ends program post faulty state)
    (runs : program.run state = .ok (result, final)) : post result final := by
  rcases holds with returns | ⟨fault, faults, -⟩
  · exact wp_of_run returns runs
  · rw [runs] at faults
    cases faults

theorem ends_of_error {program : StateT σ (Except ε) α} {fault : ε}
    (holds : ends program post faulty state)
    (faults : program.run state = .error fault) : faulty fault := by
  rcases holds with ⟨result, final, runs, -⟩ | ⟨other, faults', satisfied⟩
  · rw [faults] at runs
    cases runs
  · rw [faults] at faults'
    cases faults'
    exact satisfied

/-- What is shown may use how the run ended. -/
theorem ends_intro {program : StateT σ (Except ε) α}
    (returns : ∀ result final, program.run state = .ok (result, final) →
      post result final)
    (faults : ∀ fault, program.run state = .error fault → faulty fault) :
    ends program post faulty state := by
  cases ran : program.run state with
  | error fault => exact Or.inr ⟨fault, ran, faults fault ran⟩
  | ok outcome =>
      obtain ⟨result, final⟩ := outcome
      exact Or.inl ⟨result, final, ran, returns result final ran⟩

theorem ends_mono {program : StateT σ (Except ε) α}
    (holds : ends program post faulty state)
    (weaker : ∀ result final, post result final → post' result final)
    (faults : ∀ fault, faulty fault → faulty' fault) :
    ends program post' faulty' state := by
  apply ends_intro
  · intro result final runs
    exact weaker result final (ends_of_run holds runs)
  · intro fault runs
    exact faults fault (ends_of_error holds runs)

theorem ends_pure {result : α} (holds : post result state) :
    ends (pure result : StateT σ (Except ε) α) post faulty state :=
  ends_of_wp ((wp_pure result).mpr holds)

theorem ends_throw {fault : ε} (holds : faulty fault) :
    ends (throw fault : StateT σ (Except ε) α) post faulty state :=
  Or.inr ⟨fault, rfl, holds⟩

theorem ends_bind {program : StateT σ (Except ε) β}
    {next : β → StateT σ (Except ε) α}
    (holds : ends program
      (fun result middle => ends (next result) post faulty middle) faulty
        state) : ends (program >>= next) post faulty state := by
  rcases holds with ⟨between, middle, ran, rest⟩ | ⟨fault, faults, satisfied⟩
  · rcases rest with ⟨result, final, runs, satisfied⟩ |
      ⟨fault, faults, satisfied⟩
    · exact Or.inl ⟨result, final, by rw [run_bind_of ran, runs], satisfied⟩
    · exact Or.inr ⟨fault, by rw [run_bind_of ran, faults], satisfied⟩
  · refine Or.inr ⟨fault, ?_, satisfied⟩
    rw [StateT.run_bind, faults]
    rfl

end Faults

section Loops

/-- A loop that threads an accumulator through the indices below `count`
establishes every invariant that its body carries from one index to the next. -/
theorem wp_foldlM_range {body : β → Nat → StateT σ (Except ε) β}
    (invariant : Nat → β → σ → Prop) {start : β} {state : σ} (count : Nat)
    (initially : invariant 0 start state)
    (preserved : ∀ index < count, ∀ acc middle, invariant index acc middle →
      wp (body acc index) (invariant (index + 1)) middle) :
    wp ((List.range count).foldlM body start) (invariant count) state := by
  induction count with
  | zero => simpa using initially
  | succ count ih =>
      rw [List.range_succ, List.foldlM_append]
      refine wp_bind_of (ih fun index small => preserved index (by omega)) ?_
      intro acc middle holds
      simpa [bind_pure] using preserved count (by omega) acc middle holds

/-- The same rule for a loop without accumulator. -/
theorem wp_forM_range {body : Nat → StateT σ (Except ε) PUnit}
    (invariant : Nat → σ → Prop) {state : σ} (count : Nat)
    (initially : invariant 0 state)
    (preserved : ∀ index < count, ∀ middle, invariant index middle →
      wp (body index) (fun _ final => invariant (index + 1) final) middle) :
    wp ((List.range count).forM body) (fun _ final => invariant count final)
      state := by
  induction count with
  | zero => simpa using initially
  | succ count ih =>
      rw [List.range_succ]
      simp only [List.forM_eq_forM, List.forM_append] at ih ⊢
      refine wp_bind_of (ih fun index small => preserved index (by omega)) ?_
      intro _ middle holds
      simpa [bind_pure] using preserved count (by omega) middle holds

end Loops

end ProgramLogic
