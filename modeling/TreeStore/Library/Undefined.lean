import TreeStore.Library.ProgramLogic

/-!
# Undefined behaviour as a parameter

A step whose outcome the language leaves open is an argument of the program that
takes it.  A run is defined if it is the same whatever that step would do; it is
then the run in which the step does nothing, and in fact never takes it.
-/

namespace ProgramLogic

variable {σ ε α β : Type}

/-- An operation that is undefined where it is not allowed. -/
def requires (undefined : StateT σ (Except ε) Unit) (allowed : Prop)
    [Decidable allowed] : StateT σ (Except ε) Unit :=
  if allowed then pure () else undefined

/-- What the undefined step does has no effect on the run. -/
def Defined (program : StateT σ (Except ε) Unit → StateT σ (Except ε) α)
    (state : σ) : Prop :=
  ∀ undefined, (program undefined).run state = (program (pure ())).run state

/-- Whatever the undefined step does, the program returns, and the result and
the final state satisfy `post`. -/
def Always (program : StateT σ (Except ε) Unit → StateT σ (Except ε) α)
    (post : α → σ → Prop) (state : σ) : Prop :=
  ∀ undefined, wp (program undefined) post state

section Rules

variable {state : σ}

theorem defined_const (program : StateT σ (Except ε) α) :
    Defined (fun _ => program) state :=
  fun _ => rfl

theorem requires_pure {allowed : Prop} [Decidable allowed] :
    requires (pure () : StateT σ (Except ε) Unit) allowed = pure () := by
  unfold requires
  split_ifs <;> rfl

theorem defined_requires {allowed : Prop} [Decidable allowed] (holds : allowed) :
    Defined (fun undefined : StateT σ (Except ε) Unit =>
      requires undefined allowed) state := by
  intro undefined
  dsimp only
  rw [requires, if_pos holds, requires_pure]

/-- A sequence is defined if both parts are. -/
theorem Defined.bind
    {program : StateT σ (Except ε) Unit → StateT σ (Except ε) β}
    {next : StateT σ (Except ε) Unit → β → StateT σ (Except ε) α}
    (first : Defined program state)
    (rest : ∀ result middle, (program (pure ())).run state =
      .ok (result, middle) →
        Defined (fun undefined => next undefined result) middle) :
    Defined (fun undefined => program undefined >>= next undefined) state := by
  intro undefined
  dsimp only
  rw [StateT.run_bind, StateT.run_bind, first undefined]
  cases ran : (program (pure ())).run state with
  | error fault => rfl
  | ok outcome =>
      obtain ⟨result, middle⟩ := outcome
      exact rest result middle ran undefined

/-- A first part without undefined steps is run before anything is asked. -/
theorem defined_const_bind {program : StateT σ (Except ε) β}
    {next : StateT σ (Except ε) Unit → β → StateT σ (Except ε) α} :
    Defined (fun undefined => program >>= next undefined) state ↔
      ∀ result middle, program.run state = .ok (result, middle) →
        Defined (fun undefined => next undefined result) middle := by
  constructor
  · intro defined result middle ran undefined
    have same := defined undefined
    dsimp only at same
    rw [run_bind_of ran, run_bind_of ran] at same
    exact same
  · exact (defined_const program).bind

/-- The outcome of the first part decides what is asked of the rest. -/
theorem defined_const_bind_iff {program : StateT σ (Except ε) β}
    {next : StateT σ (Except ε) Unit → β → StateT σ (Except ε) α}
    {between : β → σ → Prop} {decided : Prop}
    (known : wp program between state)
    (decides : ∀ result middle, between result middle →
      (Defined (fun undefined => next undefined result) middle ↔ decided)) :
    Defined (fun undefined => program >>= next undefined) state ↔ decided := by
  rw [defined_const_bind]
  obtain ⟨result, middle, ran, holds⟩ := known
  constructor
  · intro rest
    exact (decides result middle holds).mp (rest result middle ran)
  · intro holds' result' middle' ran'
    rw [ran] at ran'
    cases ran'
    exact (decides result middle holds).mpr holds'

/-- Where there are two faults, an operation that is not allowed shows. -/
theorem defined_requires_bind [Nontrivial ε] {allowed : Prop} [Decidable allowed]
    {next : StateT σ (Except ε) Unit → StateT σ (Except ε) α} :
    Defined (fun undefined => requires undefined allowed >>= fun _ =>
      next undefined) state ↔ allowed ∧ Defined next state := by
  constructor
  · intro defined
    have holds : allowed := by
      by_contra fails
      have fault : ∀ fault, (next (pure ())).run state = .error fault := by
        intro fault
        have same := defined (throw fault)
        dsimp only at same
        rw [requires_pure, requires, if_neg fails] at same
        exact same.symm
      obtain ⟨first, second, different⟩ := exists_pair_ne ε
      exact different (Except.error.inj
        ((fault first).symm.trans (fault second)))
    refine ⟨holds, fun undefined => ?_⟩
    have same := defined undefined
    dsimp only at same
    rw [requires_pure, requires, if_pos holds] at same
    exact same
  · rintro ⟨holds, defined⟩
    exact (defined_requires holds).bind fun _ middle ran => by
      rw [requires_pure] at ran
      cases ran
      exact defined

theorem always_const {program : StateT σ (Except ε) α} {post : α → σ → Prop} :
    Always (fun _ => program) post state ↔ wp program post state :=
  ⟨fun holds => holds (pure ()), fun holds _ => holds⟩

/-- After a first part without undefined steps, the rest is asked. -/
theorem always_bind_of {program : StateT σ (Except ε) β}
    {next : StateT σ (Except ε) Unit → β → StateT σ (Except ε) α}
    {post : α → σ → Prop} {result : β} {middle : σ}
    (ran : program.run state = .ok (result, middle)) :
    Always (fun undefined => program >>= next undefined) post state ↔
      Always (fun undefined => next undefined result) post middle := by
  have same (undefined : StateT σ (Except ε) Unit) :
      wp (program >>= next undefined) post state ↔
        wp (next undefined result) post middle := by
    unfold wp
    rw [run_bind_of ran]
  exact forall_congr' same

theorem always_bind_iff {program : StateT σ (Except ε) β}
    {next : StateT σ (Except ε) Unit → β → StateT σ (Except ε) α}
    {post : α → σ → Prop} {between : β → σ → Prop} {decided : Prop}
    (known : wp program between state)
    (decides : ∀ result middle, between result middle →
      (Always (fun undefined => next undefined result) post middle ↔
        decided)) :
    Always (fun undefined => program >>= next undefined) post state ↔
      decided := by
  obtain ⟨result, middle, ran, holds⟩ := known
  rw [always_bind_of ran]
  exact decides result middle holds

/-- A program that returns whatever an undefined step does never takes it. -/
theorem always_requires_bind [Nonempty ε] {allowed : Prop} [Decidable allowed]
    {next : StateT σ (Except ε) Unit → StateT σ (Except ε) α}
    {post : α → σ → Prop} :
    Always (fun undefined => requires undefined allowed >>= fun _ =>
      next undefined) post state ↔ allowed ∧ Always next post state := by
  constructor
  · intro always
    have holds : allowed := by
      by_contra fails
      obtain ⟨fault⟩ := ‹Nonempty ε›
      have returns := always (throw fault)
      dsimp only at returns
      rw [requires, if_neg fails, wp_bind] at returns
      exact wp_throw fault returns
    refine ⟨holds, fun undefined => ?_⟩
    have returns := always undefined
    dsimp only at returns
    rw [requires, if_pos holds, pure_bind] at returns
    exact returns
  · rintro ⟨holds, always⟩ undefined
    dsimp only
    rw [requires, if_pos holds, pure_bind]
    exact always undefined

theorem defined_congr
    {program program' : StateT σ (Except ε) Unit → StateT σ (Except ε) α}
    (same : ∀ undefined, program undefined = program' undefined) :
    Defined program state ↔ Defined program' state := by
  rw [funext same]

end Rules

end ProgramLogic
