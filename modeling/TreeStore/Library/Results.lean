import TreeStore.Library.ProgramLogic

/-!
# What a program returns from every state

A property of the results that no state has a part in is shown without one: a
program may change the state, or end in a fault, as it likes.
-/

namespace ProgramLogic

variable {σ ε α β : Type} {post : α → Prop} {pre : β → Prop}

/-- Every result of the program satisfies `post`. -/
structure Returns (program : StateT σ (Except ε) α) (post : α → Prop) :
    Prop where
  of_run : ∀ state result final, program.run state = .ok (result, final) →
    post result

theorem returns_pure {result : α} (holds : post result) :
    Returns (pure result : StateT σ (Except ε) α) post where
  of_run _ _ _ runs := by
    cases runs
    exact holds

theorem returns_throw (fault : ε) :
    Returns (throw fault : StateT σ (Except ε) α) post where
  of_run _ _ _ runs := by cases runs

theorem Returns.bind {program : StateT σ (Except ε) β}
    {next : β → StateT σ (Except ε) α} (first : Returns program pre)
    (rest : ∀ result, pre result → Returns (next result) post) :
    Returns (program >>= next) post where
  of_run state result final runs := by
    obtain ⟨between, middle, ran, runs'⟩ := exists_of_run_bind runs
    have before := first.of_run state between middle ran
    exact (rest between before).of_run middle result final runs'

/-- What stands first does not matter if the rest always returns so. -/
theorem returns_of_rest {program : StateT σ (Except ε) β}
    {next : β → StateT σ (Except ε) α}
    (rest : ∀ result, Returns (next result) post) :
    Returns (program >>= next) post :=
  Returns.bind ⟨fun _ _ _ _ => trivial⟩ fun result _ => rest result

theorem returns_ite {condition : Prop} [Decidable condition]
    {program other : StateT σ (Except ε) α}
    (yes : condition → Returns program post)
    (no : ¬ condition → Returns other post) :
    Returns (if condition then program else other) post := by
  split
  · next holds => exact yes holds
  · next fails => exact no fails

theorem returns_foldlM {body : α → β → StateT σ (Except ε) α} {list : List β}
    {start : α} (initially : post start)
    (preserved : ∀ acc element, post acc → Returns (body acc element) post) :
    Returns (list.foldlM body start) post := by
  induction list generalizing start with
  | nil => exact returns_pure initially
  | cons element list ih =>
      rw [List.foldlM_cons]
      exact (preserved start element initially).bind fun _ => ih

end ProgramLogic
