import Mathlib.Data.List.Basic

/-!
# Conjunctions of clauses

A list of clauses holds if each of them has an atom that holds.  There is no
negation, so one list implies another one under every meaning of the atoms only
if each clause of the second has a whole clause of the first in it.
-/

namespace Clauses

variable {α : Type} {meaning : α → Prop} {clause : List α}
  {first second : List (List α)}

/-- Every clause has an atom that holds. -/
def Holds (meaning : α → Prop) (clauses : List (List α)) : Prop :=
  ∀ clause ∈ clauses, ∃ atom ∈ clause, meaning atom

/-- Every clause of the second list has a clause of the first one in it. -/
def Covers (first second : List (List α)) : Prop :=
  ∀ clause ∈ second, ∃ other ∈ first, other ⊆ clause

theorem Covers.holds (covers : Covers first second)
    (holds : Holds meaning first) : Holds meaning second := by
  intro clause member
  obtain ⟨other, inside, subset⟩ := covers clause member
  obtain ⟨atom, there, true⟩ := holds other inside
  exact ⟨atom, subset there, true⟩

/-- One list implies another one under every meaning exactly if it covers it. -/
theorem implies_iff :
    (∀ meaning : α → Prop, Holds meaning first → Holds meaning second) ↔
      Covers first second := by
  constructor
  · intro implies clause member
    by_contra uncovered
    -- nothing in the clause holds, and every clause of the first list has
    -- something outside of it
    have holds : Holds (· ∉ clause) first := by
      intro other inside
      by_contra none
      apply uncovered
      refine ⟨other, inside, fun atom there => ?_⟩
      by_contra outside
      exact none ⟨atom, there, outside⟩
    obtain ⟨atom, there, outside⟩ := implies _ holds clause member
    exact outside there
  · exact fun covers meaning => covers.holds

/-- Clauses that are taken from those of the other list one by one cover it. -/
theorem covers_of_forall₂
    (all : List.Forall₂ (· ⊆ ·) first second) : Covers first second := by
  induction all with
  | nil => exact fun clause member => absurd member (List.not_mem_nil)
  | @cons part whole first second subset all ih =>
      intro clause member
      rcases List.mem_cons.mp member with rfl | later
      · exact ⟨part, List.mem_cons_self .., subset⟩
      · obtain ⟨other, inside, within⟩ := ih clause later
        exact ⟨other, List.mem_cons_of_mem part inside, within⟩

end Clauses
