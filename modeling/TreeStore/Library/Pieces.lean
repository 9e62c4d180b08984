import Mathlib.Data.List.Basic
import Mathlib.Data.List.Chain
import Mathlib.Data.List.Infix

/-!
# The pieces of a list between delimiters

A list is cut at every element that is a delimiter, and the empty parts are
dropped.
-/

namespace Pieces

variable {α : Type} {delimits : α → Bool} {text piece : List α}

/-- The non-empty parts of the list that have no delimiter in them. -/
def pieces (delimits : α → Bool) (text : List α) : List (List α) :=
  (text.splitOnP delimits).filter (· ≠ [])

theorem not_delimits_of_mem_splitOnP (member : piece ∈ text.splitOnP delimits) :
    ∀ char ∈ piece, delimits char = false := by
  induction text generalizing piece with
  | nil =>
      rw [List.splitOnP_nil, List.mem_singleton] at member
      subst member
      simp
  | cons char text ih =>
      rw [List.splitOnP_cons_eq_if_modifyHead] at member
      by_cases cut : delimits char = true
      · rw [if_pos cut] at member
        rcases List.mem_cons.mp member with rfl | later
        · simp
        · exact ih later
      · rw [if_neg cut] at member
        obtain ⟨first, rest, parts⟩ :=
          List.exists_cons_of_ne_nil (List.splitOnP_ne_nil delimits text)
        rw [parts, List.modifyHead_cons] at member
        rcases List.mem_cons.mp member with rfl | later
        · intro other inside
          rcases List.mem_cons.mp inside with rfl | behind
          · exact Bool.eq_false_iff.mpr cut
          · apply @ih first _ other behind
            rw [parts]
            exact List.mem_cons_self ..
        · apply ih
          rw [parts]
          exact List.mem_cons_of_mem first later

/-- A part is consecutive in the list. -/
theorem infix_of_mem_splitOnP (member : piece ∈ text.splitOnP delimits) :
    piece <:+: text := by
  have both : (∀ part ∈ text.splitOnP delimits, part <:+: text) ∧
      ∀ first ∈ (text.splitOnP delimits).head?, first <+: text := by
    clear member
    induction text with
    | nil =>
        rw [List.splitOnP_nil]
        simp
    | cons char text ih =>
        obtain ⟨first, rest, parts⟩ :=
          List.exists_cons_of_ne_nil (List.splitOnP_ne_nil delimits text)
        rw [List.splitOnP_cons_eq_if_modifyHead, parts]
        rw [parts] at ih
        by_cases cut : delimits char = true
        · rw [if_pos cut]
          refine ⟨?_, by simp⟩
          intro part here
          rcases List.mem_cons.mp here with rfl | later
          · exact List.nil_infix
          · exact (ih.1 part later).trans (List.suffix_cons char text).isInfix
        · rw [if_neg cut, List.modifyHead_cons]
          have starts : char :: first <+: char :: text :=
            (List.prefix_cons_inj char).mpr (ih.2 first rfl)
          refine ⟨?_, by simpa using starts⟩
          intro part here
          rcases List.mem_cons.mp here with rfl | later
          · exact starts.isInfix
          · exact (ih.1 part (List.mem_cons_of_mem first later)).trans
              (List.suffix_cons char text).isInfix
  exact both.1 piece member

/-- A piece is not empty, has no delimiter in it, and is from the list. -/
theorem mem_pieces (member : piece ∈ pieces delimits text) :
    piece ≠ [] ∧ (∀ char ∈ piece, delimits char = false) ∧ piece ⊆ text := by
  obtain ⟨part, nonempty⟩ := List.mem_filter.mp member
  exact ⟨of_decide_eq_true nonempty, not_delimits_of_mem_splitOnP part,
    (infix_of_mem_splitOnP part).subset⟩

theorem infix_of_mem_pieces (member : piece ∈ pieces delimits text) :
    piece <:+: text :=
  infix_of_mem_splitOnP (List.mem_filter.mp member).1

/-- A delimiter separates the pieces before it from those behind it. -/
theorem pieces_append_cons {delimiter : α} (cuts : delimits delimiter = true)
    (front back : List α) : pieces delimits (front ++ delimiter :: back) =
      pieces delimits front ++ pieces delimits back := by
  rw [pieces, List.splitOnP_append_cons front back cuts, List.filter_append]
  rfl

@[simp]
theorem pieces_nil : pieces delimits [] = [] := by
  rw [pieces, List.splitOnP_nil]
  rfl

/-- A list without delimiters is one piece. -/
theorem pieces_eq_singleton (nonempty : text ≠ [])
    (plain : ∀ char ∈ text, delimits char = false) :
    pieces delimits text = [text] := by
  rw [pieces, List.splitOnP_eq_singleton plain, List.filter_singleton,
    decide_eq_true nonempty]
  rfl

section Words

variable {delimiter char : α} {words : List (List α)}

theorem mem_intercalate (member : char ∈ [delimiter].intercalate words) :
    char = delimiter ∨ ∃ word ∈ words, char ∈ word := by
  induction words with
  | nil => exact absurd member List.not_mem_nil
  | cons word words ih =>
      by_cases last : words = []
      · subst last
        rw [List.intercalate_singleton] at member
        exact Or.inr ⟨word, List.mem_singleton_self _, member⟩
      · rw [List.intercalate_cons_of_ne_nil last] at member
        rcases List.mem_append.mp member with front | later
        · rcases List.mem_append.mp front with here | between
          · exact Or.inr ⟨word, List.mem_cons_self .., here⟩
          · exact Or.inl (List.mem_singleton.mp between)
        · rcases ih later with same | ⟨other, inside, there⟩
          · exact Or.inl same
          · exact Or.inr ⟨other, List.mem_cons_of_mem word inside, there⟩

/-- Words between delimiters are found again. -/
theorem pieces_intercalate (cuts : delimits delimiter = true)
    (plain : ∀ word ∈ words, word ≠ [] ∧
      ∀ char ∈ word, delimits char = false) :
    pieces delimits ([delimiter].intercalate words) = words := by
  induction words with
  | nil => exact pieces_nil
  | cons word words ih =>
      obtain ⟨nonempty, clean⟩ := plain word (List.mem_cons_self ..)
      by_cases last : words = []
      · subst last
        rw [List.intercalate_singleton, pieces_eq_singleton nonempty clean]
      · rw [List.intercalate_cons_of_ne_nil last, List.append_assoc,
          List.singleton_append, pieces_append_cons cuts,
          pieces_eq_singleton nonempty clean,
          ih fun other member => plain other (List.mem_cons_of_mem word member)]
        rfl

end Words

/-- No delimiter stands first, last, or next to another one. -/
structure Separated (delimits : α → Bool) (text : List α) : Prop where
  nonempty : text ≠ []
  first : ∀ char ∈ text.head?, delimits char = false
  last : ∀ char ∈ text.getLast?, delimits char = false
  apart : text.IsChain fun char next =>
    ¬ (delimits char = true ∧ delimits next = true)

theorem length_splitOnP :
    (text.splitOnP delimits).length = text.countP delimits + 1 := by
  induction text with
  | nil => rfl
  | cons char text ih =>
      rw [List.splitOnP_cons_eq_if_modifyHead]
      by_cases cut : delimits char = true
      · rw [if_pos cut, List.length_cons, ih, List.countP_cons_of_pos cut]
      · rw [if_neg cut, List.length_modifyHead, ih, List.countP_cons_of_neg cut]

/-- There are at most as many pieces as parts. -/
theorem length_pieces_le :
    (pieces delimits text).length ≤ text.countP delimits + 1 := by
  rw [← length_splitOnP]
  exact List.length_filter_le _ _

/-- No part is empty exactly if the delimiters are separated. -/
theorem parts_nonempty_iff :
    (∀ part ∈ text.splitOnP delimits, part ≠ []) ↔
      Separated delimits text := by
  -- all parts but the first one do not depend on how the list begins
  have both : ((∀ part ∈ text.splitOnP delimits, part ≠ []) ↔
        Separated delimits text) ∧
      ((∀ part ∈ (text.splitOnP delimits).tail, part ≠ []) ↔
        (∀ char ∈ text.getLast?, delimits char = false) ∧
        text.IsChain fun char next =>
          ¬ (delimits char = true ∧ delimits next = true)) := by
    induction text with
    | nil =>
        rw [List.splitOnP_nil]
        constructor
        · constructor
          · intro all
            exact absurd rfl (all [] (List.mem_singleton_self _))
          · exact fun separated => absurd rfl separated.nonempty
        · simp
    | cons char text ih =>
        obtain ⟨whole, later⟩ := ih
        rw [List.splitOnP_cons_eq_if_modifyHead]
        by_cases cut : delimits char = true
        · rw [if_pos cut]
          constructor
          · constructor
            · intro all
              exact absurd rfl (all [] (List.mem_cons_self ..))
            · intro separated
              have := separated.first char rfl
              rw [cut] at this
              cases this
          · rw [List.tail_cons, whole]
            cases text with
            | nil =>
                apply iff_of_false
                · exact fun separated => separated.nonempty rfl
                · rintro ⟨last, -⟩
                  have := last char rfl
                  rw [cut] at this
                  cases this
            | cons next text =>
                rw [List.getLast?_cons_cons, List.isChain_cons]
                constructor
                · intro separated
                  refine ⟨separated.last, fun other first both => ?_,
                    separated.apart⟩
                  have := separated.first other first
                  rw [both.2] at this
                  cases this
                · rintro ⟨last, first, apart⟩
                  refine ⟨List.cons_ne_nil _ _, fun other here => ?_, last,
                    apart⟩
                  apply Bool.eq_false_iff.mpr
                  exact fun both => first other here ⟨cut, both⟩
        · rw [if_neg cut]
          obtain ⟨first, rest, parts⟩ :=
            List.exists_cons_of_ne_nil (List.splitOnP_ne_nil delimits text)
          rw [parts, List.tail_cons] at later
          rw [parts, List.modifyHead_cons, List.tail_cons,
            List.forall_mem_cons, later]
          have plain : delimits char = false := Bool.eq_false_iff.mpr cut
          have same : ((∀ other ∈ (char :: text).getLast?,
                delimits other = false) ∧
              (char :: text).IsChain fun char next =>
                ¬ (delimits char = true ∧ delimits next = true)) ↔
              (∀ other ∈ text.getLast?, delimits other = false) ∧
                text.IsChain fun char next =>
                  ¬ (delimits char = true ∧ delimits next = true) := by
            cases text with
            | nil => simp [plain]
            | cons next text =>
                rw [List.getLast?_cons_cons, List.isChain_cons]
                apply and_congr_right'
                apply and_iff_right
                exact fun other _ both => cut both.1
          constructor
          · rw [and_iff_right (List.cons_ne_nil _ _), ← same]
            constructor
            · rintro ⟨last, apart⟩
              exact ⟨List.cons_ne_nil _ _, by simpa using plain, last, apart⟩
            · exact fun separated => ⟨separated.last, separated.apart⟩
          · exact same.symm
  exact both.1

end Pieces
