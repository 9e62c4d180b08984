import Mathlib.Tactic

/-!
# Scanners with the longest match

A scanner cuts a text into lexemes.  Each is the longest beginning of what is
left that some rule accepts, and it belongs to the first rule that accepts it.
-/

namespace Scanning

variable {α κ : Type}

/-- The texts of one kind. -/
structure Rule (α κ : Type) where
  kind : κ
  accepts : List α → Bool

/-- The kind of a text: that of the first rule which accepts it. -/
def kindOf (rules : List (Rule α κ)) (text : List α) : Option κ :=
  (rules.find? (·.accepts text)).map (·.kind)

theorem exists_of_kindOf {rules : List (Rule α κ)} {text : List α} {kind : κ}
    (found : kindOf rules text = some kind) :
    ∃ rule ∈ rules, rule.kind = kind ∧ rule.accepts text = true := by
  obtain ⟨rule, first, same⟩ := Option.map_eq_some_iff.mp found
  have accepts := List.find?_some first
  exact ⟨rule, List.mem_of_find?_eq_some first, same, accepts⟩

/-- The longest beginning of at most `count` characters that has a kind. -/
def longest (rules : List (Rule α κ)) (text : List α) : Nat → Option (κ × Nat)
  | 0 => none
  | count + 1 =>
      match kindOf rules (text.take (count + 1)) with
      | some kind => some (kind, count + 1)
      | none => longest rules text count

theorem longest_pos {rules : List (Rule α κ)} {text : List α} {bound : Nat}
    {kind : κ} {count : Nat}
    (found : longest rules text bound = some (kind, count)) :
    0 < count ∧ count ≤ bound ∧ kindOf rules (text.take count) = some kind ∧
      ∀ more, count < more → more ≤ bound →
        kindOf rules (text.take more) = none := by
  induction bound with
  | zero => cases found
  | succ bound ih =>
      unfold longest at found
      cases here : kindOf rules (text.take (bound + 1)) with
      | some kind' =>
          rw [here] at found
          cases found
          exact ⟨Nat.succ_pos _, le_rfl, here, by omega⟩
      | none =>
          rw [here] at found
          obtain ⟨positive, inside, accepted, beyond⟩ := ih found
          refine ⟨positive, inside.trans (Nat.le_succ _), accepted, ?_⟩
          intro more longer short
          by_cases last : more = bound + 1
          · rw [last]
            exact here
          · exact beyond more longer (by omega)

theorem longest_eq_some {rules : List (Rule α κ)} {text : List α} {bound : Nat}
    {kind : κ} {count : Nat} (positive : 0 < count) (inside : count ≤ bound)
    (accepted : kindOf rules (text.take count) = some kind)
    (beyond : ∀ more, count < more → more ≤ bound →
      kindOf rules (text.take more) = none) :
    longest rules text bound = some (kind, count) := by
  induction bound with
  | zero => omega
  | succ bound ih =>
      unfold longest
      by_cases last : count = bound + 1
      · subst last
        rw [accepted]
      · rw [beyond (bound + 1) (by omega) le_rfl]
        exact ih (by omega) fun more longer short =>
          beyond more longer (by omega)

/-- The lexemes of a text with their kinds, up to a place where nothing has a
kind. -/
def lexemes (rules : List (Rule α κ)) (text : List α) : List (κ × List α) :=
  match found : longest rules text text.length with
  | none => []
  | some (kind, count) =>
      have _shorter : text.length - count < text.length := by
        have := longest_pos found
        omega
      (kind, text.take count) :: lexemes rules (text.drop count)
termination_by text.length
decreasing_by
  rw [List.length_drop]
  exact _shorter

variable {rules : List (Rule α κ)} {text rest lexeme : List α} {kind : κ}
  {list : List (κ × List α)}

/-- No longer text has a kind. -/
def MaximalMunch (rules : List (Rule α κ)) (lexeme rest : List α) : Prop :=
  ∀ more, more ≠ [] → more <+: rest → kindOf rules (lexeme ++ more) = none

theorem lexemes_nil (rules : List (Rule α κ)) :
    lexemes rules ([] : List α) = [] := by
  rw [lexemes]
  split
  · rfl
  · next found =>
      have := longest_pos found
      simp only [List.length_nil] at this
      omega

/-- How the first lexeme is recognized. -/
theorem lexemes_append (nonempty : lexeme ≠ [])
    (accepted : kindOf rules lexeme = some kind)
    (maximal : MaximalMunch rules lexeme rest) :
    lexemes rules (lexeme ++ rest) = (kind, lexeme) :: lexemes rules rest := by
  have first : longest rules (lexeme ++ rest) (lexeme ++ rest).length =
      some (kind, lexeme.length) := by
    apply longest_eq_some (List.length_pos_iff.mpr nonempty)
    · rw [List.length_append]
      omega
    · rw [List.take_left']
      · exact accepted
      · rfl
    · intro more longer short
      rw [List.length_append] at short
      rw [List.take_append, List.take_of_length_le longer.le]
      apply maximal _ _ (List.take_prefix _ _)
      intro none
      have length := congrArg List.length none
      rw [List.length_take, List.length_nil] at length
      omega
  rw [lexemes]
  split
  · next found => rw [first] at found; cases found
  · next found =>
      rw [first] at found
      cases found
      rw [List.take_left', List.drop_left']
      · rfl
      · rfl

/-- A text is cut into these lexemes. -/
inductive Scans (rules : List (Rule α κ)) : List α → List (κ × List α) → Prop
  | done : Scans rules [] []
  | next {kind : κ} {lexeme rest : List α} {list : List (κ × List α)} :
      lexeme ≠ [] → kindOf rules lexeme = some kind →
      MaximalMunch rules lexeme rest → Scans rules rest list →
      Scans rules (lexeme ++ rest) ((kind, lexeme) :: list)

theorem Scans.lexemes_eq (scans : Scans rules text list) :
    lexemes rules text = list := by
  induction scans with
  | done => exact lexemes_nil rules
  | next nonempty accepted maximal _ ih =>
      rw [lexemes_append nonempty accepted maximal, ih]

/-- Each character is of some kind. -/
def Complete (rules : List (Rule α κ)) : Prop :=
  ∀ char, ∃ kind, kindOf rules [char] = some kind

theorem exists_longest (complete : Complete rules) (char : α) (text : List α)
    (bound : Nat) :
    ∃ found, longest rules (char :: text) (bound + 1) = some found := by
  induction bound with
  | zero =>
      obtain ⟨kind, accepted⟩ := complete char
      refine ⟨(kind, 1), longest_eq_some Nat.one_pos le_rfl accepted ?_⟩
      omega
  | succ bound ih =>
      unfold longest
      cases kindOf rules ((char :: text).take (bound + 1 + 1)) with
      | some kind => exact ⟨_, rfl⟩
      | none => exact ih

/-- The beginning that is found cannot be made longer. -/
theorem maximal_of_longest {count : Nat}
    (found : longest rules text text.length = some (kind, count)) :
    MaximalMunch rules (text.take count) (text.drop count) := by
  obtain ⟨-, inside, -, beyond⟩ := longest_pos found
  intro more some_more begins
  obtain ⟨behind, split⟩ := begins
  have positive := List.length_pos_iff.mpr some_more
  have whole : text.take (count + more.length) = text.take count ++ more := by
    rw [List.take_add, ← split, List.take_left']
    rfl
  rw [← whole]
  apply beyond _ (by omega)
  have := congrArg List.length split
  rw [List.length_append, List.length_drop] at this
  omega

/-- The lexemes are all of the text. -/
theorem scans_lexemes (complete : Complete rules) (text : List α) :
    Scans rules text (lexemes rules text) := by
  induction length : text.length using Nat.strong_induction_on
    generalizing text with
  | _ length ih =>
      cases text with
      | nil =>
          rw [lexemes_nil]
          exact .done
      | cons char text =>
          obtain ⟨⟨kind, count⟩, found⟩ :=
            exists_longest complete char text text.length
          obtain ⟨positive, inside, accepted, -⟩ := longest_pos found
          have maximal := maximal_of_longest found
          have parts := List.take_append_drop count (char :: text)
          have nonempty : (char :: text).take count ≠ [] := by
            rw [ne_eq, List.take_eq_nil_iff, not_or]
            exact ⟨positive.ne', List.cons_ne_nil _ _⟩
          have rest := ih ((char :: text).drop count).length (by
            rw [List.length_drop, ← length, List.length_cons]
            omega) ((char :: text).drop count) rfl
          have same := lexemes_append nonempty accepted maximal
          have scans := Scans.next nonempty accepted maximal rest
          rw [parts] at same scans
          rw [same]
          exact scans

/-- Every lexeme is of its kind. -/
theorem Scans.accepted (scans : Scans rules text list) :
    ∀ found ∈ list, kindOf rules found.2 = some found.1 := by
  induction scans with
  | done => exact fun found member => absurd member List.not_mem_nil
  | next _ accepted _ _ ih =>
      intro found member
      rcases List.mem_cons.mp member with rfl | later
      · exact accepted
      · exact ih found later

end Scanning
