import TreeStore.Library.Pieces
import TreeStore.StoragePublic

/-!
# What the tokenizer stores

`split` counts the delimiters and reserves a pointer for each part between
them; `strtok` passes over the empty parts.
-/

namespace TreeStore

open Pieces

/-- The count of `split` is the number of pointers that it stores, each of them
is within the allocated array and set, and the last token ends in no
newline. -/
structure SplitsWell (behind str : CharPtr) (c : UInt8) : Prop where
  exact : (split behind str c).2.length = (split behind str c).1
  inside : (split behind str c).2.length ≤ (split behind str c).1
  set : ∀ i < (split behind str c).1, ∃ token,
    (split behind str c).2[i]? = some token
  stripped : ∀ token ∈ (split behind str c).2.getLast?,
    token.getLast? ≠ some 10

/-- The text that `split` counts the delimiters of. -/
def countedText (str : CharPtr) (c : UInt8) : List UInt8 :=
  if c = 10 then (textOf str).takeWhile (· ≠ 10) else textOf str

section Tokens

variable {behind str : CharPtr} {c : UInt8} {text : List UInt8}

/-- The text ends at its only newline, if it has one. -/
theorem takeWhile_newline (only : 10 ∉ text.dropLast) :
    text.takeWhile (· ≠ 10) = text ∨
      text = text.takeWhile (· ≠ 10) ++ [10] := by
  rcases List.eq_nil_or_concat' text with rfl | ⟨front, char, rfl⟩
  · exact Or.inl rfl
  · rw [List.dropLast_concat] at only
    have plain : ∀ other ∈ front, decide (other ≠ 10) = true := by
      intro other member
      apply decide_eq_true
      rintro rfl
      exact only member
    rw [List.takeWhile_append_of_pos plain]
    by_cases newline : char = 10
    · subst newline
      exact Or.inr (by simp)
    · exact Or.inl (by simp [newline])

/-- The count is one more than the number of delimiters. -/
theorem split_fst (only : 10 ∉ (textOf str).dropLast) :
    (split behind str c).1 = (countedText str c).count c + 1 := by
  rw [split, countedText]
  dsimp only
  by_cases newline : c = 10
  · rw [if_pos newline]
  · rw [if_neg newline]
    rcases takeWhile_newline only with same | ends
    · rw [same]
    · conv_rhs => rw [ends]
      have other : ([10] : List UInt8).count c = 0 :=
        List.count_eq_zero.mpr fun member =>
          newline (List.mem_singleton.mp member)
      rw [List.count_append, other, Nat.add_zero]

/-- Where a terminator lies behind the delimiter, nothing else delimits. -/
theorem strtokAll_eq (alone : textOf behind = []) :
    strtokAll (c :: textOf behind) text = pieces (· == c) text := by
  rw [alone, strtokAll, pieces]
  congr 2
  funext char
  rw [beq_eq_decide]
  simp

/-- As many pointers are stored as the counted text has pieces. -/
theorem split_snd_length (alone : textOf behind = [])
    (only : 10 ∉ (textOf str).dropLast) :
    (split behind str c).2.length =
      (pieces (· == c) (countedText str c)).length := by
  rw [split, countedText]
  dsimp only
  rw [List.length_mapIdx, strtokAll_eq alone]
  by_cases newline : c = 10
  · rw [if_pos newline]
    rcases takeWhile_newline only with same | ends
    · rw [same]
    · conv_lhs => rw [ends]
      have cuts : (10 : UInt8) == c := beq_iff_eq.mpr newline.symm
      rw [@pieces_append_cons _ (· == c) 10 cuts, pieces_nil, List.append_nil]
  · rw [if_neg newline]

/-- As many pieces as delimiters and one more are found exactly if the
delimiters are separated. -/
theorem length_pieces_iff : (pieces (· == c) text).length = text.count c + 1 ↔
    Separated (· == c) text := by
  rw [← parts_nonempty_iff, List.count, ← length_splitOnP, pieces,
    List.length_filter_eq_length_iff]
  simp only [decide_eq_true_iff]

/-- Nothing but its last character is a newline in a piece. -/
theorem newline_notMem_dropLast {piece : List UInt8} (inside : piece <:+: text)
    (only : 10 ∉ text.dropLast) : 10 ∉ piece.dropLast := by
  obtain ⟨front, back, rfl⟩ := inside
  intro member
  apply only
  rcases List.eq_nil_or_concat' piece with rfl | ⟨start, char, rfl⟩
  · exact absurd member List.not_mem_nil
  · rw [List.dropLast_concat] at member
    rw [List.append_assoc, List.append_assoc,
      List.dropLast_append_of_ne_nil (by simp),
      List.dropLast_append_of_ne_nil (by simp)]
    simp [member]

theorem splitsWell_iff (alone : textOf behind = [])
    (only : 10 ∉ (textOf str).dropLast) :
    SplitsWell behind str c ↔ Separated (· == c) (countedText str c) := by
  have stored := @split_snd_length behind str c alone only
  have counted := @split_fst behind str c only
  rw [← length_pieces_iff, ← stored, ← counted]
  constructor
  · exact SplitsWell.exact
  · intro exact
    refine ⟨exact, exact.le, fun i below => ?_, ?_⟩
    · exact ⟨_, List.getElem?_eq_getElem (exact ▸ below)⟩
    · intro token last newline
      unfold split at last exact
      dsimp only at last exact
      rw [List.length_mapIdx] at exact
      rw [List.getLast?_mapIdx] at last
      obtain ⟨piece, final, rfl⟩ := Option.map_eq_some_iff.mp last
      have inside : piece <:+: textOf str := by
        have member := List.mem_of_getLast? final
        rw [strtokAll_eq alone] at member
        exact infix_of_mem_pieces member
      have clean := newline_notMem_dropLast inside only
      by_cases ends : piece.getLast? = some 10
      · rw [if_pos ⟨by rw [exact], ends⟩] at newline
        exact clean (List.mem_of_getLast? newline)
      · rw [if_neg fun both => ends both.2] at newline
        exact ends newline

/-- `split` never stores more pointers than it has room for; it stores as many
as it counts exactly if no delimiter is the first or last character or follows
another one, and the text is not empty.  (Where newlines are cut at, the one at
the end does not count.) -/
theorem split_stores_iff (alone : textOf behind = [])
    (only : 10 ∉ (textOf str).dropLast) :
    (split behind str c).2.length ≤ (split behind str c).1 ∧
      (SplitsWell behind str c ↔
        Separated (· == c) (countedText str c)) := by
  refine ⟨?_, splitsWell_iff alone only⟩
  rw [split_snd_length alone only, split_fst only]
  exact length_pieces_le

end Tokens

/-- The words `a` and `b`, with a newline. -/
theorem split_stores_pair : SplitsWell [0] [97, 32, 98, 10, 0] 32 := by
  apply (split_stores_iff (by decide) (by decide)).2.mpr
  have text : countedText [97, 32, 98, 10, 0] 32 = [97, 32, 98, 10] := by
    decide
  rw [text]
  exact ⟨by simp, by simp, by simp, by simp⟩

/-- Of `n=` two parts are counted and one is stored. -/
theorem not_always_splitsWell :
    ¬ ∀ (behind str : CharPtr) (c : UInt8), textOf behind = [] →
      10 ∉ (textOf str).dropLast → SplitsWell behind str c := by
  intro always
  have exact := (always [0] [110, 61, 0] 61 (by decide) (by decide)).exact
  exact absurd exact (by decide)

end TreeStore
