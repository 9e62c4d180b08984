import TreeStore.Lexer
import TreeStore.Sessions

/-!
# Texts with blanks

Between the words of a query there may be blanks, and characters that begin
nothing.  They are needed only behind a word or number that could go on with
the next character.
-/

namespace TreeStore

open Scanning

namespace Client

/-- The kinds that no token is returned for. -/
def Kind.isQuiet : Kind → Bool
  | .blank => true
  | .unexpected => true
  | _ => false

/-- A lexeme that does not go on, whatever comes behind it. -/
def isSealed : List UInt8 → Bool
  | [char] => !isFirst char
  | text => text == chars "storage."

/-- The next character is not taken for one of the lexeme. -/
def Apart (lexeme rest : List UInt8) : Prop :=
  isSealed lexeme = true ∨ ∀ char ∈ rest.head?, isInner char = false

/-- The text consists of these words, and of blanks and characters that begin
nothing. -/
inductive Laid : List (Kind × List UInt8) → List UInt8 → Prop
  | done : Laid [] []
  | skip {kind : Kind} {char : UInt8} {words : List (Kind × List UInt8)}
      {rest : List UInt8} : kindOf rules [char] = some kind →
      kind.isQuiet = true → isFirst char = false → Laid words rest →
      Laid words (char :: rest)
  | word {kind : Kind} {lexeme : List UInt8}
      {words : List (Kind × List UInt8)} {rest : List UInt8} : lexeme ≠ [] →
      kindOf rules lexeme = some kind → Apart lexeme rest → Laid words rest →
      Laid ((kind, lexeme) :: words) (lexeme ++ rest)

section Layouts

variable {address : Nat → UInt64} {vfloat : List UInt8 → UInt32}
  {words : List (Kind × List UInt8)} {text lexeme rest : List UInt8}

theorem maximal_single {char : UInt8} (last : isFirst char = false) :
    MaximalMunch rules [char] rest := by
  intro more some_more _
  obtain ⟨next, more, rfl⟩ := List.exists_cons_of_ne_nil some_more
  rw [Option.eq_none_iff_forall_not_mem]
  intro kind found
  have shaped := (Bool.and_eq_true_iff.mp (isShaped_of_kindOf found)).1
  rw [last] at shaped
  cases shaped

theorem maximal_storage : MaximalMunch rules (chars "storage.") rest := by
  intro more some_more _
  obtain ⟨next, more, rfl⟩ := List.exists_cons_of_ne_nil some_more
  rw [Option.eq_none_iff_forall_not_mem]
  intro kind found
  change kindOf rules (115 :: (chars "torage." ++ next :: more)) = some kind
    at found
  rcases all_isWordChar_of_kindOf rfl found with inner | same
  · have point := List.all_eq_true.mp inner 46 (by simp [chars])
    cases point
  · have length := congrArg List.length same
    simp [chars] at length

theorem maximal_of_isSealed (ends : isSealed lexeme = true) :
    MaximalMunch rules lexeme rest := by
  unfold isSealed at ends
  split at ends
  · exact maximal_single (by simpa using ends)
  · rw [beq_iff_eq.mp ends]
    exact maximal_storage

theorem maximal_of_head (nonempty : lexeme ≠ [])
    (outer : ∀ char ∈ rest.head?, isInner char = false) :
    MaximalMunch rules lexeme rest := by
  intro more some_more begins
  obtain ⟨first, lexeme, rfl⟩ := List.exists_cons_of_ne_nil nonempty
  obtain ⟨next, more, rfl⟩ := List.exists_cons_of_ne_nil some_more
  obtain ⟨behind, rfl⟩ := begins
  rw [Option.eq_none_iff_forall_not_mem]
  intro kind found
  have shaped := isShaped_of_kindOf found
  have inner : (lexeme ++ next :: more).all isInner = true := by
    cases lexeme with
    | nil => exact (Bool.and_eq_true_iff.mp shaped).2
    | cons second lexeme => exact (Bool.and_eq_true_iff.mp shaped).2
  have taken := List.all_eq_true.mp inner next (by simp)
  rw [outer next rfl] at taken
  cases taken

theorem Apart.maximal (apart : Apart lexeme rest) (nonempty : lexeme ≠ []) :
    MaximalMunch rules lexeme rest := by
  rcases apart with ends | outer
  · exact maximal_of_isSealed ends
  · exact maximal_of_head nonempty outer

theorem act_of_isQuiet {kind : Kind} (quiet : kind.isQuiet = true)
    (lexer : Lexer) : lexer.act address vfloat kind text = (none, lexer) := by
  cases kind with
  | blank => rfl
  | unexpected => rfl
  | _ => cases quiet

/-- The text is cut into its words and characters that nothing is done for. -/
theorem Laid.scans (laid : Laid words text) : ∃ list, Scans rules text list ∧
    ∀ lexer : Lexer, lexer.actAll address vfloat list =
      lexer.actAll address vfloat words := by
  induction laid with
  | done => exact ⟨[], .done, fun _ => rfl⟩
  | @skip kind char words rest found quiet last _ ih =>
      obtain ⟨list, scans, same⟩ := ih
      refine ⟨(kind, [char]) :: list, ?_, fun lexer => ?_⟩
      · exact .next (List.cons_ne_nil _ _) found (maximal_single last) scans
      · rw [Lexer.actAll, act_of_isQuiet quiet]
        exact same lexer
  | @word kind lexeme words rest nonempty found apart _ ih =>
      obtain ⟨list, scans, same⟩ := ih
      refine ⟨(kind, lexeme) :: list, ?_, fun lexer => ?_⟩
      · exact .next nonempty found (apart.maximal nonempty) scans
      · unfold Lexer.actAll
        dsimp only
        rw [same]

/-- The tokens of a text are those of its words. -/
theorem yylex_laid (laid : Laid words text) (lexer : Lexer) :
    yylex address vfloat text lexer = lexer.actAll address vfloat words := by
  obtain ⟨list, scans, same⟩ := @Laid.scans address vfloat _ _ laid
  rw [yylex, scans.lexemes_eq, same]

/-- However a query is laid out, the message for it is sent. -/
theorem accepts_laid {mongosh : Mongosh} {state : State} {message : Query}
    {lexer : Lexer} (laid : Laid words text)
    (spelled : mongosh.Spelled (lexer.actAll address vfloat words)) :
    Accepts (yylex address vfloat text lexer) state message ↔
      (mongosh.read state).bind parseQuery = some message := by
  rw [yylex_laid laid]
  exact accepts_iff spelled

end Layouts

theorem kindOf_space : kindOf rules [32] = some .blank := by
  decide +kernel

theorem apart_cons {lexeme rest : List UInt8} {next : UInt8}
    (outer : isInner next = false) : Apart lexeme (next :: rest) := by
  right
  rintro char ⟨⟩
  exact outer

/-- The words of `storage.receive({a: 1})`. -/
def receiveWords : List (Kind × List UInt8) :=
  [(.token .storage, chars "storage."), (.token .receive, chars "receive"),
    (.token .opBrace, chars "("), (.token .opCBrace, chars "\x7b"),
    (.string, chars "a"), (.token .colon, chars ":"), (.int, chars "1"),
    (.token .clCBrace, chars "\x7d"), (.token .clBrace, chars ")")]

theorem laid_receive :
    Laid receiveWords (chars "storage.receive (\x7ba: 1 \x7d)") := by
  have same : chars "storage.receive (\x7ba: 1 \x7d)" =
      chars "storage." ++ (chars "receive" ++ (32 :: (chars "(" ++
        (chars "\x7b" ++ (chars "a" ++ (chars ":" ++ (32 :: (chars "1" ++
          (32 :: (chars "\x7d" ++ (chars ")" ++ []))))))))))) := by decide
  rw [same]
  apply Laid.word (by decide) (by decide +kernel) (.inl rfl)
  apply Laid.word (by decide) (by decide +kernel) (apart_cons rfl)
  apply Laid.skip kindOf_space rfl rfl
  apply Laid.word (by decide) (by decide +kernel) (.inl rfl)
  apply Laid.word (by decide) (by decide +kernel) (.inl rfl)
  apply Laid.word (by decide) (by decide +kernel) (apart_cons rfl)
  apply Laid.word (by decide) (by decide +kernel) (.inl rfl)
  apply Laid.skip kindOf_space rfl rfl
  apply Laid.word (by decide) (by decide +kernel) (apart_cons rfl)
  apply Laid.skip kindOf_space rfl rfl
  apply Laid.word (by decide) (by decide +kernel) (.inl rfl)
  apply Laid.word (by decide) (by decide +kernel) (.inl rfl)
  exact .done

/-- The words of `storage.insert({parent: 5}, {a: 1}}`. -/
def insertWords : List (Kind × List UInt8) :=
  [(.token .storage, chars "storage."), (.token .insert, chars "insert"),
    (.token .opBrace, chars "("), (.token .opCBrace, chars "\x7b"),
    (.token .parent, chars "parent"), (.token .colon, chars ":"),
    (.int, chars "5"), (.token .clCBrace, chars "\x7d"),
    (.token .comma, chars ","), (.token .opCBrace, chars "\x7b"),
    (.string, chars "a"), (.token .colon, chars ":"), (.int, chars "1"),
    (.token .clCBrace, chars "\x7d"), (.token .clCBrace, chars "\x7d")]

theorem laid_insert : Laid (insertWords ++ receiveWords)
    (chars "storage.insert(\x7bparent: 5\x7d, \x7ba: 1\x7d\x7d" ++
      chars "storage.receive (\x7ba: 1 \x7d)") := by
  have same : chars "storage.insert(\x7bparent: 5\x7d, \x7ba: 1\x7d\x7d" ++
        chars "storage.receive (\x7ba: 1 \x7d)" =
      chars "storage." ++ (chars "insert" ++ (chars "(" ++ (chars "\x7b" ++
        (chars "parent" ++ (chars ":" ++ (32 :: (chars "5" ++ (chars "\x7d" ++
          (chars "," ++ (32 :: (chars "\x7b" ++ (chars "a" ++ (chars ":" ++
            (32 :: (chars "1" ++ (chars "\x7d" ++ (chars "\x7d" ++
              chars "storage.receive (\x7ba: 1 \x7d)"))))))))))))))))) := by
    decide
  rw [same]
  apply Laid.word (by decide) (by decide +kernel) (.inl rfl)
  apply Laid.word (by decide) (by decide +kernel) (apart_cons rfl)
  apply Laid.word (by decide) (by decide +kernel) (.inl rfl)
  apply Laid.word (by decide) (by decide +kernel) (.inl rfl)
  apply Laid.word (by decide) (by decide +kernel) (apart_cons rfl)
  apply Laid.word (by decide) (by decide +kernel) (.inl rfl)
  apply Laid.skip kindOf_space rfl rfl
  apply Laid.word (by decide) (by decide +kernel) (apart_cons rfl)
  apply Laid.word (by decide) (by decide +kernel) (.inl rfl)
  apply Laid.word (by decide) (by decide +kernel) (.inl rfl)
  apply Laid.skip kindOf_space rfl rfl
  apply Laid.word (by decide) (by decide +kernel) (.inl rfl)
  apply Laid.word (by decide) (by decide +kernel) (apart_cons rfl)
  apply Laid.word (by decide) (by decide +kernel) (.inl rfl)
  apply Laid.skip kindOf_space rfl rfl
  apply Laid.word (by decide) (by decide +kernel) (apart_cons rfl)
  apply Laid.word (by decide) (by decide +kernel) (.inl rfl)
  apply Laid.word (by decide) (by decide +kernel) (.inl rfl)
  exact laid_receive

theorem accepts_laid_receive :
    Accepts (yylex (fun _ => 0) (fun _ => 0)
        (chars "storage.receive (\x7ba: 1 \x7d)") ⟨0, 0⟩) .start
        ⟨0, [oneFilter], [], by decide, by decide⟩ ↔
      ((Mongosh.receive [.value [97, 0] (.int [49, 0])]).read .start).bind
        parseQuery = some ⟨0, [oneFilter], [], by decide, by decide⟩ :=
  accepts_laid laid_receive receiveOne_spelled

end Client

end TreeStore
