import TreeStore.Constraints
import TreeStore.Grammar
import TreeStore.Handler
import TreeStore.Library.Scanning

/-!
# The lexer of the client

The scanner that `flex` makes of `rules.lex`.  It takes the longest text that
one of the patterns matches, and among the patterns that match it the first one.
Characters that begin nothing are reported and left out.
-/

namespace TreeStore

open Scanning

namespace Client

/-- What is done with a text that is matched. -/
inductive Kind
  | token (token : Token)
  | string
  | float
  | int
  | blank
  | unexpected
  deriving DecidableEq, Repr

section Patterns

/-- `[a-zA-Z]` -/
def isLetter (char : UInt8) : Bool :=
  65 ≤ char && char ≤ 90 || 97 ≤ char && char ≤ 122

/-- `[0-9]` -/
def isDigit (char : UInt8) : Bool :=
  48 ≤ char && char ≤ 57

/-- `[a-zA-Z_0-9]` -/
def isWordChar (char : UInt8) : Bool :=
  isLetter char || char == 95 || isDigit char

/-- `[a-zA-Z][a-zA-Z_0-9]*` -/
def isString : List UInt8 → Bool
  | [] => false
  | char :: rest => isLetter char && rest.all isWordChar

/-- `[0-9]+` -/
def isDigits (text : List UInt8) : Bool :=
  !text.isEmpty && text.all isDigit

/-- What follows `[-]?`. -/
def unsigned : List UInt8 → List UInt8
  | 45 :: text => text
  | text => text

/-- `[-]?([0-9]+)?\.[0-9]+` -/
def isFloat (text : List UInt8) : Bool :=
  match (unsigned text).dropWhile isDigit with
  | 46 :: fraction => isDigits fraction
  | _ => false

/-- `[-]?[0-9]+` -/
def isInt (text : List UInt8) : Bool :=
  isDigits (unsigned text)

/-- `[ \t\n]` -/
def isBlank (text : List UInt8) : Bool :=
  text == [32] || text == [9] || text == [10]

/-- `.` -/
def isUnexpected : List UInt8 → Bool
  | [char] => char != 10
  | _ => false

/-- A text that stands for itself. -/
def literal (word : Token × String) : Rule UInt8 Kind :=
  ⟨.token word.1, (· == chars word.2)⟩

end Patterns

def reserved : List (Token × String) :=
  [(.storage, "storage."),
    (.receive, "receive"),
    (.insert, "insert"),
    (.delete, "delete"),
    (.update, "update"),
    (.parent, "parent"),
    (.set, "set"),
    (.or, "or"),
    (.loT, "lo_t"),
    (.loEqT, "lo_eq_t"),
    (.grT, "gr_t"),
    (.grEqT, "gr_eq_t"),
    (.noEq, "no_eq"),
    (.opBrace, "("),
    (.clBrace, ")"),
    (.opCBrace, "\x7b"),
    (.clCBrace, "\x7d"),
    (.opSqBrace, "["),
    (.clSqBrace, "]"),
    (.colon, ":"),
    (.dollar, "$"),
    (.quote, "\""),
    (.comma, ","),
    (.trueT, "True"),
    (.falseT, "False")]

/-- The rules of `rules.lex`. -/
def rules : List (Rule UInt8 Kind) :=
  reserved.map literal ++
    [⟨.string, isString⟩,
      ⟨.float, isFloat⟩,
      ⟨.int, isInt⟩,
      ⟨.blank, isBlank⟩,
      ⟨.unexpected, isUnexpected⟩]

/-- The union `yylval`, and how often `strdup` has been called. -/
structure Lexer where
  yylval : UInt64
  copies : Nat
  deriving DecidableEq, Repr

section Actions

-- where the copies of `strdup` lie, and the `float` that the result of `strtod`
-- is converted to
variable (address : Nat → UInt64) (vfloat : List UInt8 → UInt32)

/-- The action of a rule: the token that is returned, if one is. -/
def Lexer.act (lexer : Lexer) (kind : Kind) (yytext : List UInt8) :
    Option Token × Lexer :=
  match kind with
  | .token token => (some token, lexer)
  | .string =>
      let copy := address lexer.copies
      (some (.string ⟨copy, yytext ++ [0]⟩), ⟨copy, lexer.copies + 1⟩)
  | .float =>
      -- the other half of the union keeps what it held
      let yylval := lexer.yylval >>> 32 <<< 32 ||| (vfloat yytext).toUInt64
      (some (.float yylval), { lexer with yylval := yylval })
  | .int =>
      let yytext := yytext ++ [0]
      (some (.int yytext), { lexer with yylval := vint yytext })
  | .blank => (none, lexer)
  | .unexpected => (none, lexer)

def Lexer.actAll (lexer : Lexer) : List (Kind × List UInt8) → List Token
  | [] => []
  | (kind, yytext) :: list =>
      let done := lexer.act address vfloat kind yytext
      done.1.toList ++ done.2.actAll list

/-- The tokens of a text, from one call of `yylex` to the next. -/
def yylex (text : List UInt8) (lexer : Lexer) : List Token :=
  lexer.actAll address vfloat (lexemes rules text)

end Actions

/-- Some rule of this kind matches the text. -/
inductive Matched : Kind → List UInt8 → Prop
  | word {word : Token × String} : word ∈ reserved →
      Matched (.token word.1) (chars word.2)
  | string {text : List UInt8} : isString text = true → Matched .string text
  | float {text : List UInt8} : isFloat text = true → Matched .float text
  | int {text : List UInt8} : isInt text = true → Matched .int text
  | blank {text : List UInt8} : isBlank text = true → Matched .blank text
  | unexpected {text : List UInt8} : isUnexpected text = true →
      Matched .unexpected text

section Characters

variable {text : List UInt8} {char : UInt8} {kind : Kind}

theorem matched_of_kindOf (found : kindOf rules text = some kind) :
    Matched kind text := by
  obtain ⟨rule, member, rfl, accepts⟩ := exists_of_kindOf found
  rcases List.mem_append.mp member with literals | patterns
  · obtain ⟨word, listed, rfl⟩ := List.mem_map.mp literals
    have same : text = chars word.2 := beq_iff_eq.mp accepts
    rw [same]
    exact .word listed
  · simp only [List.mem_cons, List.not_mem_nil, or_false] at patterns
    rcases patterns with rfl | rfl | rfl | rfl | rfl
    · exact .string accepts
    · exact .float accepts
    · exact .int accepts
    · exact .blank accepts
    · exact .unexpected accepts

theorem exists_of_isBlank (blank : isBlank text = true) :
    ∃ char, text = [char] := by
  simp only [isBlank, Bool.or_eq_true, beq_iff_eq] at blank
  rcases blank with (same | same) | same
  · exact ⟨_, same⟩
  · exact ⟨_, same⟩
  · exact ⟨_, same⟩

theorem exists_of_isUnexpected (unexpected : isUnexpected text = true) :
    ∃ char, text = [char] := by
  unfold isUnexpected at unexpected
  split at unexpected
  · exact ⟨_, rfl⟩
  · cases unexpected

/-- A character that a lexeme may go on with. -/
def isInner (char : UInt8) : Bool :=
  isWordChar char || char == 46

/-- A character that a lexeme of more than one character may begin with. -/
def isFirst (char : UInt8) : Bool :=
  isLetter char || isDigit char || char == 45 || char == 46

/-- The longer lexemes have only these characters. -/
def isShaped : List UInt8 → Bool
  | char :: next :: text => isFirst char && (next :: text).all isInner
  | _ => true

theorem isShaped_cons (first : isFirst char = true)
    (inner : text.all isInner = true) : isShaped (char :: text) = true := by
  cases text with
  | nil => rfl
  | cons next text => exact Bool.and_eq_true_iff.mpr ⟨first, inner⟩

theorem isShaped_reserved :
    ∀ word ∈ reserved, isShaped (chars word.2) = true := by
  decide

theorem isShaped_of_isString (string : isString text = true) :
    isShaped text = true := by
  cases text with
  | nil => cases string
  | cons char text =>
      unfold isString at string
      rw [Bool.and_eq_true, List.all_eq_true] at string
      apply isShaped_cons
      · simp [isFirst, string.1]
      · rw [List.all_eq_true]
        intro other member
        simp [isInner, string.2 other member]

/-- A number that has nothing but digits and points behind its sign. -/
theorem isShaped_of_unsigned
    (plain : ∀ char ∈ unsigned text, isDigit char = true ∨ char = 46) :
    isShaped text = true := by
  have inner : (unsigned text).all isInner = true := by
    rw [List.all_eq_true]
    intro char member
    rcases plain char member with digit | rfl
    · simp [isInner, isWordChar, digit]
    · rfl
  cases text with
  | nil => rfl
  | cons char text =>
      by_cases sign : char = 45
      · subst sign
        exact isShaped_cons rfl inner
      · have same : unsigned (char :: text) = char :: text := by
          unfold unsigned
          split
          · next same =>
              cases same
              exact absurd rfl sign
          · rfl
        rw [same] at plain inner
        apply isShaped_cons
        · rcases plain char (List.mem_cons_self ..) with digit | rfl
          · simp [isFirst, digit]
          · rfl
        · rw [List.all_cons, Bool.and_eq_true] at inner
          exact inner.2

theorem isDigits_iff : isDigits text = true ↔
    text ≠ [] ∧ ∀ char ∈ text, isDigit char = true := by
  simp [isDigits]

theorem isShaped_of_isFloat (float : isFloat text = true) :
    isShaped text = true := by
  apply isShaped_of_unsigned
  intro char member
  unfold isFloat at float
  split at float
  · next fraction point =>
      rw [← @List.takeWhile_append_dropWhile _ isDigit (unsigned text), point]
        at member
      rcases List.mem_append.mp member with whole | member
      · exact Or.inl (List.mem_takeWhile_imp whole)
      · rcases List.mem_cons.mp member with rfl | member
        · exact Or.inr rfl
        · exact Or.inl ((isDigits_iff.mp float).2 char member)
  · cases float

theorem isShaped_of_isInt (int : isInt text = true) : isShaped text = true := by
  apply isShaped_of_unsigned
  intro char member
  exact Or.inl ((isDigits_iff.mp int).2 char member)

theorem isShaped_of_kindOf (found : kindOf rules text = some kind) :
    isShaped text = true := by
  cases matched_of_kindOf found with
  | word listed => exact isShaped_reserved _ listed
  | string string => exact isShaped_of_isString string
  | float float => exact isShaped_of_isFloat float
  | int int => exact isShaped_of_isInt int
  | blank blank =>
      obtain ⟨char, rfl⟩ := exists_of_isBlank blank
      rfl
  | unexpected unexpected =>
      obtain ⟨char, rfl⟩ := exists_of_isUnexpected unexpected
      rfl

/-- A character that begins no number and is no blank. -/
theorem isLetter_ne (letter : isLetter char = true) : isDigit char = false ∧
    char ≠ 45 ∧ char ≠ 46 := by
  simp only [isLetter, isDigit, Bool.or_eq_true, Bool.and_eq_true,
    decide_eq_true_iff, Bool.and_eq_false_iff, decide_eq_false_iff_not,
    UInt8.le_iff_toNat_le, ne_eq, ← UInt8.toNat_inj] at letter ⊢
  have values : (65 : UInt8).toNat = 65 ∧ (90 : UInt8).toNat = 90 ∧
      (97 : UInt8).toNat = 97 ∧ (122 : UInt8).toNat = 122 ∧
      (48 : UInt8).toNat = 48 ∧ (57 : UInt8).toNat = 57 ∧
      (45 : UInt8).toNat = 45 ∧ (46 : UInt8).toNat = 46 := by decide
  omega

theorem unsigned_cons (other : char ≠ 45) :
    unsigned (char :: text) = char :: text := by
  unfold unsigned
  split
  · next same =>
      cases same
      exact absurd rfl other
  · rfl

theorem words_reserved : ∀ word ∈ reserved,
    (chars word.2).tail.all isWordChar = true ∨ word.2 = "storage." := by
  decide

/-- What begins with a letter has only the characters of a word, apart from one
reserved word. -/
theorem all_isWordChar_of_kindOf (letter : isLetter char = true)
    (found : kindOf rules (char :: text) = some kind) :
    text.all isWordChar = true ∨ char :: text = chars "storage." := by
  obtain ⟨digit, minus, point⟩ := isLetter_ne letter
  have matched := matched_of_kindOf found
  generalize whole : char :: text = lexeme at matched
  cases matched with
  | word listed =>
      rcases words_reserved _ listed with inner | storage
      · rw [← whole] at inner
        exact Or.inl inner
      · rw [storage]
        exact Or.inr rfl
  | string string =>
      subst whole
      exact Or.inl (Bool.and_eq_true_iff.mp string).2
  | float float =>
      subst whole
      rw [isFloat, unsigned_cons minus,
        List.dropWhile_cons_of_neg (by simp [digit])] at float
      split at float
      · next same =>
          cases same
          exact absurd rfl point
      · cases float
  | int int =>
      subst whole
      rw [isInt, unsigned_cons minus] at int
      have first := (isDigits_iff.mp int).2 char (List.mem_cons_self ..)
      rw [digit] at first
      cases first
  | blank blank =>
      obtain ⟨char, rfl⟩ := exists_of_isBlank blank
      cases whole
      exact Or.inl rfl
  | unexpected unexpected =>
      obtain ⟨char, rfl⟩ := exists_of_isUnexpected unexpected
      cases whole
      exact Or.inl rfl

end Characters

section Tokens

variable {address : Nat → UInt64} {vfloat : List UInt8 → UInt32}

theorem kindOf_reserved : ∀ word ∈ reserved,
    kindOf rules (chars word.2) = some (.token word.1) := by
  decide +kernel

theorem complete_rules : Complete rules := by
  intro char
  apply Option.isSome_iff_exists.mp
  rw [kindOf, Option.isSome_map, List.find?_isSome]
  by_cases newline : char = 10
  · subst newline
    exact ⟨⟨.blank, isBlank⟩, by simp [rules], rfl⟩
  · exact ⟨⟨.unexpected, isUnexpected⟩, by simp [rules],
      by simp [isUnexpected, newline]⟩

/-- The lexer can have returned this token. -/
def Token.Lexed : Token → Prop
  | .string yylval => isString (textOf yylval.deref) = true ∧
      ∀ word ∈ reserved, textOf yylval.deref ≠ chars word.2
  | .int yytext => IsInteger yytext
  | _ => True

theorem lexed_reserved : ∀ word ∈ reserved, word.1.Lexed := by
  simp [reserved, Token.Lexed]

theorem zero_notMem_of_isString {text : List UInt8}
    (string : isString text = true) : 0 ∉ text := by
  cases text with
  | nil => exact List.not_mem_nil
  | cons char text =>
      intro member
      obtain ⟨letter, inner⟩ := Bool.and_eq_true_iff.mp string
      rcases List.mem_cons.mp member with same | later
      · rw [← same] at letter
        cases letter
      · cases List.all_eq_true.mp inner 0 later

theorem isInteger_of_isInt {text : List UInt8} (int : isInt text = true) :
    IsInteger (text ++ [0]) := by
  obtain ⟨nonempty, decimal⟩ := isDigits_iff.mp int
  have numeral : Numeral (unsigned text) := by
    refine ⟨nonempty, fun char member => ?_⟩
    simpa [isDigit] using decimal char member
  unfold IsInteger
  by_cases sign : ∃ digits, text = 45 :: digits
  · obtain ⟨digits, rfl⟩ := sign
    have nonzero : 0 ∉ (45 :: digits : List UInt8) := by
      rw [List.mem_cons, not_or]
      exact ⟨by decide, numeral.zero_notMem⟩
    rw [textOf_append_zero nonzero]
    exact Or.inr ⟨digits, rfl, numeral⟩
  · have same : unsigned text = text := by
      unfold unsigned
      split
      · next digits => exact absurd ⟨digits, rfl⟩ sign
      · rfl
    rw [same] at numeral
    rw [textOf_append_zero numeral.zero_notMem]
    exact Or.inl numeral

theorem lexed_act {lexer : Lexer} {kind : Kind} {text : List UInt8}
    (found : kindOf rules text = some kind) :
    ∀ token ∈ (lexer.act address vfloat kind text).1, token.Lexed := by
  intro token member
  cases matched_of_kindOf found with
  | word listed =>
      cases member
      exact lexed_reserved _ listed
  | string string =>
      cases member
      have same := textOf_append_zero (zero_notMem_of_isString string) []
      refine ⟨same.symm ▸ string, fun word listed => ?_⟩
      rintro again
      rw [same] at again
      rw [again, kindOf_reserved word listed] at found
      cases found
  | float _ =>
      cases member
      trivial
  | int int =>
      cases member
      exact isInteger_of_isInt int
  | blank _ => cases member
  | unexpected _ => cases member

theorem lexed_actAll (list : List (Kind × List UInt8))
    (found : ∀ lexeme ∈ list, kindOf rules lexeme.2 = some lexeme.1)
    (lexer : Lexer) :
    ∀ token ∈ lexer.actAll address vfloat list, token.Lexed := by
  induction list generalizing lexer with
  | nil => exact fun token member => absurd member List.not_mem_nil
  | cons lexeme list ih =>
      intro token member
      rcases List.mem_append.mp member with first | later
      · exact lexed_act (found lexeme (List.mem_cons_self ..)) token
          (Option.mem_toList.mp first)
      · exact ih (fun other inside =>
          found other (List.mem_cons_of_mem _ inside)) _ token later

theorem lexed_yylex (text : List UInt8) (lexer : Lexer) :
    ∀ token ∈ yylex address vfloat text lexer, token.Lexed :=
  lexed_actAll _ (scans_lexemes complete_rules text).accepted lexer

end Tokens

end Client

end TreeStore
