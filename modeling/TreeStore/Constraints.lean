import TreeStore.Library.Clauses
import TreeStore.Literals

/-!
# What a message says

The filters of a query and those of its message are read as constraints
`key operation value`: all filters have to hold, and of a filter with several
constraints one.  Only the last constraints of the two parts of an `$or` get into
the message.
-/

namespace TreeStore

/-- A value as it is written. -/
inductive Literal
  | string (text : List UInt8)
  | int (number : Int)
  | float (bits : UInt32)
  deriving DecidableEq, Repr

/-- A constraint on a field, with the code of its operation. -/
structure Constraint where
  key : List UInt8
  operation : Int32
  value : Literal
  deriving DecidableEq, Repr

/-- The value of a pair of a message. -/
def KeyValuePair.literal (kv : KeyValuePair) : Literal :=
  if kv.valueType = 0 then .string (textOf kv.valueString)
  else if kv.valueType = 2 then .float kv.valueReal
  else .int kv.valueInt.toInt

/-- The constraint of a comparator of a message. -/
def Comparator.constraint (comparator : Comparator) : Constraint :=
  ⟨textOf comparator.kv.key, comparator.operation, comparator.kv.literal⟩

/-- The filters of a message. -/
def Query.Says (query : Query) (meaning : Constraint → Prop) : Prop :=
  ∀ filter ∈ query.filtersList, ∃ comparator ∈ filter.compList,
    meaning comparator.constraint

namespace Client

/-- The number of an integer of the text. -/
def intOf (yytext : CharPtr) : Int :=
  match textOf yytext with
  | 45 :: digits => -numeralValue digits
  | digits => numeralValue digits

/-- The lexer takes this text for an integer. -/
def IsInteger (yytext : CharPtr) : Prop :=
  Numeral (textOf yytext) ∨
    ∃ digits, textOf yytext = 45 :: digits ∧ Numeral digits

namespace Value

def literal : Value → Literal
  | string text => .string (textOf text.deref)
  | int yytext => .int (intOf yytext)
  | float yylval => .float yylval.toUInt32
  | bool truth => .int (if truth then 1 else 0)

/-- The lexer can have delivered this value. -/
def Lexed : Value → Prop
  | int yytext => IsInteger yytext
  | _ => True

end Value

namespace Filter

/-- What a filter asks for. -/
def Says (meaning : Constraint → Prop) : Filter → Prop
  | value key given => meaning ⟨textOf key, 0, given.literal⟩
  | operation key comp given =>
      meaning ⟨textOf key, .ofNat comp.code.toNat, given.literal⟩
  | or first second => first.Says meaning ∨ second.Says meaning

/-- All constraints of a filter. -/
def constraints : Filter → List Constraint
  | value key given => [⟨textOf key, 0, given.literal⟩]
  | operation key comp given =>
      [⟨textOf key, .ofNat comp.code.toNat, given.literal⟩]
  | or first second => first.constraints ++ second.constraints

/-- The last constraint of a filter. -/
def last : Filter → Constraint
  | value key given => ⟨textOf key, 0, given.literal⟩
  | operation key comp given =>
      ⟨textOf key, .ofNat comp.code.toNat, given.literal⟩
  | or _ second => second.last

/-- The constraints of a filter that get into the message. -/
def kept : Filter → List Constraint
  | or first second => [second.last, first.last]
  | filter => [filter.last]

/-- The lexer can have delivered the values of the filter. -/
def Lexed : Filter → Prop
  | value _ given => given.Lexed
  | operation _ _ given => given.Lexed
  | or first second => first.Lexed ∧ second.Lexed

end Filter

end Client

/-- The arrays of the message have room for the strings of the constraint. -/
def Constraint.Short (constraint : Constraint) : Prop :=
  constraint.key.length < 1024 ∧ match constraint.value with
    | .string text => text.length < 1024
    | _ => True

/-- The value of the constraint gets into the message: an integer is an `int`,
and a float is compared by equality, or it is zero. -/
def Constraint.Survives (constraint : Constraint) : Prop :=
  match constraint.value with
  | .string _ => True
  | .int number => -2 ^ 31 ≤ number ∧ number < 2 ^ 31
  | .float bits => constraint.operation = 0 ∨ bits = 0

instance : DecidablePred Constraint.Short
  | ⟨key, _, .string text⟩ =>
      inferInstanceAs (Decidable (key.length < 1024 ∧ text.length < 1024))
  | ⟨key, _, .int _⟩ => inferInstanceAs (Decidable (key.length < 1024 ∧ True))
  | ⟨key, _, .float _⟩ => inferInstanceAs (Decidable (key.length < 1024 ∧ True))

instance : DecidablePred Constraint.Survives
  | ⟨_, _, .string _⟩ => inferInstanceAs (Decidable True)
  | ⟨_, _, .int number⟩ =>
      inferInstanceAs (Decidable (-2 ^ 31 ≤ number ∧ number < 2 ^ 31))
  | ⟨_, operation, .float bits⟩ =>
      inferInstanceAs (Decidable (operation = 0 ∨ bits = 0))

/-- The message says what the filters say, under every meaning of the
constraints, and it has all of their constraints. -/
structure Query.Means (query : Query) (filters : List Client.Filter) : Prop where
  same : ∀ meaning, query.Says meaning ↔
    ∀ filter ∈ filters, filter.Says meaning
  present : ∀ filter ∈ filters, ∀ constraint ∈ filter.constraints,
    ∃ sent ∈ query.filtersList, ∃ comparator ∈ sent.compList,
      comparator.constraint = constraint

/-- A query that gets into a message as a whole: it has at most 20 filters and
settings, with strings that fit and values that survive; each filter keeps all
constraints of some filter, and each constraint is kept by some. -/
structure Client.Mongosh.Sendable (mongosh : Mongosh) : Prop where
  filters_le : mongosh.filters.length ≤ 20
  settings_le : mongosh.settings.length ≤ 20
  settings : ∀ setting ∈ mongosh.settings,
    (Constraint.mk (textOf setting.1) 0 setting.2.literal).Short
  constraints : ∀ filter ∈ mongosh.filters, ∀ constraint ∈ filter.constraints,
    constraint.Short ∧ constraint.Survives
  whole : ∀ filter ∈ mongosh.filters, ∃ other ∈ mongosh.filters,
    other.constraints ⊆ filter.kept
  kept : ∀ filter ∈ mongosh.filters, ∀ constraint ∈ filter.constraints,
    ∃ other ∈ mongosh.filters, constraint ∈ other.kept

section Reading

variable {meaning : Constraint → Prop} {src out : CharPtr}

theorem strcpy_eq_some_iff : Client.strcpy src = some out ↔
    (textOf src).length < 1024 ∧ out = textOf src ++ [0] := by
  unfold Client.strcpy
  split_ifs with fits
  · simp [fits, eq_comm]
  · simp [fits]

namespace Client

section Values

variable {given : Value} {key yytext : CharPtr} {slot : Slot} {real : UInt32}
  {pair : KeyValuePair} {kv : TreeStore.KeyValuePair}

theorem parse_of_string (string : pair.valueType = .ofNat STRING_TYPE) :
    pair.parse = some kv ↔ (textOf pair.key).length < 1024 ∧
      (textOf pair.valueInt.deref).length < 1024 ∧
        kv = ⟨textOf pair.key ++ [0], .ofNat pair.valueType.toNat,
          pair.valueInt.word.toInt64, pair.valueReal,
          textOf pair.valueInt.deref ++ [0]⟩ := by
  unfold KeyValuePair.parse
  rw [if_pos string]
  simp only [Option.bind_eq_bind, Option.bind_eq_some_iff, Option.pure_def,
    Option.some.injEq, strcpy_eq_some_iff]
  constructor
  · rintro ⟨_, ⟨short, rfl⟩, _, ⟨shortKey, rfl⟩, rfl⟩
    exact ⟨shortKey, short, rfl⟩
  · rintro ⟨shortKey, short, rfl⟩
    exact ⟨_, ⟨short, rfl⟩, _, ⟨shortKey, rfl⟩, rfl⟩

theorem parse_of_number (number : pair.valueType ≠ .ofNat STRING_TYPE) :
    pair.parse = some kv ↔ (textOf pair.key).length < 1024 ∧
      kv = ⟨textOf pair.key ++ [0], .ofNat pair.valueType.toNat,
        pair.valueInt.word.toInt64, pair.valueReal, [0]⟩ := by
  unfold KeyValuePair.parse
  rw [if_neg number]
  simp only [Option.bind_eq_bind, Option.bind_some, Option.bind_eq_some_iff,
    Option.pure_def, Option.some.injEq, strcpy_eq_some_iff]
  constructor
  · rintro ⟨_, ⟨shortKey, rfl⟩, rfl⟩
    exact ⟨shortKey, rfl⟩
  · rintro ⟨shortKey, rfl⟩
    exact ⟨_, ⟨shortKey, rfl⟩, rfl⟩

/-- A value that gets into the message with these numbers. -/
def Value.sent (slot : Slot) (real : UInt32) : Value → Literal
  | .string text => .string (textOf text.deref)
  | .float _ => .float real
  | _ => .int slot.word.toInt64.toInt

theorem textOf_terminated (str : CharPtr) :
    textOf (textOf str ++ [0]) = textOf str :=
  textOf_append_zero (zero_notMem_textOf str) []

/-- Only strings have the type of strings. -/
theorem Value.string_or_number (given : Value) : (∃ text, given = .string text) ∨
    UInt8.ofNat given.vtype ≠ .ofNat STRING_TYPE ∧ ∀ key operation,
      (Constraint.mk key operation given.literal).Short ↔ key.length < 1024 := by
  have int : UInt8.ofNat INT_TYPE ≠ .ofNat STRING_TYPE := by decide
  have float : UInt8.ofNat FLOAT_TYPE ≠ .ofNat STRING_TYPE := by decide
  cases given with
  | string text => exact Or.inl ⟨text, rfl⟩
  | int yytext => exact Or.inr ⟨int, fun _ _ => and_iff_left trivial⟩
  | float yylval => exact Or.inr ⟨float, fun _ _ => and_iff_left trivial⟩
  | bool truth => exact Or.inr ⟨int, fun _ _ => and_iff_left trivial⟩

/-- The pair of a value gets into the message if its strings fit. -/
theorem exists_parse_iff (operation : Int32)
    (points : ∀ text, given = .string text → slot = text) :
    (∃ kv, (KeyValuePair.mk key (.ofNat given.vtype) slot real).parse =
      some kv) ↔ (Constraint.mk (textOf key) operation given.literal).Short := by
  rcases given.string_or_number with ⟨text, rfl⟩ | ⟨number, short⟩
  · obtain rfl := points text rfl
    constructor
    · rintro ⟨kv, parsed⟩
      obtain ⟨shortKey, short, -⟩ := (parse_of_string rfl).mp parsed
      exact ⟨shortKey, short⟩
    · rintro ⟨shortKey, short⟩
      exact ⟨_, (parse_of_string rfl).mpr ⟨shortKey, short, rfl⟩⟩
  · rw [short]
    constructor
    · rintro ⟨kv, parsed⟩
      exact ((parse_of_number number).mp parsed).1
    · intro shortKey
      exact ⟨_, (parse_of_number number).mpr ⟨shortKey, rfl⟩⟩

theorem literal_of_parse
    (points : ∀ text, given = .string text → slot = text)
    (parsed : (KeyValuePair.mk key (.ofNat given.vtype) slot real).parse =
      some kv) :
    textOf kv.key = textOf key ∧ kv.literal = given.sent slot real := by
  rcases given.string_or_number with ⟨text, rfl⟩ | ⟨number, -⟩
  · obtain rfl := points text rfl
    obtain ⟨-, -, rfl⟩ := (parse_of_string rfl).mp parsed
    exact ⟨textOf_terminated key,
      congrArg Literal.string (textOf_terminated slot.deref)⟩
  · obtain ⟨-, rfl⟩ := (parse_of_number number).mp parsed
    refine ⟨textOf_terminated key, ?_⟩
    cases given with
    | string text => exact absurd rfl number
    | int yytext => rfl
    | float yylval => rfl
    | bool truth => rfl

theorem vint_toInt (yytext : CharPtr) :
    (vint yytext).toInt64.toInt = (atoi yytext).toInt := by
  rw [vint, Int64.toInt64_toUInt64, Int32.toInt_toInt64]

/-- `atoi` is right for the numbers of an `int`. -/
theorem atoi_toInt (lexed : IsInteger yytext)
    (low : -2 ^ 31 ≤ intOf yytext) (high : intOf yytext < 2 ^ 31) :
    (atoi yytext).toInt = intOf yytext := by
  rcases lexed with numeral | ⟨digits, text, numeral⟩
  · have positive : ∀ digits, textOf yytext ≠ 45 :: digits := by
      intro digits text
      rw [text] at numeral
      exact absurd (numeral.digits 45 (List.mem_cons_self ..)) (by decide)
    have value : intOf yytext = numeralValue (textOf yytext) := by
      unfold intOf
      split
      · exact absurd ‹_› (positive _)
      · rfl
    have read : atoi yytext = .ofNat (strtolDigits yytext) := by
      unfold atoi
      split
      · exact absurd ‹_› (positive _)
      · rfl
    rw [value] at high ⊢
    have fits : numeralValue (textOf yytext) < 2 ^ 31 := by exact_mod_cast high
    rw [read, strtolDigits_numeral rfl numeral (by omega)]
    exact Int32.toInt_ofNat_of_lt fits
  · have value : intOf yytext = -numeralValue digits := by
      rw [intOf, text]
      rfl
    have read : atoi yytext =
        .ofInt (-(min (numeralValue digits) (2 ^ 63) : Nat)) := by
      rw [atoi, text]
      rfl
    rw [value] at low high ⊢
    have small : min (numeralValue digits) (2 ^ 63) = numeralValue digits := by
      omega
    rw [read, small]
    exact Int32.toInt_ofInt_of_le low high

/-- An integer is sent as an `int`. -/
theorem Value.int_survives {operation : Int32} {key : List UInt8}
    (lexed : IsInteger yytext) :
    (Constraint.mk key operation
        ((Value.int yytext).sent (numberSlot (vint yytext)) real)).Survives ∧
      ((Constraint.mk key operation (Value.int yytext).literal).Survives →
        Constraint.mk key operation
            ((Value.int yytext).sent (numberSlot (vint yytext)) real) =
          ⟨key, operation, (Value.int yytext).literal⟩) := by
  have sent : (Value.int yytext).sent (numberSlot (vint yytext)) real =
      .int (atoi yytext).toInt := congrArg Literal.int (vint_toInt yytext)
  rw [sent]
  constructor
  · exact ⟨Int32.le_toInt _, Int32.toInt_lt _⟩
  · rintro ⟨low, high⟩
    exact congrArg (Constraint.mk key operation)
      (congrArg Literal.int (atoi_toInt lexed low high))

theorem Value.bool_survives {operation : Int32} {key : List UInt8}
    (truth : Bool) (sent : slot = (Value.bool truth).semantic) :
    (Constraint.mk key operation
        ((Value.bool truth).sent slot real)).Survives ∧
      ((Constraint.mk key operation (Value.bool truth).literal).Survives →
        Constraint.mk key operation ((Value.bool truth).sent slot real) =
          ⟨key, operation, (Value.bool truth).literal⟩) := by
  have small : ∀ number : Int, 0 ≤ number ∧ number ≤ 1 →
      -2 ^ 31 ≤ number ∧ number < 2 ^ 31 := by
    intro number
    omega
  have same : (Value.bool truth).sent slot real =
      (Value.bool truth).literal := by
    rw [sent]
    cases truth <;> rfl
  rw [same]
  refine ⟨small _ ?_, fun _ => rfl⟩
  cases truth <;> decide

end Values

namespace Filter

variable {filter : Filter} {comparator : TreeStore.Comparator}

theorem says_iff : filter.Says meaning ↔
    ∃ constraint ∈ filter.constraints, meaning constraint := by
  induction filter with
  | value key given => simp [Says, constraints]
  | operation key comp given => simp [Says, constraints]
  | or first second firstIH secondIH =>
      rw [Says, firstIH, secondIH, constraints]
      simp only [List.mem_append, or_and_right, exists_or]

theorem last_mem : filter.last ∈ filter.constraints := by
  induction filter with
  | value key given => exact List.mem_singleton_self _
  | operation key comp given => exact List.mem_singleton_self _
  | or first second _ ih => exact List.mem_append_right _ ih

theorem kept_subset : filter.kept ⊆ filter.constraints := by
  cases filter with
  | value key given => exact fun _ member => member
  | operation key comp given => exact fun _ member => member
  | or first second =>
      intro constraint member
      rcases List.mem_pair.mp member with rfl | rfl
      · exact List.mem_append_right _ last_mem
      · exact List.mem_append_left _ last_mem

theorem parse_comparator {operation : UInt8} {pair : KeyValuePair} :
    (Client.Comparator.mk operation pair).parse = some comparator ↔
      ∃ kv, pair.parse = some kv ∧ comparator = ⟨.ofNat operation.toNat, kv⟩ := by
  unfold Comparator.parse
  simp only [Option.bind_eq_bind, Option.bind_eq_some_iff, Option.pure_def,
    Option.some.injEq]
  constructor
  · rintro ⟨kv, parsed, rfl⟩
    exact ⟨kv, parsed, rfl⟩
  · rintro ⟨kv, parsed, rfl⟩
    exact ⟨kv, parsed, rfl⟩

/-- The comparator of the last constraint is sent if its strings fit. -/
theorem parse_top (filter : Filter) :
    (∃ comparator, filter.top.toComparator.parse = some comparator) ↔
      filter.last.Short := by
  induction filter with
  | value key given =>
      have points : ∀ text, given = .string text → given.split.1 = text := by
        rintro text rfl
        rfl
      rw [last, ← exists_parse_iff 0 points]
      simp only [top, Value.pair, parse_comparator]
      constructor
      · rintro ⟨_, kv, parsed, -⟩
        exact ⟨kv, parsed⟩
      · rintro ⟨kv, parsed⟩
        exact ⟨_, kv, parsed, rfl⟩
  | operation key comp given =>
      have points : ∀ text, given = .string text → given.semantic = text := by
        rintro text rfl
        rfl
      rw [last, ← exists_parse_iff _ points]
      simp only [top, Value.operand, parse_comparator]
      constructor
      · rintro ⟨_, kv, parsed, -⟩
        exact ⟨kv, parsed⟩
      · rintro ⟨kv, parsed⟩
        exact ⟨_, kv, parsed, rfl⟩
  | or first second _ ih => exact ih

/-- What is sent survives, and it is the constraint if that one does. -/
theorem constraint_top (lexed : filter.Lexed)
    (parsed : filter.top.toComparator.parse = some comparator) :
    comparator.constraint.Survives ∧
      (filter.last.Survives → comparator.constraint = filter.last) := by
  induction filter with
  | value key given =>
      have points : ∀ text, given = .string text → given.split.1 = text := by
        rintro text rfl
        rfl
      obtain ⟨kv, paired, rfl⟩ := parse_comparator.mp parsed
      obtain ⟨sameKey, literal⟩ := literal_of_parse points paired
      rw [TreeStore.Comparator.constraint, sameKey, literal]
      cases given with
      | string text => exact ⟨trivial, fun _ => rfl⟩
      | int yytext => exact Value.int_survives lexed
      | float yylval => exact ⟨Or.inl rfl, fun _ => rfl⟩
      | bool truth => exact Value.bool_survives truth rfl
  | operation key comp given =>
      have points : ∀ text, given = .string text → given.semantic = text := by
        rintro text rfl
        rfl
      obtain ⟨kv, paired, rfl⟩ := parse_comparator.mp parsed
      obtain ⟨sameKey, literal⟩ := literal_of_parse points paired
      rw [TreeStore.Comparator.constraint, sameKey, literal]
      cases given with
      | string text => exact ⟨trivial, fun _ => rfl⟩
      | int yytext => exact Value.int_survives lexed
      | float yylval =>
          refine ⟨Or.inr rfl, fun survives => ?_⟩
          -- the real is not handed over for an operation
          rcases survives with equality | zero
          · cases comp <;> cases equality
          · exact congrArg (Constraint.mk _ _) (congrArg Literal.float zero.symm)
      | bool truth => exact Value.bool_survives truth rfl
  | or first second _ ih => exact ih lexed.2 parsed

/-- The filters whose last constraints get into the message. -/
def ends : Filter → List Filter
  | or first second => [second, first]
  | filter => [filter]

theorem kept_eq (filter : Filter) : filter.kept = filter.ends.map last := by
  cases filter <;> rfl

theorem compList_eq (filter : Filter) :
    filter.compList = filter.ends.map fun part => part.top.toComparator := by
  cases filter <;> rfl

theorem Lexed.ends (lexed : filter.Lexed) : ∀ part ∈ filter.ends, part.Lexed := by
  cases filter with
  | value key given => exact List.forall_mem_singleton.mpr lexed
  | operation key comp given => exact List.forall_mem_singleton.mpr lexed
  | or first second =>
      intro part member
      rcases List.mem_pair.mp member with rfl | rfl
      · exact lexed.2
      · exact lexed.1

theorem ends_length_le (filter : Filter) : filter.ends.length ≤ 2 := by
  cases filter <;> simp [ends]

end Filter

section Lists

variable {α β : Type} {parse : α → Option β} {list : List α}

theorem exists_mapM_iff : (∃ out, list.mapM parse = some out) ↔
    ∀ first ∈ list, ∃ second, parse first = some second := by
  induction list with
  | nil => simp
  | cons first list ih =>
      rw [List.forall_mem_cons, ← ih]
      simp only [mapM_eq_some_iff, List.forall₂_cons_left_iff]
      constructor
      · rintro ⟨_, second, later, parsed, all, rfl⟩
        exact ⟨⟨second, parsed⟩, later, all⟩
      · rintro ⟨⟨second, parsed⟩, later, all⟩
        exact ⟨_, second, later, parsed, all, rfl⟩

end Lists

section Sending

variable {filter : Filter} {sent : TreeStore.Filter} {mongosh : Mongosh}
  {state : State} {query : Query}

/-- A filter is sent if the strings of the constraints it keeps fit; they are
never too many. -/
theorem exists_parseFilter_iff :
    (∃ sent, parseFilter filter.compList = some sent) ↔
      ∀ constraint ∈ filter.kept, constraint.Short := by
  have each : (∃ comps, filter.compList.mapM Comparator.parse = some comps) ↔
      ∀ constraint ∈ filter.kept, constraint.Short := by
    rw [exists_mapM_iff, filter.kept_eq, filter.compList_eq]
    simp only [List.forall_mem_map, Filter.parse_top]
  rw [← each]
  constructor
  · rintro ⟨sent, parsed⟩
    exact ⟨_, mapM_eq_some_iff.mpr (parseFilter_eq_some parsed)⟩
  · rintro ⟨comps, parsed⟩
    have fits : comps.length ≤ 20 := by
      have same := (mapM_eq_some_iff.mp parsed).length_eq
      have few := filter.ends_length_le
      rw [filter.compList_eq, List.length_map] at same
      omega
    refine ⟨⟨comps, fits⟩, ?_⟩
    rw [parseFilter, parsed]
    simp only [Option.bind_eq_bind, Option.bind_some]
    exact dif_pos fits

theorem survives_of_parseFilter (lexed : filter.Lexed)
    (parsed : parseFilter filter.compList = some sent) :
    ∀ comparator ∈ sent.compList, comparator.constraint.Survives := by
  have all := parseFilter_eq_some parsed
  rw [filter.compList_eq, List.forall₂_map_left_iff] at all
  intro comparator member
  obtain ⟨part, inside, made⟩ := exists_left_of_forall₂ all member
  exact (Filter.constraint_top (lexed.ends part inside) made).1

theorem constraints_of_parseFilter (lexed : filter.Lexed)
    (parsed : parseFilter filter.compList = some sent)
    (survive : ∀ constraint ∈ filter.kept, constraint.Survives) :
    sent.compList.map Comparator.constraint = filter.kept := by
  have all := parseFilter_eq_some parsed
  rw [filter.compList_eq, List.forall₂_map_left_iff] at all
  have known := lexed.ends
  rw [filter.kept_eq] at survive ⊢
  generalize filter.ends = parts, sent.compList = comparators at all known survive
  induction all with
  | nil => rfl
  | cons made all ih =>
      rw [List.map_cons, List.map_cons,
        (Filter.constraint_top (known _ (List.mem_cons_self ..)) made).2
          (survive _ (List.mem_cons_self ..)),
        ih (fun part inside => known part (List.mem_cons_of_mem _ inside))
          fun constraint inside =>
            survive constraint (List.mem_cons_of_mem _ inside)]

/-- A query gets into a message exactly if the filters and the settings are not
too many and their strings not too long. -/
theorem exists_sent_iff (some_filter : mongosh.filters ≠ [])
    (fresh : state.Fresh) :
    (∃ query, (mongosh.read state).bind parseQuery = some query) ↔
      mongosh.filters.length ≤ 20 ∧ mongosh.settings.length ≤ 20 ∧
        (∀ filter ∈ mongosh.filters, ∀ constraint ∈ filter.kept,
          constraint.Short) ∧
        ∀ setting ∈ mongosh.settings,
          (Constraint.mk (textOf setting.1) 0 setting.2.literal).Short := by
  have filters : (∃ filters, (mongosh.filters.map Filter.compList).mapM
      parseFilter = some filters) ↔ ∀ filter ∈ mongosh.filters,
        ∀ constraint ∈ filter.kept, constraint.Short := by
    rw [exists_mapM_iff]
    simp only [List.forall_mem_map, exists_parseFilter_iff]
  have settings : (∃ settings, mongosh.pairs.mapM KeyValuePair.parse =
      some settings) ↔ ∀ setting ∈ mongosh.settings,
        (Constraint.mk (textOf setting.1) 0 setting.2.literal).Short := by
    rw [exists_mapM_iff]
    simp only [Mongosh.pairs, List.mem_reverse, List.forall_mem_map]
    apply forall₂_congr
    intro setting member
    apply exists_parse_iff
    rintro text string
    rw [string]
    rfl
  rw [parseQuery_read some_filter fresh, ← filters, ← settings]
  constructor
  · rintro ⟨query, sent⟩
    unfold parseLists at sent
    obtain ⟨filters, filtered, sent⟩ := Option.bind_eq_some_iff.mp sent
    obtain ⟨settings, settled, sent⟩ := Option.bind_eq_some_iff.mp sent
    split_ifs at sent with fits fits'
    have same := (mapM_eq_some_iff.mp filtered).length_eq
    have same' := (mapM_eq_some_iff.mp settled).length_eq
    rw [List.length_map] at same
    rw [Mongosh.pairs, List.length_reverse, List.length_map] at same'
    exact ⟨same ▸ fits, same' ▸ fits', ⟨filters, filtered⟩, settings, settled⟩
  · rintro ⟨few, few', ⟨filters, filtered⟩, settings, settled⟩
    have same := (mapM_eq_some_iff.mp filtered).length_eq
    have same' := (mapM_eq_some_iff.mp settled).length_eq
    rw [List.length_map] at same
    rw [Mongosh.pairs, List.length_reverse, List.length_map] at same'
    have fits : filters.length ≤ 20 := same ▸ few
    have fits' : settings.length ≤ 20 := same' ▸ few'
    refine ⟨⟨.ofNat mongosh.command.toNat, filters, settings, fits, fits'⟩, ?_⟩
    rw [parseLists, filtered, settled]
    simp only [Option.bind_eq_bind, Option.bind_some]
    rw [dif_pos fits, dif_pos fits']
    rfl

/-- The comparators of a message whose constraints survive. -/
theorem clauses_of_sent
    (all : List.Forall₂ (fun compList filter => parseFilter compList = some filter)
      (mongosh.filters.map Filter.compList) query.filtersList)
    (lexed : ∀ filter ∈ mongosh.filters, filter.Lexed)
    (survive : ∀ filter ∈ mongosh.filters, ∀ constraint ∈ filter.kept,
      constraint.Survives) :
    query.filtersList.map (fun filter =>
      filter.compList.map Comparator.constraint) =
        mongosh.filters.map Filter.kept := by
  rw [List.forall₂_map_left_iff] at all
  generalize mongosh.filters = filters, query.filtersList = sents
    at all lexed survive
  induction all with
  | nil => rfl
  | cons made all ih =>
      rw [List.map_cons, List.map_cons,
        constraints_of_parseFilter (lexed _ (List.mem_cons_self ..)) made
          (survive _ (List.mem_cons_self ..)),
        ih (fun filter inside => lexed filter (List.mem_cons_of_mem _ inside))
          fun filter inside => survive filter (List.mem_cons_of_mem _ inside)]

theorem says_iff_holds : query.Says meaning ↔ Clauses.Holds meaning
    (query.filtersList.map fun filter =>
      filter.compList.map Comparator.constraint) := by
  unfold Query.Says Clauses.Holds
  rw [List.forall_mem_map]
  simp only [List.mem_map, exists_exists_and_eq_and]

theorem filters_say_iff_holds {filters : List Filter} :
    (∀ filter ∈ filters, filter.Says meaning) ↔
      Clauses.Holds meaning (filters.map Filter.constraints) := by
  simp only [Clauses.Holds, List.forall_mem_map, Filter.says_iff]

/-- The constraints of a message that has those of the filters. -/
theorem survive_of_present
    (all : List.Forall₂ (fun compList filter => parseFilter compList = some filter)
      (mongosh.filters.map Filter.compList) query.filtersList)
    (lexed : ∀ filter ∈ mongosh.filters, filter.Lexed)
    (means : query.Means mongosh.filters) :
    ∀ filter ∈ mongosh.filters, ∀ constraint ∈ filter.constraints,
      constraint.Survives := by
  intro filter member constraint inside
  obtain ⟨made, there, comparator, here, rfl⟩ :=
    means.present filter member constraint inside
  rw [List.forall₂_map_left_iff] at all
  obtain ⟨other, known, parsed⟩ := exists_left_of_forall₂ all there
  exact survives_of_parseFilter (lexed other known) parsed comparator here

theorem sendable_of_means (some_filter : mongosh.filters ≠ [])
    (lexed : ∀ filter ∈ mongosh.filters, filter.Lexed) (fresh : state.Fresh)
    (sent : (mongosh.read state).bind parseQuery = some query)
    (means : query.Means mongosh.filters) : mongosh.Sendable := by
  obtain ⟨few, few', short, settings⟩ :=
    (exists_sent_iff some_filter fresh).mp ⟨query, sent⟩
  obtain ⟨-, all, -⟩ := Mongosh.Sends.eq ⟨state, fresh, sent⟩ some_filter
  have survive := survive_of_present all lexed means
  have clauses := clauses_of_sent all lexed fun filter member constraint inside =>
    survive filter member constraint (Filter.kept_subset inside)
  have kept : ∀ filter ∈ mongosh.filters, ∀ constraint ∈ filter.constraints,
      ∃ other ∈ mongosh.filters, constraint ∈ other.kept := by
    intro filter member constraint inside
    obtain ⟨made, there, comparator, here, rfl⟩ :=
      means.present filter member constraint inside
    have clause := List.mem_map_of_mem
      (f := fun filter => filter.compList.map Comparator.constraint) there
    rw [clauses] at clause
    obtain ⟨other, known, equal⟩ := List.mem_map.mp clause
    refine ⟨other, known, ?_⟩
    rw [equal]
    exact List.mem_map_of_mem here
  refine ⟨few, few', settings, ?_, ?_, kept⟩
  · intro filter member constraint inside
    obtain ⟨other, known, there⟩ := kept filter member constraint inside
    exact ⟨short other known constraint there,
      survive filter member constraint inside⟩
  · have implies : ∀ meaning, Clauses.Holds meaning
        (mongosh.filters.map Filter.constraints) →
          Clauses.Holds meaning (mongosh.filters.map Filter.kept) := by
      intro meaning holds
      rw [← clauses, ← says_iff_holds, means.same]
      exact filters_say_iff_holds.mpr holds
    intro filter member
    obtain ⟨clause, inside, subset⟩ := Clauses.implies_iff.mp implies
      filter.kept (List.mem_map_of_mem member)
    obtain ⟨other, known, rfl⟩ := List.mem_map.mp inside
    exact ⟨other, known, subset⟩

theorem means_of_sendable
    (all : List.Forall₂ (fun compList filter => parseFilter compList = some filter)
      (mongosh.filters.map Filter.compList) query.filtersList)
    (lexed : ∀ filter ∈ mongosh.filters, filter.Lexed)
    (sendable : mongosh.Sendable) : query.Means mongosh.filters := by
  have clauses := clauses_of_sent all lexed fun filter member constraint inside =>
    (sendable.constraints filter member constraint
      (Filter.kept_subset inside)).2
  constructor
  · intro meaning
    rw [says_iff_holds, filters_say_iff_holds, clauses]
    constructor
    · apply Clauses.Covers.holds
      apply Clauses.covers_of_forall₂
      rw [List.forall₂_map_left_iff, List.forall₂_map_right_iff,
        List.forall₂_same]
      exact fun filter _ => Filter.kept_subset
    · apply Clauses.Covers.holds
      intro clause inside
      obtain ⟨filter, member, rfl⟩ := List.mem_map.mp inside
      obtain ⟨other, known, subset⟩ := sendable.whole filter member
      exact ⟨other.constraints, List.mem_map_of_mem known, subset⟩
  · intro filter member constraint inside
    obtain ⟨other, known, there⟩ :=
      sendable.kept filter member constraint inside
    have clause := List.mem_map_of_mem (f := Filter.kept) known
    rw [← clauses] at clause
    obtain ⟨made, here, equal⟩ := List.mem_map.mp clause
    rw [← equal] at there
    obtain ⟨comparator, among, rfl⟩ := List.mem_map.mp there
    exact ⟨made, here, comparator, among, rfl⟩

end Sending

/-- A query is sent with its meaning and all of its constraints exactly if it
gets into the message as a whole. -/
theorem sent_means_iff {mongosh : Mongosh} {state : State}
    (some_filter : mongosh.filters ≠ [])
    (lexed : ∀ filter ∈ mongosh.filters, filter.Lexed) (fresh : state.Fresh) :
    (∃ query, (mongosh.read state).bind parseQuery = some query ∧
      query.Means mongosh.filters) ↔ mongosh.Sendable := by
  constructor
  · rintro ⟨query, sent, means⟩
    exact sendable_of_means some_filter lexed fresh sent means
  · intro sendable
    obtain ⟨query, sent⟩ := (exists_sent_iff some_filter fresh).mpr
      ⟨sendable.filters_le, sendable.settings_le,
        fun filter member constraint inside =>
          (sendable.constraints filter member constraint
            (Filter.kept_subset inside)).1, sendable.settings⟩
    obtain ⟨-, all, -⟩ := Mongosh.Sends.eq ⟨state, fresh, sent⟩ some_filter
    exact ⟨query, sent, means_of_sendable all lexed sendable⟩

/-- `a: 1` for these letters. -/
def isOne (letter : UInt8) : Filter :=
  .value [letter, 0] (.int [49, 0])

/-- Nothing is lost of `a: 1, $or: [b: 1, c: 1]`. -/
theorem sent_means_or : ∃ query,
    ((Mongosh.receive [isOne 97, .or (isOne 98) (isOne 99)]).read .start).bind
        parseQuery = some query ∧
      query.Means [isOne 97, .or (isOne 98) (isOne 99)] := by
  have one : IsInteger [49, 0] := Or.inl (by decide)
  apply (@sent_means_iff
    (.receive [isOne 97, .or (isOne 98) (isOne 99)]) .start (by decide)
    (by simp [Mongosh.filters, isOne, Filter.Lexed, Value.Lexed, one])
    ⟨rfl, rfl⟩).mpr
  exact ⟨by decide, by decide, by decide, by decide, by decide, by decide⟩

/-- The first constraint of `$or: [$or: [a: 1, b: 1], c: 1]` is lost. -/
theorem not_always_means : ¬ ∀ (mongosh : Mongosh) (state : State),
    mongosh.filters ≠ [] → (∀ filter ∈ mongosh.filters, filter.Lexed) →
    state.Fresh → ∃ query, (mongosh.read state).bind parseQuery = some query ∧
      query.Means mongosh.filters := by
  intro always
  have one : IsInteger [49, 0] := Or.inl (by decide)
  have lexed : ∀ filter ∈ (Mongosh.receive
      [.or (.or (isOne 97) (isOne 98)) (isOne 99)]).filters, filter.Lexed := by
    simp [Mongosh.filters, isOne, Filter.Lexed, Value.Lexed, one]
  have some_filter : (Mongosh.receive
      [.or (.or (isOne 97) (isOne 98)) (isOne 99)]).filters ≠ [] := by decide
  obtain ⟨query, sent, means⟩ := always _ .start some_filter lexed ⟨rfl, rfl⟩
  have kept :=
    (sendable_of_means some_filter lexed ⟨rfl, rfl⟩ sent means).kept
  revert kept
  decide

end Client

end Reading

end TreeStore
