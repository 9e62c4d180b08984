import TreeStore.Grammar

/-!
# Texts of queries

How a query is spelled in tokens.  The parser reads a spelled query with the
actions of its tree, whatever comes after it, and it reads nothing else; where
it finds an error within the filters, the lists are as they were before.
-/

namespace TreeStore

open ProgramLogic

namespace Client

def Value.tokens : Value → List Token
  | string text => [.quote, .string text, .quote]
  | int yytext => [.int yytext]
  | float yylval => [.float yylval]
  | bool true => [.trueT]
  | bool false => [.falseT]

def Comp.token : Comp → Token
  | loT => .loT
  | loEqT => .loEqT
  | grT => .grT
  | grEqT => .grEqT
  | noEq => .noEq

inductive Filter.Spelled : Filter → List Token → Prop
  | value (key : Slot) (given : Value) :
      Spelled (.value key.deref given)
        (.string key :: .colon :: given.tokens)
  | operation (key : Slot) (comp : Comp) (given : Value) :
      Spelled (.operation key.deref comp given)
        (.string key :: .colon :: .opCBrace :: .dollar :: comp.token ::
          .colon :: (given.tokens ++ [.clCBrace]))
  | or {first second : Filter} {text text' : List Token} :
      first.Spelled text → second.Spelled text' →
      Spelled (.or first second) (.dollar :: .or :: .opSqBrace ::
        (text ++ .comma :: (text' ++ [.clSqBrace])))

inductive FiltersSpelled : List Filter → List Token → Prop
  | last {filter : Filter} {text : List Token} :
      filter.Spelled text → FiltersSpelled [filter] text
  | more {filter : Filter} {filters : List Filter}
      {text text' : List Token} : filter.Spelled text →
      FiltersSpelled filters text' →
      FiltersSpelled (filter :: filters) (text ++ .comma :: text')

inductive SettingsSpelled : List (CharPtr × Value) → List Token → Prop
  | last (key : Slot) (given : Value) :
      SettingsSpelled [(key.deref, given)]
        (.string key :: .colon :: given.tokens)
  | more {settings : List (CharPtr × Value)} {text : List Token}
      (key : Slot) (given : Value) : SettingsSpelled settings text →
      SettingsSpelled ((key.deref, given) :: settings)
        (.string key :: .colon :: (given.tokens ++ .comma :: text))

inductive Mongosh.Spelled : Mongosh → List Token → Prop
  | receive {filters : List Filter} {text : List Token} :
      FiltersSpelled filters text → Spelled (.receive filters)
        (.storage :: .receive :: .opBrace :: .opCBrace ::
          (text ++ [.clCBrace, .clBrace]))
  | delete {filters : List Filter} {text : List Token} :
      FiltersSpelled filters text → Spelled (.delete filters)
        (.storage :: .delete :: .opBrace :: .opCBrace ::
          (text ++ [.clCBrace, .clBrace]))
  | insert {settings : List (CharPtr × Value)} {text : List Token}
      (yytext : CharPtr) : SettingsSpelled settings text →
      Spelled (.insert yytext settings)
        (.storage :: .insert :: .opBrace :: .opCBrace :: .parent :: .colon ::
          .int yytext :: .clCBrace :: .comma :: .opCBrace ::
            (text ++ [.clCBrace, .clCBrace]))
  | update {filters : List Filter} {settings : List (CharPtr × Value)}
      {text text' : List Token} : FiltersSpelled filters text →
      SettingsSpelled settings text' → Spelled (.update filters settings)
        (.storage :: .update :: .opBrace :: .opCBrace ::
          (text ++ .clCBrace :: .comma :: .dollar :: .set :: .colon ::
            .opCBrace :: (text' ++ [.clCBrace, .clBrace])))

namespace Parser

section Rules

variable {tokens rest : List Token} {token : Token} {state : State}
  {sent : List Query}

@[simp]
theorem wp_lookahead {reading : Reading}
    {post : Option Token → Reading → Prop} :
    wp lookahead post reading ↔ post reading.tokens.head? reading := by
  rw [lookahead, wp_bind, wp_get, wp_pure]

@[simp]
theorem wp_shift {post : Unit → Reading → Prop} :
    wp shift post ⟨tokens, state, sent⟩ ↔ post () ⟨tokens.tail, state, sent⟩ := by
  rw [shift, wp_modify]

@[simp]
theorem wp_expect {post : Unit → Reading → Prop} :
    wp (expect token) post ⟨token :: rest, state, sent⟩ ↔
      post () ⟨rest, state, sent⟩ := by
  rw [expect, wp_bind, wp_lookahead, List.head?_cons, if_pos rfl, wp_shift]
  rfl

theorem wp_set_reading {reading before : Reading}
    {post : Unit → Reading → Prop} :
    wp (set reading : Parser Unit) post before ↔ post () reading := by
  constructor
  · rintro ⟨result, final, runs, satisfied⟩
    cases runs
    exact satisfied
  · intro satisfied
    exact ⟨(), reading, rfl, satisfied⟩

theorem wp_act {action : State → Option State} {state' : State}
    {post : Unit → Reading → Prop} (acts : action state = some state')
    (next : post () ⟨tokens, state', sent⟩) :
    wp (act action) post ⟨tokens, state, sent⟩ := by
  rw [act, wp_bind, wp_get]
  dsimp only
  rw [acts]
  exact wp_set_reading.mpr next

theorem wp_act_some {update : State → State} {post : Unit → Reading → Prop} :
    wp (act fun state => some (update state)) post ⟨tokens, state, sent⟩ ↔
      post () ⟨tokens, update state, sent⟩ := by
  rw [act, wp_bind, wp_get]
  exact wp_set_reading

/-- A value is read behind its type. -/
theorem wp_value {given : Value} {post : Value → Reading → Prop}
    (next : post given ⟨rest, { state with vtype := given.vtype }, sent⟩) :
    wp value post ⟨given.tokens ++ rest, state, sent⟩ := by
  cases given with
  | string text => exact ⟨_, _, rfl, next⟩
  | int yytext => exact ⟨_, _, rfl, next⟩
  | float yylval => exact ⟨_, _, rfl, next⟩
  | bool truth => cases truth <;> exact ⟨_, _, rfl, next⟩

theorem wp_comp {given : Comp} {post : Comp → Reading → Prop}
    (next : post given ⟨rest, state, sent⟩) :
    wp comp post ⟨given.token :: rest, state, sent⟩ := by
  cases given <;> exact ⟨_, _, rfl, next⟩

theorem wp_operation {comp : Comp} {given : Value}
    {post : Value → Reading → Prop}
    (next : post given
      ⟨rest, setCurOper { state with vtype := given.vtype } comp.code, sent⟩) :
    wp operation post ⟨.dollar :: comp.token :: .colon ::
      (given.tokens ++ .clCBrace :: rest), state, sent⟩ := by
  rw [operation, wp_bind, wp_expect, wp_bind]
  apply wp_comp
  rw [wp_bind, wp_expect, wp_bind]
  apply wp_value
  rw [wp_bind, wp_expect, wp_bind, wp_act_some, wp_pure]
  exact next

theorem head_value_ne (given : Value) :
    (given.tokens ++ rest).head? ≠ some .opCBrace := by
  cases given with
  | string text => simp [Value.tokens]
  | int yytext => simp [Value.tokens]
  | float yylval => simp [Value.tokens]
  | bool truth => cases truth <;> simp [Value.tokens]

end Rules

section Spelled

variable {rest text : List Token} {state state' : State} {sent : List Query}
  {fuel : Nat} {post : Unit → Reading → Prop}

/-- A filter is read with the actions of its tree. -/
theorem wp_filter {given : Filter} (spelled : given.Spelled text)
    (enough : text.length < fuel) (reads : given.read state = some state')
    (next : post () ⟨rest, state', sent⟩) :
    wp (filter fuel) post ⟨text ++ rest, state, sent⟩ := by
  induction spelled generalizing fuel rest state state' post with
  | value key given =>
      cases fuel with
      | zero => exact absurd enough (Nat.not_lt_zero _)
      | succ fuel =>
          rw [filter, List.cons_append, List.cons_append, wp_bind, wp_lookahead]
          dsimp only [List.head?_cons]
          rw [wp_bind, wp_shift, wp_bind, List.tail_cons, wp_expect, wp_bind,
            wp_lookahead, if_neg (head_value_ne given), wp_bind]
          apply wp_value
          exact wp_act reads next
  | operation key comp given =>
      cases fuel with
      | zero => exact absurd enough (Nat.not_lt_zero _)
      | succ fuel =>
          simp only [List.cons_append, List.append_assoc, List.nil_append]
          rw [filter, wp_bind, wp_lookahead]
          dsimp only [List.head?_cons]
          rw [wp_bind, wp_shift, wp_bind, List.tail_cons, wp_expect, wp_bind,
            wp_lookahead, List.head?_cons, if_pos rfl, wp_bind, wp_shift,
            List.tail_cons, wp_bind]
          apply wp_operation
          exact wp_act reads next
  | @or first second text text' _ _ firstIH secondIH =>
      obtain ⟨middle, readsFirst, reads⟩ := Option.bind_eq_some_iff.mp reads
      obtain ⟨last, readsSecond, reads⟩ := Option.bind_eq_some_iff.mp reads
      cases fuel with
      | zero => exact absurd enough (Nat.not_lt_zero _)
      | succ fuel =>
          simp only [List.length_cons, List.length_append] at enough
          simp only [List.cons_append, List.append_assoc, List.nil_append]
          rw [filter, wp_bind, wp_lookahead]
          dsimp only [List.head?_cons]
          rw [wp_bind, wp_shift, wp_bind, List.tail_cons, wp_expect, wp_bind,
            wp_expect, wp_bind]
          apply firstIH (by omega) readsFirst
          rw [wp_bind, wp_expect, wp_bind]
          apply secondIH (by omega) readsSecond
          rw [wp_bind, wp_expect]
          exact wp_act reads next

theorem Filter.Spelled.ne_nil {given : Filter} (spelled : given.Spelled text) :
    text ≠ [] := by
  cases spelled <;> exact List.cons_ne_nil _ _

/-- Filters are read up to a token that is no comma. -/
theorem wp_filters {given : List Filter} (spelled : FiltersSpelled given text)
    (ends : rest.head? ≠ some .comma) (enough : text.length + 1 < fuel)
    (reads : readFilters given state = some state')
    (next : post () ⟨rest, state', sent⟩) :
    wp (filters fuel) post ⟨text ++ rest, state, sent⟩ := by
  induction spelled generalizing fuel rest state state' post with
  | last spelled =>
      obtain ⟨middle, readsFirst, reads⟩ := Option.bind_eq_some_iff.mp reads
      cases fuel with
      | zero => exact absurd enough (Nat.not_lt_zero _)
      | succ fuel =>
          rw [filters, wp_bind]
          apply wp_filter spelled (by omega) readsFirst
          rw [wp_bind, wp_lookahead, if_neg ends]
          exact wp_act reads next
  | more spelled _ ih =>
      obtain ⟨middle, readsFirst, reads⟩ := Option.bind_eq_some_iff.mp reads
      obtain ⟨last, readsRest, reads⟩ := Option.bind_eq_some_iff.mp reads
      cases fuel with
      | zero => exact absurd enough (Nat.not_lt_zero _)
      | succ fuel =>
          simp only [List.length_cons, List.length_append] at enough
          rw [filters, wp_bind, List.append_assoc]
          apply wp_filter spelled (by omega) readsFirst
          rw [wp_bind, wp_lookahead, List.cons_append, List.head?_cons,
            if_pos rfl, wp_bind, wp_shift, List.tail_cons, wp_bind]
          apply ih ends (by omega) readsRest
          exact wp_act reads next

theorem wp_setVal {key : Slot} {given : Value}
    (next : post () ⟨rest, addValSetting { state with vtype := given.vtype }
      key.deref given.split.1 given.split.2, sent⟩) :
    wp setVal post
      ⟨.string key :: .colon :: (given.tokens ++ rest), state, sent⟩ := by
  rw [setVal, wp_bind, wp_lookahead]
  dsimp only [List.head?_cons]
  rw [wp_bind, wp_shift, wp_bind, List.tail_cons, wp_expect, wp_bind]
  apply wp_value
  exact wp_act_some.mpr next

/-- Settings are read up to a token that is no comma. -/
theorem wp_setVals {given : List (CharPtr × Value)}
    (spelled : SettingsSpelled given text) (ends : rest.head? ≠ some .comma)
    (enough : text.length < fuel)
    (next : post () ⟨rest, readSettings given state, sent⟩) :
    wp (setVals fuel) post ⟨text ++ rest, state, sent⟩ := by
  induction spelled generalizing fuel state with
  | last key given =>
      cases fuel with
      | zero => exact absurd enough (Nat.not_lt_zero _)
      | succ fuel =>
          rw [setVals, List.cons_append, List.cons_append, wp_bind]
          apply wp_setVal
          rw [wp_bind, wp_lookahead, if_neg ends, wp_pure]
          exact next
  | more key given _ ih =>
      cases fuel with
      | zero => exact absurd enough (Nat.not_lt_zero _)
      | succ fuel =>
          simp only [List.length_cons, List.length_append] at enough
          simp only [List.cons_append, List.append_assoc]
          rw [setVals, wp_bind]
          apply wp_setVal
          rw [wp_bind, wp_lookahead, List.head?_cons, if_pos rfl, wp_bind,
            wp_shift, List.tail_cons]
          exact ih (by omega) next

theorem wp_bracedFilters {given : List Filter}
    (spelled : FiltersSpelled given text) (enough : text.length + 1 < fuel)
    (reads : readFilters given state = some state')
    (next : post () ⟨rest, state', sent⟩) :
    wp (bracedFilters fuel) post
      ⟨.opBrace :: .opCBrace :: (text ++ .clCBrace :: rest), state, sent⟩ := by
  rw [bracedFilters, wp_bind, wp_expect, wp_bind, wp_expect, wp_bind]
  apply wp_filters spelled (by simp) enough reads
  exact wp_expect.mpr next

/-- The rest of a query that has nothing but filters. -/
theorem wp_onlyFilters {given : List Filter} (code : UInt8)
    (spelled : FiltersSpelled given text) (enough : text.length + 1 < fuel)
    (reads : readFilters given state = some state')
    (next : post () ⟨rest, setCommand state' code, sent⟩) :
    wp (do bracedFilters fuel; expect .clBrace; command code) post
      ⟨.opBrace :: .opCBrace :: (text ++ .clCBrace :: .clBrace :: rest), state,
        sent⟩ := by
  rw [wp_bind]
  apply wp_bracedFilters spelled enough reads
  rw [wp_bind, wp_expect]
  exact wp_act_some.mpr next

theorem wp_valsDef {given : List (CharPtr × Value)}
    (spelled : SettingsSpelled given text) (enough : text.length < fuel)
    (next : post () ⟨rest, readSettings given state, sent⟩) :
    wp (valsDef fuel) post
      ⟨.opCBrace :: (text ++ .clCBrace :: rest), state, sent⟩ := by
  rw [valsDef, wp_bind, wp_expect, wp_bind]
  apply wp_setVals spelled (by simp) enough
  exact wp_expect.mpr next

/-- The action of `parent_def`. -/
def readParent (yytext : CharPtr) (state : State) : Option State := do
  let state := { setCurOper state 0 with vtype := INT_TYPE }
  let state ← setCurVal state (parentText ++ [0]) (numberSlot (vint yytext)) 0
  switchFilter state

theorem wp_parentDef {yytext : CharPtr}
    (reads : readParent yytext state = some state')
    (next : post () ⟨rest, state', sent⟩) :
    wp parentDef post ⟨.opCBrace :: .parent :: .colon :: .int yytext ::
      .clCBrace :: rest, state, sent⟩ := by
  rw [parentDef, wp_bind, wp_expect, wp_bind, wp_expect, wp_bind, wp_expect,
    wp_bind, wp_lookahead]
  dsimp only [List.head?_cons]
  rw [wp_bind, wp_shift, List.tail_cons, wp_bind, wp_expect]
  exact wp_act reads next

theorem read_insert (yytext : CharPtr) (settings : List (CharPtr × Value)) :
    (Mongosh.insert yytext settings).read state =
      (readParent yytext state).map fun state =>
        setCommand (readSettings settings state) 2 :=
  rfl

/-- A query is read with the actions of its tree. -/
theorem wp_mongosh {given : Mongosh} (spelled : given.Spelled text)
    (enough : text.length ≤ fuel) (reads : given.read state = some state')
    (next : post () ⟨rest, state', sent⟩) :
    wp (mongosh fuel) post ⟨text ++ rest, state, sent⟩ := by
  cases spelled with
  | receive spelled =>
      obtain ⟨middle, readsFilters, reads⟩ := Option.bind_eq_some_iff.mp reads
      cases reads
      simp only [List.length_cons, List.length_append] at enough
      simp only [List.cons_append, List.append_assoc, List.nil_append]
      rw [mongosh, wp_bind, wp_expect, wp_bind, wp_lookahead]
      dsimp only [List.head?_cons]
      rw [wp_bind, wp_shift, List.tail_cons]
      exact wp_onlyFilters 0 spelled (by omega) readsFilters next
  | delete spelled =>
      obtain ⟨middle, readsFilters, reads⟩ := Option.bind_eq_some_iff.mp reads
      cases reads
      simp only [List.length_cons, List.length_append] at enough
      simp only [List.cons_append, List.append_assoc, List.nil_append]
      rw [mongosh, wp_bind, wp_expect, wp_bind, wp_lookahead]
      dsimp only [List.head?_cons]
      rw [wp_bind, wp_shift, List.tail_cons]
      exact wp_onlyFilters 1 spelled (by omega) readsFilters next
  | insert yytext spelled =>
      rw [read_insert] at reads
      obtain ⟨middle, readsParent, rfl⟩ := Option.map_eq_some_iff.mp reads
      simp only [List.length_cons, List.length_append] at enough
      simp only [List.cons_append, List.append_assoc, List.nil_append]
      rw [mongosh, wp_bind, wp_expect, wp_bind, wp_lookahead]
      dsimp only [List.head?_cons]
      rw [wp_bind, wp_shift, List.tail_cons, wp_bind, wp_expect, wp_bind]
      apply wp_parentDef readsParent
      rw [wp_bind, wp_expect, wp_bind]
      apply wp_valsDef spelled (by omega)
      rw [wp_bind, wp_expect]
      exact wp_act_some.mpr next
  | update spelled spelled' =>
      obtain ⟨middle, readsFilters, reads⟩ := Option.bind_eq_some_iff.mp reads
      cases reads
      simp only [List.length_cons, List.length_append] at enough
      simp only [List.cons_append, List.append_assoc, List.nil_append]
      rw [mongosh, wp_bind, wp_expect, wp_bind, wp_lookahead]
      dsimp only [List.head?_cons]
      rw [wp_bind, wp_shift, List.tail_cons, wp_bind]
      apply wp_bracedFilters spelled (by omega) readsFilters
      rw [wp_bind, wp_expect, wp_bind, wp_expect, wp_bind, wp_expect, wp_bind,
        wp_expect, wp_bind]
      apply wp_valsDef spelled' (by omega)
      rw [wp_bind, wp_expect]
      exact wp_act_some.mpr next

end Spelled

/-- An error leaves a reading behind of which `errs` holds.  The input is always
read to its end or to an error. -/
def Errs (errs : Reading → Prop) : Stop → Prop
  | .syntaxError reading => errs reading
  | .undefined => True
  | .outOfFuel => False

section Ends

variable {α : Type} {tokens : List Token} {token : Token} {state : State}
  {sent : List Query} {errs : Reading → Prop} {fuel : Nat}
  {post : Unit → Reading → Prop}

theorem ends_lookahead {post : Option Token → Reading → Prop}
    (next : post tokens.head? ⟨tokens, state, sent⟩) :
    ends lookahead post (Errs errs) ⟨tokens, state, sent⟩ :=
  ends_of_wp (wp_lookahead.mpr next)

theorem ends_shift (next : post () ⟨tokens.tail, state, sent⟩) :
    ends shift post (Errs errs) ⟨tokens, state, sent⟩ :=
  ends_of_wp (wp_shift.mpr next)

theorem ends_syntaxError {post : α → Reading → Prop}
    (error : ∀ rest, errs ⟨rest, state, sent⟩) :
    ends (syntaxError : Parser α) post (Errs errs) ⟨tokens, state, sent⟩ :=
  Or.inr ⟨_, rfl, error _⟩

theorem ends_expect
    (next : ∀ rest, tokens = token :: rest → post () ⟨rest, state, sent⟩)
    (error : ∀ rest, errs ⟨rest, state, sent⟩) :
    ends (expect token) post (Errs errs) ⟨tokens, state, sent⟩ := by
  rw [expect]
  apply ends_bind
  apply ends_lookahead
  by_cases fits : tokens.head? = some token
  · rw [if_pos fits]
    obtain ⟨rest, rfl⟩ := List.head?_eq_some_iff.mp fits
    exact ends_shift (next rest rfl)
  · rw [if_neg fits]
    exact ends_syntaxError error

theorem ends_act {action : State → Option State}
    (next : ∀ state', action state = some state' →
      post () ⟨tokens, state', sent⟩) :
    ends (act action) post (Errs errs) ⟨tokens, state, sent⟩ := by
  cases acts : action state with
  | none =>
      refine Or.inr ⟨.undefined, ?_, trivial⟩
      rw [act, run_bind_of (by rfl)]
      dsimp only
      rw [acts]
      rfl
  | some state' => exact ends_of_wp (wp_act acts (next state' acts))

theorem ends_typed {given : Value} {post : Value → Reading → Prop}
    (next : post given ⟨tokens, { state with vtype := given.vtype }, sent⟩) :
    ends (typed given) post (Errs errs) ⟨tokens, state, sent⟩ :=
  ends_of_wp ⟨_, _, rfl, next⟩

theorem ends_value {post : Value → Reading → Prop}
    (next : ∀ given rest, tokens = given.tokens ++ rest →
      post given ⟨rest, { state with vtype := given.vtype }, sent⟩)
    (error : ∀ rest, errs ⟨rest, state, sent⟩) :
    ends value post (Errs errs) ⟨tokens, state, sent⟩ := by
  rw [value]
  apply ends_bind
  apply ends_lookahead
  cases head : tokens.head? with
  | none => exact ends_syntaxError error
  | some token =>
      obtain ⟨rest, rfl⟩ := List.head?_eq_some_iff.mp head
      cases token with
      | quote =>
          apply ends_bind
          apply ends_shift
          apply ends_bind
          apply ends_lookahead
          rw [List.tail_cons]
          cases quoted : rest.head? with
          | none => exact ends_syntaxError error
          | some token =>
              obtain ⟨rest, rfl⟩ := List.head?_eq_some_iff.mp quoted
              cases token with
              | string text =>
                  apply ends_bind
                  apply ends_shift
                  apply ends_bind
                  apply ends_expect _ error
                  rintro rest rfl
                  exact ends_typed (next (.string text) rest rfl)
              | _ => exact ends_syntaxError error
      | int yytext =>
          apply ends_bind
          apply ends_shift
          exact ends_typed (next (.int yytext) rest rfl)
      | float yylval =>
          apply ends_bind
          apply ends_shift
          exact ends_typed (next (.float yylval) rest rfl)
      | trueT =>
          apply ends_bind
          apply ends_shift
          exact ends_typed (next (.bool true) rest rfl)
      | falseT =>
          apply ends_bind
          apply ends_shift
          exact ends_typed (next (.bool false) rest rfl)
      | _ => exact ends_syntaxError error

theorem ends_comp {post : Comp → Reading → Prop}
    (next : ∀ given rest, tokens = given.token :: rest →
      post given ⟨rest, state, sent⟩)
    (error : ∀ rest, errs ⟨rest, state, sent⟩) :
    ends comp post (Errs errs) ⟨tokens, state, sent⟩ := by
  have found {given : Comp} (here : tokens.head? = some given.token) :
      ends (do shift; return given) post (Errs errs)
        ⟨tokens, state, sent⟩ := by
    obtain ⟨rest, rfl⟩ := List.head?_eq_some_iff.mp here
    exact ends_of_wp ⟨_, _, rfl, next given rest rfl⟩
  rw [comp]
  apply ends_bind
  apply ends_lookahead
  split
  · next here => exact @found .loT here
  · next here => exact @found .loEqT here
  · next here => exact @found .grT here
  · next here => exact @found .grEqT here
  · next here => exact @found .noEq here
  · exact ends_syntaxError error

theorem ends_operation {post : Value → Reading → Prop}
    (next : ∀ (comp : Comp) (given : Value) rest, tokens = .dollar ::
      comp.token :: .colon :: (given.tokens ++ .clCBrace :: rest) →
        post given ⟨rest, setCurOper { state with vtype := given.vtype }
          comp.code, sent⟩)
    (error : ∀ vtype rest, errs ⟨rest, { state with vtype := vtype }, sent⟩) :
    ends operation post (Errs errs) ⟨tokens, state, sent⟩ := by
  rw [operation]
  apply ends_bind
  apply ends_expect _ (error state.vtype)
  rintro rest rfl
  apply ends_bind
  apply ends_comp _ (error state.vtype)
  rintro comp rest rfl
  apply ends_bind
  apply ends_expect _ (error state.vtype)
  rintro rest rfl
  apply ends_bind
  apply ends_value _ (error state.vtype)
  rintro given rest rfl
  apply ends_bind
  apply ends_expect _ (error given.vtype)
  rintro rest rfl
  apply ends_bind
  apply ends_act
  rintro _ ⟨⟩
  exact ends_pure (next comp given rest rfl)

end Ends

end Parser

/-- The lists of filters and settings are the same. -/
def State.SameLists (state state' : State) : Prop :=
  state'.filtersList = state.filtersList ∧
    state'.settingsList = state.settingsList

theorem State.SameLists.trans {first second third : State}
    (before : first.SameLists second) (after : second.SameLists third) :
    first.SameLists third :=
  ⟨after.1.trans before.1, after.2.trans before.2⟩

/-- A filter alone does not get into a list. -/
theorem Filter.sameLists {given : Filter} {state state' : State}
    (reads : given.read state = some state') : state.SameLists state' := by
  rw [given.read_eq] at reads
  cases reads
  exact ⟨rfl, rfl⟩

namespace Parser

section Lists

variable {tokens : List Token} {state : State} {sent : List Query}
  {errs : Reading → Prop} {fuel : Nat} {post : Unit → Reading → Prop}

/-- What is read as a filter is the text of one. -/
theorem ends_filter (enough : tokens.length < fuel)
    (next : ∀ (given : Filter) text rest state', given.Spelled text →
      tokens = text ++ rest → given.read state = some state' →
        post () ⟨rest, state', sent⟩)
    (error : ∀ rest state', state.SameLists state' →
      errs ⟨rest, state', sent⟩) :
    ends (filter fuel) post (Errs errs) ⟨tokens, state, sent⟩ := by
  induction fuel generalizing tokens state post with
  | zero => exact absurd enough (Nat.not_lt_zero _)
  | succ fuel ih =>
      have here (rest : List Token) : errs ⟨rest, state, sent⟩ :=
        error rest state ⟨rfl, rfl⟩
      rw [filter]
      apply ends_bind
      apply ends_lookahead
      split
      · next key named =>
          obtain ⟨rest, rfl⟩ := List.head?_eq_some_iff.mp named
          apply ends_bind
          apply ends_shift
          apply ends_bind
          apply ends_expect _ here
          rintro rest rfl
          apply ends_bind
          apply ends_lookahead
          by_cases operated : rest.head? = some .opCBrace
          · rw [if_pos operated]
            obtain ⟨rest, rfl⟩ := List.head?_eq_some_iff.mp operated
            apply ends_bind
            apply ends_shift
            apply ends_bind
            apply ends_operation _ fun vtype rest => error rest _ ⟨rfl, rfl⟩
            rintro comp given rest rfl
            apply ends_act
            intro state' reads
            apply next _ _ _ _ (.operation key comp given) _ reads
            simp
          · rw [if_neg operated]
            apply ends_bind
            apply ends_value _ here
            rintro given rest rfl
            apply ends_act
            intro state' reads
            exact next _ _ _ _ (.value key given) rfl reads
      · next either =>
          obtain ⟨rest, rfl⟩ := List.head?_eq_some_iff.mp either
          apply ends_bind
          apply ends_shift
          apply ends_bind
          apply ends_expect _ here
          rintro rest rfl
          apply ends_bind
          apply ends_expect _ here
          rintro rest rfl
          simp only [List.length_cons] at enough
          apply ends_bind
          apply ih (by omega) _ error
          rintro first text rest middle spelled rfl readsFirst
          rw [List.length_append] at enough
          have later := Filter.sameLists readsFirst
          apply ends_bind
          apply ends_expect _ fun rest => error rest middle later
          rintro rest rfl
          rw [List.length_cons] at enough
          apply ends_bind
          apply ih (by omega) _ fun rest state' same =>
            error rest state' (later.trans same)
          rintro second text' rest last spelled' rfl readsSecond
          apply ends_bind
          apply ends_expect _ fun rest => error rest last
            (later.trans (Filter.sameLists readsSecond))
          rintro rest rfl
          apply ends_act
          intro state' reads
          refine next _ _ _ _ (.or spelled spelled') ?_ ?_
          · simp
          · rw [Filter.read, readsFirst]
            simp only [Option.bind_eq_bind, Option.bind_some, readsSecond]
            exact reads
      · exact ends_syntaxError here

/-- What is read as filters is the text of some, and nothing is put into a list
before all of them are read. -/
theorem ends_filters (enough : tokens.length + 1 < fuel)
    (next : ∀ given text rest state', FiltersSpelled given text →
      tokens = text ++ rest → rest.head? ≠ some .comma →
        readFilters given state = some state' → post () ⟨rest, state', sent⟩)
    (error : ∀ rest state', state.SameLists state' →
      errs ⟨rest, state', sent⟩) :
    ends (filters fuel) post (Errs errs) ⟨tokens, state, sent⟩ := by
  induction fuel generalizing tokens state post with
  | zero => exact absurd enough (Nat.not_lt_zero _)
  | succ fuel ih =>
      rw [filters]
      apply ends_bind
      apply ends_filter (by omega) _ error
      rintro first text rest middle spelled rfl readsFirst
      have later := Filter.sameLists readsFirst
      apply ends_bind
      apply ends_lookahead
      by_cases more : rest.head? = some .comma
      · rw [if_pos more]
        obtain ⟨rest, rfl⟩ := List.head?_eq_some_iff.mp more
        apply ends_bind
        apply ends_shift
        rw [List.length_append, List.length_cons] at enough
        apply ends_bind
        apply ih (by rw [List.tail_cons]; omega) _ fun rest state' same =>
          error rest state' (later.trans same)
        rintro given text' rest last spelled' same none readsRest
        apply ends_act
        intro state' reads
        apply next _ _ _ _ (.more spelled spelled') _ none
        · rw [readFilters, readsFirst]
          simp only [Option.bind_eq_bind, Option.bind_some, readsRest]
          exact reads
        · rw [List.append_assoc, List.cons_append, ← same]
          rfl
      · rw [if_neg more]
        apply ends_act
        intro state' reads
        apply next _ _ _ _ (.last spelled) rfl more
        rw [readFilters, readsFirst]
        exact reads

theorem ends_setVal
    (next : ∀ (key : Slot) (given : Value) rest,
      tokens = .string key :: .colon :: (given.tokens ++ rest) →
        post () ⟨rest, addValSetting { state with vtype := given.vtype }
          key.deref given.split.1 given.split.2, sent⟩)
    (error : ∀ rest state', state'.filtersList = state.filtersList →
      errs ⟨rest, state', sent⟩) :
    ends setVal post (Errs errs) ⟨tokens, state, sent⟩ := by
  have here (rest : List Token) : errs ⟨rest, state, sent⟩ :=
    error rest state rfl
  rw [setVal]
  apply ends_bind
  apply ends_lookahead
  split
  · next key named =>
      obtain ⟨rest, rfl⟩ := List.head?_eq_some_iff.mp named
      apply ends_bind
      apply ends_shift
      apply ends_bind
      apply ends_expect _ here
      rintro rest rfl
      apply ends_bind
      apply ends_value _ here
      rintro given rest rfl
      apply ends_act
      rintro _ ⟨⟩
      exact next key given rest rfl
  · exact ends_syntaxError here

/-- What is read as settings is the text of some. -/
theorem ends_setVals (enough : tokens.length < fuel)
    (next : ∀ given text rest, SettingsSpelled given text →
      tokens = text ++ rest → rest.head? ≠ some .comma →
        post () ⟨rest, readSettings given state, sent⟩)
    (error : ∀ rest state', state'.filtersList = state.filtersList →
      errs ⟨rest, state', sent⟩) :
    ends (setVals fuel) post (Errs errs) ⟨tokens, state, sent⟩ := by
  induction fuel generalizing tokens state with
  | zero => exact absurd enough (Nat.not_lt_zero _)
  | succ fuel ih =>
      rw [setVals]
      apply ends_bind
      apply ends_setVal _ error
      rintro key given rest rfl
      apply ends_bind
      apply ends_lookahead
      by_cases more : rest.head? = some .comma
      · rw [if_pos more]
        obtain ⟨rest, rfl⟩ := List.head?_eq_some_iff.mp more
        simp only [List.length_cons, List.length_append] at enough
        apply ends_bind
        apply ends_shift
        apply ih (by rw [List.tail_cons]; omega)
        · rintro settings text rest spelled same none
          apply next _ _ _ (.more key given spelled) _ none
          rw [List.cons_append, List.cons_append, List.append_assoc,
            List.cons_append, ← same]
          rfl
        · exact fun rest state' same => error rest state' same
      · rw [if_neg more]
        exact ends_pure (next _ _ _ (.last key given) rfl more)

end Lists

end Parser

end Client

end TreeStore
