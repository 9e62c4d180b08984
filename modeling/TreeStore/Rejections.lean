import TreeStore.Spelling

/-!
# Rejected inputs

What an input that `yyparse` rejects leaves behind.  A query that is read to its
end is sent and forgotten.  But the filters of a query get into the list when
there is no further one, before the parser looks for the brace behind them, and
after an error there or later nothing takes them out again: the next query is
sent with them.
-/

namespace TreeStore

open ProgramLogic

namespace Client

/-- A query of which at least the filters are read. -/
inductive Collects : List Token → Prop
  | filters {command : Token} {given : List Filter} {text rest : List Token} :
      command ∈ [.receive, .delete, .update] → FiltersSpelled given text →
      rest.head? ≠ some .comma → Collects
        (.storage :: command :: .opBrace :: .opCBrace :: (text ++ rest))
  | parent (yytext : CharPtr) (rest : List Token) : Collects
      (.storage :: .insert :: .opBrace :: .opCBrace :: .parent :: .colon ::
        .int yytext :: .clCBrace :: rest)

def BeginsQuery (tokens : List Token) : Prop :=
  ∃ (mongosh : Mongosh) (text rest : List Token),
    mongosh.Spelled text ∧ tokens = text ++ rest

/-- Behind some queries, the input has an unfinished one with its filters. -/
inductive LeavesTrace : List Token → Prop
  | here {tokens : List Token} :
      ¬ BeginsQuery tokens → Collects tokens → LeavesTrace tokens
  | later {mongosh : Mongosh} {text rest : List Token} :
      mongosh.Spelled text → LeavesTrace rest → LeavesTrace (text ++ rest)

/-- A filter is in the list, which the next query does not replace. -/
def State.Stale (state : State) : Prop :=
  ∃ compList ∈ state.filtersList.tail, compList ≠ []

theorem FiltersSpelled.ne_nil {given : List Filter} {text : List Token}
    (spelled : FiltersSpelled given text) : given ≠ [] := by
  cases spelled with
  | last => exact List.cons_ne_nil _ _
  | more => exact List.cons_ne_nil _ _

/-- Every query has a filter. -/
theorem Mongosh.Spelled.filters_ne_nil {mongosh : Mongosh} {text : List Token}
    (spelled : mongosh.Spelled text) : mongosh.filters ≠ [] := by
  cases spelled with
  | receive spelled => exact spelled.ne_nil
  | delete spelled => exact spelled.ne_nil
  | insert => exact List.cons_ne_nil _ _
  | update spelled => exact spelled.ne_nil

theorem Mongosh.Spelled.head? {mongosh : Mongosh} {text rest : List Token}
    (spelled : mongosh.Spelled text) :
    (text ++ rest).head? = some .storage := by
  cases spelled <;> rfl

theorem Mongosh.Spelled.length_pos {mongosh : Mongosh} {text : List Token}
    (spelled : mongosh.Spelled text) : 0 < text.length := by
  cases spelled <;> exact Nat.succ_pos _

theorem Mongosh.Spelled.exists_read {mongosh : Mongosh} {text : List Token}
    (spelled : mongosh.Spelled text) (state : State) :
    ∃ state', mongosh.read state = some state' :=
  (mongosh.read_eq spelled.filters_ne_nil state).imp' _ fun _ reads => reads

theorem readSettings_filtersList (settings : List (CharPtr × Value))
    (state : State) :
    (readSettings settings state).filtersList = state.filtersList := by
  obtain ⟨vtype, settled⟩ := readSettings_eq settings state
  rw [settled]

/-- Filters that are read are in the list. -/
theorem stale_of_readFilters {given : List Filter} {state state' : State}
    (some_filter : given ≠ []) (reads : readFilters given state = some state') :
    state'.Stale := by
  obtain ⟨vtype, read⟩ := readFilters_eq some_filter state
  rw [read] at reads
  cases reads
  obtain ⟨filter, filters, rfl⟩ := List.exists_cons_of_ne_nil some_filter
  exact ⟨filter.compList, List.mem_cons_self, List.cons_ne_nil _ _⟩

theorem State.Stale.same {state state' : State} (stale : state.Stale)
    (same : state'.filtersList = state.filtersList) : state'.Stale := by
  rw [Stale, same]
  exact stale

namespace Parser

/-- The parent of an insertion is read like a filter. -/
theorem readParent_eq (yytext : CharPtr) (state : State) :
    readParent yytext state =
      readFilters [.value (parentText ++ [0]) (.int yytext)] state :=
  rfl

section Errors

variable {tokens rest text : List Token} {state state' : State}
  {sent : List Query} {errs : Reading → Prop} {fuel : Nat}
  {post : Unit → Reading → Prop}

theorem ends_valsDef (enough : tokens.length < fuel)
    (next : ∀ given text rest, SettingsSpelled given text →
      tokens = .opCBrace :: (text ++ .clCBrace :: rest) →
        post () ⟨rest, readSettings given state, sent⟩)
    (error : ∀ rest state', state'.filtersList = state.filtersList →
      errs ⟨rest, state', sent⟩) :
    ends (valsDef fuel) post (Errs errs) ⟨tokens, state, sent⟩ := by
  rw [valsDef]
  apply ends_bind
  apply ends_expect _ fun rest => error rest state rfl
  rintro rest rfl
  rw [List.length_cons] at enough
  apply ends_bind
  apply ends_setVals (by omega) _ error
  rintro given text rest spelled rfl -
  apply ends_expect
  · rintro rest rfl
    exact next given text rest spelled rfl
  · exact fun rest => error rest _ (readSettings_filtersList given state)

theorem ends_command {code : UInt8}
    (next : post () ⟨tokens, setCommand state code, sent⟩) :
    ends (command code) post (Errs errs) ⟨tokens, state, sent⟩ :=
  ends_of_wp (wp_act_some.mpr next)

/-- What is read as filters in their braces is the text of some; when they are
not followed by the brace, they have been read. -/
theorem ends_bracedFilters (enough : tokens.length ≤ fuel)
    (next : ∀ given text rest state', FiltersSpelled given text →
      tokens = .opBrace :: .opCBrace :: (text ++ .clCBrace :: rest) →
        readFilters given state = some state' → post () ⟨rest, state', sent⟩)
    (error : ∀ rest state', state.SameLists state' → errs ⟨rest, state', sent⟩)
    (late : ∀ given text left rest state', FiltersSpelled given text →
      tokens = .opBrace :: .opCBrace :: (text ++ left) →
        left.head? ≠ some .comma → errs ⟨rest, state', sent⟩) :
    ends (bracedFilters fuel) post (Errs errs) ⟨tokens, state, sent⟩ := by
  have here (rest : List Token) : errs ⟨rest, state, sent⟩ :=
    error rest state ⟨rfl, rfl⟩
  rw [bracedFilters]
  apply ends_bind
  apply ends_expect _ here
  rintro rest rfl
  apply ends_bind
  apply ends_expect _ here
  rintro rest rfl
  simp only [List.length_cons] at enough
  apply ends_bind
  apply ends_filters (by omega) _ error
  rintro given text left state' spelled rfl none reads
  apply ends_expect
  · rintro rest rfl
    exact next given text rest state' spelled rfl reads
  · exact fun rest => late given text left rest state' spelled rfl none

/-- The same for the rest of a query that has nothing but filters. -/
theorem ends_onlyFilters {code : UInt8} (enough : tokens.length ≤ fuel)
    (next : ∀ given text rest state', FiltersSpelled given text →
      tokens = .opBrace :: .opCBrace ::
        (text ++ .clCBrace :: .clBrace :: rest) →
      readFilters given state = some state' →
        post () ⟨rest, setCommand state' code, sent⟩)
    (error : ∀ rest state', state.SameLists state' → errs ⟨rest, state', sent⟩)
    (late : ∀ given text left rest state', FiltersSpelled given text →
      tokens = .opBrace :: .opCBrace :: (text ++ left) →
        left.head? ≠ some .comma → errs ⟨rest, state', sent⟩) :
    ends (do bracedFilters fuel; expect .clBrace; command code) post
      (Errs errs) ⟨tokens, state, sent⟩ := by
  apply ends_bind
  apply ends_bracedFilters enough _ error late
  rintro given text rest state' spelled rfl reads
  apply ends_bind
  apply ends_expect
  · rintro rest rfl
    exact ends_command (next given text rest state' spelled rfl reads)
  · exact fun rest => late given text _ rest state' spelled rfl (by simp)

/-- What is read as the parent of an insertion is the text of one. -/
theorem ends_parentDef
    (next : ∀ yytext rest state', tokens = .opCBrace :: .parent :: .colon ::
      .int yytext :: .clCBrace :: rest → readParent yytext state = some state' →
        post () ⟨rest, state', sent⟩)
    (error : ∀ rest, errs ⟨rest, state, sent⟩) :
    ends parentDef post (Errs errs) ⟨tokens, state, sent⟩ := by
  rw [parentDef]
  apply ends_bind
  apply ends_expect _ error
  rintro rest rfl
  apply ends_bind
  apply ends_expect _ error
  rintro rest rfl
  apply ends_bind
  apply ends_expect _ error
  rintro rest rfl
  apply ends_bind
  apply ends_lookahead
  split
  · next yytext number =>
      obtain ⟨rest, rfl⟩ := List.head?_eq_some_iff.mp number
      apply ends_bind
      apply ends_shift
      apply ends_bind
      apply ends_expect _ error
      rintro rest rfl
      apply ends_act
      intro state' reads
      exact next yytext rest state' rfl reads
  · exact ends_syntaxError error

theorem ends_insertRest (enough : tokens.length ≤ fuel)
    (next : ∀ yytext settings text rest state', SettingsSpelled settings text →
      tokens = .opBrace :: .opCBrace :: .parent :: .colon :: .int yytext ::
        .clCBrace :: .comma :: .opCBrace ::
          (text ++ .clCBrace :: .clCBrace :: rest) →
      readParent yytext state = some state' →
        post () ⟨rest, setCommand (readSettings settings state') 2, sent⟩)
    (error : ∀ rest, errs ⟨rest, state, sent⟩)
    (late : ∀ yytext left rest state', tokens = .opBrace :: .opCBrace ::
      .parent :: .colon :: .int yytext :: .clCBrace :: left →
        errs ⟨rest, state', sent⟩) :
    ends (do
      expect .opBrace
      parentDef
      expect .comma
      valsDef fuel
      expect .clCBrace
      command 2) post (Errs errs) ⟨tokens, state, sent⟩ := by
  apply ends_bind
  apply ends_expect _ error
  rintro rest rfl
  apply ends_bind
  apply ends_parentDef _ error
  rintro yytext rest middle rfl readsParent
  replace late := late yytext rest
  simp only [List.length_cons] at enough
  apply ends_bind
  apply ends_expect _ fun rest => late rest middle rfl
  rintro rest rfl
  rw [List.length_cons] at enough
  apply ends_bind
  apply ends_valsDef (by omega) _ fun rest state' _ => late rest state' rfl
  rintro settings text rest spelled rfl
  apply ends_bind
  apply ends_expect _ fun rest => late rest _ rfl
  rintro rest rfl
  exact ends_command (next _ _ _ _ _ spelled rfl readsParent)

theorem ends_updateRest (enough : tokens.length ≤ fuel)
    (next : ∀ given text settings text' rest state',
      FiltersSpelled given text → SettingsSpelled settings text' →
      tokens = .opBrace :: .opCBrace :: (text ++ .clCBrace :: .comma ::
        .dollar :: .set :: .colon :: .opCBrace ::
          (text' ++ .clCBrace :: .clBrace :: rest)) →
      readFilters given state = some state' →
        post () ⟨rest, setCommand (readSettings settings state') 3, sent⟩)
    (error : ∀ rest state', state.SameLists state' → errs ⟨rest, state', sent⟩)
    (late : ∀ given text left rest state', FiltersSpelled given text →
      tokens = .opBrace :: .opCBrace :: (text ++ left) →
        left.head? ≠ some .comma → errs ⟨rest, state', sent⟩) :
    ends (do
      bracedFilters fuel
      expect .comma
      expect .dollar
      expect .set
      expect .colon
      valsDef fuel
      expect .clBrace
      command 3) post (Errs errs) ⟨tokens, state, sent⟩ := by
  apply ends_bind
  apply ends_bracedFilters enough _ error late
  rintro given text rest middle spelled rfl readsFilters
  replace late (rest' : List Token) (state' : State) :=
    late given text _ rest' state' spelled rfl (by simp)
  simp only [List.length_cons, List.length_append] at enough
  apply ends_bind
  apply ends_expect _ fun rest => late rest middle
  rintro rest rfl
  apply ends_bind
  apply ends_expect _ fun rest => late rest middle
  rintro rest rfl
  apply ends_bind
  apply ends_expect _ fun rest => late rest middle
  rintro rest rfl
  apply ends_bind
  apply ends_expect _ fun rest => late rest middle
  rintro rest rfl
  simp only [List.length_cons] at enough
  apply ends_bind
  apply ends_valsDef (by omega) _ fun rest state' _ => late rest state'
  rintro settings text' rest spelled' rfl
  apply ends_bind
  apply ends_expect _ fun rest => late rest _
  rintro rest rfl
  exact ends_command (next _ _ _ _ _ _ spelled spelled' rfl readsFilters)

/-- What is read as a query is the text of one, and the lists are as they were
if there is an error before the filters of one are read. -/
theorem ends_mongosh (enough : tokens.length ≤ fuel)
    (next : ∀ (given : Mongosh) text rest state', given.Spelled text →
      tokens = text ++ rest → given.read state = some state' →
        post () ⟨rest, state', sent⟩)
    (error : ∀ rest state', (¬ Collects tokens → state.SameLists state') →
      errs ⟨rest, state', sent⟩) :
    ends (mongosh fuel) post (Errs errs) ⟨tokens, state, sent⟩ := by
  have early (rest : List Token) (state' : State)
      (same : state.SameLists state') : errs ⟨rest, state', sent⟩ :=
    error rest state' fun _ => same
  have here (rest : List Token) : errs ⟨rest, state, sent⟩ :=
    early rest state ⟨rfl, rfl⟩
  have late (collects : Collects tokens) (rest : List Token)
      (state' : State) : errs ⟨rest, state', sent⟩ :=
    error rest state' fun not => absurd collects not
  rw [mongosh]
  apply ends_bind
  apply ends_expect _ here
  rintro rest rfl
  rw [List.length_cons] at enough
  apply ends_bind
  apply ends_lookahead
  split
  · next received =>
      obtain ⟨rest, rfl⟩ := List.head?_eq_some_iff.mp received
      rw [List.length_cons] at enough
      apply ends_bind
      apply ends_shift
      apply ends_onlyFilters (by rw [List.tail_cons]; omega) _ early
      · rintro given text left rest state' spelled rfl none
        exact late (.filters (by simp) spelled none) rest state'
      · rintro given text rest state' spelled rfl reads
        apply next _ _ _ _ (.receive spelled)
        · simp
        · rw [Mongosh.read, reads]
          rfl
  · next deleted =>
      obtain ⟨rest, rfl⟩ := List.head?_eq_some_iff.mp deleted
      rw [List.length_cons] at enough
      apply ends_bind
      apply ends_shift
      apply ends_onlyFilters (by rw [List.tail_cons]; omega) _ early
      · rintro given text left rest state' spelled rfl none
        exact late (.filters (by simp) spelled none) rest state'
      · rintro given text rest state' spelled rfl reads
        apply next _ _ _ _ (.delete spelled)
        · simp
        · rw [Mongosh.read, reads]
          rfl
  · next inserted =>
      obtain ⟨rest, rfl⟩ := List.head?_eq_some_iff.mp inserted
      rw [List.length_cons] at enough
      apply ends_bind
      apply ends_shift
      apply ends_insertRest (by rw [List.tail_cons]; omega) _ here
      · rintro yytext left rest state' rfl
        exact late (.parent yytext left) rest state'
      · rintro yytext settings text rest state' spelled rfl reads
        apply next _ _ _ _ (.insert yytext spelled)
        · simp
        · rw [read_insert, reads]
          rfl
  · next updated =>
      obtain ⟨rest, rfl⟩ := List.head?_eq_some_iff.mp updated
      rw [List.length_cons] at enough
      apply ends_bind
      apply ends_shift
      apply ends_updateRest (by rw [List.tail_cons]; omega) _ early
      · rintro given text left rest state' spelled rfl none
        exact late (.filters (by simp) spelled none) rest state'
      · rintro given text settings text' rest state' spelled spelled' rfl reads
        apply next _ _ _ _ (.update spelled spelled')
        · simp
        · rw [Mongosh.read, reads]
          rfl
  · exact ends_syntaxError here

/-- Filters are in the list once they are read, also if there is no brace behind
them. -/
theorem ends_bracedFilters_of {given : List Filter}
    (spelled : FiltersSpelled given text) (none : rest.head? ≠ some .comma)
    (enough : text.length + 1 < fuel)
    (next : ∀ left state', rest = .clCBrace :: left → state'.Stale →
      post () ⟨left, state', sent⟩) :
    ends (bracedFilters fuel) post (Errs fun after => after.state.Stale)
      ⟨.opBrace :: .opCBrace :: (text ++ rest), state, sent⟩ := by
  obtain ⟨vtype, reads⟩ := readFilters_eq spelled.ne_nil state
  have stale := stale_of_readFilters spelled.ne_nil reads
  rw [bracedFilters]
  apply ends_bind
  apply ends_of_wp
  rw [wp_expect]
  apply ends_bind
  apply ends_of_wp
  rw [wp_expect]
  apply ends_bind
  apply ends_of_wp
  apply wp_filters spelled none enough reads
  exact ends_expect (fun left same => next left _ same stale) fun _ => stale

theorem ends_onlyFilters_of {given : List Filter} (code : UInt8)
    (spelled : FiltersSpelled given text) (none : rest.head? ≠ some .comma)
    (enough : text.length + 1 < fuel) :
    ends (do bracedFilters fuel; expect .clBrace; command code)
      (fun _ _ => True) (Errs fun after => after.state.Stale)
      ⟨.opBrace :: .opCBrace :: (text ++ rest), state, sent⟩ := by
  apply ends_bind
  apply ends_bracedFilters_of spelled none enough
  rintro left state' rfl stale
  apply ends_bind
  apply ends_expect _ fun _ => stale
  intro rest same
  exact ends_command trivial

/-- The settings and what is behind them leave the filters in the list. -/
theorem ends_settings_of (enough : tokens.length < fuel) (token : Token)
    (code : UInt8) (stale : state.Stale) :
    ends (do valsDef fuel; expect token; command code) (fun _ _ => True)
      (Errs fun after => after.state.Stale) ⟨tokens, state, sent⟩ := by
  apply ends_bind
  apply ends_valsDef enough
  · intro given text rest spelled same
    have kept := stale.same (readSettings_filtersList given state)
    apply ends_bind
    apply ends_expect
    · intro rest same
      exact ends_command trivial
    · exact fun _ => kept
  · exact fun rest state' same => stale.same same

/-- However the query goes on, its filters are in the list. -/
theorem ends_mongosh_of_collects (collects : Collects tokens)
    (enough : tokens.length ≤ fuel) :
    ends (mongosh fuel) (fun _ _ => True)
      (Errs fun after => after.state.Stale) ⟨tokens, state, sent⟩ := by
  rw [mongosh]
  cases collects with
  | @filters command given text rest known spelled none =>
      simp only [List.length_cons, List.length_append] at enough
      apply ends_bind
      apply ends_of_wp
      rw [wp_expect]
      apply ends_bind
      apply ends_lookahead
      rw [List.head?_cons]
      simp only [List.mem_cons, List.not_mem_nil, or_false] at known
      rcases known with rfl | rfl | rfl
      · apply ends_bind
        apply ends_shift
        exact ends_onlyFilters_of 0 spelled none (by omega)
      · apply ends_bind
        apply ends_shift
        exact ends_onlyFilters_of 1 spelled none (by omega)
      · apply ends_bind
        apply ends_shift
        apply ends_bind
        apply ends_bracedFilters_of spelled none (by omega)
        rintro left state' rfl stale
        simp only [List.length_cons] at enough
        apply ends_bind
        apply ends_expect _ fun _ => stale
        rintro left rfl
        apply ends_bind
        apply ends_expect _ fun _ => stale
        rintro left rfl
        apply ends_bind
        apply ends_expect _ fun _ => stale
        rintro left rfl
        apply ends_bind
        apply ends_expect _ fun _ => stale
        rintro left rfl
        simp only [List.length_cons] at enough
        exact ends_settings_of (by omega) .clBrace 3 stale
  | parent yytext rest =>
      simp only [List.length_cons] at enough
      obtain ⟨vtype, reads⟩ := readFilters_eq
        (List.cons_ne_nil (.value (parentText ++ [0]) (.int yytext)) []) state
      rw [← readParent_eq] at reads
      have stale := stale_of_readFilters (List.cons_ne_nil _ _)
        (readParent_eq yytext state ▸ reads)
      apply ends_bind
      apply ends_of_wp
      rw [wp_expect]
      apply ends_bind
      apply ends_lookahead
      rw [List.head?_cons]
      apply ends_bind
      apply ends_shift
      apply ends_bind
      apply ends_of_wp
      rw [List.tail_cons, wp_expect]
      apply ends_bind
      apply ends_of_wp
      apply wp_parentDef reads
      apply ends_bind
      apply ends_expect _ fun _ => stale
      rintro left rfl
      rw [List.length_cons] at enough
      exact ends_settings_of (by omega) .clCBrace 2 stale

/-- A query is read to its end. -/
theorem run_mongosh {given : Mongosh} (spelled : given.Spelled text)
    (enough : text.length ≤ fuel) (reads : given.read state = some state') :
    (mongosh fuel).run ⟨text ++ rest, state, sent⟩ =
      .ok ((), ⟨rest, state', sent⟩) := by
  have holds := @wp_mongosh rest text state state' sent fuel
    (fun _ after => after = ⟨rest, state', sent⟩) given spelled enough reads rfl
  obtain ⟨result, final, runs, rfl⟩ := holds
  exact runs

/-- What an error within a query says about its text and leaves behind. -/
theorem ends_mongosh_error (enough : tokens.length ≤ fuel)
    (next : ∀ (given : Mongosh) text rest state', given.Spelled text →
      tokens = text ++ rest → given.read state = some state' →
        post () ⟨rest, state', sent⟩)
    (error : ∀ rest state', ¬ BeginsQuery tokens →
      (Collects tokens → state'.Stale) →
      (¬ Collects tokens → state.SameLists state') →
        errs ⟨rest, state', sent⟩) :
    ends (mongosh fuel) post (Errs errs) ⟨tokens, state, sent⟩ := by
  apply ends_intro
  · intro result final runs
    have holds : ends (mongosh fuel) post (Errs fun _ => True)
        ⟨tokens, state, sent⟩ :=
      ends_mongosh enough next fun _ _ _ => trivial
    exact ends_of_run holds runs
  · intro fault faults
    have holds : ends (mongosh fuel) (fun _ _ => True)
        (Errs fun after => ∃ rest state', after = ⟨rest, state', sent⟩ ∧
          (¬ Collects tokens → state.SameLists state'))
        ⟨tokens, state, sent⟩ :=
      ends_mongosh enough (fun _ _ _ _ _ _ _ => trivial)
        fun rest state' same => ⟨rest, state', rfl, same⟩
    have left := ends_of_error holds faults
    cases fault with
    | undefined => trivial
    | outOfFuel => exact left
    | syntaxError after =>
        obtain ⟨rest, state', rfl, same⟩ := left
        apply error rest state' _ _ same
        · rintro ⟨given, text, rest, spelled, rfl⟩
          obtain ⟨state', reads⟩ := spelled.exists_read state
          rw [List.length_append] at enough
          rw [run_mongosh spelled (by omega) reads] at faults
          cases faults
        · intro collects
          have left :=
            ends_of_error (ends_mongosh_of_collects collects enough) faults
          exact left

theorem ends_printer
    (next : ∀ qtree state', state'.Fresh →
      post () ⟨tokens, state', sent ++ [qtree]⟩) :
    ends printer post (Errs errs) ⟨tokens, state, sent⟩ := by
  cases parsed : sendData state with
  | none =>
      refine Or.inr ⟨.undefined, ?_, trivial⟩
      rw [printer, run_bind_of (by rfl)]
      dsimp only
      rw [parsed]
      rfl
  | some out =>
      obtain ⟨qtree, state'⟩ := out
      apply ends_of_wp
      rw [printer, wp_bind, wp_get]
      dsimp only
      rw [parsed]
      apply wp_set_reading.mpr
      apply next
      obtain ⟨qtree', -, same⟩ := Option.bind_eq_some_iff.mp parsed
      cases same
      exact ⟨rfl, rfl⟩

end Errors

end Parser

/-- A text begins with one query at most. -/
theorem Mongosh.Spelled.rest_unique {mongosh mongosh' : Mongosh}
    {text text' rest rest' : List Token} (spelled : mongosh.Spelled text)
    (spelled' : mongosh'.Spelled text') (same : text ++ rest = text' ++ rest') :
    rest = rest' := by
  obtain ⟨state, reads⟩ := spelled.exists_read .start
  obtain ⟨state', reads'⟩ := spelled'.exists_read .start
  have runs := @Parser.run_mongosh rest text .start state []
    (text.length + text'.length) mongosh spelled (by omega) reads
  rw [same, Parser.run_mongosh spelled' (by omega) reads'] at runs
  cases runs
  rfl

theorem leavesTrace_append_iff {mongosh : Mongosh} {text rest : List Token}
    (spelled : mongosh.Spelled text) :
    LeavesTrace (text ++ rest) ↔ LeavesTrace rest := by
  constructor
  · generalize same : text ++ rest = tokens
    intro leaves
    cases leaves with
    | here none => exact absurd ⟨mongosh, text, rest, spelled, same.symm⟩ none
    | later spelled' leaves =>
        rw [spelled.rest_unique spelled' same]
        exact leaves
  · exact .later spelled

theorem leavesTrace_iff_collects {tokens : List Token}
    (none : ¬ BeginsQuery tokens) : LeavesTrace tokens ↔ Collects tokens := by
  constructor
  · intro leaves
    cases leaves with
    | here _ collects => exact collects
    | later spelled => exact absurd ⟨_, _, _, spelled, rfl⟩ none
  · exact .here none

/-- What the lists are after an input. -/
structure Traced (tokens : List Token) (before after : State) : Prop where
  stale : LeavesTrace tokens → after.Stale
  fresh : ¬ LeavesTrace tokens → BeginsQuery tokens → after.Fresh
  same : ¬ LeavesTrace tokens → ¬ BeginsQuery tokens → before.SameLists after

theorem State.Fresh.same {state state' : State} (fresh : state.Fresh)
    (same : state.SameLists state') : state'.Fresh :=
  ⟨same.1.trans fresh.1, same.2.trans fresh.2⟩

/-- The query in front is forgotten. -/
theorem Traced.later {mongosh : Mongosh} {text rest : List Token}
    {before middle after : State} (spelled : mongosh.Spelled text)
    (fresh : middle.Fresh) (traced : Traced rest middle after) :
    Traced (text ++ rest) before after where
  stale leaves := traced.stale ((leavesTrace_append_iff spelled).mp leaves)
  fresh none _ := by
    replace none := mt (leavesTrace_append_iff spelled).mpr none
    by_cases begins : BeginsQuery rest
    · exact traced.fresh none begins
    · exact fresh.same (traced.same none begins)
  same _ none := absurd ⟨mongosh, text, rest, spelled, rfl⟩ none

theorem Traced.unfinished {tokens : List Token} {before after : State}
    (none : ¬ BeginsQuery tokens) (stale : Collects tokens → after.Stale)
    (same : ¬ Collects tokens → before.SameLists after) :
    Traced tokens before after where
  stale leaves := stale ((leavesTrace_iff_collects none).mp leaves)
  fresh _ begins := absurd begins none
  same leaves _ := same (mt (leavesTrace_iff_collects none).mpr leaves)

/-- No query begins without its first word. -/
theorem Traced.refl {tokens : List Token}
    (none : tokens.head? ≠ some .storage) (state : State) :
    Traced tokens state state := by
  apply Traced.unfinished
  · rintro ⟨mongosh, text, rest, spelled, rfl⟩
    exact none spelled.head?
  · intro collects
    cases collects <;> exact absurd rfl none
  · exact fun _ => ⟨rfl, rfl⟩

namespace Parser

theorem Errs.imp {errs errs' : Reading → Prop}
    (weaker : ∀ after, errs after → errs' after) :
    ∀ fault, Errs errs fault → Errs errs' fault
  | .syntaxError after, left => weaker after left
  | .undefined, _ => trivial
  | .outOfFuel, left => left

variable {tokens : List Token} {state : State} {sent : List Query}

theorem ends_queries {fuel : Nat} (enough : tokens.length < fuel) :
    ends (queries fuel) (fun _ after => Traced tokens state after.state)
      (Errs fun after => Traced tokens state after.state)
      ⟨tokens, state, sent⟩ := by
  induction fuel generalizing tokens state sent with
  | zero => exact absurd enough (Nat.not_lt_zero _)
  | succ fuel ih =>
      rw [queries]
      apply ends_bind
      apply ends_lookahead
      by_cases begins : tokens.head? = some .storage
      · rw [if_pos begins]
        apply ends_bind
        apply ends_mongosh_error (by omega)
        · rintro mongosh text rest middle spelled rfl reads
          have shorter := spelled.length_pos
          rw [List.length_append] at enough
          apply ends_bind
          apply ends_printer
          intro qtree next fresh
          apply ends_mono (ih (by omega))
          · exact fun _ _ traced => traced.later spelled fresh
          · exact Errs.imp fun _ traced => traced.later spelled fresh
        · exact fun _ _ none stale same => .unfinished none stale same
      · rw [if_neg begins]
        exact ends_pure (.refl begins state)

/-- What an input leaves behind, whether it is rejected or not. -/
theorem ends_yyparse :
    ends yyparse (fun _ after => Traced tokens state after.state)
      (Errs fun after => Traced tokens state after.state)
      ⟨tokens, state, sent⟩ := by
  rw [yyparse]
  apply ends_bind
  apply ends_of_wp
  rw [wp_get]
  apply ends_bind
  apply ends_mono (ends_queries (Nat.lt_succ_self _)) _ fun _ left => left
  intro _ after traced
  apply ends_bind
  apply ends_lookahead
  split
  · exact ends_syntaxError fun _ => traced
  · exact ends_pure traced

end Parser

/-- Every input is read to its end or to an error. -/
theorem yyparse_run_ne_outOfFuel (reading : Reading) :
    yyparse.run reading ≠ .error .outOfFuel :=
  fun faults => ends_of_error Parser.ends_yyparse faults

end Client

end TreeStore
