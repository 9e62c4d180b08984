import TreeStore.Rejections

/-!
# Sessions of the client

The client calls `yyparse` again and again, and keeps its global variables from
one call to the next.  A call that rejects an input has read it up to the token
that does not fit.
-/

namespace TreeStore

open ProgramLogic

namespace Client

/-- `yyparse` accepts the text, and has sent the message for it. -/
def Accepts (text : List Token) (state : State) (message : Query) : Prop :=
  ∃ after, yyparse.run ⟨text, state, []⟩ = .ok ((), ⟨[], after, [message]⟩)

/-- `yyparse` has rejected the inputs since the client started, the last one in
front. -/
inductive Rejected : List (List Token) → State → Prop
  | start : Rejected [] .start
  | next {inputs : List (List Token)} {input : List Token}
      {state state' : State} {sent : List Query} : Rejected inputs state →
      yyparse.run ⟨input, state, []⟩ =
        .error (.syntaxError ⟨[], state', sent⟩) →
      Rejected (input :: inputs) state'

/-- No input leaves filters behind that the inputs after it have not sent. -/
def Traceless : List (List Token) → Prop
  | [] => True
  | input :: inputs =>
      ¬ LeavesTrace input ∧ (BeginsQuery input ∨ Traceless inputs)

namespace Parser

variable {text tokens : List Token} {state state' : State} {sent : List Query}
  {post : Unit → Reading → Prop}

theorem wp_printer : wp printer post ⟨tokens, state, sent⟩ ↔
    ∃ qtree after, sendData state = some (qtree, after) ∧
      post () ⟨tokens, after, sent ++ [qtree]⟩ := by
  rw [printer, wp_bind, wp_get]
  dsimp only
  cases parsed : sendData state with
  | none =>
      constructor
      · exact fun faults => absurd faults (wp_throw _)
      · rintro ⟨qtree, after, ⟨⟩, -⟩
  | some out =>
      obtain ⟨qtree, after⟩ := out
      apply wp_set_reading.trans
      constructor
      · exact fun next => ⟨qtree, after, rfl, next⟩
      · rintro ⟨_, _, ⟨⟩, next⟩
        exact next

/-- A query alone is accepted when there is a message for it. -/
theorem wp_yyparse {mongosh : Mongosh} (spelled : mongosh.Spelled text)
    (reads : mongosh.read state = some state') :
    wp yyparse post ⟨text, state, sent⟩ ↔
      ∃ qtree after, sendData state' = some (qtree, after) ∧
        post () ⟨[], after, sent ++ [qtree]⟩ := by
  obtain ⟨length, long⟩ := Nat.exists_eq_succ_of_ne_zero spelled.length_pos.ne'
  have begins : text.head? = some .storage := by
    simpa using @Mongosh.Spelled.head? mongosh text [] spelled
  have runs := @run_mongosh [] text state state' sent text.length mongosh
    spelled le_rfl reads
  rw [List.append_nil] at runs
  rw [yyparse, wp_bind, wp_get, wp_bind, queries, wp_bind, wp_lookahead,
    if_pos begins, wp_bind]
  dsimp only
  rw [wp_iff_of_run runs, wp_bind, wp_printer, long, queries]
  apply exists_congr
  intro qtree
  apply exists_congr
  intro after
  apply and_congr_right
  intro _
  rw [wp_bind, wp_lookahead, if_neg (by simp), wp_pure, wp_bind, wp_lookahead,
    if_neg (by simp), wp_pure]

/-- When no message is sent, nothing is read, and one message is for one
query. -/
theorem ends_queries_sent {fuel : Nat} (enough : tokens.length < fuel) :
    ends (queries fuel) (fun _ after => after = ⟨tokens, state, sent⟩ ∨
        ∃ (mongosh : Mongosh) (text rest : List Token), mongosh.Spelled text ∧
          tokens = text ++ rest ∧ sent.length < after.sent.length ∧
            (after.sent.length = sent.length + 1 → after.tokens = rest))
      (Errs fun _ => True) ⟨tokens, state, sent⟩ := by
  induction fuel generalizing tokens state sent with
  | zero => exact absurd enough (Nat.not_lt_zero _)
  | succ fuel ih =>
      rw [queries]
      apply ends_bind
      apply ends_lookahead
      by_cases begins : tokens.head? = some .storage
      · rw [if_pos begins]
        apply ends_bind
        apply ends_mongosh (by omega) _ fun _ _ _ => trivial
        rintro mongosh text rest middle spelled rfl reads
        have shorter := spelled.length_pos
        rw [List.length_append] at enough
        apply ends_bind
        apply ends_printer
        intro qtree next fresh
        apply ends_mono (ih (by omega)) _ fun _ left => left
        rintro _ after (rfl | ⟨_, _, _, _, _, longer, _⟩)
        · exact Or.inr ⟨mongosh, text, rest, spelled, rfl, by simp,
            fun _ => rfl⟩
        · rw [List.length_append, List.length_singleton] at longer
          exact Or.inr ⟨mongosh, text, rest, spelled, rfl, by omega,
            fun once => absurd once longer.ne'⟩
      · rw [if_neg begins]
        exact ends_pure (Or.inl rfl)

end Parser

/-- Only a query is accepted with one message. -/
theorem Accepts.spelled {text : List Token} {state : State} {message : Query}
    (accepts : Accepts text state message) :
    ∃ mongosh : Mongosh, mongosh.Spelled text := by
  obtain ⟨after, runs⟩ := accepts
  have holds : ends yyparse (fun _ final => final.tokens = [] →
      final.sent.length = 1 → ∃ mongosh : Mongosh, mongosh.Spelled text)
      (Parser.Errs fun _ => True) ⟨text, state, []⟩ := by
    rw [yyparse]
    apply ends_bind
    apply ends_of_wp
    rw [wp_get]
    apply ends_bind
    apply ends_mono (Parser.ends_queries_sent (Nat.lt_succ_self _)) _
      fun _ left => left
    intro _ final read
    apply ends_bind
    apply Parser.ends_lookahead
    split
    · exact Parser.ends_syntaxError fun _ => trivial
    · apply ends_pure
      intro whole once
      rcases read with rfl | ⟨mongosh, text, rest, spelled, rfl, -, left⟩
      · cases once
      · have nothing : rest = [] := (left once).symm.trans whole
        rw [nothing, List.append_nil]
        exact ⟨mongosh, spelled⟩
  exact ends_of_run holds runs rfl rfl

theorem accepts_iff {mongosh : Mongosh} {text : List Token} {state : State}
    {message : Query} (spelled : mongosh.Spelled text) :
    Accepts text state message ↔
      (mongosh.read state).bind parseQuery = some message := by
  obtain ⟨state', reads⟩ := spelled.exists_read state
  have accepts : Accepts text state message ↔ wp yyparse
      (fun _ final => ∃ after, final = ⟨[], after, [message]⟩)
        ⟨text, state, []⟩ := by
    constructor
    · rintro ⟨after, runs⟩
      exact ⟨(), _, runs, after, rfl⟩
    · rintro ⟨_, _, runs, after, rfl⟩
      exact ⟨after, runs⟩
  rw [accepts, Parser.wp_yyparse spelled reads, reads, Option.bind_some]
  constructor
  · rintro ⟨qtree, after, sends, _, same⟩
    obtain ⟨qtree', parsed, made⟩ := Option.bind_eq_some_iff.mp sends
    cases made
    cases same
    exact parsed
  · intro parsed
    exact ⟨message, ⟨0, [], [], state'.cmp, state'.vtype⟩,
      by rw [sendData, parsed]; rfl, _, rfl⟩

/-- Only the filters that are in the list already come on top of those of the
query. -/
theorem Accepts.length {mongosh : Mongosh} {text : List Token} {state : State}
    {message : Query} (accepts : Accepts text state message)
    (spelled : mongosh.Spelled text) :
    message.filtersList.length = mongosh.filters.length +
      (state.filtersList.tail.filter fun compList =>
        ¬ compList.isEmpty).length := by
  obtain ⟨vtype, reads⟩ := mongosh.read_eq spelled.filters_ne_nil state
  rw [accepts_iff spelled, reads, Option.bind_some, parseQuery,
    List.filter_cons_of_neg (by simp), List.filter_append,
    filter_compList] at accepts
  unfold parseLists at accepts
  obtain ⟨filters, filtered, accepts⟩ := Option.bind_eq_some_iff.mp accepts
  obtain ⟨settings, settled, accepts⟩ := Option.bind_eq_some_iff.mp accepts
  split_ifs at accepts with fits fits'
  cases accepts
  rw [← (mapM_eq_some_iff.mp filtered).length_eq, List.length_append,
    List.length_map]

/-- While a filter is left behind, no query is sent as it would be first. -/
theorem not_accepts_of_stale {mongosh : Mongosh} {text : List Token}
    {state : State} {message : Query} (stale : state.Stale)
    (spelled : mongosh.Spelled text) (first : Accepts text .start message) :
    ¬ Accepts text state message := by
  intro accepts
  obtain ⟨compList, member, some_comp⟩ := stale
  have left : 0 < (state.filtersList.tail.filter fun compList =>
      ¬ compList.isEmpty).length := by
    apply List.length_pos_of_mem
    apply List.mem_filter.mpr
    exact ⟨member, by simpa using some_comp⟩
  have long := accepts.length spelled
  rw [first.length spelled] at long
  have none : (State.start.filtersList.tail.filter fun compList =>
      ¬ compList.isEmpty) = [] := rfl
  rw [none, List.length_nil] at long
  omega

/-- When nothing is left behind, every query is sent as it would be first. -/
theorem accepts_iff_of_fresh {mongosh : Mongosh} {text : List Token}
    {state : State} {message : Query} (fresh : state.Fresh)
    (spelled : mongosh.Spelled text) :
    Accepts text state message ↔ Accepts text .start message := by
  rw [accepts_iff spelled, accepts_iff spelled,
    parseQuery_read spelled.filters_ne_nil fresh,
    parseQuery_read spelled.filters_ne_nil ⟨rfl, rfl⟩]

/-- What the lists are after the inputs. -/
theorem Rejected.traced {inputs : List (List Token)} {state : State}
    (rejected : Rejected inputs state) :
    (Traceless inputs → state.Fresh) ∧ (¬ Traceless inputs → state.Stale) := by
  induction rejected with
  | start => exact ⟨fun _ => ⟨rfl, rfl⟩, fun left => absurd trivial left⟩
  | @next inputs input before after sent _ runs ih =>
      have traced := ends_of_error Parser.ends_yyparse runs
      change Traced input before after at traced
      constructor
      · rintro ⟨none, begins | earlier⟩
        · exact traced.fresh none begins
        · by_cases begins : BeginsQuery input
          · exact traced.fresh none begins
          · exact (ih.1 earlier).same (traced.same none begins)
      · intro left
        by_cases leaves : LeavesTrace input
        · exact traced.stale leaves
        · have unfinished : ¬ BeginsQuery input :=
            fun begins => left ⟨leaves, Or.inl begins⟩
          have earlier : ¬ Traceless inputs :=
            fun earlier => left ⟨leaves, Or.inr earlier⟩
          exact (ih.2 earlier).same (traced.same leaves unfinished).1

/-- Inputs that are rejected change nothing for the queries after them, unless
one of them has left filters behind. -/
theorem same_message_iff {inputs : List (List Token)} {state : State}
    {text : List Token} {message : Query} (rejected : Rejected inputs state)
    (accepted : Accepts text .start message ∨ Accepts text state message) :
    (Accepts text .start message ∧ Accepts text state message) ↔
      Traceless inputs := by
  obtain ⟨mongosh, spelled⟩ := accepted.elim Accepts.spelled Accepts.spelled
  constructor
  · rintro ⟨first, later⟩
    by_contra left
    exact not_accepts_of_stale (rejected.traced.2 left) spelled first later
  · intro none
    have same := @accepts_iff_of_fresh mongosh text state message
      (rejected.traced.1 none) spelled
    rcases accepted with first | later
    · exact ⟨first, same.mpr first⟩
    · exact ⟨same.mp later, later⟩

/-- The tokens of `storage.receive({a: 1`. -/
def receiveOne : List Token :=
  [.storage, .receive, .opBrace, .opCBrace, .string ⟨0, [97, 0]⟩, .colon,
    .int [49, 0]]

theorem receiveOne_spelled :
    (Mongosh.receive [.value [97, 0] (.int [49, 0])]).Spelled
      (receiveOne ++ [.clCBrace, .clBrace]) :=
  .receive (.last (.value ⟨0, [97, 0]⟩ (.int [49, 0])))

/-- The filter `a: 1` in a message. -/
def oneFilter : TreeStore.Filter :=
  ⟨[⟨0, ⟨[97, 0], 1, 1, 0, [0]⟩⟩], by decide⟩

/-- A comma too much leaves a cell behind, but no filter. -/
theorem rejected_comma : Rejected [receiveOne ++ [.comma, .comma]]
    ⟨0, [], [], [⟨⟨0, ⟨[97, 0], 1, numberSlot 1, 0⟩⟩, []⟩], 1⟩ :=
  @Rejected.next _ _ _ _ [] .start rfl

theorem same_message_comma :
    Accepts (receiveOne ++ [.clCBrace, .clBrace]) .start
        ⟨0, [oneFilter], [], by decide, by decide⟩ ∧
      Accepts (receiveOne ++ [.clCBrace, .clBrace])
        ⟨0, [], [], [⟨⟨0, ⟨[97, 0], 1, numberSlot 1, 0⟩⟩, []⟩], 1⟩
        ⟨0, [oneFilter], [], by decide, by decide⟩ := by
  apply (same_message_iff rejected_comma (Or.inl _)).mpr
  · by_contra left
    obtain ⟨compList, member, -⟩ := rejected_comma.traced.2 left
    exact absurd member List.not_mem_nil
  · exact (accepts_iff receiveOne_spelled).mpr rfl

/-- A wrong brace leaves the filter behind for the next query. -/
theorem not_always_same_message :
    ¬ ∀ (inputs : List (List Token)) (state : State) (text : List Token)
        (message : Query), Rejected inputs state →
      Accepts text state message → Accepts text .start message := by
  intro always
  have rejected : Rejected [receiveOne ++ [.clBrace]]
      ⟨0, [[], [⟨0, ⟨[97, 0], 1, numberSlot 1, 0⟩⟩]], [], [], 1⟩ :=
    @Rejected.next _ _ _ _ [] .start rfl
  have first := always _ _ _
    ⟨0, [oneFilter, oneFilter], [], by decide, by decide⟩ rejected
    ((accepts_iff receiveOne_spelled).mpr rfl)
  have long := first.length receiveOne_spelled
  cases long

end Client

end TreeStore
