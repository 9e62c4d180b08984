import TreeStore.Constraints
import TreeStore.Wire.Delivery

/-!
# Sessions over the connection

`parseQuery` copies every string into its array with the terminator, so that
each message of a session can be sent, and the server receives them all.
-/

namespace TreeStore

namespace Wire

open ProgramLogic Client

section Messages

theorem terminated_copy {src : CharPtr} (short : (textOf src).length < 1024) :
    Terminated stringSize (textOf src ++ [0]) := by
  refine ⟨?_, by simp⟩
  rw [textOf_terminated]
  exact short

theorem sendable_pair {kv : Client.KeyValuePair} {kv' : KeyValuePair}
    (parsed : kv.parse = some kv') : KeyValuePair.Sendable kv' := by
  by_cases string : kv.valueType = .ofNat STRING_TYPE
  · obtain ⟨shortKey, short, rfl⟩ := (parse_of_string string).mp parsed
    exact ⟨terminated_copy shortKey, terminated_copy short⟩
  · obtain ⟨shortKey, rfl⟩ := (parse_of_number string).mp parsed
    exact ⟨terminated_copy shortKey, (by decide : Terminated stringSize [0])⟩

theorem sendable_comparator {comp : Client.Comparator} {comp' : Comparator}
    (parsed : comp.parse = some comp') : KeyValuePair.Sendable comp'.kv := by
  unfold Client.Comparator.parse at parsed
  obtain ⟨kv, here, parsed⟩ := Option.bind_eq_some_iff.mp parsed
  cases parsed
  exact sendable_pair here

/-- What is parsed element by element holds of each element. -/
theorem forall_of_mapM {α β : Type} {parse : α → Option β} {list : List α}
    {out : List β} {holds : β → Prop} (parsed : list.mapM parse = some out)
    (each : ∀ first second, parse first = some second → holds second) :
    ∀ second ∈ out, holds second := by
  have all := mapM_eq_some_iff.mp parsed
  clear parsed
  induction all with
  | nil => simp
  | cons first _ ih => exact List.forall_mem_cons.mpr ⟨each _ _ first, ih⟩

/-- Every message of the client can be sent. -/
theorem sendable_parseQuery {state : State} {query : Query}
    (parsed : parseQuery state = some query) : Query.Sendable query := by
  unfold parseQuery parseLists at parsed
  obtain ⟨filters, filtered, parsed⟩ := Option.bind_eq_some_iff.mp parsed
  obtain ⟨settings, settled, parsed⟩ := Option.bind_eq_some_iff.mp parsed
  split_ifs at parsed with fits fits'
  cases parsed
  constructor
  · apply @forall_of_mapM _ _ _ _ _ (fun filter : Filter =>
      ∀ comp ∈ filter.compList, KeyValuePair.Sendable comp.kv) filtered
    intro compList filter made comp member
    unfold parseFilter at made
    obtain ⟨comps, mapped, made⟩ := Option.bind_eq_some_iff.mp made
    split_ifs at made
    cases made
    exact forall_of_mapM mapped (fun _ _ => sendable_comparator) comp member
  · exact forall_of_mapM settled fun _ _ => sendable_pair

end Messages

section Sessions

variable {tokens : List Token} {state : State} {sent : List Query}
  {holds : Query → Prop}

theorem ends_printer_parsed {errs : Reading → Prop}
    {post : Unit → Reading → Prop}
    (next : ∀ qtree state', parseQuery state = some qtree →
      post () ⟨tokens, state', sent ++ [qtree]⟩) :
    ends Parser.printer post (Parser.Errs errs) ⟨tokens, state, sent⟩ := by
  cases parsed : sendData state with
  | none =>
      refine Or.inr ⟨.undefined, ?_, trivial⟩
      rw [Parser.printer, run_bind_of (by rfl)]
      dsimp only
      rw [parsed]
      rfl
  | some out =>
      obtain ⟨qtree, state'⟩ := out
      apply ends_of_wp
      rw [Parser.wp_printer]
      refine ⟨qtree, state', parsed, next qtree state' ?_⟩
      unfold sendData at parsed
      obtain ⟨qtree', made, same⟩ := Option.bind_eq_some_iff.mp parsed
      cases same
      exact made

/-- This holds of the message for each query that is part of the input. -/
def HoldsOfQueries (holds : Query → Prop) (tokens : List Token) : Prop :=
  ∀ (mongosh : Mongosh) (text : List Token) (state state' : State)
    (qtree : Query), mongosh.Spelled text → text <:+: tokens →
    mongosh.read state = some state' → parseQuery state' = some qtree →
    holds qtree

theorem HoldsOfQueries.of_part {part : List Token}
    (each : HoldsOfQueries holds tokens) (inside : part <:+: tokens) :
    HoldsOfQueries holds part :=
  fun mongosh text state state' qtree spelled within =>
    each mongosh text state state' qtree spelled (within.trans inside)

theorem ends_queries_holds {fuel : Nat} (enough : tokens.length < fuel)
    (each : HoldsOfQueries holds tokens) (before : ∀ query ∈ sent, holds query) :
    ends (Parser.queries fuel) (fun _ after => ∀ query ∈ after.sent, holds query)
      (Parser.Errs fun after => ∀ query ∈ after.sent, holds query)
      ⟨tokens, state, sent⟩ := by
  induction fuel generalizing tokens state sent with
  | zero => exact absurd enough (Nat.not_lt_zero _)
  | succ fuel ih =>
      rw [Parser.queries]
      apply ends_bind
      apply Parser.ends_lookahead
      by_cases begins : tokens.head? = some .storage
      · rw [if_pos begins]
        apply ends_bind
        apply Parser.ends_mongosh (by omega) _ fun _ _ _ => before
        rintro mongosh text rest middle spelled rfl reads
        have shorter := spelled.length_pos
        rw [List.length_append] at enough
        apply ends_bind
        apply ends_printer_parsed
        intro qtree next parsed
        apply ih (by omega)
        · exact each.of_part (List.suffix_append text rest).isInfix
        · intro query member
          rcases List.mem_append.mp member with earlier | last
          · exact before query earlier
          · rw [List.mem_singleton.mp last]
            exact each mongosh text state middle qtree spelled
              (List.prefix_append text rest).isInfix reads parsed
      · rw [if_neg begins]
        exact ends_pure before

/-- However a call of `yyparse` ends, it has sent only messages for queries that
are part of its input. -/
theorem ends_yyparse_holds (each : HoldsOfQueries holds tokens)
    (before : ∀ query ∈ sent, holds query) :
    ends yyparse (fun _ after => ∀ query ∈ after.sent, holds query)
      (Parser.Errs fun after => ∀ query ∈ after.sent, holds query)
      ⟨tokens, state, sent⟩ := by
  rw [yyparse]
  apply ends_bind
  apply ends_of_wp
  rw [wp_get]
  apply ends_bind
  apply ends_mono (ends_queries_holds (Nat.lt_succ_self _) each before) _
    fun _ left => left
  intro _ after all
  apply ends_bind
  apply Parser.ends_lookahead
  split
  · exact Parser.ends_syntaxError fun _ => all
  · exact ends_pure all

/-- The calls of `yyparse` since the client started, the last one in front, and
the messages that were sent.  Each call is given what it reads: an input it
accepts, or one up to the token that does not fit. -/
inductive Session : List (List Token) → State → List Query → Prop
  | start : Session [] .start []
  | accepts {inputs : List (List Token)} {input : List Token}
      {state state' : State} {sent sent' : List Query} :
      Session inputs state sent →
      yyparse.run ⟨input, state, sent⟩ = .ok ((), ⟨[], state', sent'⟩) →
      Session (input :: inputs) state' sent'
  | rejects {inputs : List (List Token)} {input : List Token}
      {state state' : State} {sent sent' : List Query} :
      Session inputs state sent →
      yyparse.run ⟨input, state, sent⟩ =
        .error (.syntaxError ⟨[], state', sent'⟩) →
      Session (input :: inputs) state' sent'

/-- What holds of the message for each query of the inputs holds of all that is
sent. -/
theorem Session.all {inputs : List (List Token)}
    (session : Session inputs state sent)
    (each : HoldsOfQueries holds inputs.reverse.flatten) :
    ∀ query ∈ sent, holds query := by
  have parts (input : List Token) (inputs : List (List Token)) :
      (input :: inputs).reverse.flatten = inputs.reverse.flatten ++ input := by
    simp
  induction session with
  | start => exact fun query member => absurd member List.not_mem_nil
  | @accepts inputs input _ _ _ _ _ runs ih =>
      rw [parts] at each
      have earlier := ih (each.of_part (List.prefix_append _ _).isInfix)
      have last := each.of_part (List.suffix_append _ _).isInfix
      exact ends_of_run (ends_yyparse_holds last earlier) runs
  | @rejects inputs input _ _ _ _ _ runs ih =>
      rw [parts] at each
      have earlier := ih (each.of_part (List.prefix_append _ _).isInfix)
      have last := each.of_part (List.suffix_append _ _).isInfix
      have left := ends_of_error (ends_yyparse_holds last earlier) runs
      exact left

theorem Session.sendable {inputs : List (List Token)}
    (session : Session inputs state sent) :
    ∀ query ∈ sent, Query.Sendable query :=
  session.all fun _ _ _ _ _ _ _ _ => sendable_parseQuery

/-- The bytes of a session. -/
theorem Session.wire_eq {inputs : List (List Token)}
    (session : Session inputs state sent) :
    sent.foldl sendQuery [] = wire sent := by
  have all : (sent.filter fun query => Query.Sendable query) = sent := by
    apply List.filter_eq_self.mpr
    intro query member
    exact decide_eq_true (session.sendable query member)
  rw [foldl_sendQuery, List.nil_append, all]

theorem Session.received {inputs : List (List Token)}
    (session : Session inputs state sent)
    (enough : (sent.foldl sendQuery []).length ≤ SIZE_MAX) :
    receiveQueries (pbIstreamFromSocket (sent.foldl sendQuery [])) =
      sent.map Query.received := by
  rw [session.wire_eq] at enough ⊢
  exact receiveQueries_of_sendable session.sendable enough

/-- In every session the server receives all messages, in their order; and
wherever the connection ends, it has those that were complete, and perhaps one
more that begins like the next. -/
theorem session_received {inputs : List (List Token)}
    (session : Session inputs state sent)
    (enough : (sent.foldl sendQuery []).length ≤ SIZE_MAX) :
    receiveQueries (pbIstreamFromSocket (sent.foldl sendQuery [])) =
        sent.map Query.received ∧
      ∀ count, CutShort sent count (receiveQueries (pbIstreamFromSocket
        ((sent.foldl sendQuery []).take count))) := by
  refine ⟨session.received enough, fun count => ?_⟩
  rw [session.wire_eq] at enough ⊢
  exact receiveQueries_take session.sendable count enough none

/-- The tokens of `storage.insert({parent: 5}, {a: 1}}`. -/
def insertBelowFive : List Token :=
  [.storage, .insert, .opBrace, .opCBrace, .parent, .colon, .int [53, 0],
    .clCBrace, .comma, .opCBrace, .string ⟨0, [97, 0]⟩, .colon, .int [49, 0],
    .clCBrace, .clCBrace]

theorem length_oneSetting :
    [(⟨[97, 0], 1, 1, 0, [0]⟩ : TreeStore.KeyValuePair)].length ≤ 20 := by
  decide

/-- The message for it. -/
def insertOne : Query :=
  { childrenQuery 5 with
    command := 2
    settingsList := [⟨[97, 0], 1, 1, 0, [0]⟩]
    settingsList_le := length_oneSetting }

/-- An input that is rejected, and two that are accepted after it. -/
theorem session_three : Session
    [insertBelowFive, receiveOne ++ [.clCBrace, .clBrace],
      receiveOne ++ [.comma, .comma]]
    ⟨0, [], [], [⟨⟨0, ⟨[97, 0], 1, numberSlot 1, 0⟩⟩, []⟩], 1⟩
    [⟨0, [oneFilter], [], by decide, by decide⟩, insertOne] := by
  have rejected : Session [receiveOne ++ [.comma, .comma]]
      ⟨0, [], [], [⟨⟨0, ⟨[97, 0], 1, numberSlot 1, 0⟩⟩, []⟩], 1⟩ [] :=
    .rejects .start rfl
  have received : Session
      [receiveOne ++ [.clCBrace, .clBrace], receiveOne ++ [.comma, .comma]]
      ⟨0, [], [], [⟨⟨0, ⟨[97, 0], 1, numberSlot 1, 0⟩⟩, []⟩], 1⟩
      [⟨0, [oneFilter], [], by decide, by decide⟩] :=
    .accepts rejected rfl
  exact .accepts received rfl

theorem session_received_three :
    receiveQueries (pbIstreamFromSocket
        ([⟨0, [oneFilter], [], by decide, by decide⟩, insertOne].foldl
          sendQuery [])) =
        [⟨0, [oneFilter], [], by decide, by decide⟩, insertOne].map
          Query.received ∧
      ∀ count,
        CutShort [⟨0, [oneFilter], [], by decide, by decide⟩, insertOne] count
        (receiveQueries (pbIstreamFromSocket
          (([⟨0, [oneFilter], [], by decide, by decide⟩, insertOne].foldl
            sendQuery []).take count))) :=
  session_received session_three ((length_sent_le _).trans (by decide))

end Sessions

end Wire

end TreeStore
