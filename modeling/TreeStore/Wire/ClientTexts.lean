import TreeStore.Layouts
import TreeStore.Wire.Alike
import TreeStore.Wire.ClientSessions

/-!
# What texts can ask for

`parent` is a reserved word of the client, so that no filter of a text has it
for a key.  The server, which looks for the children of a node when a message
has one comparator with that key, is never asked for them; and an insertion is
made below the node that its own text names, whatever filters were left behind
by the inputs before it.
-/

namespace TreeStore

/-- The search of this message is that for the children of a node. -/
def Query.byParent (query : Query) : Bool :=
  match query.filtersList with
  | [⟨[comparator], _⟩] => decide (SameText comparator.kv.key parentText)
  | _ => false

namespace Wire

open ProgramLogic Client

section Keys

variable {filter : Client.Filter} {filters : List Client.Filter}
  {mongosh : Mongosh} {text : List Token}

/-- No comparator has the key `parent`. -/
def Keyed (filter : Client.Filter) : Prop :=
  ∀ comp ∈ filter.top.toComparator :: filter.top.connected,
    textOf comp.kv.key ≠ parentText

theorem parentText_reserved : (Token.parent, "parent") ∈ reserved ∧
    chars "parent" = parentText := by
  decide

theorem keyed_of_spelled (spelled : filter.Spelled text)
    (lexed : ∀ token ∈ text, token.Lexed) : Keyed filter := by
  have keyed (key : Slot) (known : (Token.string key).Lexed) :
      textOf key.deref ≠ parentText := by
    rw [← parentText_reserved.2]
    exact known.2 _ parentText_reserved.1
  induction spelled with
  | value key given =>
      have named := keyed key (lexed _ (List.mem_cons_self ..))
      exact List.forall_mem_singleton.mpr named
  | operation key comp given =>
      have named := keyed key (lexed _ (List.mem_cons_self ..))
      exact List.forall_mem_singleton.mpr named
  | @or first second text text' _ _ firstIH secondIH =>
      have one := firstIH fun token member => lexed token (by simp [member])
      have other := secondIH fun token member => lexed token (by simp [member])
      exact List.forall_mem_cons.mpr ⟨(List.forall_mem_cons.mp other).1, one⟩

theorem forall_keyed (spelled : FiltersSpelled filters text)
    (lexed : ∀ token ∈ text, token.Lexed) : ∀ filter ∈ filters, Keyed filter := by
  induction spelled with
  | last spelled =>
      exact List.forall_mem_singleton.mpr (keyed_of_spelled spelled lexed)
  | more spelled _ ih =>
      have one := keyed_of_spelled spelled fun token member =>
        lexed token (by simp [member])
      have others := ih fun token member => lexed token (by simp [member])
      exact List.forall_mem_cons.mpr ⟨one, others⟩

/-- Only an insertion has a filter with that key. -/
theorem keyed_or_insert (spelled : mongosh.Spelled text)
    (lexed : ∀ token ∈ text, token.Lexed) :
    (mongosh.command ≠ 2 ∧ ∀ filter ∈ mongosh.filters, Keyed filter) ∨
      ∃ yytext, mongosh.command = 2 ∧
        mongosh.filters = [.value (parentText ++ [0]) (.int yytext)] ∧
        [.parent, .colon, .int yytext] <:+: text := by
  cases spelled with
  | receive filters =>
      left
      refine ⟨show (0 : UInt8) ≠ 2 by decide, forall_keyed filters ?_⟩
      exact fun token member => lexed token (by simp [member])
  | delete filters =>
      left
      refine ⟨show (1 : UInt8) ≠ 2 by decide, forall_keyed filters ?_⟩
      exact fun token member => lexed token (by simp [member])
  | insert yytext _ =>
      exact Or.inr ⟨yytext, rfl, rfl,
        [.storage, .insert, .opBrace, .opCBrace], _, rfl⟩
  | update filters _ =>
      left
      refine ⟨show (3 : UInt8) ≠ 2 by decide, forall_keyed filters ?_⟩
      exact fun token member => lexed token (by simp [member])

end Keys

section Messages

variable {tokens text : List Token} {mongosh : Mongosh} {query : Query}
  {state state' : State}

/-- The message searches for no children, unless it is an insertion, and that
is made below a node of the text. -/
structure Typed (tokens : List Token) (query : Query) : Prop where
  elsewhere : query.command ≠ 2 → query.byParent = false
  inserted : query.command = 2 → ∃ yytext,
    [.parent, .colon, .int yytext] <:+: tokens ∧
      query.firstInt.toInt = (atoi yytext).toInt

theorem exists_of_byParent (searches : query.byParent = true) :
    ∃ comp fits, query.filtersList = [⟨[comp], fits⟩] ∧
      SameText comp.kv.key parentText := by
  unfold Query.byParent at searches
  split at searches
  · next comp fits alone => exact ⟨comp, fits, alone, of_decide_eq_true searches⟩
  · cases searches

theorem parse_pair {kv : Client.KeyValuePair} {kv' : KeyValuePair}
    (parsed : kv.parse = some kv') : textOf kv'.key = textOf kv.key ∧
      kv'.valueInt = kv.valueInt.word.toInt64 := by
  by_cases string : kv.valueType = .ofNat STRING_TYPE
  · obtain ⟨-, -, rfl⟩ := (parse_of_string string).mp parsed
    exact ⟨textOf_terminated kv.key, rfl⟩
  · obtain ⟨-, rfl⟩ := (parse_of_number string).mp parsed
    exact ⟨textOf_terminated kv.key, rfl⟩

/-- The first comparator of a filter. -/
theorem parse_first {filter : Client.Filter} {filter' : Filter}
    (parsed : parseFilter filter.compList = some filter') :
    ∃ comp comps, filter'.compList = comp :: comps ∧
      textOf comp.kv.key = textOf filter.top.kv.key ∧
      comp.kv.valueInt = filter.top.kv.valueInt.word.toInt64 := by
  have all := parseFilter_eq_some parsed
  rw [Client.Filter.compList, List.forall₂_cons_left_iff] at all
  obtain ⟨comp, comps, made, -, parts⟩ := all
  unfold Client.Comparator.parse at made
  obtain ⟨kv, here, made⟩ := Option.bind_eq_some_iff.mp made
  cases made
  obtain ⟨key, valueInt⟩ := parse_pair here
  exact ⟨_, comps, parts, key, valueInt⟩

/-- The filters of a query stand in front of those that were left behind. -/
theorem message_eq (spelled : mongosh.Spelled text)
    (reads : mongosh.read state = some state')
    (parsed : parseQuery state' = some query) :
    query.command = .ofNat mongosh.command.toNat ∧
      ∃ filter filters filter' filters',
        mongosh.filters = filter :: filters ∧
        query.filtersList = filter' :: filters' ∧
        parseFilter filter.compList = some filter' := by
  obtain ⟨vtype, whole⟩ := mongosh.read_eq spelled.filters_ne_nil state
  rw [reads] at whole
  cases whole
  obtain ⟨filter, filters, own⟩ :=
    List.exists_cons_of_ne_nil spelled.filters_ne_nil
  rw [parseQuery, List.filter_cons_of_neg (by simp), List.filter_append,
    filter_compList, own, List.map_cons, List.cons_append] at parsed
  unfold parseLists at parsed
  obtain ⟨sent, filtered, parsed⟩ := Option.bind_eq_some_iff.mp parsed
  obtain ⟨settings, settled, parsed⟩ := Option.bind_eq_some_iff.mp parsed
  split_ifs at parsed with fits fits'
  cases parsed
  have all := mapM_eq_some_iff.mp filtered
  rw [List.cons_append, List.forall₂_cons_left_iff] at all
  obtain ⟨filter', filters', made, -, parts⟩ := all
  exact ⟨rfl, filter, filters, filter', filters', own, parts, made⟩

theorem command_eq_two :
    Int32.ofNat mongosh.command.toNat = 2 ↔ mongosh.command = 2 := by
  cases mongosh <;> simp [Mongosh.command]

theorem typed_of_parse (spelled : mongosh.Spelled text)
    (lexed : ∀ token ∈ text, token.Lexed)
    (reads : mongosh.read state = some state')
    (parsed : parseQuery state' = some query) : Typed text query := by
  obtain ⟨command, filter, filters, filter', filters', own, sent, made⟩ :=
    message_eq spelled reads parsed
  obtain ⟨comp, comps, first, key, valueInt⟩ := parse_first made
  rcases keyed_or_insert spelled lexed with ⟨other, keyed⟩ | insertion
  · constructor
    · intro _
      rw [Bool.eq_false_iff]
      intro searches
      obtain ⟨comp', fits, alone, same⟩ := exists_of_byParent searches
      rw [sent] at alone
      cases alone
      cases first
      have reserved := keyed filter (own ▸ List.mem_cons_self ..) _
        (List.mem_cons_self ..)
      exact reserved (key.symm.trans same)
    · intro inserts
      rw [command, command_eq_two] at inserts
      exact absurd inserts other
  · obtain ⟨yytext, two, only, inside⟩ := insertion
    constructor
    · intro other
      rw [command, ne_eq, command_eq_two] at other
      exact absurd two other
    · intro _
      refine ⟨yytext, inside, ?_⟩
      rw [own] at only
      cases only
      have number : query.firstInt = comp.kv.valueInt := by
        obtain ⟨list, fits⟩ := filter'
        cases first
        rw [Query.firstInt, sent]
      rw [number, valueInt]
      exact vint_toInt yytext

end Messages

section Alike

variable {first second : Query} {tokens : List Token}

theorem byParent_of_alike (alike : Query.Alike first second)
    (searches : first.byParent = true) : second.byParent = true := by
  obtain ⟨comp, fits, alone, same⟩ := exists_of_byParent searches
  have filters := alike.filters
  rw [alone, List.forall₂_cons_left_iff] at filters
  obtain ⟨filter, rest, comps, none, parts⟩ := filters
  cases List.forall₂_nil_left_iff.mp none
  obtain ⟨list, fits'⟩ := filter
  change List.Forall₂ Comparator.Alike [comp] list at comps
  rw [List.forall₂_cons_left_iff] at comps
  obtain ⟨comp', rest', here, none', rfl⟩ := comps
  cases List.forall₂_nil_left_iff.mp none'
  rw [Query.byParent, parts]
  exact decide_eq_true (here.kv.key.symm.trans same)

theorem firstInt_of_alike (alike : Query.Alike first second) :
    first.firstInt = second.firstInt := by
  have filters := alike.filters
  rw [Query.firstInt, Query.firstInt]
  cases known : first.filtersList with
  | nil =>
      rw [known, List.forall₂_nil_left_iff] at filters
      rw [filters]
  | cons filter rest =>
      rw [known, List.forall₂_cons_left_iff] at filters
      obtain ⟨filter', rest', comps, -, parts⟩ := filters
      rw [parts]
      obtain ⟨list, fits⟩ := filter
      obtain ⟨list', fits'⟩ := filter'
      change List.Forall₂ Comparator.Alike list list' at comps
      cases comps with
      | nil => rfl
      | cons here _ => exact here.kv.valueInt

theorem Typed.of_alike (typed : Typed tokens second)
    (alike : Query.Alike first second) : Typed tokens first := by
  constructor
  · intro other
    rw [alike.command] at other
    rw [Bool.eq_false_iff]
    intro searches
    have found := byParent_of_alike alike searches
    rw [typed.elsewhere other] at found
    cases found
  · intro inserts
    rw [alike.command] at inserts
    rw [firstInt_of_alike alike]
    exact typed.inserted inserts

end Alike

section Sessions

variable {address : Nat → UInt64} {vfloat : List UInt8 → UInt32}
  {inputs : List (List Token)} {state : State} {sent : List Query}
  {text : List UInt8} {lexer : Lexer}

theorem Typed.of_part {part tokens : List Token} {query : Query}
    (typed : Typed part query) (inside : part <:+: tokens) :
    Typed tokens query where
  elsewhere := typed.elsewhere
  inserted inserts := by
    obtain ⟨yytext, within, number⟩ := typed.inserted inserts
    exact ⟨yytext, within.trans inside, number⟩

theorem Session.typed (session : Session inputs state sent)
    (lexed : ∀ token ∈ inputs.reverse.flatten, token.Lexed) :
    ∀ query ∈ sent, Typed inputs.reverse.flatten query := by
  have each : HoldsOfQueries (Typed inputs.reverse.flatten)
      inputs.reverse.flatten := by
    intro mongosh text state state' query spelled inside reads parsed
    have known : ∀ token ∈ text, token.Lexed :=
      fun token member => lexed token (inside.subset member)
    exact (typed_of_parse spelled known reads parsed).of_part inside
  exact session.all each

/-- Whatever the client is given to read, the server is not asked for the
children of a node, and it is asked for insertions only below nodes that the
text names. -/
theorem session_received_typed (session : Session inputs state sent)
    (typed : inputs.reverse.flatten <+: yylex address vfloat text lexer)
    (enough : (sent.foldl sendQuery []).length ≤ SIZE_MAX) :
    ∀ query ∈ receiveQueries (pbIstreamFromSocket (sent.foldl sendQuery [])),
      Typed inputs.reverse.flatten query := by
  rw [session.received enough]
  intro query member
  obtain ⟨original, given, rfl⟩ := List.mem_map.mp member
  have known := session.typed (fun token inside =>
    lexed_yylex text lexer token (typed.subset inside)) original given
  exact known.of_alike (alike_received (session.sendable original given))

end Sessions

/-- An insertion, and a query with blanks behind it. -/
theorem session_received_typed_two :
    insertOne.command = 2 ∧
    ∀ query ∈ [insertOne, ⟨0, [oneFilter], [], by decide, by decide⟩].map
      Query.received,
      Typed [receiveOne ++ [.clCBrace, .clBrace],
        insertBelowFive].reverse.flatten query := by
  have inserted : Session [insertBelowFive]
      ⟨0, [], [], [], 1⟩ [insertOne] := .accepts .start rfl
  have session : Session
      [receiveOne ++ [.clCBrace, .clBrace], insertBelowFive]
      ⟨0, [], [], [], 1⟩
      [insertOne, ⟨0, [oneFilter], [], by decide, by decide⟩] :=
    .accepts inserted rfl
  have typed : [receiveOne ++ [.clCBrace, .clBrace],
      insertBelowFive].reverse.flatten <+:
      yylex (fun _ => 0) (fun _ => 0)
        (chars "storage.insert(\x7bparent: 5\x7d, \x7ba: 1\x7d\x7d" ++
          chars "storage.receive (\x7ba: 1 \x7d)") ⟨0, 0⟩ := by
    rw [yylex_laid laid_insert]
    exact List.prefix_rfl
  have enough := (length_sent_le
    [insertOne, ⟨0, [oneFilter], [], by decide, by decide⟩]).trans
      (by decide : _ ≤ SIZE_MAX)
  refine ⟨rfl, fun query member => ?_⟩
  apply session_received_typed session typed enough
  rw [session.received enough]
  exact member

end Wire

end TreeStore
