import TreeStore.Conversations
import TreeStore.Wire.Serving

/-!
# From the client to the list

What the client prints in a session with a store of small numbers are the answers
of a server that keeps a list.
-/

namespace TreeStore

open ByteFile ProgramLogic GuardedRuns

namespace Wire

section Alike

variable {template : List NodeAttributeInfo}

/-- Without strings an insertion depends on numbers and on the texts of keys. -/
theorem insertedFields_congr (numbers : STRING ∉ template.map (·.type))
    {first second : List KeyValuePair}
    (alike : List.Forall₂ KeyValuePair.Alike first second) :
    insertedFields template first = insertedFields template second := by
  have same : List.Forall₂ KeyValuePair.SameNumbers first second :=
    alike.imp fun _ _ pair =>
      ⟨pair.key, pair.valueType, pair.valueInt, pair.valueReal⟩
  unfold insertedFields
  rw [@insertLoop_congr _ _ (fun _ => 0) _ _ numbers same, alike.length_eq]

theorem firstInt_congr {first second : Query} (alike : Query.Alike first second) :
    first.firstInt = second.firstInt := by
  have filters := alike.filters
  unfold Query.firstInt
  generalize first.filtersList = list at filters
  generalize second.filtersList = list' at filters
  cases filters with
  | nil => rfl
  | @cons filter filter' _ _ same _ =>
      obtain ⟨compList, _⟩ := filter
      obtain ⟨compList', _⟩ := filter'
      cases same with
      | nil => rfl
      | cons same _ => exact same.kv.valueInt

end Alike

section Insertions

variable {template : List NodeAttributeInfo} {list : List NodeView}
  {query : Query}

theorem reply_asHandled (small : SmallNumbers template)
    (sendable : Query.Sendable query) :
    (Query.asHandled query).reply template list = query.reply template list ∧
      (Query.asHandled query).change template list =
        query.change template list := by
  unfold Query.asHandled
  split_ifs with insertion
  · have alike := alike_received sendable
    unfold Query.reply Query.change
    have others : query.command ≠ 0 := by
      rw [insertion]
      decide
    rw [alike.command, if_neg others, if_neg others, if_neg others,
      if_neg others, insertedFields_congr small.no_string alike.settings,
      firstInt_congr alike]
    exact ⟨rfl, rfl⟩
  · exact ⟨rfl, rfl⟩

theorem understood_asHandled (sendable : Query.Sendable query)
    (understood : query.Understood template) :
    (Query.asHandled query).Understood template := by
  unfold Query.asHandled
  split_ifs with insertion
  · rcases understood with ⟨receives, -⟩ | ⟨inserts, once⟩
    · rw [insertion] at receives
      exact absurd receives (by decide)
    · refine Or.inr ⟨inserts, ?_⟩
      have keys : (Query.received query).settingsList.map (·.keyText) =
          query.settingsList.map (·.keyText) := by
        change (query.settingsList.map KeyValuePair.received).map _ = _
        rw [List.map_map]
        apply List.map_congr_left
        intro kv member
        exact (alike_keyValuePair (sendable.2 kv member)).key
      rw [keys]
      exact once
  · exact understood

theorem replies_asHandled {queries : List Query} (small : SmallNumbers template)
    (sendable : ∀ query ∈ queries, Query.Sendable query) :
    replies template list (queries.map Query.asHandled) =
      replies template list queries ∧
    changed template list (queries.map Query.asHandled) =
      changed template list queries := by
  induction queries generalizing list with
  | nil => exact ⟨rfl, rfl⟩
  | cons query queries ih =>
      obtain ⟨reply, change⟩ := @reply_asHandled template list query small
        (sendable query (List.mem_cons_self ..))
      obtain ⟨later, after⟩ := @ih (query.change template list)
        fun other member => sendable other (List.mem_cons_of_mem _ member)
      rw [List.map_cons, replies, replies, reply, change, later]
      refine ⟨rfl, ?_⟩
      unfold changed at after ⊢
      rw [List.foldl_cons, List.foldl_cons, change, after]

end Insertions

section Sessions

open Client

variable {inputs : List (List Token)} {state : State} {sent : List Query}
  {overflow : Prog Unit} {address : Nat → UInt64} {fuel stack : Nat}
  {world : World}

/-- In every session with a store of small numbers, the client prints what a
server that keeps a list answers to the messages that were sent, and the file
shows the nodes of that list at the end. -/
theorem session_answered {specs : List AttributeSpec} {calls : List Op}
    {schema : TreeSchema} (session : Session inputs state sent)
    (enough : (sent.foldl sendQuery []).length ≤ SIZE_MAX)
    (ran : Ran specs Faithful calls world.file)
    (stored : SchemaAt world.file schema)
    (small : SmallNumbers schema.nodesTemplate)
    (understood : ∀ query ∈ sent, query.Understood schema.nodesTemplate)
    (room : world.file.length + messageSpace * (sent.length + 1) < 2 ^ 63)
    (fueled : world.file.length + messageSpace * sent.length ≤ fuel)
    (delivered : (answerBytes (replies schema.nodesTemplate
      (listAfter (specs.map (·.type)) calls) sent)).length ≤ SIZE_MAX) :
    ∃ out final, (serve (handleQuery overflow address fuel stack)
        (pbIstreamFromSocket (sent.foldl sendQuery []))
        (pbOstreamFromSocket [])).run world = .ok (out, final) ∧
      receiveAnswers sent.length out.state = some (replies schema.nodesTemplate
        (listAfter (specs.map (·.type)) calls) sent, []) ∧
      Represents (specs.map (·.type)) final.file (changed schema.nodesTemplate
        (listAfter (specs.map (·.type)) calls) sent) := by
  obtain ⟨types, keeps⟩ := KeepsList.of_ran ran stored
  generalize listAfter (specs.map (·.type)) calls = list at keeps delivered ⊢
  rw [← types]
  have sendable := session.sendable
  obtain ⟨answers, nodes⟩ := @replies_asHandled _ list _ small sendable
  have handled := @KeepsList.wp_conversation _ list world overflow address fuel
    stack (sent.map Query.asHandled) keeps small (by
      intro query member
      obtain ⟨original, inside, rfl⟩ := List.mem_map.mp member
      exact understood_asHandled (sendable original inside)
        (understood original inside))
    (by rw [List.length_map]; exact room)
    (by rw [List.length_map]; exact fueled)
  rw [answers, nodes] at handled
  obtain ⟨texts, final, runs, rfl, keeps'⟩ := handled
  have prints := receiveAnswers_handled runs delivered
  rw [List.length_map] at prints
  exact ⟨_, final, session.serves enough runs delivered, prints,
    keeps'.1.represents⟩

/-- The client is told to insert `n: 9` below node 7, and then to receive
`n: 7`. -/
theorem session_nine : Session
    [[.storage, .receive, .opBrace, .opCBrace, .string ⟨0, [110, 0]⟩, .colon,
        .int [55, 0], .clCBrace, .clBrace],
      [.storage, .insert, .opBrace, .opCBrace, .parent, .colon, .int [55, 0],
        .clCBrace, .comma, .opCBrace, .string ⟨0, [110, 0]⟩, .colon,
        .int [57, 0], .clCBrace, .clCBrace]]
    ⟨0, [], [], [], 1⟩ [insertNine, receiveSeven] := by
  have inserted : Session
      [[.storage, .insert, .opBrace, .opCBrace, .parent, .colon, .int [55, 0],
        .clCBrace, .comma, .opCBrace, .string ⟨0, [110, 0]⟩, .colon,
        .int [57, 0], .clCBrace, .clCBrace]]
      ⟨0, [], [], [], 1⟩ [insertNine] := .accepts .start rfl
  exact .accepts inserted rfl

theorem session_answered_nine : ∃ out final,
    (serve (handleQuery (throw .outOfBounds) (fun _ => 0) 10000 0)
      (pbIstreamFromSocket ([insertNine, receiveSeven].foldl sendQuery []))
      (pbOstreamFromSocket [])).run (blankWorld oneSeven) = .ok (out, final) ∧
    receiveAnswers 2 out.state =
      some ([chars "Added successfully\n",
        chars ("<---- Receive Result ---->\n<---- Node   0---->\n" ++
          "n                    7\n")], []) ∧
    Represents [INT] final.file [⟨7, [.word 7]⟩, ⟨7, [.word 9]⟩] := by
  obtain ⟨-, stored, -, -, template⟩ := oneSeven_stored
  have ran := ran_seven
  have short : oneSeven.length ≤ 1000 := by decide +kernel
  generalize oneSeven = file at ran stored template short ⊢
  have answered := @session_answered _ _ _ (throw .outOfBounds) (fun _ => 0)
    10000 0 (blankWorld file) [singleSpec INT number_lt] [.add [⟨7, []⟩] 7]
    (schemaOf file) session_nine ((length_sent_le _).trans (by decide)) ran
    stored
  rw [template] at answered
  have space : messageSpace = 544 := rfl
  have replied : replies
      [{ size := 4, type := INT, attributeName := [110, 0, 0, 0] }]
      (listAfter [INT] [.add [⟨7, []⟩] 7]) [insertNine, receiveSeven] =
      [chars "Added successfully\n",
        chars ("<---- Receive Result ---->\n<---- Node   0---->\n" ++
          "n                    7\n")] := by decide +kernel
  have nodes : changed
      [{ size := 4, type := INT, attributeName := [110, 0, 0, 0] }]
      (listAfter [INT] [.add [⟨7, []⟩] 7]) [insertNine, receiveSeven] =
        [⟨7, [.word 7]⟩, ⟨7, [.word 9]⟩] := by decide +kernel
  have few : (answerBytes [chars "Added successfully\n",
      chars ("<---- Receive Result ---->\n<---- Node   0---->\n" ++
        "n                    7\n")]).length ≤ 4000 :=
    length_answerBytes_le (by decide)
  rw [← replied] at few ⊢
  rw [← nodes]
  apply answered ⟨by decide, by decide, by decide⟩
  · intro query member
    rcases List.mem_cons.mp member with rfl | member
    · exact Or.inr ⟨rfl, by decide⟩
    obtain rfl := List.mem_singleton.mp member
    exact Or.inl ⟨rfl, terminated_always, answerable_receiveSeven⟩
  · change file.length + messageSpace * 3 < 2 ^ 63
    omega
  · change file.length + messageSpace * 2 ≤ 10000
    omega
  · exact few.trans (by decide)

end Sessions

end Wire

end TreeStore
