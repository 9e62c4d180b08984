import TreeStore.Sessions
import TreeStore.Wire.Connection

/-!
# What is delivered

The queries of a session come to the server in their order, with their commands,
numbers and texts.  Nothing in the bytes tells a query that was cut off between
two filters from one that has fewer of them.
-/

namespace TreeStore

namespace Wire

section Whole

variable {queries : List Query}

/-- The length of a query with the one in front. -/
theorem length_framed_query {query : Query} (sendable : Query.Sendable query) :
    (Varint.framed (queryBytes query)).length ≤ querySize + 3 := by
  have bounded := length_queryBytes sendable
  have length : (Varint.bytes (queryBytes query).length).length ≤ 3 :=
    Varint.length_bytes_le (lt_of_le_of_lt bounded (by norm_num))
  unfold Varint.framed
  rw [List.length_append]
  omega

/-- A query is sent as a whole, or not at all. -/
theorem sendQuery_exact (sent : List UInt8) (query : Query) :
    if Query.Sendable query then
      ((pbEncodeDelimited queryFields query).run (pbOstreamFromSocket sent)).1 =
          some () ∧
        sendQuery sent query = sent ++ Varint.framed (queryBytes query) ∧
        (Varint.framed (queryBytes query)).length ≤ querySize + 3
    else
      ((pbEncodeDelimited queryFields query).run (pbOstreamFromSocket sent)).1 =
          none ∧
        sendQuery sent query = sent := by
  split_ifs with sendable
  · refine ⟨?_, sendQuery_of_sendable sendable, length_framed_query sendable⟩
    rw [writes_delimited_query sendable (pbOstreamFromSocket sent) rfl
      (hasRoom_query sendable)]
  · refine ⟨?_, sendQuery_of_not_sendable sendable⟩
    exact refuses_pbEncodeSubmessage (refuses_query sendable) _

theorem length_sent_le (queries : List Query) :
    (queries.foldl sendQuery []).length ≤ queries.length * (querySize + 3) := by
  rw [foldl_sendQuery, List.nil_append]
  apply length_flatMap_le (List.length_filter_le _ _)
  intro query member
  exact length_framed_query (of_decide_eq_true (List.mem_filter.mp member).2)

/-- What the bytes of queries that can be sent are received as. -/
theorem receiveQueries_of_sendable {sendable : List Query}
    (each : ∀ query ∈ sendable, Query.Sendable query)
    (enough : (wire sendable).length ≤ SIZE_MAX) :
    receiveQueries (pbIstreamFromSocket (wire sendable)) =
      sendable.map Query.received := by
  have all := @receiveQueries_wire sendable SIZE_MAX each [] enough none
  rw [List.append_nil, receiveQueries_nil, List.append_nil] at all
  exact all

/-- The server receives the queries that can be sent, and no others. -/
theorem receiveQueries_sent
    (enough : (queries.foldl sendQuery []).length ≤ SIZE_MAX) :
    receiveQueries (pbIstreamFromSocket (queries.foldl sendQuery [])) =
      (queries.filter fun query => Query.Sendable query).map
        Query.received := by
  rw [foldl_sendQuery, List.nil_append] at enough ⊢
  exact receiveQueries_of_sendable
    (fun query member => of_decide_eq_true (List.mem_filter.mp member).2) enough

/-- The query for the nodes with this parent. -/
def childrenQuery (parent : Int64) : Query :=
  ⟨0, [⟨[⟨0, ⟨parentText ++ [0], 1, parent, 0, [0]⟩⟩], by simp⟩], [],
    by simp, by simp⟩

/-- A removal with a key that does not end. -/
def endlessQuery : Query :=
  ⟨1, [⟨[⟨0, ⟨parentText, 1, 5, 0, [0]⟩⟩], by simp⟩], [], by simp,
    by simp⟩

theorem length_two_sent : ([childrenQuery 5, endlessQuery].foldl sendQuery
    []).length ≤ SIZE_MAX :=
  (length_sent_le _).trans (by decide)

theorem receiveQueries_sent_two :
    receiveQueries (pbIstreamFromSocket
        ([childrenQuery 5, endlessQuery].foldl sendQuery [])) =
      ([childrenQuery 5, endlessQuery].filter fun query =>
        Query.Sendable query).map Query.received :=
  receiveQueries_sent length_two_sent

/-- Wherever the connection ends, the server has the queries that were complete,
and perhaps one more that begins like the next. -/
theorem receiveQueries_cut
    (enough : (queries.foldl sendQuery []).length ≤ SIZE_MAX) (count : Nat) :
    CutShort (queries.filter fun query => Query.Sendable query) count
      (receiveQueries (pbIstreamFromSocket
        ((queries.foldl sendQuery []).take count))) := by
  rw [foldl_sendQuery, List.nil_append] at enough ⊢
  exact receiveQueries_take
    (fun query member => of_decide_eq_true (List.mem_filter.mp member).2) count
    enough none

theorem receiveQueries_cut_two :
    CutShort ([childrenQuery 5, endlessQuery].filter fun query =>
        Query.Sendable query) 13
      (receiveQueries (pbIstreamFromSocket
        (([childrenQuery 5, endlessQuery].foldl sendQuery []).take 13))) :=
  receiveQueries_cut length_two_sent 13

end Whole

section Shortened

variable {part query : Query} {queries : List Query}

/-- The query without its last filters and without settings, or without its last
settings. -/
structure Query.Shortened (part whole : Query) : Prop where
  command : part.command = whole.command
  lists : part.filtersList <+: whole.filtersList ∧ part.settingsList = [] ∨
    part.filtersList = whole.filtersList ∧
      part.settingsList <+: whole.settingsList

theorem flatMap_begins {α β : Type} {front whole : List α} (bytesOf : α → List β)
    (begins : front <+: whole) :
    front.flatMap bytesOf <+: whole.flatMap bytesOf := by
  obtain ⟨rest, rfl⟩ := begins
  rw [List.flatMap_append]
  exact List.prefix_append _ _

theorem Query.Shortened.bytes_prefix (shortened : Query.Shortened part query) :
    queryBytes part <+: queryBytes query := by
  obtain ⟨command, ⟨filters, none_left⟩ | ⟨filters, settings⟩⟩ := shortened
  · rw [queryBytes_eq, queryBytes_eq, command, none_left, List.flatMap_nil,
      List.append_nil, List.prefix_append_right_inj]
    exact (flatMap_begins _ filters).trans (List.prefix_append _ _)
  · rw [queryBytes_eq, queryBytes_eq, command, filters,
      List.prefix_append_right_inj, List.prefix_append_right_inj]
    exact flatMap_begins _ settings

theorem Query.Shortened.sendable (shortened : Query.Shortened part query)
    (sendable : Query.Sendable query) : Query.Sendable part := by
  obtain ⟨-, ⟨filters, none_left⟩ | ⟨filters, settings⟩⟩ := shortened
  · refine ⟨fun filter member => sendable.1 filter (filters.subset member), ?_⟩
    rw [none_left]
    simp
  · refine ⟨fun filter member => sendable.1 filter (filters ▸ member), ?_⟩
    exact fun kv member => sendable.2 kv (settings.subset member)

/-- When the connection ends between two filters or two settings of a query, the
server takes what is there for the whole of it. -/
theorem receiveQueries_shortened
    (sendable : ∀ other ∈ query :: queries, Query.Sendable other)
    (shortened : Query.Shortened part query)
    (enough : (wire (queries ++ [query])).length ≤ SIZE_MAX) :
    receiveQueries (pbIstreamFromSocket (wire queries ++
        (Varint.bytes (queryBytes query).length ++ queryBytes part))) =
      queries.map Query.received ++ [Query.received part] := by
  have before (other : Query) (member : other ∈ queries) :=
    sendable other (List.mem_cons_of_mem query member)
  have here := sendable query List.mem_cons_self
  have parts : wire (queries ++ [query]) =
      wire queries ++ Varint.framed (queryBytes query) := by
    unfold wire
    rw [List.flatMap_append, List.flatMap_singleton]
  rw [parts, List.length_append] at enough
  unfold Varint.framed at enough
  rw [List.length_append] at enough
  obtain ⟨left, msg, ran⟩ := @run_pbDecodeDelimited_ended _ queryFields
    (QueryCuts part) (querySegments part) queryZero queryZero
    (Query.received part) (queryBytes query).length
    (SIZE_MAX - (wire queries).length) rfl
    (decodes_query (shortened.sendable here)) shortened.bytes_prefix.length_le
    (lt_of_le_of_lt (length_queryBytes here) (by norm_num)) (by omega) none
  have last := receiveQueries_some ran
  rw [receiveQueries_nil] at last
  unfold pbIstreamFromSocket
  rw [receiveQueries_wire before _ (by omega)]
  exact congrArg _ last

/-- The removal of the node with id 5. -/
def removeFive : Query :=
  ⟨1, [⟨[⟨0, ⟨idText ++ [0], 1, 5, 0, [0]⟩⟩], by simp⟩], [], by simp,
    by simp⟩

/-- A removal without its only filter. -/
def removeAny : Query := ⟨1, [], [], by simp, by simp⟩

theorem receiveQueries_shortened_five :
    receiveQueries (pbIstreamFromSocket (wire [] ++
        (Varint.bytes (queryBytes removeFive).length ++
          queryBytes removeAny))) =
      [].map Query.received ++ [Query.received removeAny] := by
  apply @receiveQueries_shortened removeAny removeFive []
  · decide
  · exact ⟨rfl, Or.inl ⟨List.nil_prefix, rfl⟩⟩
  · have sendable : Query.Sendable removeFive := by decide
    have length := length_framed_query sendable
    have alone : wire ([] ++ [removeFive]) =
        Varint.framed (queryBytes removeFive) ++ [] := rfl
    rw [alone, List.append_nil]
    exact length.trans (by decide)

end Shortened

end Wire

end TreeStore
