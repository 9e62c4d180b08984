import TreeStore.Wire.RoundTrip
import TreeStore.Wire.Received

/-!
# Queries over a connection

The client opens an output stream for each query and sends it; the server reads
one query after the other from its input stream, until it cannot decode one.
-/

namespace TreeStore

namespace Wire

abbrev SIZE_MAX : Nat := 2 ^ 64 - 1

/-- `pbOstreamFromSocket`, when these bytes have been sent already. -/
def pbOstreamFromSocket (sent : List UInt8) : Ostream :=
  ⟨true, sent, SIZE_MAX, 0, none⟩

/-- `pbIstreamFromSocket`. -/
def pbIstreamFromSocket (delivered : List UInt8) : Istream :=
  ⟨delivered, SIZE_MAX, none⟩

/-- What the connection has after the client has tried to send a query. -/
def sendQuery (sent : List UInt8) (query : Query) : List UInt8 :=
  ((pbEncodeDelimited queryFields query).run (pbOstreamFromSocket sent)).2.state

theorem pbDecodeDelimited_consumes {σ : Type} (fields : List (Field σ))
    (message : σ) : (pbDecodeDelimited fields message).Consumes := by
  have length : pbDecodeVarint32.Consumes := by
    intro stream stream' dest ran
    obtain ⟨found, middle, read, rest⟩ := Fallible.bind_eq_some ran
    cases found with
    | none => cases rest
    | some temp =>
        cases rest
        exact pbDecodeVarint32Eof_consumes read
  exact (length.bind _).bind _

/-- The queries that `main` of the server decodes, one in each round. -/
def receiveQueries (stream : Istream) : List Query :=
  match ran : (pbDecodeDelimited queryFields queryZero).run stream with
  | (none, _) => []
  | (some query, stream') =>
      have _less := pbDecodeDelimited_consumes _ _ _ _ _ ran
      query :: receiveQueries stream'
termination_by stream.undelivered

section Sending

variable {sent : List UInt8} {query : Query}

theorem hasRoom_query (sendable : Query.Sendable query) :
    (pbOstreamFromSocket sent).HasRoom
      (Varint.framed (queryBytes query)).length := by
  intro _
  have bounded := length_queryBytes sendable
  have length : (Varint.bytes (queryBytes query).length).length ≤ 3 :=
    Varint.length_bytes_le (lt_of_le_of_lt bounded (by norm_num))
  unfold Varint.framed
  rw [List.length_append]
  unfold pbOstreamFromSocket SIZE_MAX
  unfold querySize at bounded
  dsimp only
  omega

/-- A query is sent as a whole. -/
theorem sendQuery_of_sendable (sendable : Query.Sendable query) :
    sendQuery sent query = sent ++ Varint.framed (queryBytes query) := by
  have ran := writes_delimited_query sendable (pbOstreamFromSocket sent) rfl
    (hasRoom_query sendable)
  unfold sendQuery
  rw [ran]
  rfl

/-- If a string does not end within its array, nothing is sent: this shows
already when the size of the message is counted. -/
theorem sendQuery_of_not_sendable (unsendable : ¬ Query.Sendable query) :
    sendQuery sent query = sent := by
  have fails := refuses_query unsendable Ostream.sizing
  unfold sendQuery pbEncodeDelimited pbEncodeSubmessage
  dsimp only
  cases ran : (pbEncode queryFields query).run Ostream.sizing with
  | mk outcome substream =>
      rw [ran] at fails
      obtain rfl : outcome = none := fails
      rfl

/-- The bytes of some queries, each with its length in front. -/
def wire (queries : List Query) : List UInt8 :=
  queries.flatMap fun query => Varint.framed (queryBytes query)

theorem foldl_sendQuery (queries : List Query) (sent : List UInt8) :
    queries.foldl sendQuery sent =
      sent ++ wire (queries.filter fun query => Query.Sendable query) := by
  induction queries generalizing sent with
  | nil => simp [wire]
  | cons query queries ih =>
      rw [List.foldl_cons, ih]
      by_cases sendable : Query.Sendable query
      · rw [sendQuery_of_sendable sendable, List.filter_cons,
          if_pos (decide_eq_true sendable), List.append_assoc]
        rfl
      · rw [sendQuery_of_not_sendable sendable, List.filter_cons,
          if_neg (by simpa using sendable)]

end Sending

section Receiving

theorem receiveQueries_none {stream stream' : Istream}
    (ran : (pbDecodeDelimited queryFields queryZero).run stream =
      (none, stream')) : receiveQueries stream = [] := by
  rw [receiveQueries]
  split
  · rfl
  · next other => rw [ran] at other; cases other

theorem receiveQueries_some {stream stream' : Istream} {query : Query}
    (ran : (pbDecodeDelimited queryFields queryZero).run stream =
      (some query, stream')) :
    receiveQueries stream = query :: receiveQueries stream' := by
  rw [receiveQueries]
  split
  · next other => rw [ran] at other; cases other
  · next other => rw [ran] at other; cases other; rfl

/-- The end of the connection is no query. -/
theorem receiveQueries_nil (left : Nat) (msg : Option String) :
    receiveQueries ⟨[], left, msg⟩ = [] := by
  cases ran : (pbDecodeDelimited queryFields queryZero).run ⟨[], left, msg⟩ with
  | mk outcome stream' =>
      cases outcome with
      | none => exact receiveQueries_none ran
      | some query =>
          have less := pbDecodeDelimited_consumes _ _ _ _ _ ran
          exact absurd less (Nat.not_lt_zero _)

theorem reads_query {query : Query} (sendable : Query.Sendable query) :
    Reads (pbDecodeDelimited queryFields queryZero)
      (Varint.framed (queryBytes query)) (Query.received query)
      fun part => Query.Begins part (Query.received query) :=
  (fills_query sendable queryZero).reads_framed
    (lt_of_le_of_lt (length_queryBytes sendable) (by norm_num))

variable {queries : List Query} {left : Nat}

/-- Whole queries come in one after the other. -/
theorem receiveQueries_wire
    (sendable : ∀ query ∈ queries, Query.Sendable query) (rest : List UInt8)
    (enough : (wire queries).length ≤ left) (msg : Option String) :
    receiveQueries ⟨wire queries ++ rest, left, msg⟩ =
      queries.map Query.received ++
        receiveQueries ⟨rest, left - (wire queries).length, msg⟩ := by
  induction queries generalizing left with
  | nil => rfl
  | cons query queries ih =>
      have parts : wire (query :: queries) =
        Varint.framed (queryBytes query) ++ wire queries := rfl
      rw [parts, List.length_append] at enough
      have read := (reads_query (sendable query List.mem_cons_self)).whole
        (wire queries ++ rest) left msg (by omega)
      rw [parts, List.append_assoc, receiveQueries_some read,
        ih (fun other member => sendable other (List.mem_cons_of_mem _ member))
          (by omega), List.map_cons, List.length_append, Nat.sub_sub]
      rfl

/-- What the server has of queries whose bytes stop somewhere: those that are
complete, and perhaps one more that begins the next. -/
structure CutShort (queries : List Query) (count : Nat)
    (received : List Query) : Prop where
  split : ∃ done rest, queries = done ++ rest ∧ (wire done).length ≤ count ∧
    (∀ next later, rest = next :: later →
      count < (wire (done ++ [next])).length) ∧
    (received = done.map Query.received ∨ ∃ next later part,
      rest = next :: later ∧ received = done.map Query.received ++ [part] ∧
        Query.Begins part (Query.received next))

theorem receiveQueries_take
    (sendable : ∀ query ∈ queries, Query.Sendable query) (count : Nat)
    (enough : (wire queries).length ≤ left) (msg : Option String) :
    CutShort queries count
      (receiveQueries ⟨(wire queries).take count, left, msg⟩) := by
  induction queries generalizing count left with
  | nil =>
      refine ⟨[], [], rfl, Nat.zero_le _, by simp, Or.inl ?_⟩
      have empty : (wire []).take count = [] := List.take_nil
      rw [empty]
      exact receiveQueries_nil left msg
  | cons query queries ih =>
      have parts : wire (query :: queries) =
        Varint.framed (queryBytes query) ++ wire queries := rfl
      have reads := reads_query (sendable query List.mem_cons_self)
      rw [parts, List.length_append] at enough
      rw [parts, List.take_append]
      by_cases whole : (Varint.framed (queryBytes query)).length ≤ count
      · have read := reads.whole ((wire queries).take
          (count - (Varint.framed (queryBytes query)).length)) left msg
          (by omega)
        rw [List.take_of_length_le whole, receiveQueries_some read]
        obtain ⟨done, rest, same, inside, beyond, received⟩ := @ih
          (left - (Varint.framed (queryBytes query)).length)
          (fun other member => sendable other (List.mem_cons_of_mem _ member))
          (count - (Varint.framed (queryBytes query)).length) (by omega)
        have longer (more : List Query) : (wire (query :: more)).length =
            (Varint.framed (queryBytes query)).length + (wire more).length :=
          List.length_append
        refine ⟨query :: done, rest, by rw [same]; rfl, by rw [longer]; omega,
          ?_, ?_⟩
        · intro next later here
          have far := beyond next later here
          rw [List.cons_append, longer]
          omega
        · rcases received with all | ⟨next, later, part, here, all, begins⟩
          · exact Or.inl (by rw [all]; rfl)
          · exact Or.inr ⟨next, later, part, here, by rw [all]; rfl, begins⟩
      · have nothing : count - (Varint.framed (queryBytes query)).length = 0 := by
          omega
        have early := reads.cut ((Varint.framed (queryBytes query)).take count)
          ((Varint.framed (queryBytes query)).drop count) left msg
          (List.take_append_drop _ _).symm (by
            intro empty
            have := List.drop_eq_nil_iff.mp empty
            omega) (by omega)
        rw [nothing, List.take_zero, List.append_nil]
        refine ⟨[], query :: queries, rfl, Nat.zero_le _, ?_, ?_⟩
        · rintro next later here
          obtain ⟨rfl, -⟩ := List.cons.inj here
          have alone : wire ([] ++ [query]) =
            Varint.framed (queryBytes query) ++ [] := rfl
          rw [alone, List.append_nil]
          omega
        · cases ran : (pbDecodeDelimited queryFields queryZero).run
              ⟨(Varint.framed (queryBytes query)).take count, left, msg⟩ with
          | mk outcome stream' =>
              rw [ran] at early
              cases outcome with
              | none => exact Or.inl (receiveQueries_none ran)
              | some part =>
                  obtain ⟨begins, empty⟩ := early
                  rcases stream' with ⟨rest, left', msg'⟩
                  obtain rfl : rest = [] := empty
                  refine Or.inr ⟨query, queries, part, rfl, ?_, begins⟩
                  rw [receiveQueries_some ran, receiveQueries_nil]
                  rfl

end Receiving

end Wire

end TreeStore
