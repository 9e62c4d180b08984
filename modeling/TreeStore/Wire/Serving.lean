import TreeStore.ReadBack
import TreeStore.ResponseTexts
import TreeStore.Wire.Alike
import TreeStore.Wire.ClientSessions
import TreeStore.Wire.ResponseStream

/-!
# The server

`main` of the server decodes a query, handles it and sends its response, until
it cannot decode one.  The client reads each response through a stream of its
own.  What it prints are the texts that the handler makes, and the file is
changed as if the handler had been called without a connection.
-/

namespace TreeStore

open ProgramLogic

namespace Wire

section Server

/-- The loop of `main`: what it leaves in `out`. -/
def serve (handle : Query → Prog (List UInt8)) (input : Istream)
    (out : Ostream) : Prog Ostream :=
  match ran : (pbDecodeDelimited queryFields queryZero).run input with
  | (none, _) => return out
  | (some query, input') => do
      have _less := pbDecodeDelimited_consumes _ _ _ _ _ ran
      let res ← handle query
      let sent ← sendResponse Response.empty (res ++ [0])
      serve handle input' (sendValues out sent)
termination_by input.undelivered

/-- One round for a query that has been decoded. -/
def answer (handle : Query → Prog (List UInt8)) (out : Ostream)
    (query : Query) : Prog Ostream := do
  let res ← handle query
  let sent ← sendResponse Response.empty (res ++ [0])
  return sendValues out sent

/-- The server decodes queries while it handles others, but it might as well
have decoded all of them before. -/
theorem serve_eq (handle : Query → Prog (List UInt8)) (input : Istream)
    (out : Ostream) :
    serve handle input out = (receiveQueries input).foldlM (answer handle) out := by
  induction count : input.undelivered using Nat.strong_induction_on
    generalizing input out with
  | _ count ih =>
      rw [serve]
      split
      · next ran => rw [receiveQueries_none ran, List.foldlM_nil]
      · next query input' ran =>
          have less := pbDecodeDelimited_consumes _ _ _ _ _ ran
          rw [receiveQueries_some ran, List.foldlM_cons]
          unfold answer
          simp only [bind_assoc, pure_bind]
          congr 1
          funext res
          congr 1
          funext sent
          exact ih input'.undelivered (by omega) input' (sendValues out sent) rfl

/-- The values that `main` sends for a response. -/
def valuesOf (res : CharPtr) : List Response :=
  (sendResponse Response.empty res).toOption.getD []

/-- The bytes of the responses with these texts. -/
def answerBytes (texts : List (List UInt8)) : List UInt8 :=
  texts.flatMap fun res => valueBytes (valuesOf (res ++ [0]))

theorem sends_valuesOf {res : List UInt8} (plain : 0 ∉ res) :
    sendResponse Response.empty (res ++ [0]) = .ok (valuesOf (res ++ [0])) ∧
      Carries res (valuesOf (res ++ [0])) := by
  obtain ⟨sent, sends, carries⟩ := @sendResponse_carries Response.empty res []
    List.length_replicate plain
  have same : valuesOf (res ++ [0]) = sent := by
    unfold valuesOf
    rw [sends]
    rfl
  rw [same]
  exact ⟨sends, carries⟩

variable {handle : Query → Prog (List UInt8)} {queries : List Query}
  {out : Ostream} {world final : World} {texts : List (List UInt8)}

theorem run_answer {query : Query} {res : List UInt8}
    (handled : (handle query).run world = .ok (res, final)) (plain : 0 ∉ res)
    (clean : out.errmsg = none)
    (room : out.HasRoom (valueBytes (valuesOf (res ++ [0]))).length) :
    (answer handle out query).run world =
      .ok (out.put (valueBytes (valuesOf (res ++ [0]))), final) := by
  obtain ⟨sends, carries⟩ := sends_valuesOf plain
  unfold answer
  rw [run_bind_of handled, sends,
    ← sendValues_eq (terminated_values carries) clean room]
  rfl

/-- The server handles the queries as if there were no connection. -/
theorem run_answers (plain : ∀ query, Returns (handle query) (0 ∉ ·))
    (handled : (queries.mapM handle).run world = .ok (texts, final))
    (clean : out.errmsg = none)
    (room : out.HasRoom (answerBytes texts).length) :
    (queries.foldlM (answer handle) out).run world =
      .ok (out.put (answerBytes texts), final) := by
  induction queries generalizing world out texts with
  | nil =>
      rw [List.mapM_nil] at handled
      cases handled
      have none : answerBytes [] = [] := rfl
      rw [none, Ostream.put_nil]
      rfl
  | cons query queries ih =>
      rw [List.mapM_cons] at handled
      obtain ⟨res, middle, first, handled⟩ := exists_of_run_bind handled
      obtain ⟨others, last, rest, ends⟩ := exists_of_run_bind handled
      cases ends
      have parts : answerBytes (res :: others) =
        valueBytes (valuesOf (res ++ [0])) ++ answerBytes others := rfl
      rw [parts] at room ⊢
      have round := run_answer first
        ((plain query).of_run world res middle first) clean room.first
      rw [List.foldlM_cons, run_bind_of round, Ostream.put_append]
      exact ih rest clean room.rest

end Server

section Client

/-- What the client prints for its next queries, each response through a stream
of its own, and the bytes that it leaves. -/
def receiveAnswers : Nat → List UInt8 →
    Option (List (List UInt8) × List UInt8)
  | 0, delivered => some ([], delivered)
  | count + 1, delivered =>
      match receiveText.run (pbIstreamFromSocket delivered) with
      | (none, _) => none
      | (some text, stream) =>
          (receiveAnswers count stream.state).map fun (texts, left) =>
            (text :: texts, left)

theorem receiveAnswers_eq {texts : List (List UInt8)}
    (plain : ∀ res ∈ texts, 0 ∉ res)
    (enough : (answerBytes texts).length ≤ SIZE_MAX) :
    receiveAnswers texts.length (answerBytes texts) = some (texts, []) := by
  induction texts with
  | nil => rfl
  | cons res texts ih =>
      have parts : answerBytes (res :: texts) =
        valueBytes (valuesOf (res ++ [0])) ++ answerBytes texts := rfl
      rw [parts] at enough ⊢
      rw [List.length_append] at enough
      have carries := (sends_valuesOf (plain res List.mem_cons_self)).2
      have read := (reads_receiveText carries).whole (answerBytes texts)
        SIZE_MAX none (by omega)
      have rest := ih (fun other member =>
        plain other (List.mem_cons_of_mem res member)) (by omega)
      rw [List.length_cons, receiveAnswers, pbIstreamFromSocket, read]
      dsimp only
      rw [rest]
      rfl

end Client

/-- What the handler makes of a query that has been sent.  An insertion copies
whole arrays, and those of the server end in zeros. -/
def Query.asHandled (query : Query) : Query :=
  if query.command = 2 then Query.received query else query

theorem mapM_congr {α β : Type} {handle handle' : α → Prog β} {list : List α}
    (same : ∀ element ∈ list, handle element = handle' element) :
    list.mapM handle = list.mapM handle' := by
  induction list with
  | nil => rfl
  | cons element list ih =>
      rw [List.mapM_cons, List.mapM_cons, same element List.mem_cons_self,
        ih fun other member => same other (List.mem_cons_of_mem element member)]

theorem forall_of_run_mapM {α β : Type} {handle : α → Prog β}
    {post : β → Prop} (each : ∀ element, Returns (handle element) post)
    {list : List α} {world final : World} {results : List β}
    (handled : (list.mapM handle).run world = .ok (results, final)) :
    results.length = list.length ∧ ∀ result ∈ results, post result := by
  induction list generalizing world results with
  | nil =>
      rw [List.mapM_nil] at handled
      cases handled
      exact ⟨rfl, fun result member => absurd member List.not_mem_nil⟩
  | cons element list ih =>
      rw [List.mapM_cons] at handled
      obtain ⟨result, middle, first, handled⟩ := exists_of_run_bind handled
      obtain ⟨others, last, rest, ends⟩ := exists_of_run_bind handled
      cases ends
      obtain ⟨length, all⟩ := ih rest
      constructor
      · rw [List.length_cons, length, List.length_cons]
      · intro other member
        rcases List.mem_cons.mp member with rfl | later
        · exact (each element).of_run world other middle first
        · exact all other later

section Sessions

open Client

variable {sent : List Query} {state : State} {inputs : List (List Token)}
  {overflow : Prog Unit} {address : Nat → UInt64} {fuel stack : Nat}
  {world final : World} {texts : List (List UInt8)}

/-- The connection does not change what a query does. -/
theorem handleQuery_received {query : Query} (sendable : Query.Sendable query) :
    handleQuery overflow address fuel stack (Query.received query) =
      handleQuery overflow address fuel stack (Query.asHandled query) := by
  unfold Query.asHandled
  split_ifs with insertion
  · rfl
  · exact handleQuery_congr (alike_received sendable) insertion overflow address
      stack

/-- The server handles what has been sent, and sends the answers. -/
theorem Session.serves (session : Session inputs state sent)
    (enough : (sent.foldl sendQuery []).length ≤ SIZE_MAX)
    (handled : ((sent.map Query.asHandled).mapM
      (handleQuery overflow address fuel stack)).run world = .ok (texts, final))
    (room : (answerBytes texts).length ≤ SIZE_MAX) :
    (serve (handleQuery overflow address fuel stack)
        (pbIstreamFromSocket (sent.foldl sendQuery []))
        (pbOstreamFromSocket [])).run world =
      .ok ((pbOstreamFromSocket []).put (answerBytes texts), final) := by
  have plain (query : Query) := @returns_handleQuery overflow fuel stack address
    query
  have same : (sent.map Query.received).mapM
        (handleQuery overflow address fuel stack) =
      (sent.map Query.asHandled).mapM
        (handleQuery overflow address fuel stack) := by
    rw [List.mapM_map, List.mapM_map]
    apply mapM_congr
    intro query member
    exact handleQuery_received (session.sendable query member)
  rw [serve_eq, session.received enough]
  apply run_answers plain _ rfl
  · intro _
    change 0 + _ ≤ SIZE_MAX
    omega
  · rw [same, handled]

/-- The client reads one answer for each message. -/
theorem receiveAnswers_handled {queries : List Query}
    (handled : (queries.mapM (handleQuery overflow address fuel stack)).run
      world = .ok (texts, final))
    (room : (answerBytes texts).length ≤ SIZE_MAX) :
    receiveAnswers queries.length ((pbOstreamFromSocket []).put
      (answerBytes texts)).state = some (texts, []) := by
  obtain ⟨length, all⟩ := forall_of_run_mapM
    (fun query => @returns_handleQuery overflow fuel stack address query) handled
  rw [← length]
  exact receiveAnswers_eq all room

/-- For every session of the client, the server changes the file and the client
prints texts as if each query had been handed to the handler directly. -/
theorem session_served (session : Session inputs state sent)
    (enough : (sent.foldl sendQuery []).length ≤ SIZE_MAX)
    (handled : ((sent.map Query.asHandled).mapM
      (handleQuery overflow address fuel stack)).run world = .ok (texts, final))
    (room : (answerBytes texts).length ≤ SIZE_MAX) :
    (serve (handleQuery overflow address fuel stack)
        (pbIstreamFromSocket (sent.foldl sendQuery []))
        (pbOstreamFromSocket [])).run world =
      .ok ((pbOstreamFromSocket []).put (answerBytes texts), final) ∧
    receiveAnswers sent.length ((pbOstreamFromSocket []).put
      (answerBytes texts)).state = some (texts, []) := by
  constructor
  · exact session.serves enough handled room
  · rw [← List.length_map Query.asHandled]
    exact receiveAnswers_handled handled room

theorem length_oneFilter : [oneFilter].length ≤ 20 := by
  decide

/-- A query for a field that the store does not have. -/
def unknownQuery : Query :=
  { queryZero with filtersList := [oneFilter], filtersList_le := length_oneFilter }

/-- The texts of a run, to be looked at. -/
def textsOf (program : Prog (List (List UInt8))) (world : World) :
    Option (List (List UInt8)) :=
  (program.run world).toOption.map Prod.fst

theorem exists_of_textsOf {program : Prog (List (List UInt8))}
    (runs : textsOf program world = some texts) :
    ∃ final, program.run world = .ok (texts, final) := by
  unfold textsOf at runs
  cases ran : program.run world with
  | error fault =>
      rw [ran] at runs
      cases runs
  | ok outcome =>
      rw [ran] at runs
      cases runs
      exact ⟨outcome.2, rfl⟩

theorem textsOf_unknown :
    textsOf (([unknownQuery, insertOne].map Query.asHandled).mapM
      (handleQuery (pure ()) (fun _ => 0) 100 8))
        (blankWorld (singleSchema INT).bytes) =
      some [chars "<---- No Results ---->\n",
        chars "Field does not match pattern\n"] := by
  decide +kernel

/-- A short response is one value. -/
theorem length_answerBytes_short {res : List UInt8} (plain : 0 ∉ res)
    (short : res.length ≤ 1023) : (answerBytes [res]).length ≤ 2000 := by
  have one : valuesOf (res ++ [0]) =
      [⟨strcpy Response.empty.rString (res ++ [0]), 1⟩] := by
    unfold valuesOf
    have text : textOf (res ++ [0]) = res := textOf_append_zero plain []
    rw [sendResponse, if_pos (List.mem_append_right _ List.mem_cons_self),
      dif_neg (by rw [text]; omega)]
    rfl
  have bounded := @length_responseBytes
    ⟨strcpy Response.empty.rString (res ++ [0]), 1⟩
    (terminated_values (sends_valuesOf plain).2 _
      (by rw [one]; exact List.mem_cons_self))
  have length : (Varint.bytes (responseBytes
      ⟨strcpy Response.empty.rString (res ++ [0]), 1⟩).length).length ≤ 3 :=
    Varint.length_bytes_le (lt_of_le_of_lt bounded (by norm_num))
  unfold answerBytes valueBytes Varint.framed
  rw [List.flatMap_cons, List.flatMap_nil, one, List.flatMap_cons,
    List.flatMap_nil]
  simp only [List.append_nil, List.length_append]
  unfold responseSize at bounded
  omega

theorem length_answerBytes_le {texts : List (List UInt8)}
    (each : ∀ res ∈ texts, 0 ∉ res ∧ res.length ≤ 1023) :
    (answerBytes texts).length ≤ texts.length * 2000 := by
  apply length_flatMap_le le_rfl
  intro res member
  obtain ⟨plain, short⟩ := each res member
  have one := length_answerBytes_short plain short
  rw [answerBytes, List.flatMap_singleton] at one
  exact one

/-- A search and an insertion for a field that the store does not have. -/
theorem session_served_unknown :
    ∃ final, (serve (handleQuery (pure ()) (fun _ => 0) 100 8)
        (pbIstreamFromSocket ([unknownQuery, insertOne].foldl sendQuery []))
        (pbOstreamFromSocket [])).run (blankWorld (singleSchema INT).bytes) =
      .ok ((pbOstreamFromSocket []).put
        (answerBytes [chars "<---- No Results ---->\n",
          chars "Field does not match pattern\n"]), final) ∧
    receiveAnswers [unknownQuery, insertOne].length
      ((pbOstreamFromSocket []).put
        (answerBytes [chars "<---- No Results ---->\n",
          chars "Field does not match pattern\n"])).state =
        some ([chars "<---- No Results ---->\n",
          chars "Field does not match pattern\n"], []) := by
  obtain ⟨final, handled⟩ := exists_of_textsOf textsOf_unknown
  have few := @length_answerBytes_le [chars "<---- No Results ---->\n",
    chars "Field does not match pattern\n"] (by decide)
  exact ⟨final, session_served session_three
    ((length_sent_le _).trans (by decide)) handled (few.trans (by decide))⟩

end Sessions

end Wire

end TreeStore
