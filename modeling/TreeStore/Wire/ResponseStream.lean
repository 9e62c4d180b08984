import TreeStore.Wire.Accepted
import TreeStore.Wire.RoundTrip

/-!
# Responses over a connection

The server sends the values of a response through one output stream, and the
client prints their strings until one of them is marked.  `main` of the server
calls `pb_decode_delimited` on the output stream, and reports a failure of it as
one to encode; it is taken as `pb_encode_delimited`.
-/

namespace TreeStore

namespace Wire

section Sending

/-- What the calls of `main` leave in the stream, which goes on after a failure. -/
def sendValues (out : Ostream) (sent : List Response) : Ostream :=
  sent.foldl (fun out response =>
    ((pbEncodeDelimited responseFields response).run out).2) out

/-- The bytes of some values, each with its length in front. -/
def valueBytes (sent : List Response) : List UInt8 :=
  sent.flatMap fun response => Varint.framed (responseBytes response)

theorem length_responseBytes {response : Response}
    (sendable : Terminated rStringSize response.rString) :
    (responseBytes response).length ≤ responseSize := by
  have rString := @length_framedBytes 1 (textOf response.rString) 1023 1
    (by decide) (Nat.le_of_lt_succ sendable.1) (by norm_num)
  have last := @length_int32Bytes 2 (by decide) (.ofInt response.last)
  unfold responseSize
  simp only [responseBytes, List.flatten_cons, List.flatten_nil,
    List.length_append, List.length_nil]
  omega

theorem writes_delimited_response {response : Response}
    (sendable : Terminated rStringSize response.rString) :
    Writes (pbEncodeDelimited responseFields response)
      (Varint.framed (responseBytes response)) :=
  writes_pbEncodeSubmessage (writes_response sendable)
    (lt_of_le_of_lt (length_responseBytes sendable) (by norm_num))

/-- As long as there is room, all values are sent. -/
theorem sendValues_eq {out : Ostream} {sent : List Response}
    (sendable : ∀ response ∈ sent, Terminated rStringSize response.rString)
    (clean : out.errmsg = none) (room : out.HasRoom (valueBytes sent).length) :
    sendValues out sent = out.put (valueBytes sent) := by
  induction sent generalizing out with
  | nil => exact Ostream.put_nil.symm
  | cons response sent ih =>
      have parts : valueBytes (response :: sent) =
        Varint.framed (responseBytes response) ++ valueBytes sent := rfl
      rw [parts] at room ⊢
      have first := writes_delimited_response
        (sendable response List.mem_cons_self) out clean room.first
      unfold sendValues at ih ⊢
      rw [List.foldl_cons, first, Ostream.put_append]
      exact ih (fun other member =>
        sendable other (List.mem_cons_of_mem response member)) clean room.rest

end Sending

section Receiving

/-- The `while` loop of `sendData`, with what it has printed and `res`. -/
def receiveRound (before : List UInt8 × Response) :
    Decoder ((List UInt8 × Response) ⊕ List UInt8) :=
  if before.2.last ≠ 0 then return .inr before.1
  else do
    let res ← pbDecodeDelimited responseFields before.2
    return .inl (before.1 ++ textOf res.rString, res)

theorem receiveRound_progresses : Fallible.Progresses receiveRound := by
  intro before stream after stream' ran
  unfold receiveRound at ran
  split_ifs at ran
  · cases ran
  · exact (pbDecodeDelimited_consumes responseFields before.2).bind _ _ _ _ ran

/-- What the reading half of `sendData` prints.  A string that has been decoded
ends in its array. -/
def receiveText : Decoder (List UInt8) := do
  let res ← pbDecodeDelimited responseFields Response.empty
  Fallible.loop receiveRound_progresses (textOf res.rString, res)

variable {text printed : List UInt8} {sent : List Response}

theorem reads_response {response : Response}
    (sendable : Terminated rStringSize response.rString) (before : Response) :
    Reads (pbDecodeDelimited responseFields before)
      (Varint.framed (responseBytes response)) (Response.received response)
      Never :=
  (fills_response sendable before).reads_framed
    (lt_of_le_of_lt (length_responseBytes sendable) (by norm_num))

theorem textOf_received {response : Response} :
    textOf (Response.received response).rString = textOf response.rString :=
  textOf_append_zero (zero_notMem_textOf _) _

theorem last_received {response : Response}
    (marked : response.last = 0 ∨ response.last = 1) :
    (Response.received response).last = response.last := by
  unfold Response.received
  dsimp only
  rcases marked with same | same
  · rw [same]
    rfl
  · rw [same]
    rfl

/-- A value of a response has room for its string and the terminator. -/
theorem terminated_of_carries {response : Response} {chunk : List UInt8}
    (here : cString response.rString = some chunk)
    (short : chunk.length ≤ 1023) :
    Terminated rStringSize response.rString ∧
      textOf response.rString = chunk := by
  unfold cString at here
  split_ifs at here with ends
  cases here
  exact ⟨⟨Nat.lt_succ_of_le short, ends⟩, rfl⟩

theorem terminated_values (carries : Carries text sent) :
    ∀ response ∈ sent, Terminated rStringSize response.rString := by
  intro response member
  obtain ⟨chunk, here, short⟩ := carries.pieces response member
  exact (terminated_of_carries here short).1

/-- One value for the loop. -/
theorem reads_round {response before : Response} (unmarked : before.last = 0)
    (sendable : Terminated rStringSize response.rString) :
    Reads (receiveRound (printed, before))
      (Varint.framed (responseBytes response))
      (.inl (printed ++ textOf response.rString, Response.received response))
      Never := by
  unfold receiveRound
  rw [if_neg (not_not.mpr unmarked)]
  apply (reads_response sendable before).then_pure
  rw [textOf_received]

/-- The loop ends behind the value that is marked. -/
theorem reads_marked {response : Response} (marked : response.last = 1) :
    Reads (Fallible.loop receiveRound_progresses
      (printed, Response.received response)) [] printed Never := by
  apply Reads.loop_inr
  unfold receiveRound
  rw [last_received (Or.inr marked), marked, if_pos (by decide)]
  exact reads_pure _

theorem reads_values (carries : Carries text sent) {before : Response}
    (unmarked : before.last = 0) :
    Reads (Fallible.loop receiveRound_progresses (printed, before))
      (valueBytes sent) (printed ++ text) Never := by
  induction carries generalizing printed before with
  | @last text response here short marked =>
      obtain ⟨sendable, same⟩ := terminated_of_carries here short
      have round := @reads_round printed response before unmarked sendable
      rw [same] at round
      exact round.loop_inl (reads_marked marked)
  | @more chunk text response rest here short marked _ ih =>
      obtain ⟨sendable, same⟩ := terminated_of_carries here short
      have round := @reads_round printed response before unmarked sendable
      rw [same] at round
      have later := @ih (printed ++ chunk) (Response.received response)
        ((last_received (Or.inl marked)).trans marked)
      rw [List.append_assoc] at later
      exact round.loop_inl later

/-- The values that carry a text are read, and nothing behind them; if the
connection ends before, the client notices. -/
theorem reads_receiveText (carries : Carries text sent) :
    Reads receiveText (valueBytes sent) text Never := by
  cases carries with
  | @last text response here short marked =>
      obtain ⟨sendable, same⟩ := terminated_of_carries here short
      apply (reads_response sendable Response.empty).bind
      rw [textOf_received, same]
      exact reads_marked marked
  | @more chunk text response rest here short marked later =>
      obtain ⟨sendable, same⟩ := terminated_of_carries here short
      apply (reads_response sendable Response.empty).bind
      rw [textOf_received, same]
      exact reads_values later ((last_received (Or.inl marked)).trans marked)

end Receiving

/-- A response of any length goes over the connection: the server cuts it into
values that fit, the stream takes all of them, and the client puts their strings
together. -/
theorem response_received (res : CharPtr) (terminated : 0 ∈ res) :
    ∃ sent, sendResponse Response.empty res = .ok sent ∧
      (∀ value ∈ sent, 0 ∈ value.rString ∧
        (textOf value.rString).length ≤ 1023) ∧
      (∀ out : Ostream, out.errmsg = none →
        out.HasRoom (valueBytes sent).length →
          sendValues out sent = out.put (valueBytes sent)) ∧
      Reads receiveText (valueBytes sent) (textOf res) Never := by
  obtain ⟨behind, whole⟩ := exists_terminator terminated
  have sized : Response.empty.rString.length = rStringSize :=
    List.length_replicate
  obtain ⟨sent, sends, carries⟩ := @sendResponse_carries Response.empty _
    behind sized (zero_notMem_textOf res)
  rw [← whole] at sends
  have fit := terminated_values carries
  refine ⟨sent, sends, ?_, ?_, reads_receiveText carries⟩
  · exact fun value member =>
      ⟨(fit value member).2, Nat.le_of_lt_succ (fit value member).1⟩
  · exact fun out clean room => sendValues_eq fit clean room

/-- Fifteen hundred characters, which take two values. -/
theorem response_received_long :
    ∃ sent, sendResponse Response.empty (List.replicate 1500 65 ++ [0]) =
        .ok sent ∧
      (∀ value ∈ sent, 0 ∈ value.rString ∧
        (textOf value.rString).length ≤ 1023) ∧
      (∀ out : Ostream, out.errmsg = none →
        out.HasRoom (valueBytes sent).length →
          sendValues out sent = out.put (valueBytes sent)) ∧
      Reads receiveText (valueBytes sent)
        (textOf (List.replicate 1500 65 ++ [0])) Never :=
  response_received _ (List.mem_append_right _ (List.mem_singleton.mpr rfl))

end Wire

end TreeStore
