import TreeStore.StringRecords

/-!
# Responses on the wire

The server cuts a response into `Response` values, and the client prints their
strings until one is marked as the last.  The stream between them delivers the
values that were sent.
-/

namespace TreeStore

/-- The size of `Response.rString`. -/
abbrev rStringSize : Nat := 1024

structure Response where
  rString : List UInt8
  last : Int
  deriving DecidableEq, Repr

/-- `Response response = {}`. -/
def Response.empty : Response where
  rString := List.replicate rStringSize 0
  last := 0

/-- `strcpy`: what lies behind the copied terminator stays. -/
def strcpy (field : List UInt8) (string : CharPtr) : List UInt8 :=
  textOf string ++ 0 :: field.drop ((textOf string).length + 1)

/-- The body of the splitting loop of `main`. -/
def Response.fill (response : Response) (res : CharPtr) : Response where
  rString :=
    (strncpy res 1023 ++ response.rString.drop 1023).set 1023 0
  last := 0

/-- The `Response` values that `main` sends for the string `res`. -/
def sendResponse (response : Response) (res : CharPtr) :
    Except Fault (List Response) :=
  if 0 ∈ res then
    if _long : 1023 < (textOf res).length then do
      let response := response.fill res
      let rest ← sendResponse response (res.drop 1023)
      return response :: rest
    else
      return [{ rString := strcpy response.rString res, last := 1 }]
  else throw .outOfBounds
termination_by res.length
decreasing_by
  have bound := textOf_length_le res
  rw [List.length_drop]
  omega

/-- The `while` loop of `sendData`: what it prints, and the values that it
leaves in the stream; `none` is a decoding failure. -/
def receiveRest (last : Int) : List Response →
    Option (List UInt8 × List Response)
  | [] => if last ≠ 0 then some ([], []) else none
  | res :: stream =>
      if last ≠ 0 then some ([], res :: stream)
      else do
        let text ← cString res.rString
        let (printed, unread) ← receiveRest res.last stream
        return (text ++ printed, unread)

/-- The reading half of `sendData`. -/
def receiveResponse : List Response → Option (List UInt8 × List Response)
  | [] => none
  | res :: stream => do
      let text ← cString res.rString
      let (printed, unread) ← receiveRest res.last stream
      return (text ++ printed, unread)

/-- The values carry the text: each holds a piece of at most 1023 characters,
and only the final one is marked. -/
inductive Carries : List UInt8 → List Response → Prop
  | last {text : List UInt8} {res : Response} :
      cString res.rString = some text → text.length ≤ 1023 →
      res.last = 1 → Carries text [res]
  | more {chunk text : List UInt8} {res : Response} {rest : List Response} :
      cString res.rString = some chunk → chunk.length ≤ 1023 →
      res.last = 0 → Carries text rest → Carries (chunk ++ text) (res :: rest)

section Sending

variable {response : Response} {text behind : List UInt8}

theorem fill_eq (sized : response.rString.length = rStringSize)
    (noTerminator : 0 ∉ text) (long : 1023 < text.length) :
    response.fill (text ++ 0 :: behind) = ⟨text.take 1023 ++ [0], 0⟩ := by
  have piece : strncpy (text ++ 0 :: behind) 1023 = text.take 1023 := by
    unfold strncpy
    rw [List.take_append_of_le_length long.le,
      textOf_eq_self fun member => noTerminator (List.mem_of_mem_take member)]
    dsimp only
    rw [List.length_take, Nat.min_eq_left long.le]
    simp
  have stale : (response.rString.drop 1023).length = 1 := by
    rw [List.length_drop, sized]
    rfl
  obtain ⟨byte, same⟩ := List.length_eq_one_iff.mp stale
  have length : (text.take 1023).length = 1023 := by
    rw [List.length_take, Nat.min_eq_left long.le]
  unfold Response.fill
  rw [piece, same, List.set_append_right _ _ length.le, length]
  rfl

/-- Every terminated response is sent, in pieces that carry its text. -/
theorem sendResponse_carries (sized : response.rString.length = rStringSize)
    (noTerminator : 0 ∉ text) :
    ∃ sent, sendResponse response (text ++ 0 :: behind) = .ok sent ∧
      Carries text sent := by
  induction count : text.length using Nat.strong_induction_on
    generalizing response text with
  | _ count ih =>
      have terminated : 0 ∈ text ++ 0 :: behind := by simp
      rw [sendResponse, if_pos terminated, textOf_append_zero noTerminator]
      by_cases long : 1023 < text.length
      · have rest : (text ++ 0 :: behind).drop 1023 =
            text.drop 1023 ++ 0 :: behind :=
          List.drop_append_of_le_length long.le
        obtain ⟨sent, sends, carries⟩ := @ih (text.drop 1023).length
          (by rw [List.length_drop]; omega)
          ⟨text.take 1023 ++ [0], 0⟩ (text.drop 1023)
          (by simp [rStringSize]; omega)
          (fun member => noTerminator (List.mem_of_mem_drop member)) rfl
        rw [dif_pos long, fill_eq sized noTerminator long, rest]
        dsimp only
        rw [sends]
        apply Exists.intro (⟨text.take 1023 ++ [0], 0⟩ :: sent)
        apply And.intro rfl
        have carried : Carries (text.take 1023 ++ text.drop 1023)
            (⟨text.take 1023 ++ [0], 0⟩ :: sent) := by
          apply Carries.more _ _ rfl carries
          · exact cString_append_zero
              (fun member => noTerminator (List.mem_of_mem_take member)) _
          · rw [List.length_take]
            exact Nat.min_le_left _ _
        rwa [List.take_append_drop] at carried
      · rw [dif_neg long]
        apply Exists.intro
        apply And.intro rfl
        apply Carries.last _ (by omega) rfl
        rw [strcpy, textOf_append_zero noTerminator]
        exact cString_append_zero noTerminator _

end Sending

section Receiving

variable {text : List UInt8} {sent : List Response}

theorem receiveRest_of_unmarked (stream : List Response) :
    receiveRest 0 stream = receiveResponse stream := by
  cases stream <;> rfl

theorem receiveRest_of_marked (stream : List Response) :
    receiveRest 1 stream = some ([], stream) := by
  cases stream <;> rfl

/-- The reader gets the text back, and stops behind the final value. -/
theorem Carries.receive (carries : Carries text sent)
    (later : List Response) :
    receiveResponse (sent ++ later) = some (text, later) := by
  induction carries with
  | last here _ marked =>
      rw [List.singleton_append, receiveResponse, here, marked,
        receiveRest_of_marked]
      simp
  | more here _ unmarked _ ih =>
      rw [List.cons_append, receiveResponse, here, unmarked,
        receiveRest_of_unmarked, ih]
      rfl

/-- Each piece is a terminated string of at most 1023 characters. -/
theorem Carries.pieces (carries : Carries text sent) :
    ∀ res ∈ sent, ∃ chunk, cString res.rString = some chunk ∧
      chunk.length ≤ 1023 := by
  induction carries with
  | last here short _ => simpa using ⟨_, here, short⟩
  | more here short _ _ ih =>
      rw [List.forall_mem_cons]
      exact ⟨⟨_, here, short⟩, ih⟩

/-- Exactly the final value is marked. -/
theorem Carries.marks (carries : Carries text sent) :
    ∃ front final, sent = front ++ [final] ∧ final.last = 1 ∧
      ∀ res ∈ front, res.last = 0 := by
  induction carries with
  | @last text res _ _ marked => exact ⟨[], res, rfl, marked, by simp⟩
  | @more chunk text res rest _ _ unmarked _ ih =>
      obtain ⟨front, final, rfl, marked, others⟩ := ih
      apply Exists.intro (res :: front)
      apply Exists.intro final
      rw [List.forall_mem_cons]
      exact ⟨rfl, marked, unmarked, others⟩

end Receiving

/-- What the server sends for a text, and what the client makes of it, whatever
follows in the stream. -/
structure Delivered (text : List UInt8) (sent : List Response) : Prop where
  pieces : ∀ res ∈ sent, ∃ chunk, cString res.rString = some chunk ∧
    chunk.length ≤ 1023
  marks : ∃ front final, sent = front ++ [final] ∧ final.last = 1 ∧
    ∀ res ∈ front, res.last = 0
  received : ∀ later, receiveResponse (sent ++ later) = some (text, later)

/-- A response of any length is split and put together without loss. -/
theorem sendResponse_delivered (res : CharPtr) (terminated : 0 ∈ res) :
    ∃ sent, sendResponse Response.empty res = .ok sent ∧
      Delivered (textOf res) sent := by
  obtain ⟨behind, whole⟩ := exists_terminator terminated
  have plain := zero_notMem_textOf res
  have sized : Response.empty.rString.length = rStringSize :=
    List.length_replicate
  obtain ⟨sent, sends, carries⟩ :=
    @sendResponse_carries Response.empty _ behind sized plain
  rw [← whole] at sends
  exact ⟨sent, sends, carries.pieces, carries.marks, carries.receive⟩

/-- A response that fills two values, and leaves nothing for the third. -/
theorem sendResponse_delivered_full :
    ∃ sent, sendResponse Response.empty (List.replicate 2046 65 ++ [0]) =
        .ok sent ∧
      Delivered (textOf (List.replicate 2046 65 ++ [0])) sent :=
  sendResponse_delivered _
    (List.mem_append_right _ (List.mem_singleton.mpr rfl))

end TreeStore
