import TreeStore.Wire.Input
import TreeStore.Wire.Output
import TreeStore.StringRecords

/-!
# Fields and messages

`pb_encode` and `pb_decode_inner` go by the descriptor of a message, a list of
its fields.  A field says how it is encoded and decoded; it accesses the message
through two functions.  `pb_field_iter_find` is a search for the tag, and the
fields without presence or packing that the messages have are the only ones.
-/

namespace TreeStore

namespace Wire

open ByteFile

/-- A field of the messages in `σ`. -/
structure Field (σ : Type) where
  tag : UInt32
  required : Bool
  setToDefault : σ → σ
  encodeField : σ → Encoder Unit
  decodeField : UInt32 → σ → Decoder σ

section Messages

variable {σ : Type}

/-- `pb_encode`. -/
def pbEncode : List (Field σ) → σ → Encoder Unit
  | [], _ => return
  | field :: rest, message => do
      field.encodeField message
      pbEncode rest message

variable (fields : List (Field σ))

/-- `pb_message_set_to_defaults`. -/
def pbMessageSetToDefaults (message : σ) : σ :=
  fields.foldl (fun message field => field.setToDefault message) message

/-- `pb_field_iter_find`: the field with this tag and the number of required
fields before it. -/
def pbFieldIterFind (tag : UInt32) :
    List (Field σ) → Nat → Option (Field σ × Nat)
  | [], _ => none
  | field :: rest, requiredFieldIndex =>
      if field.tag = tag then some (field, requiredFieldIndex)
      else pbFieldIterFind tag rest
        (if field.required then requiredFieldIndex + 1 else requiredFieldIndex)

/-- The bits of `fields_seen` after a field. -/
def markSeen (field : Field σ) (requiredFieldIndex fieldsSeen : Nat) : Nat :=
  if field.required then fieldsSeen ||| 1 <<< requiredFieldIndex else fieldsSeen

/-- The loop of `pb_decode_inner`, with the message and `fields_seen`. -/
def decodeRound (before : σ × Nat) : Decoder ((σ × Nat) ⊕ (σ × Nat)) := do
  if (← bytesLeft) = 0 then return .inr before
  else
    match ← pbDecodeTag with
    | none => return .inr before
    | some (tag, wireType) =>
        if tag = 0 then returnError "zero tag"
        else
          match pbFieldIterFind tag fields 0 with
          | none => do
              pbSkipField wireType
              return .inl before
          | some (field, index) => do
              let message ← field.decodeField wireType before.1
              return .inl (message, markSeen field index before.2)

theorem pbDecodeVarint32Eof_consumes {stream stream' : Istream} {dest : UInt32}
    (ran : pbDecodeVarint32Eof.run stream = (some (some dest), stream')) :
    stream'.undelivered < stream.undelivered := by
  obtain ⟨first, middle, read, rest⟩ := Fallible.bind_eq_some ran
  cases first with
  | none =>
      obtain ⟨left, same, -, rest⟩ := Fallible.bind_eq_some rest
      split_ifs at rest
      all_goals cases rest
  | some byte =>
      have less := Fallible.size_le_of_run rest
      unfold orElse at read
      dsimp only at read
      cases ran' : (some <$> pbReadbyte).run stream with
      | mk outcome other =>
          rw [ran'] at read
          cases outcome with
          | none => cases read
          | some result =>
              cases read
              obtain ⟨same, other, here, last⟩ := Fallible.bind_eq_some ran'
              cases last
              exact less.trans_lt (pbReadbyte_consumes _ _ _ here)

theorem pbDecodeTag_consumes {stream stream' : Istream}
    {found : UInt32 × UInt32}
    (ran : pbDecodeTag.run stream = (some (some found), stream')) :
    stream'.undelivered < stream.undelivered := by
  obtain ⟨dest, middle, read, rest⟩ := Fallible.bind_eq_some ran
  cases dest with
  | none => cases rest
  | some temp =>
      cases rest
      exact pbDecodeVarint32Eof_consumes read

theorem decodeRound_progresses : Fallible.Progresses (decodeRound fields) := by
  intro before stream after stream' ran
  obtain ⟨left, same, asked, rest⟩ := Fallible.bind_eq_some ran
  cases asked
  split_ifs at rest
  · cases rest
  · obtain ⟨found, middle, read, rest⟩ := Fallible.bind_eq_some rest
    cases found with
    | none => cases rest
    | some found =>
        exact (Fallible.size_le_of_run rest).trans_lt
          (pbDecodeTag_consumes read)

/-- The bits of all required fields. -/
def allSeen : Nat := 2 ^ fields.countP (·.required) - 1

/-- The check of `pb_decode_inner` behind the loop. -/
def checkRequired (final : σ × Nat) : Decoder σ :=
  if final.2 ≠ allSeen fields then returnError "missing required field"
  else return final.1

/-- `pb_decode_inner`; `noinit` is the flag `PB_DECODE_NOINIT`. -/
def pbDecodeInner (noinit : Bool) (message : σ) : Decoder σ := do
  let message :=
    if noinit then message else pbMessageSetToDefaults fields message
  let final ← Fallible.loop (decodeRound_progresses fields) (message, 0)
  checkRequired fields final

/-- `pb_encode_delimited`. -/
def pbEncodeDelimited (message : σ) : Encoder Unit :=
  pbEncodeSubmessage (pbEncode fields message)

/-- `pb_decode_delimited`. -/
def pbDecodeDelimited (message : σ) : Decoder σ :=
  withSubstream (pbDecodeInner fields false message)

end Messages

/-- The wire type has to be the one of the field. -/
def checkWireType {α : Type} (wireType expected : UInt32)
    (decoder : Decoder α) : Decoder α :=
  if wireType ≠ expected then returnError "wrong wire type" else decoder

section Kinds

variable {σ τ : Type} (tag : UInt32)

/-- A required `int32`.  The varint is cast first, so it always fits. -/
def int32Field (get : σ → Int32) (set : σ → Int32 → σ) : Field σ where
  tag := tag
  required := true
  setToDefault message := set message 0
  encodeField message := do
    pbEncodeTag PB_WT_VARINT tag
    pbEncodeVarint (get message).toInt64.toUInt64
  decodeField wireType message := checkWireType wireType PB_WT_VARINT do
    return set message (← pbDecodeVarint).toUInt32.toInt32

/-- A required `int64`. -/
def int64Field (get : σ → Int64) (set : σ → Int64 → σ) : Field σ where
  tag := tag
  required := true
  setToDefault message := set message 0
  encodeField message := do
    pbEncodeTag PB_WT_VARINT tag
    pbEncodeVarint (get message).toUInt64
  decodeField wireType message := checkWireType wireType PB_WT_VARINT do
    return set message (← pbDecodeVarint).toInt64

/-- `pb_decode_fixed32`. -/
def pbDecodeFixed32 : Decoder UInt32 := do
  return .ofNat (leValue (← pbRead 4))

/-- A required `float`. -/
def floatField (get : σ → UInt32) (set : σ → UInt32 → σ) : Field σ where
  tag := tag
  required := true
  setToDefault message := set message 0
  encodeField message := do
    pbEncodeTag PB_WT_32BIT tag
    pbEncodeFixed32 (get message)
  decodeField wireType message := checkWireType wireType PB_WT_32BIT do
    return set message (← pbDecodeFixed32)

/-- `pb_dec_string` for an array of `dataSize` characters. -/
def pbDecString (dataSize : Nat) (dest : List UInt8) :
    Decoder (List UInt8) := do
  let size ← pbDecodeVarint32
  if size = 0xFFFFFFFF then returnError "size too large"
  else if dataSize < size.toNat + 1 then returnError "string overflow"
  else
    let buf ← pbRead size.toNat
    return buf ++ 0 :: dest.drop (size.toNat + 1)

/-- A required `string` of `dataSize` characters. -/
def stringField (dataSize : Nat) (get : σ → List UInt8)
    (set : σ → List UInt8 → σ) : Field σ where
  tag := tag
  required := true
  setToDefault message := set message (List.replicate dataSize 0)
  encodeField message := do
    pbEncodeTag PB_WT_STRING tag
    pbEncString dataSize (get message)
  decodeField wireType message := checkWireType wireType PB_WT_STRING do
    return set message (← pbDecString dataSize (get message))

/-- A required submessage, which is decoded into the one that is there. -/
def messageField (fields : List (Field τ)) (get : σ → τ) (set : σ → τ → σ) :
    Field σ where
  tag := tag
  required := true
  setToDefault message :=
    set message (pbMessageSetToDefaults fields (get message))
  encodeField message := do
    pbEncodeTag PB_WT_STRING tag
    pbEncodeSubmessage (pbEncode fields (get message))
  decodeField wireType message := checkWireType wireType PB_WT_STRING do
    return set message (← withSubstream (pbDecodeInner fields true (get message)))

/-- `encode_array` for submessages. -/
def encodeArray (fields : List (Field τ)) : List τ → Encoder Unit
  | [] => return
  | element :: rest => do
      pbEncodeTag PB_WT_STRING tag
      pbEncodeSubmessage (pbEncode fields element)
      encodeArray fields rest

/-- Repeated submessages.  The array has room for as many of them as its type
says; `push` puts an element behind the others, if there is room, and `blank` is
what lies there before. -/
def repeatedField (fields : List (Field τ)) (blank : τ) (get : σ → List τ)
    (clear : σ → σ) (push : σ → τ → Option σ) : Field σ where
  tag := tag
  required := false
  setToDefault := clear
  encodeField message := encodeArray tag fields (get message)
  decodeField wireType message :=
    match push message blank with
    | none => returnError "array overflow"
    | some _ => checkWireType wireType PB_WT_STRING do
        let element ← withSubstream (pbDecodeInner fields false blank)
        match push message element with
        | none => returnError "array overflow"
        | some message => return message

end Kinds

end Wire

end TreeStore
