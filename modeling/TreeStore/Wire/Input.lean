import TreeStore.Library.Fallible

/-!
# Reading from the connection

The input half of `pb_decode.c`, with the callback of `common.c`.  The bytes that
the peer will have sent when it closes the connection are a list; `recv` waits
for all that it is asked for, and comes back with less only at the end of that
list.
-/

namespace TreeStore

namespace Wire

/-- `pb_istream_t`.  A substream reads from the same connection. -/
structure Istream where
  state : List UInt8
  bytesLeft : Nat
  errmsg : Option String
  deriving DecidableEq, Repr

def Istream.undelivered (stream : Istream) : Nat := stream.state.length

/-- A function that returns `false` is one without a result. -/
abbrev Decoder := Fallible Istream.undelivered

section Primitives

variable {α : Type}

/-- `PB_RETURN_ERROR`, which keeps an earlier message. -/
def returnError (msg : String) : Decoder α where
  run stream := (none, { stream with errmsg := stream.errmsg.getD msg })
  shrinks _ := le_refl _

def returnFalse : Decoder α where
  run stream := (none, stream)
  shrinks _ := le_refl _

def bytesLeft : Decoder Nat where
  run stream := (some stream.bytesLeft, stream)
  shrinks _ := le_refl _

/-- `bytes_left -= count`, and zero if that is negative. -/
def subtract (count : Nat) : Decoder Unit where
  run stream := (some (), { stream with bytesLeft := stream.bytesLeft - count })
  shrinks _ := le_refl _

/-- What is done if a function has returned `false`. -/
def orElse (decoder rest : Decoder α) : Decoder α where
  run stream :=
    match decoder.run stream with
    | (some result, stream') => (some result, stream')
    | (none, stream') => rest.run stream'
  shrinks stream := by
    cases ran : decoder.run stream with
    | mk outcome stream' =>
        have less := Fallible.size_le_of_run ran
        cases outcome with
        | some result => exact less
        | none => exact (rest.shrinks stream').trans less

end Primitives

/-- `readCallback`.  What `recv` got before the end is gone. -/
def readCallback (count : Nat) : Decoder (List UInt8) where
  run stream :=
    if count = 0 then (some [], stream)
    else
      let received := stream.state.take count
      let bytesLeft := if received.length = 0 then 0 else stream.bytesLeft
      (if received.length = count then some received else none,
        ⟨stream.state.drop count, bytesLeft, stream.errmsg⟩)
  shrinks stream := by
    split_ifs
    · exact le_refl _
    all_goals
      simp [Istream.undelivered]

def pbRead (count : Nat) : Decoder (List UInt8) :=
  if count = 0 then return []
  else do
    if (← bytesLeft) < count then returnError "end-of-stream"
    else
      let buf ← orElse (readCallback count) (returnError "io error")
      subtract count
      return buf

/-- `pb_read` with a null pointer, which reads the bytes sixteen at a time. -/
def pbSkip (count : Nat) : Decoder Unit :=
  if 16 < count then do
    let _ ← pbRead 16
    pbSkip (count - 16)
  else do
    let _ ← pbRead count
    return

/-- `pb_readbyte`. -/
def pbReadbyte : Decoder UInt8 := do
  if (← bytesLeft) = 0 then returnError "end-of-stream"
  else
    let buf ← orElse (readCallback 1) (returnError "io error")
    subtract 1
    return buf.headD 0

section Varints

/-- The loop of `pb_decode_varint32_eof`: its variables before a round are
`bitpos` and `result`. -/
def varint32Round (before : Nat × UInt32) :
    Decoder ((Nat × UInt32) ⊕ UInt32) := do
  let (bitpos, result) := before
  let byte ← pbReadbyte
  let continues (result : UInt32) : (Nat × UInt32) ⊕ UInt32 :=
    if byte &&& 0x80 ≠ 0 then .inl (bitpos + 7, result) else .inr result
  if 32 ≤ bitpos then
    let signExtension : UInt8 := if bitpos < 63 then 0xFF else 0x01
    let validExtension := byte &&& 0x7F = 0 ∨
      result >>> 31 ≠ 0 ∧ byte = signExtension
    if 64 ≤ bitpos ∨ ¬ validExtension then returnError "varint overflow"
    else return continues result
  else if bitpos = 28 then
    if byte &&& 0x70 ≠ 0 ∧ byte &&& 0x78 ≠ 0x78 then
      returnError "varint overflow"
    else
      return continues
        (result ||| (byte &&& 0x0F).toUInt32 <<< UInt32.ofNat bitpos)
  else
    return continues
      (result ||| (byte &&& 0x7F).toUInt32 <<< UInt32.ofNat bitpos)

/-- The loop of `pb_decode_varint`. -/
def varintRound (before : Nat × UInt64) :
    Decoder ((Nat × UInt64) ⊕ UInt64) := do
  let (bitpos, result) := before
  let byte ← pbReadbyte
  if 63 ≤ bitpos ∧ byte &&& 0xFE ≠ 0 then returnError "varint overflow"
  else
    let result := result ||| (byte &&& 0x7F).toUInt64 <<< UInt64.ofNat bitpos
    if byte &&& 0x80 ≠ 0 then return .inl (bitpos + 7, result)
    else return .inr result

/-- The loop of `pb_skip_varint`. -/
def skipRound (_ : Unit) : Decoder (Unit ⊕ Unit) := do
  let byte ← pbRead 1
  if byte.headD 0 &&& 0x80 ≠ 0 then return .inl () else return .inr ()

theorem orElse_error_eq_some {α : Type} {decoder : Decoder α} {msg : String}
    {stream stream' : Istream} {result : α}
    (ran : (orElse decoder (returnError msg)).run stream =
      (some result, stream')) : decoder.run stream = (some result, stream') := by
  unfold orElse at ran
  dsimp only at ran
  cases before : decoder.run stream with
  | mk outcome middle =>
      rw [before] at ran
      cases outcome with
      | none => cases ran
      | some other => exact ran

theorem readCallback_consumes {count : Nat} (some_asked : count ≠ 0) :
    (readCallback count).Consumes := by
  intro stream stream' received ran
  unfold readCallback at ran
  dsimp only at ran
  rw [if_neg some_asked] at ran
  obtain ⟨got, rfl⟩ := Prod.mk.inj ran
  split_ifs at got with all
  simp only [Istream.undelivered, List.length_drop, List.length_take] at all ⊢
  omega

theorem received_consumes {count : Nat} (some_asked : count ≠ 0) (msg : String) :
    (orElse (readCallback count) (returnError msg)).Consumes :=
  fun stream stream' received ran =>
    readCallback_consumes some_asked stream stream' received
      (orElse_error_eq_some ran)

theorem pbReadbyte_consumes : pbReadbyte.Consumes := by
  intro stream stream' byte ran
  obtain ⟨left, middle, asked, rest⟩ := Fallible.bind_eq_some ran
  cases asked
  split_ifs at rest with empty
  · cases rest
  · exact ((received_consumes one_ne_zero _).bind _) _ _ _ rest

theorem pbRead_consumes {count : Nat} (some_asked : count ≠ 0) :
    (pbRead count).Consumes := by
  intro stream stream' buf ran
  unfold pbRead at ran
  rw [if_neg some_asked] at ran
  obtain ⟨left, middle, asked, rest⟩ := Fallible.bind_eq_some ran
  cases asked
  split_ifs at rest with short
  · cases rest
  · exact ((received_consumes some_asked _).bind _) _ _ _ rest

theorem varint32Round_progresses : Fallible.Progresses varint32Round :=
  Fallible.Consumes.progresses fun _ => pbReadbyte_consumes.bind _

theorem varintRound_progresses : Fallible.Progresses varintRound :=
  Fallible.Consumes.progresses fun _ => pbReadbyte_consumes.bind _

theorem skipRound_progresses : Fallible.Progresses skipRound :=
  Fallible.Consumes.progresses fun _ => (pbRead_consumes one_ne_zero).bind _

end Varints

/-- `pb_decode_varint32_eof`; the result is `none` if it returns `false` and
sets `eof`. -/
def pbDecodeVarint32Eof : Decoder (Option UInt32) := do
  match ← orElse (some <$> pbReadbyte) (return none) with
  | none => if (← bytesLeft) = 0 then return none else returnFalse
  | some byte =>
      if byte &&& 0x80 = 0 then return some byte.toUInt32
      else
        let first := (byte &&& 0x7F).toUInt32
        return some (← Fallible.loop varint32Round_progresses (7, first))

def pbDecodeVarint32 : Decoder UInt32 := do
  match ← pbDecodeVarint32Eof with
  | none => returnFalse
  | some dest => return dest

def pbDecodeVarint : Decoder UInt64 :=
  Fallible.loop varintRound_progresses (0, 0)

def pbSkipVarint : Decoder Unit :=
  Fallible.loop skipRound_progresses ()

def pbSkipString : Decoder Unit := do
  let length ← pbDecodeVarint32
  pbSkip length.toNat

/-- The wire types. -/
abbrev PB_WT_VARINT : UInt32 := 0
abbrev PB_WT_64BIT : UInt32 := 1
abbrev PB_WT_STRING : UInt32 := 2
abbrev PB_WT_32BIT : UInt32 := 5

/-- `pb_decode_tag`: the tag and the wire type, and `none` as above. -/
def pbDecodeTag : Decoder (Option (UInt32 × UInt32)) := do
  match ← pbDecodeVarint32Eof with
  | none => return none
  | some temp => return some (temp >>> 3, temp &&& 7)

def pbSkipField (wireType : UInt32) : Decoder Unit :=
  if wireType = PB_WT_VARINT then pbSkipVarint
  else if wireType = PB_WT_64BIT then pbSkip 8
  else if wireType = PB_WT_STRING then pbSkipString
  else if wireType = PB_WT_32BIT then pbSkip 4
  else returnError "invalid wire_type"

section Substreams

variable {α : Type}

/-- `pb_make_string_substream`: the size of the substream, which starts where the
stream stands. -/
def pbMakeStringSubstream : Decoder Nat := do
  let size ← pbDecodeVarint32
  if (← bytesLeft) < size.toNat then returnError "parent stream too short"
  else
    subtract size.toNat
    return size.toNat

/-- `pb_close_string_substream`, as far as it works on the substream. -/
def pbCloseStringSubstream : Decoder Unit := do
  let left ← bytesLeft
  if left ≠ 0 then pbSkip left else return

/-- What the end of a substream makes of its outcome.  If the rest of it cannot
be read, the stream does not get its message. -/
def leaveSubstream (stream : Istream) :
    Option α × Istream → Option α × Istream
  | (status, substream) =>
      match pbCloseStringSubstream.run substream with
      | (some _, substream) =>
          (status, ⟨substream.state, stream.bytesLeft, substream.errmsg⟩)
      | (none, substream) => (none, { stream with state := substream.state })

theorem undelivered_leaveSubstream_le (stream : Istream)
    (outcome : Option α × Istream) :
    (leaveSubstream stream outcome).2.undelivered ≤ outcome.2.undelivered := by
  rcases outcome with ⟨status, substream⟩
  unfold leaveSubstream
  dsimp only
  cases closed : pbCloseStringSubstream.run substream with
  | mk finished rest =>
      have less := Fallible.size_le_of_run closed
      cases finished <;> exact less

/-- What is done with a substream of this size between its two ends. -/
def onSubstream (inner : Decoder α) (size : Nat) : Decoder α where
  run stream :=
    leaveSubstream stream (inner.run { stream with bytesLeft := size })
  shrinks stream :=
    (undelivered_leaveSubstream_le stream _).trans
      (inner.shrinks { stream with bytesLeft := size })

def withSubstream (inner : Decoder α) : Decoder α := do
  let size ← pbMakeStringSubstream
  onSubstream inner size

end Substreams

end Wire

end TreeStore
